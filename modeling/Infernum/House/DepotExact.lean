import Infernum.House.DepotWaits

/-!
# What a lost house gives back

The items that are collected lie each in a place of its own, and stay there while others are
moved. So the inbox gets all of them if and only if the checks of the moves let every one
through: `moveToInbox` throws the answer away.
-/

namespace Infernum.House

variable {w : CylinderWorld} {o : Others Tiles} {n base inbox item : Nat}
  {h h' : Heap Tiles} {c c' : Cylinder} {items arrivals : List Nat} {house : Estate}

/-! ## While others are moved -/

namespace Carries

theorem isBrowseField (hc : Carries w base inbox items arrivals h h') (k : Nat) :
    IsBrowseField h' k ↔ IsBrowseField h k := by
  rw [IsBrowseField, IsBrowseField, hc.browseFields]

theorem skipsParent (hc : Carries w base inbox items arrivals h h') {k : Nat} (hk : k < h.next) :
    h'.skipsParent (.item k) = h.skipsParent (.item k) := by
  have hkind := congrArg (Option.any ContainerKind.skipsParent) (hc.kind k hk)
  rw [Option.any_map, Option.any_map] at hkind
  exact hkind

theorem contents_tile (hc : Carries w base inbox items arrivals h h') (t : Nat) :
    contents h' (.tile t) = (contents h (.tile t)).filter (· ∉ items) := by
  show (h'.others t).downItems ++ (h'.others t).topItems = _
  rw [hc.others t]
  exact (List.filter_append _ _).symm

theorem contents_item (hc : Carries w base inbox items arrivals h h') {k : Nat} (hk : k < base)
    (hne : k ≠ inbox) (hbrowse : ¬IsBrowseField h k) :
    contents h' (.item k) = (contents h (.item k)).filter (· ∉ items) := by
  show ((h'.container k).map (·.itemlist)).getD [] = (((h.container k).map (·.itemlist)).getD
    []).filter (· ∉ items)
  rw [hc.container k hk hne hbrowse]
  cases h.container k <;> rfl

theorem liesIn (hc : Carries w base inbox items arrivals h h') {i : Nat} (hi : i < h.next)
    (hnot : i ∉ items) (hlies : LiesIn h c i) : LiesIn h' c i := by
  rw [LiesIn, hc.parent i hi hnot, hc.browseFields]
  exact hlies

theorem fixed (hc : Carries w base inbox items arrivals h h') (hf : Fixed base inbox h)
    (hnot : ∀ i ∈ items, ¬IsBrowseField h i) : Fixed base inbox h' := by
  refine ⟨hf.base_le.trans hc.next, hf.inbox_lt, ?_, fun t b hb => ?_⟩
  · obtain ⟨k, hk, hkind, hlocked, hsize⟩ := hf.inbox
    refine ⟨{ k with itemlist := arrivals.reverse ++ k.itemlist }, ?_, hkind, hlocked, hsize⟩
    rw [hc.front, hk]
    rfl
  · rw [hc.browseFields] at hb
    obtain ⟨hlt, hparent, hkind⟩ := hf.browse t b hb
    have hmade := hlt.trans_le hf.base_le
    refine ⟨hlt, ?_, by rw [hc.kind b hmade, hkind]⟩
    rw [hc.parent b hmade fun hmem => hnot b hmem ⟨t, hb⟩, hparent]

theorem source (hc : Carries w base inbox items arrivals h h') (hf : Fixed base inbox h)
    (hnot : ∀ k, c = .item k → k ∉ items) (hs : Source base inbox h c) :
    Source base inbox h' c := by
  cases c with
  | tile t => trivial
  | item k =>
      obtain ⟨hk, hne, hbrowse, hsome, hplain, t, hlies⟩ := hs
      have hmade := hk.trans_le hf.base_le
      refine ⟨hk, hne, mt (hc.isBrowseField k).mp hbrowse, ?_, ?_, t,
        hc.liesIn hmade (hnot k rfl) hlies⟩
      · rw [hc.container k hk hne hbrowse, Option.isSome_map]
        exact hsome
      · rw [hc.skipsParent hmade]
        exact hplain
  | player _ | virtualCylinder => exact hs.elim

theorem contents_source (hc : Carries w base inbox items arrivals h h')
    (hs : Source base inbox h c) : contents h' c = (contents h c).filter (· ∉ items) := by
  cases c with
  | tile t => exact hc.contents_tile t
  | item k => exact hc.contents_item hs.1 hs.2.1 hs.2.2.1
  | player _ | virtualCylinder => exact hs.elim

/-- An item waits as before while others are moved. -/
theorem waits (hc : Carries w base inbox items arrivals h h') (hf : Fixed base inbox h)
    (hitem : item ∉ items) (hnot : ∀ k, c = .item k → k ∉ items)
    (hw : Waits base inbox h c item) : Waits base inbox h' c item := by
  have hmade := hw.made.trans_le hf.base_le
  have hcontents := hc.contents_source hw.source
  refine ⟨hw.made, ?_, hc.source hf hnot hw.source, hc.liesIn hmade hitem hw.lies, ?_, ?_,
    fun t hground => ?_, fun t hmem => ?_, fun k hk hne hbrowse hmem => ?_⟩
  · rw [hc.skipsParent hmade]
    exact hw.plain
  · rw [hcontents]
    exact List.mem_filter.mpr ⟨hw.listed, decide_eq_true hitem⟩
  · rw [hcontents]
    exact hw.nodup.filter _
  · rw [hc.others t] at hground
    exact hw.ground t hground
  · rw [hc.contents_tile t] at hmem
    exact hw.onTile t (List.mem_filter.mp hmem).1
  · have hbrowse := mt (hc.isBrowseField k).mpr hbrowse
    rw [hc.contents_item hk hne hbrowse] at hmem
    exact hw.inside k hk hne hbrowse (List.mem_filter.mp hmem).1

/-- It can be moved as before. -/
theorem canMove (hc : Carries w base inbox items arrivals h h') (hmade : item < h.next)
    (hitem : item ∉ items) : CanMove w h' c item ↔ CanMove w h c item := by
  have hobject := hc.object item hmade
  have hpart : InPart w h' c item ↔ InPart w h c item := by
    cases c with
    | tile t =>
        have hontop : h'.isAlwaysOnTop w item = h.isAlwaysOnTop w item := by
          rw [Heap.isAlwaysOnTop, Heap.isAlwaysOnTop, Heap.itemType, Heap.itemType, hobject]
        show (item ∈ if h'.isAlwaysOnTop w item then (h'.others t).topItems
          else (h'.others t).downItems) ↔ _
        have hfilter : ∀ l : List Nat, item ∈ l.filter (· ∉ items) ↔ item ∈ l := fun l =>
          List.mem_filter.trans (and_iff_left (decide_eq_true hitem))
        rw [hontop, hc.others t, InPart]
        split <;> exact hfilter _
    | item _ | player _ | virtualCylinder => exact Iff.rfl
  have hpickup : h'.isPickupable w item = h.isPickupable w item := by
    rw [Heap.isPickupable, Heap.isPickupable, hobject]
  have hmove : h'.isMoveable w item = h.isMoveable w item := by
    rw [Heap.isMoveable, Heap.isMoveable, Heap.itemType, Heap.itemType, hobject]
  have hcount : h'.getItemCount item = h.getItemCount item := by
    rw [Heap.getItemCount, Heap.getItemCount, hobject]
  have hstack := hc.isStackable hmade
  refine ⟨fun hcan => ?_, fun hcan => ?_⟩
  · exact ⟨hpickup ▸ hcan.pickupable, hmove ▸ hcan.moveable, hpart.mp hcan.inPart,
      hcount ▸ hstack ▸ hcan.count⟩
  · refine ⟨hpickup.trans hcan.pickupable, hmove.trans hcan.moveable, hpart.mpr hcan.inPart, ?_⟩
    rw [hstack, hcount]
    exact hcan.count

end Carries

/-! ## What lies in a house -/

/-- Items as the server keeps them: each lies in one place, and is its own object there.
`DepotChest`s and `Inbox`es do not lie in houses, and stacks are no containers. -/
structure Housed (w : CylinderWorld) (h : Heap Tiles) (house : Estate) (inbox : Nat) : Prop where
  fixed : Fixed h.next inbox h
  houseTiles : house.houseTiles.Nodup
  onTile : ∀ t, ∀ i ∈ h.getItemList t, i < h.next ∧ LiesIn h (.tile t) i ∧
    h.skipsParent (.item i) = false ∧ ¬IsBrowseField h i
  inside : ∀ k, ¬IsBrowseField h k → ∀ i ∈ contents h (.item k), i < h.next ∧
    h.parent i = some (.item k) ∧ ¬IsBrowseField h i
  ground : ∀ t i, (h.others t).ground = some i → h.parent i = some (.tile t) ∧
    i ∉ h.getItemList t
  nodup_tile : ∀ t, (h.getItemList t).Nodup
  nodup : ∀ k, ¬IsBrowseField h k → (contents h (.item k)).Nodup
  plain : ∀ i ∈ moveItemList w h house, h.skipsParent (.item i) = false
  stack : ∀ i ∈ moveItemList w h house, h.isStackable w i = true → h.container i = none

/-- An item of the list: it lies on the tile, or in a container there that cannot be picked
up. -/
inductive Place (w : CylinderWorld) (h : Heap Tiles) (t : Nat) : Cylinder → Nat → Prop
  | onTile {item : Nat} (listed : item ∈ h.getItemList t)
      (pickupable : h.isPickupable w item = true) : Place w h t (.tile t) item
  | inside {k item : Nat} (listed : k ∈ h.getItemList t)
      (pickupable : h.isPickupable w k = false) (mem : item ∈ contents h (.item k)) :
      Place w h t (.item k) item

/-- What is collected because of one item on a tile. -/
def collected (w : CylinderWorld) (h : Heap Tiles) (top : Nat) : List Nat :=
  if h.isPickupable w top then [top] else contents h (.item top)

theorem moveItemList_eq (w : CylinderWorld) (h : Heap Tiles) (house : Estate) :
    moveItemList w h house =
      house.houseTiles.flatMap fun t => (h.getItemList t).flatMap (collected w h) := by
  unfold moveItemList
  congr 1
  funext t
  congr 1
  funext top
  rw [collected, contents]
  split
  · rfl
  · cases h.container top <;> rfl

theorem mem_collected {top : Nat} : item ∈ collected w h top ↔
    (h.isPickupable w top = true ∧ item = top) ∨
      (h.isPickupable w top = false ∧ item ∈ contents h (.item top)) := by
  rw [collected]
  cases h.isPickupable w top with
  | true => simp
  | false => simp

theorem mem_moveItemList : item ∈ moveItemList w h house ↔
    ∃ t ∈ house.houseTiles, ∃ c, Place w h t c item := by
  simp only [moveItemList_eq, List.mem_flatMap, mem_collected]
  refine exists_congr fun t => and_congr_right fun _ => ⟨?_, ?_⟩
  · rintro ⟨top, htop, ⟨hpickup, rfl⟩ | ⟨hpickup, hmem⟩⟩
    · exact ⟨_, .onTile htop hpickup⟩
    · exact ⟨_, .inside htop hpickup hmem⟩
  · rintro ⟨c, hplace⟩
    cases hplace with
    | onTile listed pickupable => exact ⟨item, listed, .inl ⟨pickupable, rfl⟩⟩
    | inside listed pickupable mem => exact ⟨_, listed, .inr ⟨pickupable, mem⟩⟩

namespace Housed

/-- An item lies in one cylinder only. -/
theorem lies_unique (hh : Housed w h house inbox) (c c' : Cylinder)
    (hc : ∀ k, c = .item k → ¬IsBrowseField h k)
    (hc' : ∀ k, c' = .item k → ¬IsBrowseField h k)
    (hlies : LiesIn h c item) (hlies' : LiesIn h c' item) : c = c' := by
  rcases hlies with hparent | ⟨t, b, rfl, hb, hparent⟩ <;>
    rcases hlies' with hparent' | ⟨t', b', rfl, hb', hparent'⟩
  · exact Option.some.inj (hparent.symm.trans hparent')
  · cases hparent.symm.trans hparent'
    exact absurd ⟨t', hb'⟩ (hc b' rfl)
  · cases hparent.symm.trans hparent'
    exact absurd ⟨t, hb⟩ (hc' b rfl)
  · cases hparent.symm.trans hparent'
    have hup := (hh.fixed.browse t b hb).2.1
    cases hup.symm.trans (hh.fixed.browse t' b hb').2.1
    rfl

theorem tile_unique (hh : Housed w h house inbox) {t t' i : Nat} (hi : i ∈ h.getItemList t)
    (hi' : i ∈ h.getItemList t') : t = t' :=
  Cylinder.tile.inj (hh.lies_unique (.tile t) (.tile t') nofun nofun (hh.onTile t i hi).2.1
    (hh.onTile t' i hi').2.1)

theorem not_inside (hh : Housed w h house inbox) {t k i : Nat} (hi : i ∈ h.getItemList t)
    (hk : ¬IsBrowseField h k) : i ∉ contents h (.item k) := by
  intro hmem
  have heq := hh.lies_unique (.tile t) (.item k) nofun
    (fun k' hk' => Cylinder.item.inj hk' ▸ hk) (hh.onTile t i hi).2.1
    (.inl (hh.inside k hk i hmem).2.1)
  cases heq

theorem container_unique (hh : Housed w h house inbox) {k k' i : Nat} (hk : ¬IsBrowseField h k)
    (hk' : ¬IsBrowseField h k') (hi : i ∈ contents h (.item k)) (hi' : i ∈ contents h (.item k')) :
    k = k' := by
  have hparent := (hh.inside k hk i hi).2.1
  rw [(hh.inside k' hk' i hi').2.1] at hparent
  exact (Cylinder.item.inj (Option.some.inj hparent)).symm

/-- An item of the list waits in its place. -/
theorem waits (hh : Housed w h house inbox) {t : Nat} (ht : t ∈ house.houseTiles)
    (hplace : Place w h t c item) : Waits h.next inbox h c item := by
  have hplain := hh.plain item (mem_moveItemList.mpr ⟨t, ht, c, hplace⟩)
  cases hplace with
  | onTile listed _ =>
      obtain ⟨hmade, hlies, -⟩ := hh.onTile t item listed
      refine ⟨hmade, hplain, trivial, hlies, listed, hh.nodup_tile t, fun t' hground => ?_,
        fun t' hmem => ?_, fun k _ _ hbrowse hmem => absurd hmem (hh.not_inside listed hbrowse)⟩
      · obtain ⟨hparent, hnot⟩ := hh.ground t' item hground
        have heq := hh.lies_unique (.tile t) (.tile t') nofun nofun hlies (.inl hparent)
        exact hnot (Cylinder.tile.inj heq ▸ listed)
      · rw [hh.tile_unique listed hmem]
  | inside listed pickupable mem =>
      rename_i k
      obtain ⟨hmade, hlies, hplaink, hbrowse⟩ := hh.onTile t k listed
      obtain ⟨hitem, hparent, -⟩ := hh.inside k hbrowse item mem
      have hsource : Source h.next inbox h (.item k) := by
        refine ⟨hmade, fun hinbox => ?_, hbrowse, ?_, hplaink, t, hlies⟩
        · obtain ⟨kc, hkc, hkind, -⟩ := hh.fixed.inbox
          rw [hinbox, Heap.skipsParent, hkc, Option.any_some, hkind] at hplaink
          cases hplaink
        · cases hk : h.container k with
          | some _ => rfl
          | none =>
              rw [contents, hk] at mem
              cases mem
      refine ⟨hitem, hplain, hsource, .inl hparent, mem, hh.nodup k hbrowse, fun t' hground => ?_,
        fun t' hmem => absurd mem (hh.not_inside hmem hbrowse), fun k' _ _ hbrowse' hmem => ?_⟩
      · rw [(hh.ground t' item hground).1] at hparent
        cases hparent
      · rw [hh.container_unique hbrowse hbrowse' mem hmem]

theorem not_browseField (hh : Housed w h house inbox) (hitem : item ∈ moveItemList w h house) :
    ¬IsBrowseField h item := by
  obtain ⟨t, -, c, hplace⟩ := mem_moveItemList.mp hitem
  cases hplace with
  | onTile listed _ => exact (hh.onTile t item listed).2.2.2
  | inside listed _ mem =>
      exact (hh.inside _ (hh.onTile t _ listed).2.2.2 item mem).2.2

/-- The containers that items are taken from are not in the list themselves. -/
theorem source_not_mem (hh : Housed w h house inbox) {t k : Nat} (hk : k ∈ h.getItemList t)
    (hpickup : h.isPickupable w k = false) : k ∉ moveItemList w h house := by
  intro hmem
  obtain ⟨t', -, c, hplace⟩ := mem_moveItemList.mp hmem
  cases hplace with
  | onTile _ pickupable =>
      rw [hpickup] at pickupable
      cases pickupable
  | inside listed _ mem => exact hh.not_inside hk (hh.onTile t' _ listed).2.2.2 mem

theorem nodup_moveItemList (hh : Housed w h house inbox) : (moveItemList w h house).Nodup := by
  -- two items on tiles that lead to the same item are the same
  have hsame : ∀ {t t' top top' i}, top ∈ h.getItemList t → top' ∈ h.getItemList t' →
      i ∈ collected w h top → i ∈ collected w h top' → top = top' := by
    intro t t' top top' i htop htop' hi hi'
    have hbrowse := (hh.onTile t top htop).2.2.2
    have hbrowse' := (hh.onTile t' top' htop').2.2.2
    rcases mem_collected.mp hi with ⟨-, rfl⟩ | ⟨-, hin⟩ <;>
      rcases mem_collected.mp hi' with ⟨-, heq⟩ | ⟨-, hin'⟩
    · exact heq
    · exact absurd hin' (hh.not_inside htop hbrowse')
    · subst heq
      exact absurd hin (hh.not_inside htop' hbrowse)
    · exact hh.container_unique hbrowse hbrowse' hin hin'
  rw [moveItemList_eq]
  refine List.nodup_flatMap.mpr ⟨fun t _ => List.nodup_flatMap.mpr ⟨fun top htop => ?_, ?_⟩, ?_⟩
  · rw [collected]
    split
    · exact List.nodup_singleton top
    · exact hh.nodup top (hh.onTile t top htop).2.2.2
  · refine (hh.nodup_tile t).pairwise_of_forall_ne fun top htop top' htop' hne i hi hi' => ?_
    exact hne (hsame htop htop' hi hi')
  · refine hh.houseTiles.pairwise_of_forall_ne fun t _ t' _ hne i hi hi' => ?_
    obtain ⟨top, htop, hi⟩ := List.mem_flatMap.mp hi
    obtain ⟨top', htop', hi'⟩ := List.mem_flatMap.mp hi'
    obtain rfl := hsame htop htop' hi hi'
    exact hne (hh.tile_unique htop htop')

end Housed

/-! ## All of the list -/

/-- What the move of an item asks for: it can be picked up and moved, it is in the part of
its tile where its type belongs, and a stack is not empty and of a known type. -/
structure Movable (w : CylinderWorld) (h : Heap Tiles) (house : Estate) (item : Nat) : Prop where
  pickupable : h.isPickupable w item = true
  moveable : h.isMoveable w item = true
  inPart : ∀ t ∈ house.houseTiles, item ∈ h.getItemList t →
    item ∈ if h.isAlwaysOnTop w item then (h.others t).topItems else (h.others t).downItems
  stack : h.isStackable w item = true →
    h.getItemCount item ≠ 0 ∧ (h.itemType w item).known = true

/-- Every item of the list is in the inbox once, as it was and with its contents; nothing
else has changed its place. -/
def Transferred (w : CylinderWorld) (h : Heap Tiles) (house : Estate) (inbox : Nat)
    (h' : Heap Tiles) : Prop :=
  (∃ arrivals, Carries w h.next inbox (moveItemList w h house) arrivals h h') ∧
    ∀ i ∈ moveItemList w h house, h'.container i = h.container i

theorem clone_isSome (node : Node) :
    (node.clone w).isSome = (w.itemType node.id).known := by
  rw [Node.clone, Option.isSome_map]
  cases hknown : (w.itemType node.id).known with
  | true =>
      rw [Item.createItem_known hknown]
      rfl
  | false =>
      cases hitem : Item.createItem w.toWorld node.id (node.count.setWidth 16) with
      | none => rfl
      | some i =>
          rw [(Item.known_of_createItem hitem).1] at hknown
          cases hknown

namespace Housed

theorem movable_iff (hh : Housed w h house inbox) {t : Nat} (ht : t ∈ house.houseTiles)
    (hplace : Place w h t c item) : Movable w h house item ↔ CanMove w h c item ∧
      (h.isStackable w item = true → ((h.object item).clone w).isSome) := by
  rw [clone_isSome]
  have hpart : InPart w h c item ↔ ∀ t' ∈ house.houseTiles, item ∈ h.getItemList t' →
      item ∈ if h.isAlwaysOnTop w item then (h.others t').topItems
        else (h.others t').downItems := by
    cases hplace with
    | onTile listed _ =>
        refine ⟨fun hin t' _ hmem => ?_, fun hall => hall t ht listed⟩
        obtain rfl := hh.tile_unique listed hmem
        exact hin
    | inside listed _ mem =>
        have hbrowse := (hh.onTile t _ listed).2.2.2
        exact iff_of_true trivial fun t' _ hmem => absurd mem (hh.not_inside hmem hbrowse)
  refine ⟨fun hm => ⟨⟨hm.pickupable, hm.moveable, hpart.mpr hm.inPart, fun hs => (hm.stack hs).1⟩,
    fun hs => (hm.stack hs).2⟩, fun ⟨hcan, hknown⟩ => ?_⟩
  exact ⟨hcan.pickupable, hcan.moveable, hpart.mp hcan.inPart,
    fun hs => ⟨hcan.count hs, hknown hs⟩⟩

/-- Some items of the list have been moved, and some have been left. -/
def Going (w : CylinderWorld) (h : Heap Tiles) (house : Estate) (inbox : Nat)
    (moved : List Nat) (h' : Heap Tiles) : Prop :=
  moved ⊆ moveItemList w h house ∧ ∃ arrivals, Carries w h.next inbox moved arrivals h h'

/-- The next item: it is moved if it can be, and left where it is otherwise. -/
theorem step (hh : Housed w h house inbox) {moved : List Nat}
    (hgo : Going w h house inbox moved h') (hitem : item ∈ moveItemList w h house)
    (hnew : item ∉ moved) :
    (Movable w h house item → ∃ h'', moveToInbox w o (n + 3) inbox h' item = some h'' ∧
      Going w h house inbox (moved ++ [item]) h'') ∧
    (¬Movable w h house item → moveToInbox w o (n + 3) inbox h' item = some h' ∨
      moveToInbox w o (n + 3) inbox h' item = none) := by
  obtain ⟨hsub, arrivals, hc⟩ := hgo
  obtain ⟨t, ht, c, hplace⟩ := mem_moveItemList.mp hitem
  have hw := hh.waits ht hplace
  have hsource : ∀ k, c = .item k → k ∉ moved := by
    rintro k rfl hmem
    cases hplace with
    | inside listed pickupable _ => exact hh.source_not_mem listed pickupable (hsub hmem)
  have hf' := hc.fixed hh.fixed fun i hi => hh.not_browseField (hsub hi)
  have hw' := hc.waits hh.fixed hnew hsource hw
  have hne : item ≠ inbox := by
    rintro rfl
    obtain ⟨k, hk, hkind, -⟩ := hh.fixed.inbox
    have hplain := hw.plain
    rw [Heap.skipsParent, hk, Option.any_some, hkind] at hplain
    cases hplain
  have hobject := hc.object item hw.made
  have hcan := hc.canMove (c := c) hw.made hnew
  have hstack := hc.isStackable hw.made
  rw [hh.movable_iff ht hplace]
  refine ⟨?_, fun hnot => ?_⟩
  · rintro ⟨hcanMove, hknown⟩
    obtain ⟨h'', arrived, hmove, hstep⟩ := hw'.carries (o := o) (n := n) hf' hne
      (hcan.mpr hcanMove) fun hs => by
        have hs := hstack ▸ hs
        have hkind : (h'.container item).map (·.kind) = none := by
          rw [hc.kind item hw.made, hh.stack item hitem hs]
          rfl
        exact ⟨Option.map_eq_none_iff.mp hkind, hobject ▸ hknown hs⟩
    have hsub' : moved ++ [item] ⊆ moveItemList w h house :=
      List.append_subset.mpr ⟨hsub, fun i hi => List.mem_singleton.mp hi ▸ hitem⟩
    refine ⟨h'', hmove, hsub', _, hc.trans hstep (fun i hi => ?_) fun i hi => ?_⟩
    · exact List.mem_singleton.mp hi ▸ hw.made
    · exact List.mem_singleton.mp hi ▸ hnew
  · by_cases hcanMove : CanMove w h c item
    · -- the type of a stack is unknown
      obtain ⟨hs, hclone⟩ := Classical.not_imp.mp fun hknown => hnot ⟨hcanMove, hknown⟩
      refine .inr (hw'.unknown hf' hne (hcan.mpr hcanMove) (hstack.trans hs) ?_)
      rw [hobject]
      exact Option.not_isSome_iff_eq_none.mp hclone
    · exact .inl ((hw'.toInbox hf' hne).1 (mt hcan.mp hcanMove))

/-- All items of the list one after the other: those that can be moved are, and the loop
ends if they all can. -/
theorem loop (hh : Housed w h house inbox) (rest moved : List Nat)
    (hgo : Going w h house inbox moved h') (hrest : rest ⊆ moveItemList w h house)
    (hnodup : rest.Nodup) (hnew : ∀ i ∈ rest, i ∉ moved) :
    (∀ h'', rest.foldlM (moveToInbox w o (n + 3) inbox) h' = some h'' →
      ∃ more, more.Sublist rest ∧ (∀ i ∈ more, Movable w h house i) ∧
        Going w h house inbox (moved ++ more) h'') ∧
    ((∀ i ∈ rest, Movable w h house i) →
      ∃ h'', rest.foldlM (moveToInbox w o (n + 3) inbox) h' = some h'' ∧
        Going w h house inbox (moved ++ rest) h'') := by
  induction rest generalizing moved h' with
  | nil =>
      rw [List.append_nil]
      refine ⟨fun h'' hloop => ⟨[], .slnil, nofun, ?_⟩, fun _ => ⟨h', rfl, hgo⟩⟩
      rw [List.append_nil, ← Option.some.inj hloop]
      exact hgo
  | cons item rest ih =>
      obtain ⟨hitem, hrest⟩ := List.cons_subset.mp hrest
      obtain ⟨hnot, hnodup⟩ := List.nodup_cons.mp hnodup
      obtain ⟨hgoes, hstays⟩ := hh.step (o := o) (n := n) hgo hitem (hnew item List.mem_cons_self)
      have hnew : ∀ i ∈ rest, i ∉ moved := fun i hi => hnew i (List.mem_cons_of_mem _ hi)
      have hnew' : ∀ i ∈ rest, i ∉ moved ++ [item] := fun i hi hmem => by
        rcases List.mem_append.mp hmem with hmem | hmem
        · exact hnew i hi hmem
        · exact hnot (List.mem_singleton.mp hmem ▸ hi)
      have happend : ∀ more, moved ++ [item] ++ more = moved ++ item :: more := fun more =>
        List.append_assoc _ _ _
      rw [List.foldlM_cons]
      refine ⟨fun h'' hloop => ?_, fun hall => ?_⟩
      · obtain ⟨h₁, hmove, htail⟩ := Option.bind_eq_some_iff.mp hloop
        by_cases hm : Movable w h house item
        · obtain ⟨h₂, hmove', hgo'⟩ := hgoes hm
          obtain rfl := Option.some.inj (hmove.symm.trans hmove')
          obtain ⟨more, hmore, hmovable, hend⟩ := (ih _ hgo' hrest hnodup hnew').1 h'' htail
          refine ⟨item :: more, hmore.cons_cons item, List.forall_mem_cons.mpr ⟨hm, hmovable⟩, ?_⟩
          rw [← happend]
          exact hend
        · rcases hstays hm with hsame | hnone
          · obtain rfl := Option.some.inj (hmove.symm.trans hsame)
            obtain ⟨more, hmore, hrest'⟩ := (ih _ hgo hrest hnodup hnew).1 h'' htail
            exact ⟨more, hmore.cons item, hrest'⟩
          · rw [hnone] at hmove
            cases hmove
      · obtain ⟨hm, hall⟩ := List.forall_mem_cons.mp hall
        obtain ⟨h₁, hmove, hgo'⟩ := hgoes hm
        obtain ⟨h'', hloop, hend⟩ := (ih _ hgo' hrest hnodup hnew').2 hall
        rw [happend] at hend
        exact ⟨h'', Option.bind_eq_some_iff.mpr ⟨h₁, hmove, hloop⟩, hend⟩

/-- What is moved keeps its contents: nothing in it is in the list. -/
theorem contents_kept (hh : Housed w h house inbox)
    (hc : Carries w h.next inbox (moveItemList w h house) arrivals h h') {i : Nat}
    (hi : i ∈ moveItemList w h house) : h'.container i = h.container i := by
  obtain ⟨t, ht, c, hplace⟩ := mem_moveItemList.mp hi
  have hw := hh.waits ht hplace
  have hbrowse := hh.not_browseField hi
  have hne : i ≠ inbox := by
    rintro rfl
    obtain ⟨k, hk, hkind, -⟩ := hh.fixed.inbox
    have hplain := hw.plain
    rw [Heap.skipsParent, hk, Option.any_some, hkind] at hplain
    cases hplain
  rw [hc.container i hw.made hne hbrowse]
  cases hk : h.container i with
  | none => rfl
  | some k =>
      have hall : k.itemlist.filter (· ∉ moveItemList w h house) = k.itemlist := by
        refine List.filter_eq_self.mpr fun j hj => decide_eq_true fun hmem => ?_
        have hin : j ∈ contents h (.item i) := by
          rw [contents, hk]
          exact hj
        obtain ⟨t', -, c', hplace'⟩ := mem_moveItemList.mp hmem
        cases hplace' with
        | onTile listed _ => exact hh.not_inside listed hbrowse hin
        | inside listed pickupable mem =>
            obtain rfl := hh.container_unique (hh.onTile t' _ listed).2.2.2 hbrowse mem hin
            exact hh.source_not_mem listed pickupable hi
      rw [Option.map_some, HeapContainer.without, hall]

/-- If everything has come to the inbox, every move was let through. -/
theorem movable_of_transferred (hh : Housed w h house inbox) (htown : house.townId ≠ 0)
    (howner : house.owner ≠ 0)
    (hrun : transferToDepot w o (n + 3) h house inbox = some (true, h'))
    (hall : Transferred w h house inbox h') : ∀ i ∈ moveItemList w h house, Movable w h house i := by
  have hloop := hh.loop (o := o) (n := n) (moveItemList w h house) []
    ⟨List.nil_subset _, [], .refl h⟩ (List.Subset.refl _) hh.nodup_moveItemList fun _ _ => nofun
  rw [transferToDepot, if_neg (not_or.mpr ⟨htown, howner⟩)] at hrun
  obtain ⟨h'', hfold, heq⟩ := Option.map_eq_some_iff.mp hrun
  obtain rfl := (Prod.mk.inj heq).2
  obtain ⟨more, hmore, hmovable, -, after, hgone⟩ := hloop.1 h'' hfold
  obtain ⟨⟨arrivals, hc⟩, -⟩ := hall
  -- as many items have come to the inbox as there are in the list
  obtain ⟨k, hk, -⟩ := hh.fixed.inbox
  have hfront := hc.front.symm.trans hgone.front
  rw [hk] at hfront
  have hlists := congrArg HeapContainer.itemlist (Option.some.inj hfront)
  have hlength := congrArg List.length (List.append_cancel_right hlists)
  rw [List.length_reverse, List.length_reverse, ← hc.arrived.length_eq,
    ← hgone.arrived.length_eq] at hlength
  obtain rfl := hmore.eq_of_length hlength.symm
  exact hmovable

theorem transferred_of_movable (hh : Housed w h house inbox) (htown : house.townId ≠ 0)
    (howner : house.owner ≠ 0) (hall : ∀ i ∈ moveItemList w h house, Movable w h house i) :
    ∃ h', transferToDepot w o (n + 3) h house inbox = some (true, h') ∧
      Transferred w h house inbox h' := by
  obtain ⟨h', hfold, -, arrivals, hc⟩ := (hh.loop (o := o) (n := n) (moveItemList w h house) []
    ⟨List.nil_subset _, [], .refl h⟩ (List.Subset.refl _) hh.nodup_moveItemList
    fun _ _ => nofun).2 hall
  rw [List.nil_append] at hc
  refine ⟨h', ?_, ⟨arrivals, hc⟩, fun i hi => hh.contents_kept hc hi⟩
  rw [transferToDepot, if_neg (not_or.mpr ⟨htown, howner⟩), hfold]
  rfl

end Housed

/-- A house gives back everything if and only if every item that is collected can be moved. -/
theorem transferToDepot_exact (hh : Housed w h house inbox) (htown : house.townId ≠ 0)
    (howner : house.owner ≠ 0) :
    (∃ h', transferToDepot w o (n + 3) h house inbox = some (true, h') ∧
      Transferred w h house inbox h') ↔ ∀ i ∈ moveItemList w h house, Movable w h house i :=
  ⟨fun ⟨_, hrun, hall⟩ => hh.movable_of_transferred htown howner hrun hall,
    hh.transferred_of_movable htown howner⟩

/-! A cabinet, which cannot be picked up, holds coins and one more item. -/

def cabinetWorld : CylinderWorld where
  itemType id :=
    if id = 1 then { id := 1, group := .container }
    else { id := id, stackable := id == 2, moveable := true }
  addUniqueItem _ := true
  getNameByGuid _ := []
  tileItemType _ := {}
  weight _ := 0
  maxItems _ := 20
  pickupable id := id != 1 && id != 4

def nothingElse : Others Tiles where
  queryAdd _ _ _ _ _ _ := some .notPossible
  queryMaxCount _ _ _ _ _ _ := some (.notPossible, 0)
  queryRemove _ _ _ _ _ := some .notPossible
  queryDestination _ c index _ toItem flags := some ⟨c, index, toItem, flags⟩
  getThingIndex _ _ _ := -1
  addThing h _ _ _ := h
  updateThing h _ _ _ _ := h
  removeThing h _ _ _ := h
  queryDestination_flags := Others.same_flags
  queryDestination_made := Others.same_made
  addThing_loosens := Others.same_loosens_add
  updateThing_loosens := Others.same_loosens
  removeThing_loosens := Others.same_loosens

/-- Item 0 is the cabinet, on tile 0, and item 3 the inbox. -/
def cabinet (id : BitVec 16) : Heap Tiles where
  object
    | 0 => { id := 1, cls := .container }
    | 1 => { id := 2, count := 50, cls := .item }
    | 2 => { id := id, cls := .item }
    | _ => { id := 0, cls := .container }
  parent
    | 0 => some (.tile 0)
    | 1 | 2 => some (.item 0)
    | _ => none
  container
    | 0 => some { maxSize := 20, itemlist := [1, 2] }
    | 3 => some { kind := .inbox, maxSize := 30, unlocked := false }
    | _ => none
  next := 4
  tile _ := none
  browseFields _ := none
  others
    | 0 => { downItems := [0] }
    | _ => {}

def oneTile : Estate := { owner := 7, townId := 1, houseTiles := [0] }

/-- Nothing but the cabinet holds anything. -/
theorem contents_cabinet (id : BitVec 16) {k : Nat} (hk : 0 < k) :
    contents (cabinet id) (.item k) = [] := by
  obtain rfl | rfl | rfl | hk : k = 1 ∨ k = 2 ∨ k = 3 ∨ 4 ≤ k := by omega
  · rfl
  · rfl
  · rfl
  · obtain ⟨k, rfl⟩ := Nat.exists_eq_add_of_le' hk
    rfl

theorem cabinet_housed (id : BitVec 16) : Housed cabinetWorld (cabinet id) oneTile 3 where
  fixed := ⟨le_refl _, (by decide : 3 < 4), ⟨_, rfl, rfl, rfl, rfl⟩, by simp [cabinet]⟩
  houseTiles := by decide
  onTile t i hi := by
    cases t with
    | zero =>
        obtain rfl := List.mem_singleton.mp hi
        exact ⟨(by decide : 0 < 4), .inl rfl, rfl, by simp [IsBrowseField, cabinet]⟩
    | succ t => cases hi
  inside k _ i hi := by
    obtain rfl | hk := Nat.eq_zero_or_pos k
    · have hi : i = 1 ∨ i = 2 := by simpa [contents, cabinet] using hi
      rcases hi with rfl | rfl
      · exact ⟨(by decide : 1 < 4), rfl, by simp [IsBrowseField, cabinet]⟩
      · exact ⟨(by decide : 2 < 4), rfl, by simp [IsBrowseField, cabinet]⟩
    · rw [contents_cabinet id hk] at hi
      cases hi
  ground t i hground := by
    cases t with
    | zero => cases hground
    | succ t => cases hground
  nodup_tile t := by
    cases t with
    | zero => exact List.nodup_singleton 0
    | succ t => exact List.nodup_nil
  nodup k _ := by
    obtain rfl | hk := Nat.eq_zero_or_pos k
    · exact (by decide : [1, 2].Nodup)
    · rw [contents_cabinet id hk]
      exact List.nodup_nil
  plain i hi := by
    have hi : i = 1 ∨ i = 2 := by simpa using (show i ∈ [1, 2] from hi)
    rcases hi with rfl | rfl <;> rfl
  stack i hi _ := by
    have hi : i = 1 ∨ i = 2 := by simpa using (show i ∈ [1, 2] from hi)
    rcases hi with rfl | rfl <;> rfl

/-- The coins and a sword go to the inbox. -/
theorem transferToDepot_exact_cabinet :
    ∃ h', transferToDepot cabinetWorld nothingElse 3 (cabinet 3) oneTile 3 = some (true, h') ∧
      Transferred cabinetWorld (cabinet 3) oneTile 3 h' := by
  refine (transferToDepot_exact (n := 0) (cabinet_housed 3) (by decide) (by decide)).mpr ?_
  intro i hi
  have hi : i = 1 ∨ i = 2 := by simpa using (show i ∈ [1, 2] from hi)
  have hnot : i ∉ (cabinet 3).getItemList 0 := fun hmem => by
    rcases hi with rfl | rfl <;> exact absurd hmem (by decide)
  have hpart : ∀ t ∈ oneTile.houseTiles, i ∈ (cabinet 3).getItemList t →
      i ∈ if (cabinet 3).isAlwaysOnTop cabinetWorld i then ((cabinet 3).others t).topItems
        else ((cabinet 3).others t).downItems := by
    intro t ht hmem
    obtain rfl := List.mem_singleton.mp ht
    exact absurd hmem hnot
  rcases hi with rfl | rfl
  · exact ⟨by decide, by decide, hpart, by decide⟩
  · exact ⟨by decide, by decide, hpart, by decide⟩

/-- What cannot be picked up stays in the cabinet. -/
theorem left_in_cabinet : Housed cabinetWorld (cabinet 4) oneTile 3 ∧
    ¬∃ h', transferToDepot cabinetWorld nothingElse 3 (cabinet 4) oneTile 3 = some (true, h') ∧
      Transferred cabinetWorld (cabinet 4) oneTile 3 h' := by
  refine ⟨cabinet_housed 4, fun ⟨h', hrun, hall⟩ => ?_⟩
  have hmovable := (cabinet_housed 4).movable_of_transferred (n := 0) (by decide) (by decide) hrun
    hall 2 (show 2 ∈ [1, 2] by decide)
  have hpickup := hmovable.pickupable
  exact absurd hpickup (by decide)

end Infernum.House
