import Infernum.House.DepotMoves

/-!
# One item to the inbox

An item that lies on a tile, or in a container there, is moved if the inbox takes it and the
tile or the container gives it. An inbox is locked and takes what can be picked up, without
a limit.
-/

namespace Infernum

namespace Heap

variable {w : CylinderWorld} {o : Others Tiles} {n : Nat} {h : Heap Tiles} {item inbox : Nat}

/-- The count that `internalMoveItem` moves to an inbox. -/
def moveCount (w : CylinderWorld) (h : Heap Tiles) (item : Nat) : BitVec 32 :=
  let count := (h.getItemCount item).setWidth 32
  let maxQueryCount := if count = 0 then 1 else count
  if h.isStackable w item then uint32Min count maxQueryCount else maxQueryCount

/-- `internalMoveItem` to an inbox. -/
theorem internalMoveItem_inbox {p c : Cylinder} {k : HeapContainer} {flags : BitVec 32}
    (hflags : hasBitSet FLAG_NOLIMIT flags = true) (hsource : h.moveSource n p = some c)
    (hinbox : h.container inbox = some k) (hkind : k.kind = .inbox)
    (hlocked : k.unlocked = false) (hne : item ≠ inbox) :
    (h.internalMoveItem w o n p (.item inbox) INDEX_WHEREEVER item
        ((h.getItemCount item).setWidth 32) flags none).map Prod.fst =
      if h.isPickupable w item = false then some h
      else
        (h.queryRemove w o c item (h.moveCount w item) flags).bind fun ret =>
          if ret = .noError then
            (h.moveThing w o n c item (h.moveCount w item)
              ⟨.item inbox, INDEX_WHEREEVER, none, flags⟩).map Prod.fst
          else some h := by
  have hdest : h.findDestination w o n item MAP_MAX_LAYERS
      ⟨.item inbox, INDEX_WHEREEVER, none, flags⟩ =
        some ⟨.item inbox, INDEX_WHEREEVER, none, flags⟩ := by
    rw [show MAP_MAX_LAYERS = 15 + 1 from rfl, findDestination, queryDestination, hinbox]
    dsimp only
    rw [containerQueryDestination, if_pos hlocked]
    dsimp only
    rw [if_pos rfl]
  have hadd : h.queryAdd w o n (.item inbox) INDEX_WHEREEVER item
      ((h.getItemCount item).setWidth 32) flags =
        some (if h.isPickupable w item = false then .cannotPickup else .noError) := by
    rw [queryAdd, queryAddWith, hinbox]
    dsimp only
    rw [HeapContainer.queryAdd, hkind]
    dsimp only
    rw [HeapContainer.inboxQueryAdd, if_neg (by rw [hflags]; exact Bool.noConfusion), if_neg hne]
  have hmax : h.queryMaxCount w o n (.item inbox) INDEX_WHEREEVER item
      ((h.getItemCount item).setWidth 32) flags =
        some (.noError, if (h.getItemCount item).setWidth 32 = 0 then 1
          else (h.getItemCount item).setWidth 32) := by
    rw [queryMaxCount, hinbox]
    dsimp only
    rw [containerQueryMaxCount, if_pos hflags]
  rw [internalMoveItem, hsource, hdest]
  dsimp only
  rw [if_neg (by simp), hadd]
  by_cases hpick : h.isPickupable w item = false
  · rw [if_pos hpick, if_pos hpick]
    rfl
  · rw [if_neg hpick, if_neg hpick]
    dsimp only
    rw [moveChecked, hmax]
    dsimp only
    rw [if_neg (fun hboth => hboth.1 rfl), moveCount]
    cases h.queryRemove w o c item _ flags with
    | none => rfl
    | some ret =>
      cases ret with
      | noError =>
        dsimp only [Option.elim_none]
        rw [Option.map_map]
        rfl
      | _ => rfl

end Heap

namespace House

variable {w : CylinderWorld} {o : Others Tiles} {n base inbox item : Nat} {h h' : Heap Tiles}
  {c : Cylinder}

/-! ## An item that waits to be moved -/

/-- An item lies in a cylinder: its parent is the cylinder, or the browse field of the
tile. -/
def LiesIn (h : Heap Tiles) (c : Cylinder) (item : Nat) : Prop :=
  h.parent item = some c ∨
    ∃ t b, c = .tile t ∧ h.browseFields t = some b ∧ h.parent item = some (.item b)

/-- What a tile or a container holds. -/
def contents (h : Heap Tiles) : Cylinder → List Nat
  | .tile t => h.getItemList t
  | .item k => ((h.container k).map (·.itemlist)).getD []
  | .player _ | .virtualCylinder => []

/-- What is there during all moves: the inbox, and the browse fields on their tiles. -/
structure Fixed (base inbox : Nat) (h : Heap Tiles) : Prop where
  base_le : base ≤ h.next
  inbox_lt : inbox < base
  inbox : ∃ c, h.container inbox = some c ∧ c.kind = .inbox ∧ c.unlocked = false ∧ c.maxSize = 30
  browse : ∀ t b, h.browseFields t = some b →
    b < base ∧ h.parent b = some (.tile t) ∧ (h.container b).map (·.kind) = some .container

/-- The cylinder is a tile, or a container on one. -/
def Source (base inbox : Nat) (h : Heap Tiles) : Cylinder → Prop
  | .tile _ => True
  | .item k => k < base ∧ k ≠ inbox ∧ ¬IsBrowseField h k ∧ (h.container k).isSome ∧
      h.skipsParent (.item k) = false ∧ ∃ t, LiesIn h (.tile t) k
  | .player _ | .virtualCylinder => False

/-- The item lies in this cylinder and in no other. -/
structure Waits (base inbox : Nat) (h : Heap Tiles) (c : Cylinder) (item : Nat) : Prop where
  made : item < base
  plain : h.skipsParent (.item item) = false
  source : Source base inbox h c
  lies : LiesIn h c item
  listed : item ∈ contents h c
  nodup : (contents h c).Nodup
  ground : ∀ t, (h.others t).ground ≠ some item
  onTile : ∀ t, item ∈ contents h (.tile t) → c = .tile t
  inside : ∀ k < base, k ≠ inbox → ¬IsBrowseField h k → item ∈ contents h (.item k) → c = .item k

theorem Fixed.inbox_not_browse (hf : Fixed base inbox h) : ¬IsBrowseField h inbox := by
  rintro ⟨t, hbrowse⟩
  obtain ⟨c, hc, hkind, -⟩ := hf.inbox
  have hcontainer := (hf.browse t inbox hbrowse).2.2
  rw [hc, Option.map_some, hkind] at hcontainer
  cases hcontainer

/-! ### It is taken out -/

theorem filter_of_not_mem {l : List Nat} (hl : item ∉ l) : l.filter (· ∉ [item]) = l := by
  refine List.filter_eq_self.mpr fun i hi => ?_
  have hne : i ≠ item := fun heq => hl (heq ▸ hi)
  simpa using hne

theorem without_of_not_mem {tile : TileThings} (hnot : item ∉ tile.downItems ++ tile.topItems) :
    tile.without [item] = tile := by
  obtain ⟨hdown, htop⟩ := not_or.mp (mt List.mem_append.mpr hnot)
  rw [TileThings.without, filter_of_not_mem hdown, filter_of_not_mem htop]

theorem container_without_of_not_mem {k : Nat} (hnot : item ∉ contents h (.item k)) :
    (h.container k).map (·.without [item]) = h.container k := by
  cases hk : h.container k with
  | none => rfl
  | some c =>
      have hlist : item ∉ c.itemlist := by
        have hmem := hnot
        rw [contents, hk] at hmem
        exact hmem
      rw [Option.map_some, HeapContainer.without, filter_of_not_mem hlist]

theorem erase_eq_without {l : List Nat} (hl : l.Nodup) :
    l.erase item = l.filter (· ∉ [item]) := by
  rw [hl.erase_eq_filter]
  refine List.filter_congr fun i _ => ?_
  by_cases hi : i = item <;> simp [hi]

/-- The browse field of a tile loses what it shows. -/
theorem onRemoveTileItem_cases (h : Heap Tiles) (t item : Nat) :
    h.onRemoveTileItem w t item = h ∨ ∃ b c, h.browseFields t = some b ∧
      h.container b = some c ∧ h.onRemoveTileItem w t item =
        (h.setParent item none).setItemlist b c (c.itemlist.erase item) := by
  rw [Heap.onRemoveTileItem]
  split
  · cases hbrowse : h.browseField t with
    | none => exact .inl rfl
    | some bc =>
        obtain ⟨b, hb, hmap⟩ := Option.bind_eq_some_iff.mp hbrowse
        obtain ⟨c, hc, rfl⟩ := Option.map_eq_some_iff.mp hmap
        dsimp only
        rw [Heap.containerRemoveThing]
        split
        · exact .inl rfl
        · rw [if_neg (fun hcount => hcount.2 rfl)]
          exact .inr ⟨b, c, hb, hc, rfl⟩
  · exact .inl rfl

theorem Takes.onRemoveTileItem (hf : Fixed base inbox h) (ht : Takes base inbox item h h')
    (t : Nat) : Takes base inbox item h (h'.onRemoveTileItem w t item) := by
  rcases onRemoveTileItem_cases (w := w) h' t item with hsame | ⟨b, c, hb, hc, htaken⟩
  · rw [hsame]
    exact ht
  · rw [htaken]
    have hbrowse : IsBrowseField h b := ⟨t, ht.browseFields ▸ hb⟩
    have hother : ∀ k, ¬IsBrowseField h k → k ≠ b := fun k hk heq => hk (heq ▸ hbrowse)
    refine ⟨ht.next, ht.object, fun i hi => ?_, ht.tile, ht.browseFields, fun k => ?_, ht.others,
      fun k hk hne hk' => ?_, ?_⟩
    · rw [← ht.parent i hi]
      exact Function.update_of_ne hi _ _
    · rw [← ht.kind k]
      exact (Heap.loosens_setItemlist (h := h'.setParent item none) hc _).kind k
    · rw [← ht.container k hk hne hk']
      exact Function.update_of_ne (hother k hk') _ _
    · rw [← ht.inbox]
      exact Function.update_of_ne (hother inbox hf.inbox_not_browse) _ _

/-- The item is in the part of the tile where its type belongs. -/
def InPart (w : CylinderWorld) (h : Heap Tiles) : Cylinder → Nat → Prop
  | .tile t, item =>
      item ∈ if h.isAlwaysOnTop w item then (h.others t).topItems else (h.others t).downItems
  | .item _, _ | .player _, _ | .virtualCylinder, _ => True

theorem tileGetThingIndex_iff {t : Nat} (hground : (h.others t).ground ≠ some item) :
    h.tileGetThingIndex w t item = -1 ↔ ¬InPart w h (.tile t) item := by
  rw [Heap.tileGetThingIndex]
  dsimp only
  rw [if_neg hground, InPart]
  have hfound : ∀ (l : List Nat) (m : Int), 0 ≤ m →
      ((l.idxOf? item).elim (-1) (fun k => m + (k : Int)) = -1 ↔ item ∉ l) := by
    intro l m hm
    cases hidx : l.idxOf? item with
    | none => exact iff_of_true rfl (List.idxOf?_eq_none_iff.mp hidx)
    | some k =>
        refine iff_of_false (show ¬m + (k : Int) = -1 by omega) (fun hnot => ?_)
        rw [List.idxOf?_eq_none_iff.mpr hnot] at hidx
        cases hidx
  generalize hn : (if (h.others t).ground.isSome then (0 : Int) else -1) = n
  have hground' : -1 ≤ n := by
    rw [← hn]
    split <;> decide
  split
  · rw [← hfound (h.others t).topItems (n + 1) (by omega)]
    cases (h.others t).topItems.idxOf? item <;> rfl
  · rw [← hfound (h.others t).downItems
      (n + (h.others t).topItems.length + (h.others t).creatures + 1) (by omega)]
    cases (h.others t).downItems.idxOf? item <;> rfl

/-- What lies in one part of a tile does not lie in the other. -/
theorem tileRemoveThing_takes {t : Nat} (hf : Fixed base inbox h)
    (hw : Waits base inbox h (.tile t) item) (hpart : InPart w h (.tile t) item) {m : BitVec 32}
    (hm : h.isStackable w item = true → m = (h.getItemCount item).setWidth 32) :
    Takes base inbox item h (h.tileRemoveThing w t item m) := by
  have hindex : ¬h.tileGetThingIndex w t item = -1 := fun hindex =>
    (tileGetThingIndex_iff (hw.ground t)).mp hindex hpart
  obtain ⟨hdown, htop, hapart⟩ := List.nodup_append.mp hw.nodup
  -- the tile without the item, and nothing else
  have htake : ∀ tile, tile = (h.others t).without [item] →
      Takes base inbox item h (((h.setParent item none).setTile t tile).onRemoveTileItem w t
        item) := by
    intro tile htile
    have hset : Takes base inbox item h ((h.setParent item none).setTile t tile) → _ :=
      fun hset => hset.onRemoveTileItem (w := w) hf t
    refine hset ⟨rfl, rfl, fun i hi => Function.update_of_ne hi _ _, rfl, rfl,
      fun _ => rfl, fun t' => ?_, fun k hk hne hbrowse => ?_, rfl⟩
    · show Function.update h.others t tile t' = _
      by_cases ht : t' = t
      · rw [ht, Function.update_self, htile]
      · rw [Function.update_of_ne ht]
        refine (without_of_not_mem fun hmem => ht ?_).symm
        exact (Cylinder.tile.inj (hw.onTile t' hmem)).symm
    · refine (container_without_of_not_mem fun hmem => ?_).symm
      cases hw.inside k hk hne hbrowse hmem
  rw [Heap.tileRemoveThing]
  dsimp only
  rw [if_neg hindex, if_neg (hw.ground t)]
  rw [InPart] at hpart
  split at hpart
  · rename_i hontop
    have hnot : item ∉ (h.others t).downItems := fun hmem => hapart item hmem item hpart rfl
    rw [if_pos hontop, if_pos hpart]
    refine htake _ ?_
    rw [TileThings.without, filter_of_not_mem hnot, erase_eq_without htop]
  · rename_i hontop
    have hnot : item ∉ (h.others t).topItems := fun hmem => hapart item hpart item hmem rfl
    rw [if_neg hontop, if_pos hpart, if_neg (fun hcount => hcount.2 (hm hcount.1))]
    refine htake _ ?_
    rw [TileThings.without, filter_of_not_mem hnot, erase_eq_without hdown]

theorem containerRemoveThing_takes {k : Nat} {c : HeapContainer}
    (hw : Waits base inbox h (.item k) item) (hc : h.container k = some c) {m : BitVec 32}
    (hm : h.isStackable w item = true → m = (h.getItemCount item).setWidth 32) :
    Takes base inbox item h (h.containerRemoveThing w k c item m) := by
  obtain ⟨-, hinbox, -⟩ := hw.source
  have hcontents : contents h (.item k) = c.itemlist := by
    rw [contents, hc]
    rfl
  have hlisted : item ∈ c.itemlist := hcontents ▸ hw.listed
  have hnodup : c.itemlist.Nodup := hcontents ▸ hw.nodup
  rw [Heap.containerRemoveThing,
    if_neg (fun hindex => Heap.getThingIndex_eq_neg_one.mp hindex hlisted),
    if_neg (fun hcount => hcount.2 (hm hcount.1))]
  refine ⟨rfl, rfl, fun i hi => Function.update_of_ne hi _ _, rfl, rfl, fun j => ?_, fun t => ?_,
    fun j hj hne hbrowse => ?_, Function.update_of_ne (Ne.symm hinbox) _ _⟩
  · exact (Heap.loosens_setItemlist (h := h.setParent item none) hc _).kind j
  · refine (without_of_not_mem fun hmem => ?_).symm
    cases hw.onTile t hmem
  · show Function.update h.container k _ j = _
    by_cases hjk : j = k
    · rw [hjk, Function.update_self, hc, Option.map_some, HeapContainer.without,
        erase_eq_without hnodup]
    · rw [Function.update_of_ne hjk]
      refine (container_without_of_not_mem fun hmem => hjk ?_).symm
      exact (Cylinder.item.inj (hw.inside j hj hne hbrowse hmem)).symm

/-! ### Where it is taken from -/

theorem getParent_of_parent {k : Nat} {p : Cylinder} (hparent : h.parent k = some p)
    (hplain : h.skipsParent (.item k) = false) :
    h.getParent (n + 1) (.item k) = some (some p) := by
  rw [Heap.getParent, Heap.up, hparent]
  dsimp only
  rw [if_neg (by rw [hplain]; exact Bool.noConfusion)]

theorem Fixed.plain (hf : Fixed base inbox h) {t b : Nat} (hb : h.browseFields t = some b) :
    h.skipsParent (.item b) = false := by
  obtain ⟨c, hc, hkind⟩ := Option.map_eq_some_iff.mp (hf.browse t b hb).2.2
  rw [Heap.skipsParent, hc, Option.any_some, hkind]
  rfl

/-- A container on a tile, shown in a browse field or not. -/
theorem getTile_of_lies (hf : Fixed base inbox h) {k t : Nat} (hlies : LiesIn h (.tile t) k)
    (hplain : h.skipsParent (.item k) = false) (hk : h.isCylinder k = true) :
    h.getTile (n + 3) (.item k) = some (some t) := by
  have htile : ∀ m, h.getParent (m + 1) (.tile t) = some none := fun _ => rfl
  rcases hlies with hparent | ⟨t', b, ht, hb, hparent⟩
  · have hup := getParent_of_parent (n := n + 2) hparent hplain
    rw [Heap.getTile, Heap.getTopParent, hup, if_pos hk]
    dsimp only
    rw [Heap.topParent, htile]
    dsimp only [Option.map_some, Option.getD_some]
    rw [hup]
    rfl
  · cases ht
    have hup := getParent_of_parent (n := n + 2) hparent hplain
    have hbrowse := fun m => getParent_of_parent (n := m) (hf.browse t b hb).2.1 (hf.plain hb)
    rw [Heap.getTile, Heap.getTopParent, hup, if_pos hk]
    dsimp only
    rw [Heap.topParent, hbrowse]
    dsimp only
    rw [Heap.topParent, htile]
    dsimp only [Option.map_some, Option.getD_some]
    rw [hbrowse]
    rfl

theorem isCylinder_of_container {k : Nat} (hk : k < base) (hf : Fixed base inbox h)
    (hc : (h.container k).isSome) : h.isCylinder k = true := by
  rw [Heap.isCylinder, decide_eq_true (hk.trans_le hf.base_le), hc]
  rfl

/-- The parent of the item leads to the cylinder that the item lies in. -/
theorem Waits.moveSource (hf : Fixed base inbox h) (hw : Waits base inbox h c item) :
    ∃ p, h.getParent (n + 3) (.item item) = some (some p) ∧
      h.moveSource (n + 3) p = some c := by
  rcases hw.lies with hparent | ⟨t, b, rfl, hb, hparent⟩
  · refine ⟨c, getParent_of_parent hparent hw.plain, ?_⟩
    cases c with
    | tile t =>
        rw [Heap.moveSource, Heap.getTile, Option.map_some]
        dsimp only
        cases h.browseFields t with
        | none => rfl
        | some b => exact congrArg some (if_neg nofun)
    | item k =>
        obtain ⟨hk, -, hbrowse, hc, hplain, t, hlies⟩ := hw.source
        have htile := getTile_of_lies (n := n) hf hlies hplain (isCylinder_of_container hk hf hc)
        rw [Heap.moveSource, htile, Option.map_some]
        dsimp only
        cases hb : h.browseFields t with
        | none => rfl
        | some b =>
            refine congrArg some (if_neg fun heq => hbrowse ⟨t, ?_⟩)
            rw [hb, Cylinder.item.inj heq]
    | player _ | virtualCylinder => exact hw.source.elim
  · obtain ⟨hlt, hup, hkind⟩ := hf.browse t b hb
    refine ⟨.item b, getParent_of_parent hparent hw.plain, ?_⟩
    have hc : (h.container b).isSome := by
      rw [← Option.isSome_map, hkind]
      rfl
    have htile := getTile_of_lies (n := n) hf (.inl hup) (hf.plain hb)
      (isCylinder_of_container hlt hf hc)
    rw [Heap.moveSource, htile, Option.map_some]
    dsimp only
    rw [hb]
    exact congrArg some (if_pos rfl)

/-! ### One move -/

/-- What the checks of a move ask of an item. -/
structure CanMove (w : CylinderWorld) (h : Heap Tiles) (c : Cylinder) (item : Nat) : Prop where
  pickupable : h.isPickupable w item = true
  moveable : h.isMoveable w item = true
  inPart : InPart w h c item
  count : h.isStackable w item = true → h.getItemCount item ≠ 0

theorem moveCount_stack (hstack : h.isStackable w item = true) :
    h.moveCount w item = (h.getItemCount item).setWidth 32 := by
  rw [Heap.moveCount, if_pos hstack, uint32Min]
  by_cases hzero : (h.getItemCount item).setWidth 32 = 0
  · rw [if_pos hzero, if_neg (by rw [hzero]; decide)]
  · rw [if_neg hzero, if_neg (BitVec.lt_irrefl _)]

theorem moveCount_pos (hstack : h.isStackable w item = true) (hcount : h.getItemCount item ≠ 0) :
    0 < (h.moveCount w item).toInt := by
  have hlt := (h.getItemCount item).isLt
  have hnat : (h.getItemCount item).toNat ≠ 0 := fun hzero => hcount (BitVec.eq_of_toNat_eq hzero)
  rw [moveCount_stack hstack, BitVec.toInt_eq_toNat_of_lt] <;>
    rw [BitVec.toNat_setWidth, Nat.mod_eq_of_lt (by omega)] <;> omega

theorem setWidth_eq_zero {m : BitVec 8} : m.setWidth 32 = 0 ↔ m = 0 := by
  rw [← BitVec.toNat_inj, ← BitVec.toNat_inj, BitVec.toNat_setWidth,
    Nat.mod_eq_of_lt (by have := m.isLt; omega)]
  rfl

theorem moveCount_eq_zero :
    h.moveCount w item = 0 ↔ h.isStackable w item = true ∧ h.getItemCount item = 0 := by
  by_cases hstack : h.isStackable w item = true
  · rw [moveCount_stack hstack, setWidth_eq_zero]
    exact (and_iff_right hstack).symm
  · refine iff_of_false (fun hzero => ?_) (fun hboth => hstack hboth.1)
    rw [Heap.moveCount, if_neg hstack] at hzero
    split at hzero
    · cases hzero
    · contradiction

/-- The checks of `queryRemove`, after the index has been asked for. -/
theorem removable_iff {P : Prop} [Decidable P] :
    (if P then ReturnValue.notPossible
      else if h.moveCount w item = 0 ∨ (h.isStackable w item = true ∧
          (h.getItemCount item).setWidth 32 < h.moveCount w item) then .notPossible
      else if h.isMoveable w item = false ∧ hasBitSet FLAG_IGNORENOTMOVEABLE FLAG_NOLIMIT = false
        then .notMoveable
      else .noError) = .noError ↔
      ¬P ∧ h.isMoveable w item = true ∧
        (h.isStackable w item = true → h.getItemCount item ≠ 0) := by
  have hcount : (h.moveCount w item = 0 ∨ (h.isStackable w item = true ∧
      (h.getItemCount item).setWidth 32 < h.moveCount w item)) ↔
      h.isStackable w item = true ∧ h.getItemCount item = 0 := by
    rw [moveCount_eq_zero]
    refine or_iff_left fun ⟨hstack, hless⟩ => ?_
    rw [moveCount_stack hstack] at hless
    exact BitVec.lt_irrefl _ hless
  rw [if_congr hcount rfl rfl]
  have hflag : hasBitSet FLAG_IGNORENOTMOVEABLE FLAG_NOLIMIT = false := by decide
  rw [hflag]
  by_cases hP : P
  · rw [if_pos hP]
    exact iff_of_false nofun fun hall => hall.1 hP
  · rw [if_neg hP]
    by_cases hzero : h.isStackable w item = true ∧ h.getItemCount item = 0
    · rw [if_pos hzero]
      exact iff_of_false nofun fun hall => hall.2.2 hzero.1 hzero.2
    · rw [if_neg hzero]
      cases h.isMoveable w item with
      | false => exact iff_of_false nofun fun hall => Bool.noConfusion hall.2.1
      | true => exact iff_of_true rfl ⟨hP, rfl, fun hstack hcount => hzero ⟨hstack, hcount⟩⟩

theorem Waits.queryRemove (hw : Waits base inbox h c item) :
    ∃ ret, h.queryRemove w (o.withTiles w) c item (h.moveCount w item) FLAG_NOLIMIT = some ret ∧
      (ret = .noError ↔ InPart w h c item ∧ h.isMoveable w item = true ∧
        (h.isStackable w item = true → h.getItemCount item ≠ 0)) := by
  cases c with
  | tile t =>
      refine ⟨_, rfl, ?_⟩
      rw [Heap.tileQueryRemove, removable_iff, tileGetThingIndex_iff (hw.ground t), not_not]
  | item k =>
      obtain ⟨kc, hk⟩ := Option.isSome_iff_exists.mp hw.source.2.2.2.1
      have hlisted : item ∈ kc.itemlist := by
        have hmem := hw.listed
        rw [contents, hk] at hmem
        exact hmem
      refine ⟨_, by rw [Heap.queryRemove, hk], ?_⟩
      rw [Heap.containerQueryRemove, removable_iff, Heap.getThingIndex_eq_neg_one, not_not]
      exact and_congr_left fun _ => iff_of_true hlisted trivial
  | player _ | virtualCylinder => exact hw.source.elim

/-- What one move comes to: the checks, and `moveThing`. -/
theorem Waits.toInbox (hf : Fixed base inbox h) (hw : Waits base inbox h c item)
    (hne : item ≠ inbox) :
    (¬CanMove w h c item → moveToInbox w o (n + 3) inbox h item = some h) ∧
      (CanMove w h c item → moveToInbox w o (n + 3) inbox h item =
        (h.moveThing w (o.withTiles w) (n + 3) c item (h.moveCount w item)
          ⟨.item inbox, INDEX_WHEREEVER, none, FLAG_NOLIMIT⟩).map Prod.fst) := by
  obtain ⟨p, hparent, hsource⟩ := hw.moveSource (n := n) hf
  obtain ⟨k, hk, hkind, hlocked, -⟩ := hf.inbox
  obtain ⟨ret, hquery, hret⟩ := hw.queryRemove (w := w) (o := o)
  have hflags : hasBitSet FLAG_NOLIMIT FLAG_NOLIMIT = true := by decide
  have hmove := Heap.internalMoveItem_inbox (w := w) (o := o.withTiles w) hflags hsource hk hkind
    hlocked hne
  rw [House.moveToInbox, hparent]
  dsimp only
  rw [hmove, hquery]
  refine ⟨fun hcannot => ?_, fun hcan => ?_⟩
  · by_cases hpickup : h.isPickupable w item = false
    · rw [if_pos hpickup]
    · rw [if_neg hpickup]
      have hrefused : ret ≠ .noError := fun heq => by
        obtain ⟨hpart, hmoveable, hcount⟩ := hret.mp heq
        exact hcannot ⟨Bool.of_not_eq_false hpickup, hmoveable, hpart, hcount⟩
      exact if_neg hrefused
  · have hgiven : ret = .noError := hret.mpr ⟨hcan.inPart, hcan.moveable, hcan.count⟩
    rw [if_neg (by rw [hcan.pickupable]; exact Bool.noConfusion), hgiven, Option.bind_some,
      if_pos rfl]

/-- The item is gone from what it lay in. -/
theorem Waits.removeThing (hf : Fixed base inbox h) (hw : Waits base inbox h c item)
    (hpart : InPart w h c item) {m : BitVec 32}
    (hm : h.isStackable w item = true → m = (h.getItemCount item).setWidth 32) :
    Takes base inbox item h (h.removeThing w (o.withTiles w) c item m) := by
  cases c with
  | tile t => exact tileRemoveThing_takes hf hw hpart hm
  | item k =>
      obtain ⟨kc, hk⟩ := Option.isSome_iff_exists.mp hw.source.2.2.2.1
      rw [Heap.removeThing, hk]
      exact containerRemoveThing_takes hw hk hm
  | player _ | virtualCylinder => exact hw.source.elim

/-- An item that can be moved comes to the inbox; a stack only if its type is known. -/
theorem Waits.carries (hf : Fixed base inbox h) (hw : Waits base inbox h c item)
    (hne : item ≠ inbox) (hcan : CanMove w h c item)
    (hstack : h.isStackable w item = true →
      h.container item = none ∧ ((h.object item).clone w).isSome) :
    ∃ h' arrived, moveToInbox w o (n + 3) inbox h item = some h' ∧
      Carries w base inbox [item] [arrived] h h' := by
  rw [(hw.toInbox hf hne).2 hcan]
  have htakes := hw.removeThing (o := o) (m := h.moveCount w item) hf hcan.inPart moveCount_stack
  obtain ⟨k, hk, -, -, hsize⟩ := hf.inbox
  rw [Heap.moveThing]
  dsimp only
  generalize h.removeThing w (o.withTiles w) c item (h.moveCount w item) = h₁ at htakes
  have hk₁ : h₁.container inbox = some k := htakes.inbox.trans hk
  have hmade : item < h₁.next := htakes.next ▸ hw.made.trans_le hf.base_le
  have hstack₁ : h₁.isStackable w item = h.isStackable w item := by
    rw [Heap.isStackable, Heap.isStackable, Heap.itemType, Heap.itemType, htakes.object]
  cases hs : h.isStackable w item with
  | false =>
      rw [if_neg (by rw [hstack₁, hs]; exact Bool.noConfusion)]
      exact ⟨_, item, rfl, htakes.carries (addThing_puts hk₁ hsize hmade (hstack₁.trans hs))
        hf.base_le⟩
  | true =>
      obtain ⟨hcontainer, hclone⟩ := hstack hs
      obtain ⟨node, hnode⟩ := Option.isSome_iff_exists.mp hclone
      have hkind : (h₁.container item).map (·.kind) = none := by
        rw [htakes.kind, hcontainer]
        rfl
      have hcount : ((h.moveCount w item).setWidth 16).setWidth 8 = h₁.getItemCount item := by
        rw [moveCount_stack hs, Heap.getItemCount, Heap.getItemCount, htakes.object]
        bv_omega
      obtain ⟨hcloned, hputs⟩ := clone_puts (n := n + 2) (o := o.withTiles w) hk₁ hsize
        (htakes.next ▸ hf.inbox_lt.trans_le hf.base_le) (hstack₁.trans hs)
        (Option.map_eq_none_iff.mp hkind) (htakes.object ▸ hnode) hcount
      have hrest : h.moveCount w item - 0 = h.moveCount w item := BitVec.sub_zero _
      rw [if_pos (hstack₁.trans hs), Heap.mergeThing]
      dsimp only
      rw [hrest, if_pos (moveCount_pos hs (hcan.count hs)), hcloned]
      exact ⟨_, _, rfl, htakes.carries hputs hf.base_le⟩

/-- Nothing is made of a stack of an unknown type. -/
theorem Waits.unknown (hf : Fixed base inbox h) (hw : Waits base inbox h c item)
    (hne : item ≠ inbox) (hcan : CanMove w h c item) (hstack : h.isStackable w item = true)
    (hclone : (h.object item).clone w = none) :
    moveToInbox w o (n + 3) inbox h item = none := by
  rw [(hw.toInbox hf hne).2 hcan]
  have htakes := hw.removeThing (o := o) (m := h.moveCount w item) hf hcan.inPart moveCount_stack
  rw [Heap.moveThing]
  dsimp only
  generalize h.removeThing w (o.withTiles w) c item (h.moveCount w item) = h₁ at htakes
  have hstack₁ : h₁.isStackable w item = true := by
    rw [← hstack, Heap.isStackable, Heap.isStackable, Heap.itemType, Heap.itemType, htakes.object]
  have hrest : h.moveCount w item - 0 = h.moveCount w item := BitVec.sub_zero _
  rw [if_pos hstack₁, Heap.mergeThing]
  dsimp only
  rw [hrest, if_pos (moveCount_pos hstack (hcan.count hstack)), Heap.clone, htakes.object, hclone]
  rfl

end House

end Infernum
