import Infernum.Cylinder.Move
import Infernum.Lib.Parents

/-!
# Heaps whose parents lead to an end

`Rooted` says that the way up ends everywhere, and that nothing that can be picked up is
above a `DepotChest` or an `Inbox`, whose `getParent` leaves out what they lie in. Taking
items out keeps this (`Loosens`), making items keeps it (`Extends`), and so does putting
an item where it is not above (`Free`).
-/

namespace Infernum.Heap

open Lib

variable {σ : Type} (w : CylinderWorld)

structure Rooted (h : Heap σ) : Prop where
  ends : ∀ c, Ends h.up c
  parent_lt : ∀ i k, h.parent i = some (.item k) → k < h.next
  container_lt : ∀ i, (h.container i).isSome → i < h.next
  pinned : ∀ i, h.skipsParent (.item i) = true → ∀ j, Above h.up (.item i) (.item j) →
    h.isPickupable w j = false

/-- The cylinder is no container, or the item is neither above it nor above a `DepotChest`
or an `Inbox`. -/
def Free (h : Heap σ) (c : Cylinder) (item : Nat) : Prop :=
  ∀ i, c = .item i → (h.container i).isSome →
    ¬Above h.up (.item i) (.item item) ∧
      ∀ d, h.skipsParent (.item d) = true → ¬Above h.up (.item d) (.item item)

variable {w} {h h' : Heap σ}

/-! ## Ways that begin outside of items -/

theorem ends_of_ne_item {c : Cylinder} (hc : ∀ k, c ≠ .item k) : Ends h.up c := by
  cases c with
  | item i => exact absurd rfl (hc i)
  | player p =>
      refine ⟨_, fun q hq => ?_⟩
      obtain ⟨t, -, rfl⟩ := Option.map_eq_some_iff.mp hq
      exact ends_of_none rfl
  | tile t => exact ends_of_none rfl
  | virtualCylinder => exact ends_of_none rfl

theorem not_above_item {c : Cylinder} (hc : ∀ k, c ≠ .item k) (j : Nat) :
    ¬Above h.up c (.item j) := by
  cases c with
  | item i => exact absurd rfl (hc i)
  | player p =>
      intro habove
      rcases habove.cases_head with heq | ⟨q, hq, hrest⟩
      · cases heq
      · obtain ⟨t, -, rfl⟩ := Option.map_eq_some_iff.mp hq
        cases (@above_iff_of_none _ h.up _ _ rfl).mp hrest
  | tile t =>
      intro habove
      cases (@above_iff_of_none _ h.up _ _ rfl).mp habove
  | virtualCylinder =>
      intro habove
      cases (@above_iff_of_none _ h.up _ _ rfl).mp habove

/-! ## Items are taken out -/

namespace Loosens

theorem up (hl : h.Loosens h') (c : Cylinder) :
    h'.up c = h.up c ∨ ∀ k, h'.up c ≠ some (.item k) := by
  cases c with
  | item i => exact hl.parent i
  | player p =>
      refine .inl ?_
      show (h'.tile p).map _ = (h.tile p).map _
      rw [hl.tile]
  | tile t => exact .inl rfl
  | virtualCylinder => exact .inl rfl

theorem isSome (hl : h.Loosens h') (i : Nat) :
    (h'.container i).isSome = (h.container i).isSome := by
  have hkind := congrArg Option.isSome (hl.kind i)
  rw [Option.isSome_map, Option.isSome_map] at hkind
  exact hkind

theorem skipsParent (hl : h.Loosens h') (c : Cylinder) : h'.skipsParent c = h.skipsParent c := by
  cases c with
  | item i =>
      have hkind := congrArg (Option.any ContainerKind.skipsParent) (hl.kind i)
      rw [Option.any_map, Option.any_map] at hkind
      exact hkind
  | player _ | tile _ | virtualCylinder => rfl

theorem isPickupable (hl : h.Loosens h') (j : Nat) :
    h'.isPickupable w j = h.isPickupable w j := by
  rw [Heap.isPickupable, Heap.isPickupable, hl.id]

theorem above (hl : h.Loosens h') {c : Cylinder} {j : Nat} (habove : Above h'.up c (.item j)) :
    Above h.up c (.item j) := by
  induction habove using Relation.ReflTransGen.head_induction_on with
  | refl => exact .refl
  | head hp hrest ih =>
      rename_i c p
      rcases hl.up c with hsame | hnot
      · exact .head (hsame ▸ hp) ih
      · have hroot : ∀ k, p ≠ .item k := fun k hk => hnot k (hk ▸ hp)
        exact absurd hrest (not_above_item hroot j)

theorem free (hl : h.Loosens h') {c : Cylinder} {item : Nat} (hfree : h.Free c item) :
    h'.Free c item := by
  intro i hc hsome
  obtain ⟨hnot, hpinned⟩ := hfree i hc (hl.isSome i ▸ hsome)
  refine ⟨fun h => hnot (hl.above h), fun d hd h => hpinned d ?_ (hl.above h)⟩
  exact hl.skipsParent _ ▸ hd

theorem rooted (hl : h.Loosens h') (hr : h.Rooted w) : h'.Rooted w where
  ends c := by
    refine (hr.ends c).of_links fun b _ => ?_
    rcases hl.up b with hsame | hnot
    · exact .inl hsame
    · exact .inr fun p hp => ends_of_ne_item fun k hk => hnot k (hk ▸ hp)
  parent_lt i k hk := by
    rw [hl.next]
    rcases hl.parent i with hsame | hnot
    · exact hr.parent_lt i k (hsame ▸ hk)
    · exact absurd hk (hnot k)
  container_lt i hi := by
    rw [hl.next]
    exact hr.container_lt i (hl.isSome i ▸ hi)
  pinned i hi j habove := by
    rw [hl.isPickupable]
    exact hr.pinned i (hl.skipsParent _ ▸ hi) j (hl.above habove)

end Loosens

theorem loosens_setItemlist {i : Nat} {c : HeapContainer} (hc : h.container i = some c)
    (itemlist : List Nat) : h.Loosens (h.setItemlist i c itemlist) := by
  refine ⟨fun _ => .inl rfl, rfl, fun _ => rfl, fun j => ?_, rfl⟩
  show (Function.update h.container i _ j).map _ = _
  by_cases hj : j = i
  · subst hj
    rw [Function.update_self, hc]
    rfl
  · rw [Function.update_of_ne hj]

theorem loosens_setParent_none (item : Nat) : h.Loosens (h.setParent item none) := by
  refine ⟨fun j => ?_, rfl, fun _ => rfl, fun _ => rfl, rfl⟩
  show Function.update h.parent item none j = _ ∨ ∀ k, Function.update h.parent item none j ≠ _
  by_cases hj : j = item
  · rw [hj, Function.update_self]
    exact .inr fun k hk => nomatch hk
  · rw [Function.update_of_ne hj]
    exact .inl rfl

theorem setSubType_id (w : TileWorld) (o : Object) (n : BitVec 16) :
    (o.setSubType w n).id = o.id := by
  show (o.toItem.setSubType w.toWorld n).id = o.toItem.id
  rw [Item.setSubType]
  split
  · rfl
  · split
    · rfl
    · split <;> rfl

theorem setID_id (w : TileWorld) (o : Object) (newid : BitVec 16) :
    (o.setID w newid).id = newid := by
  rw [Object.setID]
  dsimp only
  split <;> split <;> rfl

theorem loosens_setObject (i : Nat) {o : Object} (ho : o.id = (h.object i).id) :
    h.Loosens (h.setObject i o) := by
  refine ⟨fun _ => .inl rfl, rfl, fun j => ?_, fun _ => rfl, rfl⟩
  show (Function.update h.object i _ j).id = _
  by_cases hj : j = i
  · subst hj
    rw [Function.update_self]
    exact ho
  · rw [Function.update_of_ne hj]

theorem Loosens.trans {h'' : Heap σ} (hl : h.Loosens h') (hl' : h'.Loosens h'') :
    h.Loosens h'' := by
  refine ⟨fun i => ?_, hl'.tile.trans hl.tile, fun i => (hl'.id i).trans (hl.id i),
    fun i => (hl'.kind i).trans (hl.kind i), hl'.next.trans hl.next⟩
  rcases hl'.parent i with hsame | hnot
  · rw [hsame]
    exact hl.parent i
  · exact .inr hnot

/-! ## An item is put into a container -/

theorem up_setParent (item i : Nat) :
    (h.setParent item (some (.item i))).up =
      Function.update h.up (.item item) (some (.item i)) := by
  funext c
  cases c with
  | item j =>
      show Function.update h.parent item _ j = _
      by_cases hj : j = item
      · rw [hj, Function.update_self, Function.update_self]
      · rw [Function.update_of_ne hj, Function.update_of_ne fun hc => hj (Cylinder.item.inj hc)]
        rfl
  | player p =>
      exact (Function.update_of_ne (fun hc => Cylinder.noConfusion hc) _ _).symm
  | tile t =>
      exact (Function.update_of_ne (fun hc => Cylinder.noConfusion hc) _ _).symm
  | virtualCylinder =>
      exact (Function.update_of_ne (fun hc => Cylinder.noConfusion hc) _ _).symm

theorem Rooted.setParent (hr : h.Rooted w) {i item : Nat} (hi : (h.container i).isSome)
    (hfree : h.Free (.item i) item) : (h.setParent item (some (.item i))).Rooted w := by
  obtain ⟨hnot, hpinned⟩ := hfree i rfl hi
  refine ⟨fun c => ?_, fun j k hk => ?_, hr.container_lt, fun d hd j habove => ?_⟩
  · rw [up_setParent]
    exact ends_attach hr.ends hnot c
  · change Function.update h.parent item _ j = _ at hk
    by_cases hj : j = item
    · rw [hj, Function.update_self] at hk
      cases hk
      exact hr.container_lt i hi
    · rw [Function.update_of_ne hj] at hk
      exact hr.parent_lt j k hk
  · rw [up_setParent] at habove
    rcases above_attach hnot habove with habove | ⟨hitem, _⟩
    · exact hr.pinned d hd j habove
    · exact absurd hitem (hpinned d hd)

/-! ## Items are made -/

/-- The items that were there are as they were; none of the new ones skips its parent. -/
structure Extends (h h' : Heap σ) : Prop where
  next : h.next ≤ h'.next
  object : ∀ j < h.next, h'.object j = h.object j
  parent : ∀ j < h.next, h'.parent j = h.parent j
  container : ∀ j < h.next, h'.container j = h.container j
  skipsParent : ∀ j, h.next ≤ j → h'.skipsParent (.item j) = false
  tile : h'.tile = h.tile

theorem Extends.trans {h'' : Heap σ} (he : h.Extends h') (he' : h'.Extends h'') :
    h.Extends h'' := by
  refine ⟨he.next.trans he'.next, fun j hj => ?_, fun j hj => ?_, fun j hj => ?_, fun j hj => ?_,
    he'.tile.trans he.tile⟩
  · exact (he'.object j (hj.trans_le he.next)).trans (he.object j hj)
  · exact (he'.parent j (hj.trans_le he.next)).trans (he.parent j hj)
  · exact (he'.container j (hj.trans_le he.next)).trans (he.container j hj)
  · by_cases hnew : h'.next ≤ j
    · exact he'.skipsParent j hnew
    · show (h''.container j).any _ = false
      rw [he'.container j (by omega)]
      exact he.skipsParent j hj

/-- Above an item there are only items that have been made. -/
theorem Rooted.above_lt (hr : h.Rooted w) {i : Nat} (hi : i < h.next) {c : Cylinder}
    (habove : Above h.up (.item i) c) : h.Made c := by
  induction habove with
  | refl =>
      intro k hk
      exact Cylinder.item.inj hk ▸ hi
  | tail _ hp _ =>
      rename_i b _ _ _
      intro k hk
      subst hk
      cases b with
      | item j => exact hr.parent_lt j k hp
      | player p =>
          obtain ⟨t, -, ht⟩ := Option.map_eq_some_iff.mp hp
          cases ht
      | tile _ | virtualCylinder => cases hp

theorem Extends.up (he : h.Extends h') {c : Cylinder} (hc : h.Made c) : h'.up c = h.up c := by
  cases c with
  | item i => exact he.parent i (hc i rfl)
  | player p =>
      show (h'.tile p).map _ = (h.tile p).map _
      rw [he.tile]
  | tile _ | virtualCylinder => rfl

theorem Extends.above (he : h.Extends h') (hr : h.Rooted w) {i : Nat} (hi : i < h.next)
    {c : Cylinder} (habove : Above h'.up (.item i) c) : Above h.up (.item i) c :=
  above_congr habove fun _ hb => he.up (hr.above_lt hi hb)

/-- What was there is free for what is new. -/
theorem Extends.free (he : h.Extends h') (hr : h.Rooted w) {c : Cylinder} {item : Nat}
    (hitem : h.next ≤ item) (hc : h.Made c) : h'.Free c item := by
  have hnot : ∀ i < h.next, ¬Above h'.up (.item i) (.item item) := by
    intro i hi habove
    have hlt := hr.above_lt hi (he.above hr hi habove) item rfl
    omega
  intro i hi _
  refine ⟨hnot i (hc i hi), fun d hd => hnot d ?_⟩
  by_contra hge
  rw [he.skipsParent d (by omega)] at hd
  cases hd

theorem extends_new (h : Heap σ) (node : Node) {c : Option HeapContainer}
    (hc : c.any (·.kind.skipsParent) = false) (hr : h.Rooted w) :
    h.Extends (h.new node c).1 := by
  have hne : ∀ j < h.next, j ≠ h.next := fun j hj => by omega
  refine ⟨Nat.le_succ _, fun j hj => Function.update_of_ne (hne j hj) _ _,
    fun j hj => Function.update_of_ne (hne j hj) _ _,
    fun j hj => Function.update_of_ne (hne j hj) _ _, fun j hj => ?_, rfl⟩
  show (Function.update h.container h.next c j).any _ = false
  by_cases hj' : j = h.next
  · rw [hj', Function.update_self]
    exact hc
  · rw [Function.update_of_ne hj']
    cases hcont : h.container j with
    | none => rfl
    | some k =>
        have hlt := hr.container_lt j (hcont ▸ rfl)
        omega

theorem Rooted.new (hr : h.Rooted w) (node : Node) {c : Option HeapContainer}
    (hc : c.any (·.kind.skipsParent) = false) : (h.new node c).1.Rooted w := by
  have he := extends_new h node hc hr
  refine ⟨fun b => ?_, fun i k hk => ?_, fun i hi => ?_, fun i hi j habove => ?_⟩
  · refine (hr.ends b).of_links fun b _ => ?_
    cases b with
    | item i =>
        show Function.update h.parent h.next none i = _ ∨
          ∀ p, Function.update h.parent h.next none i = _ → _
        by_cases hi : i = h.next
        · rw [hi, Function.update_self]
          exact .inr fun p hp => nomatch hp
        · rw [Function.update_of_ne hi]
          exact .inl rfl
    | player _ | tile _ | virtualCylinder => exact .inl rfl
  · change Function.update h.parent h.next none i = _ at hk
    show k < h.next + 1
    by_cases hi : i = h.next
    · rw [hi, Function.update_self] at hk
      cases hk
    · rw [Function.update_of_ne hi] at hk
      have hlt := hr.parent_lt i k hk
      omega
  · change (Function.update h.container h.next c i).isSome at hi
    show i < h.next + 1
    by_cases hnew : i = h.next
    · omega
    · rw [Function.update_of_ne hnew] at hi
      have hlt := hr.container_lt i hi
      omega
  · have hlt : i < h.next := by
      by_contra hge
      rw [he.skipsParent i (by omega)] at hi
      cases hi
    have hold := he.above hr hlt habove
    have hj := hr.above_lt hlt hold j rfl
    have hskips : h.skipsParent (.item i) = true := by
      show (h.container i).any _ = true
      rw [← he.container i hlt]
      exact hi
    rw [isPickupable, he.object j hj]
    exact hr.pinned i hskips j hold

theorem newContainer_skips (w : CylinderWorld) (id : BitVec 16) :
    (Node.newContainer w id).any (·.kind.skipsParent) = false := by
  rw [Node.newContainer]
  split <;> rfl

/-- The clone of an item goes into a clone of its container. -/
theorem addItem_spec {h₁ : Heap σ} (hr : h'.Rooted w) (hr₁ : h₁.Rooted w) (he : h.Extends h₁)
    (he' : h₁.Extends h') {k item : Nat} (hk : h.next ≤ k) (hk' : k < h₁.next)
    (hitem : h₁.next ≤ item) : (h'.addItem k item).Rooted w ∧ h.Extends (h'.addItem k item) ∧
      (h'.addItem k item).next = h'.next := by
  have hext := he.trans he'
  rw [addItem]
  cases hc : h'.container k with
  | none => exact ⟨hr, hext, rfl⟩
  | some c =>
      have hlist := loosens_setItemlist hc (c.itemlist ++ [item])
      have hfree : h'.Free (.item k) item :=
        he'.free hr₁ hitem fun i hi => Cylinder.item.inj hi ▸ hk'
      have hput := (hlist.rooted hr).setParent
        (hlist.isSome k ▸ Option.isSome_iff_exists.mpr ⟨c, hc⟩) (hlist.free hfree)
      have hnextle := he.next
      refine ⟨hput, ⟨hext.next, hext.object, fun j hj => ?_, fun j hj => ?_, fun j hj => ?_,
        hext.tile⟩, rfl⟩
      · show Function.update h'.parent item _ j = _
        rw [Function.update_of_ne (by omega)]
        exact hext.parent j hj
      · show Function.update h'.container k _ j = _
        rw [Function.update_of_ne (by omega)]
        exact hext.container j hj
      · exact (hlist.skipsParent (.item j)).trans (hext.skipsParent j hj)

/-- What `clone` does. -/
structure Cloned (w : CylinderWorld) (h h' : Heap σ) (item : Nat) : Prop where
  rooted : h'.Rooted w
  extended : h.Extends h'
  new : h.next ≤ item
  made : item < h'.next

theorem clone_spec (hr : h.Rooted w) {n i : Nat} {r : Heap σ × Nat}
    (hclone : h.clone w n i = some r) : Cloned w h r.1 r.2 := by
  induction n generalizing h i r with
  | zero => cases hclone
  | succ n ih =>
      rw [clone] at hclone
      cases hnode : (h.object i).clone w with
      | none =>
          rw [hnode] at hclone
          cases hclone
      | some node =>
          rw [hnode] at hclone
          have hskips := newContainer_skips w (h.object i).id
          have hnew := hr.new node hskips
          have hext := extends_new h node hskips hr
          cases hc : h.container i with
          | none =>
              rw [hc] at hclone
              obtain rfl := Option.some.inj hclone
              exact ⟨hnew, hext, le_refl _, Nat.lt_succ_self _⟩
          | some c =>
              rw [hc] at hclone
              obtain ⟨h₂, hfold, rfl⟩ := Option.map_eq_some_iff.mp hclone
              -- the items of the container, one after the other
              have hitems : ∀ (items : List Nat) (h₁ h₂ : Heap σ), h₁.Rooted w → h.Extends h₁ →
                  h.next < h₁.next → items.foldlM (fun h₁ item =>
                    (clone w n h₁ item).map fun r => r.1.addItem h.next r.2) h₁ = some h₂ →
                  h₂.Rooted w ∧ h.Extends h₂ ∧ h.next < h₂.next := by
                intro items
                induction items with
                | nil =>
                    intro h₁ h₂ hr₁ he₁ hlt hfold
                    obtain rfl := Option.some.inj hfold
                    exact ⟨hr₁, he₁, hlt⟩
                | cons item items ihitems =>
                    intro h₁ h₂ hr₁ he₁ hlt hfold
                    rw [List.foldlM_cons] at hfold
                    obtain ⟨h₃, hitem, hrest⟩ := Option.bind_eq_some_iff.mp hfold
                    obtain ⟨r, hcloned, rfl⟩ := Option.map_eq_some_iff.mp hitem
                    have hspec := ih hr₁ hcloned
                    obtain ⟨hr₃, he₃, hnext⟩ := addItem_spec hspec.rooted hr₁ he₁ hspec.extended
                      (le_refl _) hlt hspec.new
                    exact ihitems _ h₂ hr₃ he₃ (hnext ▸ hlt.trans_le hspec.extended.next) hrest
              obtain ⟨hr₂, he₂, hlt⟩ := hitems _ _ _ hnew hext (Nat.lt_succ_self _) hfold
              exact ⟨hr₂, he₂, le_refl _, hlt⟩

end Infernum.Heap
