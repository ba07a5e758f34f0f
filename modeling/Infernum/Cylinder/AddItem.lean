import Infernum.Cylinder.Holdings
import Infernum.Cylinder.Rooted
import Infernum.Item.Reload

/-!
# What `internalAddItem` accounts for

A call that merges a part of a stack clones the item and calls itself for the rest. So a
call is a chain of steps, each of which says what becomes of the item that is left:
`internalAddItem_succ`. Along the chain all units are accounted for.
-/

namespace Infernum

/-- A call of `internalAddItem` that is no test. -/
structure AddCall (σ : Type) where
  heap : Heap σ
  item : Nat
  index : Int
  flags : BitVec 32

/-- What becomes of a call. -/
inductive AddResult (σ : Type) where
  | refused (ret : ReturnValue)
  /-- `addThing` puts the item into the destination -/
  | placed (heap : Heap σ) (d : Destination)
  | merged (heap : Heap σ)
  /-- a clone is added with the rest -/
  | rest (count : BitVec 32) (call : AddCall σ)

namespace AddCall

variable {σ : Type} (w : CylinderWorld) (o : Others σ) (n : Nat) (destCylinder : Cylinder)
  (s : AddCall σ)

def itemCount : BitVec 32 := (s.heap.getItemCount s.item).setWidth 32

def destination : Option Destination :=
  s.heap.queryDestination w o n destCylinder s.index s.item none s.flags

/-- The three queries: the destination and `maxQueryCount`, or why it is refused. -/
def query : Option (Except ReturnValue (Destination × BitVec 32)) :=
  match s.destination w o n destCylinder with
  | none => none
  | some d =>
      match s.heap.queryAdd w o n d.cylinder d.index s.item s.itemCount d.flags with
      | none => none
      | some .noError =>
          match s.heap.queryMaxCount w o n destCylinder INDEX_WHEREEVER s.item s.itemCount d.flags with
          | none => none
          | some (.noError, maxQueryCount) => some (.ok (d, maxQueryCount))
          | some (ret, _) => some (.error ret)
      | some ret => some (.error ret)

/-- The item at the destination that the item is merged into. -/
def mergeItem (d : Destination) : Option Nat :=
  d.toItem.filter fun t => s.heap.isStackable w s.item && s.heap.equals s.item (some t)

/-- The item is put to the destination. -/
def put (d : Destination) (maxQueryCount : BitVec 32) : Option (AddResult σ) :=
  match s.mergeItem w d with
  | none => some (.placed s.heap d)
  | some toItem =>
      let m := uint32Min s.itemCount maxQueryCount
      let n' := uint32Min (100 - (s.heap.getItemCount toItem).setWidth 32) m
      let h := s.heap.updateThing w o d.cylinder toItem (s.heap.object toItem).id
        ((s.heap.getItemCount toItem).setWidth 32 + n')
      let count := m - n'
      if 0 < count.toInt then
        if (h.getItemCount s.item).setWidth 32 ≠ count then
          (h.clone w n s.item).map fun (h, remainderItem) =>
            .rest count ⟨h.setItemCount remainderItem (count.setWidth 16), remainderItem,
              INDEX_WHEREEVER, d.flags⟩
        else some (.placed h d)
      else some (.merged h)

/-- One call, without the one that it makes for the rest. -/
def step : Option (AddResult σ) :=
  match s.query w o n destCylinder with
  | none => none
  | some (.error ret) => some (.refused ret)
  | some (.ok (d, maxQueryCount)) => s.put w o n d maxQueryCount

variable {w o n destCylinder s}

end AddCall

/-- The index that a tile or a player has for an item depends on what it has itself. -/
def Others.Indexed {σ : Type} (o : Others σ) : Prop :=
  ∀ h h' c i, h'.others = h.others → o.getThingIndex h' c i = o.getThingIndex h c i

namespace Heap

variable {σ : Type} {w : CylinderWorld} {o : Others σ} {n : Nat} {destCylinder : Cylinder}

/-- The fields of a cylinder that is a container. -/
def containerAt (h : Heap σ) : Cylinder → Option HeapContainer
  | .item i => h.container i
  | _ => none

/-- The cylinder has the item. -/
def HasItem (o : Others σ) (h : Heap σ) (c : Cylinder) (i : Nat) : Prop :=
  match h.containerAt c with
  | some k => i ∈ k.itemlist
  | none => h.location o i = some c ∧ i < h.next

variable {h h' : Heap σ}

theorem exists_of_containerAt {c : Cylinder} {k : HeapContainer} (hc : h.containerAt c = some k) :
    ∃ i, c = .item i ∧ h.container i = some k := by
  cases c with
  | item i => exact ⟨i, rfl, hc⟩
  | player _ | tile _ | virtualCylinder => cases hc

theorem updateThing_of_none {c : Cylinder} (hc : h.containerAt c = none) (t : Nat)
    (itemId : BitVec 16) (count : BitVec 32) :
    h.updateThing w o c t itemId count = o.updateThing h c t itemId count := by
  cases c with
  | item i =>
      rw [updateThing, show h.container i = none from hc]
  | player _ | tile _ | virtualCylinder => rfl

theorem getThingIndex_eq_neg_one {c : HeapContainer} {t : Nat} :
    c.getThingIndex t = -1 ↔ t ∉ c.itemlist := by
  unfold HeapContainer.getThingIndex
  split
  · rename_i k hk
    refine iff_of_false (by omega) fun ht => ?_
    rw [List.idxOf?_eq_none_iff.mpr ht] at hk
    cases hk
  · rename_i hnone
    exact iff_of_true rfl (List.idxOf?_eq_none_iff.mp hnone)

/-- An item stays where it is if its parent does and has it in its list as before. -/
theorem location_of_lists (ho : o.Indexed) (hothers : h'.others = h.others) {i : Nat}
    (hparent : h'.parent i = h.parent i)
    (hlist : ∀ k, h.parent i = some (.item k) →
      (h'.container k).map (fun c => decide (i ∈ c.itemlist)) =
        (h.container k).map (fun c => decide (i ∈ c.itemlist))) :
    h'.location o i = h.location o i := by
  refine location_congr hparent fun c hc => ?_
  cases c with
  | item k =>
      have hk := hlist k hc
      show (match h'.container k with
        | some k => k.getThingIndex i
        | none => o.getThingIndex h' (.item k) i) = -1 ↔ _
      show _ ↔ (match h.container k with
        | some k => k.getThingIndex i
        | none => o.getThingIndex h (.item k) i) = -1
      cases hcont : h.container k with
      | none =>
          rw [hcont] at hk
          rw [Option.map_eq_none_iff.mp hk]
          dsimp only
          rw [ho h h' _ _ hothers]
      | some c =>
          rw [hcont] at hk
          obtain ⟨c', hcont', hmem⟩ := Option.map_eq_some_iff.mp hk
          rw [hcont']
          dsimp only
          rw [getThingIndex_eq_neg_one, getThingIndex_eq_neg_one, decide_eq_decide.mp hmem]
  | player _ | tile _ | virtualCylinder =>
      show o.getThingIndex h' _ i = -1 ↔ o.getThingIndex h _ i = -1
      rw [ho h h' _ _ hothers]

/-- A stack in a container gets a new number. -/
theorem containerUpdateThing_recounts (ho : o.Indexed) {c : HeapContainer} {t : Nat}
    (ht : t ∈ c.itemlist) (hstack : h.isStackable w t = true)
    (hfluid : (h.itemType w t).holdsFluid = false) (count : BitVec 32) :
    Recounts o h (h.containerUpdateThing w c t (h.object t).id count) t
      ((count.setWidth 16).setWidth 8) := by
  rw [containerUpdateThing, if_neg fun hindex => getThingIndex_eq_neg_one.mp hindex ht]
  have hid : ((h.object t).toObject.setID w.toTileWorld (h.object t).id).id = (h.object t).id :=
    setID_id _ _ _
  have hcount : ((((h.object t).toObject.setID w.toTileWorld (h.object t).id).setSubType
      w.toTileWorld (count.setWidth 16)).toItem).count = (count.setWidth 16).setWidth 8 := by
    have hstackable : (w.itemType (h.object t).id).stackable = true := hstack
    have hdry : ¬(w.itemType (h.object t).id).holdsFluid = true := Bool.not_eq_true _ ▸ hfluid
    rw [Object.setSubType, Item.setSubType, Item.type, hid, if_neg hdry, if_pos hstackable]
    rfl
  refine ⟨rfl, rfl, rfl, funext fun j => ?_, fun i => ?_, fun i => ?_⟩
  · refine location_of_lists ho ?_ ?_ fun _ _ => ?_
    · rfl
    · rfl
    · rfl
  · show (Function.update h.object t _ i).id = _
    by_cases hi : i = t
    · subst hi
      rw [Function.update_self]
      exact (setSubType_id _ _ _).trans hid
    · rw [Function.update_of_ne hi]
  · show (Function.update h.object t _ i).count = _
    by_cases hi : i = t
    · subst hi
      rw [Function.update_self, if_pos rfl]
      exact hcount
    · rw [Function.update_of_ne hi, if_neg hi]
      rfl

theorem mem_of_findStack {item : Nat} {items : List Nat} {k k' t : Nat}
    (hfind : h.findStack item items k = some (k', t)) : t ∈ items := by
  induction items generalizing k with
  | nil => cases hfind
  | cons listItem items ih =>
      rw [findStack] at hfind
      split at hfind
      · obtain ⟨-, rfl⟩ := Prod.mk.inj (Option.some.inj hfind)
        exact List.mem_cons_self
      · exact List.mem_cons_of_mem _ (ih hfind)

theorem mem_of_getItemByIndex {c : HeapContainer} {index : Int} {t : Nat}
    (hitem : c.getItemByIndex index = some t) : t ∈ c.itemlist := by
  unfold HeapContainer.getItemByIndex at hitem
  split at hitem
  · exact List.mem_of_getElem? hitem
  · cases hitem

/-- A container answers with a container or an item, and with a stack of its own only. -/
theorem destination_of_container {i : Nat} {c : HeapContainer} (hc : h.container i = some c)
    {index : Int} {item : Nat} {flags : BitVec 32} {d : Destination}
    (hdest : h.queryDestination w o n (.item i) index item none flags = some d) :
    (∃ j, d.cylinder = .item j) ∧
      ∀ t, d.toItem = some t → d.cylinder = .item i ∧ t ∈ c.itemlist := by
  rw [queryDestination, hc] at hdest
  dsimp only at hdest
  rw [containerQueryDestination] at hdest
  -- an answer without a stack
  have hnone : ∀ {j : Nat} {index : Int} {flags : BitVec 32},
      some (Destination.mk (.item j) index none flags) = some d →
      (∃ j, d.cylinder = .item j) ∧
        ∀ t, d.toItem = some t → d.cylinder = .item i ∧ t ∈ c.itemlist := by
    intro j index flags heq
    obtain rfl := Option.some.inj heq
    exact ⟨⟨j, rfl⟩, nofun⟩
  split at hdest
  · exact hnone hdest
  · split at hdest
    · split at hdest
      · cases hdest
      · exact hnone hdest
      · exact hnone hdest
    · dsimp only at hdest
      generalize (if index = 255 ∨ c.maxSize.toInt ≤ index then INDEX_WHEREEVER else index) = index'
        at hdest
      rw [ite_self] at hdest
      -- the item at the index, if there is one
      generalize htoItem : (if index' ≠ INDEX_WHEREEVER then (c.getItemByIndex index').or none
        else none) = toItem at hdest
      have hitem : ∀ t, toItem = some t → t ∈ c.itemlist := by
        intro t ht
        rw [← htoItem] at ht
        split at ht
        · rw [Option.or_none] at ht
          exact mem_of_getItemByIndex ht
        · cases ht
      have hsame : ∀ {index : Int} {flags : BitVec 32},
          some (Destination.mk (.item i) index toItem flags) = some d →
          (∃ j, d.cylinder = .item j) ∧
            ∀ t, d.toItem = some t → d.cylinder = .item i ∧ t ∈ c.itemlist := by
        intro index flags heq
        obtain rfl := Option.some.inj heq
        exact ⟨⟨i, rfl⟩, fun t ht => ⟨rfl, hitem t ht⟩⟩
      split at hdest
      · exact hnone hdest
      · split at hdest
        · split at hdest
          · cases hdest
          · split at hdest
            · exact hsame hdest
            · split at hdest
              · rename_i hfind
                obtain rfl := Option.some.inj hdest
                refine ⟨⟨i, rfl⟩, fun t ht => ⟨rfl, ?_⟩⟩
                obtain rfl := Option.some.inj ht
                exact mem_of_findStack hfind
              · exact hsame hdest
        · exact hsame hdest

end Heap

end Infernum
