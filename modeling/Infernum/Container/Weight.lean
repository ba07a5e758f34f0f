import Infernum.Container.Forest
import Infernum.Lib.TransitionSystem
import Mathlib.Data.BitVec
import Mathlib.Tactic.Abel

/-!
# The weight of what containers hold

`totalWeight` is the sum of the weights of the items in the container. An operation
keeps this if the difference that it reports is that of the sums (`Sound`), and if no
container on the way up hides its parent.
-/

namespace Infernum

open Lib

variable (w : WeightWorld)

/-- The weight of the items in a container. -/
def weigh (items : List Content) : BitVec 32 := (items.map (Content.getWeight w)).sum

namespace Content

/-- Every container in the tree has the weight of its items in `totalWeight`. -/
inductive Exact : Content → Prop
  | node (h : Holder) (items : List Content)
      (total : ∀ c, h.container = some c → c.totalWeight = weigh w items)
      (items_exact : ∀ t ∈ items, Exact t) : Exact (.node h items)

variable {w}

theorem Exact.total {h : Holder} {items : List Content} (hexact : Exact w (.node h items))
    {c : Container} (hc : h.container = some c) : c.totalWeight = weigh w items := by
  cases hexact with
  | node _ _ total _ => exact total c hc

theorem Exact.items {h : Holder} {items : List Content} (hexact : Exact w (.node h items)) :
    ∀ t ∈ items, Exact w t := by
  cases hexact with
  | node _ _ _ items_exact => exact items_exact

theorem Exact.setObject {t : Content} (hexact : Exact w t) (o : Object) :
    Exact w (t.setObject o) := by
  cases t with
  | node h items => exact .node _ _ (fun c hc => hexact.total hc) hexact.items

end Content

/-! ## Sums -/

section Sums

variable {w}

theorem weigh_cons (item : Content) (items : List Content) :
    weigh w (item :: items) = item.getWeight w + weigh w items := by
  rw [weigh, List.map_cons, List.sum_cons]
  rfl

theorem weigh_append (items items' : List Content) :
    weigh w (items ++ items') = weigh w items + weigh w items' := by
  rw [weigh, List.map_append, List.sum_append]
  rfl

theorem weigh_set {items : List Content} {k : Nat} {item : Content} (hk : items[k]? = some item)
    (item' : Content) :
    weigh w (items.set k item') = weigh w items + (-item.getWeight w + item'.getWeight w) := by
  induction items generalizing k with
  | nil => cases hk
  | cons i items ih =>
      cases k with
      | zero =>
          obtain rfl : i = item := Option.some.inj hk
          rw [List.set_cons_zero, weigh_cons, weigh_cons]
          abel
      | succ k =>
          rw [List.set_cons_succ, weigh_cons, weigh_cons, ih hk]
          abel

theorem weigh_eraseIdx {items : List Content} {k : Nat} {item : Content}
    (hk : items[k]? = some item) :
    weigh w (items.eraseIdx k) = weigh w items + -item.getWeight w := by
  induction items generalizing k with
  | nil => cases hk
  | cons i items ih =>
      cases k with
      | zero =>
          obtain rfl : i = item := Option.some.inj hk
          rw [List.eraseIdx_cons_zero, weigh_cons]
          abel
      | succ k =>
          rw [List.eraseIdx_cons_succ, weigh_cons, weigh_cons, ih hk]
          abel

end Sums

/-! ## Sound changes -/

/-- The difference is that of the sums, and no tree gets wrong. -/
structure Sound (items : List Content) (change : Change) : Prop where
  diff : weigh w change.items = weigh w items + change.diff
  items_exact : (∀ t ∈ items, t.Exact w) → ∀ t ∈ change.items, t.Exact w
  loose : (∀ t ∈ items, t.Exact w) → ∀ t ∈ change.loose, t.Exact w

namespace Container

variable {w}

theorem sound_ite {items : List Content} {c : Prop} [Decidable c] {change change' : Change}
    (h : c → Sound w items change) (h' : ¬c → Sound w items change') :
    Sound w items (if c then change else change') := by
  split
  case isTrue hc => exact h hc
  case isFalse hc => exact h' hc

theorem sound_same (items : List Content) : Sound w items ⟨items, 0, []⟩ :=
  ⟨(add_zero _).symm, id, fun _ _ h => absurd h List.not_mem_nil⟩

theorem sound_set {items : List Content} {k : Nat} {item item' : Content}
    (hk : items[k]? = some item) (hexact : item.Exact w → item'.Exact w) {loose : List Content}
    (hloose : (∀ t ∈ items, t.Exact w) → ∀ t ∈ loose, t.Exact w) :
    Sound w items ⟨items.set k item', -item.getWeight w + item'.getWeight w, loose⟩ := by
  refine ⟨weigh_set hk item', fun hitems t ht => ?_, hloose⟩
  rcases List.mem_or_eq_of_mem_set ht with ht | rfl
  · exact hitems t ht
  · exact hexact (hitems item (List.mem_of_getElem? hk))

theorem sound_setItem {items : List Content} {k : Nat} {item : Content}
    (hk : items[k]? = some item) (o : Object) : Sound w items (setItem w k item o items) :=
  sound_set hk (fun h => h.setObject o) fun _ _ h => absurd h List.not_mem_nil

theorem sound_addThing {item : Content} (hitem : item.Exact w) (c : Container) (index : Int)
    (items : List Content) : Sound w items (c.addThing w index item items) := by
  rw [addThing]
  split
  · refine ⟨(add_zero _).symm, id, fun _ t ht => ?_⟩
    exact List.mem_singleton.mp ht ▸ hitem
  · refine ⟨?_, fun hitems => List.forall_mem_cons.mpr ⟨hitem, hitems⟩,
      fun _ _ h => absurd h List.not_mem_nil⟩
    rw [weigh_cons, add_comm]

theorem sound_internalAddThing {item : Content} (hitem : item.Exact w) (items : List Content) :
    Sound w items (internalAddThing w item items) := by
  refine ⟨?_, fun hitems => List.forall_mem_cons.mpr ⟨hitem, hitems⟩,
    fun _ _ h => absurd h List.not_mem_nil⟩
  rw [internalAddThing, weigh_cons, add_comm]

theorem sound_addItemBack {item : Content} (hitem : item.Exact w) (items : List Content) :
    Sound w items (addItemBack w item items) := by
  refine ⟨?_, fun hitems t ht => ?_, fun _ _ h => absurd h List.not_mem_nil⟩
  · rw [addItemBack, weigh_append, weigh_cons]
    exact congrArg _ (add_zero _)
  · rcases List.mem_append.mp ht with ht | ht
    · exact hitems t ht
    · exact List.mem_singleton.mp ht ▸ hitem

theorem sound_replaceThing {item : Content} (hitem : item.Exact w) (index : Nat)
    (items : List Content) : Sound w items (replaceThing w index item items) := by
  rw [replaceThing]
  cases hk : items[index]? with
  | none =>
      refine ⟨(add_zero _).symm, id, fun _ t ht => ?_⟩
      exact List.mem_singleton.mp ht ▸ hitem
  | some replacedItem =>
      refine sound_set hk (fun _ => hitem) fun hitems t ht => ?_
      exact List.mem_singleton.mp ht ▸ hitems _ (List.mem_of_getElem? hk)

theorem sound_updateThing (index : Nat) (itemId : BitVec 16) (count : BitVec 32)
    (items : List Content) : Sound w items (updateThing w index itemId count items) := by
  rw [updateThing]
  cases hk : items[index]? with
  | none => exact sound_same items
  | some item => exact sound_setItem hk _

theorem sound_removeThing (index : Nat) (count : BitVec 32) (items : List Content) :
    Sound w items (removeThing w index count items) := by
  rw [removeThing]
  cases hk : items[index]? with
  | none => exact sound_same items
  | some item =>
      dsimp only
      split
      · exact sound_setItem hk _
      · refine ⟨weigh_eraseIdx hk, fun hitems t ht => hitems t (List.mem_of_mem_eraseIdx ht),
          fun hitems t ht => ?_⟩
        exact List.mem_singleton.mp ht ▸ hitems item (List.mem_of_getElem? hk)

theorem sound_internalRemoveItem (index : Nat) (items : List Content) :
    Sound w items (internalRemoveItem w index items) := by
  rw [internalRemoveItem]
  cases items[index]? with
  | none => exact sound_same items
  | some item =>
      dsimp only
      split
      · exact sound_same items
      · split
        · exact sound_same items
        · exact sound_removeThing index _ items

variable (w) in
theorem exact_newItem (id : BitVec 16) (i : Item) : (newItem w id i).Exact w := by
  rw [newItem]
  refine .node _ _ (fun c hc => ?_) fun t ht => absurd ht List.not_mem_nil
  dsimp only at hc
  split at hc
  · exact (Option.some.inj hc) ▸ rfl
  · exact (Option.some.inj hc) ▸ rfl
  · cases hc

theorem sound_replaceByNew (index : Nat) (newId newCount : BitVec 16) (items : List Content) :
    Sound w items (replaceByNew w index newId newCount items) := by
  rw [replaceByNew]
  cases Item.createItem w.toWorld newId newCount with
  | none => exact sound_same items
  | some i => exact sound_replaceThing (exact_newItem w newId i) index items

theorem getWeight_setObject {item : Content} {o : Object}
    (ho : o.getWeight w = item.object.getWeight w) :
    (item.setObject o).getWeight w = item.getWeight w := by
  have hcontainer : (item.setObject o).container = item.container := by cases item; rfl
  have hobject : (item.setObject o).object = o := by cases item; rfl
  rw [Content.getWeight, Content.getWeight, hcontainer, hobject, ho]

/-- In place, the item may change before its weight is taken if that leaves the weight. -/
theorem sound_transformInPlace {items : List Content} {index : Nat} {item : Content}
    (hk : items[index]? = some item) (newId : BitVec 16) (newCount : Int)
    (hkeeps : (item.object.itemType w.toTileWorld).id ≠ (w.itemType newId).id →
      (w.itemType newId).group ≠ (item.object.itemType w.toTileWorld).group →
      (item.object.setDefaultSubtype w.toTileWorld).getWeight w = item.object.getWeight w) :
    Sound w items (transformInPlace w index item newId newCount items) := by
  -- `updateThing` on items that weigh the same
  have hupdate : ∀ itemId count items', weigh w items' = weigh w items →
      ((∀ t ∈ items, t.Exact w) → ∀ t ∈ items', t.Exact w) →
      Sound w items (updateThing w index itemId count items') := by
    intro itemId count items' hsame hexact
    have hsound := sound_updateThing (w := w) index itemId count items'
    exact ⟨by rw [hsound.diff, hsame], fun hitems => hsound.items_exact (hexact hitems),
      fun hitems => hsound.loose (hexact hitems)⟩
  rw [transformInPlace]
  dsimp only
  by_cases hid : (item.object.itemType w.toTileWorld).id ≠ (w.itemType newId).id
  · rw [if_pos hid]
    by_cases hgroup : (w.itemType newId).group ≠ (item.object.itemType w.toTileWorld).group
    · rw [if_pos hgroup]
      refine hupdate _ _ _ ?_ fun hitems t ht => ?_
      · rw [weigh_set hk, getWeight_setObject (hkeeps hid hgroup), neg_add_cancel, add_zero]
      · rcases List.mem_or_eq_of_mem_set ht with ht | rfl
        · exact hitems t ht
        · exact (hitems item (List.mem_of_getElem? hk)).setObject _
    · rw [if_neg hgroup]
      exact hupdate _ _ _ rfl id
  · rw [if_neg hid]
    exact hupdate _ _ _ rfl id

theorem sound_transformMoved (c : Container) {items : List Content} {index : Nat} {item : Content}
    (hitems : ∀ t ∈ items, t.Exact w) (hk : items[index]? = some item) (newId : BitVec 16)
    (newCount : Int) : Sound w items (transformMoved w c index item newId newCount items) := by
  have hremoved := sound_removeThing (w := w) index (item.object.count.setWidth 32) items
  have hadded := fun o => sound_addThing ((hitems item (List.mem_of_getElem? hk)).setObject o) c 0
    (removeThing w index (item.object.count.setWidth 32) items).items
  rw [transformMoved]
  refine ⟨?_, fun h => (hadded _).items_exact (hremoved.items_exact h),
    fun h => (hadded _).loose (hremoved.items_exact h)⟩
  rw [(hadded _).diff, hremoved.diff, add_assoc]

variable (w) in
/-- `transformItem` comes to `setDefaultSubtype`. -/
def SetsDefault (item : Content) (newId : BitVec 16) (newCount : Int) : Prop :=
  let curType := item.object.itemType w.toTileWorld
  let newType := w.itemType newId
  item.hidesParent = false ∧ item.object.canTransform = true ∧ newType.id ≠ 0 ∧
    curType.alwaysOnTop = newType.alwaysOnTop ∧ curType.type = newType.type ∧
    ¬(newCount = 0 ∧ curType.stackable = true) ∧ curType.id ≠ newType.id ∧
    newType.group ≠ curType.group

theorem setDefaultSubtype_weight {o : Object}
    (ho : (o.itemType w.toTileWorld).stackable = false) :
    (o.setDefaultSubtype w.toTileWorld).getWeight w = o.getWeight w := by
  have hbase : ∀ o' : Object, o'.id = o.id → o'.attributes.int .weight = o.attributes.int .weight →
      o'.getWeight w = o.getWeight w := by
    intro o' hid hattr
    have hbase' : o'.getBaseWeight w = o.getBaseWeight w := by
      rw [Object.getBaseWeight, Object.getBaseWeight, Item.hasAttribute, Item.hasAttribute,
        Item.getIntAttr, Item.getIntAttr, hattr, hid]
    have htype : o'.itemType w.toTileWorld = o.itemType w.toTileWorld := by
      rw [Object.itemType, Object.itemType, hid]
    rw [Object.getWeight, Object.getWeight, htype, if_neg (Bool.eq_false_iff.mp ho),
      if_neg (Bool.eq_false_iff.mp ho), hbase']
  refine hbase _ (o.alike_setDefaultSubtype w.toTileWorld).1 ?_
  rw [Object.setDefaultSubtype]
  dsimp only
  split
  · split
    · rfl
    · have hne : IntAttr.weight ≠ .charges := by decide
      exact Function.update_of_ne hne
        (some (((o.itemType w.toTileWorld).charges.setWidth 16).setWidth 32)) o.attributes.int
  · rfl

theorem sound_transformItem (c : Container) {items : List Content}
    (hitems : ∀ t ∈ items, t.Exact w) {index : Nat} {newId : BitVec 16} {newCount : Int}
    (hkeeps : ∀ item, items[index]? = some item → SetsDefault w item newId newCount →
      (item.object.setDefaultSubtype w.toTileWorld).getWeight w = item.object.getWeight w) :
    Sound w items (c.transformItem w index newId newCount items) := by
  rw [transformItem]
  cases hk : items[index]? with
  | none => exact sound_same items
  | some item =>
      have hkept := hkeeps item hk
      refine sound_ite (fun _ => sound_same items) fun _ => ?_
      refine sound_ite (fun _ => sound_same items) fun hparent => ?_
      refine sound_ite (fun _ => sound_same items) fun htransform => ?_
      refine sound_ite (fun _ => sound_same items) fun hknown => ?_
      refine sound_ite (fun _ => sound_transformMoved c hitems hk newId newCount) fun htop => ?_
      refine sound_ite (fun htype => ?_) fun _ => sound_replaceByNew index newId _ items
      have hsets : ¬(newCount = 0 ∧ (item.object.itemType w.toTileWorld).stackable = true) →
          (item.object.itemType w.toTileWorld).id ≠ (w.itemType newId).id →
          (w.itemType newId).group ≠ (item.object.itemType w.toTileWorld).group →
          SetsDefault w item newId newCount := fun hcount hid hgroup =>
        ⟨Bool.eq_false_iff.mpr hparent, not_not.mp fun h => htransform (Bool.eq_false_iff.mpr h),
          hknown, not_not.mp htop, htype, hcount, hid, hgroup⟩
      refine sound_ite (fun _ => ?_) fun hcount => ?_
      · refine sound_ite (fun _ => sound_internalRemoveItem index items) fun hstackable => ?_
        refine sound_ite (fun _ => sound_internalRemoveItem index items) fun _ => ?_
        refine sound_ite (fun _ => sound_replaceByNew index _ 1 items) fun _ => ?_
        refine sound_ite (fun _ => sound_same items) fun _ => ?_
        exact sound_transformInPlace hk newId (-1) fun _ _ =>
          setDefaultSubtype_weight (Bool.eq_false_iff.mpr hstackable)
      · refine sound_transformInPlace hk newId newCount fun hid hgroup => hkept (hsets ?_ hid hgroup)
        exact fun h => hcount ⟨h.1, .inl h.2⟩

end Container

end Infernum
