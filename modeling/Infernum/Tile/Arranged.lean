import Infernum.Tile.Runs

/-!
# The order of the item vector

The down items, then the top items by their `alwaysOnTopOrder`. What decides the place
of an item is its type, so the invariant is about the types of the vector: `addThing`
finds the place for an item, `replaceThing` and `updateThing` keep the place that is
there.
-/

namespace Infernum.Tile

open Lib

/-! ## Sorted lists -/

section Lists

variable {α β : Type} {r : α → α → Prop}

theorem insertBefore_map (f : α → β) (later : α → Bool) (later' : β → Bool)
    (hlater : ∀ a, later a = later' (f a)) (a : α) (as : List α) :
    (insertBefore later a as).map f = insertBefore later' (f a) (as.map f) := by
  induction as with
  | nil => rfl
  | cons b as ih =>
      rw [insertBefore, List.map_cons, insertBefore, hlater b]
      split
      · rfl
      · rw [List.map_cons, ih]

/-- Before the first one that comes later is the place for the new one. -/
theorem insertBefore_pairwise {later : α → Bool} {a : α} {as : List α} (hr : as.Pairwise r)
    (hlater : ∀ b, later b = true → r a b ∧ ∀ c, r b c → r a c)
    (hearlier : ∀ b, later b = false → r b a) : (insertBefore later a as).Pairwise r := by
  induction as with
  | nil => exact List.pairwise_singleton ..
  | cons b as ih =>
      obtain ⟨hb, has⟩ := List.pairwise_cons.mp hr
      rw [insertBefore]
      cases hlater' : later b with
      | true =>
          rw [if_pos rfl]
          obtain ⟨hab, htrans⟩ := hlater b hlater'
          refine List.pairwise_cons.mpr ⟨?_, hr⟩
          intro c hc
          rcases List.mem_cons.mp hc with rfl | hc
          · exact hab
          · exact htrans c (hb c hc)
      | false =>
          rw [if_neg Bool.false_ne_true]
          refine List.pairwise_cons.mpr ⟨?_, ih has⟩
          intro c hc
          rcases List.mem_cons.mp ((insertBefore_perm later a as).mem_iff.mp hc) with rfl | hc
          · exact hearlier b hlater'
          · exact hb c hc

/-- One place of a list is given to another value. -/
theorem pairwise_set {as : List α} (hr : as.Pairwise r) {k : Nat} {a : α}
    (hbefore : ∀ j b, j < k → as[j]? = some b → r b a)
    (hafter : ∀ j b, k < j → as[j]? = some b → r a b) : (as.set k a).Pairwise r := by
  induction as generalizing k with
  | nil => exact hr
  | cons b as ih =>
      obtain ⟨hb, has⟩ := List.pairwise_cons.mp hr
      cases k with
      | zero =>
          refine List.pairwise_cons.mpr ⟨?_, has⟩
          intro c hc
          obtain ⟨j, hj⟩ := List.mem_iff_getElem?.mp hc
          exact hafter (j + 1) c (Nat.succ_pos j) hj
      | succ k =>
          refine List.pairwise_cons.mpr ⟨?_, ih has ?_ ?_⟩
          · intro c hc
            rcases List.mem_or_eq_of_mem_set hc with hc | rfl
            · exact hb c hc
            · exact hbefore 0 b (Nat.succ_pos k) rfl
          · exact fun j c hj hc => hbefore (j + 1) c (Nat.succ_lt_succ hj) hc
          · exact fun j c hj hc => hafter (j + 1) c (Nat.succ_lt_succ hj) hc

end Lists

variable {I C : Type} [DecidableEq I] (w : TileWorld)

/-! ## The invariant -/

/-- The types of the item vector. -/
def types (t : Tile I C) : List ItemType := t.items.items.map fun i => (t.object i).itemType w

structure Arranged (t : Tile I C) : Prop where
  ground : ∀ it ∈ t.types w, it.isGroundTile = false
  down : ∀ it ∈ (t.types w).take t.items.downItemCount, it.alwaysOnTop = false
  top : ∀ it ∈ (t.types w).drop t.items.downItemCount, it.alwaysOnTop = true
  sorted : ((t.types w).drop t.items.downItemCount).Pairwise
    fun it it' => it.alwaysOnTopOrder ≤ it'.alwaysOnTopOrder

/-- A type may stand at an index of the vector. -/
structure Fits (t : Tile I C) (k : Nat) (it : ItemType) : Prop where
  ground : it.isGroundTile = false
  part : it.alwaysOnTop = true ↔ t.items.downItemCount ≤ k
  before : ∀ j it', t.items.downItemCount ≤ j → j < k → (t.types w)[j]? = some it' →
    it'.alwaysOnTopOrder ≤ it.alwaysOnTopOrder
  after : ∀ j it', t.items.downItemCount ≤ k → k < j → (t.types w)[j]? = some it' →
    it.alwaysOnTopOrder ≤ it'.alwaysOnTopOrder

/-- The new item, or the new type of the item, fits the place that it takes over. -/
def FitsPlace (t : Tile I C) : Edit I C → Prop
  | .replaceAt k item => k < t.items.items.length → t.Fits w k ((t.object item).itemType w)
  | .update item o => ∀ k, t.items.items[k]? = some item → t.Fits w k (o.itemType w)
  | _ => True

/-! ## Edits -/

section Edits

variable {w} {t : Tile I C}

omit [DecidableEq I] in
theorem types_downItems (t : Tile I C) :
    (t.types w).take t.items.downItemCount =
      t.items.downItems.map fun i => (t.object i).itemType w :=
  List.map_take.symm

omit [DecidableEq I] in
theorem types_topItems (t : Tile I C) :
    (t.types w).drop t.items.downItemCount =
      t.items.topItems.map fun i => (t.object i).itemType w :=
  List.map_drop.symm

omit [DecidableEq I] in
/-- One place is given to a type that fits. -/
theorem Arranged.set (h : t.Arranged w) {t' : Tile I C} {k : Nat} {it : ItemType}
    (hcount : t'.items.downItemCount = t.items.downItemCount)
    (htypes : t'.types w = (t.types w).set k it) (hfits : t.Fits w k it) : t'.Arranged w := by
  refine ⟨?_, ?_, ?_, ?_⟩
  · rw [htypes]
    intro it' hit'
    rcases List.mem_or_eq_of_mem_set hit' with hit' | rfl
    · exact h.ground it' hit'
    · exact hfits.ground
  · rw [htypes, hcount, List.take_set]
    intro it' hit'
    obtain ⟨j, hj⟩ := List.mem_iff_getElem?.mp hit'
    rw [List.getElem?_set] at hj
    split at hj
    case isTrue hkj =>
      subst hkj
      split at hj
      case isTrue hk =>
        obtain rfl := Option.some.inj hj
        rw [List.length_take] at hk
        rw [← Bool.not_eq_true, hfits.part]
        omega
      case isFalse => cases hj
    case isFalse => exact h.down it' (List.mem_of_getElem? hj)
  · rw [htypes, hcount, List.drop_set]
    split
    · exact h.top
    case isFalse hk =>
      intro it' hit'
      rcases List.mem_or_eq_of_mem_set hit' with hit' | rfl
      · exact h.top it' hit'
      · exact hfits.part.mpr (Nat.le_of_not_lt hk)
  · rw [htypes, hcount, List.drop_set]
    split
    · exact h.sorted
    case isFalse hk =>
      have hk' : t.items.downItemCount ≤ k := Nat.le_of_not_lt hk
      refine pairwise_set h.sorted ?_ ?_
      · intro j it' hj hit'
        rw [List.getElem?_drop] at hit'
        exact hfits.before _ it' (Nat.le_add_right ..) (by omega) hit'
      · intro j it' hj hit'
        rw [List.getElem?_drop] at hit'
        exact hfits.after _ it' hk' (by omega) hit'

omit [DecidableEq I] in
/-- The two parts of the vector. -/
theorem Arranged.of_parts {t : Tile I C} (downTypes topTypes : List ItemType)
    (htypes : t.types w = downTypes ++ topTypes) (hcount : downTypes.length = t.items.downItemCount)
    (hground : ∀ it ∈ downTypes ++ topTypes, it.isGroundTile = false)
    (hdown : ∀ it ∈ downTypes, it.alwaysOnTop = false)
    (htop : ∀ it ∈ topTypes, it.alwaysOnTop = true)
    (hsorted : topTypes.Pairwise fun it it' => it.alwaysOnTopOrder ≤ it'.alwaysOnTopOrder) :
    t.Arranged w := by
  refine ⟨?_, ?_, ?_, ?_⟩
  · rw [htypes]
    exact hground
  · rw [htypes, List.take_left' hcount]
    exact hdown
  · rw [htypes, List.drop_left' hcount]
    exact htop
  · rw [htypes, List.drop_left' hcount]
    exact hsorted

omit [DecidableEq I] in
/-- Fewer items. -/
theorem Arranged.of_sublist (h : t.Arranged w) {t' : Tile I C} (hobject : t'.object = t.object)
    {down top : List I} (hitems : t'.items.items = down ++ top)
    (hcount : down.length = t'.items.downItemCount) (hdown : down.Sublist t.items.downItems)
    (htop : top.Sublist t.items.topItems) : t'.Arranged w := by
  have htypes : t'.types w = (down.map fun i => (t.object i).itemType w) ++
      top.map fun i => (t.object i).itemType w := by
    rw [types, hitems, List.map_append, hobject]
  have hdown' := hdown.map fun i => (t.object i).itemType w
  have htop' := htop.map fun i => (t.object i).itemType w
  rw [← types_downItems] at hdown'
  rw [← types_topItems] at htop'
  refine Arranged.of_parts _ _ htypes (by rw [List.length_map, hcount]) ?_ ?_ ?_ ?_
  · intro it hit
    rcases List.mem_append.mp hit with hit | hit
    · exact h.ground it (List.mem_of_mem_take (hdown'.subset hit))
    · exact h.ground it (List.mem_of_mem_drop (htop'.subset hit))
  · exact fun it hit => h.down it (hdown'.subset hit)
  · exact fun it hit => h.top it (htop'.subset hit)
  · exact h.sorted.sublist htop'

omit [DecidableEq I] in
theorem Arranged.of_types (h : t.Arranged w) {t' : Tile I C} (htypes : t'.types w = t.types w)
    (hcount : t'.items.downItemCount = t.items.downItemCount) : t'.Arranged w := by
  refine ⟨?_, ?_, ?_, ?_⟩
  · exact htypes ▸ h.ground
  · exact htypes ▸ hcount ▸ h.down
  · exact htypes ▸ hcount ▸ h.top
  · exact htypes ▸ hcount ▸ h.sorted

/-- New values for an object that is not in the vector, or the same type. -/
theorem types_setObject (t : Tile I C) (item : I) (o : Object)
    (h : item ∉ t.items.items ∨ (t.object item).id = o.id) :
    (t.setObject item o).types w = t.types w := by
  refine List.map_congr_left fun i hi => ?_
  show (Function.update t.object item o i).itemType w = _
  rw [Function.update_apply]
  split
  case isFalse => rfl
  case isTrue heq =>
    subst heq
    rcases h with hoff | hid
    · exact absurd hi hoff
    · rw [Object.itemType, Object.itemType, hid]

omit [DecidableEq I] in
theorem topOrder_le_iff (t : Tile I C) (i i' : I) :
    t.topOrder w i ≤ t.topOrder w i' ↔
      ((t.object i).itemType w).alwaysOnTopOrder ≤ ((t.object i').itemType w).alwaysOnTopOrder :=
  BitVec.le_def.symm

omit [DecidableEq I] in
theorem Arranged.insertTop (h : t.Arranged w) (hproper : t.Proper) (strict : Bool) {item : I}
    (htop : (t.object item).isAlwaysOnTop w = true)
    (hground : ((t.object item).itemType w).isGroundTile = false) :
    (t.insertTop (t.later w strict item) item).Arranged w := by
  -- on types, the insertion is before the first greater order, or the first one not less
  let it := (t.object item).itemType w
  let later' : ItemType → Bool := fun it' =>
    if strict then it.alwaysOnTopOrder.toNat < it'.alwaysOnTopOrder.toNat
    else it.alwaysOnTopOrder.toNat ≤ it'.alwaysOnTopOrder.toNat
  have hmap := insertBefore_map (fun i => (t.object i).itemType w)
    (t.later w strict item) later' (fun _ => rfl) item t.items.topItems
  rw [← types_topItems] at hmap
  have hperm := insertBefore_perm later' it ((t.types w).drop t.items.downItemCount)
  refine Arranged.of_parts ((t.types w).take t.items.downItemCount)
    (insertBefore later' it ((t.types w).drop t.items.downItemCount)) ?_ ?_ ?_ h.down ?_ ?_
  · show (t.items.downItems ++ _).map (fun i => (t.object i).itemType w) = _
    rw [List.map_append, hmap, types_downItems]
  · rw [types_downItems, List.length_map, hproper.length_downItems]
    rfl
  · intro it' hit'
    rcases List.mem_append.mp hit' with hit' | hit'
    · exact h.ground it' (List.mem_of_mem_take hit')
    · rcases List.mem_cons.mp (hperm.mem_iff.mp hit') with rfl | hit'
      · exact hground
      · exact h.ground it' (List.mem_of_mem_drop hit')
  · intro it' hit'
    rcases List.mem_cons.mp (hperm.mem_iff.mp hit') with rfl | hit'
    · exact htop
    · exact h.top it' hit'
  · refine insertBefore_pairwise h.sorted ?_ ?_
    · intro it' hlater
      have hle : it.alwaysOnTopOrder ≤ it'.alwaysOnTopOrder := by
        rw [BitVec.le_def]
        cases strict with
        | true => exact Nat.le_of_lt (of_decide_eq_true hlater)
        | false => exact of_decide_eq_true hlater
      exact ⟨hle, fun _ hle' => BitVec.le_trans hle hle'⟩
    · intro it' hlater
      rw [BitVec.le_def]
      cases strict with
      | true => exact Nat.le_of_not_lt (of_decide_eq_false hlater)
      | false => exact Nat.le_of_lt (Nat.lt_of_not_le (of_decide_eq_false hlater))

/-- An edit keeps the order if what it puts into an old place fits there. -/
theorem Arranged.apply (h : t.Arranged w) {e : Edit I C} (hproper : t.Proper)
    (hvalid : e.Valid w t) (hfits : t.FitsPlace w e) : (t.apply w e).Arranged w := by
  cases e with
  | setGround item =>
      obtain ⟨_, hitems, hobject⟩ := t.apply_setGround w item
      exact h.of_types (by rw [types, hitems, hobject, types]) (by rw [hitems])
  | removeGround =>
      obtain ⟨_, hitems, hobject⟩ := t.apply_removeGround w
      exact h.of_types (by rw [types, hitems, hobject, types]) (by rw [hitems])
  | insertTop strict item =>
      obtain ⟨_, _, htop, hground⟩ := hvalid
      exact (h.insertTop hproper strict htop hground).of_types rfl rfl
  | insertDown item =>
      obtain ⟨_, _, hdown, hground⟩ := hvalid
      refine Arranged.of_parts (t := t.apply w (.insertDown item))
        ((t.object item).itemType w :: (t.types w).take t.items.downItemCount)
        ((t.types w).drop t.items.downItemCount) ?_ ?_ ?_ ?_ h.top h.sorted
      · show (t.object item).itemType w :: t.types w = _
        rw [List.cons_append, List.take_append_drop]
      · rw [List.length_cons, types_downItems, List.length_map, hproper.length_downItems]
        rfl
      · rw [List.cons_append, List.take_append_drop]
        exact List.forall_mem_cons.mpr ⟨hground, h.ground⟩
      · exact List.forall_mem_cons.mpr ⟨hdown, h.down⟩
  | eraseTop item =>
      show ((t.eraseTop item).resetTileFlags w item).Arranged w
      exact h.of_sublist rfl rfl hproper.length_downItems (.refl _) List.erase_sublist
  | eraseDown item =>
      show ((t.eraseDown item).resetTileFlags w item).Arranged w
      refine h.of_sublist rfl rfl ?_ List.erase_sublist (.refl _)
      rw [List.length_erase_of_mem hvalid, hproper.length_downItems]
      rfl
  | replaceAt k item =>
      have hitems := t.replaceAt_items w k item
      have htypes : (t.replaceAt w k item).types w =
          (t.types w).set k ((t.object item).itemType w) := by
        rw [types, hitems, replaceAt_object, List.map_set]
        rfl
      have hcount : (t.replaceAt w k item).items.downItemCount = t.items.downItemCount := by
        rw [hitems]
      by_cases hk : k < t.items.items.length
      · exact h.set hcount htypes (hfits hk)
      · have hk' : (t.types w).length ≤ k := by
          rw [types, List.length_map]
          exact Nat.le_of_not_lt hk
        rw [List.set_eq_of_length_le hk'] at htypes
        exact h.of_types htypes hcount
  | update item o =>
      by_cases hitem : item ∈ t.items.items
      · have htypes : (t.apply w (.update item o)).types w =
            (t.types w).set (t.items.items.idxOf item) (o.itemType w) := by
          have hmap := hproper.nodup.map_update (fun i => (t.object i).itemType w) item (o.itemType w)
          rw [if_pos hitem] at hmap
          refine Eq.trans (List.map_congr_left fun i _ => ?_) hmap
          show (Function.update t.object item o i).itemType w = _
          exact Function.apply_update (fun _ o => o.itemType w) t.object item o i
        exact h.set rfl htypes (hfits _ (List.getElem?_idxOf hitem))
      · exact h.of_types (types_setObject t item o (.inl hitem)) rfl
  | setObject item o =>
      refine h.of_types (types_setObject t item o ?_) rfl
      exact hvalid.imp (fun hoff hmem => hoff (.inr hmem)) fun hsame => hsame.1
  | setCreatures creatures => exact h.of_types rfl rfl

end Edits

/-! ## Indexes -/

section Indexes

variable [DecidableEq C] {w} {t : Tile I C}

def Has (t : Tile I C) : Thing I C → Prop
  | .item item => t.OnTile item
  | .creature creature => creature ∈ t.creatures

omit [DecidableEq I] [DecidableEq C] in
theorem mem_downItems_or_mem_topItems {item : I} (h : item ∈ t.items.items) :
    item ∈ t.items.downItems ∨ item ∈ t.items.topItems := by
  rw [← t.downItems_append_topItems] at h
  exact List.mem_append.mp h

omit [DecidableEq I] [DecidableEq C] in
theorem Arranged.isAlwaysOnTop_of_mem_downItems (h : t.Arranged w) {item : I}
    (hitem : item ∈ t.items.downItems) : (t.object item).isAlwaysOnTop w = false := by
  refine h.down ((t.object item).itemType w) ?_
  rw [types_downItems]
  exact List.mem_map_of_mem hitem

omit [DecidableEq I] [DecidableEq C] in
theorem Arranged.isAlwaysOnTop_of_mem_topItems (h : t.Arranged w) {item : I}
    (hitem : item ∈ t.items.topItems) : (t.object item).isAlwaysOnTop w = true := by
  refine h.top ((t.object item).itemType w) ?_
  rw [types_topItems]
  exact List.mem_map_of_mem hitem

omit [DecidableEq I] [DecidableEq C] in
/-- `getThing` after the ground. -/
theorem getThing_add (index : Nat) :
    t.getThing ((if t.ground.isSome then 1 else 0) + index) =
      if index < t.items.getTopItemCount then
        (t.items.items[t.items.downItemCount + index]?).map .item
      else if index - t.items.getTopItemCount < t.creatures.length then
        (t.creatures[index - t.items.getTopItemCount]?).map .creature
      else if index - t.items.getTopItemCount - t.creatures.length < t.items.downItemCount then
        (t.items.items[index - t.items.getTopItemCount - t.creatures.length]?).map .item
      else none := by
  rcases t with ⟨object, ground, items, creatures, flags⟩
  cases ground with
  | none =>
      show getThing ⟨object, none, items, creatures, flags⟩ (0 + index) = _
      rw [Nat.zero_add]
      rfl
  | some ground =>
      show getThing ⟨object, some ground, items, creatures, flags⟩ (1 + index) = _
      rw [Nat.add_comm]
      rfl

theorem findIdx?_mem {α : Type} [DecidableEq α] {as : List α} {a : α} (h : a ∈ as) :
    ∃ k, as.findIdx? (· = a) = some k ∧ k < as.length ∧ as[k]? = some a := by
  obtain ⟨k, hk⟩ : ∃ k, as.findIdx? (· = a) = some k :=
    ⟨_, List.findIdx?_eq_some_of_exists ⟨a, h, decide_eq_true rfl⟩⟩
  obtain ⟨hlt, hget, _⟩ := List.findIdx?_eq_some_iff_getElem.mp hk
  refine ⟨k, hk, hlt, ?_⟩
  rw [List.getElem?_eq_getElem hlt, of_decide_eq_true hget]

/-- The thing with the index of a thing is that thing. -/
theorem getThing_getThingIndex (hproper : t.Proper) (h : t.Arranged w) {thing : Thing I C}
    (hthing : t.Has thing) : (t.getThingIndex w thing).bind t.getThing = some thing := by
  have htopCount : t.items.topItems.length = t.items.getTopItemCount := List.length_drop
  cases thing with
  | creature creature =>
      obtain ⟨k, hk, hlt, hget⟩ := findIdx?_mem hthing
      rw [getThingIndex, hk, Option.map_some, Option.bind_some, Nat.add_assoc, getThing_add,
        if_neg (by omega), if_pos (by omega), Nat.add_sub_cancel_left, hget]
      rfl
  | item item =>
      rw [getThingIndex]
      by_cases hground : t.ground = some item
      · rw [if_pos hground, Option.bind_some]
        unfold getThing
        rw [hground]
        rfl
      rw [if_neg hground]
      rcases mem_downItems_or_mem_topItems (hthing.resolve_left hground) with hdown | htop
      · obtain ⟨k, hk, hlt, hget⟩ := findIdx?_mem hdown
        rw [hproper.length_downItems] at hlt
        rw [TileItemVector.downItems, List.getElem?_take_of_lt hlt] at hget
        rw [if_neg (Bool.eq_false_iff.mp (h.isAlwaysOnTop_of_mem_downItems hdown)), hk,
          Option.map_some, Option.bind_some, Nat.add_assoc, Nat.add_assoc, getThing_add,
          if_neg (by omega), if_neg (by omega), if_pos (by omega), Nat.add_sub_cancel_left,
          Nat.add_sub_cancel_left, hget]
        rfl
      · obtain ⟨k, hk, hlt, hget⟩ := findIdx?_mem htop
        rw [htopCount] at hlt
        rw [TileItemVector.topItems, List.getElem?_drop] at hget
        rw [if_pos (h.isAlwaysOnTop_of_mem_topItems htop), hk, Option.map_some, Option.bind_some,
          getThing_add, if_pos hlt, hget]
        rfl

end Indexes

/-! ## Runs -/

section Runs

variable [DecidableEq C]

theorem arranged_of_reach {t : Tile I C}
    (hreach : (system w).Reach (fun t op => All w (FitsPlace w) t (t.edits w op)) t) :
    t.Proper ∧ t.Arranged w := by
  refine preserved w (P := Arranged w) (fun t hinit => ?_)
    (fun t e hproper hvalid hfits h => h.apply hproper hvalid hfits) hreach
  have hnil : t.types w = [] := by rw [types, hinit.2.1]; rfl
  refine ⟨?_, ?_, ?_, ?_⟩
  · rw [hnil]
    exact fun it hit => absurd hit List.not_mem_nil
  · rw [hnil, List.take_nil]
    exact fun it hit => absurd hit List.not_mem_nil
  · rw [hnil, List.drop_nil]
    exact fun it hit => absurd hit List.not_mem_nil
  · rw [hnil, List.drop_nil]
    exact .nil

omit [DecidableEq I] [DecidableEq C] in
/-- The down items are counted by their types. -/
theorem Arranged.downItemCount {t : Tile I C} (hproper : t.Proper) (h : t.Arranged w) :
    t.items.downItemCount = t.items.items.countP fun i => !(t.object i).isAlwaysOnTop w := by
  have hdown : t.items.downItems.countP (fun i => !(t.object i).isAlwaysOnTop w) =
      t.items.downItems.length := by
    rw [List.countP_eq_length]
    intro i hi
    rw [h.isAlwaysOnTop_of_mem_downItems hi]
    rfl
  have htop : t.items.topItems.countP (fun i => !(t.object i).isAlwaysOnTop w) = 0 := by
    rw [List.countP_eq_zero]
    intro i hi
    rw [h.isAlwaysOnTop_of_mem_topItems hi]
    exact nofun
  rw [← t.downItems_append_topItems, List.countP_append, hdown, htop, hproper.length_downItems]
  rfl

/-- In a run in which what takes over a place fits there, the item vector is the down
items and then the top items by their order, and each thing is found at its index. -/
theorem arranged {t : Tile I C}
    (hreach : (system w).Reach (fun t op => All w (FitsPlace w) t (t.edits w op)) t) :
    t.items.items = t.items.downItems ++ t.items.topItems ∧
      (∀ i ∈ t.items.downItems, (t.object i).isAlwaysOnTop w = false) ∧
      (∀ i ∈ t.items.topItems, (t.object i).isAlwaysOnTop w = true) ∧
      t.items.downItemCount = t.items.items.countP (fun i => !(t.object i).isAlwaysOnTop w) ∧
      t.items.topItems.Pairwise (fun i i' => t.topOrder w i ≤ t.topOrder w i') ∧
      (∀ i ∈ t.items.items, ((t.object i).itemType w).isGroundTile = false ∧ t.ground ≠ some i) ∧
      t.items.items.Nodup ∧
      ∀ thing : Thing I C, t.Has thing →
        (t.getThingIndex w thing).bind t.getThing = some thing := by
  obtain ⟨hproper, h⟩ := arranged_of_reach w hreach
  refine ⟨t.downItems_append_topItems.symm, ?_, ?_, h.downItemCount w hproper, ?_, ?_, hproper.nodup,
    fun thing => getThing_getThingIndex hproper h⟩
  · exact fun i => h.isAlwaysOnTop_of_mem_downItems
  · exact fun i => h.isAlwaysOnTop_of_mem_topItems
  · have hsorted := h.sorted
    rw [types_topItems, List.pairwise_map] at hsorted
    exact hsorted.imp fun hle => (t.topOrder_le_iff _ _).mpr hle
  · intro i hi
    refine ⟨h.ground _ (List.mem_map_of_mem hi), fun hground => ?_⟩
    exact hproper.ground i hground hi

end Runs

/-- Item types that are always on top, each in the order of its id. -/
def topWorld : TileWorld where
  itemType id := { id := id, alwaysOnTop := true, alwaysOnTopOrder := id.setWidth 8 }
  addUniqueItem _ := true
  getNameByGuid _ := []
  tileItemType _ := {}

/-- An empty tile; item 0 is of type 1, the others of type 2. -/
def emptyStack : Tile Nat Nat where
  object i := { id := if i = 0 then 1 else 2, cls := .item }

/-- Item 0 is put on the empty tile. -/
def oneItem : Tile Nat Nat := emptyStack.run topWorld (.addThing (.item 0))

theorem emptyStack_init : (system topWorld).init emptyStack := ⟨rfl, rfl, rfl, by decide⟩

theorem arranged_oneItem :
    (system topWorld).Reach (fun t op => All topWorld (FitsPlace topWorld) t (t.edits topWorld op))
      oneItem ∧
    (oneItem.items.items = oneItem.items.downItems ++ oneItem.items.topItems ∧
      (∀ i ∈ oneItem.items.downItems, (oneItem.object i).isAlwaysOnTop topWorld = false) ∧
      (∀ i ∈ oneItem.items.topItems, (oneItem.object i).isAlwaysOnTop topWorld = true) ∧
      oneItem.items.downItemCount =
        oneItem.items.items.countP (fun i => !(oneItem.object i).isAlwaysOnTop topWorld) ∧
      oneItem.items.topItems.Pairwise
        (fun i i' => oneItem.topOrder topWorld i ≤ oneItem.topOrder topWorld i') ∧
      (∀ i ∈ oneItem.items.items,
        ((oneItem.object i).itemType topWorld).isGroundTile = false ∧ oneItem.ground ≠ some i) ∧
      oneItem.items.items.Nodup ∧
      ∀ thing : Thing Nat Nat, oneItem.Has thing →
        (oneItem.getThingIndex topWorld thing).bind oneItem.getThing = some thing) := by
  have hoff : ¬emptyStack.OnTile 0 := fun h => h.elim nofun List.not_mem_nil
  have hreach : (system topWorld).Reach
      (fun t op => All topWorld (FitsPlace topWorld) t (t.edits topWorld op)) oneItem :=
    reach_run topWorld (.start emptyStack_init) (.addThing (.item 0)) ⟨trivial, trivial⟩ hoff
  exact ⟨hreach, arranged topWorld hreach⟩

/-- The lower one of two top items is transformed into one that belongs above the other
one: it stays where it was. -/
theorem transformItem_order :
    let t := (oneItem.run topWorld (.addThing (.item 1))).run topWorld (.transformItem 0 3 (-1) 2)
    (system topWorld).Reachable t ∧ t.items.topItems = [0, 1] ∧ t.topOrder topWorld 0 = 3 ∧
      t.topOrder topWorld 1 = 2 := by
  have hoff : ¬emptyStack.OnTile 0 := fun h => h.elim nofun List.not_mem_nil
  have hone : (system topWorld).Reachable oneItem :=
    reach_run topWorld (.start emptyStack_init) (.addThing (.item 0)) trivial hoff
  have hoff' : ¬oneItem.OnTile 1 := by
    rintro (h | h)
    · cases h
    · exact absurd h (by decide)
  have htwo := reach_run topWorld hone (.addThing (.item 1)) trivial hoff'
  have hoff'' : ¬(oneItem.run topWorld (.addThing (.item 1))).OnTile 2 := by
    rintro (h | h)
    · cases h
    · exact absurd h (by decide)
  exact ⟨reach_run topWorld htwo (.transformItem 0 3 (-1) 2) trivial hoff'', by decide, by decide,
    by decide⟩

end Infernum.Tile
