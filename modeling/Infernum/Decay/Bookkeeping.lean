import Infernum.Decay.Effects
import Mathlib.Data.List.Perm.Basic

/-!
# Decay bookkeeping

An item is marked as decaying exactly while it is in one of the lists, and it is there
once. The mark is an attribute like any other: whatever copies it, or sets it while the
item is in a list, breaks this.
-/

namespace Infernum.Decay

open ItemDecayState

/-- The mark of an item. -/
def Marked (items : Nat → Option Item) (x : Nat) : Prop :=
  ∃ item, items x = some item ∧ item.getDecaying = .DECAYING_TRUE

/-- The items in the lists are marked, no item is there twice, and every marked item is
there that has not been removed from the game: an object that was removed only waits for
its deletion. -/
structure Kept (items : Nat → Option Item) (lists : List Nat) : Prop where
  listed : ∀ x ∈ lists, Marked items x
  once : lists.Nodup
  marked : ∀ x item, items x = some item → item.removed = false →
    item.getDecaying = .DECAYING_TRUE → x ∈ lists

/-- The same, but for an item that was just taken out of its list. -/
structure KeptBut (items : Nat → Option Item) (lists : List Nat) (x : Nat) : Prop where
  listed : ∀ y ∈ lists, Marked items y
  once : lists.Nodup
  out : x ∉ lists
  marked : ∀ y item, y ≠ x → items y = some item → item.removed = false →
    item.getDecaying = .DECAYING_TRUE → y ∈ lists

section Lists

variable {items : Nat → Option Item} {lists : List Nat} {x : Nat} {item item' : Item}

theorem marked_update_of_ne {y : Nat} (hne : y ≠ x) :
    Marked (Function.update items x (some item)) y ↔ Marked items y := by
  rw [Marked, Marked, Function.update_of_ne hne]

theorem marked_update_self :
    Marked (Function.update items x (some item)) x ↔ item.getDecaying = .DECAYING_TRUE := by
  rw [Marked, Function.update_self]
  simp

theorem Kept.perm (h : Kept items lists) {lists' : List Nat} (hperm : lists'.Perm lists) :
    Kept items lists' where
  listed y hy := h.listed y (hperm.mem_iff.mp hy)
  once := hperm.nodup_iff.mpr h.once
  marked y item hy hin htrue := hperm.mem_iff.mpr (h.marked y item hy hin htrue)

/-- An item changes, but not its mark. -/
theorem Kept.update (h : Kept items lists) (hx : items x = some item)
    (hmark : item'.getDecaying = .DECAYING_TRUE ↔ item.getDecaying = .DECAYING_TRUE)
    (hremoved : item'.removed = false → item.removed = false) :
    Kept (Function.update items x (some item')) lists where
  listed y hy := by
    by_cases heq : y = x
    · obtain ⟨other, hother, htrue⟩ := h.listed y hy
      rw [heq, hx] at hother
      rw [heq]
      exact marked_update_self.mpr (hmark.mpr (Option.some.inj hother ▸ htrue))
    · exact (marked_update_of_ne heq).mpr (h.listed y hy)
  once := h.once
  marked y other hy hin htrue := by
    by_cases heq : y = x
    · rw [heq, Function.update_self] at hy
      obtain rfl := Option.some.inj hy
      rw [heq]
      exact h.marked x item hx (hremoved hin) (hmark.mp htrue)
    · rw [Function.update_of_ne heq] at hy
      exact h.marked y other hy hin htrue

/-- An item is marked and put in a list. -/
theorem Kept.cons (h : Kept items lists) (hx : items x = some item)
    (hunmarked : item.getDecaying ≠ .DECAYING_TRUE) (hmark : item'.getDecaying = .DECAYING_TRUE) :
    Kept (Function.update items x (some item')) (x :: lists) := by
  have hout : x ∉ lists := by
    intro hmem
    obtain ⟨other, hother, htrue⟩ := h.listed x hmem
    exact hunmarked (Option.some.inj (hx.symm.trans hother) ▸ htrue)
  refine ⟨fun y hy => ?_, List.nodup_cons.mpr ⟨hout, h.once⟩, fun y other hy hin htrue => ?_⟩
  · by_cases heq : y = x
    · exact heq ▸ marked_update_self.mpr hmark
    · exact (marked_update_of_ne heq).mpr (h.listed y ((List.mem_cons.mp hy).resolve_left heq))
  · by_cases heq : y = x
    · exact List.mem_cons.mpr (.inl heq)
    · rw [Function.update_of_ne heq] at hy
      exact List.mem_cons_of_mem _ (h.marked y other hy hin htrue)

/-- An item is taken out of its list. -/
theorem Kept.drop (h : Kept items (x :: lists)) : KeptBut items lists x where
  listed y hy := h.listed y (List.mem_cons_of_mem _ hy)
  once := (List.nodup_cons.mp h.once).2
  out := (List.nodup_cons.mp h.once).1
  marked y other hne hy hin htrue :=
    (List.mem_cons.mp (h.marked y other hy hin htrue)).resolve_left hne

theorem KeptBut.update (h : KeptBut items lists x) :
    KeptBut (Function.update items x (some item')) lists x where
  listed y hy := by
    have hne : y ≠ x := fun heq => h.out (heq ▸ hy)
    exact (marked_update_of_ne hne).mpr (h.listed y hy)
  once := h.once
  out := h.out
  marked y other hne hy hin htrue := by
    rw [Function.update_of_ne hne] at hy
    exact h.marked y other hne hy hin htrue

/-- The item loses its mark, or is removed. -/
theorem KeptBut.settle (h : KeptBut items lists x)
    (hmark : item'.removed = true ∨ item'.getDecaying ≠ .DECAYING_TRUE) :
    Kept (Function.update items x (some item')) lists where
  listed y hy := by
    have hne : y ≠ x := fun heq => h.out (heq ▸ hy)
    exact (marked_update_of_ne hne).mpr (h.listed y hy)
  once := h.once
  marked y other hy hin htrue := by
    by_cases heq : y = x
    · rw [heq, Function.update_self] at hy
      obtain rfl := Option.some.inj hy
      rcases hmark with hremoved | hunmarked
      · cases hin.symm.trans hremoved
      · exact absurd htrue hunmarked
    · rw [Function.update_of_ne heq] at hy
      exact h.marked y other heq hy hin htrue

theorem Kept.fresh (h : Kept items lists) (hfree : items x = none)
    (hnew : item.removed = false → item.getDecaying ≠ .DECAYING_TRUE) :
    Kept (Function.update items x (some item)) lists := by
  have hout : x ∉ lists := by
    intro hmem
    obtain ⟨other, hother, _⟩ := h.listed x hmem
    cases hfree.symm.trans hother
  have hbut : KeptBut items lists x := ⟨h.listed, h.once, hout, fun y other _ => h.marked y other⟩
  refine hbut.settle ?_
  cases hin : item.removed with
  | true => exact .inl rfl
  | false => exact .inr (hnew hin)

end Lists

variable {types : Nat → ItemType}

/-! ## Transforming -/

/-- An item that is changed where it is keeps its mark. -/
def KeepsMark (types : Nat → ItemType) (item : Item) : Change → Prop
  | .putBack itemId => ¬item.Resets types itemId
  | .update itemId => ¬item.Resets types itemId
  | _ => True

theorem mark_setID {item : Item} {itemId : Nat}
    (hkeeps : item.getDecaying = .DECAYING_TRUE → ¬item.Resets types itemId) :
    (item.setID types itemId).getDecaying = .DECAYING_TRUE ↔ item.getDecaying = .DECAYING_TRUE := by
  rcases Item.getDecaying_setID types item itemId with ⟨heq, _⟩ | ⟨heq, hresets⟩
  · rw [heq]
  · rw [heq]
    exact ⟨nofun, fun htrue => absurd hresets (hkeeps htrue)⟩

namespace World

variable {env : Env} {w w' : World} {x : Nat} {item : Item} {lists : List Nat}

/-- Addresses that were never used hold nothing. -/
def Fresh (w : World) : Prop := ∀ x, w.next ≤ x → w.items x = none

theorem Fresh.lt (h : w.Fresh) (hx : w.items x = some item) : x < w.next := by
  by_contra hge
  cases (h x (Nat.le_of_not_lt hge)).symm.trans hx

theorem Fresh.set (h : w.Fresh) (hx : w.items x = some item) (item' : Item) :
    (w.set x item').Fresh := by
  intro y hy
  have hne : y ≠ x := Nat.ne_of_gt (Nat.lt_of_lt_of_le (h.lt hx) hy)
  exact (Function.update_of_ne hne ..).trans (h y hy)

theorem Fresh.new (h : w.Fresh) (item : Item) : (w.new item).Fresh := by
  intro y hy
  have hlt : w.next < y := hy
  exact (Function.update_of_ne (Nat.ne_of_gt hlt) ..).trans (h y (Nat.le_of_lt hlt))

theorem Fresh.internalRemoveItem (h : w.Fresh) (e : Surroundings) (x : Nat) :
    (w.internalRemoveItem e x).Fresh := by
  rw [World.internalRemoveItem]
  cases hx : w.items x with
  | none => exact h
  | some item =>
      dsimp only
      split
      · exact h
      · exact h.set hx _

theorem Fresh.transformItem (h : w.Fresh) (e : Surroundings) (x newId : Nat) (newCount : Int) :
    (w.transformItem types e x newId newCount).1.Fresh := by
  rw [World.transformItem]
  cases hx : w.items x with
  | none => exact h
  | some item =>
      dsimp only
      cases change types e item newId newCount with
      | unchanged => exact h
      | noItem => exact h
      | putBack itemId =>
          dsimp only
          split <;> exact h.set hx _
      | update itemId => exact h.set hx _
      | remove => exact h.internalRemoveItem e x
      | replace itemId =>
          dsimp only
          cases Item.create types itemId (item.removed || !e.accepted) with
          | none => exact h
          | some newItem => exact (h.set hx _).new newItem

theorem kept_internalRemoveItem (h : Kept w.items lists) (e : Surroundings) (x : Nat) :
    Kept (w.internalRemoveItem e x).items lists := by
  rw [World.internalRemoveItem]
  cases hx : w.items x with
  | none => exact h
  | some item =>
      dsimp only
      split
      · exact h
      · exact h.update hx Iff.rfl Bool.noConfusion

theorem kept_transformItem (h : Kept w.items lists) (hfresh : w.Fresh) (e : Surroundings)
    (newId : Nat) (newCount : Int)
    (hkeeps : ∀ item, w.items x = some item → item.getDecaying = .DECAYING_TRUE →
      KeepsMark types item (change types e item newId newCount)) :
    Kept (w.transformItem types e x newId newCount).1.items lists := by
  rw [World.transformItem]
  cases hx : w.items x with
  | none => exact h
  | some item =>
      have hmark := hkeeps item hx
      dsimp only
      cases hchange : change types e item newId newCount with
      | unchanged => exact h
      | noItem => exact h
      | putBack itemId =>
          rw [hchange] at hmark
          dsimp only
          split
          · exact h.update hx (mark_setID hmark) fun hin => Item.setID_removed item itemId ▸ hin
          · exact h.update hx (mark_setID hmark) Bool.noConfusion
      | update itemId =>
          rw [hchange] at hmark
          exact h.update hx (mark_setID hmark) fun hin => Item.setID_removed item itemId ▸ hin
      | remove => exact kept_internalRemoveItem h e x
      | replace itemId =>
          dsimp only
          cases hnew : Item.create types itemId (item.removed || !e.accepted) with
          | none => exact h
          | some newItem =>
              have hold : Kept (w.set x { item with removed := true }).items lists :=
                h.update hx Iff.rfl Bool.noConfusion
              refine hold.fresh ?_ fun _ => Item.create_unmarked hnew
              exact (hfresh.set hx _) _ (Nat.le_refl _)

/-! ## Starting to decay -/

theorem kept_startDecay {fuel : Nat} {y : Option Nat}
    (hrun : startDecay types env fuel w y = some w') (hfresh : w.Fresh)
    (h : Kept w.items (w.toDecayItems ++ lists)) :
    w'.Fresh ∧ Kept w'.items (w'.toDecayItems ++ lists) := by
  induction fuel generalizing w y with
  | zero => cases hrun
  | succ fuel ih =>
      cases y with
      | none =>
          obtain rfl := Option.some.inj hrun
          exact ⟨hfresh, h⟩
      | some x =>
          rw [startDecay] at hrun
          cases hx : w.items x with
          | none =>
              rw [hx] at hrun
              obtain rfl := Option.some.inj hrun
              exact ⟨hfresh, h⟩
          | some item =>
              simp only [hx] at hrun
              split at hrun
              · obtain rfl := Option.some.inj hrun
                exact ⟨hfresh, h⟩
              · split at hrun
                · obtain rfl := Option.some.inj hrun
                  exact ⟨hfresh, h⟩
                · next hunmarked =>
                  split at hrun
                  · obtain rfl := Option.some.inj hrun
                    exact ⟨hfresh.set hx _, h.cons hx hunmarked rfl⟩
                  · rw [internalDecayItem] at hrun
                    simp only [hx] at hrun
                    split at hrun
                    · refine ih hrun (hfresh.transformItem _ _ _ _) ?_
                      rw [toDecayItems_transformItem]
                      refine kept_transformItem h hfresh _ _ _ fun other hother htrue => ?_
                      obtain rfl := Option.some.inj (hx.symm.trans hother)
                      exact absurd htrue hunmarked
                    · obtain rfl := Option.some.inj hrun
                      refine ⟨hfresh.internalRemoveItem _ _, ?_⟩
                      rw [toDecayItems_internalRemoveItem]
                      exact kept_internalRemoveItem h _ _

/-! ## The timers -/

/-- The mark goes away with the item that `internalDecayItem` is called for. -/
def DecaysAway (types : Nat → ItemType) (env : Env) (x : Nat) (item : Item) : Prop :=
  if (types item.id).decayTo ≠ 0 then
    let newId := ((types item.id).decayTo % 65536).toNat
    match change types (env x newId) item newId (-1) with
    | .unchanged => False
    | .noItem => False
    | .putBack itemId => item.Resets types itemId ∨ (env x newId).accepted = false
    | .update itemId => item.Resets types itemId
    | .remove => (env x newId).removable = true
    | .replace itemId =>
        (Item.create types itemId (item.removed || !(env x newId).accepted)).isSome = true
  else (env x 0).removable = true

theorem unmarked_of_resets {itemId : Nat} (h : item.Resets types itemId) :
    (item.setID types itemId).getDecaying ≠ .DECAYING_TRUE := by
  rcases Item.getDecaying_setID types item itemId with ⟨_, hnot⟩ | ⟨heq, _⟩
  · exact absurd h hnot
  · rw [heq]
    exact nofun

theorem KeptBut.internalRemoveItem (h : KeptBut w.items lists x) (hx : w.items x = some item)
    {e : Surroundings} (hremovable : e.removable = true) :
    Kept (w.internalRemoveItem e x).items lists := by
  rw [World.internalRemoveItem, hx]
  dsimp only
  rw [hremovable, Bool.not_true, if_neg Bool.false_ne_true]
  exact h.settle (.inl rfl)

/-- An item that was taken out of its bucket decays, and what comes of it starts to. -/
theorem kept_decay {fuel : Nat} (hx : w.items x = some item) (hfresh : w.Fresh)
    (h : KeptBut w.items (w.toDecayItems ++ lists) x) (haway : DecaysAway types env x item)
    (hrun : internalDecayItem types env (startDecay types env fuel) w x = some w') :
    w'.Fresh ∧ Kept w'.items (w'.toDecayItems ++ lists) := by
  rw [internalDecayItem] at hrun
  simp only [hx] at hrun
  rw [DecaysAway] at haway
  split at hrun
  · next hto =>
    rw [if_pos hto] at haway
    dsimp only at haway
    generalize ((types item.id).decayTo % 65536).toNat = newId at hrun haway
    refine kept_startDecay hrun (hfresh.transformItem _ _ _ _) ?_
    rw [toDecayItems_transformItem]
    rw [transformItem, hx]
    dsimp only
    cases hchange : change types (env x newId) item newId (-1) with
    | unchanged => rw [hchange] at haway; exact haway.elim
    | noItem => rw [hchange] at haway; exact haway.elim
    | putBack itemId =>
        rw [hchange] at haway
        dsimp only
        split
        · next haccepted =>
          refine h.settle (.inr (unmarked_of_resets (haway.resolve_right ?_)))
          rw [haccepted]
          exact Bool.noConfusion
        · exact h.settle (.inl rfl)
    | update itemId =>
        rw [hchange] at haway
        exact h.settle (.inr (unmarked_of_resets haway))
    | remove =>
        rw [hchange] at haway
        exact KeptBut.internalRemoveItem h hx haway
    | replace itemId =>
        rw [hchange] at haway
        dsimp only at haway ⊢
        cases hnew : Item.create types itemId (item.removed || !(env x newId).accepted) with
        | none => rw [hnew] at haway; cases haway
        | some newItem =>
            have hold : Kept (w.set x { item with removed := true }).items
                (w.toDecayItems ++ lists) := h.settle (.inl rfl)
            refine hold.fresh ?_ fun _ => Item.create_unmarked hnew
            exact (hfresh.set hx _) _ (Nat.le_refl _)
  · next hto =>
    rw [if_neg hto] at haway
    obtain rfl := Option.some.inj hrun
    refine ⟨hfresh.internalRemoveItem _ _, ?_⟩
    rw [toDecayItems_internalRemoveItem]
    exact KeptBut.internalRemoveItem h hx haway

/-- The buckets one after another. -/
def buckets (decayItems : Nat → List Nat) : List Nat :=
  decayItems 0 ++ (decayItems 1 ++ (decayItems 2 ++ decayItems 3))

/-- `toDecayItems` and the buckets together. -/
def decayLists (w : World) : List Nat := w.toDecayItems ++ buckets w.decayItems

theorem buckets_update_cons (d : Nat → List Nat) {bucket : Nat} (hbucket : bucket < 4) (x : Nat)
    {l l' : List Nat} (hperm : l.Perm (x :: l')) :
    (buckets (Function.update d bucket l)).Perm
      (x :: buckets (Function.update d bucket l')) := by
  have hcases : bucket = 0 ∨ bucket = 1 ∨ bucket = 2 ∨ bucket = 3 := by omega
  rcases hcases with rfl | rfl | rfl | rfl <;> simp only [buckets, Function.update_apply]
  · exact hperm.append_right _
  · exact ((hperm.append_right _).append_left _).trans List.perm_middle
  · refine (((hperm.append_right _).append_left _).append_left _).trans ?_
    exact (List.perm_middle.append_left _).trans List.perm_middle
  · refine (((hperm.append_left _).append_left _).append_left _).trans ?_
    refine ((List.perm_middle.append_left _).append_left _).trans ?_
    exact (List.perm_middle.append_left _).trans List.perm_middle

theorem buckets_push (d : Nat → List Nat) {bucket : Nat} (hbucket : bucket < 4) (x : Nat) :
    (buckets (Function.update d bucket (d bucket ++ [x]))).Perm (x :: buckets d) := by
  have hperm : (d bucket ++ [x]).Perm (x :: d bucket) := List.perm_append_singleton x _
  refine (buckets_update_cons d hbucket x hperm).trans ?_
  rw [Function.update_eq_self]

theorem kept_checkBucket {fuel bucket : Nat} (hbucket : bucket < 4) {rest kept : List Nat}
    {calls : List Nat} (hrun : checkBucket types env fuel bucket rest kept w = some (w', calls))
    (hfresh : w.Fresh)
    (h : Kept w.items
      (w.toDecayItems ++ buckets (Function.update w.decayItems bucket (kept ++ rest))))
    (haway : ∀ x ∈ rest, ∀ item, w.items x = some item →
      (visit types bucket item).2 = .decayed →
        DecaysAway types env x (visit types bucket item).1) :
    w'.Fresh ∧ Kept w'.items w'.decayLists ∧ w'.lastBucket = w.lastBucket := by
  induction rest generalizing w kept calls with
  | nil =>
      rw [checkBucket] at hrun
      obtain ⟨rfl, _⟩ := Prod.mk.inj (Option.some.inj hrun)
      rw [List.append_nil] at h
      exact ⟨hfresh, h, rfl⟩
  | cons x rest ih =>
      have hdrop : (w.toDecayItems ++
          buckets (Function.update w.decayItems bucket (kept ++ x :: rest))).Perm
          (x :: (w.toDecayItems ++
            buckets (Function.update w.decayItems bucket (kept ++ rest)))) := by
        refine ((buckets_update_cons _ hbucket x List.perm_middle).append_left _).trans ?_
        exact List.perm_middle
      have hperm := h.perm hdrop.symm
      obtain ⟨item, hx, hmark⟩ := hperm.listed x List.mem_cons_self
      -- the items still to come to are others
      have hrest : ∀ y ∈ rest, y ≠ x := by
        rintro y hy rfl
        refine (List.nodup_cons.mp hperm.once).1 (List.mem_append_right _ ?_)
        have hsub := buckets_update_cons (l := kept ++ rest) w.decayItems hbucket y
          ((List.perm_cons_erase hy).append_left kept |>.trans List.perm_middle)
        exact hsub.mem_iff.mpr List.mem_cons_self
      have haway' : ∀ w₁ : World, (∀ y, y ≠ x → y < w.next → w₁.items y = w.items y) →
          ∀ y ∈ rest, ∀ item, w₁.items y = some item → (visit types bucket item).2 = .decayed →
            DecaysAway types env y (visit types bucket item).1 := by
        intro w₁ hsame y hy other hother
        have hne := hrest y hy
        obtain ⟨old, hold, _⟩ := h.listed y (by
          refine hdrop.mem_iff.mpr (List.mem_cons_of_mem _ (List.mem_append_right _ ?_))
          have hsub := buckets_update_cons (l := kept ++ rest) w.decayItems hbucket y
            ((List.perm_cons_erase hy).append_left kept |>.trans List.perm_middle)
          exact hsub.mem_iff.mpr List.mem_cons_self)
        rw [hsame y hne (hfresh.lt hold)] at hother
        exact haway y (List.mem_cons_of_mem _ hy) other hother
      obtain ⟨hremoved, hspec⟩ := visit_spec types bucket item
      have hitem := haway x List.mem_cons_self item hx
      rcases checkBucket_cases hx hrun with ⟨item', hvisit, hrun⟩ | ⟨item', newBucket, hvisit, hrun⟩ |
        ⟨item', hvisit, hrun⟩ | ⟨item', w₁, calls', hvisit, hdecay, hrun, _⟩ <;>
        rw [hvisit] at hremoved hspec hitem <;>
        have hframe := (frame_set w x item').items
      · -- released
        refine ih (w := w.set x item') hrun (hfresh.set hx item') ?_ (haway' _ hframe)
        have hfalse : item'.getDecaying = .DECAYING_FALSE := hspec
        exact hperm.drop.settle (.inr (by simp [hfalse]))
      · -- moved
        obtain ⟨hlt, hne, hsame⟩ := hspec
        refine ih (w := (w.set x item').pushBack newBucket x) hrun (hfresh.set hx item') ?_
          (haway' _ hframe)
        have hmoved : Function.update w.decayItems bucket (kept ++ rest) newBucket =
            w.decayItems newBucket := Function.update_of_ne hne ..
        have hpush := buckets_push (Function.update w.decayItems bucket (kept ++ rest)) hlt x
        rw [hmoved, Function.update_comm hne.symm] at hpush
        refine (hperm.update hx (by rw [hsame]) fun hin => hremoved ▸ hin).perm ?_
        exact (hpush.append_left _).trans List.perm_middle
      · -- kept
        refine ih (w := w.set x item') hrun (hfresh.set hx item') ?_ (haway' _ hframe)
        rw [List.append_assoc]
        exact h.update hx (by rw [hspec]) fun hin => hremoved ▸ hin
      · -- decayed
        have hself : (w.set x item').items x = some item' := Function.update_self ..
        obtain ⟨hfresh₁, hkept⟩ := kept_decay hself (hfresh.set hx item') hperm.drop.update
          (hitem rfl) hdecay
        have hframe₁ := frame_decay hdecay
        have hall := ih hrun hfresh₁ (by rw [hframe₁.decayItems]; exact hkept)
          (haway' w₁ fun y hne hlt => (hframe₁.items y hne hlt).trans (hframe y hne hlt))
        exact ⟨hall.1, hall.2.1, hall.2.2.trans hframe₁.lastBucket⟩

theorem entryBucket_lt {lastBucket : Nat} (hlast : lastBucket < 4) (dur : Nat) :
    entryBucket lastBucket dur < 4 := by
  rw [entryBucket]
  split
  · exact hlast
  · exact Nat.mod_lt _ (by decide)

/-- `cleanup` puts every item that waits in one bucket. -/
theorem foldl_enter (l : List Nat) (hlast : w.lastBucket < 4) (hl : ∀ x ∈ l, Marked w.items x) :
    ∃ decayItems, l.foldl enter w = { w with decayItems := decayItems } ∧
      (buckets decayItems).Perm (l ++ buckets w.decayItems) := by
  induction l generalizing w with
  | nil => exact ⟨w.decayItems, rfl, .refl _⟩
  | cons x l ih =>
      obtain ⟨item, hx, _⟩ := hl x List.mem_cons_self
      have henter : w.enter x = w.pushBack (entryBucket w.lastBucket item.getDuration) x := by
        rw [enter, hx]
      obtain ⟨d, heq, hperm⟩ := ih (w := w.enter x) (by rw [henter]; exact hlast)
        (by rw [henter]; exact fun y hy => hl y (List.mem_cons_of_mem _ hy))
      rw [henter] at heq hperm
      refine ⟨d, by rw [List.foldl_cons, henter, heq]; rfl, ?_⟩
      have hpush := buckets_push w.decayItems (entryBucket_lt hlast item.getDuration) x
      exact hperm.trans ((hpush.append_left l).trans List.perm_middle)

theorem kept_cleanup (hlast : w.lastBucket < 4) (h : Kept w.items w.decayLists) :
    ∃ decayItems, w.cleanup = { w with toDecayItems := [], decayItems := decayItems } ∧
      Kept w.items (buckets decayItems) := by
  obtain ⟨d, heq, hperm⟩ := foldl_enter w.toDecayItems hlast fun x hx =>
    h.listed x (List.mem_append_left _ hx)
  exact ⟨d, by rw [cleanup, heq], h.perm hperm⟩

/-! ## Runs -/

/-- The mark is neither copied to a clone nor decided about while it stands, and goes away
with an item that decays. -/
def KeepsMarks (types : Nat → ItemType) (w : World) (a : Env × Step) : Prop :=
  match a.2 with
  | .checkDecay =>
      ∀ x ∈ w.decayItems ((w.lastBucket + 1) % EVENT_DECAY_BUCKETS), ∀ item, w.items x = some item →
        (visit types ((w.lastBucket + 1) % EVENT_DECAY_BUCKETS) item).2 = .decayed →
          DecaysAway types a.1 x (visit types ((w.lastBucket + 1) % EVENT_DECAY_BUCKETS) item).1
  | .transformItem x newId newCount =>
      ∀ item, w.items x = some item → item.getDecaying = .DECAYING_TRUE →
        KeepsMark types item (change types (a.1 x newId) item newId newCount)
  | .setID x newId =>
      ∀ item, w.items x = some item → item.getDecaying = .DECAYING_TRUE →
        ¬item.Resets types newId
  | .moveStack x toItem m =>
      (m.left = true → m.accepted = true → ¬Marked w.items x) ∧
        ∀ y other, toItem = some y → (m.equal && w.equals x y) = true →
          w.items y = some other → other.getDecaying = .DECAYING_TRUE →
            ¬other.Resets types other.id
  | _ => True

/-- What every run keeps. -/
structure Good (w : World) : Prop where
  fresh : w.Fresh
  kept : Kept w.items w.decayLists
  lastBucket : w.lastBucket < 4

theorem good_initial : initial.Good :=
  ⟨fun _ _ => rfl, ⟨nofun, List.nodup_nil, nofun⟩, by decide⟩

theorem Good.startDecay (h : w.Good) {fuel : Nat} (x : Nat)
    (hrun : startDecay types env fuel w (some x) = some w') : w'.Good := by
  obtain ⟨hfresh, hkept⟩ := kept_startDecay hrun h.fresh h.kept
  have hframe := frame_startDecay hrun
  refine ⟨hfresh, ?_, hframe.lastBucket ▸ h.lastBucket⟩
  rw [decayLists, hframe.decayItems]
  exact hkept

theorem Good.checkDecay (h : w.Good) {fuel : Nat} {calls : List Nat}
    (haway : KeepsMarks types w (env, .checkDecay))
    (hrun : checkDecay types env fuel w = some (w', calls)) : w'.Good := by
  have hbucket : (w.lastBucket + 1) % EVENT_DECAY_BUCKETS < 4 := Nat.mod_lt _ (by decide)
  obtain ⟨⟨w₁, calls₁⟩, hloop, hlast⟩ := Option.bind_eq_some_iff.mp hrun
  obtain ⟨rfl, _⟩ := Prod.mk.inj (Option.some.inj hlast)
  obtain ⟨hfresh, hkept, _⟩ := kept_checkBucket hbucket hloop h.fresh (by
    rw [List.nil_append, Function.update_eq_self]
    exact h.kept) haway
  obtain ⟨d, heq, hclean⟩ :=
    kept_cleanup (w := { w₁ with lastBucket := (w.lastBucket + 1) % EVENT_DECAY_BUCKETS }) hbucket hkept
  change (World.cleanup { w₁ with lastBucket := (w.lastBucket + 1) % EVENT_DECAY_BUCKETS }).Good
  rw [heq]
  exact ⟨hfresh, hclean, hbucket⟩

theorem Good.cleanup (h : w.Good) : w.cleanup.Good := by
  obtain ⟨d, heq, hclean⟩ := kept_cleanup h.lastBucket h.kept
  rw [heq]
  exact ⟨h.fresh, hclean, h.lastBucket⟩

theorem Good.transformItem (h : w.Good) {e : Surroundings} {x newId : Nat} {newCount : Int}
    (hkeeps : ∀ item, w.items x = some item → item.getDecaying = .DECAYING_TRUE →
      KeepsMark types item (change types e item newId newCount)) :
    (w.transformItem types e x newId newCount).1.Good := by
  have hframe := (frame_transformItem types e w x newId newCount).1
  refine ⟨h.fresh.transformItem _ _ _ _, ?_, hframe.lastBucket ▸ h.lastBucket⟩
  rw [decayLists, toDecayItems_transformItem, hframe.decayItems]
  exact kept_transformItem h.kept h.fresh _ _ _ hkeeps

theorem Good.removeItem (h : w.Good) (e : Surroundings) (x : Nat) :
    (w.internalRemoveItem e x).Good := by
  have hframe := frame_internalRemoveItem e w x
  refine ⟨h.fresh.internalRemoveItem e x, ?_, hframe.lastBucket ▸ h.lastBucket⟩
  rw [decayLists, toDecayItems_internalRemoveItem, hframe.decayItems]
  exact kept_internalRemoveItem h.kept e x

theorem Good.set (h : w.Good) (hx : w.items x = some item) {item' : Item}
    (hmark : item'.getDecaying = .DECAYING_TRUE ↔ item.getDecaying = .DECAYING_TRUE)
    (hremoved : item'.removed = false → item.removed = false) : (w.set x item').Good :=
  ⟨h.fresh.set hx item', h.kept.update hx hmark hremoved, h.lastBucket⟩

theorem Good.new (h : w.Good)
    (hnew : item.removed = false → item.getDecaying ≠ .DECAYING_TRUE) : (w.new item).Good :=
  ⟨h.fresh.new item, h.kept.fresh (h.fresh _ (Nat.le_refl _)) hnew, h.lastBucket⟩

theorem Good.moveStack (h : w.Good) {toItem : Option Nat} {m : Move}
    (hkeeps : KeepsMarks types w (env, .moveStack x toItem m)) :
    (w.moveStack types x toItem m).Good := by
  obtain ⟨hclone, hmerge⟩ := hkeeps
  rw [World.moveStack]
  cases hx : w.items x with
  | none => exact h
  | some item =>
      dsimp only
      split
      · exact h
      · next hself =>
        have htaken : ∃ w₁ : World,
            (if m.whole then w.set x { item with removed := true } else w) = w₁ ∧ w₁.Good ∧
            ∀ y, y ≠ x → w₁.items y = w.items y ∧ w₁.equals x y = w.equals x y := by
          by_cases hwhole : m.whole = true
          · refine ⟨_, if_pos hwhole, h.set hx Iff.rfl Bool.noConfusion, fun y hne => ?_⟩
            have hother : (w.set x { item with removed := true }).items y = w.items y :=
              Function.update_of_ne hne ..
            have hown : (w.set x { item with removed := true }).items x =
                some { item with removed := true } := Function.update_self ..
            refine ⟨hother, ?_⟩
            rw [equals, equals, hother, hown, hx]
            cases w.items y <;> rfl
          · exact ⟨w, if_neg hwhole, h, fun _ _ => ⟨rfl, rfl⟩⟩
        obtain ⟨w₁, heq, hgood, hsame⟩ := htaken
        rw [heq]
        -- the clone, whatever the merge did
        have hleft : ∀ w₂ : World, w₂.Good →
            (if m.left then w₂.new { item with removed := !m.accepted } else w₂).Good := by
          intro w₂ hmerged
          split
          · next hleft =>
            refine hmerged.new fun hin htrue => hclone hleft ?_ ⟨item, hx, htrue⟩
            simpa using hin
          · exact hmerged
        refine hleft _ ?_
        cases toItem with
        | none => exact hgood
        | some y =>
            have hne : y ≠ x := fun heq => hself (congrArg some heq)
            obtain ⟨hitem, hequals⟩ := hsame y hne
            dsimp only
            rw [hitem, hequals]
            cases hy : w.items y with
            | none => exact hgood
            | some other =>
                dsimp only
                split
                · next hequal =>
                  refine hgood.set (hitem.trans hy)
                    (mark_setID fun htrue => hmerge y other rfl hequal hy htrue) fun hin => ?_
                  exact Item.setID_removed other other.id ▸ hin
                · exact hgood

theorem good_step {fuel : Nat} {s : Step} (h : w.Good) (hkeeps : KeepsMarks types w (env, s))
    (hrun : w.step types env fuel s = some w') : w'.Good := by
  cases s with
  | create item =>
      obtain rfl := Option.some.inj hrun
      split
      · exact h
      · next hunmarked => exact h.new fun _ => hunmarked
  | startDecay x => exact h.startDecay x hrun
  | checkDecay =>
      obtain ⟨⟨w₁, calls⟩, hcheck, rfl⟩ := Option.map_eq_some_iff.mp hrun
      exact h.checkDecay hkeeps hcheck
  | cleanup =>
      obtain rfl := Option.some.inj hrun
      exact h.cleanup
  | transformItem x newId newCount =>
      obtain rfl := Option.some.inj hrun
      exact h.transformItem hkeeps
  | setID x newId =>
      rw [step] at hrun
      cases hx : w.items x with
      | none =>
          rw [hx] at hrun
          obtain rfl := Option.some.inj hrun
          exact h
      | some item =>
          simp only [hx] at hrun
          obtain rfl := Option.some.inj hrun
          exact h.set hx (mark_setID (hkeeps item hx)) fun hin => Item.setID_removed item newId ▸ hin
  | moveStack x toItem m =>
      obtain rfl := Option.some.inj hrun
      exact h.moveStack hkeeps
  | removeItem x =>
      obtain rfl := Option.some.inj hrun
      exact h.removeItem _ x

/-- An item is marked exactly while it is in the lists, once, in every state of a run in
which no mark is copied, decided about or left over. -/
theorem kept_of_reach (types : Nat → ItemType)
    (hreach : (system types).Reach (KeepsMarks types) w) : Kept w.items w.decayLists := by
  have hind : (system types).Inductive (KeepsMarks types) Good := by
    constructor
    · rintro s rfl
      exact good_initial
    · rintro s a t hgood hkeeps ⟨fuel, hrun⟩
      exact good_step hgood hkeeps hrun
  exact (hind.invariant hreach).kept

/-- Items that stack and last for two minutes. -/
def candle : ItemType := ⟨1, false, 0, true, false, 0, 120, false⟩

def lit : Item := ⟨1, some 120000, none, false, false⟩

def alone : Env := fun _ _ => ⟨1, false, true, true, true, true, true⟩

/-- A candle is made and begins to decay. -/
def litCandle : World :=
  { (initial.new lit).set 0 (lit.setDecaying .DECAYING_TRUE) with toDecayItems := [0] }

theorem reach_litCandle {C : World → Env × Step → Prop}
    (hC : ∀ w, C w (alone, .create lit) ∧ C w (alone, .startDecay 0)) :
    (system fun _ => candle).Reach C litCandle := by
  have hcreate : (system fun _ => candle).step initial (alone, .create lit) (initial.new lit) :=
    ⟨0, rfl⟩
  have hstart : (system fun _ => candle).step (initial.new lit) (alone, .startDecay 0) litCandle :=
    ⟨1, rfl⟩
  have hnew : (system fun _ => candle).Reach C (initial.new lit) :=
    .next (.start rfl) (hC _).1 hcreate
  exact hnew.next (hC _).2 hstart

theorem kept_lit : Kept (Function.update (Function.update (fun _ => none) 0 (some lit)) 0
    (some (lit.setDecaying .DECAYING_TRUE))) [0] := by
  have hguard : ∀ w, KeepsMarks (fun _ => candle) w (alone, .create lit) ∧
      KeepsMarks (fun _ => candle) w (alone, .startDecay 0) := fun _ => ⟨trivial, trivial⟩
  exact kept_of_reach _ (reach_litCandle hguard)

/-- The clone of a moved stack is marked, and in no list. -/
theorem clone_never_decays :
    ¬∀ types w, (system types).Reachable w → Kept w.items w.decayLists := by
  intro h
  have hreach := reach_litCandle (C := fun _ _ => True) fun _ => ⟨trivial, trivial⟩
  have hkept := h _ _ (hreach.next (a := (alone, .moveStack 0 none ⟨false, false, true, true⟩))
    trivial ⟨0, rfl⟩)
  have hlisted := hkept.marked 1 (lit.setDecaying .DECAYING_TRUE) rfl rfl rfl
  exact absurd hlisted (by decide)

end World

end Infernum.Decay
