import Infernum.Decay.Effects
import Mathlib.Data.List.Count

/-!
# Where a decaying item is

One item on its way through the lists, whatever happens to the others: `startDecay` lets
it wait, `cleanup` gives it a bucket, and `checkDecay` comes to a bucket every
`EVENT_DECAY_BUCKETS` intervals.
-/

namespace Infernum.Decay

open ItemDecayState

variable {types : Nat → ItemType}

namespace World

variable {env : Env} {w w' : World} {x : Nat} {item : Item}

/-- Nothing about an item changes. -/
structure Undisturbed (x : Nat) (w w' : World) : Prop where
  items : w'.items x = w.items x
  next : w.next ≤ w'.next
  lastBucket : w'.lastBucket = w.lastBucket
  toDecayItems : w'.toDecayItems.count x = w.toDecayItems.count x
  decayItems : ∀ bucket, (w'.decayItems bucket).count x = (w.decayItems bucket).count x

theorem Undisturbed.trans {w'' : World} (h : Undisturbed x w w') (h' : Undisturbed x w' w'') :
    Undisturbed x w w'' where
  items := h'.items.trans h.items
  next := Nat.le_trans h.next h'.next
  lastBucket := h'.lastBucket.trans h.lastBucket
  toDecayItems := h'.toDecayItems.trans h.toDecayItems
  decayItems bucket := (h'.decayItems bucket).trans (h.decayItems bucket)

theorem undisturbed_set {y : Nat} (hne : x ≠ y) (w : World) (item : Item) :
    Undisturbed x w (w.set y item) :=
  ⟨Function.update_of_ne hne .., Nat.le_refl _, rfl, rfl, fun _ => rfl⟩

theorem undisturbed_pushBack {y : Nat} (hne : x ≠ y) (w : World) (bucket : Nat) :
    Undisturbed x w (w.pushBack bucket y) := by
  refine ⟨rfl, Nat.le_refl _, rfl, rfl, fun b => ?_⟩
  show (Function.update w.decayItems bucket (w.decayItems bucket ++ [y]) b).count x = _
  rw [Function.update_apply]
  split
  · next heq => simp [heq, Ne.symm hne]
  · rfl

/-- Another item decays. -/
theorem Frame.undisturbed {y : Nat} (h : Frame w y w') (hne : x ≠ y) (hlt : x < w.next) :
    Undisturbed x w w' := by
  refine ⟨h.items x hne hlt, h.next, h.lastBucket, ?_, fun bucket => by rw [h.decayItems]⟩
  obtain ⟨l, heq, hl⟩ := h.toDecayItems
  have hout : x ∉ l := by
    intro hmem
    rcases hl x hmem with rfl | hle
    · exact hne rfl
    · omega
  rw [heq, List.count_append, List.count_eq_zero_of_not_mem hout, Nat.zero_add]

/-! ## The loop of `checkDecay` -/

/-- It calls `internalDecayItem` for items of the bucket. -/
theorem calls_sublist {fuel bucket : Nat} {rest kept calls : List Nat}
    (hrun : checkBucket types env fuel bucket rest kept w = some (w', calls)) :
    calls.Sublist rest := by
  induction rest generalizing w kept calls with
  | nil =>
      rw [checkBucket] at hrun
      obtain ⟨_, rfl⟩ := Prod.mk.inj (Option.some.inj hrun)
      exact .slnil
  | cons x rest ih =>
      cases hx : w.items x with
      | none =>
          rw [checkBucket] at hrun
          simp only [hx] at hrun
          exact (ih hrun).cons x
      | some item =>
          rcases checkBucket_cases hx hrun with ⟨_, _, hrun⟩ | ⟨_, _, _, hrun⟩ | ⟨_, _, hrun⟩ |
            ⟨_, _, calls', _, _, hrest, rfl⟩
          · exact (ih hrun).cons x
          · exact (ih hrun).cons x
          · exact (ih hrun).cons x
          · exact (ih hrest).cons_cons x

/-- The loop comes to another item. -/
theorem checkBucket_skip {fuel bucket y : Nat} {rest kept calls : List Nat} (hne : x ≠ y)
    (hlt : x < w.next)
    (hrun : checkBucket types env fuel bucket (y :: rest) kept w = some (w', calls)) :
    ∃ w₁ kept₁ calls₁, Undisturbed x w w₁ ∧ kept₁.count x = kept.count x ∧
      checkBucket types env fuel bucket rest kept₁ w₁ = some (w', calls₁) ∧
      calls.count x = calls₁.count x := by
  cases hy : w.items y with
  | none =>
      rw [checkBucket] at hrun
      simp only [hy] at hrun
      exact ⟨w, kept, calls, ⟨rfl, Nat.le_refl _, rfl, rfl, fun _ => rfl⟩, rfl, hrun, rfl⟩
  | some item =>
      rcases checkBucket_cases hy hrun with ⟨item', _, hrun⟩ | ⟨item', newBucket, _, hrun⟩ |
        ⟨item', _, hrun⟩ | ⟨item', w₁, calls', _, hdecay, hrest, rfl⟩ <;>
        have hset := undisturbed_set hne w item'
      · exact ⟨_, _, _, hset, rfl, hrun, rfl⟩
      · exact ⟨_, _, _, hset.trans (undisturbed_pushBack hne _ newBucket), rfl, hrun, rfl⟩
      · exact ⟨_, _, _, hset, by simp [Ne.symm hne], hrun, rfl⟩
      · refine ⟨_, _, _, hset.trans ((frame_decay hdecay).undisturbed hne hlt), rfl, hrest, ?_⟩
        exact List.count_cons_of_ne (Ne.symm hne)

/-- The rest of a bucket, without the item. -/
theorem checkBucket_others {fuel bucket : Nat} {rest kept calls : List Nat}
    (hrun : checkBucket types env fuel bucket rest kept w = some (w', calls)) (hx : x ∉ rest)
    (hlt : x < w.next) :
    w'.items x = w.items x ∧ w.next ≤ w'.next ∧ w'.lastBucket = w.lastBucket ∧
      w'.toDecayItems.count x = w.toDecayItems.count x ∧
      (∀ b, b ≠ bucket → (w'.decayItems b).count x = (w.decayItems b).count x) ∧
      (w'.decayItems bucket).count x = kept.count x := by
  induction rest generalizing w kept calls with
  | nil =>
      rw [checkBucket] at hrun
      obtain ⟨rfl, _⟩ := Prod.mk.inj (Option.some.inj hrun)
      refine ⟨rfl, Nat.le_refl _, rfl, rfl, fun b hne => ?_, ?_⟩
      · exact congrArg (List.count x) (Function.update_of_ne hne ..)
      · exact congrArg (List.count x) (Function.update_self ..)
  | cons y rest ih =>
      obtain ⟨hne, hout⟩ := not_or.mp (List.mem_cons.not.mp hx)
      obtain ⟨w₁, kept₁, calls₁, hsame, hkept, hrest, _⟩ := checkBucket_skip hne hlt hrun
      obtain ⟨hitems, hnext, hlast, hwait, hothers, hown⟩ :=
        ih hrest hout (Nat.lt_of_lt_of_le hlt hsame.next)
      exact ⟨hitems.trans hsame.items, Nat.le_trans hsame.next hnext,
        hlast.trans hsame.lastBucket, hwait.trans hsame.toDecayItems,
        fun b hb => (hothers b hb).trans (hsame.decayItems b), hown.trans hkept⟩

/-! ## Where an item is -/

/-- It waits for `cleanup`. -/
structure Waits (w : World) (x : Nat) (item : Item) : Prop where
  items : w.items x = some item
  next : x < w.next
  toDecayItems : w.toDecayItems.count x = 1
  decayItems : ∀ bucket, (w.decayItems bucket).count x = 0

/-- It is in this bucket, and nowhere else. -/
structure InBucket (w : World) (x : Nat) (item : Item) (bucket : Nat) : Prop where
  items : w.items x = some item
  next : x < w.next
  toDecayItems : w.toDecayItems.count x = 0
  decayItems : ∀ b, (w.decayItems b).count x = if b = bucket then 1 else 0

theorem Undisturbed.waits (h : Undisturbed x w w') (hwaits : w.Waits x item) : w'.Waits x item :=
  ⟨h.items.trans hwaits.items, Nat.lt_of_lt_of_le hwaits.next h.next,
    h.toDecayItems.trans hwaits.toDecayItems, fun b => (h.decayItems b).trans (hwaits.decayItems b)⟩

theorem Undisturbed.inBucket {bucket : Nat} (h : Undisturbed x w w')
    (hin : w.InBucket x item bucket) : w'.InBucket x item bucket :=
  ⟨h.items.trans hin.items, Nat.lt_of_lt_of_le hin.next h.next,
    h.toDecayItems.trans hin.toDecayItems, fun b => (h.decayItems b).trans (hin.decayItems b)⟩

/-- `startDecay` of an item that is not decaying yet. -/
theorem waits_startDecay {fuel : Nat} (hx : w.items x = some item) (hnext : x < w.next)
    (hcan : item.canDecay types = true) (hnew : item.getDecaying ≠ .DECAYING_TRUE)
    (hduration : 0 < item.getDuration) (hwait : x ∉ w.toDecayItems)
    (hbuckets : ∀ b, x ∉ w.decayItems b)
    (hrun : startDecay types env fuel w (some x) = some w') :
    w'.Waits x (item.setDecaying .DECAYING_TRUE) ∧ w'.lastBucket = w.lastBucket := by
  cases fuel with
  | zero => cases hrun
  | succ fuel =>
      rw [startDecay] at hrun
      simp only [hx, hcan, Bool.not_true, Bool.false_eq_true, if_false, if_neg hnew,
        if_pos hduration] at hrun
      obtain rfl := Option.some.inj hrun
      refine ⟨⟨Function.update_self .., hnext, ?_, fun b => ?_⟩, rfl⟩
      · show (x :: w.toDecayItems).count x = 1
        rw [List.count_cons_self, List.count_eq_zero_of_not_mem hwait]
      · exact List.count_eq_zero_of_not_mem (hbuckets b)

/-- `cleanup` puts an item as often in its bucket as it waits. -/
theorem foldl_enter_count (l : List Nat) (hx : w.items x = some item) :
    (l.foldl enter w).items = w.items ∧ (l.foldl enter w).next = w.next ∧
      (l.foldl enter w).lastBucket = w.lastBucket ∧
      ∀ b, ((l.foldl enter w).decayItems b).count x = (w.decayItems b).count x +
        if b = entryBucket w.lastBucket item.getDuration then l.count x else 0 := by
  induction l generalizing w with
  | nil => simp
  | cons y l ih =>
      rw [List.foldl_cons]
      have henter : (w.enter y).items = w.items ∧ (w.enter y).next = w.next ∧
          (w.enter y).lastBucket = w.lastBucket ∧
          ∀ b, ((w.enter y).decayItems b).count x = (w.decayItems b).count x +
            if b = entryBucket w.lastBucket item.getDuration ∧ y = x then 1 else 0 := by
        rw [enter]
        cases hy : w.items y with
        | none =>
            have hne : y ≠ x := by
              rintro rfl
              cases hy.symm.trans hx
            simp [hne]
        | some other =>
            refine ⟨rfl, rfl, rfl, fun b => ?_⟩
            by_cases heq : y = x
            · subst heq
              obtain rfl := Option.some.inj (hy.symm.trans hx)
              simp only [pushBack, Function.update_apply, and_true]
              split
              · next hb => rw [hb, List.count_append, List.count_singleton_self]
              · rfl
            · rw [if_neg fun h => heq h.2]
              exact (undisturbed_pushBack (Ne.symm heq) w _).decayItems b
      obtain ⟨hitems, hnext, hlast, hcount⟩ := henter
      obtain ⟨hitems', hnext', hlast', hcount'⟩ := ih (w := w.enter y) (by rw [hitems]; exact hx)
      refine ⟨hitems'.trans hitems, hnext'.trans hnext, hlast'.trans hlast, fun b => ?_⟩
      rw [hcount', hcount, hlast, List.count_cons]
      by_cases hb : b = entryBucket w.lastBucket item.getDuration
      · by_cases hy : y = x
        · simp [hb, hy]
          omega
        · simp [hb, hy]
      · simp [hb]

theorem inBucket_cleanup_of_waits (h : w.Waits x item) :
    w.cleanup.InBucket x item (entryBucket w.lastBucket item.getDuration) ∧
      w.cleanup.lastBucket = w.lastBucket := by
  obtain ⟨hitems, hnext, hlast, hcount⟩ := foldl_enter_count w.toDecayItems h.items
  refine ⟨⟨(congrFun hitems x).trans h.items, ?_, List.count_nil .., fun b => ?_⟩, hlast⟩
  · exact Nat.lt_of_lt_of_eq h.next hnext.symm
  · refine (hcount b).trans ?_
    rw [h.decayItems, h.toDecayItems, Nat.zero_add]

theorem inBucket_cleanup {bucket : Nat} (h : w.InBucket x item bucket) :
    w.cleanup.InBucket x item bucket ∧ w.cleanup.lastBucket = w.lastBucket := by
  obtain ⟨hitems, hnext, hlast, hcount⟩ := foldl_enter_count w.toDecayItems h.items
  refine ⟨⟨(congrFun hitems x).trans h.items, ?_, List.count_nil .., fun b => ?_⟩, hlast⟩
  · exact Nat.lt_of_lt_of_eq h.next hnext.symm
  · refine (hcount b).trans ?_
    rw [h.decayItems, h.toDecayItems, ite_self, Nat.add_zero]

/-! ## One tick -/

/-- The item's own bucket, from before it on. -/
theorem checkBucket_own {fuel bucket : Nat} {rest kept calls : List Nat}
    (hrun : checkBucket types env fuel bucket rest kept w = some (w', calls))
    (hx : w.items x = some item) (hlt : x < w.next) (hwait : w.toDecayItems.count x = 0)
    (hothers : ∀ b, b ≠ bucket → (w.decayItems b).count x = 0) (hkept : kept.count x = 0)
    (hrest : rest.count x = 1) :
    w'.lastBucket = w.lastBucket ∧
      ((visit types bucket item).2 = .decayed → calls.count x = 1) ∧
      (∀ newBucket, (visit types bucket item).2 = .moved newBucket →
        x ∉ calls ∧ w'.InBucket x (visit types bucket item).1 newBucket) ∧
      ((visit types bucket item).2 = .kept →
        x ∉ calls ∧ w'.InBucket x (visit types bucket item).1 bucket) := by
  induction rest generalizing w kept calls with
  | nil => cases hrest
  | cons y rest ih =>
      by_cases hne : x = y
      · subst hne
        have hout : x ∉ rest := by
          rw [List.count_cons_self] at hrest
          exact List.count_eq_zero.mp (by omega)
        have hcalls : ∀ {w₁ : World} {kept₁ calls₁ : List Nat},
            checkBucket types env fuel bucket rest kept₁ w₁ = some (w', calls₁) → x ∉ calls₁ :=
          fun hrun hmem => hout ((calls_sublist hrun).subset hmem)
        have hspec := (visit_spec types bucket item).2
        rcases checkBucket_cases hx hrun with ⟨item', hvisit, hrun⟩ |
          ⟨item', newBucket, hvisit, hrun⟩ | ⟨item', hvisit, hrun⟩ |
          ⟨item', w₁, calls', hvisit, hdecay, hrest, rfl⟩ <;> rw [hvisit] at hspec ⊢
        · obtain ⟨_, _, hlast, _⟩ := checkBucket_others hrun hout hlt
          exact ⟨hlast, nofun, nofun, nofun⟩
        · obtain ⟨hitems, hnext, hlast, hwait', hothers', hown⟩ :=
            checkBucket_others hrun hout hlt
          refine ⟨hlast, nofun, ?_, nofun⟩
          rintro _ ⟨⟩
          refine ⟨hcalls hrun, hitems.trans (Function.update_self ..), Nat.lt_of_lt_of_le hlt hnext,
            hwait'.trans hwait, fun b => ?_⟩
          by_cases hb : b = bucket
          · rw [hb, hown, hkept, if_neg (Ne.symm hspec.2.1)]
          · rw [hothers' b hb]
            show (Function.update w.decayItems newBucket (w.decayItems newBucket ++ [x]) b).count x
              = _
            rw [Function.update_apply]
            split
            · next heq =>
              rw [List.count_append, List.count_singleton_self, ← heq, hothers b hb]
            · exact hothers b hb
        · obtain ⟨hitems, hnext, hlast, hwait', hothers', hown⟩ :=
            checkBucket_others hrun hout hlt
          refine ⟨hlast, nofun, nofun, fun _ => ?_⟩
          refine ⟨hcalls hrun, hitems.trans (Function.update_self ..), Nat.lt_of_lt_of_le hlt hnext,
            hwait'.trans hwait, fun b => ?_⟩
          by_cases hb : b = bucket
          · rw [hb, hown, List.count_append, hkept, List.count_singleton_self, if_pos rfl]
          · rw [hothers' b hb, if_neg hb]
            exact hothers b hb
        · obtain ⟨hnext, hlast⟩ : w.next ≤ w₁.next ∧ w₁.lastBucket = w.lastBucket :=
            ⟨(frame_decay hdecay).next, (frame_decay hdecay).lastBucket⟩
          obtain ⟨_, _, hlast', _⟩ := checkBucket_others hrest hout (Nat.lt_of_lt_of_le hlt hnext)
          refine ⟨hlast'.trans hlast, fun _ => ?_, nofun, nofun⟩
          rw [List.count_cons_self, List.count_eq_zero_of_not_mem (hcalls hrest)]
      · obtain ⟨w₁, kept₁, calls₁, hsame, hkept₁, hrest₁, hcount⟩ := checkBucket_skip hne hlt hrun
        have hone : rest.count x = 1 := by
          rw [List.count_cons_of_ne (Ne.symm hne)] at hrest
          exact hrest
        obtain ⟨hlast, hdecayed, hmoved, hkept'⟩ := ih hrest₁ (hsame.items.trans hx)
          (Nat.lt_of_lt_of_le hlt hsame.next) (hsame.toDecayItems.trans hwait)
          (fun b hb => (hsame.decayItems b).trans (hothers b hb)) (hkept₁.trans hkept) hone
        have hmem : x ∉ calls₁ → x ∉ calls := by
          rw [← List.count_eq_zero, ← List.count_eq_zero, hcount]
          exact id
        refine ⟨hlast.trans hsame.lastBucket, fun hv => hcount.trans (hdecayed hv),
          fun newBucket hv => ?_, fun hv => ?_⟩
        · exact ⟨hmem (hmoved newBucket hv).1, (hmoved newBucket hv).2⟩
        · exact ⟨hmem (hkept' hv).1, (hkept' hv).2⟩

end World

end Infernum.Decay
