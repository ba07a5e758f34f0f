import Mathlib.Algebra.BigOperators.Group.Finset.Basic
import Mathlib.Algebra.BigOperators.Group.Finset.Piecewise

/-!
# Holdings

Finitely many places, each of which may hold an entry; every entry has an
amount. The total changes by one entry's amount when a place is filled or
emptied.
-/

namespace Infernum.Lib

variable {κ ν : Type*} {G : Type*} [Fintype κ] [DecidableEq κ] [AddCommMonoid G]

/-- The amounts of the entries in all places that hold one. -/
def held (holds : κ → Bool) (entry : κ → ν) (amount : ν → G) : G :=
  ∑ k, if holds k then amount (entry k) else 0

variable {holds : κ → Bool} {entry : κ → ν} {amount : ν → G} {k : κ}

omit [DecidableEq κ] in
theorem held_eq_zero (h : ∀ k, holds k = false) : held holds entry amount = 0 := by
  apply Finset.sum_eq_zero
  intro k _
  simp [h k]

omit [DecidableEq κ] in
/-- The total depends on the entries that are held only. -/
theorem held_congr {entry' : κ → ν} (h : ∀ k, holds k = true → entry' k = entry k) :
    held holds entry' amount = held holds entry amount := by
  apply Finset.sum_congr rfl
  intro k _
  by_cases hk : holds k = true
  · rw [h k hk]
  · simp [hk]

/-- What one place holds, and the rest. -/
theorem held_split (holds : κ → Bool) (entry : κ → ν) (amount : ν → G) (k : κ) :
    held holds entry amount =
      (if holds k then amount (entry k) else 0) +
        held (Function.update holds k false) entry amount := by
  unfold held
  rw [← Finset.add_sum_erase _ _ (Finset.mem_univ k)]
  congr 1
  rw [← Finset.add_sum_erase _ _ (Finset.mem_univ k), Function.update_self]
  simp only [Bool.false_eq_true, if_false, zero_add]
  apply Finset.sum_congr rfl
  intro j hj
  rw [Function.update_of_ne (Finset.ne_of_mem_erase hj)]

/-- Filling an empty place adds its entry's amount. -/
theorem held_fill (hk : holds k = false) (v : ν) :
    held (Function.update holds k true) (Function.update entry k v) amount =
      amount v + held holds entry amount := by
  rw [held_split _ _ _ k, Function.update_self, Function.update_self, if_pos rfl,
    Function.update_idem]
  have hrest : Function.update holds k false = holds := by
    rw [← hk, Function.update_eq_self]
  rw [hrest]
  congr 1
  apply held_congr
  intro j hj
  have hne : j ≠ k := by
    rintro rfl
    rw [hk] at hj
    exact Bool.false_ne_true hj
  rw [Function.update_of_ne hne]

/-- Emptying a place takes its entry's amount away. -/
theorem held_empty (hk : holds k = true) :
    held holds entry amount =
      amount (entry k) + held (Function.update holds k false) entry amount := by
  rw [held_split holds entry amount k, if_pos hk]

end Infernum.Lib
