import Mathlib.Logic.Function.Basic
import Mathlib.Tactic.Common

/-!
# Loops over arrays

What loops that shift the entries of an array in place, change entries one after
another or fill them leave behind. An array is a function on its indices.
-/

namespace Infernum.Lib

variable {α : Type}

/-- Entries `0` to `n - 1` move one place up, the last one first. -/
def shiftUp : Nat → (Nat → α) → Nat → α
  | 0, a => a
  | n + 1, a => shiftUp n (Function.update a (n + 1) (a n))

/-- Entries `1` to `n` move one place down, the first one first. -/
def shiftDown : Nat → (Nat → α) → Nat → α
  | 0, a => a
  | n + 1, a =>
      let a := shiftDown n a
      Function.update a n (a (n + 1))

theorem shiftUp_apply (n : Nat) (a : Nat → α) (i : Nat) :
    shiftUp n a i = if 0 < i ∧ i ≤ n then a (i - 1) else a i := by
  induction n generalizing a with
  | zero =>
      rw [shiftUp, if_neg (by omega)]
  | succ n ih =>
      rw [shiftUp, ih]
      by_cases hlast : i = n + 1
      · rw [if_neg (by omega), if_pos (by omega), hlast, Function.update_self]
        rfl
      · by_cases hin : 0 < i ∧ i ≤ n
        · rw [if_pos hin, if_pos (by omega), Function.update_of_ne (by omega)]
        · rw [if_neg hin, if_neg (by omega), Function.update_of_ne hlast]

theorem shiftDown_apply (n : Nat) (a : Nat → α) (i : Nat) :
    shiftDown n a i = if i < n then a (i + 1) else a i := by
  induction n generalizing i with
  | zero => rw [shiftDown, if_neg (by omega)]
  | succ n ih =>
      rw [shiftDown]
      by_cases hlast : i = n
      · rw [hlast, Function.update_self, ih, if_neg (by omega), if_pos (by omega)]
      · rw [Function.update_of_ne hlast, ih]
        by_cases hin : i < n
        · rw [if_pos hin, if_pos (by omega)]
        · rw [if_neg hin, if_neg (by omega)]

/-- Each entry of a list is changed once. -/
theorem foldl_change {ι : Type} [DecidableEq ι] {l : List ι} (hl : l.Nodup) (f : α → α) (a : ι → α)
    (i : ι) :
    l.foldl (fun a i => Function.update a i (f (a i))) a i = if i ∈ l then f (a i) else a i := by
  induction l generalizing a with
  | nil => rfl
  | cons j l ih =>
      obtain ⟨hj, hl⟩ := List.nodup_cons.mp hl
      rw [List.foldl_cons, ih hl]
      by_cases hi : i = j
      · rw [hi, if_neg hj, if_pos List.mem_cons_self, Function.update_self]
      · rw [Function.update_of_ne hi]
        simp [hi]

end Infernum.Lib
