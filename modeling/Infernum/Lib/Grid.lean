import Mathlib.Tactic.Common

/-!
# Grids and writes

A grid is a two-dimensional array without bounds; a write that misses the bounds it is
given has no meaning. Writes that agree wherever they meet can be read off the grid
afterwards, in whatever order they were made.
-/

namespace Infernum.Lib

variable {α : Type}

/-- What is stored in a row and a column. -/
abbrev Grid (α : Type) := Nat → Nat → α

/-- `grid[row][col] = value` -/
structure Write (α : Type) where
  row : Nat
  col : Nat
  value : α
  deriving DecidableEq, Repr

namespace Write

/-- The write hits a grid of this size. -/
def Inside (rows cols : Nat) (w : Write α) : Prop := w.row < rows ∧ w.col < cols

instance (rows cols : Nat) (w : Write α) : Decidable (w.Inside rows cols) :=
  inferInstanceAs (Decidable (_ ∧ _))

def apply (w : Write α) (g : Grid α) : Grid α :=
  fun r c => if r = w.row ∧ c = w.col then w.value else g r c

end Write

/-- Write after write, unless one is not inside. -/
def writeAll (rows cols : Nat) : List (Write α) → Grid α → Option (Grid α)
  | [], g => some g
  | w :: ws, g => if w.Inside rows cols then writeAll rows cols ws (w.apply g) else none

variable {rows cols : Nat}

theorem writeAll_eq_none {ws : List (Write α)} {w : Write α} (hw : w ∈ ws)
    (hout : ¬w.Inside rows cols) (g : Grid α) : writeAll rows cols ws g = none := by
  induction ws generalizing g with
  | nil => cases hw
  | cons w' ws ih =>
      rw [writeAll]
      split
      · next hin =>
        rcases List.mem_cons.mp hw with rfl | hw
        · exact absurd hin hout
        · exact ih hw _
      · rfl

/-- Writes that agree where they meet. -/
def Agree (ws : List (Write α)) : Prop :=
  ∀ w ∈ ws, ∀ w' ∈ ws, w.row = w'.row → w.col = w'.col → w.value = w'.value

theorem writeAll_of_inside {ws : List (Write α)} (hin : ∀ w ∈ ws, w.Inside rows cols)
    (hagree : Agree ws) (g : Grid α) :
    ∃ g', writeAll rows cols ws g = some g' ∧ (∀ w ∈ ws, g' w.row w.col = w.value) ∧
      ∀ r c, (∀ w ∈ ws, ¬(w.row = r ∧ w.col = c)) → g' r c = g r c := by
  induction ws generalizing g with
  | nil => exact ⟨g, rfl, by simp, fun _ _ _ => rfl⟩
  | cons w ws ih =>
      have hrest : Agree ws := fun a ha b hb =>
        hagree a (List.mem_cons_of_mem _ ha) b (List.mem_cons_of_mem _ hb)
      obtain ⟨g', hwrite, hhit, hmiss⟩ :=
        ih (fun w' hw' => hin w' (List.mem_cons_of_mem _ hw')) hrest (w.apply g)
      refine ⟨g', ?_, ?_, ?_⟩
      · rw [writeAll, if_pos (hin w List.mem_cons_self), hwrite]
      · intro w' hw'
        rcases List.mem_cons.mp hw' with rfl | hw'
        · -- a later write to the same place has the same value
          by_cases hlater : ∃ w ∈ ws, w.row = w'.row ∧ w.col = w'.col
          · obtain ⟨w, hw, hrow, hcol⟩ := hlater
            rw [← hrow, ← hcol, hhit w hw]
            exact hagree w (List.mem_cons_of_mem _ hw) w' List.mem_cons_self hrow hcol
          · rw [hmiss _ _ fun w hw h => hlater ⟨w, hw, h⟩]
            simp [Write.apply]
        · exact hhit w' hw'
      · intro r c hno
        rw [hmiss r c fun w' hw' => hno w' (List.mem_cons_of_mem _ hw')]
        have hw := hno w List.mem_cons_self
        rw [Write.apply, if_neg fun h => hw ⟨h.1.symm, h.2.symm⟩]

/-- On a blank grid only what has been written is set. -/
theorem writeAll_blank {ws : List (Write Bool)} (hin : ∀ w ∈ ws, w.Inside rows cols)
    (hagree : Agree ws) :
    ∃ g, writeAll rows cols ws (fun _ _ => false) = some g ∧
      ∀ r c, g r c = true ↔ ∃ w ∈ ws, w.row = r ∧ w.col = c ∧ w.value = true := by
  obtain ⟨g, hwrite, hhit, hmiss⟩ := writeAll_of_inside hin hagree fun _ _ => false
  refine ⟨g, hwrite, fun r c => ⟨fun hset => ?_, ?_⟩⟩
  · by_contra hno
    by_cases hsome : ∃ w ∈ ws, w.row = r ∧ w.col = c
    · obtain ⟨w, hw, rfl, rfl⟩ := hsome
      rw [hhit w hw] at hset
      exact hno ⟨w, hw, rfl, rfl, hset⟩
    · rw [hmiss r c fun w hw h => hsome ⟨w, hw, h⟩] at hset
      cases hset
  · rintro ⟨w, hw, rfl, rfl, hset⟩
    rw [hhit w hw, hset]

end Infernum.Lib
