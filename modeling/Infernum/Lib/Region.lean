import Mathlib.Tactic.Common
import Mathlib.Data.List.Basic

/-!
# Arrays of a fixed size

An array of `n` cells that is written in place. A write that would pass its
end has no result, so a function that never fails never leaves the array. What
lies between two places is a `slice`, and the lemmas say how a write shows in
one: over it, before it, behind it, or next to it.

The second part is about work done in place on one block of cells after
another (`mapBlocks`).
-/

namespace Infernum.Lib

/-- An array of `n` cells. -/
structure Region (α : Type*) (n : Nat) where
  cells : List α
  size : cells.length = n

namespace Region

variable {α : Type*} {n : Nat}

/-- The `len` cells from `start` on. -/
def slice (r : Region α n) (start len : Nat) : List α := (r.cells.drop start).take len

/-- The `len` cells from `start` on, if the array has them. -/
def read (r : Region α n) (start len : Nat) : Option (List α) :=
  if start + len ≤ n then some (r.slice start len) else none

/-- Write `data` from `start` on, if it ends within the array. -/
def write (r : Region α n) (start : Nat) (data : List α) : Option (Region α n) :=
  if h : start + data.length ≤ n then
    some
      { cells := r.cells.take start ++ (data ++ r.cells.drop (start + data.length))
        size := by
          have hsize := r.size
          simp only [List.length_append, List.length_take, List.length_drop]
          omega }
  else none

theorem read_of_le {r : Region α n} {start len : Nat} (h : start + len ≤ n) :
    r.read start len = some (r.slice start len) := if_pos h

theorem length_slice {r : Region α n} {start len : Nat} (h : start + len ≤ n) :
    (r.slice start len).length = len := by
  have hsize := r.size
  rw [slice, List.length_take, List.length_drop]
  omega

@[simp] theorem slice_zero (r : Region α n) (start : Nat) : r.slice start 0 = [] :=
  List.take_zero

theorem slice_add (r : Region α n) (start k len : Nat) :
    r.slice start (k + len) = r.slice start k ++ r.slice (start + k) len := by
  rw [slice, slice, slice, List.take_add, List.drop_drop]

/-- A slice that is known in two parts is known part by part. -/
theorem slice_parts {r : Region α n} {start k len : Nat} {xs ys : List α}
    (h : r.slice start (k + len) = xs ++ ys) (hxs : xs.length = k) (hle : start + k ≤ n) :
    r.slice start k = xs ∧ r.slice (start + k) len = ys := by
  rw [slice_add] at h
  exact List.append_inj h (by rw [length_slice hle, hxs])

/-- A write that stays inside the array succeeds, and only such a one. -/
theorem write_of_le (r : Region α n) (start : Nat) (data : List α)
    (h : start + data.length ≤ n) :
    ∃ r', r.write start data = some r' ∧
      r'.cells = r.cells.take start ++ (data ++ r.cells.drop (start + data.length)) :=
  ⟨_, dif_pos h, rfl⟩

theorem le_of_write {r r' : Region α n} {start : Nat} {data : List α}
    (h : r.write start data = some r') : start + data.length ≤ n := by
  by_contra hle
  rw [write, dif_neg hle] at h
  cases h

theorem cells_of_write {r r' : Region α n} {start : Nat} {data : List α}
    (h : r.write start data = some r') :
    r'.cells = r.cells.take start ++ (data ++ r.cells.drop (start + data.length)) := by
  obtain ⟨w, hw, hcells⟩ := write_of_le r start data (le_of_write h)
  rw [h, Option.some.injEq] at hw
  rw [hw, hcells]

/-- What was written is what is read there. -/
theorem slice_write {r r' : Region α n} {start : Nat} {data : List α}
    (h : r.write start data = some r') : r'.slice start data.length = data := by
  have hle := le_of_write h
  have hlen : (r.cells.take start).length = start := by
    rw [List.length_take, r.size]
    omega
  rw [slice, cells_of_write h, List.drop_append_of_le_length (Nat.le_of_eq hlen.symm),
    List.drop_of_length_le (Nat.le_of_eq hlen), List.nil_append, List.take_left]

theorem slice_write_before {r r' : Region α n} {start : Nat} {data : List α}
    (h : r.write start data = some r') {k len : Nat} (hk : k + len ≤ start) :
    r'.slice k len = r.slice k len := by
  have hle := le_of_write h
  have hlen : (r.cells.take start).length = start := by
    rw [List.length_take, r.size]
    omega
  rw [slice, slice, cells_of_write h, List.drop_append_of_le_length (by omega),
    List.take_append_of_le_length (by rw [List.length_drop]; omega), List.drop_take,
    List.take_take, Nat.min_eq_left (by omega)]

theorem slice_write_after {r r' : Region α n} {start : Nat} {data : List α}
    (h : r.write start data = some r') {k len : Nat} (hk : start + data.length ≤ k) :
    r'.slice k len = r.slice k len := by
  have hle := le_of_write h
  have hlen : (r.cells.take start ++ data).length = start + data.length := by
    rw [List.length_append, List.length_take, r.size]
    omega
  have hdrop : r'.cells.drop k = r.cells.drop k := by
    rw [cells_of_write h, ← List.append_assoc, List.drop_append, hlen,
      List.drop_of_length_le (by omega), List.nil_append, List.drop_drop]
    congr 1
    omega
  rw [slice, slice, hdrop]

/-- A cell after a write: the new value, or what it was. -/
theorem getElem?_write {r r' : Region α n} {start : Nat} {data : List α}
    (h : r.write start data = some r') (i : Nat) :
    r'.cells[i]? =
      if start ≤ i ∧ i < start + data.length then data[i - start]? else r.cells[i]? := by
  have hle := le_of_write h
  have hlen : (r.cells.take start).length = start := by
    rw [List.length_take, r.size]
    omega
  rw [cells_of_write h, List.getElem?_append, hlen]
  by_cases hbefore : i < start
  · rw [if_pos hbefore, if_neg (by omega), List.getElem?_take, if_pos hbefore]
  · rw [if_neg hbefore, List.getElem?_append]
    by_cases hinside : i < start + data.length
    · rw [if_pos (by omega), if_pos (by omega)]
    · rw [if_neg (by omega), if_neg (by omega), List.getElem?_drop]
      congr 1
      omega

/-- Writing behind a slice makes it longer. -/
theorem slice_write_behind {r r' : Region α n} {start len : Nat} {data : List α}
    (h : r.write (start + len) data = some r') :
    r'.slice start (len + data.length) = r.slice start len ++ data := by
  rw [slice_add, slice_write h, slice_write_before h (Nat.le_refl _)]

/-- Writing in front of a slice makes it longer. -/
theorem slice_write_front {r r' : Region α n} {start : Nat} {data : List α}
    (h : r.write start data = some r') (len : Nat) :
    r'.slice start (data.length + len) = data ++ r.slice (start + data.length) len := by
  rw [slice_add, slice_write h, slice_write_after h (Nat.le_refl _)]

end Region

/-! ### One block after another -/

section Blocks

variable {α : Type*} {n : Nat} {f g : List α → List α}

/-- `f` on each of the first `count` blocks of `n` elements. -/
def mapBlocks (n : Nat) (f : List α → List α) : Nat → List α → List α
  | 0, xs => xs
  | count + 1, xs => f (xs.take n) ++ mapBlocks n f count (xs.drop n)

theorem length_mapBlocks (hf : ∀ xs : List α, xs.length = n → (f xs).length = n) :
    ∀ (count : Nat) (xs : List α), count * n ≤ xs.length →
      (mapBlocks n f count xs).length = xs.length := by
  intro count
  induction count with
  | zero => intro xs _; rfl
  | succ count ih =>
      intro xs h
      have hmul : (count + 1) * n = count * n + n := Nat.succ_mul count n
      have htake : (xs.take n).length = n := by
        rw [List.length_take]
        omega
      rw [mapBlocks, List.length_append, hf _ htake,
        ih _ (by rw [List.length_drop]; omega), List.length_drop]
      omega

/-- What is behind the last block stays. -/
theorem mapBlocks_append (ys : List α) :
    ∀ (count : Nat) (xs : List α), xs.length = count * n →
      mapBlocks n f count (xs ++ ys) = mapBlocks n f count xs ++ ys := by
  intro count
  induction count with
  | zero => intro xs _; rfl
  | succ count ih =>
      intro xs h
      have hmul : (count + 1) * n = count * n + n := Nat.succ_mul count n
      rw [mapBlocks, mapBlocks, List.take_append_of_le_length (by omega),
        List.drop_append_of_le_length (by omega), ih _ (by rw [List.length_drop]; omega),
        List.append_assoc]

/-- Undoing every block undoes the whole. -/
theorem mapBlocks_leftInverse (hf : ∀ xs : List α, xs.length = n → (f xs).length = n)
    (hg : ∀ xs : List α, xs.length = n → g (f xs) = xs) :
    ∀ (count : Nat) (xs : List α), count * n ≤ xs.length →
      mapBlocks n g count (mapBlocks n f count xs) = xs := by
  intro count
  induction count with
  | zero => intro xs _; rfl
  | succ count ih =>
      intro xs h
      have hmul : (count + 1) * n = count * n + n := Nat.succ_mul count n
      have htake : (xs.take n).length = n := by
        rw [List.length_take]
        omega
      have hlen := hf _ htake
      have hhead : (f (xs.take n) ++ mapBlocks n f count (xs.drop n)).take n = f (xs.take n) := by
        rw [List.take_append_of_le_length (Nat.le_of_eq hlen.symm), List.take_of_length_le (Nat.le_of_eq hlen)]
      have htail : (f (xs.take n) ++ mapBlocks n f count (xs.drop n)).drop n
          = mapBlocks n f count (xs.drop n) := by
        rw [List.drop_append_of_le_length (Nat.le_of_eq hlen.symm),
          List.drop_of_length_le (Nat.le_of_eq hlen), List.nil_append]
      rw [mapBlocks, mapBlocks, hhead, htail, hg _ htake,
        ih _ (by rw [List.length_drop]; omega), List.take_append_drop]

end Blocks

end Infernum.Lib
