import Mathlib.Tactic.Common

/-!
# Scales of marks

A position on a scale rises from one mark to the next as far as its points reach, and falls
back while it has too few. Whoever rises and then has the old points again falls back to
where they were.
-/

namespace Infernum.Lib

variable {L : Type}

structure Scale (L : Type) where
  succ : L → L
  mark : L → Nat

namespace Scale

variable (s : Scale L)

/-- The next mark is above this one. -/
def Open (l : L) : Prop := s.mark l < s.mark (s.succ l)

instance (l : L) : Decidable (s.Open l) := inferInstanceAs (Decidable (_ < _))

/-- The points lie between this mark and the next. -/
structure Within (l : L) (points : Nat) : Prop where
  ge : s.mark l ≤ points
  lt : points < s.mark (s.succ l)

/-- With these points the position rises by `n` marks. -/
inductive Rises (points : Nat) : L → Nat → L → Prop
  | here (l : L) : Rises points l 0 l
  | up {l l' : L} {n : Nat} (hopen : s.Open l) (hle : s.mark (s.succ l) ≤ points)
      (h : Rises points (s.succ l) n l') : Rises points l (n + 1) l'

/-- With these points the position falls by `n` marks. -/
inductive Falls (points : Nat) : L → Nat → L → Prop
  | here (l : L) : Falls points l 0 l
  | down {l l' : L} {n : Nat} (hlt : points < s.mark (s.succ l)) (h : Falls points l n l') :
      Falls points (s.succ l) (n + 1) l'

variable {s}

theorem Within.open {l : L} {points : Nat} (h : s.Within l points) : s.Open l :=
  Nat.lt_of_le_of_lt h.ge h.lt

theorem Rises.mark_le {points : Nat} {l l' : L} {n : Nat} (h : s.Rises points l n l')
    (hle : s.mark l ≤ points) : s.mark l' ≤ points := by
  induction h with
  | here => exact hle
  | up _ hnext _ ih => exact ih hnext

theorem Rises.take {points : Nat} {l l' : L} {n m : Nat} (h : s.Rises points l n l')
    (hm : m ≤ n) : ∃ k, s.Rises points l m k := by
  induction h generalizing m with
  | here l =>
    obtain rfl := Nat.le_zero.mp hm
    exact ⟨l, .here l⟩
  | @up l _ _ hopen hle _ ih =>
    cases m with
    | zero => exact ⟨l, .here l⟩
    | succ m =>
      obtain ⟨k, hk⟩ := ih (Nat.le_of_succ_le_succ hm)
      exact ⟨k, .up hopen hle hk⟩

theorem Falls.snoc {points : Nat} {l k : L} {n : Nat} (h : s.Falls points l n (s.succ k))
    (hlt : points < s.mark (s.succ k)) : s.Falls points l (n + 1) k := by
  generalize hm : s.succ k = m at h
  induction h with
  | here =>
    subst hm
    exact .down hlt (.here k)
  | down hlt' _ ih => exact .down hlt' (ih hm)

/-- Without the points for the next mark the position falls back all it has risen. -/
theorem Rises.falls {points old : Nat} {l l' : L} {n : Nat} (h : s.Rises points l n l')
    (hlt : old < s.mark (s.succ l)) : s.Falls old l' n l := by
  induction h with
  | here => exact .here _
  | up hopen _ hrest ih =>
    refine Falls.snoc ?_ hlt
    cases hrest with
    | here => exact .here _
    | up hopen' _ _ => exact ih (Nat.lt_trans hlt hopen')

theorem Falls.lt_mark {points : Nat} {l l' : L} {n : Nat} (h : s.Falls points l n l')
    (hlt : points < s.mark (s.succ l)) : points < s.mark (s.succ l') := by
  induction h with
  | here => exact hlt
  | down hlt' _ ih => exact ih hlt'

/-- The mark above the one where a fall ends is not reached. -/
theorem Falls.lt_mark_of_pos {points : Nat} {l l' : L} {n : Nat} (h : s.Falls points l n l')
    (hpos : 0 < n) : points < s.mark (s.succ l') := by
  cases h with
  | here => exact absurd hpos (Nat.lt_irrefl 0)
  | down hlt hrest => exact hrest.lt_mark hlt

/-- There is one fall that ends where the points are enough. -/
theorem Falls.unique (hinj : ∀ k k', s.succ k = s.succ k' → k = k') {points : Nat} {l k k' : L}
    {n m : Nat} (h : s.Falls points l n k) (h' : s.Falls points l m k')
    (hk : s.mark k ≤ points) (hk' : s.mark k' ≤ points) : n = m ∧ k = k' := by
  induction h generalizing m with
  | here =>
    cases h' with
    | here => exact ⟨rfl, rfl⟩
    | down hlt _ => exact absurd hlt (Nat.not_lt.mpr hk)
  | @down j _ n hlt _ ih =>
    generalize hj : s.succ j = i at h'
    cases h' with
    | here =>
      subst hj
      exact absurd hlt (Nat.not_lt.mpr hk')
    | down hlt' hrest =>
      obtain rfl := hinj _ _ hj
      obtain ⟨rfl, rfl⟩ := ih hrest hk
      exact ⟨rfl, rfl⟩

end Scale

end Infernum.Lib
