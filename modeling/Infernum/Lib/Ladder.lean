import Mathlib.Tactic.Common

/-!
# Ladders of levels

Every level of a ladder has a requirement, and the level after it is reached by spending
the next requirement. The ladder is open at a level as long as the next requirement is
higher; where it is not, the top is reached and what is left is dropped.
-/

namespace Infernum.Lib

variable {L : Type}

structure Ladder (L : Type) where
  succ : L → L
  req : L → Nat

namespace Ladder

variable (s : Ladder L)

def Open (l : L) : Prop := s.req l < s.req (s.succ l)

instance (l : L) : Decidable (s.Open l) := inferInstanceAs (Decidable (_ < _))

/-- Climbs from a level with `t` to spend: the level that is reached, and what is left. -/
def climb (l : L) (t : Nat) : L × Nat :=
  if _h : s.Open l ∧ s.req (s.succ l) ≤ t then
    if s.Open (s.succ l) then climb (s.succ l) (t - s.req (s.succ l)) else (s.succ l, 0)
  else (l, t)
termination_by t
decreasing_by
  have hopen : s.req l < s.req (s.succ l) := _h.1
  omega

/-- The levels whose requirements are looked at on the way: the one that is left and the
next one, at every step. -/
inductive Looked : L → Nat → L → Prop
  | here (l : L) (t : Nat) : Looked l t l
  | next (l : L) (t : Nat) : Looked l t (s.succ l)
  | up {l : L} {t : Nat} {k : L} (hopen : s.Open l) (hle : s.req (s.succ l) ≤ t)
      (h : Looked (s.succ l) (t - s.req (s.succ l)) k) : Looked l t k

variable {s}

theorem climb_stay {l : L} {t : Nat} (h : t < s.req (s.succ l)) : s.climb l t = (l, t) := by
  rw [climb, dif_neg (by omega)]

theorem climb_up {l : L} {t : Nat} (hopen : s.Open l) (hle : s.req (s.succ l) ≤ t)
    (hnext : s.Open (s.succ l)) :
    s.climb l t = s.climb (s.succ l) (t - s.req (s.succ l)) := by
  rw [climb, dif_pos ⟨hopen, hle⟩, if_pos hnext]

theorem climb_top {l : L} {t : Nat} (hopen : s.Open l) (hle : s.req (s.succ l) ≤ t)
    (hnext : ¬s.Open (s.succ l)) : s.climb l t = (s.succ l, 0) := by
  rw [climb, dif_pos ⟨hopen, hle⟩, if_neg hnext]

/-- Induction along a climb, from a level at which the ladder is open. -/
theorem climb_induct {motive : (l : L) → Nat → s.Open l → Prop}
    (stay : ∀ l t hopen, t < s.req (s.succ l) → motive l t hopen)
    (top : ∀ l t hopen, s.req (s.succ l) ≤ t → ¬s.Open (s.succ l) → motive l t hopen)
    (up : ∀ l t hopen, s.req (s.succ l) ≤ t → (hnext : s.Open (s.succ l)) →
      motive (s.succ l) (t - s.req (s.succ l)) hnext → motive l t hopen)
    (l : L) (t : Nat) (hopen : s.Open l) : motive l t hopen := by
  induction t using Nat.strongRecOn generalizing l with
  | ind t ih =>
    by_cases hle : s.req (s.succ l) ≤ t
    · by_cases hnext : s.Open (s.succ l)
      · refine up l t hopen hle hnext (ih _ ?_ _ hnext)
        have : s.req l < s.req (s.succ l) := hopen
        omega
      · exact top l t hopen hle hnext
    · exact stay l t hopen (by omega)

/-- Less is left than the next level needs, or nothing at the top. -/
theorem climb_lt {l : L} {t : Nat} (hopen : s.Open l) :
    (s.Open (s.climb l t).1 ∧ (s.climb l t).2 < s.req (s.succ (s.climb l t).1)) ∨
      (¬s.Open (s.climb l t).1 ∧ (s.climb l t).2 = 0) := by
  induction l, t, hopen using climb_induct with
  | stay l t hopen hlt =>
    rw [climb_stay hlt]
    exact .inl ⟨hopen, hlt⟩
  | top l t hopen hle hnext =>
    rw [climb_top hopen hle hnext]
    exact .inr ⟨hnext, rfl⟩
  | up l t hopen hle hnext ih =>
    rw [climb_up hopen hle hnext]
    exact ih

theorem climb_le {l : L} {t : Nat} (hopen : s.Open l) : (s.climb l t).2 ≤ t := by
  induction l, t, hopen using climb_induct with
  | stay l t hopen hlt => exact Nat.le_of_eq (congrArg Prod.snd (climb_stay hlt))
  | top l t hopen hle hnext =>
    rw [climb_top hopen hle hnext]
    exact Nat.zero_le t
  | up l t hopen hle hnext ih =>
    rw [climb_up hopen hle hnext]
    exact Nat.le_trans ih (Nat.sub_le _ _)

/-- A climb that leaves its level ends at one with a higher requirement. -/
theorem req_lt_climb {l : L} {t : Nat} (hopen : s.Open l) (hle : s.req (s.succ l) ≤ t) :
    s.req l < s.req (s.climb l t).1 := by
  induction l, t, hopen using climb_induct with
  | stay l t hopen hlt => omega
  | top l t hopen _ hnext =>
    rw [climb_top hopen hle hnext]
    exact hopen
  | up l t hopen _ hnext ih =>
    rw [climb_up hopen hle hnext]
    have hlt : s.req l < s.req (s.succ l) := hopen
    by_cases hgo : s.req (s.succ (s.succ l)) ≤ t - s.req (s.succ l)
    · exact Nat.lt_trans hlt (ih hgo)
    · rw [climb_stay (by omega)]
      exact hlt

/-- A climb may be broken off and taken up again, until the top is reached. -/
theorem climb_add {l : L} {t : Nat} (hopen : s.Open l) (b : Nat) :
    s.climb l (t + b) =
      if s.Open (s.climb l t).1 then s.climb (s.climb l t).1 ((s.climb l t).2 + b)
      else s.climb l t := by
  induction l, t, hopen using climb_induct with
  | stay l t hopen hlt =>
    rw [climb_stay hlt, if_pos hopen]
  | top l t hopen hle hnext =>
    rw [climb_top hopen hle hnext, if_neg hnext, climb_top hopen (by omega) hnext]
  | up l t hopen hle hnext ih =>
    rw [climb_up hopen hle hnext, ← ih, climb_up hopen (by omega) hnext,
      Nat.sub_add_comm hle]

theorem Looked.mono {l k : L} {t : Nat} (h : s.Looked l t k) (b : Nat) :
    s.Looked l (t + b) k := by
  induction h with
  | here l t => exact .here l _
  | next l t => exact .next l _
  | @up l t k hopen hle _ ih =>
    refine .up hopen (by omega) ?_
    rwa [Nat.sub_add_comm hle]

/-- The level that is reached is looked at, and the next one. -/
theorem Looked.last {l : L} {t : Nat} (hopen : s.Open l) :
    s.Looked l t (s.climb l t).1 ∧ s.Looked l t (s.succ (s.climb l t).1) := by
  induction l, t, hopen using climb_induct with
  | stay l t hopen hlt =>
    rw [climb_stay hlt]
    exact ⟨.here l t, .next l t⟩
  | top l t hopen hle hnext =>
    rw [climb_top hopen hle hnext]
    exact ⟨.next l t, .up hopen hle (.next _ _)⟩
  | up l t hopen hle hnext ih =>
    rw [climb_up hopen hle hnext]
    exact ⟨.up hopen hle ih.1, .up hopen hle ih.2⟩

/-- What is looked at after a break is looked at without it. -/
theorem Looked.of_climb {l : L} {t b : Nat} (hopen : s.Open l) {k : L}
    (h : s.Looked (s.climb l t).1 ((s.climb l t).2 + b) k) : s.Looked l (t + b) k := by
  induction l, t, hopen using climb_induct with
  | stay l t hopen hlt =>
    rwa [climb_stay hlt] at h
  | top l t hopen hle hnext =>
    rw [climb_top hopen hle hnext] at h
    refine .up hopen (by omega) ?_
    cases h with
    | here => exact .here _ _
    | next => exact .next _ _
    | up hopen' => exact absurd hopen' hnext
  | up l t hopen hle hnext ih =>
    rw [climb_up hopen hle hnext] at h
    refine .up hopen (by omega) ?_
    rw [Nat.sub_add_comm hle]
    exact ih h

end Ladder

end Infernum.Lib
