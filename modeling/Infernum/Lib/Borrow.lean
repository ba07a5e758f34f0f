import Mathlib.Algebra.BigOperators.Intervals
import Mathlib.Algebra.Order.BigOperators.Group.Finset

/-!
# Paying from levels

Someone at a level has spent the requirement of every level above a bottom, and has
something on top. What is lost is paid from the top first, then level by level from the
requirements.
-/

namespace Infernum.Lib

open Finset

variable {req : Nat → Nat} {b l t lost l' d : Nat}

/-- All that was spent above the bottom `b`. -/
def totalSpent (req : Nat → Nat) (b l t : Nat) : Nat := ∑ k ∈ Ioc b l, req k + t

/-- Paying `lost` from the level `l` with `t` on top ends at the level `l'` with `d` on
top. -/
structure Lands (req : Nat → Nat) (b l t lost l' d : Nat) : Prop where
  le : l' ≤ l
  paid : d + lost = ∑ k ∈ Ioc l' l, req k + t
  least : l' = l ∨ (b ≤ l' ∧ d < req (l' + 1))

theorem sum_Ioc_split {m : Nat} (h₁ : b ≤ m) (h₂ : m ≤ l) :
    ∑ k ∈ Ioc b l, req k = ∑ k ∈ Ioc b m, req k + ∑ k ∈ Ioc m l, req k :=
  (sum_Ioc_consecutive req h₁ h₂).symm

theorem totalSpent_succ (h : b ≤ l) :
    totalSpent req b (l + 1) t = totalSpent req b l (req (l + 1)) + t := by
  rw [totalSpent, totalSpent, sum_Ioc_split h (Nat.le_succ l), Nat.Ioc_succ_singleton,
    sum_singleton]

theorem totalSpent_bottom (h : l ≤ b) : totalSpent req b l t = t := by
  rw [totalSpent, Ioc_eq_empty_of_le h, sum_empty, Nat.zero_add]

namespace Lands

theorem here (h : lost ≤ t) : Lands req b l t lost l (t - lost) where
  le := Nat.le_refl l
  paid := by
    rw [Ioc_self, sum_empty]
    omega
  least := .inl rfl

/-- What is on top does not suffice: a level is given up for its requirement. -/
theorem step (hlt : t < lost) (hb : b ≤ l) (h : Lands req b l (req (l + 1)) (lost - t) l' d) :
    Lands req b (l + 1) t lost l' d where
  le := Nat.le_succ_of_le h.le
  paid := by
    have hpaid := h.paid
    rw [sum_Ioc_split h.le (Nat.le_succ l), Nat.Ioc_succ_singleton, sum_singleton]
    omega
  least := by
    rcases h.least with rfl | hleast
    · have hpaid := h.paid
      rw [Ioc_self, sum_empty] at hpaid
      exact .inr ⟨hb, by omega⟩
    · exact .inr hleast

/-- Paying balances. -/
theorem total (h : Lands req b l t lost l' d) :
    totalSpent req b l' d + lost = totalSpent req b l t := by
  have hpaid := h.paid
  unfold totalSpent
  rcases h.least with rfl | ⟨hb, _⟩
  · rw [Ioc_self, sum_empty] at hpaid
    omega
  · rw [sum_Ioc_split hb h.le]
    omega

/-- Two ways to pay end at the same level: the higher of two ends would pay too. -/
theorem level_le {l'' d' : Nat} (h : Lands req b l t lost l' d)
    (h' : Lands req b l t lost l'' d') : l'' ≤ l' := by
  by_contra hlt
  rcases h.least with rfl | ⟨_, hleast⟩
  · exact hlt h'.le
  · have hpaid := h.paid
    have hpaid' := h'.paid
    rw [sum_Ioc_split (b := l') (m := l'') (by omega) h'.le,
      sum_Ioc_split (b := l') (m := l' + 1) (l := l'') (by omega) (by omega),
      Nat.Ioc_succ_singleton, sum_singleton] at hpaid
    omega

theorem unique {l'' d' : Nat} (h : Lands req b l t lost l' d)
    (h' : Lands req b l t lost l'' d') : l'' = l' ∧ d' = d := by
  have hlevel : l'' = l' := Nat.le_antisymm (h.level_le h') (h'.level_le h)
  subst hlevel
  have hpaid := h.paid
  have hpaid' := h'.paid
  exact ⟨rfl, by omega⟩

/-- Only the requirements of the levels that are given up count. -/
theorem congr {req' : Nat → Nat} (h : Lands req b l t lost l' d)
    (heq : ∀ k, l' < k → k ≤ l → req' k = req k) : Lands req' b l t lost l' d where
  le := h.le
  paid := by
    rw [h.paid]
    congr 1
    refine sum_congr rfl fun k hk => ?_
    obtain ⟨hlo, hhi⟩ := mem_Ioc.mp hk
    exact (heq k hlo hhi).symm
  least := by
    rcases h.least with hl | ⟨hb, hleast⟩
    · exact .inl hl
    · have hle := h.le
      by_cases htop : l' = l
      · exact .inl htop
      · rw [heq (l' + 1) (by omega) (by omega)]
        exact .inr ⟨hb, hleast⟩

end Lands

theorem totalSpent_mono {req' : Nat → Nat} (h : ∀ k, b < k → k ≤ l → req' k ≤ req k) :
    totalSpent req' b l t ≤ totalSpent req b l t := by
  refine Nat.add_le_add_right (sum_le_sum fun k hk => ?_) t
  obtain ⟨hlo, hhi⟩ := mem_Ioc.mp hk
  exact h k hlo hhi

theorem req_eq_of_totalSpent {req' : Nat → Nat} (hle : ∀ k, b < k → k ≤ l → req' k ≤ req k)
    (h : totalSpent req' b l t = totalSpent req b l t) {k : Nat} (hlo : b < k) (hhi : k ≤ l) :
    req' k = req k := by
  have hsum : ∑ k ∈ Ioc b l, req' k = ∑ k ∈ Ioc b l, req k := Nat.add_right_cancel h
  refine (sum_eq_sum_iff_of_le fun k hk => ?_).mp hsum k (mem_Ioc.mpr ⟨hlo, hhi⟩)
  obtain ⟨hlo, hhi⟩ := mem_Ioc.mp hk
  exact hle k hlo hhi

/-- Paid by lower requirements `req'`, the account of `req` balances exactly if on the
levels that are given up the requirements are the same, and nothing is lost on top. -/
theorem Lands.total_iff {req' : Nat → Nat} {d' : Nat} (h : Lands req' b l t lost l' d)
    (hle : ∀ k, b < k → k ≤ l → req' k ≤ req k) (hd : d' ≤ d) :
    totalSpent req b l' d' + lost = totalSpent req b l t ↔
      d' = d ∧ ∀ k, l' < k → k ≤ l → req' k = req k := by
  have hpaid := h.paid
  unfold totalSpent
  rcases h.least with rfl | ⟨hb, _⟩
  · rw [Ioc_self, sum_empty] at hpaid
    constructor
    · intro heq
      exact ⟨by omega, fun k hlo hhi => by omega⟩
    · rintro ⟨rfl, _⟩
      omega
  · have hsum : ∑ k ∈ Ioc l' l, req' k ≤ ∑ k ∈ Ioc l' l, req k := by
      refine sum_le_sum fun k hk => ?_
      obtain ⟨hlo, hhi⟩ := mem_Ioc.mp hk
      exact hle k (by omega) hhi
    rw [sum_Ioc_split hb h.le]
    constructor
    · intro heq
      have hsame : ∑ k ∈ Ioc l' l, req' k = ∑ k ∈ Ioc l' l, req k := by omega
      refine ⟨by omega, fun k hlo hhi => ?_⟩
      refine (sum_eq_sum_iff_of_le fun k hk => ?_).mp hsame k (mem_Ioc.mpr ⟨hlo, hhi⟩)
      obtain ⟨hlo, hhi⟩ := mem_Ioc.mp hk
      exact hle k (by omega) hhi
    · rintro ⟨rfl, hsame⟩
      have hsame : ∑ k ∈ Ioc l' l, req' k = ∑ k ∈ Ioc l' l, req k := by
        refine sum_congr rfl fun k hk => ?_
        obtain ⟨hlo, hhi⟩ := mem_Ioc.mp hk
        exact hsame k hlo hhi
      omega

end Infernum.Lib
