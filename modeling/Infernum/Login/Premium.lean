import Mathlib.Tactic.Common
import Mathlib.Data.Int.Basic
import Mathlib.Algebra.Order.Ring.Nat
import Mathlib.Algebra.Order.Ring.Int

/-!
# Premium time

`Game::updatePremium` takes the whole days since the stamp off the premium days and moves
the stamp on by them. The days are an unsigned number: a clock that was set back by a day
gives some four thousand million of them.
-/

namespace Infernum.Premium

/-- What `updatePremium` reads and writes of `Account`. `lastDay` is a `time_t`. -/
structure Account where
  premiumDays : UInt16
  lastDay : Int
deriving DecidableEq, Repr

/-- `Game::updatePremium` when the clock shows `timeNow`, and whether it saves the account. -/
def updatePremium (account : Account) (timeNow : Int) : Account × Bool :=
  if account.premiumDays ≠ 0 ∧ account.premiumDays ≠ 65535 then
    if account.lastDay = 0 then ({ account with lastDay := timeNow }, true)
    else
      let days := UInt32.ofInt ((timeNow - account.lastDay).tdiv 86400)
      if days > 0 then
        if days ≥ account.premiumDays.toUInt32 then (⟨0, 0⟩, true)
        else
          let remainder := (timeNow - account.lastDay).tmod 86400
          (⟨account.premiumDays - days.toUInt16, timeNow - remainder⟩, true)
      else (account, false)
  else if account.lastDay ≠ 0 then ({ account with lastDay := 0 }, true)
  else (account, false)

namespace Account

/-- Finite premium days are left, and the stamp is set. -/
structure Counting (a : Account) : Prop where
  days : a.premiumDays ≠ 0
  finite : a.premiumDays ≠ 65535
  stamped : a.lastDay ≠ 0

/-- The whole days between the stamp and `t`. -/
def wholeDays (a : Account) (t : Int) : Int := (t - a.lastDay).tdiv 86400

/-- What is left of them in 32 bits. -/
def days (a : Account) (t : Int) : Nat := (a.wholeDays t % 2 ^ 32).toNat

end Account

open Account

theorem toNat_days (a : Account) (t : Int) :
    (UInt32.ofInt ((t - a.lastDay).tdiv 86400)).toNat = a.days t := by
  have hlt : ((t - a.lastDay).tdiv 86400 % 2 ^ 32).toNat < 2 ^ 32 := by omega
  show (UInt32.ofNat _).toNat = _
  rw [UInt32.toNat_ofNat', Nat.mod_eq_of_lt hlt]
  rfl

/-- Below the premium days nothing is cut off the days. -/
theorem toNat_sub_days {a : Account} {days : UInt32} (h : days.toNat < a.premiumDays.toNat) :
    (a.premiumDays - days.toUInt16).toNat = a.premiumDays.toNat - days.toNat := by
  have hlt : a.premiumDays.toNat < 2 ^ 16 := a.premiumDays.toNat_lt
  have hcut : days.toUInt16.toNat = days.toNat := by
    rw [UInt32.toNat_toUInt16]
    exact Nat.mod_eq_of_lt (by omega)
  rw [UInt16.toNat_sub_of_le _ _ (by rw [UInt16.le_iff_toNat_le]; omega), hcut]

/-- What a call does to an account that counts. -/
theorem updatePremium_cases {a : Account} (h : a.Counting) (t : Int) :
    (a.days t = 0 ∧ (updatePremium a t).1 = a) ∨
    (0 < a.days t ∧ a.premiumDays.toNat ≤ a.days t ∧ (updatePremium a t).1 = ⟨0, 0⟩) ∨
    (0 < a.days t ∧ a.days t < a.premiumDays.toNat ∧
      (updatePremium a t).1.premiumDays.toNat = a.premiumDays.toNat - a.days t ∧
      (updatePremium a t).1.lastDay = a.lastDay + 86400 * a.wholeDays t) := by
  have hdays := toNat_days a t
  have hback : (t - a.lastDay).tmod 86400 = t - a.lastDay - 86400 * a.wholeDays t := by
    have := Int.mul_tdiv_add_tmod (t - a.lastDay) 86400
    unfold wholeDays
    omega
  simp only [updatePremium, if_pos (And.intro h.days h.finite), if_neg h.stamped]
  split
  · next hpos =>
    have hpos' : 0 < a.days t := by
      rw [← hdays]
      exact UInt32.lt_iff_toNat_lt.mp hpos
    split
    · next hge =>
      have hge' := UInt32.le_iff_toNat_le.mp hge
      rw [hdays, UInt16.toNat_toUInt32] at hge'
      exact .inr (.inl ⟨hpos', hge', rfl⟩)
    · next hlt =>
      have hlt' : a.days t < a.premiumDays.toNat := by
        rw [ge_iff_le, UInt32.le_iff_toNat_le, hdays, UInt16.toNat_toUInt32] at hlt
        omega
      refine .inr (.inr ⟨hpos', hlt', ?_, ?_⟩)
      · rw [toNat_sub_days (by rw [hdays]; exact hlt'), hdays]
      · show t - (t - a.lastDay).tmod 86400 = _
        omega
  · next hpos =>
    refine .inl ⟨?_, rfl⟩
    rw [← hdays]
    have : ¬0 < (UInt32.ofInt ((t - a.lastDay).tdiv 86400)).toNat := fun h' =>
      hpos (UInt32.lt_iff_toNat_lt.mpr h')
    omega

/-! ## Two calls and one -/

theorem eq_iff {a b : Account} :
    a = b ↔ a.premiumDays.toNat = b.premiumDays.toNat ∧ a.lastDay = b.lastDay := by
  constructor
  · rintro rfl
    exact ⟨rfl, rfl⟩
  · rintro ⟨hdays, hstamp⟩
    cases a
    cases b
    rw [Account.mk.injEq]
    exact ⟨UInt16.toNat_inj.mp hdays, hstamp⟩

theorem Account.Counting.toNat {a : Account} (h : a.Counting) :
    0 < a.premiumDays.toNat ∧ a.premiumDays.toNat < 65535 := by
  have hlt : a.premiumDays.toNat < 2 ^ 16 := a.premiumDays.toNat_lt
  have hzero : a.premiumDays.toNat ≠ 0 := fun h0 => h.days (UInt16.toNat_inj.mp h0)
  have htop : a.premiumDays.toNat ≠ 65535 := fun h1 => h.finite (UInt16.toNat_inj.mp h1)
  omega

theorem counting_iff {a : Account} : a.Counting ↔
    0 < a.premiumDays.toNat ∧ a.premiumDays.toNat < 65535 ∧ a.lastDay ≠ 0 := by
  constructor
  · intro h
    exact ⟨h.toNat.1, h.toNat.2, h.stamped⟩
  · rintro ⟨hpos, hlt, hstamp⟩
    refine ⟨fun h0 => ?_, fun h1 => ?_, hstamp⟩
    · rw [h0] at hpos
      exact absurd hpos (by decide)
    · rw [h1] at hlt
      exact absurd hlt (by decide)

/-- From the stamp on the days are cut out of the difference from below. -/
theorem wholeDays_of_le {a : Account} {t : Int} (h : a.lastDay ≤ t) :
    0 ≤ a.wholeDays t ∧ 86400 * a.wholeDays t ≤ t - a.lastDay ∧
      t - a.lastDay < 86400 * a.wholeDays t + 86400 := by
  unfold wholeDays
  rw [Int.tdiv_eq_ediv_of_nonneg (by omega)]
  omega

/-- The days that a call counts lie in the days that a later call counts: nothing is due
at the first call, or both calls find the time expired, or the first call moves the stamp.
The moved stamp must not read as unset, and the 32 bits must not come round between the
calls. -/
def Account.CountsOnce (a : Account) (t₁ t₂ : Int) : Prop :=
  a.days t₁ = 0 ∨ (a.premiumDays.toNat ≤ a.days t₁ ∧ a.premiumDays.toNat ≤ a.days t₂) ∨
    (a.days t₁ < a.premiumDays.toNat ∧
      if a.lastDay + 86400 * a.wholeDays t₁ = 0
      then a.days t₂ = a.days t₁ ∧ a.lastDay + 86400 * a.wholeDays t₂ = t₂
      else a.wholeDays t₂ = a.wholeDays t₁ ∨ a.days t₁ < a.days t₂)

theorem updatePremium_expired (t : Int) : (updatePremium ⟨0, 0⟩ t).1 = ⟨0, 0⟩ := rfl

/-- An unset stamp is set. -/
theorem updatePremium_unset {a : Account} (hdays : 0 < a.premiumDays.toNat)
    (hfinite : a.premiumDays.toNat < 65535) (hstamp : a.lastDay = 0) (t : Int) :
    (updatePremium a t).1 = { a with lastDay := t } := by
  have hzero : a.premiumDays ≠ 0 := fun h => by simp [h] at hdays
  have htop : a.premiumDays ≠ 65535 := fun h => by simp [h] at hfinite
  rw [updatePremium, if_pos ⟨hzero, htop⟩, if_pos hstamp]

theorem updatePremium_twice {a : Account} (h : a.Counting) {t₁ t₂ : Int}
    (h₁ : a.lastDay ≤ t₁) (h₂ : t₁ ≤ t₂) :
    (updatePremium (updatePremium a t₁).1 t₂).1 = (updatePremium a t₂).1 ↔
      a.CountsOnce t₁ t₂ := by
  obtain ⟨hpos, hfinite⟩ := h.toNat
  have hw₁ := wholeDays_of_le h₁
  have hw₂ := wholeDays_of_le (Int.le_trans h₁ h₂)
  have honce := updatePremium_cases h t₂
  have hd₁ : a.days t₁ = (a.wholeDays t₁ % 2 ^ 32).toNat := rfl
  have hd₂ : a.days t₂ = (a.wholeDays t₂ % 2 ^ 32).toNat := rfl
  rcases updatePremium_cases h t₁ with ⟨hzero, heq⟩ | ⟨hd, hge, heq⟩ | ⟨hd, hlt, hdays, hstamp⟩
  · rw [heq]
    exact iff_of_true rfl (.inl hzero)
  · -- the first call finds the time expired
    rw [heq, updatePremium_expired, eq_comm, eq_iff, Account.CountsOnce]
    rcases honce with ⟨hzero, heq₂⟩ | ⟨_, hge₂, heq₂⟩ | ⟨_, hlt₂, hdays₂, _⟩
    · rw [heq₂]
      simp
      omega
    · rw [heq₂]
      simp
      omega
    · rw [hdays₂]
      simp
      omega
  · -- the first call moves the stamp
    set b := (updatePremium a t₁).1 with hb
    by_cases hunset : b.lastDay = 0
    · rw [updatePremium_unset (by omega) (by omega) hunset, eq_iff, Account.CountsOnce,
        if_pos (hstamp ▸ hunset)]
      rcases honce with ⟨hzero, heq₂⟩ | ⟨_, hge₂, heq₂⟩ | ⟨_, hlt₂, hdays₂, hstamp₂⟩
      · rw [heq₂]
        dsimp only
        omega
      · rw [heq₂]
        simp
        omega
      · rw [hdays₂, hstamp₂]
        dsimp only
        omega
    · have hcount : b.Counting := counting_iff.mpr ⟨by omega, by omega, hunset⟩
      have hwb := wholeDays_of_le (a := b) (t := t₂) (by omega)
      have hdb : b.days t₂ = (b.wholeDays t₂ % 2 ^ 32).toNat := rfl
      -- the days from the moved stamp are the days between the two calls
      have hbetween : b.wholeDays t₂ = a.wholeDays t₂ - a.wholeDays t₁ := by omega
      rw [eq_iff, Account.CountsOnce, if_neg (hstamp ▸ hunset)]
      rcases updatePremium_cases hcount t₂ with
          ⟨hzero', heq'⟩ | ⟨_, hge', heq'⟩ | ⟨_, hlt', hdays', hstamp'⟩ <;>
        rcases honce with ⟨hzero, heq₂⟩ | ⟨_, hge₂, heq₂⟩ | ⟨_, hlt₂, hdays₂, hstamp₂⟩
      · rw [heq', heq₂]
        omega
      · rw [heq', heq₂]
        simp
        omega
      · rw [heq', hdays₂, hstamp₂]
        omega
      · rw [heq', heq₂]
        simp
        omega
      · rw [heq', heq₂]
        simp
        omega
      · rw [heq', hdays₂, hstamp₂]
        simp
        omega
      · rw [hdays', hstamp', heq₂]
        omega
      · rw [hdays', hstamp', heq₂]
        simp
        omega
      · rw [hdays', hstamp', hdays₂, hstamp₂]
        omega

/-! ## Runs of calls -/

theorem countsOnce_of_lt {a : Account} (hset : 0 < a.lastDay) {t₁ t₂ : Int}
    (h₁ : a.lastDay ≤ t₁) (h₂ : t₁ ≤ t₂) (hshort : t₂ - a.lastDay < 86400 * 2 ^ 32) :
    a.CountsOnce t₁ t₂ := by
  have hw₁ := wholeDays_of_le h₁
  have hw₂ := wholeDays_of_le (Int.le_trans h₁ h₂)
  have hd₁ : a.days t₁ = (a.wholeDays t₁ % 2 ^ 32).toNat := rfl
  have hd₂ : a.days t₂ = (a.wholeDays t₂ % 2 ^ 32).toNat := rfl
  rw [Account.CountsOnce, if_neg (by omega)]
  omega

/-- The calls of a run, one after the other. -/
def afterCalls (a : Account) (times : List Int) : Account :=
  times.foldl (fun a t => (updatePremium a t).1) a

theorem afterCalls_expired (times : List Int) : afterCalls ⟨0, 0⟩ times = ⟨0, 0⟩ := by
  induction times with
  | nil => rfl
  | cons t times ih => exact ih

/-- A call leaves an account expired, or counting from a stamp that is not past the clock. -/
theorem updatePremium_counting {a : Account} (h : a.Counting) (hset : 0 < a.lastDay) {t : Int}
    (hle : a.lastDay ≤ t) :
    (updatePremium a t).1 = ⟨0, 0⟩ ∨ ((updatePremium a t).1.Counting ∧
      a.lastDay ≤ (updatePremium a t).1.lastDay ∧ (updatePremium a t).1.lastDay ≤ t) := by
  obtain ⟨hpos, hfinite⟩ := h.toNat
  have hw := wholeDays_of_le hle
  rcases updatePremium_cases h t with ⟨_, heq⟩ | ⟨_, _, heq⟩ | ⟨_, hlt, hdays, hstamp⟩
  · rw [heq]
    exact .inr ⟨h, Int.le_refl _, hle⟩
  · exact .inl heq
  · exact .inr ⟨counting_iff.mpr ⟨by omega, by omega, by omega⟩, by omega, by omega⟩

/-- However often the clock is read on the way, the time up to `t` is counted once. -/
theorem afterCalls_eq {a : Account} (h : a.Counting) (hset : 0 < a.lastDay) {times : List Int}
    {t : Int} (hsorted : (a.lastDay :: (times ++ [t])).Pairwise (· ≤ ·))
    (hshort : t - a.lastDay < 86400 * 2 ^ 32) :
    afterCalls a (times ++ [t]) = (updatePremium a t).1 := by
  induction times generalizing a with
  | nil => rfl
  | cons t₁ times ih =>
    obtain ⟨hfrom, hrest⟩ := List.pairwise_cons.mp hsorted
    have h₁ : a.lastDay ≤ t₁ := hfrom t₁ (by simp)
    have h₂ : t₁ ≤ t := (List.pairwise_cons.mp hrest).1 t (by simp)
    rw [← (updatePremium_twice h h₁ h₂).mpr (countsOnce_of_lt hset h₁ h₂ hshort)]
    show afterCalls (updatePremium a t₁).1 (times ++ [t]) = _
    rcases updatePremium_counting h hset h₁ with hout | ⟨hcount, hfirst, hlast⟩
    · rw [hout, afterCalls_expired, updatePremium_expired]
    · refine ih hcount (by omega) ?_ (by omega)
      refine List.pairwise_cons.mpr ⟨fun u hu => ?_, (List.pairwise_cons.mp hrest).2⟩
      exact Int.le_trans hlast ((List.pairwise_cons.mp hrest).1 u hu)

theorem afterCalls_eq_thirty :
    afterCalls ⟨30, 1000⟩ ([90000, 90001, 400000] ++ [900000]) =
      (updatePremium ⟨30, 1000⟩ 900000).1 :=
  afterCalls_eq (counting_iff.mpr (by decide)) (by decide) (by decide) (by decide)

/-! ## The clock set back -/

theorem updatePremium_back {a : Account} (h : a.Counting) {t : Int} (hlt : t < a.lastDay) :
    a.premiumDays ≤ (updatePremium a t).1.premiumDays ↔
      (a.lastDay - t) / 86400 % 2 ^ 32 = 0 := by
  obtain ⟨hpos, hfinite⟩ := h.toNat
  have hneg : a.wholeDays t = -((a.lastDay - t) / 86400) := by
    rw [Account.wholeDays, show t - a.lastDay = -(a.lastDay - t) by omega, Int.neg_tdiv,
      Int.tdiv_eq_ediv_of_nonneg (by omega)]
  have hd : a.days t = (a.wholeDays t % 2 ^ 32).toNat := rfl
  rw [UInt16.le_iff_toNat_le]
  rcases updatePremium_cases h t with ⟨hzero, heq⟩ | ⟨_, hge, heq⟩ | ⟨_, hless, hdays, _⟩
  · rw [heq]
    omega
  · rw [heq]
    simp
    omega
  · rw [hdays]
    omega

/-- Premium time is counted once exactly if the days of the first call lie in those of the
second, and a clock set back takes no days exactly if it was set back by less than a day
(or by a multiple of 2³² days, give or take a part of one). -/
theorem updatePremium_exact {a : Account} (h : a.Counting) :
    (∀ t₁ t₂, a.lastDay ≤ t₁ → t₁ ≤ t₂ →
      ((updatePremium (updatePremium a t₁).1 t₂).1 = (updatePremium a t₂).1 ↔
        a.CountsOnce t₁ t₂)) ∧
    ∀ t < a.lastDay, (a.premiumDays ≤ (updatePremium a t).1.premiumDays ↔
      (a.lastDay - t) / 86400 % 2 ^ 32 = 0) :=
  ⟨fun _ _ h₁ h₂ => updatePremium_twice h h₁ h₂, fun _ hlt => updatePremium_back h hlt⟩

/-- Thirty days of premium time, stamped at day 20000: two calls on later days, and a call
an hour before the stamp. -/
theorem updatePremium_exact_thirty :
    ((updatePremium (updatePremium ⟨30, 1728000000⟩ 1728180000).1 1728270000).1 =
        (updatePremium ⟨30, 1728000000⟩ 1728270000).1 ↔
      (⟨30, 1728000000⟩ : Account).CountsOnce 1728180000 1728270000) ∧
    ((30 : UInt16) ≤ (updatePremium ⟨30, 1728000000⟩ 1727996400).1.premiumDays ↔
      ((1728000000 : Int) - 1727996400) / 86400 % 2 ^ 32 = 0) :=
  have hcount : (⟨30, 1728000000⟩ : Account).Counting := ⟨by decide, by decide, by decide⟩
  ⟨(updatePremium_exact hcount).1 _ _ (by decide) (by decide),
    (updatePremium_exact hcount).2 _ (by decide)⟩

/-- A clock that is set back by one day takes all thirty days. -/
theorem premium_lost_by_clock_set_back :
    ¬∀ a : Account, a.Counting →
      (∀ t₁ t₂, a.lastDay ≤ t₁ → t₁ ≤ t₂ →
        (updatePremium (updatePremium a t₁).1 t₂).1 = (updatePremium a t₂).1) ∧
      ∀ t < a.lastDay, a.premiumDays ≤ (updatePremium a t).1.premiumDays := by
  intro h
  have hback := (h ⟨30, 1728000000⟩ ⟨by decide, by decide, by decide⟩).2 1727913600 (by decide)
  exact absurd hback (by decide)

end Infernum.Premium
