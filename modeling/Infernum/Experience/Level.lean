import Infernum.Advance.Training
import Infernum.Lib.Scale
import Mathlib.Logic.Function.Iterate

/-!
# Levels from experience

Every level asks for an amount of experience in all, by a cubic formula in 64 bits. Points
that are gained or lost move the level, and each level moves health, mana and capacity by
what the vocation gives.
-/

namespace Infernum.Experience

open Advance (getPercentLevel)

/-- The level is read as a signed number; the formula is unsigned. -/
def getExpForLevel (lv : UInt32) : UInt64 :=
  let lv := (lv.toInt32 - 1).toInt64.toUInt64
  (50 * lv * lv * lv - 150 * lv * lv + 400 * lv) / 3

/-- What a level gives. -/
structure Vocation where
  gainHP : UInt32
  gainMana : UInt32
  gainCap : UInt32

structure Player where
  level : UInt32
  experience : UInt64
  levelPercent : UInt8
  health : Int32
  healthMax : Int32
  mana : UInt32
  manaMax : UInt32
  capacity : UInt32
  vocation : Vocation

/-- `std::max<int32_t>(0, n)`. -/
def max_int32 (n : UInt32) : Int32 :=
  if n.toNat < 2 ^ 31 then n.toInt32 else 0

/-- `std::max<int64_t>(0, n)`. -/
def max_int64 (n : UInt64) : UInt64 :=
  if n.toNat < 2 ^ 63 then n else 0

namespace Player

/-- One level up. -/
def levelUp (p : Player) : Player :=
  { p with
    level := p.level + 1
    healthMax := (p.healthMax.toUInt32 + p.vocation.gainHP).toInt32
    health := (p.health.toUInt32 + p.vocation.gainHP).toInt32
    manaMax := p.manaMax + p.vocation.gainMana
    mana := p.mana + p.vocation.gainMana
    capacity := p.capacity + p.vocation.gainCap }

/-- The loop of `addExperience`, from a level that is not the last one. -/
def addLoop (p : Player) (_h : getExpForLevel p.level < getExpForLevel (p.level + 1)) : Player :=
  if _hge : p.experience ≥ getExpForLevel (p.level + 1) then
    if h' : getExpForLevel p.levelUp.level < getExpForLevel (p.levelUp.level + 1) then
      p.levelUp.addLoop h'
    else p.levelUp
  else p
termination_by p.experience.toNat - (getExpForLevel p.level).toNat
decreasing_by
  have hlt := UInt64.lt_iff_toNat_lt.mp _h
  have hle := UInt64.le_iff_toNat_le.mp _hge
  show p.experience.toNat - (getExpForLevel (p.level + 1)).toNat < _
  omega

/-- A changed level fills up health and mana. -/
def refill (p : Player) (oldLevel : UInt32) : Player :=
  if oldLevel ≠ p.level then { p with health := p.healthMax, mana := p.manaMax } else p

def showPercent (p : Player) : Player :=
  let currLevelExp := getExpForLevel p.level
  let nextLevelExp := getExpForLevel (p.level + 1)
  { p with
    levelPercent :=
      if nextLevelExp > currLevelExp then
        getPercentLevel (p.experience - currLevelExp) (nextLevelExp - currLevelExp)
      else 0 }

/-- `exp` is the amount as the bonus for monsters and the scripts leave it. -/
def addExperience (p : Player) (exp : UInt64) : Player :=
  if h : getExpForLevel p.level < getExpForLevel (p.level + 1) then
    if exp = 0 then p
    else (({ p with experience := p.experience + exp }.addLoop h).refill p.level).showPercent
  else { p with levelPercent := 0 }

/-- One level down. -/
def levelDown (p : Player) : Player :=
  { p with
    level := p.level - 1
    healthMax := max_int32 (p.healthMax.toUInt32 - p.vocation.gainHP)
    manaMax := (max_int32 (p.manaMax - p.vocation.gainMana)).toUInt32
    capacity := (max_int32 (p.capacity - p.vocation.gainCap)).toUInt32 }

/-- The loop of `removeExperience`. -/
def removeLoop (p : Player) : Player :=
  if _h : p.level > 1 ∧ p.experience < getExpForLevel p.level then p.levelDown.removeLoop else p
termination_by p.level.toNat
decreasing_by
  have hlt := UInt32.lt_iff_toNat_lt.mp _h.1
  have hone : (1 : UInt32).toNat = 1 := rfl
  show (p.level - 1).toNat < _
  rw [UInt32.toNat_sub_of_le _ _ (by rw [UInt32.le_iff_toNat_le]; omega)]
  omega

/-- `exp` is the amount as the scripts leave it. -/
def removeExperience (p : Player) (exp : UInt64) : Player :=
  if p.experience = 0 ∨ exp = 0 then p
  else
    (({ p with experience := max_int64 (p.experience - exp) }.removeLoop).refill
      p.level).showPercent

end Player

end Infernum.Experience

/-!
## The level between its bounds

Whatever is gained and lost, the experience lies between the requirement of the level and
that of the next one, and the percentage says where. What is gained and then lost again
leaves no trace, as long as the clamps to 31 bits do not cut.
-/

namespace Infernum.Experience

open Lib (Scale)
open Advance (getPercentLevel)

/-- The requirements as the marks of a scale. -/
def scale : Scale UInt32 where
  succ level := level + 1
  mark level := (getExpForLevel level).toNat

theorem open_scale {level : UInt32} :
    scale.Open level ↔ getExpForLevel level < getExpForLevel (level + 1) :=
  UInt64.lt_iff_toNat_lt.symm

namespace Player

/-! ## The loops -/

theorem iterate_levelUp (p : Player) (n : Nat) :
    (levelUp^[n] p).experience = p.experience ∧ (levelUp^[n] p).vocation = p.vocation := by
  induction n generalizing p with
  | zero => exact ⟨rfl, rfl⟩
  | succ n ih => exact ih p.levelUp

theorem iterate_levelDown (p : Player) (n : Nat) :
    (levelDown^[n] p).experience = p.experience ∧ (levelDown^[n] p).vocation = p.vocation := by
  induction n generalizing p with
  | zero => exact ⟨rfl, rfl⟩
  | succ n ih => exact ih p.levelDown

/-- The loop goes up as far as the experience reaches. -/
theorem addLoop_spec (p : Player) (h : getExpForLevel p.level < getExpForLevel (p.level + 1)) :
    ∃ n, p.addLoop h = levelUp^[n] p ∧
      scale.Rises p.experience.toNat p.level n (levelUp^[n] p).level ∧
      (scale.Open (levelUp^[n] p).level →
        p.experience.toNat < scale.mark ((levelUp^[n] p).level + 1)) := by
  induction p, h using addLoop.induct with
  | case1 p h hge h' ih =>
    obtain ⟨n, heq, hrises, hstop⟩ := ih
    refine ⟨n + 1, ?_, .up (open_scale.mpr h) (UInt64.le_iff_toNat_le.mp hge) hrises, hstop⟩
    rw [addLoop, dif_pos hge, dif_pos h', heq]
    rfl
  | case2 p h hge h' =>
    refine ⟨1, ?_, .up (open_scale.mpr h) (UInt64.le_iff_toNat_le.mp hge) (.here _), ?_⟩
    · rw [addLoop, dif_pos hge, dif_neg h']
      rfl
    · intro hopen
      exact absurd (open_scale.mp hopen) h'
  | case3 p h hge =>
    refine ⟨0, ?_, .here _, ?_⟩
    · rw [addLoop, dif_neg hge]
      rfl
    · intro _
      exact UInt64.lt_iff_toNat_lt.mp (UInt64.not_le.mp hge)

/-- The loop goes down until the experience is enough. -/
theorem removeLoop_spec (p : Player) :
    ∃ n, p.removeLoop = levelDown^[n] p ∧
      scale.Falls p.experience.toNat p.level n (levelDown^[n] p).level ∧
      (p.level ≠ 0 → scale.mark (levelDown^[n] p).level ≤ p.experience.toNat) := by
  induction p using removeLoop.induct with
  | case1 p h ih =>
    obtain ⟨n, heq, hfalls, hstop⟩ := ih
    have hsucc : p.levelDown.level + 1 = p.level := UInt32.sub_add_cancel _ _
    refine ⟨n + 1, ?_, ?_, fun _ => hstop ?_⟩
    · rw [removeLoop, dif_pos h, heq]
      rfl
    · have hfall := Scale.Falls.down (s := scale) (l := p.levelDown.level) (by
        show _ < scale.mark (p.levelDown.level + 1)
        rw [hsucc]
        exact UInt64.lt_iff_toNat_lt.mp h.2) hfalls
      rw [show scale.succ p.levelDown.level = p.level from hsucc] at hfall
      exact hfall
    · -- one level below a level above one
      intro hzero
      rw [hzero] at hsucc
      have hone := h.1
      rw [← hsucc] at hone
      exact absurd hone (by decide)
  | case2 p h =>
    refine ⟨0, ?_, .here _, fun hzero => ?_⟩
    · rw [removeLoop, dif_neg h]
      rfl
    · by_cases hone : p.level > 1
      · have hle : ¬p.experience < getExpForLevel p.level := fun hlt => h ⟨hone, hlt⟩
        exact UInt64.le_iff_toNat_le.mp (UInt64.not_lt.mp hle)
      · -- level one asks for nothing
        have hlevel : p.level = 1 := by
          rw [gt_iff_lt, UInt32.lt_iff_toNat_lt] at hone
          have hone' : (1 : UInt32).toNat = 1 := rfl
          have hpos : p.level.toNat ≠ 0 := fun h => hzero (UInt32.toNat_inj.mp h)
          exact UInt32.toNat_inj.mp (by omega)
        show scale.mark p.level ≤ _
        rw [hlevel]
        exact Nat.zero_le _

/-! ## What a step leaves -/

/-- The experience lies between the requirements, or the maximum level is reached. -/
structure Bounded (p : Player) : Prop where
  ge : scale.mark p.level ≤ p.experience.toNat
  lt : scale.Open p.level → p.experience.toNat < scale.mark (p.level + 1)

/-- The percentage of the position between the two requirements; 0 at the maximum level. -/
def ShowsPercent (p : Player) : Prop :=
  p.levelPercent.toNat =
    if scale.Open p.level then
      (p.experience.toNat - scale.mark p.level) * 100 /
        (scale.mark (p.level + 1) - scale.mark p.level)
    else 0

/-- A hundred times the position above the level fits into 64 bits. -/
def Narrow (experience : UInt64) (level : UInt32) : Prop :=
  scale.Within level experience.toNat →
    (experience.toNat - scale.mark level) * 100 < 2 ^ 64

theorem signed_level {n : UInt32} (h : n.toNat < 2 ^ 31) :
    n.toInt32.toInt64.toUInt64 = n.toUInt64 := by
  rw [← UInt64.toNat_inj, UInt32.toNat_toUInt64]
  show (n.toBitVec.signExtend 64).toNat = n.toNat
  rw [BitVec.signExtend_eq_setWidth_of_msb_false]
  · simp
  · rw [BitVec.msb_eq_false_iff_two_mul_lt]
    show 2 * n.toNat < 2 ^ 32
    omega

/-- Below level 2²⁵ the position always fits: two requirements are less than 2⁵⁶ apart. -/
theorem narrow_of_lt (experience : UInt64) {level : UInt32} (hpos : 0 < level.toNat)
    (hlt : level.toNat < 2 ^ 25) : Narrow experience level := by
  intro hwithin
  have hone : (1 : UInt32).toNat = 1 := rfl
  have hpred : (level - 1).toNat = level.toNat - 1 :=
    UInt32.toNat_sub_of_le _ _ (by rw [UInt32.le_iff_toNat_le]; omega)
  set lv : UInt64 := (level - 1).toUInt64 with hlv
  have hlv' : lv.toNat = level.toNat - 1 := by rw [hlv, UInt32.toNat_toUInt64, hpred]
  have hhere : getExpForLevel level =
      (50 * lv * lv * lv - 150 * lv * lv + 400 * lv) / 3 := by
    have hsigned := signed_level (n := level - 1) (by omega)
    rw [UInt32.toInt32_sub] at hsigned
    rw [getExpForLevel, show (1 : Int32) = UInt32.toInt32 1 from rfl, hsigned]
  have hnext : getExpForLevel (level + 1) =
      ((50 * lv * lv * lv - 150 * lv * lv + 400 * lv) + (150 * lv * lv - 150 * lv + 300)) / 3 := by
    have hsigned := signed_level (n := level) (by omega)
    have hsucc : level.toUInt64 = lv + 1 := by
      rw [← UInt64.toNat_inj, UInt32.toNat_toUInt64, UInt64.toNat_add, hlv']
      show _ = (_ + 1) % 2 ^ 64
      omega
    have hback : (level + 1).toInt32 - 1 = level.toInt32 := by
      rw [show (1 : Int32) = UInt32.toInt32 1 from rfl, ← UInt32.toInt32_sub,
        UInt32.add_sub_cancel]
    rw [getExpForLevel, hback, hsigned, hsucc]
    congr 1
    grind
  -- the difference of the two numerators
  have hdiff : (150 * lv * lv - 150 * lv + 300).toNat ≤ 150 * 2 ^ 50 := by
    have hbound : lv.toNat ≤ 2 ^ 25 - 2 := by omega
    have hsquare : lv.toNat * lv.toNat ≤ (2 ^ 25 - 2) * (2 ^ 25 - 2) :=
      Nat.mul_le_mul hbound hbound
    have hle : lv.toNat ≤ lv.toNat * lv.toNat := Nat.le_mul_self _
    have hten : (150 : UInt64).toNat = 150 := rfl
    have hprod : (150 * lv * lv).toNat = 150 * (lv.toNat * lv.toNat) := by
      rw [UInt64.mul_assoc, UInt64.toNat_mul, UInt64.toNat_mul, hten,
        Nat.mod_eq_of_lt (a := lv.toNat * lv.toNat) (by omega), Nat.mod_eq_of_lt (by omega)]
    have hline : (150 * lv).toNat = 150 * lv.toNat := by
      rw [UInt64.toNat_mul, hten, Nat.mod_eq_of_lt (by omega)]
    rw [UInt64.toNat_add, UInt64.toNat_sub_of_le _ _ (by
      rw [UInt64.le_iff_toNat_le, hprod, hline]; omega), hprod, hline]
    show (150 * (lv.toNat * lv.toNat) - 150 * lv.toNat + 300) % 2 ^ 64 ≤ _
    rw [Nat.mod_eq_of_lt (by omega)]
    omega
  obtain ⟨hge, hup⟩ := hwithin
  change experience.toNat < (getExpForLevel (level + 1)).toNat at hup
  change (getExpForLevel level).toNat ≤ experience.toNat at hge
  show (experience.toNat - (getExpForLevel level).toNat) * 100 < 2 ^ 64
  rw [hhere, UInt64.toNat_div] at hge ⊢
  rw [hnext, UInt64.toNat_div, UInt64.toNat_add] at hup
  have hthree : (3 : UInt64).toNat = 3 := rfl
  rw [hthree] at hge hup ⊢
  omega

theorem getPercentLevel_toNat {count nextLevelCount : UInt64} (hlt : count < nextLevelCount)
    (hfits : count.toNat * 100 < 2 ^ 64) :
    (getPercentLevel count nextLevelCount).toNat = count.toNat * 100 / nextLevelCount.toNat := by
  have hlt' := UInt64.lt_iff_toNat_lt.mp hlt
  have hquot : count.toNat * 100 / nextLevelCount.toNat < 100 := by
    rw [Nat.div_lt_iff_lt_mul (by omega)]
    omega
  have hne : nextLevelCount ≠ 0 := by
    rintro rfl
    exact Nat.not_lt_zero _ hlt'
  have hresult : (count * 100 / nextLevelCount).toUInt8.toNat =
      count.toNat * 100 / nextLevelCount.toNat := by
    rw [UInt64.toNat_toUInt8, UInt64.toNat_div, UInt64.toNat_mul]
    show count.toNat * 100 % 2 ^ 64 / _ % 2 ^ 8 = _
    rw [Nat.mod_eq_of_lt hfits, Nat.mod_eq_of_lt (by omega)]
  rw [getPercentLevel, if_neg hne]
  dsimp only
  rw [if_neg, hresult]
  rw [gt_iff_lt, UInt8.lt_iff_toNat_lt, hresult]
  show ¬100 < _
  omega

@[simp] theorem refill_level (p : Player) (oldLevel : UInt32) :
    (p.refill oldLevel).level = p.level := by
  unfold refill
  split <;> rfl

@[simp] theorem refill_experience (p : Player) (oldLevel : UInt32) :
    (p.refill oldLevel).experience = p.experience := by
  unfold refill
  split <;> rfl

theorem Bounded.congr {p q : Player} (h : p.Bounded) (hlevel : q.level = p.level)
    (hexperience : q.experience = p.experience) : q.Bounded := by
  refine ⟨?_, fun hopen => ?_⟩
  · rw [hlevel, hexperience]
    exact h.ge
  · rw [hlevel] at hopen ⊢
    rw [hexperience]
    exact h.lt hopen

theorem Bounded.showsPercent {p : Player} (h : p.Bounded) (hnarrow : Narrow p.experience p.level) :
    p.showPercent.ShowsPercent := by
  rw [ShowsPercent]
  show UInt8.toNat (if _ then _ else _) = if scale.Open p.level then
      (p.experience.toNat - scale.mark p.level) * 100 /
        (scale.mark (p.level + 1) - scale.mark p.level)
    else 0
  by_cases hopen : scale.Open p.level
  · have hlt := h.lt hopen
    have hge := h.ge
    have hcount : (p.experience - getExpForLevel p.level).toNat =
        p.experience.toNat - scale.mark p.level :=
      UInt64.toNat_sub_of_le _ _ (UInt64.le_iff_toNat_le.mpr hge)
    have hnext : (getExpForLevel (p.level + 1) - getExpForLevel p.level).toNat =
        scale.mark (p.level + 1) - scale.mark p.level :=
      UInt64.toNat_sub_of_le _ _ (UInt64.le_of_lt (open_scale.mp hopen))
    rw [if_pos (open_scale.mp hopen), if_pos hopen, getPercentLevel_toNat, hcount, hnext]
    · rw [UInt64.lt_iff_toNat_lt, hcount, hnext]
      omega
    · rw [hcount]
      exact hnarrow ⟨hge, hlt⟩
  · rw [if_neg fun hlt => hopen (open_scale.mpr hlt), if_neg hopen]
    rfl

/-! ## Runs -/

/-- An amount that may be added: the experience stays below 2⁶³, and a hundred times the
position fits at every level on the way up. At the maximum level any amount may. -/
def AddFits (p : Player) (exp : UInt64) : Prop :=
  scale.Open p.level → p.experience.toNat + exp.toNat < 2 ^ 63 ∧
    ∀ n level, scale.Rises (p.experience.toNat + exp.toNat) p.level n level →
      Narrow (p.experience + exp) level

/-- An amount that may be removed: at most 2⁶³ more than the experience, and a hundred times
the position fits at every level on the way down. -/
structure RemoveFits (p : Player) (exp : UInt64) : Prop where
  level : p.level ≠ 0
  small : p.experience.toNat < 2 ^ 63
  amount : exp.toNat ≤ p.experience.toNat + 2 ^ 63
  narrow : ∀ n level, scale.Falls (p.experience.toNat - exp.toNat) p.level n level →
    Narrow (.ofNat (p.experience.toNat - exp.toNat)) level

theorem addExperience_bounded {p : Player} (h : p.Bounded) {exp : UInt64}
    (hfits : p.AddFits exp) :
    (p.addExperience exp).Bounded ∧
      (p.addExperience exp = p ∨ (p.addExperience exp).ShowsPercent) := by
  rw [addExperience]
  split
  · next hlt =>
    split
    · exact ⟨h, .inl rfl⟩
    · obtain ⟨hsmall, hnarrow⟩ := hfits (open_scale.mpr hlt)
      have hsum : (p.experience + exp).toNat = p.experience.toNat + exp.toNat := by
        rw [UInt64.toNat_add, Nat.mod_eq_of_lt (by omega)]
      set q : Player := { p with experience := p.experience + exp } with hq
      obtain ⟨n, heq, hrises, hstop⟩ := addLoop_spec q hlt
      have hexp := (iterate_levelUp q n).1
      have hge : scale.mark p.level ≤ (p.experience + exp).toNat := by
        rw [hsum]
        exact Nat.le_add_right_of_le h.ge
      have hbounded : (levelUp^[n] q).Bounded := by
        refine ⟨?_, ?_⟩
        · rw [hexp]
          exact hrises.mark_le hge
        · rw [hexp]
          exact hstop
      have hbounded' : ((q.addLoop hlt).refill p.level).Bounded := by
        rw [heq]
        exact hbounded.congr (refill_level _ _) (refill_experience _ _)
      refine ⟨hbounded'.congr rfl rfl, .inr (hbounded'.showsPercent ?_)⟩
      rw [refill_level, refill_experience, heq, hexp]
      refine hnarrow n _ ?_
      rw [← hsum]
      exact hrises
  · next hlast =>
    refine ⟨h.congr rfl rfl, .inr ?_⟩
    rw [ShowsPercent, if_neg fun hopen => hlast (open_scale.mp hopen)]
    rfl

theorem max_int64_sub {experience exp : UInt64} (hsmall : experience.toNat < 2 ^ 63)
    (h : exp.toNat ≤ experience.toNat + 2 ^ 63) :
    (max_int64 (experience - exp)).toNat = experience.toNat - exp.toNat := by
  have hexp := exp.toNat_lt
  rw [max_int64, UInt64.toNat_sub]
  split
  · rw [UInt64.toNat_sub]
    omega
  · show 0 = _
    omega

theorem removeExperience_bounded {p : Player} (h : p.Bounded) {exp : UInt64}
    (hfits : p.RemoveFits exp) :
    (p.removeExperience exp).Bounded ∧
      (p.removeExperience exp = p ∨ (p.removeExperience exp).ShowsPercent) := by
  rw [removeExperience]
  split
  · exact ⟨h, .inl rfl⟩
  · have hleft := max_int64_sub hfits.small hfits.amount
    have hle : (max_int64 (p.experience - exp)).toNat ≤ p.experience.toNat := by
      rw [hleft]
      exact Nat.sub_le _ _
    set q : Player := { p with experience := max_int64 (p.experience - exp) } with hq
    obtain ⟨n, heq, hfalls, hstop⟩ := removeLoop_spec q
    have hexp := (iterate_levelDown q n).1
    have hbounded : (levelDown^[n] q).Bounded := by
      refine ⟨?_, fun hopen => ?_⟩
      · rw [hexp]
        exact hstop hfits.level
      · rw [hexp]
        rcases Nat.eq_zero_or_pos n with rfl | hpos
        · exact Nat.lt_of_le_of_lt hle (h.lt hopen)
        · exact hfalls.lt_mark_of_pos hpos
    have hbounded' : (q.removeLoop.refill p.level).Bounded := by
      rw [heq]
      exact hbounded.congr (refill_level _ _) (refill_experience _ _)
    refine ⟨hbounded'.congr rfl rfl, .inr (hbounded'.showsPercent ?_)⟩
    have hnarrow := hfits.narrow n (levelDown^[n] q).level (by rw [← hleft]; exact hfalls)
    rw [← hleft, UInt64.ofNat_toNat] at hnarrow
    rw [refill_level, refill_experience, heq, hexp]
    exact hnarrow

/-- The players that come from `p` by amounts that fit. -/
inductive Reached (p : Player) : Player → Prop
  | start : Reached p p
  | add {q : Player} (exp : UInt64) : Reached p q → q.AddFits exp →
      Reached p (q.addExperience exp)
  | remove {q : Player} (exp : UInt64) : Reached p q → q.RemoveFits exp →
      Reached p (q.removeExperience exp)

/-- The level keeps to its bounds, and the percentage is right as soon as anything was
gained or lost. -/
theorem bounded_of_reached {p q : Player} (h : p.Bounded) (hq : Reached p q) :
    q.Bounded ∧ (q = p ∨ q.ShowsPercent) := by
  induction hq with
  | start => exact ⟨h, .inl rfl⟩
  | add exp _ hfits ih =>
    obtain ⟨hbounded, hsame | hshows⟩ := addExperience_bounded ih.1 hfits
    · rw [hsame]
      exact ih
    · exact ⟨hbounded, .inr hshows⟩
  | remove exp _ hfits ih =>
    obtain ⟨hbounded, hsame | hshows⟩ := removeExperience_bounded ih.1 hfits
    · rw [hsame]
      exact ih
    · exact ⟨hbounded, .inr hshows⟩

/-! ## Gained and lost again -/

/-- The same level, experience, maximum health, maximum mana and capacity. -/
structure SameStats (p q : Player) : Prop where
  level : p.level = q.level
  experience : p.experience = q.experience
  healthMax : p.healthMax = q.healthMax
  manaMax : p.manaMax = q.manaMax
  capacity : p.capacity = q.capacity
  vocation : p.vocation = q.vocation

theorem SameStats.refl (p : Player) : SameStats p p := ⟨rfl, rfl, rfl, rfl, rfl, rfl⟩

theorem SameStats.trans {p q r : Player} (h : SameStats p q) (h' : SameStats q r) :
    SameStats p r :=
  ⟨h.level.trans h'.level, h.experience.trans h'.experience, h.healthMax.trans h'.healthMax,
    h.manaMax.trans h'.manaMax, h.capacity.trans h'.capacity, h.vocation.trans h'.vocation⟩

theorem SameStats.down {p q : Player} (h : SameStats p q) :
    SameStats p.levelDown q.levelDown := by
  refine ⟨?_, h.experience, ?_, ?_, ?_, h.vocation⟩
  · show p.level - 1 = q.level - 1
    rw [h.level]
  · show max_int32 _ = max_int32 _
    rw [h.healthMax, h.vocation]
  · show (max_int32 _).toUInt32 = (max_int32 _).toUInt32
    rw [h.manaMax, h.vocation]
  · show (max_int32 _).toUInt32 = (max_int32 _).toUInt32
    rw [h.capacity, h.vocation]

theorem SameStats.iterate_down {p q : Player} (h : SameStats p q) (n : Nat) :
    SameStats (levelDown^[n] p) (levelDown^[n] q) := by
  induction n generalizing p q with
  | zero => exact h
  | succ n ih => exact ih h.down

/-- The maxima `n` levels up, each in 32 bits, are numbers of 31 bits. -/
structure StatsFit (p : Player) (n : Nat) : Prop where
  healthMax : (p.healthMax.toUInt32 + .ofNat n * p.vocation.gainHP).toNat < 2 ^ 31
  manaMax : (p.manaMax + .ofNat n * p.vocation.gainMana).toNat < 2 ^ 31
  capacity : (p.capacity + .ofNat n * p.vocation.gainCap).toNat < 2 ^ 31

theorem iterate_levelUp_stats (p : Player) (n : Nat) :
    (levelUp^[n] p).healthMax.toUInt32 =
        p.healthMax.toUInt32 + .ofNat n * p.vocation.gainHP ∧
      (levelUp^[n] p).manaMax = p.manaMax + .ofNat n * p.vocation.gainMana ∧
      (levelUp^[n] p).capacity = p.capacity + .ofNat n * p.vocation.gainCap := by
  have hsucc : ∀ (x g : UInt32) (n : Nat),
      x + .ofNat n * g + g = x + .ofNat (n + 1) * g := by
    intro x g n
    rw [UInt32.ofNat_add, UInt32.add_mul, UInt32.add_assoc]
    congr 2
    exact (UInt32.one_mul g).symm
  induction n with
  | zero =>
    have hzero : ∀ x g : UInt32, x = x + .ofNat 0 * g := by
      intro x g
      show x = x + 0 * g
      rw [UInt32.zero_mul, UInt32.add_zero]
    exact ⟨hzero _ _, hzero _ _, hzero _ _⟩
  | succ n ih =>
    obtain ⟨hhealth, hmana, hcapacity⟩ := ih
    have hvoc := (iterate_levelUp p n).2
    rw [Function.iterate_succ_apply']
    refine ⟨?_, ?_, ?_⟩
    · show ((levelUp^[n] p).healthMax.toUInt32 + (levelUp^[n] p).vocation.gainHP) = _
      rw [hhealth, hvoc, hsucc]
    · show (levelUp^[n] p).manaMax + (levelUp^[n] p).vocation.gainMana = _
      rw [hmana, hvoc, hsucc]
    · show (levelUp^[n] p).capacity + (levelUp^[n] p).vocation.gainCap = _
      rw [hcapacity, hvoc, hsucc]

theorem max_int32_of_lt {n : UInt32} (h : n.toNat < 2 ^ 31) : max_int32 n = n.toInt32 :=
  if_pos h

/-- A level down takes back a level up that began with maxima of 31 bits. -/
theorem levelDown_levelUp {p : Player} (hhealth : p.healthMax.toUInt32.toNat < 2 ^ 31)
    (hmana : p.manaMax.toNat < 2 ^ 31) (hcapacity : p.capacity.toNat < 2 ^ 31) :
    SameStats p.levelUp.levelDown p := by
  refine ⟨UInt32.add_sub_cancel _ _, rfl, ?_, ?_, ?_, rfl⟩
  · show max_int32 (p.healthMax.toUInt32 + p.vocation.gainHP - p.vocation.gainHP) = _
    rw [UInt32.add_sub_cancel, max_int32_of_lt hhealth, Int32.toInt32_toUInt32]
  · show (max_int32 (p.manaMax + p.vocation.gainMana - p.vocation.gainMana)).toUInt32 = _
    rw [UInt32.add_sub_cancel, max_int32_of_lt hmana, UInt32.toUInt32_toInt32]
  · show (max_int32 (p.capacity + p.vocation.gainCap - p.vocation.gainCap)).toUInt32 = _
    rw [UInt32.add_sub_cancel, max_int32_of_lt hcapacity, UInt32.toUInt32_toInt32]

theorem iterate_levelDown_levelUp {p : Player} {n : Nat} (h : ∀ j, j < n → p.StatsFit j) :
    SameStats (levelDown^[n] (levelUp^[n] p)) p := by
  induction n with
  | zero => exact .refl p
  | succ n ih =>
    rw [Function.iterate_succ_apply' levelUp, Function.iterate_succ_apply levelDown]
    have hfits := h n (Nat.lt_succ_self n)
    obtain ⟨hhealth, hmana, hcapacity⟩ := iterate_levelUp_stats p n
    have hone := levelDown_levelUp (p := levelUp^[n] p) (hhealth ▸ hfits.healthMax)
      (hmana ▸ hfits.manaMax) (hcapacity ▸ hfits.capacity)
    exact (hone.iterate_down n).trans (ih fun j hj => h j (Nat.lt_succ_of_lt hj))

theorem iterate_levelUp_experience (p : Player) (experience : UInt64) (n : Nat) :
    levelUp^[n] { p with experience := experience } =
      { levelUp^[n] p with experience := experience } := by
  induction n generalizing p with
  | zero => rfl
  | succ n ih => exact ih p.levelUp

theorem sameStats_refill (p : Player) (oldLevel : UInt32) : SameStats (p.refill oldLevel) p := by
  unfold refill
  split
  · exact ⟨rfl, rfl, rfl, rfl, rfl, rfl⟩
  · exact .refl p

/-- An amount whose levels can be taken back: on the way up the level does not start again
at 0, and the maxima that a level starts from are numbers of 31 bits. -/
def RestoreFits (p : Player) (exp : UInt64) : Prop :=
  ∀ n level, scale.Rises (p.experience.toNat + exp.toNat) p.level (n + 1) level →
    level ≠ 0 ∧ p.StatsFit n

/-- All levels that `n` levels up pass on the way. -/
theorem RestoreFits.statsFit {p : Player} {exp : UInt64} (h : p.RestoreFits exp) {n : Nat}
    {level : UInt32} (hrises : scale.Rises (p.experience.toNat + exp.toNat) p.level n level) :
    ∀ j, j < n → p.StatsFit j := by
  intro j hj
  obtain ⟨level', hrises'⟩ := hrises.take (Nat.succ_le_of_lt hj)
  exact (h j level' hrises').2

/-- What is gained and then lost again leaves no trace. -/
theorem restored {p : Player} (h : p.Bounded) (hopen : scale.Open p.level) {exp : UInt64}
    (hsmall : p.experience.toNat + exp.toNat < 2 ^ 63) (hfits : p.RestoreFits exp) :
    SameStats ((p.addExperience exp).removeExperience exp) p := by
  have hlt := open_scale.mp hopen
  rw [addExperience, dif_pos hlt]
  by_cases hzero : exp = 0
  · rw [if_pos hzero, removeExperience, if_pos (.inr hzero)]
    exact .refl p
  rw [if_neg hzero]
  have hpos : exp.toNat ≠ 0 := fun h => hzero (UInt64.toNat_inj.mp h)
  have hsum : (p.experience + exp).toNat = p.experience.toNat + exp.toNat := by
    rw [UInt64.toNat_add, Nat.mod_eq_of_lt (by omega)]
  obtain ⟨n, heq, hrises, _⟩ := addLoop_spec { p with experience := p.experience + exp } hlt
  rw [iterate_levelUp_experience] at heq hrises
  rw [heq]
  change scale.Rises (p.experience + exp).toNat p.level n (levelUp^[n] p).level at hrises
  rw [hsum] at hrises
  set r := ({ levelUp^[n] p with experience := p.experience + exp } : Player).refill
    p.level with hr
  have hstats : SameStats r { levelUp^[n] p with experience := p.experience + exp } :=
    sameStats_refill _ _
  -- the removal starts from the level that was reached, with the old experience
  have hback : max_int64 (r.experience - exp) = p.experience := by
    rw [show r.experience = p.experience + exp from hstats.experience, UInt64.add_sub_cancel,
      max_int64, if_pos (by omega)]
  have hne : ¬(r.showPercent.experience = 0 ∨ exp = 0) := by
    rintro (hnone | hnone)
    · rw [show r.showPercent.experience = r.experience from rfl, hstats.experience,
        ← UInt64.toNat_inj, hsum] at hnone
      have hnone' : p.experience.toNat + exp.toNat = 0 := hnone
      omega
    · exact hzero hnone
  rw [removeExperience, if_neg hne, show r.showPercent.experience = r.experience from rfl, hback]
  set q : Player := { r.showPercent with experience := p.experience } with hq
  have hq' : SameStats q (levelUp^[n] p) :=
    ⟨hstats.level, ((iterate_levelUp p n).1).symm, hstats.healthMax, hstats.manaMax,
      hstats.capacity, hstats.vocation⟩
  have hlevel : q.level ≠ 0 := by
    rw [hq'.level]
    cases n with
    | zero =>
      intro hnone
      rw [show p.level = 0 from hnone] at hopen
      exact absurd hopen (by decide)
    | succ n => exact (hfits n _ hrises).1
  -- it falls back exactly the levels that were gained
  obtain ⟨m, hremove, hfalls, hstop⟩ := removeLoop_spec q
  rw [hq'.level, hq'.experience, (iterate_levelUp p n).1] at hfalls
  rw [hq'.experience, (iterate_levelUp p n).1] at hstop
  obtain ⟨rfl, _⟩ := Scale.Falls.unique (fun _ _ => (UInt32.add_left_inj 1).mp)
    (hrises.falls (h.lt hopen)) hfalls h.ge (hstop hlevel)
  rw [hremove]
  have hdown := (hq'.iterate_down n).trans
    (iterate_levelDown_levelUp (hfits.statsFit hrises))
  have hfill := (sameStats_refill (levelDown^[n] q) r.showPercent.level).trans hdown
  exact ⟨hfill.level, hfill.experience, hfill.healthMax, hfill.manaMax, hfill.capacity,
    hfill.vocation⟩

/-- The level follows the experience: over every run of amounts that fit it keeps to its
bounds and the percentage is right; an amount whose levels can be taken back leaves no
trace when it is lost again. -/
theorem level_follows (p : Player) (h : scale.Within p.level p.experience.toNat) :
    (∀ q, Reached p q → q.Bounded ∧ (q = p ∨ q.ShowsPercent)) ∧
    ∀ exp : UInt64, p.experience.toNat + exp.toNat < 2 ^ 63 → p.RestoreFits exp →
      SameStats ((p.addExperience exp).removeExperience exp) p := by
  have hbounded : p.Bounded := ⟨h.ge, fun _ => h.lt⟩
  exact ⟨fun q hq => bounded_of_reached hbounded hq,
    fun exp hsmall hfits => restored hbounded h.open hsmall hfits⟩

end Player

/-- A player of level 8. -/
def levelEight : Player where
  level := 8
  experience := 4200
  levelPercent := 0
  health := 185
  healthMax := 185
  mana := 90
  manaMax := 90
  capacity := 47000
  vocation := ⟨15, 5, 2500⟩

theorem rises_levelEight {n : Nat} {level : UInt32} (h : scale.Rises (4200 + 100) 8 n level) :
    n = 0 ∧ level = 8 := by
  cases h with
  | here => exact ⟨rfl, rfl⟩
  | up _ hle _ => exact absurd hle (by decide)

theorem level_follows_eight :
    ((levelEight.addExperience 100).Bounded ∧
      (levelEight.addExperience 100 = levelEight ∨
        (levelEight.addExperience 100).ShowsPercent)) ∧
    Player.SameStats ((levelEight.addExperience 100).removeExperience 100) levelEight :=
  have h := Player.level_follows levelEight ⟨by decide, by decide⟩
  ⟨h.1 _ (.add 100 .start fun _ => ⟨by decide, fun n level hrises => by
      obtain ⟨_, rfl⟩ := rises_levelEight hrises
      exact fun _ => by decide⟩),
    h.2 100 (by decide) fun n level hrises => absurd (rises_levelEight hrises).1 (by simp)⟩

/-- A player of level 1 with a capacity above 31 bits. -/
def strong : Player :=
  { levelEight with level := 1, experience := 0, capacity := 3000000000 }

/-- With 100 points the level 2 is reached, and without them the level 1 again: the clamp
takes all of the capacity. -/
theorem capacity_lost_by_clamp :
    ¬∀ (p : Player) (exp : UInt64), scale.Within p.level p.experience.toNat →
      p.experience.toNat + exp.toNat < 2 ^ 63 →
      Player.SameStats ((p.addExperience exp).removeExperience exp) p := by
  intro h
  have hcapacity := (h strong 100 ⟨by decide, by decide⟩ (by decide)).capacity
  have hadd : strong.addExperience 100 =
      (({ strong with experience := 100 }.levelUp).refill 1).showPercent := by
    rw [Player.addExperience, dif_pos (by decide), if_neg (by decide), Player.addLoop,
      dif_pos (by decide), dif_pos (by decide), Player.addLoop, dif_neg (by decide)]
    rfl
  rw [hadd, Player.removeExperience, if_neg (by decide), Player.removeLoop, dif_pos (by decide),
    Player.removeLoop, dif_neg (by decide)] at hcapacity
  exact absurd hcapacity (by decide)

end Infernum.Experience
