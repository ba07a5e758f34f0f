import Infernum.Advance.Climbing

/-!
# What death takes from skills

`Player::death` takes a share of all the mana ever spent and of all the tries of every
skill, borrowing from lower levels. The share is computed in floating point: it is a
parameter here, any function of the total.
-/

namespace Infernum.Advance

open Vocation

/-- The skills in the order of `SKILL_FIRST` to `SKILL_LAST`. -/
def Skills.all : List Skills := [.fist, .club, .sword, .axe, .distance, .shield, .fishing]

namespace Player

/-! ## The magic level -/

/-- The sum over the first `n` magic levels. -/
def sumMana (v : Vocation) : Nat → UInt64
  | 0 => 0
  | n + 1 => sumMana v n + v.getReqMana (.ofNat (n + 1))

/-- The loop that gives up magic levels: the level, the mana spent and the mana still to be
lost. -/
def manaLossLoop (v : Vocation) (magLevel : UInt32) (manaSpent lostMana : UInt64) :
    UInt32 × UInt64 × UInt64 :=
  if _h : lostMana > manaSpent ∧ magLevel > 0 then
    manaLossLoop v (magLevel - 1) (v.getReqMana magLevel) (lostMana - manaSpent)
  else (magLevel, manaSpent, lostMana)
termination_by magLevel.toNat
decreasing_by
  have hpos : 0 < magLevel.toNat := UInt32.lt_iff_toNat_lt.mp _h.2
  have hone : (1 : UInt32).toNat = 1 := rfl
  have hle : 1 ≤ magLevel := by
    rw [UInt32.le_iff_toNat_le]
    omega
  rw [UInt32.toNat_sub_of_le _ _ hle]
  omega

def lostMana (share : UInt64 → UInt64) (p : Player) : UInt64 :=
  share (sumMana p.vocation p.magLevel.toNat + p.manaSpent)

/-- The loss of the magic level. The loop over all levels never ends where the level is the
last number of 32 bits. -/
def loseMana (share : UInt64 → UInt64) (p : Player) : Option Player :=
  if p.magLevel = 4294967295 then none
  else
    let (magLevel, manaSpent, lostMana) :=
      manaLossLoop p.vocation p.magLevel p.manaSpent (p.lostMana share)
    let manaSpent := manaSpent - lostMana
    let nextReqMana := p.vocation.getReqMana (magLevel + 1)
    some { p with
      magLevel := magLevel
      manaSpent := manaSpent
      magLevelPercent :=
        if nextReqMana > p.vocation.getReqMana magLevel then getPercentLevel manaSpent nextReqMana
        else 0 }

/-! ## Skills -/

/-- The sum over the levels eleven to `10 + n`, which are read one after the other. -/
def sumTries (v : Vocation) (which : Skills) : Nat → UInt64 × Vocation
  | 0 => (0, v)
  | n + 1 =>
    let (sum, v) := sumTries v which n
    let (tries, v) := v.getReqSkillTries which (.ofNat (11 + n))
    (sum + tries, v)

/-- The loop that gives up levels of a skill: the level, the tries and the tries still to
be lost. -/
def triesLossLoop (which : Skills) (v : Vocation) (level : UInt16) (tries : UInt64)
    (lost : UInt32) : UInt16 × UInt64 × UInt32 × Vocation :=
  if lost.toUInt64 > tries then
    let lost := (lost.toUInt64 - tries).toUInt32
    if _h : level ≤ 10 then (10, 0, 0, v)
    else
      let (tries, v) := v.getReqSkillTries which level
      triesLossLoop which v (level - 1) tries lost
  else (level, tries, lost, v)
termination_by level.toNat
decreasing_by
  have hpos : 10 < level.toNat := UInt16.lt_iff_toNat_lt.mp (UInt16.not_le.mp _h)
  have hone : (1 : UInt16).toNat = 1 := rfl
  have hle : 1 ≤ level := by
    rw [UInt16.le_iff_toNat_le]
    omega
  rw [UInt16.toNat_sub_of_le _ _ hle]
  omega

/-- `std::max<int32_t>(0, n)` on a number of 64 bits. -/
def max_int32 (n : UInt64) : UInt64 :=
  if n.toUInt32.toNat < 2 ^ 31 then n.toUInt32.toUInt64 else 0

/-- The share of a skill's tries, cut to 32 bits. -/
def lostTries (share : UInt64 → UInt64) (p : Player) (which : Skills) : UInt32 :=
  let s := p.skills which
  (share ((sumTries p.vocation which (s.level.toNat - 10)).1 + s.tries)).toUInt32

/-- The loss of a skill. Its loop over all levels never ends at the last number of 16
bits. The percentage is that of the requirement of the level itself. -/
def loseTries (share : UInt64 → UInt64) (p : Player) (which : Skills) : Option Player :=
  let s := p.skills which
  if s.level = 65535 then none
  else
    let v := (sumTries p.vocation which (s.level.toNat - 10)).2
    let (level, tries, lost, v) := triesLossLoop which v s.level s.tries (p.lostTries share which)
    let tries := max_int32 (tries - lost.toUInt64)
    let (req, v) := v.getReqSkillTries which level
    some (p.setSkill which ⟨tries, level, getPercentLevel tries req⟩ v)

/-- The loss of magic level and skills in `Player::death`; `none` if it never ends. -/
def deathLoss (share : UInt64 → UInt64) (p : Player) : Option Player := do
  let p ← p.loseMana share
  Skills.all.foldlM (loseTries share) p

end Player

end Infernum.Advance
