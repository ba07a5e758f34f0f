import Mathlib.Tactic.Common
import Mathlib.Algebra.Order.Ring.Nat
import Mathlib.Algebra.Order.Ring.Int

/-!
# Training

Skills and the magic level advance by tries and by mana spent, on-line and off-line. Every
level has a requirement; what the vocation computes for a skill is kept in a cache of
32 bits.
-/

namespace Infernum.Advance

/-- The skills of `skills_t` that have tries. -/
inductive Skills
  | fist
  | club
  | sword
  | axe
  | distance
  | shield
  | fishing
deriving DecidableEq, Repr

structure Vocation where
  /-- The base of a skill times its multiplier to the power of the level less eleven, cut to
  64 bits. -/
  tries : Skills → UInt16 → UInt64
  cacheSkill : Skills → UInt16 → Option UInt32
  /-- 400 times the multiplier of mana to the power of the level less one, cut to 64 bits. -/
  mana : UInt32 → UInt64

namespace Vocation

def getReqSkillTries (v : Vocation) (skill : Skills) (level : UInt16) : UInt64 × Vocation :=
  match v.cacheSkill skill level with
  | some tries => (tries.toUInt64, v)
  | none =>
    let tries := v.tries skill level
    (tries, { v with
      cacheSkill := fun s l =>
        if s = skill ∧ l = level then some tries.toUInt32 else v.cacheSkill s l })

/-- The cache of `getReqMana` holds what was computed in full, so it is left out. -/
def getReqMana (v : Vocation) (magLevel : UInt32) : UInt64 :=
  let reqMana := v.mana magLevel
  let modResult := (reqMana % 20).toUInt32
  if modResult < 10 then reqMana - modResult.toUInt64 else reqMana - (modResult + 20).toUInt64

end Vocation

structure Skill where
  tries : UInt64
  level : UInt16
  percent : UInt8
deriving DecidableEq, Repr

/-- What training reads and writes of a player. `notGainMana` is its flag
`PlayerFlag_NotGainMana`. -/
structure Player where
  skills : Skills → Skill
  magLevel : UInt32
  manaSpent : UInt64
  magLevelPercent : UInt8
  vocation : Vocation
  notGainMana : Bool

def getPercentLevel (count nextLevelCount : UInt64) : UInt8 :=
  if nextLevelCount = 0 then 0
  else
    let result := (count * 100 / nextLevelCount).toUInt8
    if result > 100 then 0 else result

/-! ## Skills -/

/-- The variables of the loop over the levels of a skill. -/
structure Rise where
  vocation : Vocation
  skill : Skill
  count : UInt64
  currReqTries : UInt64
  nextReqTries : UInt64

namespace Rise

/-- One level up, and the next requirement is read. -/
def levelUp (which : Skills) (r : Rise) : Rise :=
  let level := r.skill.level + 1
  let next := r.vocation.getReqSkillTries which (level + 1)
  { vocation := next.2
    skill := ⟨0, level, 0⟩
    count := r.count - (r.nextReqTries - r.skill.tries)
    currReqTries := r.nextReqTries
    nextReqTries := next.1 }

theorem levelUp_total (which : Skills) (r : Rise) :
    (r.levelUp which).skill.tries + (r.levelUp which).count =
      r.skill.tries + r.count - r.nextReqTries := by
  show 0 + (r.count - (r.nextReqTries - r.skill.tries)) = _
  grind

theorem levelUp_lt {which : Skills} {r : Rise} (h : r.currReqTries < r.nextReqTries)
    (hge : r.skill.tries + r.count ≥ r.nextReqTries) :
    ((r.levelUp which).skill.tries + (r.levelUp which).count).toNat <
      (r.skill.tries + r.count).toNat := by
  rw [levelUp_total, UInt64.toNat_sub_of_le _ _ hge]
  have hlt := UInt64.lt_iff_toNat_lt.mp h
  have hle := UInt64.le_iff_toNat_le.mp hge
  omega

/-- The loop of `addSkillAdvance`, and that of `addOfflineTrainingTries`, which differs in
its messages only. At the top of the skill what is left of the tries is dropped. -/
def loop (which : Skills) (r : Rise) (_h : r.currReqTries < r.nextReqTries) : Rise :=
  if _hge : r.skill.tries + r.count ≥ r.nextReqTries then
    let r' := r.levelUp which
    if h' : r'.currReqTries < r'.nextReqTries then loop which r' h' else { r' with count := 0 }
  else r
termination_by (r.skill.tries + r.count).toNat
decreasing_by exact levelUp_lt _h _hge

/-- The skill after the loop. -/
def done (r : Rise) : Skill :=
  let tries := r.skill.tries + r.count
  { r.skill with
    tries := tries
    percent :=
      if r.nextReqTries > r.currReqTries then getPercentLevel tries r.nextReqTries else 0 }

end Rise

namespace Player

def setSkill (p : Player) (which : Skills) (s : Skill) (v : Vocation) : Player :=
  { p with skills := Function.update p.skills which s, vocation := v }

/-- The start of the loop: the requirements of the level and of the next are read. -/
def rise (p : Player) (which : Skills) (count : UInt64) : Rise :=
  let s := p.skills which
  let curr := p.vocation.getReqSkillTries which s.level
  let next := curr.2.getReqSkillTries which (s.level + 1)
  { vocation := next.2, skill := s, count := count, currReqTries := curr.1,
    nextReqTries := next.1 }

def addSkillAdvance (p : Player) (which : Skills) (count : UInt64) : Player :=
  let r := p.rise which count
  if h : r.currReqTries < r.nextReqTries then
    if count = 0 then { p with vocation := r.vocation }
    else
      let r := r.loop which h
      p.setSkill which r.done r.vocation
  else { p with vocation := r.vocation }

end Player

/-! ## The magic level -/

/-- The variables of the loop over the magic levels. -/
structure ManaRise where
  magLevel : UInt32
  manaSpent : UInt64
  amount : UInt64
  currReqMana : UInt64
  nextReqMana : UInt64

namespace ManaRise

def levelUp (v : Vocation) (r : ManaRise) : ManaRise :=
  let magLevel := r.magLevel + 1
  { magLevel := magLevel
    manaSpent := 0
    amount := r.amount - (r.nextReqMana - r.manaSpent)
    currReqMana := r.nextReqMana
    nextReqMana := v.getReqMana (magLevel + 1) }

theorem levelUp_total (v : Vocation) (r : ManaRise) :
    (r.levelUp v).manaSpent + (r.levelUp v).amount =
      r.manaSpent + r.amount - r.nextReqMana := by
  show 0 + (r.amount - (r.nextReqMana - r.manaSpent)) = _
  grind

theorem levelUp_lt {v : Vocation} {r : ManaRise} (h : r.currReqMana < r.nextReqMana)
    (hge : r.manaSpent + r.amount ≥ r.nextReqMana) :
    ((r.levelUp v).manaSpent + (r.levelUp v).amount).toNat <
      (r.manaSpent + r.amount).toNat := by
  rw [levelUp_total, UInt64.toNat_sub_of_le _ _ hge]
  have hlt := UInt64.lt_iff_toNat_lt.mp h
  have hle := UInt64.le_iff_toNat_le.mp hge
  omega

/-- The loop of `addManaSpent` and of `addOfflineTrainingTries`, and whether it was left at
the top of the magic level. -/
def loop (v : Vocation) (r : ManaRise) (_h : r.currReqMana < r.nextReqMana) : ManaRise × Bool :=
  if _hge : r.manaSpent + r.amount ≥ r.nextReqMana then
    let r' := r.levelUp v
    if h' : r'.currReqMana < r'.nextReqMana then loop v r' h' else (r', true)
  else (r, false)
termination_by (r.manaSpent + r.amount).toNat
decreasing_by exact levelUp_lt _h _hge

end ManaRise

namespace Player

def manaRise (p : Player) (amount : UInt64) : ManaRise :=
  { magLevel := p.magLevel, manaSpent := p.manaSpent, amount := amount
    currReqMana := p.vocation.getReqMana p.magLevel
    nextReqMana := p.vocation.getReqMana (p.magLevel + 1) }

def addManaSpent (p : Player) (amount : UInt64) : Player :=
  if p.notGainMana then p
  else
    let r := p.manaRise amount
    if h : r.currReqMana < r.nextReqMana then
      if amount = 0 then p
      else
        match r.loop p.vocation h with
        -- the function returns: the percentage stays
        | (r, true) => { p with magLevel := r.magLevel, manaSpent := r.manaSpent }
        | (r, false) =>
          let manaSpent := r.manaSpent + r.amount
          { p with
            magLevel := r.magLevel
            manaSpent := manaSpent
            magLevelPercent :=
              if r.nextReqMana > r.currReqMana then getPercentLevel manaSpent r.nextReqMana
              else 0 }
    else p

end Player

/-! ## Off-line training -/

/-- `skills_t` with the magic level and the level. -/
inductive Trained
  | skill (which : Skills)
  | magLevel
  | level
deriving DecidableEq, Repr

/-- `addOfflineTrainingTries`, and whether it sends an update. -/
def Player.addOfflineTrainingTries (p : Player) (skill : Trained) (tries : UInt64) :
    Player × Bool :=
  if tries = 0 then (p, false)
  else
    match skill with
    | .level => (p, false)
    | .magLevel =>
      let r := p.manaRise tries
      if h : r.currReqMana < r.nextReqMana then
        let (r', top) := r.loop p.vocation h
        let tries := if top then 0 else r'.amount
        let manaSpent := r'.manaSpent + tries
        let newPercent :=
          if r'.nextReqMana > r'.currReqMana then getPercentLevel manaSpent r'.nextReqMana
          else 0
        ({ p with magLevel := r'.magLevel, manaSpent := manaSpent
                  magLevelPercent := newPercent },
          decide (r.manaSpent + r.amount ≥ r.nextReqMana) || newPercent != p.magLevelPercent)
      else (p, false)
    | .skill which =>
      let r := p.rise which tries
      if h : r.currReqTries < r.nextReqTries then
        let r' := r.loop which h
        (p.setSkill which r'.done r'.vocation,
          decide (r.skill.tries + r.count ≥ r.nextReqTries) ||
            r'.done.percent != (p.skills which).percent)
      else ({ p with vocation := r.vocation }, false)

end Infernum.Advance
