import Infernum.Condition.Reload
import Infernum.Condition.Runs

/-!
# What a saved condition still does

A condition that is read back is started on the same creature as the one that
was saved, and what the two do is compared. Both do the same exactly when the
fields that are not saved say nothing.
-/

namespace Infernum

open Equip (Skill SpecialSkill Stat Var)

namespace Condition

/-! ## Effects -/

/-- What a condition that has started goes on to do: regeneration, light that fades, or
damage at regular intervals or in rounds. -/
inductive Course
  | nothing
  | regeneration (g : ConditionRegeneration)
  | soul (u : ConditionSoul)
  | light (l : ConditionLight)
  | periodic (damage tickInterval periodDamageTick : BitVec 32)
  | rounds (list : List IntervalInfo)

/-- The course that the data of a started condition stand for. -/
def course : ConditionData → Course
  | .regeneration g => .regeneration g
  | .soul u => .soul u
  | .light l => .light l
  | .damage d =>
      if d.periodDamage ≠ 0 then .periodic d.periodDamage d.tickInterval d.periodDamageTick
      else .rounds d.damageList
  | _ => .nothing

/-- The damage that `getNextDamage` hands out. -/
def nextDamage (d : ConditionDamage) : Option (BitVec 32) :=
  if d.periodDamage ≠ 0 then some d.periodDamage else d.damageList.head?.map (·.value)

/-- The damage that is done when a condition starts. -/
def firstDamage (env : Env) (c : Condition) : Option (BitVec 32) :=
  match c.data with
  | .damage d =>
      match (c.startTicks env).init env d with
      | (_, d, true) => if d.delayed then none else nextDamage d
      | (_, _, false) => none
  | _ => none

/-- What a condition does to a creature. -/
structure Effects where
  /-- skills, special skills, stats and speed -/
  vars : Var → BitVec 32
  canUseDefense : Bool
  light : LightInfo
  outfit : Outfit
  /-- `startCondition` accepts the condition -/
  starts : Bool
  damage : Option (BitVec 32)
  course : Course

/-- The effects of a condition that is started on a creature. What a damage leads to
depends on the damage alone: `done` says whether it is done. -/
def effects (env : Env) (done : Bool) (s : Creature) (c : Condition) : Effects :=
  let (s, r) := s.alloc c
  let (s, starts) := s.startCondition env (fun s _ => (s, done)) r
  { vars := s.player.vars
    canUseDefense := s.canUseDefense
    light := s.internalLight
    outfit := s.currentOutfit
    starts := starts
    damage := c.firstDamage env
    course := if starts then course (s.condition r).data else .nothing }

/-- A number that may be drawn from an interval whose ends come in any order. -/
def Drawn (a b x : BitVec 32) : Prop :=
  min a.toInt b.toInt ≤ x.toInt ∧ x.toInt ≤ max a.toInt b.toInt

instance (a b x : BitVec 32) : Decidable (Drawn a b x) := inferInstanceAs (Decidable (_ ∧ _))

section SameEffects

-- the functions of the server that calculate with floating-point numbers
variable (percentOf : BitVec 32 → BitVec 32 → BitVec 32)
  (generateDamageList : BitVec 32 → BitVec 32 → List (BitVec 32))

/-- The server calculates with the two functions and draws from the interval. -/
structure Calculates (env : Env) : Prop where
  percentOf : env.percentOf = percentOf
  generateDamageList : env.generateDamageList = generateDamageList
  drawn : ∀ a b, Drawn a b (env.uniform_random a b)

/-- Two conditions have the same effects on every creature. -/
def SameEffects (c c' : Condition) : Prop :=
  ∀ env done s, Calculates percentOf generateDamageList env →
    effects env done s c' = effects env done s c

/-! ## What is not saved -/

end SameEffects

/-! ## Damage -/

section Damage

variable {env : Env} {c : Condition} {d : ConditionDamage}

theorem startTicks_data : (c.startTicks env).data = c.data := by
  unfold startTicks
  split <;> rfl

end Damage

/-! ## What is read back -/

section Reloaded

variable (env : Env) (c : Condition)

end Reloaded

/-! ## Attributes -/

section Attributes

variable (env : Env) (s : Creature) (a : ConditionAttributes)

/-- What attributes add to the variables of a player. -/
def granted : Var → BitVec 32
  | .skill i =>
      if a.skillsPercent i = 0 then a.skills i else env.percentOf (s.baseSkill i) (a.skillsPercent i)
  | .specialSkill i => a.specialSkills i
  | .stat i => (s.updatePercentStats env a).stats i
  | _ => 0

end Attributes

/-! ## The other classes -/

section Others

variable (env : Env) (done : Bool) (s : Creature)

end Others

/-! ## The same effects -/

section Exact

variable (percentOf : BitVec 32 → BitVec 32 → BitVec 32)
  (generateDamageList : BitVec 32 → BitVec 32 → List (BitVec 32))

/-- A server that draws a given number from one interval, and the first end of any other. -/
def drawingServer (min max amount : BitVec 32) : Env :=
  { Creature.quietServer with
    percentOf := percentOf
    generateDamageList := generateDamageList
    uniform_random := fun a b => if a = min ∧ b = max then amount else a }

theorem drawingServer_calculates {min max amount : BitVec 32} (h : Drawn min max amount) :
    Calculates percentOf generateDamageList
      (drawingServer percentOf generateDamageList min max amount) where
  percentOf := rfl
  generateDamageList := rfl
  drawn a b := by
    show Drawn a b (if a = min ∧ b = max then amount else a)
    by_cases hends : a = min ∧ b = max
    · rw [if_pos hends, hends.1, hends.2]
      exact h
    · rw [if_neg hends]
      unfold Drawn
      omega

/-- A player with given values. -/
def novice (level health mana : BitVec 32) : Creature :=
  { Creature.newPlayer with
    baseSkill := fun _ => level
    player := { magLevel := level, healthMax := health, manaMax := mana } }

variable {percentOf generateDamageList}

/-- What a condition leaves to do is an effect that a novice shows. -/
theorem SameEffects.course {c c' : Condition} (h : SameEffects percentOf generateDamageList c c') :
    (effects (drawingServer percentOf generateDamageList 0 0 0) true (novice 0 0 0) c').course =
      (effects (drawingServer percentOf generateDamageList 0 0 0) true (novice 0 0 0) c).course :=
  congrArg Effects.course (h _ true (novice 0 0 0)
    (drawingServer_calculates percentOf generateDamageList (show Drawn 0 0 0 by decide)))

variable (percentOf generateDamageList)

/-- A condition comes back from its bytes as it was, with the same effects. -/
def RoundTrips (env : Env) (c : Condition) : Prop :=
  ∃ c' s, createFromStream (c.serialize ++ [ConditionAttr.end.code]) = (some c', s) ∧
    ∃ c'', unserialize env s c' = (some c'', []) ∧
      c''.conditionType = c.conditionType ∧ c''.id = c.id ∧ c''.ticks = c.ticks ∧
      c''.isBuff = c.isBuff ∧ c''.subId = c.subId ∧
      SameEffects percentOf generateDamageList c c''

variable {percentOf generateDamageList}

/-- Only what is read back can come back. -/
theorem RoundTrips.reloaded {env : Env} {c : Condition}
    (h : RoundTrips percentOf generateDamageList env c) (hfits : c.Fits = true) :
    (reloaded env c).ticks = c.ticks ∧
      SameEffects percentOf generateDamageList c (reloaded env c) := by
  obtain ⟨c', s, hcreate, hread⟩ := load_serialize env hfits []
  obtain ⟨c₁, s₁, hcreate₁, c₂, hread₂, -, -, hticks, -, -, hsame⟩ := h
  rw [hcreate] at hcreate₁
  cases hcreate₁
  rw [hread] at hread₂
  cases hread₂
  exact ⟨hticks, hsame⟩

variable (percentOf generateDamageList)

end Exact

/-- Haste of ten seconds. -/
def haste : Condition :=
  (new CONDITIONID_DEFAULT .haste 10000 false 0 (.speed { speedDelta := 0 })).setParam .speed 100

theorem loadConditions_save_haste :
    loadConditions Creature.quietServer (saveConditions [haste, haste]) [] =
      (([haste, haste].filter isPersistent).map (reloaded Creature.quietServer)).reverse ++ [] :=
  loadConditions_save Creature.quietServer (by decide) []

end Condition

end Infernum
