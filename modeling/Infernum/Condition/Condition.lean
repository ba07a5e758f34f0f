import Infernum.Equip.Abilities

/-!
# Conditions

`Condition` and its subclasses: what a condition is made of, how it is created
and what it does to itself. What it does to a creature comes later.
-/

namespace Infernum

open Equip (Skill SpecialSkill Stat)

/-! ## Types and ids -/

/-- `ConditionType_t`. -/
inductive ConditionType
  | none | poison | fire | energy | bleeding | haste | paralyze | outfit | invisible | light
  | manaShield | inFight | drunk | exhaustWeapon | regeneration | soul | drown | muted
  | channelMutedTicks | yellTicks | attributes | freezing | dazzled | cursed | exhaustCombat
  | exhaustHeal | pacified | spellCooldown | spellGroupCooldown
  deriving DecidableEq, Repr

/-- `ConditionId_t`, an `int8_t`. -/
abbrev ConditionId := BitVec 8

def CONDITIONID_DEFAULT : ConditionId := -1
def CONDITIONID_COMBAT : ConditionId := 0

/-- `EVENT_CREATURE_THINK_INTERVAL`. -/
def EVENT_CREATURE_THINK_INTERVAL : BitVec 32 := 1000

/-! ## The classes -/

structure ConditionAttributes where
  skills : Skill → BitVec 32 := fun _ => 0
  skillsPercent : Skill → BitVec 32 := fun _ => 0
  specialSkills : SpecialSkill → BitVec 32 := fun _ => 0
  stats : Stat → BitVec 32 := fun _ => 0
  statsPercent : Stat → BitVec 32 := fun _ => 0
  currentSkill : Nat := 0
  currentStat : Nat := 0
  disableDefense : Bool := false

structure ConditionRegeneration where
  internalHealthTicks : BitVec 32 := 0
  internalManaTicks : BitVec 32 := 0
  healthTicks : BitVec 32 := 1000
  manaTicks : BitVec 32 := 1000
  healthGain : BitVec 32 := 0
  manaGain : BitVec 32 := 0
  deriving DecidableEq

structure ConditionSoul where
  internalSoulTicks : BitVec 32 := 0
  soulTicks : BitVec 32 := 0
  soulGain : BitVec 32 := 0
  deriving DecidableEq

structure IntervalInfo where
  timeLeft : BitVec 32
  value : BitVec 32
  interval : BitVec 32
  deriving DecidableEq

structure ConditionDamage where
  maxDamage : BitVec 32 := 0
  minDamage : BitVec 32 := 0
  startDamage : BitVec 32 := 0
  periodDamage : BitVec 32 := 0
  periodDamageTick : BitVec 32 := 0
  tickInterval : BitVec 32 := 2000
  forceUpdate : Bool := false
  delayed : Bool := false
  field : Bool := false
  owner : BitVec 32 := 0
  damageList : List IntervalInfo := []
  deriving DecidableEq

/-- The four floating-point numbers are known by their bits. -/
structure ConditionSpeed where
  speedDelta : BitVec 32
  mina : BitVec 32 := 0
  minb : BitVec 32 := 0
  maxa : BitVec 32 := 0
  maxb : BitVec 32 := 0
  deriving DecidableEq

/-- `Outfit_t`. -/
structure Outfit where
  lookType : BitVec 16 := 0
  lookTypeEx : BitVec 16 := 0
  lookMount : BitVec 16 := 0
  lookHead : BitVec 8 := 0
  lookBody : BitVec 8 := 0
  lookLegs : BitVec 8 := 0
  lookFeet : BitVec 8 := 0
  lookAddons : BitVec 8 := 0
  deriving DecidableEq

structure LightInfo where
  level : BitVec 8 := 0
  color : BitVec 8 := 0
  deriving DecidableEq

structure ConditionLight where
  lightInfo : LightInfo
  internalLightTicks : BitVec 32 := 0
  lightChangeInterval : BitVec 32 := 0
  deriving DecidableEq

/-- The classes of conditions that are created. -/
inductive ConditionClass
  | generic | attributes | regeneration | soul | invisible | damage | speed | outfit | light
  | spellCooldown | spellGroupCooldown
  deriving DecidableEq, Repr

/-- What a condition has besides the fields of `Condition`, by its class. -/
inductive ConditionData
  | generic
  | attributes (a : ConditionAttributes)
  | regeneration (r : ConditionRegeneration)
  | soul (s : ConditionSoul)
  | invisible
  | damage (d : ConditionDamage)
  | speed (s : ConditionSpeed)
  | outfit (o : Outfit)
  | light (l : ConditionLight)
  | spellCooldown
  | spellGroupCooldown

/-- The class that is created for a type. -/
def ConditionType.toClass : ConditionType → Option ConditionClass
  | .poison | .fire | .energy | .drown | .freezing | .dazzled | .cursed | .bleeding => some .damage
  | .haste | .paralyze => some .speed
  | .invisible => some .invisible
  | .outfit => some .outfit
  | .light => some .light
  | .regeneration => some .regeneration
  | .soul => some .soul
  | .attributes => some .attributes
  | .spellCooldown => some .spellCooldown
  | .spellGroupCooldown => some .spellGroupCooldown
  | .inFight | .drunk | .exhaustWeapon | .exhaustCombat | .exhaustHeal | .muted
  | .channelMutedTicks | .yellTicks | .pacified | .manaShield => some .generic
  | .none => Option.none

def ConditionData.toClass : ConditionData → ConditionClass
  | .generic => .generic
  | .attributes _ => .attributes
  | .regeneration _ => .regeneration
  | .soul _ => .soul
  | .invisible => .invisible
  | .damage _ => .damage
  | .speed _ => .speed
  | .outfit _ => .outfit
  | .light _ => .light
  | .spellCooldown => .spellCooldown
  | .spellGroupCooldown => .spellGroupCooldown

/-- The fields of a `ConditionAttributes`. -/
def ConditionData.asAttributes : ConditionData → Option ConditionAttributes
  | .attributes a => some a
  | _ => Option.none

/-- The fields of a `ConditionSpeed`. -/
def ConditionData.asSpeed : ConditionData → Option ConditionSpeed
  | .speed s => some s
  | _ => Option.none

/-- `Condition`. -/
structure Condition where
  endTime : Int
  subId : BitVec 32
  ticks : BitVec 32
  conditionType : ConditionType
  isBuff : Bool
  id : ConditionId
  data : ConditionData

namespace Condition

/-- The constructor of `Condition`. -/
def new (id : ConditionId) (type : ConditionType) (ticks : BitVec 32) (buff : Bool)
    (subId : BitVec 32) (data : ConditionData) : Condition where
  endTime := if ticks = -1 then 2 ^ 63 - 1 else 0
  subId := subId
  ticks := ticks
  conditionType := type
  isBuff := buff
  id := id
  data := data

/-- `Condition::createCondition`; `none` is the null pointer. A damage condition is
made without ticks. -/
def createCondition (id : ConditionId) (type : ConditionType) (ticks param : BitVec 32)
    (buff : Bool) (subId : BitVec 32) : Option Condition :=
  match type.toClass with
  | some .damage => some (new id type 0 buff subId (.damage {}))
  | some .speed => some (new id type ticks buff subId (.speed { speedDelta := param }))
  | some .invisible => some (new id type ticks buff subId .invisible)
  | some .outfit => some (new id type ticks buff subId (.outfit {}))
  | some .light => some (new id type ticks buff subId
      (.light { lightInfo := { level := param.setWidth 8, color := (param >>> 8).setWidth 8 } }))
  | some .regeneration => some (new id type ticks buff subId (.regeneration {}))
  | some .soul => some (new id type ticks buff subId (.soul {}))
  | some .attributes => some (new id type ticks buff subId (.attributes {}))
  | some .spellCooldown => some (new id type ticks buff subId .spellCooldown)
  | some .spellGroupCooldown => some (new id type ticks buff subId .spellGroupCooldown)
  | some .generic => some (new id type ticks buff subId .generic)
  | none => none

/-- A condition of a type is an object of the class that is created for the type. -/
def Fits (c : Condition) : Bool := c.conditionType.toClass == some c.data.toClass

theorem fits_createCondition {id : ConditionId} {type : ConditionType} {ticks param : BitVec 32}
    {buff : Bool} {subId : BitVec 32} {c : Condition}
    (h : createCondition id type ticks param buff subId = some c) : c.Fits = true := by
  cases type <;> cases h <;> rfl

/-- What tells the conditions of a creature apart. -/
def key (c : Condition) : ConditionType × ConditionId × BitVec 32 :=
  (c.conditionType, c.id, c.subId)

/-- `Condition::isPersistent`. -/
def isPersistent (c : Condition) : Bool :=
  if c.ticks = -1 then false
  else c.id == CONDITIONID_DEFAULT || c.id == CONDITIONID_COMBAT || c.conditionType == .muted

end Condition

/-! ## What the rest of the server says -/

/-- What a damage that a condition does leads to. -/
structure Hit where
  /-- what `doDamage` returns -/
  done : Bool
  /-- the creature is attacked: the ticks of `CONDITION_INFIGHT`, if it gets them -/
  inFight : Option (BitVec 32) := none
  /-- a monster loses its invisibility -/
  seen : Bool := false

/-- The time, the chance and the answers of the rest of the server during an
operation, and the arithmetic of floating-point numbers. -/
structure Env where
  OTSYS_TIME : Int
  /-- `Creature::getWalkDelay` -/
  getWalkDelay : Int
  /-- `Creature::isSuppress` -/
  isSuppress : ConditionType → Bool
  /-- the zone of the creature is `ZONE_PROTECTION` -/
  inProtectionZone : Bool
  /-- what the magic field on the tile makes of `bRemove` -/
  onTickCondition : ConditionType → Bool → Bool
  /-- what damage done by an object leads to -/
  hit : Nat → Hit
  /-- `eventCreatureOnChangeOutfit` -/
  mayChangeOutfit : Bool
  /-- the light of the player's items -/
  itemsLight : LightInfo
  uniform_random : BitVec 32 → BitVec 32 → BitVec 32
  /-- `static_cast<int32_t>(base * ((percent - 100) / 100.f))` -/
  percentOf : BitVec 32 → BitVec 32 → BitVec 32
  /-- `(var * a) + b` -/
  formula : BitVec 32 → BitVec 32 → BitVec 32 → BitVec 32
  /-- `ConditionDamage::generateDamageList` -/
  generateDamageList : BitVec 32 → BitVec 32 → List (BitVec 32)

namespace Condition

variable (env : Env) (c : Condition)

/-! ## Ticks -/

/-- `Condition::setTicks`. -/
def setTicks (newTicks : BitVec 32) : Condition :=
  { c with ticks := newTicks, endTime := newTicks.toInt + env.OTSYS_TIME }

/-- `Condition::startCondition`. -/
def startTicks : Condition :=
  if 0 < c.ticks.toInt then { c with endTime := c.ticks.toInt + env.OTSYS_TIME } else c

/-- `Condition::executeCondition`: the condition goes on. -/
def executeTicks (interval : BitVec 32) : Condition × Bool :=
  if c.ticks = -1 then (c, true)
  else
    let ticks := c.ticks - interval
    let c := { c with ticks := if ticks.toInt < 0 then 0 else ticks }
    (c, env.OTSYS_TIME ≤ c.endTime)

/-- `Condition::updateCondition`. -/
def updateCondition (addCondition : Condition) : Bool :=
  if c.conditionType ≠ addCondition.conditionType then false
  else if c.ticks = -1 ∧ 0 < addCondition.ticks.toInt then false
  else if 0 ≤ addCondition.ticks.toInt ∧
      env.OTSYS_TIME + addCondition.ticks.toInt < c.endTime then false
  else true

/-! ## Damage -/

/-- `ConditionDamage::getTotalDamage`. -/
def getTotalDamage (d : ConditionDamage) : BitVec 32 :=
  let result :=
    if d.damageList.isEmpty then d.minDamage + (d.maxDamage - d.minDamage).sdiv 2
    else d.damageList.foldl (fun result info => result + info.value) 0
  result.abs

/-- `ConditionDamage::updateCondition`. -/
def updateDamage (d : ConditionDamage) (addTicks : BitVec 32) (addDamage : ConditionDamage) : Bool :=
  if addDamage.forceUpdate then true
  else if c.ticks = -1 ∧ 0 < addTicks.toInt then false
  else (getTotalDamage d).toInt < (getTotalDamage addDamage).toInt

/-- One round of `addDamage`. -/
def pushDamage (info : IntervalInfo) (cd : Condition × ConditionDamage) : Condition × ConditionDamage :=
  let (c, d) := cd
  let d := { d with damageList := d.damageList ++ [info] }
  (if c.ticks ≠ -1 then c.setTicks env (c.ticks + info.interval) else c, d)

/-- `ConditionDamage::addDamage`; what it returns is left out. -/
def addDamage (rounds time value : BitVec 32) (cd : Condition × ConditionDamage) :
    Condition × ConditionDamage :=
  let (c, d) := cd
  let time := if time.toInt < EVENT_CREATURE_THINK_INTERVAL.toInt then
    EVENT_CREATURE_THINK_INTERVAL else time
  if rounds = -1 then
    ({ c with ticks := -1 }, { d with periodDamage := value, tickInterval := time.abs })
  else if 0 < d.periodDamage.toInt then (c, d)
  else (List.replicate rounds.toInt.toNat ⟨time, value, time⟩).foldl
    (fun cd info => pushDamage env info cd) (c, d)

/-- `std::ceil(amount / 20.0)`. -/
def ceilTwentieth (amount : BitVec 32) : BitVec 32 := .ofInt 32 (-((-amount.toInt) / 20))

/-- `ConditionDamage::init`. -/
def init (d : ConditionDamage) : Condition × ConditionDamage × Bool :=
  if d.periodDamage ≠ 0 then (c, d, true)
  else if !d.damageList.isEmpty then (c, d, true)
  else
    let c := c.setTicks env 0
    let amount := env.uniform_random d.minDamage d.maxDamage
    if amount ≠ 0 then
      let startDamage :=
        if d.maxDamage.toInt < d.startDamage.toInt then d.maxDamage
        else if d.startDamage = 0 then
          if (ceilTwentieth amount).toInt < 1 then 1 else ceilTwentieth amount
        else d.startDamage
      let d := { d with startDamage := startDamage }
      let (c, d) := (env.generateDamageList amount startDamage).foldl
        (fun cd value => addDamage env 1 d.tickInterval (-value) cd) (c, d)
      (c, d, !d.damageList.isEmpty)
    else (c, d, false)

/-- `ConditionDamage::getNextDamage`: whether there is damage to do. -/
def getNextDamage (d : ConditionDamage) : ConditionDamage × Bool :=
  if d.periodDamage ≠ 0 then (d, true)
  else
    match d.damageList with
    | [] => (d, false)
    | _ :: rest => (if c.ticks ≠ -1 then { d with damageList := rest } else d, true)

/-- The part of `ConditionDamage::executeCondition` before damage is done: the
condition, what is left of the interval, and whether damage is done. -/
def executeDamage (d : ConditionDamage) (interval : BitVec 32) :
    Condition × ConditionDamage × BitVec 32 × Bool :=
  if d.periodDamage ≠ 0 then
    let tick := d.periodDamageTick + interval
    if d.tickInterval.toInt ≤ tick.toInt then
      (c, { d with periodDamageTick := 0 }, interval, true)
    else (c, { d with periodDamageTick := tick }, interval, false)
  else
    match d.damageList with
    | [] => (c, d, interval, false)
    | info :: rest =>
        let bRemove := env.onTickCondition c.conditionType (c.ticks ≠ -1)
        let info := { info with timeLeft := info.timeLeft - interval }
        let due := info.timeLeft.toInt ≤ 0
        let list :=
          if due then if bRemove then rest else { info with timeLeft := info.interval } :: rest
          else info :: rest
        let d := { d with damageList := list }
        if bRemove then (c, d, interval, due)
        else
          (if 0 < c.ticks.toInt then { c with endTime := c.endTime + interval.toInt } else c, d, 0, due)

end Condition

end Infernum
