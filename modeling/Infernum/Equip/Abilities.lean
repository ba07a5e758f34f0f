import Infernum.Item.Item
import Mathlib.Data.Fintype.Basic
import Mathlib.Data.BitVec

/-!
# What an item's abilities are worth

The abilities of an item type and of one item, `Item::getAbilityValue`, and
the amounts `Player::updateAbilityConditions` adds to the player's variables.
-/

namespace Infernum.Equip

/-- `skills_t` from `SKILL_FIRST` to `SKILL_LAST`. -/
inductive Skill
  | fist | club | sword | axe | distance | shield | fishing
  deriving DecidableEq, Repr

/-- `SpecialSkills_t`. -/
inductive SpecialSkill
  | criticalHitChance | criticalHitAmount | hitPointsLeechChance | hitPointsLeechAmount
  | manaPointsLeechChance | manaPointsLeechAmount
  deriving DecidableEq, Repr

/-- `stats_t`. -/
inductive Stat
  | maxHitPoints | maxManaPoints | soulPoints | magicPoints
  deriving DecidableEq, Repr

/-- The loops over an enumeration run through it in this order. -/
def Skill.all : List Skill := [.fist, .club, .sword, .axe, .distance, .shield, .fishing]

def SpecialSkill.all : List SpecialSkill :=
  [.criticalHitChance, .criticalHitAmount, .hitPointsLeechChance, .hitPointsLeechAmount,
    .manaPointsLeechChance, .manaPointsLeechAmount]

def Stat.all : List Stat := [.maxHitPoints, .maxManaPoints, .soulPoints, .magicPoints]

theorem Skill.mem_all (i : Skill) : i ∈ all := by cases i <;> decide

theorem SpecialSkill.mem_all (i : SpecialSkill) : i ∈ all := by cases i <;> decide

theorem Stat.mem_all (i : Stat) : i ∈ all := by cases i <;> decide

/-- The abilities that `getAbilityValue` is asked for (`itemAbilityTypes`). The
resistances of the eight combat types are one constructor each. -/
inductive ItemAbilityType
  | healthGain | healthTicks | manaGain | manaTicks | conditionSuppressions
  | maxHitPoints | maxManaPoints | magicPoints
  | maxHitPointsPercent | maxManaPointsPercent | magicPointsPercent
  | skillFist | skillClub | skillSword | skillAxe | skillDistance | skillShield | skillFishing
  | criticalHitChance | criticalHitAmount | lifeLeechChance | lifeLeechAmount
  | manaLeechChance | manaLeechAmount
  | speed | absorb (combat : Fin 8) | fieldAbsorb (combat : Fin 8)
  | elementType | elementDamage | manaShield | invisible | regeneration
  | damageMitigation | bonusRegen | magicDamage | supportHealing | attackSpeed | flexSkill
  | bonusHealing
  deriving DecidableEq, Repr

/-- The position of the ability's bit. -/
def ItemAbilityType.bit : ItemAbilityType → Fin 53
  | .healthGain => 0
  | .healthTicks => 1
  | .manaGain => 2
  | .manaTicks => 3
  | .conditionSuppressions => 4
  | .maxHitPoints => 5
  | .maxManaPoints => 6
  | .magicPoints => 7
  | .maxHitPointsPercent => 8
  | .maxManaPointsPercent => 9
  | .magicPointsPercent => 10
  | .skillFist => 11
  | .skillClub => 12
  | .skillSword => 13
  | .skillAxe => 14
  | .skillDistance => 15
  | .skillShield => 16
  | .skillFishing => 17
  | .criticalHitChance => 18
  | .criticalHitAmount => 19
  | .lifeLeechChance => 20
  | .lifeLeechAmount => 21
  | .manaLeechChance => 22
  | .manaLeechAmount => 23
  | .speed => 24
  | .absorb combat => ⟨25 + combat, by omega⟩
  | .fieldAbsorb combat => ⟨33 + combat, by omega⟩
  | .elementType => 41
  | .elementDamage => 42
  | .manaShield => 43
  | .invisible => 44
  | .regeneration => 45
  | .damageMitigation => 46
  | .bonusRegen => 47
  | .magicDamage => 48
  | .supportHealing => 49
  | .attackSpeed => 50
  | .flexSkill => 51
  | .bonusHealing => 52

/-- `skillToAbility`. -/
def skillToAbility : Skill → ItemAbilityType
  | .fist => .skillFist
  | .club => .skillClub
  | .sword => .skillSword
  | .axe => .skillAxe
  | .distance => .skillDistance
  | .shield => .skillShield
  | .fishing => .skillFishing

/-- `specialSkillToAbility`. -/
def specialSkillToAbility : SpecialSkill → ItemAbilityType
  | .criticalHitChance => .criticalHitChance
  | .criticalHitAmount => .criticalHitAmount
  | .hitPointsLeechChance => .lifeLeechChance
  | .hitPointsLeechAmount => .lifeLeechAmount
  | .manaPointsLeechChance => .manaLeechChance
  | .manaPointsLeechAmount => .manaLeechAmount

/-- `statToAbility`; `none` is `ITEM_ABILITY_NONE`. -/
def statToAbility : Stat → Option ItemAbilityType
  | .maxHitPoints => some .maxHitPoints
  | .maxManaPoints => some .maxManaPoints
  | .soulPoints => none
  | .magicPoints => some .magicPoints

/-- `statToAbilityPercent`. -/
def statToAbilityPercent : Stat → Option ItemAbilityType
  | .maxHitPoints => some .maxHitPointsPercent
  | .maxManaPoints => some .maxManaPointsPercent
  | .soulPoints => none
  | .magicPoints => some .magicPointsPercent

/-- `Abilities`, without `conditionImmunities`, which no ability reads. -/
structure Abilities where
  healthGain : BitVec 32 := 0
  healthTicks : BitVec 32 := 0
  manaGain : BitVec 32 := 0
  manaTicks : BitVec 32 := 0
  conditionSuppressions : BitVec 32 := 0
  stats : Stat → BitVec 32 := fun _ => 0
  statsPercent : Stat → BitVec 32 := fun _ => 0
  skills : Skill → BitVec 32 := fun _ => 0
  specialSkills : SpecialSkill → BitVec 32 := fun _ => 0
  speed : BitVec 32 := 0
  fieldAbsorbPercent : Fin 8 → BitVec 16 := fun _ => 0
  absorbPercent : Fin 8 → BitVec 16 := fun _ => 0
  elementDamage : BitVec 16 := 0
  elementType : BitVec 16 := 0
  damageMitigation : BitVec 64 := 0
  bonusRegen : BitVec 64 := 0
  magicDamage : BitVec 64 := 0
  supportHealing : BitVec 64 := 0
  bonusHealing : BitVec 64 := 0
  attackSpeed : BitVec 64 := 0
  flexSkill : BitVec 64 := 0
  manaShield : Bool := false
  invisible : Bool := false
  regeneration : Bool := false

/-- `slots_t` from `CONST_SLOT_FIRST` to `CONST_SLOT_LAST`. -/
inductive Slot
  | head | necklace | backpack | armor | right | left | legs | feet | ring | ammo
  deriving DecidableEq, Repr

instance : Fintype Slot where
  elems := {.head, .necklace, .backpack, .armor, .right, .left, .legs, .feet, .ring, .ammo}
  complete slot := by cases slot <;> decide

/-- The fields of a `MoveEvent` that `EquipItem` reads. -/
structure MoveEvent where
  wieldInfo : BitVec 32 := 0
  reqLevel : BitVec 32 := 0
  reqMagLevel : BitVec 32 := 0
  premium : Bool := false
  /-- the keys of `vocEquipMap` -/
  vocEquipMap : List (BitVec 16) := []

/-- The tables equipment code reads besides the item table, and the two
products in `float` of a percentage with an `int32_t` and with a `uint32_t`. -/
structure World extends Infernum.World where
  abilities : BitVec 16 → Option Abilities
  stopTime : BitVec 16 → Bool
  transformEquipTo : BitVec 16 → BitVec 16
  transformDeEquipTo : BitVec 16 → BitVec 16
  /-- `MoveEvents::getEvent(item, MOVE_EVENT_EQUIP, slot)` -/
  equipEvent : BitVec 16 → Slot → Option MoveEvent
  /-- `MoveEvents::getEvent(item, MOVE_EVENT_DEEQUIP, slot)` is not null -/
  deEquipEvent : BitVec 16 → Slot → Bool
  percentOfInt : BitVec 32 → BitVec 64 → BitVec 32
  percentOfUInt : BitVec 32 → BitVec 64 → BitVec 32

/-- What the type's abilities give: the switch of `Item::getAbilityValue`, which
has no case for `ITEM_ABILITY_MANATICKS`. -/
def Abilities.value (a : Abilities) : ItemAbilityType → BitVec 64
  | .damageMitigation => a.damageMitigation
  | .bonusRegen => a.bonusRegen
  | .magicDamage => a.magicDamage
  | .supportHealing => a.supportHealing
  | .attackSpeed => a.attackSpeed
  | .flexSkill => a.flexSkill
  | .bonusHealing => a.bonusHealing
  | .healthGain => a.healthGain.setWidth 64
  | .healthTicks => a.healthTicks.setWidth 64
  | .manaGain => a.manaGain.setWidth 64
  | .manaTicks => 0
  | .conditionSuppressions => a.conditionSuppressions.setWidth 64
  | .maxHitPoints => (a.stats .maxHitPoints).signExtend 64
  | .maxManaPoints => (a.stats .maxManaPoints).signExtend 64
  | .magicPoints => (a.stats .magicPoints).signExtend 64
  | .maxHitPointsPercent => (a.statsPercent .maxHitPoints).signExtend 64
  | .maxManaPointsPercent => (a.statsPercent .maxManaPoints).signExtend 64
  | .magicPointsPercent => (a.statsPercent .magicPoints).signExtend 64
  | .skillFist => (a.skills .fist).signExtend 64
  | .skillClub => (a.skills .club).signExtend 64
  | .skillSword => (a.skills .sword).signExtend 64
  | .skillAxe => (a.skills .axe).signExtend 64
  | .skillDistance => (a.skills .distance).signExtend 64
  | .skillShield => (a.skills .shield).signExtend 64
  | .skillFishing => (a.skills .fishing).signExtend 64
  | .criticalHitChance => (a.specialSkills .criticalHitChance).signExtend 64
  | .criticalHitAmount => (a.specialSkills .criticalHitAmount).signExtend 64
  | .lifeLeechChance => (a.specialSkills .hitPointsLeechChance).signExtend 64
  | .lifeLeechAmount => (a.specialSkills .hitPointsLeechAmount).signExtend 64
  | .manaLeechChance => (a.specialSkills .manaPointsLeechChance).signExtend 64
  | .manaLeechAmount => (a.specialSkills .manaPointsLeechAmount).signExtend 64
  | .speed => a.speed.signExtend 64
  | .absorb combat => (a.absorbPercent combat).signExtend 64
  | .fieldAbsorb combat => (a.fieldAbsorbPercent combat).signExtend 64
  | .elementType => a.elementType.setWidth 64
  | .elementDamage => a.elementDamage.setWidth 64
  | .manaShield => if a.manaShield then 1 else 0
  | .invisible => if a.invisible then 1 else 0
  | .regeneration => if a.regeneration then 1 else 0

/-- `Item::hasAbilities`. -/
def hasAbilities (i : Item) : Bool := decide (∃ a, i.abilities a ≠ none)

/-- `Item::getAbilityValue`: the item's own ability if it has one, else the
type's. An item without a list of abilities and one with an empty list agree. -/
def getAbilityValue (w : World) (i : Item) (type : ItemAbilityType) : BitVec 64 :=
  match i.abilities type.bit with
  | some value => value
  | none =>
    match w.abilities i.id with
    | some a => a.value type
    | none => 0

/-- A variable of the player that equipment changes. -/
inductive Var
  | skill (s : Skill)
  | specialSkill (s : SpecialSkill)
  | stat (s : Stat)
  | statPercent (s : Stat)
  | speed
  deriving DecidableEq, Repr

/-- Everything `updateAbilityConditions` reads to find its amounts: the item's
ability values and the player's base values. -/
structure Worn where
  value : ItemAbilityType → BitVec 64
  healthMax : BitVec 32
  manaMax : BitVec 32
  magLevel : BitVec 32
  vocationId : BitVec 16

namespace Worn

variable (w : World) (equip : Bool) (it : Worn)

/-- `equip ? value : -value`, handed over as an `int32_t`. -/
def signed (value : BitVec 64) : BitVec 32 := (if equip then value else -value).setWidth 32

def skillModifiers : List (Var × BitVec 32) :=
  Skill.all.filterMap fun s =>
    if it.value (skillToAbility s) = 0 then none
    else some (.skill s, signed equip (it.value (skillToAbility s)))

def specialSkillModifiers : List (Var × BitVec 32) :=
  SpecialSkill.all.filterMap fun s =>
    if it.value (specialSkillToAbility s) = 0 then none
    else some (.specialSkill s, signed equip (it.value (specialSkillToAbility s)))

/-- `flexStats`: the statistics of the first entry that lists the vocation. -/
def flexStats (vocationId : BitVec 16) : List Stat :=
  if vocationId ∈ [1, 2] then [.magicPoints] else []

/-- `flexSkills`. -/
def flexSkills (vocationId : BitVec 16) : List Skill :=
  if vocationId ∈ [3, 4] then [.distance]
  else if vocationId ∈ [5, 6] then [.fist, .axe, .sword, .club]
  else []

/-- The variables that a flexible skill goes to. -/
def flexVars (vocationId : BitVec 16) : List Var :=
  (flexStats vocationId).map .stat ++ (flexSkills vocationId).map .skill

def flexModifiers : List (Var × BitVec 32) :=
  if 0 < (it.value .flexSkill).toInt then
    (flexVars it.vocationId).map fun v => (v, signed equip (it.value .flexSkill))
  else []

def statModifiers : List (Var × BitVec 32) :=
  Stat.all.filterMap fun s =>
    match statToAbility s with
    | none => none
    | some type => if it.value type = 0 then none else some (.stat s, signed equip (it.value type))

/-- The cases of the switch over the percentages. -/
def percentChange (s : Stat) (value : BitVec 64) : BitVec 32 :=
  match s with
  | .maxHitPoints => w.percentOfInt it.healthMax value
  | .maxManaPoints => w.percentOfUInt it.manaMax value
  | .soulPoints => 0
  | .magicPoints => w.percentOfUInt it.magLevel value

/-- The loop runs on to `SKILL_LAST`; past the statistics it finds no ability. -/
def percentModifiers : List (Var × BitVec 32) :=
  Stat.all.filterMap fun s =>
    match statToAbilityPercent s with
    | none => none
    | some type =>
      let change := it.percentChange w s (it.value type)
      if it.value type = 0 then none
      else some (.statPercent s, if equip then change else -change)

/-- The speed is narrowed before it is tested. -/
def speedModifiers : List (Var × BitVec 32) :=
  let speed := (it.value .speed).setWidth 32
  if speed = 0 then [] else [(.speed, if equip then speed else -speed)]

/-- Every change of a variable that `updateAbilityConditions` makes, in its
order. -/
def modifiers : List (Var × BitVec 32) :=
  it.skillModifiers equip ++ it.specialSkillModifiers equip ++ it.flexModifiers equip ++
    it.statModifiers equip ++ it.percentModifiers w equip ++ it.speedModifiers equip

/-- The condition types it suppresses, one bit each. -/
def suppressions : BitVec 32 := (it.value .conditionSuppressions).setWidth 32

/-- What equipping adds to a variable. -/
def bonus (v : Var) : BitVec 32 :=
  (((it.modifiers w true).filter fun m => m.1 = v).map Prod.snd).sum

end Worn

end Infernum.Equip
