import Infernum.Combat.Combat
import Infernum.Equip.Abilities
import Infernum.Lib.TagList

/-!
# An item's own abilities

`ItemAbilities`, a list with a mask that an item gets when one of its abilities is set for
the first time, and `Item::getAbilityValue` over it and the item type's abilities. An
ability that is set on the item hides the type's, and what is done to one ability does
not show in another. But the switch over the type's abilities has no case for the mana
ticks, and takes four resistances from the places of other combat types.
-/

namespace Infernum.Equip

open Infernum.Combat (CombatType)

/-! ### The item's abilities -/

/-- `ItemAbilities::Ability`. -/
structure Ability where
  type : ItemAbilityType
  integer : BitVec 64
  deriving DecidableEq, Repr

/-- The bit that the enumerator of the ability is. -/
def ItemAbilityType.maskBit (t : ItemAbilityType) : Fin 64 := t.bit.castLE (by omega)

/-- `ItemAbilities`: `abilityList` and `abilityBits`. -/
abbrev AbilityList := Lib.TagList 64 Ability

namespace AbilityList

def Wf (a : AbilityList) : Prop := Lib.TagList.Wf Ability.type ItemAbilityType.maskBit a

def hasAbility (a : AbilityList) (t : ItemAbilityType) : Bool := a.has ItemAbilityType.maskBit t

/-- `getExistingAbility`. -/
def getExistingAbility (a : AbilityList) (t : ItemAbilityType) : Option Ability :=
  a.find Ability.type ItemAbilityType.maskBit t

def getAbilityInt (a : AbilityList) (t : ItemAbilityType) : BitVec 64 :=
  match a.getExistingAbility t with
  | none => 0
  | some ability => ability.integer

/-- `getAbility(type).integer = value`. -/
def setAbilityInt (a : AbilityList) (t : ItemAbilityType) (value : BitVec 64) : AbilityList :=
  a.set Ability.type ItemAbilityType.maskBit { type := t, integer := value }

def removeAbility (a : AbilityList) (t : ItemAbilityType) : Option AbilityList :=
  a.remove Ability.type ItemAbilityType.maskBit t

end AbilityList

/-- `Item::abilities`, the pointer. -/
abbrev OwnAbilities := Option AbilityList

namespace OwnAbilities

variable (abilities : OwnAbilities)

def Wf : Prop := ∀ a ∈ abilities, AbilityList.Wf a

def hasAbility (t : ItemAbilityType) : Bool := abilities.any fun a => a.hasAbility t

def getAbilityInt (t : ItemAbilityType) : BitVec 64 :=
  match abilities with
  | none => 0
  | some a => a.getAbilityInt t

/-- `Item::setAbilityInt`: `getAbilities` makes the list where there is none. -/
def setAbilityInt (t : ItemAbilityType) (value : BitVec 64) : OwnAbilities :=
  some ((abilities.getD Lib.TagList.empty).setAbilityInt t value)

/-- `Item::removeAbility`. -/
def removeAbility (t : ItemAbilityType) : Option OwnAbilities :=
  match abilities with
  | none => some none
  | some a => (a.removeAbility t).map some

end OwnAbilities

/-! ### The type's abilities -/

def combatTypeToIndex : CombatType → Fin 12
  | .physicalDamage => 0
  | .energyDamage => 1
  | .earthDamage => 2
  | .fireDamage => 3
  | .undefinedDamage => 4
  | .lifeDrain => 5
  | .manaDrain => 6
  | .healing => 7
  | .drownDamage => 8
  | .iceDamage => 9
  | .holyDamage => 10
  | .deathDamage => 11
  | .none => 0

/-- `combatToAbsorb`; `none` is `ITEM_ABILITY_NONE`. -/
def combatToAbsorb : CombatType → Option ItemAbilityType
  | .physicalDamage => some (.absorb 0)
  | .energyDamage => some (.absorb 1)
  | .earthDamage => some (.absorb 2)
  | .fireDamage => some (.absorb 3)
  | .drownDamage => some (.absorb 4)
  | .iceDamage => some (.absorb 5)
  | .holyDamage => some (.absorb 6)
  | .deathDamage => some (.absorb 7)
  | _ => none

def combatToFieldAbsorb : CombatType → Option ItemAbilityType
  | .physicalDamage => some (.fieldAbsorb 0)
  | .energyDamage => some (.fieldAbsorb 1)
  | .earthDamage => some (.fieldAbsorb 2)
  | .fireDamage => some (.fieldAbsorb 3)
  | .drownDamage => some (.fieldAbsorb 4)
  | .iceDamage => some (.fieldAbsorb 5)
  | .holyDamage => some (.fieldAbsorb 6)
  | .deathDamage => some (.fieldAbsorb 7)
  | _ => none

/-- The combat type that a resistance is against. -/
def combatOf : Fin 8 → CombatType
  | 0 => .physicalDamage
  | 1 => .energyDamage
  | 2 => .earthDamage
  | 3 => .fireDamage
  | 4 => .drownDamage
  | 5 => .iceDamage
  | 6 => .holyDamage
  | 7 => .deathDamage

theorem combatToAbsorb_combatOf (c : Fin 8) : combatToAbsorb (combatOf c) = some (.absorb c) ∧
    combatToFieldAbsorb (combatOf c) = some (.fieldAbsorb c) := by
  revert c
  decide

/-- `Abilities` with all `COMBAT_COUNT` entries of its two arrays; the first eight are
those that the switch reads. -/
structure TypeAbilities extends Abilities where
  absorbPercentRest : Fin 4 → BitVec 16 := fun _ => 0
  fieldAbsorbPercentRest : Fin 4 → BitVec 16 := fun _ => 0

namespace TypeAbilities

variable (a : TypeAbilities)

/-- `absorbPercent[i]`. -/
def absorbPercentAt (i : Fin 12) : BitVec 16 :=
  if h : i.val < 8 then a.absorbPercent ⟨i, h⟩ else a.absorbPercentRest ⟨i - 8, by omega⟩

/-- `fieldAbsorbPercent[i]`. -/
def fieldAbsorbPercentAt (i : Fin 12) : BitVec 16 :=
  if h : i.val < 8 then a.fieldAbsorbPercent ⟨i, h⟩
  else a.fieldAbsorbPercentRest ⟨i - 8, by omega⟩

/-- What the type defines: each ability stands for the field that items.xml fills under
its name, a resistance for the place of its combat type. -/
def defined : ItemAbilityType → BitVec 64
  | .healthGain => a.healthGain.setWidth 64
  | .healthTicks => a.healthTicks.setWidth 64
  | .manaGain => a.manaGain.setWidth 64
  | .manaTicks => a.manaTicks.setWidth 64
  | .conditionSuppressions => a.conditionSuppressions.setWidth 64
  | .maxHitPoints => (a.stats .maxHitPoints).signExtend 64
  | .maxManaPoints => (a.stats .maxManaPoints).signExtend 64
  | .magicPoints => (a.stats .magicPoints).signExtend 64
  | .maxHitPointsPercent => (a.statsPercent .maxHitPoints).signExtend 64
  | .maxManaPointsPercent => (a.statsPercent .maxManaPoints).signExtend 64
  | .magicPointsPercent => (a.statsPercent .magicPoints).signExtend 64
  | .skillFist => (a.skills .fist).signExtend 64
  | .skillClub => (a.skills .club).signExtend 64
  | .skillSword => (a.skills .sword).signExtend 64
  | .skillAxe => (a.skills .axe).signExtend 64
  | .skillDistance => (a.skills .distance).signExtend 64
  | .skillShield => (a.skills .shield).signExtend 64
  | .skillFishing => (a.skills .fishing).signExtend 64
  | .criticalHitChance => (a.specialSkills .criticalHitChance).signExtend 64
  | .criticalHitAmount => (a.specialSkills .criticalHitAmount).signExtend 64
  | .lifeLeechChance => (a.specialSkills .hitPointsLeechChance).signExtend 64
  | .lifeLeechAmount => (a.specialSkills .hitPointsLeechAmount).signExtend 64
  | .manaLeechChance => (a.specialSkills .manaPointsLeechChance).signExtend 64
  | .manaLeechAmount => (a.specialSkills .manaPointsLeechAmount).signExtend 64
  | .speed => a.speed.signExtend 64
  | .absorb c => (a.absorbPercentAt (combatTypeToIndex (combatOf c))).signExtend 64
  | .fieldAbsorb c => (a.fieldAbsorbPercentAt (combatTypeToIndex (combatOf c))).signExtend 64
  | .elementType => a.elementType.setWidth 64
  | .elementDamage => a.elementDamage.setWidth 64
  | .manaShield => if a.manaShield then 1 else 0
  | .invisible => if a.invisible then 1 else 0
  | .regeneration => if a.regeneration then 1 else 0
  | .damageMitigation => a.damageMitigation
  | .bonusRegen => a.bonusRegen
  | .magicDamage => a.magicDamage
  | .supportHealing => a.supportHealing
  | .attackSpeed => a.attackSpeed
  | .flexSkill => a.flexSkill
  | .bonusHealing => a.bonusHealing

/-- The places of the resistances in the switch are places in the arrays. -/
theorem eight_le_twelve : 8 ≤ 12 := by decide

/-- The type's ability shows: it is none of those that the switch misses, or nothing is
lost. The resistances against water, ice, holy and death damage have the places 4 to 7 in
the switch and 8 to 11 in the arrays. -/
def Shown : ItemAbilityType → Prop
  | .manaTicks => a.manaTicks = 0
  | .absorb c => 4 ≤ c.val →
      a.absorbPercentAt (c.castLE eight_le_twelve) = a.absorbPercentAt (c.natAdd 4)
  | .fieldAbsorb c => 4 ≤ c.val →
      a.fieldAbsorbPercentAt (c.castLE eight_le_twelve) = a.fieldAbsorbPercentAt (c.natAdd 4)
  | _ => True

end TypeAbilities

/-- `Item::getAbilityValue`. -/
def itemAbilityValue (it : Option TypeAbilities) (abilities : OwnAbilities)
    (t : ItemAbilityType) : BitVec 64 :=
  if (it.isNone && abilities.isSome) || (abilities.isSome && abilities.hasAbility t) then
    abilities.getAbilityInt t
  else
    match it with
    | none => 0
    | some a => a.value t

end Infernum.Equip
