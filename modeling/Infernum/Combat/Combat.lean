import Mathlib.Tactic.Common
import Mathlib.Algebra.Order.Ring.Int

/-!
# Changes of health and mana

`Game::combatChangeHealth` and `Game::combatChangeMana`. Both run the scripts
that are registered for a change of the target's health or mana, if the damage
has an origin, and then call themselves with the origin cleared.

The products with floating-point factors, and what becomes of an item whose
charge a block uses up, are parameters (`Env`). Values stay within the range of
`int32_t`, outside of which the language gives the sums no meaning.
-/

namespace Infernum.Combat

/-! ### Damage -/

inductive CombatType where
  | none
  | physicalDamage
  | energyDamage
  | earthDamage
  | fireDamage
  | undefinedDamage
  | lifeDrain
  | manaDrain
  | healing
  | drownDamage
  | iceDamage
  | holyDamage
  | deathDamage
  deriving DecidableEq

inductive CombatOrigin where
  | none
  | condition
  | spell
  | melee
  | ranged
  deriving DecidableEq

structure Part where
  type : CombatType
  value : Int
  deriving DecidableEq

structure CombatDamage where
  primary : Part
  secondary : Part
  origin : CombatOrigin
  deriving DecidableEq

namespace CombatDamage

def total (d : CombatDamage) : Int := d.primary.value + d.secondary.value

/-- Change both values. -/
def mapValues (f : Int → Int) (d : CombatDamage) : CombatDamage :=
  { d with
    primary := { d.primary with value := f d.primary.value }
    secondary := { d.secondary with value := f d.secondary.value } }

def clearOrigin (d : CombatDamage) : CombatDamage := { d with origin := .none }

end CombatDamage

/-! ### Attacker and target -/

structure AttackingPlayer where
  /-- `getSkull() == SKULL_BLACK` -/
  blackSkull : Bool
  /-- `getSkullClient(target) == SKULL_NONE` -/
  noSkullClient : Bool
  /-- `getEffectiveAbility(ITEM_ABILITY_SUPPORTHEALING)` -/
  supportHealing : Int

structure Attacker where
  getPlayer : Option AttackingPlayer
  /-- `getLevel()` of a monster -/
  monsterLevel : Option Nat

/-- What a block reads of an item in a slot. -/
structure Worn where
  /-- `isItemAbilityEnabled` of its slot -/
  enabled : Bool
  hasAbilities : Bool
  /-- `getAbilityValue(combatToAbsorb(COMBAT_MANADRAIN))` -/
  absorbPercent : Int
  charges : Nat

structure Target where
  health : Int
  maxHealth : Int
  mana : Nat
  maxMana : Nat
  isPlayer : Bool
  isAttackable : Bool
  /-- `hasCondition(CONDITION_MANASHIELD)` -/
  manaShield : Bool
  /-- `hasFlag(PlayerFlag_HasInfiniteMana)` -/
  infiniteMana : Bool
  /-- `isImmune(COMBAT_MANADRAIN)` -/
  immune : Bool
  /-- `getEffectiveAbility(ITEM_ABILITY_BONUSHEALING)` -/
  bonusHealing : Int
  inventory : Nat → Option Worn

/-- `bonus level` is what a monster's level makes of a value,
`v + std::round(v * bonusDmg)`, unless `bonusDmg` is zero; `healed percent` is
`v + v * (percent / 100.)`; `absorbed percent` is
`std::round(v * (percent / 100.))`. `transformItem` takes a charge from the item
in a slot, and `prepareDeath` says whether the target's PREPAREDEATH scripts let
it die. -/
structure Env where
  bonus : Nat → Option (Int → Int)
  healed : Int → Int → Int
  absorbed : Int → Int → Int
  transformItem : Target → Nat → Target
  prepareDeath : Target → Bool

/-- What one of the scripts for a change gives back for the two parts of the
damage it receives; nothing if the call fails. -/
abbrev Script := Part → Part → CombatOrigin → Option (Part × Part)

/-- `getCreatureEvents` of the target. -/
structure Events where
  healthChange : List Script
  manaChange : List Script

def Events.none : Events := { healthChange := [], manaChange := [] }

/-! ### Scripts -/

/-- `CreatureEvent::executeHealthChange` -/
def executeHealthChange (d : CombatDamage) (script : Script) : CombatDamage :=
  match script d.primary d.secondary d.origin with
  | .none => d
  | .some (primary, secondary) =>
      let primaryValue := |primary.value|
      let secondaryValue := |secondary.value|
      if primary.type ≠ .healing then
        { d with
          primary := { type := primary.type, value := -primaryValue }
          secondary := { type := secondary.type, value := -secondaryValue } }
      else
        { d with
          primary := { type := primary.type, value := primaryValue }
          secondary := { type := secondary.type, value := secondaryValue } }

/-- `CreatureEvent::executeManaChange`; the damage is a new one, with no origin. -/
def executeManaChange (d : CombatDamage) (script : Script) : CombatDamage :=
  match script d.primary d.secondary d.origin with
  | .none => d
  | .some (primary, secondary) => { primary := primary, secondary := secondary, origin := .none }

/-! ### The target -/

namespace Target

def changeHealth (t : Target) (healthChange : Int) : Target :=
  if healthChange > 0 then
    { t with health := t.health + min healthChange (t.maxHealth - t.health) }
  else { t with health := max 0 (t.health + healthChange) }

def changeMana (t : Target) (manaChange : Int) : Target :=
  if !t.infiniteMana then
    if manaChange > 0 then
      { t with mana := ((t.mana : Int) + min manaChange (t.maxMana - t.mana)).toNat }
    else { t with mana := (max 0 ((t.mana : Int) + manaChange)).toNat }
  else t

def gainHealth (t : Target) (healthGain : Int) : Target := t.changeHealth healthGain
def drainHealth (t : Target) (damage : Int) : Target := t.changeHealth (-damage)
def drainMana (t : Target) (manaLoss : Int) : Target := t.changeMana (-manaLoss)

end Target

/-- What a call returns, and what it leaves of the target and the damage. -/
structure Outcome where
  result : Bool
  target : Target
  damage : CombatDamage

/-- `monster->getLevel() > 0` and `bonusDmg != 0.0`: the bonus on a value. -/
def levelBonus (env : Env) (attacker : Option Attacker) : Option (Int → Int) :=
  match attacker.bind (·.monsterLevel) with
  | .some level => if level > 0 then env.bonus level else .none
  | .none => .none

/-- A value with the bonus of the attacker's level. -/
def scaled (env : Env) (attacker : Option Attacker) (value : Int) : Int :=
  match levelBonus env attacker with
  | .some bonus => bonus value
  | .none => value

/-- A player with a black skull does not touch one without a skull. -/
def blackSkull (attacker : Option Attacker) (t : Target) : Bool :=
  match attacker.bind (·.getPlayer) with
  | .some player => t.isPlayer && player.blackSkull && player.noSkullClient
  | .none => false

/-- The ability that raises the healing of a player. -/
def healing (env : Env) (attacker : Option Attacker) (t : Target) (value : Int) : Int :=
  if t.isPlayer then
    match attacker.bind (·.getPlayer) with
    | .some player => env.healed player.supportHealing value
    | .none => env.healed t.bonusHealing value
  else value

/-- Take the mana of the shield off the damage. -/
def CombatDamage.takeOff (d : CombatDamage) (manaDamage : Int) : CombatDamage :=
  let value := d.primary.value - manaDamage
  if value < 0 then
    { d with
      primary := { d.primary with value := 0 }
      secondary := { d.secondary with value := max 0 (d.secondary.value + value) } }
  else { d with primary := { d.primary with value := value } }

/-- `targetPlayer && hasCondition(CONDITION_MANASHIELD) && type != COMBAT_UNDEFINEDDAMAGE` -/
def shielded (t : Target) (d : CombatDamage) : Bool :=
  t.isPlayer && t.manaShield && d.primary.type ≠ .undefinedDamage

/-- The part for the mana shield; the first result says that the scripts have
left no damage and the call returns. -/
def manaShield (events : Events) (t : Target) (d : CombatDamage) : Bool × Target × CombatDamage :=
  let manaDamage := min (t.mana : Int) d.total
  if shielded t d ∧ manaDamage ≠ 0 then
    if d.origin ≠ .none ∧ events.manaChange ≠ [] then
      let d := events.manaChange.foldl executeManaChange d
      if d.total = 0 then (true, t, d)
      else
        let manaDamage := min (t.mana : Int) d.total
        (false, t.drainMana manaDamage, d.takeOff manaDamage)
    else (false, t.drainMana manaDamage, d.takeOff manaDamage)
  else (false, t, d)

/-- The end of a hit: no more than the target's health, and its death prepared. -/
def strike (env : Env) (t : Target) (d : CombatDamage) : Outcome :=
  let d :=
    if d.primary.value ≥ t.health then
      { d with
        primary := { d.primary with value := t.health }
        secondary := { d.secondary with value := 0 } }
    else if d.secondary.value ≠ 0 then
      { d with secondary :=
          { d.secondary with value := min d.secondary.value (t.health - d.primary.value) } }
    else d
  let realDamage := d.total
  if realDamage = 0 then { result := true, target := t, damage := d }
  else if realDamage ≥ t.health ∧ !env.prepareDeath t then
    { result := false, target := t, damage := d }
  else { result := true, target := t.drainHealth realDamage, damage := d }

/-- `Game::combatChangeHealth`, with the call of itself as a parameter. -/
def combatChangeHealthWith (again : Target → CombatDamage → Outcome) (env : Env)
    (attacker : Option Attacker) (events : Events) (t : Target) (d : CombatDamage) : Outcome :=
  if d.primary.value > 0 then
    if t.health ≤ 0 then { result := false, target := t, damage := d }
    else if blackSkull attacker t then { result := false, target := t, damage := d }
    else if d.origin ≠ .none ∧ events.healthChange ≠ [] then
      again t (events.healthChange.foldl executeHealthChange d).clearOrigin
    else
      let value := healing env attacker t d.primary.value
      { result := true, target := t.gainHealth value,
        damage := { d with primary := { d.primary with value := value } } }
  else if !t.isAttackable then { result := true, target := t, damage := d }
  else if blackSkull attacker t then { result := false, target := t, damage := d }
  else
    let d := (d.mapValues (scaled env attacker)).mapValues fun value => |value|
    if d.total = 0 then { result := true, target := t, damage := d }
    else
      let (nothing, t, d) := manaShield events t d
      if nothing then { result := true, target := t, damage := d }
      else if d.total = 0 then { result := true, target := t, damage := d }
      else if d.origin ≠ .none ∧ events.healthChange ≠ [] then
        again t (events.healthChange.foldl executeHealthChange d).clearOrigin
      else strike env t d

/-- A call whose damage has no origin, which never calls itself. -/
def combatChangeHealthInner (env : Env) (attacker : Option Attacker) (events : Events)
    (t : Target) (d : CombatDamage) : Outcome :=
  combatChangeHealthWith (fun t d => { result := true, target := t, damage := d }) env attacker
    events t d

/-- `Game::combatChangeHealth`: the call inside has its origin cleared. -/
def combatChangeHealth (env : Env) (attacker : Option Attacker) (events : Events)
    (t : Target) (d : CombatDamage) : Outcome :=
  combatChangeHealthWith (combatChangeHealthInner env attacker events) env attacker events t d

section Recursion

variable {again again' : Target → CombatDamage → Outcome} {env : Env}
  {attacker : Option Attacker} {events : Events} {t : Target} {d : CombatDamage}

end Recursion

end Infernum.Combat
