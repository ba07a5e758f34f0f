import Infernum.Condition.Condition
import Infernum.Lib.ByteCodec

/-!
# Conditions as bytes

The setters of conditions, `serialize` with its reader `unserialize`, and the
stream of conditions that is saved with a player. The readers work on any bytes;
what they make of the bytes the writers produce is in
`Infernum.Condition.Reload`.
-/

namespace Infernum

open Infernum.Lib
open Equip (Skill SpecialSkill Stat)

/-! ## Codes -/

/-- `ConditionAttr_t`. -/
inductive ConditionAttr
  | type | id | ticks | healthTicks | healthGain | manaTicks | manaGain | delayed | owner
  | intervalData | speedDelta | formulaMinA | formulaMinB | formulaMaxA | formulaMaxB | lightColor
  | lightLevel | lightTicks | lightInterval | soulTicks | soulGain | skills | stats | outfit
  | periodDamage | isBuff | subId | end
  deriving DecidableEq, Repr

namespace ConditionAttr

/-- The byte that introduces the attribute. -/
def code : ConditionAttr → UInt8
  | type => 1
  | id => 2
  | ticks => 3
  | healthTicks => 4
  | healthGain => 5
  | manaTicks => 6
  | manaGain => 7
  | delayed => 8
  | owner => 9
  | intervalData => 10
  | speedDelta => 11
  | formulaMinA => 12
  | formulaMinB => 13
  | formulaMaxA => 14
  | formulaMaxB => 15
  | lightColor => 16
  | lightLevel => 17
  | lightTicks => 18
  | lightInterval => 19
  | soulTicks => 20
  | soulGain => 21
  | skills => 22
  | stats => 23
  | outfit => 24
  | periodDamage => 25
  | isBuff => 26
  | subId => 27
  | .end => 254

/-- All attributes. -/
def all : List ConditionAttr :=
  [type, id, ticks, healthTicks, healthGain, manaTicks, manaGain, delayed, owner, intervalData,
    speedDelta, formulaMinA, formulaMinB, formulaMaxA, formulaMaxB, lightColor, lightLevel,
    lightTicks, lightInterval, soulTicks, soulGain, skills, stats, outfit, periodDamage, isBuff,
    subId, .end]

/-- The attribute with a given code. -/
def ofCode (b : UInt8) : Option ConditionAttr := all.find? fun a => a.code == b

@[simp] theorem ofCode_code (a : ConditionAttr) : ofCode a.code = some a := by
  cases a <;> rfl

end ConditionAttr

namespace ConditionType

/-- The types in the order of their bits. -/
def all : List ConditionType :=
  [poison, fire, energy, bleeding, haste, paralyze, outfit, invisible, light, manaShield, inFight,
    drunk, exhaustWeapon, regeneration, soul, drown, muted, channelMutedTicks, yellTicks, attributes,
    freezing, dazzled, cursed, exhaustCombat, exhaustHeal, pacified, spellCooldown,
    spellGroupCooldown]

/-- The value of the enumerator. -/
def code : ConditionType → BitVec 32
  | none => 0
  | type => 1 <<< all.idxOf type

/-- The type with a value; a value that is no enumerator is kept as `none`. -/
def ofCode (value : BitVec 32) : ConditionType := (all.find? fun t => t.code == value).getD none

@[simp] theorem ofCode_code (t : ConditionType) : ofCode t.code = t := by
  cases t <;> decide

end ConditionType

/-! ## Setters -/

/-- `ConditionParam_t`. -/
inductive ConditionParam
  | owner | ticks | healthGain | healthTicks | manaGain | manaTicks | delayed | speed | lightLevel
  | lightColor | soulGain | soulTicks | minValue | maxValue | startValue | tickInterval | forceUpdate
  | skillMelee | skill (i : Skill) | statMaxHitPoints | statMaxManaPoints | statMagicPoints
  | statMaxHitPointsPercent | statMaxManaPointsPercent | statMagicPointsPercent | periodicDamage
  | skillMeleePercent | skillPercent (i : Skill) | buffSpell | subId | field | disableDefense
  | specialSkill (i : SpecialSkill)
  deriving DecidableEq

/-- The value of an entry of an array is replaced. -/
def ConditionAttributes.setStat (a : ConditionAttributes) (i : Stat) (value : BitVec 32) :
    ConditionAttributes :=
  { a with stats := Function.update a.stats i value }

/-- A percentage is never negative. -/
def ConditionAttributes.setStatPercent (a : ConditionAttributes) (i : Stat) (value : BitVec 32) :
    ConditionAttributes :=
  { a with statsPercent :=
      Function.update a.statsPercent i (if value.toInt < 0 then 0 else value) }

/-- The array of the skills after `CONDITION_PARAM_SKILL_MELEE`. -/
def setMelee (skills : Skill → BitVec 32) (value : BitVec 32) : Skill → BitVec 32
  | .club | .axe | .sword => value
  | i => skills i

namespace Condition

/-- `Condition::setParam`, without what it returns. -/
def setBaseParam (c : Condition) (param : ConditionParam) (value : BitVec 32) : Condition :=
  match param with
  | .ticks => { c with ticks := value }
  | .buffSpell => { c with isBuff := value != 0 }
  | .subId => { c with subId := value }
  | _ => c

/-- The own part of `ConditionAttributes::setParam`. -/
def setAttributesParam (a : ConditionAttributes) (param : ConditionParam) (value : BitVec 32) :
    ConditionAttributes :=
  match param with
  | .skillMelee => { a with skills := setMelee a.skills value }
  | .skillMeleePercent => { a with skillsPercent := setMelee a.skillsPercent value }
  | .skill i => { a with skills := Function.update a.skills i value }
  | .skillPercent i => { a with skillsPercent := Function.update a.skillsPercent i value }
  | .statMaxHitPoints => a.setStat .maxHitPoints value
  | .statMaxManaPoints => a.setStat .maxManaPoints value
  | .statMagicPoints => a.setStat .magicPoints value
  | .statMaxHitPointsPercent => a.setStatPercent .maxHitPoints value
  | .statMaxManaPointsPercent => a.setStatPercent .maxManaPoints value
  | .statMagicPointsPercent => a.setStatPercent .magicPoints value
  | .disableDefense => { a with disableDefense := value != 0 }
  | .specialSkill i => { a with specialSkills := Function.update a.specialSkills i value }
  | _ => a

/-- The own part of `ConditionRegeneration::setParam`. -/
def setRegenerationParam (g : ConditionRegeneration) (param : ConditionParam) (value : BitVec 32) :
    ConditionRegeneration :=
  match param with
  | .healthGain => { g with healthGain := value }
  | .healthTicks => { g with healthTicks := value }
  | .manaGain => { g with manaGain := value }
  | .manaTicks => { g with manaTicks := value }
  | _ => g

/-- The own part of `ConditionSoul::setParam`. -/
def setSoulParam (u : ConditionSoul) (param : ConditionParam) (value : BitVec 32) : ConditionSoul :=
  match param with
  | .soulGain => { u with soulGain := value }
  | .soulTicks => { u with soulTicks := value }
  | _ => u

/-- The own part of `ConditionDamage::setParam`. -/
def setDamageParam (d : ConditionDamage) (param : ConditionParam) (value : BitVec 32) :
    ConditionDamage :=
  match param with
  | .owner => { d with owner := value }
  | .forceUpdate => { d with forceUpdate := value != 0 }
  | .delayed => { d with delayed := value != 0 }
  | .maxValue => { d with maxDamage := value.abs }
  | .minValue => { d with minDamage := value.abs }
  | .startValue => { d with startDamage := value.abs }
  | .tickInterval => { d with tickInterval := value.abs }
  | .periodicDamage => { d with periodDamage := value }
  | .field => { d with field := value != 0 }
  | _ => d

/-- The own part of `ConditionLight::setParam`. -/
def setLightParam (l : ConditionLight) (param : ConditionParam) (value : BitVec 32) : ConditionLight :=
  match param with
  | .lightLevel => { l with lightInfo := { l.lightInfo with level := value.setWidth 8 } }
  | .lightColor => { l with lightInfo := { l.lightInfo with color := value.setWidth 8 } }
  | _ => l

/-- The `setParam` of the condition's class. A change of speed decides the type. -/
def setParam (c : Condition) (param : ConditionParam) (value : BitVec 32) : Condition :=
  let base := c.setBaseParam param value
  match c.data with
  | .attributes a => { base with data := .attributes (setAttributesParam a param value) }
  | .regeneration g => { base with data := .regeneration (setRegenerationParam g param value) }
  | .soul u => { base with data := .soul (setSoulParam u param value) }
  | .damage d => { base with data := .damage (setDamageParam d param value) }
  | .light l => { base with data := .light (setLightParam l param value) }
  | .speed speed =>
      if param = .speed then
        { base with
          data := .speed { speed with speedDelta := value }
          conditionType := if 0 < value.toInt then .haste else .paralyze }
      else base
  | _ => base

/-- `ConditionOutfit::setOutfit`. -/
def setOutfit (c : Condition) (outfit : Outfit) : Condition :=
  match c.data with
  | .outfit _ => { c with data := .outfit outfit }
  | _ => c

/-- `ConditionSpeed::setFormulaVars`. -/
def setFormulaVars (c : Condition) (mina minb maxa maxb : BitVec 32) : Condition :=
  match c.data with
  | .speed speed =>
      let speed := { speed with mina := mina, minb := minb, maxa := maxa, maxb := maxb }
      { c with data := .speed speed }
  | _ => c

/-! ## Writers -/

/-- An attribute code and a number in `n` bytes. -/
def writeAttr (a : ConditionAttr) (n : Nat) {w : Nat} (v : BitVec w) : List UInt8 :=
  a.code :: encodeLE n v.toNat

/-- A truth value in a byte. -/
def flag (b : Bool) : BitVec 8 := if b then 1 else 0

/-- `IntervalInfo` as it lies in memory. -/
def writeIntervalInfo (info : IntervalInfo) : List UInt8 :=
  encodeLE 4 info.timeLeft.toNat ++ (encodeLE 4 info.value.toNat ++ encodeLE 4 info.interval.toNat)

/-- `Outfit_t` as it lies in memory; the last byte is padding. -/
def writeOutfit (o : Outfit) : List UInt8 :=
  encodeLE 2 o.lookType.toNat ++ (encodeLE 2 o.lookTypeEx.toNat ++ (encodeLE 2 o.lookMount.toNat ++
  (encodeLE 1 o.lookHead.toNat ++ (encodeLE 1 o.lookBody.toNat ++ (encodeLE 1 o.lookLegs.toNat ++
  (encodeLE 1 o.lookFeet.toNat ++ (encodeLE 1 o.lookAddons.toNat ++ [0])))))))

/-- `Condition::serialize`. -/
def serializeBase (c : Condition) : List UInt8 :=
  writeAttr .type 4 c.conditionType.code ++
  (writeAttr .id 4 (c.id.signExtend 32) ++
  (writeAttr .ticks 4 c.ticks ++
  (writeAttr .isBuff 1 (flag c.isBuff) ++
  writeAttr .subId 4 c.subId)))

/-- What the `serialize` of the condition's class writes after the base class. -/
def serializeData : ConditionData → List UInt8
  | .attributes a =>
      (Skill.all.flatMap fun i => writeAttr .skills 4 (a.skills i)) ++
      Stat.all.flatMap fun i => writeAttr .stats 4 (a.stats i)
  | .regeneration g =>
      writeAttr .healthTicks 4 g.healthTicks ++
      (writeAttr .healthGain 4 g.healthGain ++
      (writeAttr .manaTicks 4 g.manaTicks ++
      writeAttr .manaGain 4 g.manaGain))
  | .soul u => writeAttr .soulGain 4 u.soulGain ++ writeAttr .soulTicks 4 u.soulTicks
  | .damage d =>
      writeAttr .delayed 1 (flag d.delayed) ++
      (writeAttr .periodDamage 4 d.periodDamage ++
      d.damageList.flatMap fun info => ConditionAttr.intervalData.code :: writeIntervalInfo info)
  | .speed speed =>
      writeAttr .speedDelta 4 speed.speedDelta ++
      (writeAttr .formulaMinA 4 speed.mina ++
      (writeAttr .formulaMinB 4 speed.minb ++
      (writeAttr .formulaMaxA 4 speed.maxa ++
      writeAttr .formulaMaxB 4 speed.maxb)))
  | .outfit outfit => ConditionAttr.outfit.code :: writeOutfit outfit
  | .light l =>
      writeAttr .lightColor 4 (l.lightInfo.color.setWidth 32) ++
      (writeAttr .lightLevel 4 (l.lightInfo.level.setWidth 32) ++
      (writeAttr .lightTicks 4 l.internalLightTicks ++
      writeAttr .lightInterval 4 l.lightChangeInterval))
  | _ => []

/-- The virtual `serialize`. -/
def serialize (c : Condition) : List UInt8 := c.serializeBase ++ serializeData c.data

/-- What `IOLoginData::savePlayer` writes of the conditions of a player. -/
def saveConditions (conditions : List Condition) : List UInt8 :=
  (conditions.filter isPersistent).flatMap fun c => c.serialize ++ [ConditionAttr.end.code]

/-! ## Readers -/

/-- Read a number of `n` bytes and act on it, or fail. -/
def read {α : Type} (n w : Nat) (s : List UInt8) (f : BitVec w → α) : Option α × List UInt8 :=
  match readLE n s with
  | (some v, s) => (some (f (.ofNat w v)), s)
  | (none, s) => (none, s)

/-- A field of a structure in memory. -/
def field (n w : Nat) (s : List UInt8) : BitVec w × List UInt8 :=
  (.ofNat w (decodeLE (s.take n)), s.drop n)

/-- Read an `IntervalInfo`. -/
def readIntervalInfo (s : List UInt8) : Option IntervalInfo × List UInt8 :=
  if s.length < 12 then (none, s)
  else
    let (timeLeft, s) := field 4 32 s
    let (value, s) := field 4 32 s
    let (interval, s) := field 4 32 s
    (some ⟨timeLeft, value, interval⟩, s)

/-- Read an `Outfit_t`. -/
def readOutfit (s : List UInt8) : Option Outfit × List UInt8 :=
  if s.length < 12 then (none, s)
  else
    let (lookType, s) := field 2 16 s
    let (lookTypeEx, s) := field 2 16 s
    let (lookMount, s) := field 2 16 s
    let (lookHead, s) := field 1 8 s
    let (lookBody, s) := field 1 8 s
    let (lookLegs, s) := field 1 8 s
    let (lookFeet, s) := field 1 8 s
    let (lookAddons, s) := field 1 8 s
    (some ⟨lookType, lookTypeEx, lookMount, lookHead, lookBody, lookLegs, lookFeet, lookAddons⟩,
      s.drop 1)

/-- `Condition::unserializeProp`. -/
def unserializeBase (a : ConditionAttr) (s : List UInt8) (c : Condition) :
    Option Condition × List UInt8 :=
  match a with
  | .type => read 4 32 s fun v => { c with conditionType := .ofCode v }
  | .id => read 4 32 s fun v => { c with id := v.setWidth 8 }
  | .ticks => read 4 32 s fun v => { c with ticks := v }
  | .isBuff => read 1 8 s fun v => { c with isBuff := v != 0 }
  | .subId => read 4 32 s fun v => { c with subId := v }
  | .end => (some c, s)
  | _ => (none, s)

/-- `ConditionAttributes::unserializeProp`. Behind the end of an array nothing is
defined: reading fails. -/
def unserializeAttributes (attr : ConditionAttr) (s : List UInt8) (c : Condition)
    (a : ConditionAttributes) : Option Condition × List UInt8 :=
  match attr with
  | .skills =>
      match Skill.all[a.currentSkill]? with
      | some i => read 4 32 s fun v =>
          let a := { a with
            skills := Function.update a.skills i v
            currentSkill := a.currentSkill + 1 }
          { c with data := .attributes a }
      | none => (none, s)
  | .stats =>
      match Stat.all[a.currentStat]? with
      | some i => read 4 32 s fun v =>
          let a := { a with
            stats := Function.update a.stats i v
            currentStat := a.currentStat + 1 }
          { c with data := .attributes a }
      | none => (none, s)
  | attr => unserializeBase attr s c

/-- `ConditionRegeneration::unserializeProp`. -/
def unserializeRegeneration (attr : ConditionAttr) (s : List UInt8) (c : Condition)
    (g : ConditionRegeneration) : Option Condition × List UInt8 :=
  match attr with
  | .healthTicks => read 4 32 s fun v => { c with data := .regeneration { g with healthTicks := v } }
  | .healthGain => read 4 32 s fun v => { c with data := .regeneration { g with healthGain := v } }
  | .manaTicks => read 4 32 s fun v => { c with data := .regeneration { g with manaTicks := v } }
  | .manaGain => read 4 32 s fun v => { c with data := .regeneration { g with manaGain := v } }
  | attr => unserializeBase attr s c

/-- `ConditionSoul::unserializeProp`. -/
def unserializeSoul (attr : ConditionAttr) (s : List UInt8) (c : Condition) (u : ConditionSoul) :
    Option Condition × List UInt8 :=
  match attr with
  | .soulGain => read 4 32 s fun v => { c with data := .soul { u with soulGain := v } }
  | .soulTicks => read 4 32 s fun v => { c with data := .soul { u with soulTicks := v } }
  | attr => unserializeBase attr s c

/-- A damage is read: it is put at the end of the list, and the ticks grow. -/
def readInterval (env : Env) (c : Condition) (d : ConditionDamage) (info : IntervalInfo) : Condition :=
  let cd := pushDamage env info (c, d)
  { cd.1 with data := .damage cd.2 }

/-- `ConditionDamage::unserializeProp`. -/
def unserializeDamage (env : Env) (attr : ConditionAttr) (s : List UInt8) (c : Condition)
    (d : ConditionDamage) : Option Condition × List UInt8 :=
  match attr with
  | .delayed => read 1 8 s fun v => { c with data := .damage { d with delayed := v != 0 } }
  | .periodDamage => read 4 32 s fun v => { c with data := .damage { d with periodDamage := v } }
  | .owner =>
      match skip 4 s with
      | (true, s) => (some c, s)
      | (false, s) => (none, s)
  | .intervalData =>
      match readIntervalInfo s with
      | (some info, s) => (some (readInterval env c d info), s)
      | (none, s) => (none, s)
  | attr => unserializeBase attr s c

/-- `ConditionSpeed::unserializeProp`. -/
def unserializeSpeed (attr : ConditionAttr) (s : List UInt8) (c : Condition) (speed : ConditionSpeed) :
    Option Condition × List UInt8 :=
  match attr with
  | .speedDelta => read 4 32 s fun v => { c with data := .speed { speed with speedDelta := v } }
  | .formulaMinA => read 4 32 s fun v => { c with data := .speed { speed with mina := v } }
  | .formulaMinB => read 4 32 s fun v => { c with data := .speed { speed with minb := v } }
  | .formulaMaxA => read 4 32 s fun v => { c with data := .speed { speed with maxa := v } }
  | .formulaMaxB => read 4 32 s fun v => { c with data := .speed { speed with maxb := v } }
  | attr => unserializeBase attr s c

/-- `ConditionOutfit::unserializeProp`. -/
def unserializeOutfit (attr : ConditionAttr) (s : List UInt8) (c : Condition) :
    Option Condition × List UInt8 :=
  match attr with
  | .outfit =>
      match readOutfit s with
      | (some outfit, s) => (some { c with data := .outfit outfit }, s)
      | (none, s) => (none, s)
  | attr => unserializeBase attr s c

/-- `ConditionLight::unserializeProp`. -/
def unserializeLight (attr : ConditionAttr) (s : List UInt8) (c : Condition) (l : ConditionLight) :
    Option Condition × List UInt8 :=
  match attr with
  | .lightColor => read 4 32 s fun v =>
      { c with data := .light { l with lightInfo := { l.lightInfo with color := v.setWidth 8 } } }
  | .lightLevel => read 4 32 s fun v =>
      { c with data := .light { l with lightInfo := { l.lightInfo with level := v.setWidth 8 } } }
  | .lightTicks => read 4 32 s fun v => { c with data := .light { l with internalLightTicks := v } }
  | .lightInterval => read 4 32 s fun v =>
      { c with data := .light { l with lightChangeInterval := v } }
  | attr => unserializeBase attr s c

/-- The virtual `unserializeProp`. -/
def unserializeProp (env : Env) (attr : ConditionAttr) (s : List UInt8) (c : Condition) :
    Option Condition × List UInt8 :=
  match c.data with
  | .attributes a => unserializeAttributes attr s c a
  | .regeneration g => unserializeRegeneration attr s c g
  | .soul u => unserializeSoul attr s c u
  | .damage d => unserializeDamage env attr s c d
  | .speed speed => unserializeSpeed attr s c speed
  | .outfit _ => unserializeOutfit attr s c
  | .light l => unserializeLight attr s c l
  | _ => unserializeBase attr s c

/-! No reader makes the stream longer. -/

theorem read_length_le {α : Type} (n w : Nat) (s : List UInt8) (f : BitVec w → α) :
    (read n w s f).2.length ≤ s.length := by
  have h := readLE_length_le n s
  unfold read
  split <;> (rename_i heq; rw [heq] at h; exact h)

theorem readIntervalInfo_length_le (s : List UInt8) :
    (readIntervalInfo s).2.length ≤ s.length := by
  unfold readIntervalInfo field
  split
  · exact le_refl _
  · simp only [List.length_drop]
    omega

theorem readOutfit_length_le (s : List UInt8) : (readOutfit s).2.length ≤ s.length := by
  unfold readOutfit field
  split
  · exact le_refl _
  · simp only [List.length_drop]
    omega

theorem unserializeBase_length_le (a : ConditionAttr) (s : List UInt8) (c : Condition) :
    (unserializeBase a s c).2.length ≤ s.length := by
  unfold unserializeBase
  split <;> first | exact read_length_le _ _ _ _ | exact le_refl _

theorem unserializeProp_length_le (env : Env) (attr : ConditionAttr) (s : List UInt8)
    (c : Condition) : (unserializeProp env attr s c).2.length ≤ s.length := by
  have hbase := unserializeBase_length_le attr s c
  have hskip := skip_length_le 4 s
  have hinfo := readIntervalInfo_length_le s
  have houtfit := readOutfit_length_le s
  unfold unserializeProp
  cases c.data with
  | attributes a =>
      simp only [unserializeAttributes]
      split <;> first | exact unserializeBase_length_le _ s c | skip
      · split <;> first | exact read_length_le _ _ _ _ | exact le_refl _
      · split <;> first | exact read_length_le _ _ _ _ | exact le_refl _
  | regeneration g =>
      simp only [unserializeRegeneration]
      split <;> first | exact read_length_le _ _ _ _ | exact unserializeBase_length_le _ s c
  | soul u =>
      simp only [unserializeSoul]
      split <;> first | exact read_length_le _ _ _ _ | exact unserializeBase_length_le _ s c
  | damage d =>
      simp only [unserializeDamage]
      split <;> first | exact read_length_le _ _ _ _ | exact unserializeBase_length_le _ s c | skip
      · split <;> (rename_i heq; rw [heq] at hskip; exact hskip)
      · split <;> (rename_i heq; rw [heq] at hinfo; exact hinfo)
  | speed speed =>
      simp only [unserializeSpeed]
      split <;> first | exact read_length_le _ _ _ _ | exact unserializeBase_length_le _ s c
  | outfit o =>
      simp only [unserializeOutfit]
      split <;> first | exact unserializeBase_length_le _ s c | skip
      split <;> (rename_i heq; rw [heq] at houtfit; exact houtfit)
  | light l =>
      simp only [unserializeLight]
      split <;> first | exact read_length_le _ _ _ _ | exact unserializeBase_length_le _ s c
  | _ => exact hbase

/-- `Condition::unserialize`: `none` when a property cannot be read. A code that is
no attribute is one that cannot be read. -/
def unserialize (env : Env) (s : List UInt8) (c : Condition) : Option Condition × List UInt8 :=
  match s with
  | [] => (some c, [])
  | b :: s =>
      match ConditionAttr.ofCode b with
      | none => (none, s)
      | some attr =>
          if attr = .end then (some c, s)
          else
            let r := unserializeProp env attr s c
            match r.1 with
            | none => (none, r.2)
            | some c' => unserialize env r.2 c'
termination_by s.length
decreasing_by
  have := unserializeProp_length_le env attr s c
  simp only [List.length_cons]
  omega

theorem unserialize_length_le (env : Env) (s : List UInt8) (c : Condition) :
    (unserialize env s c).2.length ≤ s.length := by
  induction s, c using unserialize.induct env with
  | case1 c =>
      rw [unserialize]
  | case2 c b rest hcode =>
      rw [unserialize, hcode]
      exact Nat.le_succ _
  | case3 c b rest hcode =>
      rw [unserialize, hcode]
      exact Nat.le_succ _
  | case4 c b rest attr hcode hend r hr =>
      have hle : r.2.length ≤ rest.length := unserializeProp_length_le env attr rest c
      rw [unserialize, hcode]
      simp only [if_neg hend]
      rw [show (unserializeProp env attr rest c).1 = none from hr]
      exact Nat.le_succ_of_le hle
  | case5 c b rest attr hcode hend r c' hr ih =>
      have hle : r.2.length ≤ rest.length := unserializeProp_length_le env attr rest c
      rw [unserialize, hcode]
      simp only [if_neg hend]
      rw [show (unserializeProp env attr rest c).1 = some c' from hr]
      exact Nat.le_succ_of_le (le_trans ih hle)

/-- An attribute that must come next, and its number. -/
def readHeader {α : Type} (a : ConditionAttr) (n w : Nat) (s : List UInt8)
    (f : BitVec w → List UInt8 → Option α × List UInt8) : Option α × List UInt8 :=
  match s with
  | [] => (none, [])
  | b :: s =>
      if b = a.code then
        match readLE n s with
        | (some v, s) => f (.ofNat w v) s
        | (none, s) => (none, s)
      else (none, s)

/-- `Condition::createCondition` from a stream. -/
def createFromStream (s : List UInt8) : Option Condition × List UInt8 :=
  readHeader .type 4 32 s fun type s =>
  readHeader .id 4 32 s fun id s =>
  readHeader .ticks 4 32 s fun ticks s =>
  readHeader .isBuff 1 8 s fun buff s =>
  readHeader .subId 4 32 s fun subId s =>
  (createCondition (id.setWidth 8) (.ofCode type) ticks 0 (buff != 0) subId, s)

/-- A header takes at least its code. -/
theorem readHeader_length_lt {α : Type} {a : ConditionAttr} {n w : Nat} {s : List UInt8}
    {f : BitVec w → List UInt8 → Option α × List UInt8} {v : α}
    (hf : ∀ x s, (f x s).2.length ≤ s.length) (h : (readHeader a n w s f).1 = some v) :
    (readHeader a n w s f).2.length < s.length := by
  cases s with
  | nil => cases h
  | cons b s =>
      rw [readHeader] at h ⊢
      by_cases hb : b = a.code
      · rw [if_pos hb] at h ⊢
        have hle := readLE_length_le n s
        cases hread : readLE n s with
        | mk x rest =>
            rw [hread] at h hle
            cases x with
            | none => cases h
            | some x => exact Nat.lt_succ_of_le (le_trans (hf _ rest) hle)
      · rw [if_neg hb] at h
        cases h

theorem readHeader_length_le {α : Type} {a : ConditionAttr} {n w : Nat} {s : List UInt8}
    {f : BitVec w → List UInt8 → Option α × List UInt8}
    (hf : ∀ x s, (f x s).2.length ≤ s.length) :
    (readHeader a n w s f).2.length ≤ s.length := by
  cases s with
  | nil => exact le_refl _
  | cons b s =>
      rw [readHeader]
      by_cases hb : b = a.code
      · rw [if_pos hb]
        have hle := readLE_length_le n s
        cases hread : readLE n s with
        | mk x rest =>
            rw [hread] at hle
            cases x with
            | none => exact Nat.le_succ_of_le hle
            | some x => exact Nat.le_succ_of_le (le_trans (hf _ rest) hle)
      · rw [if_neg hb]
        exact Nat.le_succ _

theorem createFromStream_length_lt {s : List UInt8} {c : Condition}
    (h : (createFromStream s).1 = some c) : (createFromStream s).2.length < s.length := by
  refine readHeader_length_lt (fun _ s => ?_) h
  exact readHeader_length_le fun _ s => readHeader_length_le fun _ s =>
    readHeader_length_le fun _ s => readHeader_length_le fun _ s => le_refl _

/-- The loop of `IOLoginData::loadPlayer` over the conditions of a player, which puts
each in front of `storedConditionList`. -/
def loadConditions (env : Env) (s : List UInt8) (storedConditionList : List Condition) :
    List Condition :=
  match _hcreate : (createFromStream s).1 with
  | none => storedConditionList
  | some c =>
      let r := unserialize env (createFromStream s).2 c
      match r.1 with
      | some c' => loadConditions env r.2 (c' :: storedConditionList)
      | none => loadConditions env r.2 storedConditionList
termination_by s.length
decreasing_by
  all_goals
    have hle := unserialize_length_le env (createFromStream s).2 c
    exact lt_of_le_of_lt hle (createFromStream_length_lt _hcreate)

end Condition

end Infernum
