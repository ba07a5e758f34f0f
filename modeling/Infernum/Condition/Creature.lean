import Infernum.Condition.Condition
import Infernum.Equip.Equip

/-!
# The conditions of a creature

`Creature::addCondition`, the three forms of `removeCondition`,
`removeCombatCondition` and `executeConditions`, and what the conditions do to
the creature when they start, go on, are changed and end. Messages, current
health, mana and soul and what other creatures see are left out.
-/

namespace Infernum

open Equip (Skill SpecialSkill Stat Var)

/-- A task that waits for the scheduler. -/
inductive Task
  | forceAddCondition (condition : Nat)
  | forceRemoveCondition (type : ConditionType)

/-- The calls that a condition has had; a condition of attributes that is changed
ends and is applied again. -/
inductive Call
  | started (condition : Nat)
  | ended (condition : Nat)
  | reapplied (condition : Nat)
  deriving DecidableEq

/-- A call that decides about `canUseDefense`, or should: whether the condition
disables the defence, before and after, and whether another one in the list does. -/
inductive DefenseCall
  | started (disables others : Bool)
  | ended (disables others : Bool)
  | changed (disabled disables others : Bool)
  deriving DecidableEq

/-- `Mount`, without its name. -/
structure Mount where
  id : BitVec 8
  clientId : BitVec 16
  speed : BitVec 32
  premium : Bool
  deriving DecidableEq

/-- `Creature`, and `Player` where it is one. Conditions are known by the object
they are. The last three fields only record the history. -/
structure Creature where
  isPlayer : Bool
  isMonster : Bool := false
  conditions : List Nat := []
  condition : Nat → Condition
  /-- objects from here on are not allocated -/
  next : Nat := 0
  tasks : List Task := []
  player : Equip.Player := {}
  baseSkill : Skill → BitVec 32 := fun _ => 10
  baseSpeed : BitVec 32 := 220
  canUseDefense : Bool := true
  internalLight : LightInfo := {}
  currentOutfit : Outfit := {}
  defaultOutfit : Outfit := {}
  currentMount : BitVec 8 := 0
  /-- the mounts of the server -/
  mounts : List Mount := []
  calls : List Call := []
  defenseCalls : List DefenseCall := []
  /-- what anything but the conditions has added to the variables -/
  others : Var → BitVec 32 := fun _ => 0

namespace Creature

variable (env : Env) (s : Creature)

/-- A condition is changed. -/
def setCondition (r : Nat) (c : Condition) : Creature :=
  { s with condition := Function.update s.condition r c }

/-- A new condition. -/
def alloc (c : Condition) : Creature × Nat :=
  ({ s with condition := Function.update s.condition s.next c, next := s.next + 1 }, s.next)

def log (call : Call) : Creature := { s with calls := s.calls ++ [call] }

def logDefense (call : DefenseCall) : Creature :=
  { s with defenseCalls := s.defenseCalls ++ [call] }

/-- `Player::getMaxHealth`. -/
def getMaxHealth : BitVec 32 :=
  let value := s.player.healthMax + s.player.vars (.stat .maxHitPoints) +
    s.player.vars (.statPercent .maxHitPoints)
  if value.toInt < 1 then 1 else value

/-- `Player::getMaxMana`. -/
def getMaxMana : BitVec 32 :=
  let value := s.player.manaMax + s.player.vars (.stat .maxManaPoints) +
    s.player.vars (.statPercent .maxManaPoints)
  if value.toInt < 0 then 0 else value

/-! ## Speed -/

/-- `Creature::getSpeed`. -/
def getSpeed : BitVec 32 := s.baseSpeed + s.player.vars .speed

/-- `Game::changeSpeed`, with `Creature::setSpeed`. -/
def changeSpeed (varSpeedDelta : BitVec 32) : Creature :=
  let varSpeed := s.getSpeed - s.baseSpeed
  { s with player.vars := Function.update s.player.vars .speed (varSpeed + varSpeedDelta) }

/-- `Player::isMounted`. -/
def isMounted : Bool := s.defaultOutfit.lookMount != 0

/-- `Mounts::getMountByID`. -/
def getMountByID (id : BitVec 8) : Option Mount := s.mounts.find? fun mount => mount.id == id

/-- A variable is changed by something that is not a condition. -/
def changeOthers (v : Var) (delta : BitVec 32) : Creature :=
  { s with
    player.vars := Function.update s.player.vars v (s.player.vars v + delta)
    others := Function.update s.others v (s.others v + delta) }

/-- `Player::dismount`. -/
def dismount : Creature :=
  let s :=
    match s.getMountByID s.currentMount with
    | some mount =>
        if 0 < mount.speed.toInt then
          { s.changeSpeed (-mount.speed) with
            others := Function.update s.others .speed (s.others .speed - mount.speed) }
        else s
    | none => s
  { s with defaultOutfit := { s.defaultOutfit with lookMount := 0 } }

/-! ## Attributes -/

/-- `setVarSkill`, `setVarSpecialSkill` and `setVarStats`, one after another. -/
def addVars (modifiers : List (Var × BitVec 32)) : Creature :=
  { s with player.vars := Equip.State.addVars s.player.vars modifiers }

/-- `ConditionAttributes::updatePercentSkills`. -/
def updatePercentSkills (a : ConditionAttributes) : ConditionAttributes :=
  { a with skills := fun i =>
      if a.skillsPercent i = 0 then a.skills i
      else env.percentOf (s.baseSkill i) (a.skillsPercent i) }

/-- `ConditionAttributes::updatePercentStats`. -/
def updatePercentStats (a : ConditionAttributes) : ConditionAttributes :=
  { a with stats := fun i =>
      if a.statsPercent i = 0 then a.stats i
      else
        match i with
        | .maxHitPoints => env.percentOf s.getMaxHealth (a.statsPercent i)
        | .maxManaPoints => env.percentOf s.getMaxMana (a.statsPercent i)
        | .soulPoints => a.stats i
        | .magicPoints => env.percentOf s.player.magLevel (a.statsPercent i) }

/-- `ConditionAttributes::updateSkills`. -/
def updateSkills (a : ConditionAttributes) : Creature :=
  s.addVars
    ((Skill.all.filterMap fun i => if a.skills i ≠ 0 then some (.skill i, a.skills i) else none) ++
      SpecialSkill.all.filterMap fun i =>
        if a.specialSkills i ≠ 0 then some (.specialSkill i, a.specialSkills i) else none)

/-- `ConditionAttributes::updateStats`. -/
def updateStats (a : ConditionAttributes) : Creature :=
  s.addVars (Stat.all.filterMap fun i =>
    if a.stats i ≠ 0 then some (.stat i, a.stats i) else none)

/-- The four updates in their order, for a player. -/
def applyAttributes (r : Nat) (c : Condition) (a : ConditionAttributes) : Creature :=
  if s.isPlayer then
    let a := s.updatePercentSkills env a
    let s := s.updateSkills a
    let a := s.updatePercentStats env a
    let s := s.updateStats a
    s.setCondition r { c with data := .attributes a }
  else s.setCondition r { c with data := .attributes a }

/-- The variables in `ConditionAttributes::endCondition`, for a player. -/
def withdrawAttributes (a : ConditionAttributes) : Creature :=
  if s.isPlayer then
    s.addVars
      ((Skill.all.filterMap fun i =>
          if a.skills i ≠ 0 ∨ a.skillsPercent i ≠ 0 then some (.skill i, -a.skills i) else none) ++
        (SpecialSkill.all.filterMap fun i =>
          if a.specialSkills i ≠ 0 then some (.specialSkill i, -a.specialSkills i) else none) ++
        Stat.all.filterMap fun i => if a.stats i ≠ 0 then some (.stat i, -a.stats i) else none)
  else s

/-- `disableDefense` of a condition. -/
def disablesDefense (c : Condition) : Bool :=
  match c.data with
  | .attributes a => a.disableDefense
  | _ => false

/-- Another condition in the list than the object disables the defence. -/
def othersDisable (r : Nat) : Bool :=
  s.conditions.any fun r' => r' != r && disablesDefense (s.condition r')

/-- `Creature::setUseDefense`. -/
def setUseDefense (useDefense : Bool) : Creature := { s with canUseDefense := useDefense }

/-! ## Outfits and light -/

/-- `Game::internalCreatureChangeOutfit`. -/
def changeOutfit (outfit : Outfit) : Creature :=
  if env.mayChangeOutfit then { s with currentOutfit := outfit } else s

/-- `getCreatureLight`, of a creature and of a player. -/
def getCreatureLight : LightInfo :=
  if s.isPlayer ∧ ¬env.itemsLight.level < s.internalLight.level then env.itemsLight
  else s.internalLight

/-- `setCreatureLight`. -/
def setCreatureLight (lightInfo : LightInfo) : Creature := { s with internalLight := lightInfo }

/-! ## What conditions do -/

/-- `hasCondition`. -/
def hasCondition (type : ConditionType) : Bool :=
  if env.isSuppress type then false
  else s.conditions.any fun r =>
    let condition := s.condition r
    condition.conditionType == type && condition.subId == 0 &&
      decide (env.OTSYS_TIME ≤ condition.endTime)

/-- The `endCondition` of the condition's class. -/
def endCondition (r : Nat) : Creature :=
  let s := s.log (.ended r)
  match (s.condition r).data with
  | .attributes a =>
      let s := s.logDefense (.ended a.disableDefense (s.othersDisable r))
      let s := s.withdrawAttributes a
      if a.disableDefense then s.setUseDefense true else s
  | .speed speed => s.changeSpeed (-speed.speedDelta)
  | .outfit _ => s.changeOutfit env s.defaultOutfit
  | .light _ => s.setCreatureLight {}
  | _ => s

/-- The condition is erased from the list and ends. -/
def eraseCondition (r : Nat) : Creature :=
  { s with conditions := s.conditions.erase r }.endCondition env r

/-- A task for the scheduler. -/
def addEvent (task : Task) : Creature := { s with tasks := s.tasks ++ [task] }

/-- The loop of `removeCondition(type)` and `removeCondition(type, conditionId)`
over the rest of the list. -/
def removeLoop (matching : Condition → Bool) (type : ConditionType) (force : Bool) :
    List Nat → Creature → Creature
  | [], s => s
  | r :: rest, s =>
      if matching (s.condition r) = false then removeLoop matching type force rest s
      else if !force && type == .paralyze && decide (0 < env.getWalkDelay) then
        s.addEvent (.forceRemoveCondition type)
      else removeLoop matching type force rest (s.eraseCondition env r)

/-- `Creature::removeCondition(type, force)`. -/
def removeConditionType (type : ConditionType) (force : Bool) : Creature :=
  removeLoop env (fun c => c.conditionType == type) type force s.conditions s

/-- `Creature::removeCondition(type, conditionId, force)`. -/
def removeConditionId (type : ConditionType) (conditionId : ConditionId) (force : Bool) : Creature :=
  removeLoop env (fun c => c.conditionType == type && c.id == conditionId) type force s.conditions s

/-- What `Player::death` removes. -/
def removePersistent : Creature :=
  removeLoop env Condition.isPersistent .none true s.conditions s

/-- `Creature::removeCondition(condition, force)`. -/
def removeCondition (r : Nat) (force : Bool) : Creature :=
  if r ∉ s.conditions then s
  else if !force && (s.condition r).conditionType == .paralyze && decide (0 < env.getWalkDelay) then
    s.addEvent (.forceRemoveCondition (s.condition r).conditionType)
  else s.eraseCondition env r

/-- `onAddCondition`; that of a monster looks after the monster only. -/
def onAddCondition (type : ConditionType) : Creature :=
  if s.isMonster then s
  else
    let s :=
      if type = .paralyze ∧ s.hasCondition env .haste then s.removeConditionType env .haste false
      else if type = .haste ∧ s.hasCondition env .paralyze then
        s.removeConditionType env .paralyze false
      else s
    if s.isPlayer ∧ type = .outfit ∧ s.isMounted then s.dismount else s

/-- `getCondition(type, conditionId, subId)`. -/
def getCondition (type : ConditionType) (conditionId : ConditionId) (subId : BitVec 32) : Option Nat :=
  s.conditions.find? fun r => (s.condition r).key == (type, conditionId, subId)

section Calls

-- called back by conditions that start or change
variable (doDamage : Creature → Nat → Creature × Bool)

/-- The `startCondition` of the condition's class. -/
def startCondition (r : Nat) : Creature × Bool :=
  let c := (s.condition r).startTicks env
  match c.data with
  | .attributes a =>
      let s := s.logDefense (.started a.disableDefense (s.othersDisable r))
      let s := s.setUseDefense (!a.disableDefense)
      (s.applyAttributes env r c a, true)
  | .speed speed =>
      let delta :=
        if speed.speedDelta = 0 then
          env.uniform_random (env.formula s.baseSpeed speed.mina speed.minb)
            (env.formula s.baseSpeed speed.maxa speed.maxb)
        else speed.speedDelta
      ((s.setCondition r { c with data := .speed { speed with speedDelta := delta } }).changeSpeed
        delta, true)
  | .damage d =>
      let (c, d, ready) := c.init env d
      if ready = false then (s.setCondition r { c with data := .damage d }, false)
      else if d.delayed then (s.setCondition r { c with data := .damage d }, true)
      else
        let (d, due) := c.getNextDamage d
        let s := s.setCondition r { c with data := .damage d }
        if due then doDamage s r else (s, true)
  | .outfit outfit => ((s.setCondition r c).changeOutfit env outfit, true)
  | .light light =>
      let light := { light with
        internalLightTicks := 0
        lightChangeInterval := c.ticks.sdiv (light.lightInfo.level.setWidth 32) }
      ((s.setCondition r { c with data := .light light }).setCreatureLight light.lightInfo, true)
  | _ => (s.setCondition r c, true)

/-- `ConditionAttributes::addCondition`, once `updateCondition` has agreed. -/
def changeAttributes (r : Nat) (a' : ConditionAttributes) (ticks : BitVec 32) : Creature :=
  let c := (s.condition r).setTicks env ticks
  match c.data with
  | .attributes a =>
      let s := s.logDefense (.changed a.disableDefense a'.disableDefense (s.othersDisable r))
      let s := (s.setCondition r c).endCondition env r
      let a := { a' with currentSkill := a.currentSkill, currentStat := a.currentStat }
      (s.applyAttributes env r c a).log (.reapplied r)
  | _ => s

/-- The `addCondition` of the class of a condition in the list: it is changed to what
the new condition is. -/
def changeCondition (r new : Nat) : Creature :=
  let c := s.condition r
  let c' := s.condition new
  match c.data, c'.data with
  | .attributes _, .attributes a' =>
      if c.updateCondition env c' then s.changeAttributes env r a' c'.ticks else s
  | .regeneration g, .regeneration g' =>
      if c.updateCondition env c' then
        s.setCondition r { c.setTicks env c'.ticks with data := .regeneration { g' with
          internalHealthTicks := g.internalHealthTicks
          internalManaTicks := g.internalManaTicks } }
      else s
  | .soul u, .soul u' =>
      if c.updateCondition env c' then
        s.setCondition r { c.setTicks env c'.ticks with
          data := .soul { u' with internalSoulTicks := u.internalSoulTicks } }
      else s
  | .damage d, .damage d' =>
      if c'.conditionType ≠ c.conditionType then s
      else if c.updateDamage d c'.ticks d' = false then s
      else
        let c := c.setTicks env c'.ticks
        let nextTimeLeft :=
          match d.damageList with
          | [] => d'.tickInterval
          | info :: _ => info.timeLeft
        let d := { d with
          owner := d'.owner, maxDamage := d'.maxDamage, minDamage := d'.minDamage
          startDamage := d'.startDamage, tickInterval := d'.tickInterval
          periodDamage := d'.periodDamage, damageList := d'.damageList }
        let (c, d, ready) := c.init env d
        if ready = false then s.setCondition r { c with data := .damage d }
        else
          let d :=
            match d.damageList with
            | [] => d
            | info :: rest => { d with damageList := { info with timeLeft := nextTimeLeft } :: rest }
          if d.delayed then s.setCondition r { c with data := .damage d }
          else
            let (d, due) := c.getNextDamage d
            let s := s.setCondition r { c with data := .damage d }
            if due then (doDamage s r).1 else s
  | .speed speed, .speed speed' =>
      if c.conditionType ≠ c'.conditionType then s
      else if c.ticks = -1 ∧ 0 < c'.ticks.toInt then s
      else
        let delta :=
          if speed'.speedDelta = 0 then
            env.uniform_random (env.formula s.baseSpeed speed'.mina speed'.minb)
              (env.formula s.baseSpeed speed'.maxa speed'.maxb)
          else speed'.speedDelta
        let s := s.setCondition r { c.setTicks env c'.ticks with
          data := .speed { speed' with speedDelta := delta } }
        let newSpeedChange := delta - speed.speedDelta
        if newSpeedChange ≠ 0 then s.changeSpeed newSpeedChange else s
  | .outfit _, .outfit outfit =>
      if c.updateCondition env c' then
        (s.setCondition r { c.setTicks env c'.ticks with data := .outfit outfit }).changeOutfit env
          outfit
      else s
  | .light _, .light light' =>
      if c.updateCondition env c' then
        let light : ConditionLight :=
          { lightInfo := light'.lightInfo
            lightChangeInterval := c'.ticks.sdiv (light'.lightInfo.level.setWidth 32) }
        (s.setCondition r { c.setTicks env c'.ticks with data := .light light }).setCreatureLight
          light.lightInfo
      else s
  | _, _ => if c.updateCondition env c' then s.setCondition r (c.setTicks env c'.ticks) else s

/-- `Creature::addCondition`, of an object that the caller made. -/
def addCondition (r : Nat) (force : Bool) : Creature × Bool :=
  let condition := s.condition r
  if !force && condition.conditionType == .haste && s.hasCondition env .paralyze &&
      decide (0 < env.getWalkDelay) then
    (s.addEvent (.forceAddCondition r), false)
  else
    match s.getCondition condition.conditionType condition.id condition.subId with
    | some prevCond => (s.changeCondition env doDamage prevCond r, true)
    | none =>
        match s.startCondition env doDamage r with
        | (s, true) =>
            let s := { s with conditions := s.conditions ++ [r] }.log (.started r)
            (s.onAddCondition env condition.conditionType, true)
        | (s, false) => (s, false)

end Calls

/-- `Player::addInFightTicks`. The condition is a generic one, which does no damage. -/
def addInFightTicks (ticks : BitVec 32) : Creature :=
  let (s, r) := s.alloc (.new CONDITIONID_DEFAULT .inFight ticks false 0 .generic)
  (s.addCondition env (fun s _ => (s, true)) r false).1

/-- `ConditionDamage::doDamage`, as far as it comes back to the conditions. -/
def doDamage (r : Nat) : Creature × Bool :=
  if env.isSuppress (s.condition r).conditionType then (s, true)
  else
    let hit := env.hit r
    let s :=
      match hit.inFight with
      | some ticks => s.addInFightTicks env ticks
      | none => s
    let s := if hit.seen then s.removeConditionType env .invisible false else s
    (s, hit.done)

/-- `Creature::onCombatRemoveCondition` and `Player::onCombatRemoveCondition`. A
condition of an item may cost the item, which takes its conditions with it. -/
def onCombatRemoveCondition (wait : Option (BitVec 32)) (lost : List ConditionType) (r : Nat) :
    Creature :=
  let condition := s.condition r
  if s.isPlayer = false then s.removeCondition env r false
  else if 0 < condition.id.toInt then
    lost.foldl (fun s type => s.removeConditionId env type condition.id false) s
  else
    match wait with
    | some delay =>
        let ticks := delay - delay % EVENT_CREATURE_THINK_INTERVAL
        if ticks.toInt < 0 then s.removeCondition env r false
        else s.setCondition r (condition.setTicks env ticks)
    | none => s.removeCondition env r false

/-- The second loop of `removeCombatCondition`. There is no result where a condition
was deleted before its turn. `wait` is `getNextActionTime` of a player that cannot
act, `lost` the types of the conditions of the items that are destroyed. -/
def removeCombatLoop (wait : Option (BitVec 32)) (lost : Nat → List ConditionType) :
    List Nat → Creature → Option Creature
  | [], s => some s
  | r :: rest, s =>
      if r ∉ s.conditions then none
      else removeCombatLoop wait lost rest (s.onCombatRemoveCondition env wait (lost r) r)

/-- `Creature::removeCombatCondition`. -/
def removeCombatCondition (wait : Option (BitVec 32)) (lost : Nat → List ConditionType)
    (type : ConditionType) : Option Creature :=
  removeCombatLoop env wait lost
    (s.conditions.filter fun r => (s.condition r).conditionType == type) s

/-! ## Conditions go on -/

/-- The `executeCondition` of the condition's class. -/
def executeCondition (r : Nat) (interval : BitVec 32) : Creature × Bool :=
  let c := s.condition r
  match c.data with
  | .regeneration g =>
      let g := { g with
        internalHealthTicks := g.internalHealthTicks + interval
        internalManaTicks := g.internalManaTicks + interval }
      let g :=
        if env.inProtectionZone then g
        else
          let g := if g.healthTicks ≤ g.internalHealthTicks then
            { g with internalHealthTicks := 0 } else g
          if g.manaTicks ≤ g.internalManaTicks then { g with internalManaTicks := 0 } else g
      let (c, goesOn) := { c with data := .regeneration g }.executeTicks env interval
      (s.setCondition r c, goesOn)
  | .soul u =>
      let u := { u with internalSoulTicks := u.internalSoulTicks + interval }
      let u :=
        if s.isPlayer ∧ env.inProtectionZone = false ∧ u.soulTicks ≤ u.internalSoulTicks then
          { u with internalSoulTicks := 0 }
        else u
      let (c, goesOn) := { c with data := .soul u }.executeTicks env interval
      (s.setCondition r c, goesOn)
  | .damage d =>
      let (c, d, interval, due) := c.executeDamage env d interval
      let s := s.setCondition r { c with data := .damage d }
      let s := if due then (s.doDamage env r).1 else s
      let (c, goesOn) := (s.condition r).executeTicks env interval
      (s.setCondition r c, goesOn)
  | .light light =>
      let light := { light with internalLightTicks := light.internalLightTicks + interval }
      let (light, due) :=
        if light.lightChangeInterval ≤ light.internalLightTicks then
          ({ light with internalLightTicks := 0 }, true)
        else (light, false)
      let lightInfo := s.getCreatureLight env
      let s :=
        if due ∧ 0 < lightInfo.level then
          s.setCreatureLight { lightInfo with level := lightInfo.level - 1 }
        else s
      let (c, goesOn) := { c with data := .light light }.executeTicks env interval
      (s.setCondition r c, goesOn)
  | _ =>
      let (c, goesOn) := c.executeTicks env interval
      (s.setCondition r c, goesOn)

/-- The element after another one. -/
def after (r : Nat) (list : List Nat) : Option Nat :=
  match list.dropWhile (· != r) with
  | _ :: r' :: _ => some r'
  | _ => none

/-- The loop of `executeConditions`, with the iterator. There is no result when it
runs longer than the fuel, or when the condition under the iterator is gone. -/
def executeLoop (interval : BitVec 32) : Nat → Option Nat → Creature → Option Creature
  | _, none, s => some s
  | 0, some _, _ => none
  | fuel + 1, some r, s =>
      let (s, goesOn) := s.executeCondition env r interval
      if r ∉ s.conditions then none
      else
        let next := after r s.conditions
        executeLoop interval fuel next (if goesOn then s else s.eraseCondition env r)

/-- `Creature::executeConditions`. -/
def executeConditions (fuel : Nat) (interval : BitVec 32) : Option Creature :=
  executeLoop env interval fuel s.conditions.head? s

/-! ## Runs -/

/-- What happens to a creature. -/
inductive Op
  | addCondition (env : Env) (condition : Condition) (fits : condition.Fits = true) (force : Bool)
  | removeConditionType (env : Env) (type : ConditionType) (force : Bool)
  | removeConditionId (env : Env) (type : ConditionType) (conditionId : ConditionId) (force : Bool)
  | removeCondition (env : Env) (condition : Nat) (force : Bool)
  | removeCombatCondition (env : Env) (type : ConditionType) (wait : Option (BitVec 32))
      (lost : Nat → List ConditionType)
  | removePersistent (env : Env)
  | executeConditions (env : Env) (interval : BitVec 32)
  /-- the scheduler runs a task: `forceAddCondition` or `forceRemoveCondition` -/
  | runTask (env : Env) (task : Nat)
  /-- the values of the creature that belong to no condition are changed -/
  | changeBase (baseSkill : Skill → BitVec 32) (magLevel healthMax manaMax baseSpeed : BitVec 32)
  /-- a variable is changed by something that is not a condition -/
  | changeOthers (v : Var) (delta : BitVec 32)

/-- The effect of an operation, with a bound on the rounds of `executeConditions`. -/
def run (fuel : Nat) (s : Creature) : Op → Option Creature
  | .addCondition env condition _ force =>
      let (s, r) := s.alloc condition
      some (s.addCondition env (doDamage env) r force).1
  | .removeConditionType env type force => some (s.removeConditionType env type force)
  | .removeConditionId env type id force => some (s.removeConditionId env type id force)
  | .removeCondition env r force => some (s.removeCondition env r force)
  | .removeCombatCondition env type wait lost => s.removeCombatCondition env wait lost type
  | .removePersistent env => some (s.removePersistent env)
  | .executeConditions env interval => s.executeConditions env fuel interval
  | .runTask env task =>
      match s.tasks[task]? with
      | none => none
      | some (.forceAddCondition r) =>
          some ({ s with tasks := s.tasks.eraseIdx task }.addCondition env (doDamage env) r true).1
      | some (.forceRemoveCondition type) =>
          some ({ s with tasks := s.tasks.eraseIdx task }.removeConditionType env type true)
  | .changeBase baseSkill magLevel healthMax manaMax baseSpeed =>
      some { s with
        baseSkill := baseSkill
        baseSpeed := baseSpeed
        player := { s.player with
          magLevel := magLevel, healthMax := healthMax, manaMax := manaMax } }
  | .changeOthers v delta => some (s.changeOthers v delta)

end Creature

end Infernum
