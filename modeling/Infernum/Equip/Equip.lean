import Infernum.Equip.Abilities
import Infernum.Lib.TransitionSystem
import Mathlib.Logic.Function.Basic

/-!
# Putting equipment on and taking it off

The player's inventory with the items in it, `updateAbilityConditions`,
`EquipItem` and `DeEquipItem`, and `Game::transformItem`, which calls both
again for an item that lies in a slot. Conditions that equipment adds
(invisibility, mana shield, regeneration) and the player's current health and
mana change none of the variables and are left out.
-/

namespace Infernum.Equip

/-- The player, as far as equipment reads and writes it. -/
structure Player where
  level : BitVec 32 := 1
  magLevel : BitVec 32 := 0
  healthMax : BitVec 32 := 1000
  manaMax : BitVec 32 := 0
  vocationId : BitVec 16 := 0
  isPremium : Bool := false
  /-- `PlayerFlag_IgnoreWeaponCheck` -/
  ignoreWeaponCheck : Bool := false
  /-- `varSkills`, `varSpecialSkills`, `varStats`, `varStatsPercent` and `varSpeed` -/
  vars : Var → BitVec 32 := fun _ => 0
  conditionSuppressions : BitVec 32 := 0
  inventory : Slot → Option Nat := fun _ => none
  inventoryAbilities : Slot → Bool := fun _ => false

/-- `Player::getMagicLevel`. -/
def Player.getMagicLevel (p : Player) : BitVec 32 :=
  let level := p.magLevel + p.vars (.stat .magicPoints) + p.vars (.statPercent .magicPoints)
  if level.toInt < 0 then 0 else level

/-- One call of `updateAbilityConditions`, with what it found. -/
structure Update where
  equip : Bool
  slot : Slot
  /-- what the item is worth at the call -/
  now : Worn
  /-- what the item in the slot was worth when the slot was ability-enabled -/
  worn : Worn
  /-- the item lies in the slot -/
  inSlot : Bool
  /-- the item's type has a de-equip event for the slot -/
  deEquipEvent : Bool
  /-- `inventoryAbilities` before the call -/
  enabled : Slot → Bool
  /-- what each slot's last equip added -/
  added : Slot → Worn

/-- The player and the items. An item's parent is the player when it lies in a
slot, another cylinder when `elsewhere` says so, and null otherwise. The last
two fields only record the history. -/
structure State where
  player : Player
  item : Nat → Item
  elsewhere : Nat → Bool
  /-- items from here on are not allocated -/
  next : Nat
  /-- what the slot's last equip added -/
  added : Slot → Worn
  updates : List Update

namespace State

variable (w : World) (s : State)

/-- The slots in the order `Player::getThingIndex` tries them. -/
def slots : List Slot :=
  [.head, .necklace, .backpack, .armor, .right, .left, .legs, .feet, .ring, .ammo]

/-- `Player::getThingIndex`. -/
def getThingIndex (item : Nat) : Option Slot :=
  slots.find? fun slot => s.player.inventory slot == some item

/-- `Item::getParent` is null. -/
def isRemoved (item : Nat) : Bool := (s.getThingIndex item).isNone && !s.elsewhere item

/-- `Player::isItemAbilityEnabled`. -/
def isItemAbilityEnabled (slot : Slot) : Bool := s.player.inventoryAbilities slot

/-- `Player::setItemAbility`. -/
def setItemAbility (slot : Slot) (enabled : Bool) : State :=
  { s with player.inventoryAbilities :=
      Function.update s.player.inventoryAbilities slot enabled }

/-- A slot of the inventory is set. -/
def setInventory (slot : Slot) (item : Option Nat) : State :=
  { s with player.inventory := Function.update s.player.inventory slot item }

/-- An item is changed. -/
def setItem (item : Nat) (i : Item) : State :=
  { s with item := Function.update s.item item i }

/-- The item gets another cylinder as its parent, or loses it. -/
def setElsewhere (item : Nat) (b : Bool) : State :=
  { s with elsewhere := Function.update s.elsewhere item b }

/-- A new item, without a parent. -/
def alloc (i : Item) : State × Nat :=
  ({ s with
      item := Function.update s.item s.next i
      elsewhere := Function.update s.elsewhere s.next false
      next := s.next + 1 }, s.next)

/-- What the item is worth to the player now. -/
def worth (item : Nat) : Worn where
  value := getAbilityValue w (s.item item)
  healthMax := s.player.healthMax
  manaMax := s.player.manaMax
  magLevel := s.player.magLevel
  vocationId := s.player.vocationId

/-- `setVarSkill`, `setVarSpecialSkill`, `setVarStats`, `setVarStatsPercent` and
`Game::changeSpeed`, one after another. -/
def addVars (vars : Var → BitVec 32) (modifiers : List (Var × BitVec 32)) : Var → BitVec 32 :=
  modifiers.foldl (fun vars m => Function.update vars m.1 (vars m.1 + m.2)) vars

/-- `addConditionSuppressions` and `removeConditionSuppressions`. -/
def suppress (equip : Bool) (suppressed conditions : BitVec 32) : BitVec 32 :=
  if equip then suppressed ||| conditions else suppressed &&& ~~~conditions

/-- `Player::updateAbilityConditions`. `getAbilities` allocates the list it
returns, so the early return is never taken. `worn` is only recorded. -/
def updateAbilityConditions (item : Nat) (slot : Slot) (equip : Bool) (worn : Worn) : State :=
  let now := s.worth w item
  { s.setItemAbility slot equip with
    player.vars := addVars s.player.vars (now.modifiers w equip)
    player.conditionSuppressions :=
      suppress equip s.player.conditionSuppressions now.suppressions
    added := if equip then Function.update s.added slot now else s.added
    updates :=
      { equip, slot, now, worn
        inSlot := s.player.inventory slot == some item
        deEquipEvent := w.deEquipEvent (s.item item).id slot
        enabled := s.player.inventoryAbilities
        added := s.added } :: s.updates }

end State

/-! ## Item functions -/

/-- `Item::removeAttribute`, for an integer attribute. -/
def removeAttribute (i : Item) (a : IntAttr) : Item :=
  { i with attributes := { i.attributes with int := Function.update i.attributes.int a none } }

/-- `Item::setID`. -/
def setID (w : World) (i : Item) (newId : BitVec 16) : Item :=
  let newDuration := (w.itemType newId).getDefaultDuration
  let i1 : Item := { i with id := newId }
  let i2 := if newDuration = 0 && !w.stopTime newId && (w.itemType newId).decayTo < 0 then
      removeAttribute (removeAttribute i1 .decayState) .duration
    else i1
  let i3 := removeAttribute i2 .corpseOwner
  if newDuration ≠ 0 && (!w.stopTime i.id || !i3.hasAttribute .duration) then
    (i3.setIntAttr .decayState DECAYING_FALSE).setIntAttr .duration newDuration
  else i3

/-- `Item::setDefaultSubtype`. -/
def setDefaultSubtype (w : World) (i : Item) : Item :=
  let it := i.type w.toWorld
  let i1 := i.setItemCount 1
  if it.charges ≠ 0 then
    if it.stackable then i1.setItemCount (it.charges.setWidth 16)
    else i1.setCharges (it.charges.setWidth 16)
  else i1

/-! ## The functions that call each other -/

/-- The calls that lead back to each other. An item may be a null pointer only
where the source tests for one. -/
inductive Call
  | onPlayerEquip (item : Nat) (slot : Slot)
  | onPlayerDeEquip (item : Nat) (slot : Slot)
  | transformItem (item : Nat) (newId : BitVec 16)
  | startDecay (item : Option Nat)
  | internalRemoveItem (item : Nat)

/-- A call gives the state after it and the item it returns. There is no result
when the calls run deeper than the fuel. -/
abbrev Calls := State → Call → Option (State × Option Nat)

section Bodies

variable (w : World) (call : Calls) (s : State)

/-- The requirements `EquipItem` tests. -/
def mayWield (e : MoveEvent) (p : Player) : Bool :=
  p.ignoreWeaponCheck || e.wieldInfo == 0 ||
    !(p.level < e.reqLevel || p.getMagicLevel < e.reqMagLevel) &&
      !(e.premium && !p.isPremium) &&
      (e.vocEquipMap.isEmpty || e.vocEquipMap.contains p.vocationId)

/-- `EquipItem`, when it is not a mere check. -/
def equipItem (e : MoveEvent) (item : Nat) (slot : Slot) : Option State :=
  if s.isItemAbilityEnabled slot then some s
  else if !mayWield e s.player then some s
  else
    let id := (s.item item).id
    if w.transformEquipTo id ≠ 0 then
      let s1 :=
        if hasAbilities (s.item item) || (w.abilities id).isSome then
          s.updateAbilityConditions w item slot true (s.worth w item)
        else s
      match call s1 (.transformItem item (w.transformEquipTo id)) with
      | none => none
      | some (s2, newItem) => (call s2 (.startDecay newItem)).map Prod.fst
    else some (s.updateAbilityConditions w item slot true (s.worth w item))

/-- `DeEquipItem`. -/
def deEquipItem (item : Nat) (slot : Slot) : Option State :=
  if !s.isItemAbilityEnabled slot then some s
  else
    let worn := s.added slot
    let id := (s.item item).id
    let s1 := s.setItemAbility slot false
    let s2 :=
      if w.transformDeEquipTo id ≠ 0 then
        match call s1 (.transformItem item (w.transformDeEquipTo id)) with
        | none => none
        | some (s2, _) => (call s2 (.startDecay item)).map Prod.fst
      else some s1
    s2.map fun s2 => s2.updateAbilityConditions w item slot false worn

/-- `MoveEvents::onPlayerEquip`. -/
def onPlayerEquip (item : Nat) (slot : Slot) : Option State :=
  match w.equipEvent (s.item item).id slot with
  | none => some s
  | some e => equipItem w call s e item slot

/-- `MoveEvents::onPlayerDeEquip`. -/
def onPlayerDeEquip (item : Nat) (slot : Slot) : Option State :=
  if w.deEquipEvent (s.item item).id slot then deEquipItem w call s item slot else some s

/-- `postAddNotification` of the item's cylinder: only a slot tells the player. -/
def postAddNotification (slot : Option Slot) (item : Nat) : Option State :=
  match slot with
  | some slot => (call s (.onPlayerEquip item slot)).map Prod.fst
  | none => some s

/-- `postRemoveNotification` of the item's cylinder. -/
def postRemoveNotification (slot : Option Slot) (item : Nat) : Option State :=
  match slot with
  | some slot => (call s (.onPlayerDeEquip item slot)).map Prod.fst
  | none => some s

/-- `Cylinder::removeThing`, of the whole item. -/
def removeThing (slot : Option Slot) (item : Nat) : State :=
  match slot with
  | some slot => s.setInventory slot none
  | none => s.setElsewhere item false

/-- `Cylinder::addThing(Thing*)`, which does nothing for a player. -/
def addThing (slot : Option Slot) (item : Nat) : State :=
  match slot with
  | some _ => s
  | none => s.setElsewhere item true

/-- `Cylinder::updateThing`: an item that is not in the cylinder is left alone. -/
def updateThing (item : Nat) (itemId : BitVec 16) (count : BitVec 16) : State :=
  if s.isRemoved item then s
  else s.setItem item ((setID w (s.item item) itemId).setSubType w.toWorld count)

/-- `Cylinder::replaceThing`. -/
def replaceThing (slot : Option Slot) (newItem : Nat) : State :=
  match slot with
  | some slot => s.setInventory slot (some newItem)
  | none => s.setElsewhere newItem true

/-- `transformItem` between a type that lies on top and one that does not. -/
def transformByMoving (slot : Option Slot) (item : Nat) (newId : BitVec 16) :
    Option (State × Option Nat) :=
  match postRemoveNotification call (removeThing s slot item) slot item with
  | none => none
  | some s1 =>
    let s2 := addThing (s1.setItem item (setID w (s1.item item) newId)) slot item
    if s2.isRemoved item then some (s2, none)
    else (postAddNotification call s2 (s2.getThingIndex item) item).map fun s3 =>
      (s3, some item)

/-- `transformItem` between types of one class: the item is changed. -/
def transformInPlace (slot : Option Slot) (item : Nat) (curId newId : BitVec 16) :
    Option (State × Option Nat) :=
  let curType := w.itemType curId
  let newType := w.itemType newId
  match postRemoveNotification call s slot item with
  | none => none
  | some s1 =>
    let i := s1.item item
    let s2 :=
      if curType.id ≠ newType.id ∧ newType.group ≠ curType.group then
        s1.setItem item (setDefaultSubtype w i)
      else s1
    let itemId := if curType.id ≠ newType.id then newId else i.id
    let s3 := updateThing w s2 item itemId (i.getSubType w.toWorld)
    (postAddNotification call s3 slot item).map fun s4 => (s4, some item)

/-- `transformItem` between types of different classes: a new item takes the
item's place. -/
def transformByReplacing (slot : Option Slot) (item : Nat) (newId : BitVec 16) :
    Option (State × Option Nat) :=
  match Item.createItem w.toWorld newId 0 with
  | none => some (s, none)
  | some i =>
    let (s1, newItem) := s.alloc i
    match postAddNotification call (replaceThing s1 slot newItem) slot newItem with
    | none => none
    | some s2 =>
      (postRemoveNotification call (s2.setElsewhere item false) slot item).map fun s3 =>
        (s3, some newItem)

/-- `Game::transformItem` without a count. -/
def transformItem (item : Nat) (newId : BitVec 16) : Option (State × Option Nat) :=
  let curId := (s.item item).id
  if curId = newId then some (s, some item)
  else if s.isRemoved item then some (s, none)
  else
    let slot := s.getThingIndex item
    if (w.itemType newId).id = 0 then some (s, some item)
    else if (w.itemType curId).alwaysOnTop ≠ (w.itemType newId).alwaysOnTop then
      transformByMoving w call s slot item newId
    else if (w.itemType curId).type = (w.itemType newId).type then
      transformInPlace w call s slot item curId newId
    else transformByReplacing w call s slot item newId

/-- `Game::internalRemoveItem` of the whole item. -/
def internalRemoveItem (item : Nat) : Option State :=
  if s.isRemoved item then some s
  else if (s.item item).count = 0 then some s
  else
    let slot := s.getThingIndex item
    postRemoveNotification call (removeThing s slot item) slot item

/-- `Game::internalDecayItem`. -/
def internalDecayItem (item : Nat) : Option State :=
  let it := (s.item item).type w.toWorld
  if it.decayTo ≠ 0 then
    match call s (.transformItem item (BitVec.ofInt 16 it.decayTo)) with
    | none => none
    | some (s1, newItem) => (call s1 (.startDecay newItem)).map Prod.fst
  else (call s (.internalRemoveItem item)).map Prod.fst

/-- `Game::startDecay`. -/
def startDecay (item : Option Nat) : Option State :=
  match item with
  | none => some s
  | some item =>
    let i := s.item item
    if s.isRemoved item || !i.canDecay w.toWorld then some s
    else if i.getDecaying = 1 then some s
    else if i.getIntAttr .duration ≠ 0 then
      some (s.setItem item (i.setIntAttr .decayState DECAYING_TRUE))
    else internalDecayItem w call s item

/-- What a call does. -/
def body : Call → Option (State × Option Nat)
  | .onPlayerEquip item slot => (onPlayerEquip w call s item slot).map fun s' => (s', none)
  | .onPlayerDeEquip item slot => (onPlayerDeEquip w call s item slot).map fun s' => (s', none)
  | .transformItem item newId => transformItem w call s item newId
  | .startDecay item => (startDecay w call s item).map fun s' => (s', none)
  | .internalRemoveItem item => (internalRemoveItem call s item).map fun s' => (s', none)

end Bodies

/-- A call, with at most `fuel` calls inside one another. -/
def exec (w : World) : Nat → Calls
  | 0, _, _ => none
  | fuel + 1, s, c => body w (exec w fuel) s c

/-! ## Runs -/

/-- What happens to the player. -/
inductive Op
  /-- a new item comes up somewhere -/
  | newItem (i : Item)
  /-- an item is moved into an empty slot -/
  | putOn (item : Nat) (slot : Slot)
  /-- the item in a slot is moved to another cylinder, or removed -/
  | takeOff (slot : Slot) (kept : Bool)
  /-- the item in a slot is moved into another slot -/
  | shift (slot toSlot : Slot)
  /-- the item in a slot is equipped again (login, more of a stack) -/
  | equip (slot : Slot)
  /-- the item in a slot is de-equipped where it is (part of a stack leaves) -/
  | deEquip (slot : Slot)
  | transformItem (item : Nat) (newId : BitVec 16)
  | decay (item : Nat)
  | setLevel (level : BitVec 32)
  | setMagLevel (magLevel : BitVec 32)
  | setHealthMax (healthMax : BitVec 32)
  | setManaMax (manaMax : BitVec 32)
  | setVocation (vocationId : BitVec 16)

/-- The effect of an operation whose calls go at most `fuel` deep; `none` where
the operation is not possible. -/
def apply (w : World) (fuel : Nat) (s : State) : Op → Option State
  | .newItem i =>
    let (s1, item) := s.alloc i
    some (s1.setElsewhere item true)
  | .putOn item slot =>
    if item < s.next ∧ s.getThingIndex item = none ∧ s.player.inventory slot = none then
      postAddNotification (exec w fuel)
        ((s.setElsewhere item false).setInventory slot (some item)) (some slot) item
    else none
  | .takeOff slot kept =>
    match s.player.inventory slot with
    | none => none
    | some item =>
      postRemoveNotification (exec w fuel)
        ((s.setInventory slot none).setElsewhere item kept) (some slot) item
  | .shift slot toSlot =>
    match s.player.inventory slot with
    | none => none
    | some item =>
      if s.player.inventory toSlot = none then
        match postRemoveNotification (exec w fuel)
            ((s.setInventory slot none).setInventory toSlot (some item)) (some slot) item with
        | none => none
        | some s1 => postAddNotification (exec w fuel) s1 (s1.getThingIndex item) item
      else none
  | .equip slot =>
    match s.player.inventory slot with
    | none => none
    | some item => postAddNotification (exec w fuel) s (some slot) item
  | .deEquip slot =>
    match s.player.inventory slot with
    | none => none
    | some item => postRemoveNotification (exec w fuel) s (some slot) item
  | .transformItem item newId => (exec w fuel s (.transformItem item newId)).map Prod.fst
  | .decay item => internalDecayItem w (exec w fuel) s item
  | .setLevel level => some { s with player.level := level }
  | .setMagLevel magLevel => some { s with player.magLevel := magLevel }
  | .setHealthMax healthMax => some { s with player.healthMax := healthMax }
  | .setManaMax manaMax => some { s with player.manaMax := manaMax }
  | .setVocation vocationId => some { s with player.vocationId := vocationId }

/-- Before the player appears nothing is equipped; the inventory is loaded. -/
structure Start (s : State) : Prop where
  enabled : ∀ slot, s.isItemAbilityEnabled slot = false
  vars : ∀ v, s.player.vars v = 0
  suppressions : s.player.conditionSuppressions = 0
  apart : ∀ slot slot' item, s.player.inventory slot = some item →
    s.player.inventory slot' = some item → slot = slot'
  allocated : ∀ slot item, s.player.inventory slot = some item → item < s.next
  elsewhere : ∀ item, s.elsewhere item = true → item < s.next
  updates : s.updates = []

/-- Runs of a player's equipment. -/
def system (w : World) : Lib.TSys State Op where
  init := Start
  step s op s' := ∃ fuel, apply w fuel s op = some s'

end Infernum.Equip
