import Infernum.Condition.Runs
import Infernum.Equip.Runs

/-!
# A player with conditions, equipment and a mount

Conditions, items and mounts all change the one `varSpeed` of the player. The
player of the conditions and the player of the equipment are one; mounts come
here: `toggleMount`, `untameMount`, `onChangeZone` and `Game::playerChangeOutfit`.
-/

namespace Infernum

open Equip (Slot Var Worn Update)

/-- What the rest of the server says about a player who rides. -/
structure Stable where
  env : Env
  /-- `group->access` -/
  access : Bool
  /-- `getOutfitByLookType` finds an outfit -/
  outfitKnown : BitVec 16 → Bool
  hasMount : Mount → Bool
  canWear : BitVec 16 → BitVec 8 → Bool

/-- `Player`, with what its equipment needs besides. -/
structure Rider where
  creature : Creature
  item : Nat → Item
  elsewhere : Nat → Bool
  nextItem : Nat := 0
  added : Slot → Worn
  updates : List Update := []
  lastToggleMount : Int := 0
  wasMounted : Bool := false

namespace Rider

/-- The player as equipment sees it. -/
def gear (s : Rider) : Equip.State where
  player := s.creature.player
  item := s.item
  elsewhere := s.elsewhere
  next := s.nextItem
  added := s.added
  updates := s.updates

/-- What equipment has made of the player. What it has changed of the variables
is nothing that conditions account for. -/
def setGear (s : Rider) (g : Equip.State) : Rider :=
  { s with
    creature := { s.creature with
      player := g.player
      others := fun v => s.creature.others v + (g.player.vars v - s.creature.player.vars v) }
    item := g.item
    elsewhere := g.elsewhere
    nextItem := g.next
    added := g.added
    updates := g.updates }

/-! ## Mounts -/

/-- `Game::changeSpeed`, for a mount. -/
def changeMountSpeed (c : Creature) (delta : BitVec 32) : Creature :=
  { c.changeSpeed delta with
    others := Function.update c.others .speed (c.others .speed + delta) }

/-- `Mounts::getMountByClientID`. -/
def getMountByClientID (c : Creature) (clientId : BitVec 16) : Option Mount :=
  c.mounts.find? fun mount => mount.clientId == clientId

/-- The player mounts, in `toggleMount`. -/
def mountUp (c : Creature) (mount : Mount) : Creature :=
  let c := { c with defaultOutfit := { c.defaultOutfit with lookMount := mount.clientId } }
  if mount.speed ≠ 0 then changeMountSpeed c mount.speed else c

/-- The end of `toggleMount`. -/
def toggled (e : Stable) (s : Rider) (c : Creature) : Rider :=
  { s with
    creature := c.changeOutfit e.env c.defaultOutfit
    lastToggleMount := e.env.OTSYS_TIME }

/-- `Player::toggleMount`. -/
def toggleMount (e : Stable) (s : Rider) (mount : Bool) : Rider :=
  let c := s.creature
  if e.env.OTSYS_TIME - s.lastToggleMount < 3000 ∧ s.wasMounted = false then s
  else if mount then
    if c.isMounted then s
    else if !e.access && e.env.inProtectionZone then s
    else if !e.outfitKnown c.defaultOutfit.lookType then s
    else if c.currentMount = 0 then s
    else
      match c.getMountByID c.currentMount with
      | none => s
      | some currentMount =>
          if !e.hasMount currentMount then { s with creature := { c with currentMount := 0 } }
          else if currentMount.premium && !c.player.isPremium then s
          else if c.hasCondition e.env .outfit then s
          else toggled e s (mountUp c currentMount)
  else if !c.isMounted then s
  else toggled e s c.dismount

/-- `Player::untameMount`, of a mount that the storage knows. -/
def untameMount (env : Env) (s : Rider) (mountId : BitVec 8) : Rider :=
  let c := s.creature
  match c.getMountByID mountId with
  | none => s
  | some _ =>
      if c.currentMount = mountId then
        let c :=
          if c.isMounted then c.dismount.changeOutfit env c.dismount.defaultOutfit else c
        { s with creature := { c with currentMount := 0 } }
      else s

/-- `Player::onChangeZone`. -/
def onChangeZone (e : Stable) (s : Rider) (protection : Bool) : Rider :=
  if protection then
    if !e.access && s.creature.isMounted then
      let c := s.creature.dismount
      { s with creature := c.changeOutfit e.env c.defaultOutfit, wasMounted := true }
    else s
  else if s.wasMounted then { toggleMount e s true with wasMounted := false }
  else s

/-- The end of `playerChangeOutfit`. -/
def wear (e : Stable) (c : Creature) (outfit : Outfit) : Creature :=
  if e.canWear outfit.lookType outfit.lookAddons then
    let c := { c with defaultOutfit := outfit }
    if c.hasCondition e.env .outfit then c else c.changeOutfit e.env outfit
  else c

/-- The player, who is mounted, takes another mount. -/
def changeMount (c : Creature) (mount : Mount) : Creature :=
  let c :=
    match c.getMountByID c.currentMount with
    | some prevMount => changeMountSpeed c (mount.speed - prevMount.speed)
    | none => c
  { c with currentMount := mount.id }

/-- `Game::playerChangeOutfit`, where outfits may be changed. -/
def playerChangeOutfit (e : Stable) (s : Rider) (outfit : Outfit) : Rider :=
  let c := s.creature
  let outfit := if e.outfitKnown outfit.lookType then outfit else { outfit with lookMount := 0 }
  if outfit.lookMount ≠ 0 then
    match getMountByClientID c outfit.lookMount with
    | none => s
    | some mount =>
        if !e.hasMount mount then s
        else if c.isMounted then { s with creature := wear e (changeMount c mount) outfit }
        else
          let c := wear e { c with currentMount := mount.id } { outfit with lookMount := 0 }
          { s with creature := c }
  else if c.isMounted then { s with creature := wear e c.dismount outfit }
  else { s with creature := wear e c outfit }

/-! ## Levels -/

/-- `PLAYER_MAX_SPEED`. -/
def PLAYER_MAX_SPEED : BitVec 32 := 1500

/-- The player has another level: `updateBaseSpeed`, and `changeSpeed` by nothing. -/
def changeLevel (s : Rider) (level vocationSpeed : BitVec 32) (setMaxSpeed : Bool) : Rider :=
  let c := { s.creature with
    player := { s.creature.player with level := level }
    baseSpeed :=
      if setMaxSpeed then PLAYER_MAX_SPEED else vocationSpeed + 2 * (level - 1) }
  { s with creature := c.changeSpeed 0 }

/-! ## Runs -/

/-- What happens to a player. -/
inductive Op
  | condition (op : Creature.Op) (own : ∀ v delta, op ≠ .changeOthers v delta)
  | equipment (op : Equip.Op)
  | toggleMount (e : Stable) (mount : Bool)
  | untameMount (env : Env) (mountId : BitVec 8)
  | changeZone (e : Stable) (protection : Bool)
  | changeOutfit (e : Stable) (outfit : Outfit)
  | changeLevel (level vocationSpeed : BitVec 32) (setMaxSpeed : Bool)

/-- The effect of an operation, with a bound on rounds and on the depth of calls. -/
def apply (w : Equip.World) (fuel : Nat) (s : Rider) : Op → Option Rider
  | .condition op _ => (s.creature.run fuel op).map fun c => { s with creature := c }
  | .equipment op => (Equip.apply w fuel s.gear op).map s.setGear
  | .toggleMount e mount => some (s.toggleMount e mount)
  | .untameMount env mountId => some (s.untameMount env mountId)
  | .changeZone e protection => some (s.onChangeZone e protection)
  | .changeOutfit e outfit => some (s.playerChangeOutfit e outfit)
  | .changeLevel level vocationSpeed setMaxSpeed =>
      some (s.changeLevel level vocationSpeed setMaxSpeed)

/-- A player who has just been loaded: no conditions yet, nothing equipped, on foot. -/
structure Start (s : Rider) : Prop where
  creature : Creature.system.init s.creature
  gear : Equip.Start s.gear
  onFoot : s.creature.isMounted = false

/-- Runs of a player. -/
def system (w : Equip.World) : Lib.TSys Rider Op where
  init := Start
  step s op s' := ∃ fuel, apply w fuel s op = some s'

end Rider

end Infernum
