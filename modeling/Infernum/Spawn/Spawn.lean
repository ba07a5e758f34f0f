import Infernum.Map.Position
import Infernum.Lib.TransitionSystem

/-!
# Spawns

`Spawn`: the monsters of a spawn zone, each with an id, and the periodic check
that replaces those that are gone. A new monster is announced by a chain of
delayed tasks and registered by the last of them. The state holds the spawn,
the tasks that the scheduler has for it and the clock; a script or the map
decides what a placement comes to.
-/

namespace Infernum

open Lib

inductive Direction
  | north | east | south | west
  deriving DecidableEq, Repr

namespace Spawning

/-- `spawnBlock_t`; a monster type is known by its name. -/
structure SpawnBlock where
  pos : Position
  mType : String
  lastSpawn : Nat
  interval : Nat
  direction : Direction
  deriving DecidableEq, Repr

/-- What the spawn asks a monster for. -/
structure Monster where
  mType : String
  direction : Direction
  masterPos : Position
  position : Position
  removed : Bool
  deriving DecidableEq, Repr

/-- A pending `scheduleSpawn`, with its own copy of the block. -/
structure SpawnTask where
  due : Nat
  spawnId : Nat
  sb : SpawnBlock
  interval : UInt16
  deriving DecidableEq

/-- What a placement comes to: the script forbids it, there is no place, or
the monster is on the map, where a script may have removed it again. -/
inductive Outcome
  | vetoed
  | failed
  | placed (position : Position) (removed : Bool)
  deriving DecidableEq

/-- The spawn, its tasks and the clock. `spawnedMap` is a multimap; the order
of its entries is not looked at. -/
structure Spawn where
  centerPos : Position
  radius : Int
  interval : Nat
  spawnMap : List (Nat × SpawnBlock)
  spawnedMap : List (Nat × Monster)
  /-- when the pending check is due -/
  checkSpawnEvent : Option Nat
  tasks : List SpawnTask
  /-- `OTSYS_TIME()` -/
  now : Nat
  deriving DecidableEq

/-- `Spawns::isInZone` -/
def isInZone (centerPos : Position) (radius : Int) (pos : Position) : Bool :=
  radius == -1 ||
    (decide (centerPos.getX - radius ≤ pos.getX) && decide (pos.getX ≤ centerPos.getX + radius) &&
      decide (centerPos.getY - radius ≤ pos.getY) && decide (pos.getY ≤ centerPos.getY + radius))

namespace Spawn

/-- A spawn without monsters. -/
def create (centerPos : Position) (radius : Int) (now : Nat) : Spawn :=
  { centerPos := centerPos, radius := radius, interval := 60000, spawnMap := [], spawnedMap := []
    checkSpawnEvent := none, tasks := [], now := now }

def addMonster (s : Spawn) (mType : String) (pos : Position) (dir : Direction)
    (interval : Nat) : Spawn :=
  let sb : SpawnBlock :=
    { pos := pos, mType := mType, lastSpawn := 0, interval := interval, direction := dir }
  { s with
    interval := min s.interval interval
    spawnMap := s.spawnMap ++ [(s.spawnMap.length + 1, sb)] }

def isInSpawnZone (s : Spawn) (pos : Position) : Bool :=
  isInZone s.centerPos s.radius pos

/-- `spawnMap[spawnId].lastSpawn = OTSYS_TIME()` -/
def touch (s : Spawn) (spawnId : Nat) : Spawn :=
  { s with
    spawnMap := s.spawnMap.map fun it =>
      if it.1 = spawnId then (it.1, { it.2 with lastSpawn := s.now }) else it }

/-- `spawnedMap.find(spawnId) != spawnedMap.end()` -/
def isSpawned (s : Spawn) (spawnId : Nat) : Bool :=
  s.spawnedMap.any fun it => it.1 == spawnId

def startSpawnCheck (s : Spawn) : Spawn :=
  match s.checkSpawnEvent with
  | none => { s with checkSpawnEvent := some (s.now + s.interval) }
  | some _ => s

def spawnMonster (s : Spawn) (spawnId : Nat) (sb : SpawnBlock) (outcome : Outcome) : Spawn :=
  match outcome with
  | .failed => s
  | .vetoed => s.touch spawnId
  | .placed position removed =>
      let monster : Monster :=
        { mType := sb.mType, direction := sb.direction, masterPos := sb.pos
          position := position, removed := removed }
      touch { s with spawnedMap := s.spawnedMap ++ [(spawnId, monster)] } spawnId

/-- Every monster is placed once. -/
def startup (s : Spawn) (outcome : Nat → Outcome) : Spawn :=
  s.spawnMap.foldl (fun s it => s.spawnMonster it.1 it.2 (outcome it.1)) s

/-- The magic effect of the announcement is left out. -/
def scheduleSpawn (s : Spawn) (spawnId : Nat) (sb : SpawnBlock) (interval : UInt16)
    (outcome : Outcome) : Spawn :=
  if interval ≤ 0 then
    s.spawnMonster spawnId sb outcome
  else
    { s with
      tasks := s.tasks ++
        [{ due := s.now + 1400, spawnId := spawnId, sb := sb, interval := interval - 1400 }] }

/-- One entry of `cleanup`: what remains of it. -/
def cleanupEntry (s : Spawn) (it : Nat × Monster) : Option (Nat × Monster) :=
  if it.2.removed then
    none
  else if !s.isInSpawnZone it.2.position && it.1 ≠ 0 then
    some (0, it.2)
  else
    some it

/-- The entries of removed monsters go, with the time of it; monsters that
have walked off come under the id 0. -/
def cleanup (s : Spawn) : Spawn :=
  let gone := (s.spawnedMap.filter fun it => it.2.removed && it.1 ≠ 0).map Prod.fst
  let s' := gone.foldl touch s
  { s' with spawnedMap := s.spawnedMap.filterMap s.cleanupEntry }

/-- The loop of `checkSpawn` over the blocks, up to `rate` announcements. -/
def checkLoop (rate : UInt32) (outcome : Outcome) :
    List (Nat × SpawnBlock) → Nat → Spawn → Spawn
  | [], _, s => s
  | it :: rest, spawnCount, s =>
      if s.isSpawned it.1 then
        checkLoop rate outcome rest spawnCount s
      else if it.2.lastSpawn + it.2.interval ≤ s.now then
        let s := s.scheduleSpawn it.1 it.2 (3 * 1400) outcome
        let spawnCount := spawnCount + 1
        if rate.toNat ≤ spawnCount then s else checkLoop rate outcome rest spawnCount s
      else
        checkLoop rate outcome rest spawnCount s

/-- The periodic check, with `RATE_SPAWN`. -/
def checkSpawn (s : Spawn) (rate : UInt32) (outcome : Outcome) : Spawn :=
  let s := cleanup { s with checkSpawnEvent := none }
  let s := checkLoop rate outcome s.spawnMap 0 s
  if s.spawnedMap.length < s.spawnMap.length then
    { s with checkSpawnEvent := some (s.now + s.interval) }
  else
    s

/-! ### Runs -/

/-- What happens to a spawn. A monster is known by its place in `spawnedMap`. -/
inductive Action
  /-- the clock moves on -/
  | elapse (ms : Nat)
  /-- the pending check runs -/
  | checkSpawn (rate : UInt32) (outcome : Outcome)
  /-- a pending task runs -/
  | runTask (index : Nat) (outcome : Outcome)
  /-- `Monster::onRemoveCreature`, where a script may have taken the event over -/
  | removeCreature (index : Nat) (scripted : Bool)
  /-- a monster walks or is moved -/
  | move (index : Nat) (position : Position)
  deriving DecidableEq

/-- The monster at a place, changed. -/
def updateMonster (s : Spawn) (index : Nat) (f : Monster → Monster) : Spawn :=
  { s with spawnedMap := s.spawnedMap.modify index fun it => (it.1, f it.2) }

/-- One step; nothing if the action cannot happen. The scheduler runs nothing
before it is due, and a removed monster neither walks nor is removed again. -/
def step (s : Spawn) : Action → Option Spawn
  | .elapse ms => some { s with now := s.now + ms }
  | .checkSpawn rate outcome =>
      match s.checkSpawnEvent with
      | some due => if due ≤ s.now then some (s.checkSpawn rate outcome) else none
      | none => none
  | .runTask index outcome =>
      match s.tasks[index]? with
      | some task =>
          if task.due ≤ s.now then
            some (scheduleSpawn { s with tasks := s.tasks.eraseIdx index } task.spawnId task.sb
              task.interval outcome)
          else none
      | none => none
  | .removeCreature index scripted =>
      match s.spawnedMap[index]? with
      | some it =>
          if it.2.removed then none
          else
            let s := s.updateMonster index fun monster => { monster with removed := true }
            some (if scripted then s else s.startSpawnCheck)
      | none => none
  | .move index position =>
      match s.spawnedMap[index]? with
      | some it =>
          if it.2.removed then none
          else some (s.updateMonster index fun monster => { monster with position := position })
      | none => none

/-- What is read of a `<monster>` node. -/
structure MonsterNode where
  mType : String
  pos : Position
  dir : Direction
  interval : Nat

/-- The spawn as it is loaded. Which intervals pass is not assumed. -/
def load (centerPos : Position) (radius : Int) (nodes : List MonsterNode) (now : Nat) : Spawn :=
  nodes.foldl (fun s node => s.addMonster node.mType node.pos node.dir node.interval)
    (create centerPos radius now)

/-- The runs of all spawns from their start on, where the first placements
come to what `Startup` allows. -/
def system (Startup : (Nat → Outcome) → Prop) : TSys Spawn Action where
  init s := ∃ centerPos radius nodes now outcome, Startup outcome ∧
    s = (load centerPos radius nodes now).startup outcome
  step s a t := s.step a = some t

end Spawn

end Spawning

end Infernum
