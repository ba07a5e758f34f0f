import Mathlib.Logic.Function.Basic
import Infernum.Lib.TransitionSystem

/-!
# Raids

`Raids` and `Raid`: every minute a check may start one of the loaded raids,
whose events then run one after the other, each scheduled by the one before
it. The state holds the raids, the events that the scheduler has for them,
those that it has handed to the dispatcher, and the clock.
-/

namespace Infernum.Raiding

open Lib

def MAX_RAND_RANGE : Nat := 10000000
def CHECK_RAIDS_INTERVAL : Nat := 60
def RAID_MINTICKS : Nat := 1000

/-- An event of a raid. What it does is left to its execution. -/
structure RaidEvent where
  delay : UInt32
  deriving DecidableEq, Repr

/-- A raid as it is loaded. -/
structure RaidNode where
  interval : Nat
  interval_pos : 0 < interval
  margin : Nat
  canBeRepeated : Bool
  raidEvents : List RaidEvent
  sorted : raidEvents.Pairwise fun lhs rhs => lhs.delay ≤ rhs.delay

inductive RaidState
  | idle
  | executing
  deriving DecidableEq, Repr

structure Raid where
  node : RaidNode
  nextEvent : Nat
  state : RaidState
  nextEventEvent : Nat

/-- A raid just loaded. -/
def Raid.new (node : RaidNode) : Raid :=
  { node := node, nextEvent := 0, state := .idle, nextEventEvent := 0 }

def Raid.getNextRaidEvent (raid : Raid) : Option RaidEvent :=
  raid.node.raidEvents[raid.nextEvent]?

/-- The address of a raid: how often raids had been cleared when it was
loaded, and its place among those loaded with it. -/
structure RaidPtr where
  load : Nat
  index : Nat
  deriving DecidableEq, Repr

/-- What a task of the scheduler calls. -/
inductive Call
  | checkRaids
  | executeRaidEvent (raid : RaidPtr) (raidEvent : RaidEvent)
  deriving DecidableEq, Repr

structure Task where
  eventId : Nat
  due : Nat
  call : Call
  deriving DecidableEq, Repr

structure Raids where
  /-- the raids that are not deleted -/
  heap : RaidPtr → Option Raid
  raidList : List RaidPtr
  running : Option RaidPtr
  lastRaidEnd : Nat
  checkRaidsEvent : Nat
  loaded : Bool
  started : Bool
  /-- how often `clear` was called -/
  load : Nat
  lastEventId : Nat
  scheduler : List Task
  /-- the tasks that the scheduler has handed over -/
  dispatcher : List Task
  /-- `OTSYS_TIME()` -/
  now : Nat

namespace Raids

/-- `g_scheduler.addEvent`, which gives `newEventId`. -/
def addEvent (s : Raids) (delay : Nat) (call : Call) : Raids :=
  { s with
    lastEventId := s.lastEventId + 1
    scheduler := s.scheduler ++
      [{ eventId := s.lastEventId + 1, due := s.now + delay, call := call }] }

def newEventId (s : Raids) : Nat := s.lastEventId + 1

/-- `g_scheduler.stopEvent`: a task that is handed over is out of reach. -/
def stopEvent (s : Raids) (eventId : Nat) : Raids :=
  if eventId = 0 then s
  else { s with scheduler := s.scheduler.filter fun task => task.eventId ≠ eventId }

def setRaid (s : Raids) (p : RaidPtr) (raid : Raid) : Raids :=
  { s with heap := Function.update s.heap p (some raid) }

/-- `raids.xml` and the files it names; `none` if it cannot be read. -/
def loadFromXml (s : Raids) (xml : Option (List RaidNode)) : Raids :=
  if s.loaded then s
  else
    match xml with
    | none => s
    | some nodes =>
        { s with
          heap := fun p => if p.load = s.load then nodes[p.index]?.map Raid.new else s.heap p
          raidList := s.raidList ++
            (List.range nodes.length).map fun index => { load := s.load, index := index }
          loaded := true }

def startup (s : Raids) : Raids :=
  if !s.loaded || s.started then s
  else
    let s := { s with lastRaidEnd := s.now }
    { s.addEvent (CHECK_RAIDS_INTERVAL * 1000) .checkRaids with
      checkRaidsEvent := s.newEventId
      started := true }

def startRaid (s : Raids) (p : RaidPtr) : Raids :=
  match s.heap p with
  | none => s
  | some raid =>
      match raid.getNextRaidEvent with
      | none => s
      | some raidEvent =>
          (s.addEvent raidEvent.delay.toNat (.executeRaidEvent p raidEvent)).setRaid p
            { raid with state := .executing, nextEventEvent := s.newEventId }

/-- Whether the check takes a raid, with the random number it draws. -/
def isTaken (s : Raids) (raid : Raid) (draw : Nat) : Bool :=
  decide (s.lastRaidEnd + raid.node.margin ≤ s.now) &&
    decide (draw ≤ MAX_RAND_RANGE * CHECK_RAIDS_INTERVAL / raid.node.interval)

/-- The raid that the check starts. -/
def pick (s : Raids) (draw : RaidPtr → Nat) : Option RaidPtr :=
  s.raidList.find? fun p =>
    match s.heap p with
    | some raid => s.isTaken raid (draw p)
    | none => false

def canBeRepeated (s : Raids) (p : RaidPtr) : Bool :=
  match s.heap p with
  | some raid => raid.node.canBeRepeated
  | none => false

/-- The part of `checkRaids` that starts a raid. -/
def startPicked (s : Raids) (draw : RaidPtr → Nat) : Raids :=
  match s.running with
  | some _ => s
  | none =>
      match s.pick draw with
      | none => s
      | some p =>
          let s := { s with running := some p }.startRaid p
          if !s.canBeRepeated p then { s with raidList := s.raidList.erase p } else s

def checkRaids (s : Raids) (draw : RaidPtr → Nat) : Raids :=
  let s := s.startPicked draw
  { s.addEvent (CHECK_RAIDS_INTERVAL * 1000) .checkRaids with checkRaidsEvent := s.newEventId }

/-- `resetRaid`, on a raid with the counter as it stands. -/
def resetRaid (s : Raids) (p : RaidPtr) (raid : Raid) : Raids :=
  { s.setRaid p { raid with nextEvent := 0, state := .idle } with
    running := none
    lastRaidEnd := s.now }

/-- `std::max<int32_t>(RAID_MINTICKS, newRaidEvent->getDelay() - raidEvent->getDelay())` -/
def eventTicks (raidEvent newRaidEvent : RaidEvent) : Nat :=
  (max (RAID_MINTICKS : Int) (newRaidEvent.delay - raidEvent.delay).toInt32.toInt).toNat

/-- `ok` is what the event's execution comes to. Nothing is said of a raid
that is deleted. -/
def executeRaidEvent (s : Raids) (p : RaidPtr) (raidEvent : RaidEvent) (ok : Bool) :
    Option Raids :=
  match s.heap p with
  | none => none
  | some raid =>
      if ok then
        let raid := { raid with nextEvent := raid.nextEvent + 1 }
        match raid.getNextRaidEvent with
        | some newRaidEvent =>
            some ((s.addEvent (eventTicks raidEvent newRaidEvent)
              (.executeRaidEvent p newRaidEvent)).setRaid p
                { raid with nextEventEvent := s.newEventId })
        | none => some (s.resetRaid p raid)
      else
        some (s.resetRaid p raid)

/-- `stopEvents` of a raid, and its deletion. -/
def stopAndDelete (s : Raids) (p : RaidPtr) : Raids :=
  match s.heap p with
  | none => s
  | some raid =>
      { s.stopEvent raid.nextEventEvent with heap := Function.update s.heap p none }

def clear (s : Raids) : Raids :=
  let s := s.raidList.foldl stopAndDelete (s.stopEvent s.checkRaidsEvent)
  { s with
    checkRaidsEvent := 0
    raidList := []
    loaded := false
    started := false
    running := none
    lastRaidEnd := 0
    load := s.load + 1 }

def reload (s : Raids) (xml : Option (List RaidNode)) : Raids :=
  s.clear.loadFromXml xml

/-- `Game.startRaid` with the raid at a place of the list. -/
def luaGameStartRaid (s : Raids) (p : RaidPtr) : Raids :=
  match s.running with
  | some _ => s
  | none => { s with running := some p }.startRaid p

/-! ### Runs -/

inductive Action
  /-- the clock moves on -/
  | elapse (ms : Nat)
  /-- the scheduler hands a task over -/
  | handOver (index : Nat)
  /-- the dispatcher runs a task -/
  | dispatch (index : Nat) (draw : RaidPtr → Nat) (ok : Bool)
  /-- a script starts a raid -/
  | startRaid (index : Nat)
  /-- the raids are reloaded and started again -/
  | reload (xml : Option (List RaidNode))

/-- One step; nothing if the action cannot happen. -/
def step (s : Raids) : Action → Option Raids
  | .elapse ms => some { s with now := s.now + ms }
  | .handOver index =>
      match s.scheduler[index]? with
      | some task =>
          if task.due ≤ s.now then
            some { s with
              scheduler := s.scheduler.eraseIdx index
              dispatcher := s.dispatcher ++ [task] }
          else none
      | none => none
  | .dispatch index draw ok =>
      match s.dispatcher[index]? with
      | some task =>
          let s := { s with dispatcher := s.dispatcher.eraseIdx index }
          match task.call with
          | .checkRaids => some (s.checkRaids draw)
          | .executeRaidEvent p raidEvent => s.executeRaidEvent p raidEvent ok
      | none => none
  | .startRaid index => s.raidList[index]?.map s.luaGameStartRaid
  | .reload xml => some (s.reload xml).startup

/-- Before anything is loaded. -/
def initial (now : Nat) : Raids :=
  { heap := fun _ => none, raidList := [], running := none, lastRaidEnd := 0
    checkRaidsEvent := 0, loaded := false, started := false, load := 0, lastEventId := 0
    scheduler := [], dispatcher := [], now := now }

def system : TSys Raids Action where
  init s := ∃ now xml, s = ((initial now).loadFromXml xml).startup
  step s a t := s.step a = some t

end Raids

end Infernum.Raiding
