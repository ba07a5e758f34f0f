import Infernum.Lib.TransitionSystem
import Mathlib.Data.List.Nodup
import Mathlib.Algebra.Order.Ring.Nat

/-!
# The scheduler

`Scheduler`: events wait in `eventList` for their cycle, and the ids of those that were
not stopped are in `eventIds`. Every section under the event lock is one step, and so is
every wake-up of the thread, for whatever reason it wakes up. The priority queue is the
list of its tasks; its top is any task with the least cycle.
-/

namespace Infernum.Scheduling

inductive ThreadState where
  | running | closing | terminated
  deriving DecidableEq, Repr

inductive CvStatus where
  | noTimeout | timeout
  deriving DecidableEq, Repr

/-- A task without its function: `expiration` is its cycle. -/
structure SchedulerTask where
  eventId : BitVec 32
  expiration : Nat
  deriving DecidableEq, Repr

def SchedulerTask.getCycle (task : SchedulerTask) : Nat := task.expiration

/-- A task that expires then; the id is given by `addEvent`. -/
def createSchedulerTask (expiration : Nat) : SchedulerTask := ⟨0, expiration⟩

/-- Where the scheduler thread is. -/
inductive Thread where
  /-- At the head of its loop. -/
  | loop
  /-- In `wait`, the event list was empty. -/
  | waiting
  /-- In `wait_until`. -/
  | waitingUntil (cycle : Nat)
  /-- The wait is over, the lock has yet to be taken again. -/
  | woken (ret : CvStatus)
  /-- The lock is released, the task has yet to be given to the dispatcher. -/
  | handing (task : SchedulerTask)
  | done
  deriving DecidableEq, Repr

/-- What the callers and the dispatcher see. -/
inductive Seen where
  /-- `addEvent` took the task in. -/
  | added (task : SchedulerTask)
  /-- `stopEvent` returned true. -/
  | stopped (eventId : BitVec 32)
  /-- The dispatcher was given the task at this time. -/
  | handed (task : SchedulerTask) (time : Nat)
  /-- `shutdown` emptied the event list. -/
  | cleared
  deriving DecidableEq, Repr

structure Scheduler where
  threadState : ThreadState
  lastEventId : BitVec 32
  eventList : List SchedulerTask
  eventIds : List (BitVec 32)
  thread : Thread
  now : Nat
  seen : List Seen

namespace Scheduler

def started : Scheduler := ⟨.running, 0, [], [], .loop, 0, []⟩

/-- `++lastEventId`, with zero left out. -/
def nextEventId (s : Scheduler) : BitVec 32 :=
  if s.lastEventId + 1 = 0 then 1 else s.lastEventId + 1

/-- `addEvent` and the id it returns. -/
def addEvent (s : Scheduler) (task : SchedulerTask) : Scheduler × BitVec 32 :=
  if s.threadState ≠ .running then (s, 0)
  else
    let lastEventId := if task.eventId = 0 then s.nextEventId else s.lastEventId
    let eventId := if task.eventId = 0 then lastEventId else task.eventId
    let task : SchedulerTask := { task with eventId := eventId }
    ({ s with
        lastEventId := lastEventId
        eventIds := s.eventIds.insert eventId
        eventList := s.eventList ++ [task]
        seen := s.seen ++ [.added task] }, eventId)

/-- `stopEvent` and what it returns. -/
def stopEvent (s : Scheduler) (eventId : BitVec 32) : Scheduler × Bool :=
  if eventId = 0 then (s, false)
  else if eventId ∈ s.eventIds then
    ({ s with
        eventIds := s.eventIds.erase eventId
        seen := s.seen ++ [.stopped eventId] }, true)
  else (s, false)

/-- No task of the list has an earlier cycle. -/
def isTop (s : Scheduler) (task : SchedulerTask) : Bool :=
  task ∈ s.eventList ∧ ∀ other ∈ s.eventList, task.getCycle ≤ other.getCycle

/-- The head of the loop of `threadMain`, up to the wait. -/
def beginWait (s : Scheduler) (top : SchedulerTask) : Option Scheduler :=
  if s.threadState = .terminated then some { s with thread := .done }
  else if s.eventList = [] then some { s with thread := .waiting }
  else if s.isTop top then some { s with thread := .waitingUntil top.getCycle }
  else none

/-- The wait returns: on a signal or for no reason at any time, with a timeout not before
the time that was waited for. -/
def wake (s : Scheduler) (ret : CvStatus) : Option Scheduler :=
  match s.thread, ret with
  | .waiting, .noTimeout => some { s with thread := .woken .noTimeout }
  | .waitingUntil _, .noTimeout => some { s with thread := .woken .noTimeout }
  | .waitingUntil cycle, .timeout =>
      if cycle ≤ s.now then some { s with thread := .woken .timeout } else none
  | _, _ => none

/-- The rest of the body of the loop, under the lock. -/
def afterWait (s : Scheduler) (ret : CvStatus) (top : SchedulerTask) : Option Scheduler :=
  if ret = .timeout ∧ s.eventList ≠ [] then
    if s.isTop top then
      let s := { s with eventList := s.eventList.erase top }
      if top.eventId ∈ s.eventIds then
        some { s with eventIds := s.eventIds.erase top.eventId, thread := .handing top }
      else some { s with thread := .loop }
    else none
  else some { s with thread := .loop }

/-- A step of a caller, of the thread or of the clock. The thread's steps name the task on
top of the queue. -/
inductive Action where
  | addEvent (expiration : Nat)
  | stopEvent (eventId : BitVec 32)
  | beginWait (top : SchedulerTask)
  | wake (ret : CvStatus)
  | afterWait (top : SchedulerTask)
  | addTask
  | tick (time : Nat)
  | stop
  | setTerminated
  | shutdown

/-- The state after a step that can be taken. -/
def step (s : Scheduler) : Action → Option Scheduler
  | .addEvent expiration => some (s.addEvent (createSchedulerTask expiration)).1
  | .stopEvent eventId => some (s.stopEvent eventId).1
  | .beginWait top => if s.thread = .loop then s.beginWait top else none
  | .wake ret => s.wake ret
  | .afterWait top =>
      match s.thread with
      | .woken ret => s.afterWait ret top
      | _ => none
  | .addTask =>
      match s.thread with
      | .handing task =>
          some { s with thread := .loop, seen := s.seen ++ [.handed task s.now] }
      | _ => none
  | .tick time => some { s with now := s.now + time }
  | .stop => some { s with threadState := .closing }
  | .setTerminated => some { s with threadState := .terminated }
  | .shutdown =>
      if s.threadState = .running then none
      else some { s with eventList := [], eventIds := [], seen := s.seen ++ [.cleared] }

/-- All interleavings of callers, thread and clock. -/
def system : Lib.TSys Scheduler Action where
  init s := s = started
  step s a t := s.step a = some t

/-- The tasks taken in so far. -/
def added (s : Scheduler) : List SchedulerTask :=
  s.seen.filterMap fun
    | .added task => some task
    | _ => none

/-- The tasks given to the dispatcher so far. -/
def handed (s : Scheduler) : List SchedulerTask :=
  s.seen.filterMap fun
    | .handed task _ => some task
    | _ => none

/-- No event is added after 2^32 - 1 of them. -/
def Few (s : Scheduler) : Action → Prop
  | .addEvent _ => s.added.length + 1 < 2 ^ 32
  | _ => True

end Scheduler

end Infernum.Scheduling

/-!
## What a step of the scheduler can do

Said once, as an `Effect`, for the invariants to go through case by case.
-/

namespace Infernum.Scheduling

namespace Scheduler

/-- What a step can do. -/
inductive Effect (s : Scheduler) : Scheduler → Prop
  | nothing : Effect s s
  | add (task : SchedulerTask) (hrunning : s.threadState = .running)
      (hid : task.eventId = s.nextEventId) (hfew : s.added.length + 1 < 2 ^ 32) :
      Effect s { s with
        lastEventId := task.eventId
        eventIds := s.eventIds.insert task.eventId
        eventList := s.eventList ++ [task]
        seen := s.seen ++ [.added task] }
  | cancel (eventId : BitVec 32) (hlive : eventId ∈ s.eventIds) :
      Effect s { s with
        eventIds := s.eventIds.erase eventId
        seen := s.seen ++ [.stopped eventId] }
  /-- The thread goes on and takes no task. -/
  | turn (thread : Thread) (hfrom : ∀ task, s.thread ≠ .handing task)
      (hto : ∀ task, thread ≠ .handing task)
      (huntil : ∀ cycle, thread = .waitingUntil cycle → ∃ top ∈ s.eventList, top.getCycle ≤ cycle)
      (htimeout : thread = .woken .timeout → ∃ cycle ≤ s.now, s.thread = .waitingUntil cycle) :
      Effect s { s with thread := thread }
  | pop (top : SchedulerTask) (hthread : s.thread = .woken .timeout) (htop : s.isTop top = true)
      (hlive : top.eventId ∈ s.eventIds) :
      Effect s { s with
        eventList := s.eventList.erase top
        eventIds := s.eventIds.erase top.eventId
        thread := .handing top }
  | drop (top : SchedulerTask) (hthread : s.thread = .woken .timeout)
      (hstopped : top.eventId ∉ s.eventIds) :
      Effect s { s with eventList := s.eventList.erase top, thread := .loop }
  | handOver (task : SchedulerTask) (hthread : s.thread = .handing task) :
      Effect s { s with thread := .loop, seen := s.seen ++ [.handed task s.now] }
  | tick (time : Nat) : Effect s { s with now := s.now + time }
  | leave (threadState : ThreadState) (hleft : threadState ≠ .running) :
      Effect s { s with threadState := threadState }
  | clear (hleft : s.threadState ≠ .running) :
      Effect s { s with eventList := [], eventIds := [], seen := s.seen ++ [.cleared] }

theorem effect_addEvent {s : Scheduler} (expiration : Nat) (hfew : s.added.length + 1 < 2 ^ 32) :
    Effect s (s.addEvent (createSchedulerTask expiration)).1 := by
  rw [addEvent]
  split
  · exact .nothing
  · next hrunning => exact .add ⟨s.nextEventId, expiration⟩ (not_not.mp hrunning) rfl hfew

theorem effect_stopEvent (s : Scheduler) (eventId : BitVec 32) :
    Effect s (s.stopEvent eventId).1 := by
  rw [stopEvent]
  split
  · exact .nothing
  · split
    · next hlive => exact .cancel eventId hlive
    · exact .nothing

theorem effect_beginWait {s t : Scheduler} {top : SchedulerTask} (hthread : s.thread = .loop)
    (h : s.beginWait top = some t) : Effect s t := by
  have hfrom : ∀ task, s.thread ≠ .handing task := fun task => by rw [hthread]; nofun
  rw [beginWait] at h
  split at h
  · obtain rfl := Option.some.inj h
    exact .turn _ hfrom nofun nofun nofun
  · split at h
    · obtain rfl := Option.some.inj h
      exact .turn _ hfrom nofun nofun nofun
    · split at h
      · next htop =>
        obtain rfl := Option.some.inj h
        refine .turn _ hfrom nofun (fun cycle hcycle => ⟨top, ?_, ?_⟩) nofun
        · exact (of_decide_eq_true htop).1
        · exact Nat.le_of_eq (Thread.waitingUntil.inj hcycle)
      · cases h

theorem effect_wake {s t : Scheduler} {ret : CvStatus} (h : s.wake ret = some t) :
    Effect s t := by
  unfold wake at h
  split at h
  · next hthread =>
    obtain rfl := Option.some.inj h
    exact .turn _ (fun task => by rw [hthread]; nofun) nofun nofun nofun
  · next hthread =>
    obtain rfl := Option.some.inj h
    exact .turn _ (fun task => by rw [hthread]; nofun) nofun nofun nofun
  · next cycle hthread =>
    split at h
    · next hdue =>
      obtain rfl := Option.some.inj h
      exact .turn _ (fun task => by rw [hthread]; nofun) nofun nofun fun _ => ⟨cycle, hdue, hthread⟩
    · cases h
  · cases h

theorem effect_afterWait {s t : Scheduler} {ret : CvStatus} {top : SchedulerTask}
    (hthread : s.thread = .woken ret) (h : s.afterWait ret top = some t) : Effect s t := by
  rw [afterWait] at h
  split at h
  · next hret =>
    rw [hret.1] at hthread
    split at h
    · next htop =>
      dsimp only at h
      split at h
      · next hlive =>
        obtain rfl := Option.some.inj h
        exact .pop top hthread htop hlive
      · next hstopped =>
        obtain rfl := Option.some.inj h
        exact .drop top hthread hstopped
    · cases h
  · obtain rfl := Option.some.inj h
    exact .turn _ (fun task => by rw [hthread]; nofun) nofun nofun nofun

theorem effect_of_step {s t : Scheduler} {a : Action} (hfew : s.Few a) (h : s.step a = some t) :
    Effect s t := by
  cases a with
  | addEvent expiration => exact Option.some.inj h ▸ effect_addEvent expiration hfew
  | stopEvent eventId => exact Option.some.inj h ▸ effect_stopEvent s eventId
  | beginWait top =>
      rw [step] at h
      split at h
      · next hthread => exact effect_beginWait hthread h
      · cases h
  | wake ret => exact effect_wake h
  | afterWait top =>
      rw [step] at h
      split at h
      · next ret hthread => exact effect_afterWait hthread h
      · cases h
  | addTask =>
      rw [step] at h
      split at h
      · next task hthread =>
        obtain rfl := Option.some.inj h
        exact .handOver task hthread
      · cases h
  | tick time => exact Option.some.inj h ▸ .tick time
  | stop => exact Option.some.inj h ▸ .leave _ nofun
  | setTerminated => exact Option.some.inj h ▸ .leave _ nofun
  | shutdown =>
      rw [step] at h
      split at h
      · cases h
      · next hleft =>
        obtain rfl := Option.some.inj h
        exact .clear hleft

end Scheduler

end Infernum.Scheduling
