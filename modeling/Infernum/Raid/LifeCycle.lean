import Infernum.Raid.Raids
import Mathlib.Data.List.Perm.Basic

/-!
# The life cycle of a raid

As long as the raids that are started have events, and a reload finds the
running raid in the list and no event of it handed over, the running raid is
the only one that executes, it has an event to come, and no event outlives its
raid.
-/

namespace Infernum.Raiding

open Lib

namespace Raids

/-! ### What is to hold -/

/-- A raid is executing. -/
def Executing (s : Raids) (p : RaidPtr) : Prop :=
  ∃ raid, s.heap p = some raid ∧ raid.state = .executing

/-- The tasks that are still to run. -/
def pending (s : Raids) : List Task := s.scheduler ++ s.dispatcher

/-- A task is an event of a raid. -/
def IsEventOf (p : RaidPtr) (task : Task) : Prop :=
  ∃ raidEvent, task.call = .executeRaidEvent p raidEvent

/-- What is claimed of raids. -/
structure LifeCycle (s : Raids) : Prop where
  atMostOne : ∀ p q, s.Executing p → s.Executing q → p = q
  goesOn : ∀ p, s.running = some p → ∃ task ∈ s.pending, IsEventOf p task
  /-- what the dispatcher will run belongs to the last load -/
  current : ∀ task ∈ s.dispatcher, ∀ p, IsEventOf p task → p.load = s.load

/-- A raid has an event. -/
def HasEvents (s : Raids) (p : RaidPtr) : Prop :=
  ∃ raid, s.heap p = some raid ∧ raid.node.raidEvents ≠ []

/-- Only raids with events are started, and a reload finds the running raid in
the list and none of its events handed over. -/
def Orderly (s : Raids) : Action → Prop
  | .dispatch index draw _ =>
      ∀ task ∈ s.dispatcher[index]?, task.call = .checkRaids → s.running = none →
        ∀ p ∈ s.pick draw, s.HasEvents p
  | .startRaid index => s.running = none → ∀ p ∈ s.raidList[index]?, s.HasEvents p
  | .reload _ =>
      ∀ p ∈ s.running, p ∈ s.raidList ∧ ∀ task ∈ s.dispatcher, ¬IsEventOf p task
  | _ => True

/-! ### The invariant -/

/-- Events belong to the running raid, which knows the id of its only one;
the other raids are idle and begin with their first event. -/
structure Inv (s : Raids) : Prop where
  fresh : ∀ task ∈ s.pending, 0 < task.eventId ∧ task.eventId ≤ s.lastEventId
  distinct : (s.pending.map Task.eventId).Nodup
  event : ∀ task ∈ s.pending, ∀ p, IsEventOf p task →
    s.running = some p ∧
      ∃ raid, s.heap p = some raid ∧ raid.state = .executing ∧ raid.nextEventEvent = task.eventId
  running : ∀ p, s.running = some p → p.load = s.load ∧ ∃ task ∈ s.pending, IsEventOf p task
  executing : ∀ p, s.Executing p → s.running = some p
  idle : ∀ p raid, s.heap p = some raid → raid.state = .idle → raid.nextEvent = 0
  listed : ∀ p ∈ s.raidList, p.load = s.load

theorem Inv.lifeCycle {s : Raids} (h : s.Inv) : s.LifeCycle := by
  refine ⟨?_, fun p hp => (h.running p hp).2, ?_⟩
  · intro p q hp hq
    have hboth := (h.executing p hp).symm.trans (h.executing q hq)
    exact Option.some.inj hboth
  · intro task htask p hevent
    have hrunning := (h.event task (List.mem_append_right _ htask) p hevent).1
    exact (h.running p hrunning).1

/-- Ids, events and raids are untouched. -/
theorem Inv.congr {s t : Raids} (h : s.Inv) (hpending : t.pending.Perm s.pending)
    (hheap : t.heap = s.heap) (hlist : t.raidList ⊆ s.raidList) (hrunning : t.running = s.running)
    (hload : t.load = s.load) (hlast : t.lastEventId = s.lastEventId) : t.Inv where
  fresh task htask := hlast ▸ h.fresh task (hpending.subset htask)
  distinct := ((hpending.map _).nodup_iff).mpr h.distinct
  event task htask p hevent := by
    rw [hrunning, hheap]
    exact h.event task (hpending.subset htask) p hevent
  running p hp := by
    obtain ⟨hcurrent, task, htask, hevent⟩ := h.running p (hrunning ▸ hp)
    exact ⟨hload ▸ hcurrent, task, hpending.symm.subset htask, hevent⟩
  executing p hp := by
    rw [hrunning]
    rw [Executing, hheap] at hp
    exact h.executing p hp
  idle p raid hraid := h.idle p raid (hheap ▸ hraid)
  listed p hp := hload ▸ h.listed p (hlist hp)

theorem pending_addEvent (s : Raids) (delay : Nat) (call : Call) :
    (s.addEvent delay call).pending.Perm
      ({ eventId := s.lastEventId + 1, due := s.now + delay, call := call } :: s.pending) := by
  rw [pending, addEvent, List.append_assoc]
  exact List.perm_middle

theorem fresh_addEvent {s : Raids}
    (h : ∀ task ∈ s.pending, 0 < task.eventId ∧ task.eventId ≤ s.lastEventId) (delay : Nat)
    (call : Call) :
    ∀ task ∈ (s.addEvent delay call).pending,
      0 < task.eventId ∧ task.eventId ≤ (s.addEvent delay call).lastEventId := by
  intro task htask
  rcases List.mem_cons.mp ((pending_addEvent s delay call).subset htask) with rfl | hold
  · exact ⟨Nat.succ_pos _, Nat.le_refl _⟩
  · exact ⟨(h task hold).1, Nat.le_succ_of_le (h task hold).2⟩

theorem distinct_addEvent {s : Raids}
    (h : ∀ task ∈ s.pending, 0 < task.eventId ∧ task.eventId ≤ s.lastEventId)
    (hdistinct : (s.pending.map Task.eventId).Nodup) (delay : Nat) (call : Call) :
    ((s.addEvent delay call).pending.map Task.eventId).Nodup := by
  refine ((pending_addEvent s delay call).map Task.eventId).nodup_iff.mpr
    (List.nodup_cons.mpr ⟨?_, hdistinct⟩)
  intro hmem
  obtain ⟨task, htask, heq⟩ := List.mem_map.mp hmem
  have hle := (h task htask).2
  rw [heq] at hle
  exact absurd hle (Nat.not_succ_le_self _)

/-- A check event is added. -/
theorem Inv.addCheck {s : Raids} (h : s.Inv) (delay : Nat) :
    (s.addEvent delay .checkRaids).Inv := by
  have hperm := pending_addEvent s delay .checkRaids
  refine ⟨fresh_addEvent h.fresh delay _, distinct_addEvent h.fresh h.distinct delay _, ?_, ?_,
    h.executing, h.idle, h.listed⟩
  · intro task htask p hevent
    rcases List.mem_cons.mp (hperm.subset htask) with rfl | hold
    · obtain ⟨raidEvent, hcall⟩ := hevent
      cases hcall
    · exact h.event task hold p hevent
  · intro p hp
    obtain ⟨hcurrent, task, htask, hevent⟩ := h.running p hp
    exact ⟨hcurrent, task, hperm.symm.subset (List.mem_cons_of_mem _ htask), hevent⟩

/-! ### A raid goes on or ends -/

/-- No event is pending, and nothing but a raid of the last load may be
executing. -/
structure Quiet (s : Raids) (p : RaidPtr) : Prop where
  fresh : ∀ task ∈ s.pending, 0 < task.eventId ∧ task.eventId ≤ s.lastEventId
  distinct : (s.pending.map Task.eventId).Nodup
  noEvent : ∀ task ∈ s.pending, ∀ q, ¬IsEventOf q task
  others : ∀ q, q ≠ p → ¬s.Executing q
  idle : ∀ q raid, q ≠ p → s.heap q = some raid → raid.state = .idle → raid.nextEvent = 0
  listed : ∀ q ∈ s.raidList, q.load = s.load
  current : p.load = s.load

/-- No other raid executes, whatever becomes of this one. -/
theorem Quiet.eq_of_executing {s : Raids} {p : RaidPtr} (h : s.Quiet p) {raid : Raid} {q : RaidPtr}
    (hq : (s.setRaid p raid).Executing q) : q = p := by
  by_contra hqp
  obtain ⟨raid', hraid', hexec⟩ := hq
  have hold : s.heap q = some raid' := (Function.update_of_ne hqp _ _).symm.trans hraid'
  exact h.others q hqp ⟨raid', hold, hexec⟩

/-- Raids that are idle begin with their first event, if this one does. -/
theorem Quiet.idle_setRaid {s : Raids} {p : RaidPtr} (h : s.Quiet p) {raid : Raid}
    (hfirst : raid.state = .idle → raid.nextEvent = 0) {q : RaidPtr} {raid' : Raid}
    (hraid' : (s.setRaid p raid).heap q = some raid') (hidle : raid'.state = .idle) :
    raid'.nextEvent = 0 := by
  by_cases hqp : q = p
  · rw [hqp] at hraid'
    have hself : (s.setRaid p raid).heap p = some raid := Function.update_self _ _ _
    cases hself.symm.trans hraid'
    exact hfirst hidle
  · exact h.idle q raid' hqp ((Function.update_of_ne hqp _ _).symm.trans hraid') hidle

/-- The raid's next event is scheduled. -/
theorem Quiet.schedule {s : Raids} {p : RaidPtr} (h : s.Quiet p) (hrunning : s.running = some p)
    {raid : Raid} (hstate : raid.state = .executing) (hid : raid.nextEventEvent = s.newEventId)
    (delay : Nat) (raidEvent : RaidEvent) :
    ((s.addEvent delay (.executeRaidEvent p raidEvent)).setRaid p raid).Inv := by
  have hperm := pending_addEvent s delay (.executeRaidEvent p raidEvent)
  refine ⟨fresh_addEvent h.fresh delay _, distinct_addEvent h.fresh h.distinct delay _,
    ?_, ?_, ?_, ?_, h.listed⟩
  · intro task htask q hevent
    rcases List.mem_cons.mp (hperm.subset htask) with rfl | hold
    · obtain ⟨raidEvent', hcall⟩ := hevent
      cases hcall
      exact ⟨hrunning, raid, Function.update_self _ _ _, hstate, hid⟩
    · exact absurd hevent (h.noEvent task hold q)
  · intro q hq
    cases hrunning.symm.trans hq
    exact ⟨h.current, _, hperm.symm.subset List.mem_cons_self, raidEvent, rfl⟩
  · intro q hq
    rw [h.eq_of_executing hq]
    exact hrunning
  · intro q raid' hraid' hidle
    refine h.idle_setRaid ?_ hraid' hidle
    intro hnot
    rw [hstate] at hnot
    cases hnot

/-- The raid ends. -/
theorem Quiet.reset {s : Raids} {p : RaidPtr} (h : s.Quiet p) (raid : Raid) :
    (s.resetRaid p raid).Inv := by
  refine ⟨h.fresh, h.distinct, ?_, ?_, ?_, ?_, h.listed⟩
  · exact fun task htask q hevent => absurd hevent (h.noEvent task htask q)
  · intro q hq
    cases hq
  · intro q hq
    cases h.eq_of_executing hq
    obtain ⟨raid', hraid', hexec⟩ := hq
    cases (Function.update_self _ _ _).symm.trans hraid'
    cases hexec
  · intro q raid' hraid' hidle
    exact h.idle_setRaid (fun _ => rfl) hraid' hidle

/-- While no raid is running, a listed one may be started. -/
theorem Inv.quiet_of_none {s : Raids} (h : s.Inv) (hnone : s.running = none) {p : RaidPtr}
    (hp : p ∈ s.raidList) : Quiet { s with running := some p } p := by
  have hidle : ∀ q, ¬s.Executing q := by
    intro q hq
    have hrunning := h.executing q hq
    rw [hnone] at hrunning
    cases hrunning
  refine ⟨h.fresh, h.distinct, ?_, fun q _ => hidle q, fun q raid _ => h.idle q raid, h.listed,
    h.listed p hp⟩
  intro task htask q hevent
  have hrunning := (h.event task htask q hevent).1
  rw [hnone] at hrunning
  cases hrunning

/-- A raid that has events is started with the first of them. -/
theorem Inv.startRaid {s : Raids} (h : s.Inv) (hnone : s.running = none) {p : RaidPtr}
    (hp : p ∈ s.raidList) (hevents : s.HasEvents p) :
    (Raids.startRaid { s with running := some p } p).Inv := by
  obtain ⟨raid, hraid, hne⟩ := hevents
  have hstate : raid.state = .idle := by
    cases hs : raid.state with
    | idle => rfl
    | executing =>
        have hrunning := h.executing p ⟨raid, hraid, hs⟩
        rw [hnone] at hrunning
        cases hrunning
  have hfirst : raid.nextEvent = 0 := h.idle p raid hraid hstate
  obtain ⟨raidEvent, hnext⟩ : ∃ raidEvent, raid.getNextRaidEvent = some raidEvent := by
    rw [Raid.getNextRaidEvent, hfirst]
    exact ⟨_, List.getElem?_eq_getElem (List.length_pos_iff.mpr hne)⟩
  have hstart : Raids.startRaid { s with running := some p } p =
      (addEvent { s with running := some p } raidEvent.delay.toNat
        (.executeRaidEvent p raidEvent)).setRaid p
          { raid with state := .executing, nextEventEvent := s.newEventId } := by
    rw [Raids.startRaid]
    simp only [hraid, hnext]
    rfl
  rw [hstart]
  exact (h.quiet_of_none hnone hp).schedule rfl rfl rfl _ _

/-! ### The steps -/

theorem mem_of_pick {s : Raids} {draw : RaidPtr → Nat} {p : RaidPtr} (h : s.pick draw = some p) :
    p ∈ s.raidList :=
  List.mem_of_find?_eq_some h

theorem Inv.checkRaids {s : Raids} (h : s.Inv) {draw : RaidPtr → Nat}
    (hevents : s.running = none → ∀ p, s.pick draw = some p → s.HasEvents p) :
    (s.checkRaids draw).Inv := by
  have hpicked : (s.startPicked draw).Inv := by
    rw [startPicked]
    cases hrunning : s.running with
    | some q => exact h
    | none =>
        cases hpick : s.pick draw with
        | none => exact h
        | some p =>
            have hstart := h.startRaid hrunning (mem_of_pick hpick) (hevents hrunning p hpick)
            show (if _ then _ else _ : Raids).Inv
            split
            · exact hstart.congr (List.Perm.refl _) rfl List.erase_subset rfl rfl rfl
            · exact hstart
  have hadd := hpicked.addCheck (CHECK_RAIDS_INTERVAL * 1000)
  exact hadd.congr (List.Perm.refl _) rfl (List.Subset.refl _) rfl rfl rfl

/-- A task of the dispatcher, and the tasks besides it. -/
theorem pending_perm_dispatcher {s : Raids} {index : Nat} {task : Task}
    (htask : s.dispatcher[index]? = some task) :
    s.pending.Perm (task :: pending { s with dispatcher := s.dispatcher.eraseIdx index }) := by
  obtain ⟨hlt, hget⟩ := List.getElem?_eq_some_iff.mp htask
  have herase := List.getElem_cons_eraseIdx_perm hlt
  rw [hget] at herase
  exact (herase.symm.append_left s.scheduler).trans List.perm_middle

/-- A check is taken from the dispatcher. -/
theorem Inv.dropCheck {s : Raids} (h : s.Inv) {index : Nat} {task : Task}
    (htask : s.dispatcher[index]? = some task) (hcall : task.call = .checkRaids) :
    Inv { s with dispatcher := s.dispatcher.eraseIdx index } := by
  have hperm := pending_perm_dispatcher htask
  have hrest : pending { s with dispatcher := s.dispatcher.eraseIdx index } ⊆ s.pending :=
    fun other hother => hperm.symm.subset (List.mem_cons_of_mem _ hother)
  refine ⟨fun other hother => h.fresh other (hrest hother),
    (List.nodup_cons.mp ((hperm.map Task.eventId).nodup_iff.mp h.distinct)).2,
    fun other hother => h.event other (hrest hother), ?_, h.executing, h.idle, h.listed⟩
  intro p hp
  obtain ⟨hcurrent, other, hother, raidEvent, hevent⟩ := h.running p hp
  refine ⟨hcurrent, other, ?_, raidEvent, hevent⟩
  rcases List.mem_cons.mp (hperm.subset hother) with rfl | hmem
  · cases hcall.symm.trans hevent
  · exact hmem

/-- When an event is taken from the dispatcher, no other one is pending. -/
theorem Inv.quiet_of_event {s : Raids} (h : s.Inv) {index : Nat} {task : Task}
    (htask : s.dispatcher[index]? = some task) {p : RaidPtr} (hevent : IsEventOf p task) :
    Quiet { s with dispatcher := s.dispatcher.eraseIdx index } p := by
  have hperm := pending_perm_dispatcher htask
  have hmem : task ∈ s.pending := hperm.symm.subset List.mem_cons_self
  have hrest : pending { s with dispatcher := s.dispatcher.eraseIdx index } ⊆ s.pending :=
    fun other hother => hperm.symm.subset (List.mem_cons_of_mem _ hother)
  have hdistinct := List.nodup_cons.mp ((hperm.map Task.eventId).nodup_iff.mp h.distinct)
  obtain ⟨hrunning, raid, hraid, hstate, hid⟩ := h.event task hmem p hevent
  refine ⟨fun other hother => h.fresh other (hrest hother), hdistinct.2, ?_, ?_,
    fun q raid _ => h.idle q raid, h.listed, (h.running p hrunning).1⟩
  · -- Two events would be of the same raid and have the same id.
    intro other hother q hevent'
    obtain ⟨hrunning', raid', hraid', -, hid'⟩ := h.event other (hrest hother) q hevent'
    cases hrunning.symm.trans hrunning'
    cases hraid.symm.trans hraid'
    exact hdistinct.1 (List.mem_map.mpr ⟨other, hother, hid'.symm.trans hid⟩)
  · intro q hq hexec
    have hother := h.executing q hexec
    exact hq (Option.some.inj (hother.symm.trans hrunning))

theorem Inv.executeRaidEvent {s t : Raids} (h : s.Inv) {index : Nat} {task : Task}
    (htask : s.dispatcher[index]? = some task) {p : RaidPtr} {raidEvent : RaidEvent}
    (hcall : task.call = .executeRaidEvent p raidEvent) {ok : Bool}
    (ht : Raids.executeRaidEvent { s with dispatcher := s.dispatcher.eraseIdx index } p raidEvent
      ok = some t) : t.Inv := by
  have hevent : IsEventOf p task := ⟨raidEvent, hcall⟩
  have hquiet := h.quiet_of_event htask hevent
  obtain ⟨hrunning, raid, hraid, hstate, -⟩ :=
    h.event task (List.mem_append_right _ (List.mem_of_getElem? htask)) p hevent
  rw [Raids.executeRaidEvent] at ht
  simp only [hraid] at ht
  cases ok with
  | false =>
      cases ht
      exact hquiet.reset raid
  | true =>
      rw [if_pos rfl] at ht
      split at ht
      · cases ht
        refine hquiet.schedule hrunning ?_ ?_ _ _
        · exact hstate
        · rfl
      · cases ht
        exact hquiet.reset _

/-- What stays the same when tasks are stopped and raids deleted. -/
structure Fewer (s t : Raids) : Prop where
  scheduler : t.scheduler.Sublist s.scheduler
  dispatcher : t.dispatcher = s.dispatcher
  lastEventId : t.lastEventId = s.lastEventId
  load : t.load = s.load
  heap : ∀ p raid, t.heap p = some raid → s.heap p = some raid

theorem Fewer.refl (s : Raids) : Fewer s s :=
  ⟨List.Sublist.refl _, rfl, rfl, rfl, fun _ _ h => h⟩

theorem Fewer.trans {s t u : Raids} (h : Fewer s t) (h' : Fewer t u) : Fewer s u :=
  ⟨h'.scheduler.trans h.scheduler, h'.dispatcher.trans h.dispatcher,
    h'.lastEventId.trans h.lastEventId, h'.load.trans h.load,
    fun p raid hraid => h.heap p raid (h'.heap p raid hraid)⟩

theorem fewer_stopEvent (s : Raids) (eventId : Nat) : Fewer s (s.stopEvent eventId) := by
  by_cases hzero : eventId = 0
  · rw [stopEvent, if_pos hzero]
    exact Fewer.refl s
  · rw [stopEvent, if_neg hzero]
    exact ⟨List.filter_sublist, rfl, rfl, rfl, fun _ _ h => h⟩

theorem not_mem_stopEvent (s : Raids) {eventId : Nat} (hpos : 0 < eventId) {task : Task}
    (htask : task ∈ (s.stopEvent eventId).scheduler) : task.eventId ≠ eventId := by
  rw [stopEvent, if_neg (by omega)] at htask
  exact of_decide_eq_true (List.mem_filter.mp htask).2

theorem fewer_stopAndDelete (s : Raids) (p : RaidPtr) : Fewer s (s.stopAndDelete p) := by
  rw [stopAndDelete]
  split
  · exact Fewer.refl s
  · rename_i raid hraid
    have hstop := fewer_stopEvent s raid.nextEventEvent
    refine ⟨hstop.scheduler, hstop.dispatcher, hstop.lastEventId, hstop.load, ?_⟩
    intro q raid' hraid'
    by_cases hqp : q = p
    · have hself : Function.update s.heap p none p = none := Function.update_self _ _ _
      rw [hqp] at hraid'
      cases hself.symm.trans hraid'
    · exact (Function.update_of_ne hqp _ _).symm.trans hraid'

/-- After its deletion a raid is gone, and so is the event whose id it held. -/
theorem stopAndDelete_gone (s : Raids) (p : RaidPtr) :
    (s.stopAndDelete p).heap p = none ∧
      ∀ raid, s.heap p = some raid → 0 < raid.nextEventEvent →
        ∀ task ∈ (s.stopAndDelete p).scheduler, task.eventId ≠ raid.nextEventEvent := by
  rw [stopAndDelete]
  split
  · rename_i hnone
    refine ⟨hnone, fun raid hraid => ?_⟩
    rw [hnone] at hraid
    cases hraid
  · rename_i raid hraid
    refine ⟨Function.update_self _ _ _, ?_⟩
    intro raid' hraid' hpos task htask
    cases hraid.symm.trans hraid'
    exact not_mem_stopEvent s hpos htask

theorem stopAndDelete_heap_ne (s : Raids) {p q : RaidPtr} (hpq : p ≠ q) :
    (s.stopAndDelete q).heap p = s.heap p := by
  rw [stopAndDelete]
  split
  · rfl
  · exact Function.update_of_ne hpq _ _

theorem fewer_foldl (ps : List RaidPtr) (s : Raids) : Fewer s (ps.foldl stopAndDelete s) := by
  induction ps generalizing s with
  | nil => exact Fewer.refl s
  | cons p ps ih => exact (fewer_stopAndDelete s p).trans (ih (s.stopAndDelete p))

theorem foldl_gone (ps : List RaidPtr) (s : Raids) {p : RaidPtr} (hp : p ∈ ps) :
    (ps.foldl stopAndDelete s).heap p = none ∧
      ∀ raid, s.heap p = some raid → 0 < raid.nextEventEvent →
        ∀ task ∈ (ps.foldl stopAndDelete s).scheduler, task.eventId ≠ raid.nextEventEvent := by
  induction ps generalizing s with
  | nil => cases hp
  | cons q ps ih =>
      have hfewer := fewer_foldl ps (s.stopAndDelete q)
      rw [List.foldl_cons]
      by_cases hqp : p = q
      · subst hqp
        obtain ⟨hgone, hevent⟩ := stopAndDelete_gone s p
        refine ⟨?_, fun raid hraid hpos task htask =>
          hevent raid hraid hpos task (hfewer.scheduler.subset htask)⟩
        cases hheap : (ps.foldl stopAndDelete (s.stopAndDelete p)).heap p with
        | none => rfl
        | some raid => cases hgone.symm.trans (hfewer.heap p raid hheap)
      · obtain ⟨hgone, hevent⟩ := ih (s.stopAndDelete q) ((List.mem_cons.mp hp).resolve_left hqp)
        refine ⟨hgone, fun raid hraid => hevent raid ?_⟩
        rw [stopAndDelete_heap_ne s hqp]
        exact hraid

/-- The raids are cleared while the running one can be stopped. -/
theorem Inv.clear {s : Raids} (h : s.Inv) {xml : Option (List RaidNode)}
    (horderly : s.Orderly (.reload xml)) : s.clear.Inv := by
  have hstop := fewer_stopEvent s s.checkRaidsEvent
  have hfewer := hstop.trans (fewer_foldl s.raidList (s.stopEvent s.checkRaidsEvent))
  have hpending : s.clear.pending.Sublist s.pending := by
    rw [pending, pending]
    exact hfewer.scheduler.append (hfewer.dispatcher ▸ List.Sublist.refl _)
  have hheap : ∀ p raid, s.clear.heap p = some raid → s.heap p = some raid := hfewer.heap
  -- The event of the running raid is stopped with it.
  have hnoEvent : ∀ task ∈ s.clear.pending, ∀ p, ¬IsEventOf p task := by
    intro task htask p hevent
    have hmem := hpending.subset htask
    obtain ⟨hrunning, raid, hraid, -, hid⟩ := h.event task hmem p hevent
    obtain ⟨hlisted, hnone⟩ := horderly p hrunning
    have hpos : 0 < raid.nextEventEvent := hid ▸ (h.fresh task hmem).1
    have hstopped : ∃ raid, (s.stopEvent s.checkRaidsEvent).heap p = some raid ∧
        raid.nextEventEvent = task.eventId := by
      rw [stopEvent]
      split
      · exact ⟨raid, hraid, hid⟩
      · exact ⟨raid, hraid, hid⟩
    obtain ⟨raid', hraid', hid'⟩ := hstopped
    have hgone := (foldl_gone s.raidList (s.stopEvent s.checkRaidsEvent) hlisted).2 raid' hraid'
      (by rw [hid', ← hid]; exact hpos)
    rcases List.mem_append.mp htask with hwaiting | hhanded
    · exact hgone task hwaiting hid'.symm
    · have hdispatcher : s.clear.dispatcher = s.dispatcher := hfewer.dispatcher
      rw [hdispatcher] at hhanded
      exact hnone task hhanded hevent
  have hidle : ∀ p, ¬s.clear.Executing p := by
    rintro p ⟨raid, hraid, hexec⟩
    have hrunning := h.executing p ⟨raid, hheap p raid hraid, hexec⟩
    have hgone : s.clear.heap p = none :=
      (foldl_gone s.raidList (s.stopEvent s.checkRaidsEvent) (horderly p hrunning).1).1
    rw [hgone] at hraid
    cases hraid
  have hlast : s.clear.lastEventId = s.lastEventId := hfewer.lastEventId
  refine ⟨?_, ?_, ?_, ?_, ?_, ?_, ?_⟩
  · intro task htask
    rw [hlast]
    exact h.fresh task (hpending.subset htask)
  · exact (hpending.map Task.eventId).nodup h.distinct
  · exact fun task htask p hevent => absurd hevent (hnoEvent task htask p)
  · intro p hp
    cases hp
  · exact fun p hp => absurd hp (hidle p)
  · exact fun p raid hraid => h.idle p raid (hheap p raid hraid)
  · intro p hp
    cases hp

/-- Raids are loaded while none is running. -/
theorem Inv.loadFromXml {s : Raids} (h : s.Inv) (hnone : s.running = none)
    (xml : Option (List RaidNode)) : (s.loadFromXml xml).Inv := by
  have hquiet : ∀ p, ¬s.Executing p := by
    intro p hp
    have hrunning := h.executing p hp
    rw [hnone] at hrunning
    cases hrunning
  unfold Raids.loadFromXml
  split
  · exact h
  · cases xml with
    | none => exact h
    | some nodes =>
        have hloaded : ∀ (p : RaidPtr) (raid : Raid),
            (if p.load = s.load then nodes[p.index]?.map Raid.new else s.heap p) = some raid →
              raid.state = .idle ∧ raid.nextEvent = 0 ∨ s.heap p = some raid := by
          intro p raid hraid
          by_cases hload : p.load = s.load
          · rw [if_pos hload] at hraid
            obtain ⟨node, -, rfl⟩ := Option.map_eq_some_iff.mp hraid
            exact .inl ⟨rfl, rfl⟩
          · rw [if_neg hload] at hraid
            exact .inr hraid
        refine ⟨h.fresh, h.distinct, ?_, ?_, ?_, ?_, ?_⟩
        · intro task htask p hevent
          have hrunning := (h.event task htask p hevent).1
          rw [hnone] at hrunning
          cases hrunning
        · intro p hp
          cases hnone.symm.trans hp
        · rintro p ⟨raid, hraid, hexec⟩
          rcases hloaded p raid hraid with ⟨hidle, -⟩ | hold
          · cases hidle.symm.trans hexec
          · exact absurd ⟨raid, hold, hexec⟩ (hquiet p)
        · intro p raid hraid hidle
          rcases hloaded p raid hraid with ⟨-, hfirst⟩ | hold
          · exact hfirst
          · exact h.idle p raid hold hidle
        · intro p hp
          rcases List.mem_append.mp hp with hold | hnew
          · exact h.listed p hold
          · obtain ⟨index, -, rfl⟩ := List.mem_map.mp hnew
            rfl

theorem Inv.startup {s : Raids} (h : s.Inv) : s.startup.Inv := by
  rw [Raids.startup]
  split
  · exact h
  · have hend : Inv { s with lastRaidEnd := s.now } :=
      h.congr (List.Perm.refl _) rfl (List.Subset.refl _) rfl rfl rfl
    exact (hend.addCheck (CHECK_RAIDS_INTERVAL * 1000)).congr (List.Perm.refl _) rfl
      (List.Subset.refl _) rfl rfl rfl

theorem Inv.step {s t : Raids} (h : s.Inv) {a : Action} (horderly : s.Orderly a)
    (hstep : s.step a = some t) : t.Inv := by
  cases a with
  | elapse ms =>
      cases hstep
      exact h.congr (List.Perm.refl _) rfl (List.Subset.refl _) rfl rfl rfl
  | handOver index =>
      rw [Raids.step] at hstep
      split at hstep
      · rename_i task htask
        split at hstep
        · cases hstep
          obtain ⟨hlt, hget⟩ := List.getElem?_eq_some_iff.mp htask
          have herase := List.getElem_cons_eraseIdx_perm hlt
          rw [hget] at herase
          refine h.congr ?_ rfl (List.Subset.refl _) rfl rfl rfl
          have hmoved : (s.scheduler.eraseIdx index ++ (s.dispatcher ++ [task])).Perm
              (task :: (s.scheduler.eraseIdx index ++ s.dispatcher)) := by
            rw [← List.append_assoc]
            exact List.perm_append_singleton task _
          exact hmoved.trans (herase.append_right s.dispatcher)
        · cases hstep
      · cases hstep
  | dispatch index draw ok =>
      rw [Raids.step] at hstep
      split at hstep
      · rename_i task htask
        cases hcall : task.call with
        | executeRaidEvent p raidEvent =>
            simp only [hcall] at hstep
            exact h.executeRaidEvent htask hcall hstep
        | checkRaids =>
            simp only [hcall] at hstep
            cases hstep
            exact (h.dropCheck htask hcall).checkRaids fun hnone p hpick =>
              horderly task htask hcall hnone p hpick
      · cases hstep
  | startRaid index =>
      rw [Raids.step] at hstep
      obtain ⟨p, hp, rfl⟩ := Option.map_eq_some_iff.mp hstep
      rw [luaGameStartRaid]
      cases hrunning : s.running with
      | some q => exact h
      | none => exact h.startRaid hrunning (List.mem_of_getElem? hp) (horderly hrunning p hp)
  | reload xml =>
      cases hstep
      exact ((h.clear horderly).loadFromXml rfl xml).startup

theorem inv_initial (now : Nat) : (initial now).Inv where
  fresh _ h := absurd h List.not_mem_nil
  distinct := List.nodup_nil
  event _ h := absurd h List.not_mem_nil
  running _ h := by cases h
  executing p hp := by
    obtain ⟨raid, hraid, -⟩ := hp
    cases hraid
  idle _ _ h := by cases h
  listed _ h := absurd h List.not_mem_nil

theorem inv_inductive : system.Inductive Orderly Inv where
  init s hs := by
    obtain ⟨now, xml, rfl⟩ := hs
    exact ((inv_initial now).loadFromXml rfl xml).startup
  step _ _ _ h horderly hstep := h.step horderly hstep

instance (s : Raids) (p : RaidPtr) : Decidable (s.HasEvents p) :=
  match hraid : s.heap p with
  | none => .isFalse (by rintro ⟨raid, hsome, -⟩; cases hraid.symm.trans hsome)
  | some raid =>
      decidable_of_iff (raid.node.raidEvents ≠ [])
        ⟨fun hne => ⟨raid, hraid, hne⟩, by
          rintro ⟨raid', hsome, hne⟩
          cases hraid.symm.trans hsome
          exact hne⟩

instance (p : RaidPtr) (task : Task) : Decidable (IsEventOf p task) :=
  match hcall : task.call with
  | .checkRaids => .isFalse (by rintro ⟨raidEvent, h⟩; cases hcall.symm.trans h)
  | .executeRaidEvent q raidEvent =>
      decidable_of_iff (q = p)
        ⟨fun h => ⟨raidEvent, h ▸ hcall⟩, by
          rintro ⟨raidEvent', h⟩
          cases hcall.symm.trans h
          rfl⟩

instance (s : Raids) (a : Action) : Decidable (s.Orderly a) :=
  match a with
  | .dispatch index draw _ =>
      inferInstanceAs (Decidable (∀ task ∈ s.dispatcher[index]?, task.call = .checkRaids →
        s.running = none → ∀ p ∈ s.pick draw, s.HasEvents p))
  | .startRaid index =>
      inferInstanceAs (Decidable (s.running = none → ∀ p ∈ s.raidList[index]?, s.HasEvents p))
  | .reload _ =>
      inferInstanceAs (Decidable (∀ p ∈ s.running, p ∈ s.raidList ∧
        ∀ task ∈ s.dispatcher, ¬IsEventOf p task))
  | .elapse _ | .handOver _ => .isTrue trivial

/-- In every orderly run raids keep to their life cycle. -/
theorem raid_life_cycle {s : Raids} (h : system.Reach Orderly s) : s.LifeCycle :=
  (inv_inductive.invariant h).lifeCycle

/-! ### Sample raids -/

/-- A raid that every check takes. -/
def frequent (canBeRepeated : Bool) (delays : List UInt32) (h : delays.Pairwise (· ≤ ·)) :
    RaidNode :=
  { interval := 60, interval_pos := by decide, margin := 0
    canBeRepeated := canBeRepeated
    raidEvents := delays.map RaidEvent.mk
    sorted := List.pairwise_map.mpr h }

/-- The server has just started, with this raid alone. -/
def withRaid (node : RaidNode) : Raids := ((initial 0).loadFromXml (some [node])).startup

theorem reach_withRaid (node : RaidNode) (guard : Raids → Action → Prop) :
    system.Reach guard (withRaid node) :=
  .start ⟨0, some [node], rfl⟩

/-- The first check, a minute after the start, takes the raid. -/
def firstCheck : List Action := [.elapse 60000, .handOver 0, .dispatch 0 (fun _ => 0) true]

def twoEvents : RaidNode := frequent true [1000, 3000] (by decide)

def oneShot : RaidNode := frequent false [100000] (by decide)

def noEvents : RaidNode := frequent true [] (by decide)

/-- A repeatable raid runs its first event, and is then reloaded away. -/
theorem two_events_reloaded :
    ∃ s, TSys.runGuarded step Orderly (withRaid twoEvents)
      (firstCheck ++ [.elapse 1000, .handOver 0, .dispatch 0 (fun _ => 0) true,
        .reload (some [oneShot]), .elapse 60000, .handOver 0, .dispatch 0 (fun _ => 0) true]) =
        some s ∧ s.running = some ⟨1, 0⟩ ∧ s.LifeCycle := by
  have hrun : (TSys.runGuarded step Orderly (withRaid twoEvents)
      (firstCheck ++ [.elapse 1000, .handOver 0, .dispatch 0 (fun _ => 0) true,
        .reload (some [oneShot]), .elapse 60000, .handOver 0,
        .dispatch 0 (fun _ => 0) true])).map Raids.running = some (some ⟨1, 0⟩) := by
    decide
  obtain ⟨s, hs, hrunning⟩ := Option.map_eq_some_iff.mp hrun
  refine ⟨s, hs, hrunning, raid_life_cycle ?_⟩
  exact (reach_withRaid twoEvents Orderly).runGuarded (fun _ _ _ h => h) hs

/-- A raid that is not repeated leaves the list when it starts, so that the
reload does not stop it: its event comes while a raid of the new list runs. -/
def oneShotRun : List Action :=
  firstCheck ++ [.reload (some [oneShot]), .elapse 60000, .handOver 1,
    .dispatch 0 (fun _ => 0) true, .elapse 40000, .handOver 0]

theorem event_outlives_reload : ¬ ∀ s, system.Reachable s → s.LifeCycle := by
  intro h
  have hrun : (TSys.runGuarded step (fun _ _ => True) (withRaid oneShot) oneShotRun).map
      (fun s => (s.load, s.dispatcher.map Task.call)) =
        some (1, [.executeRaidEvent ⟨0, 0⟩ ⟨100000⟩]) := by
    decide
  obtain ⟨s, hs, hpair⟩ := Option.map_eq_some_iff.mp hrun
  obtain ⟨hload, hcalls⟩ := Prod.mk.inj hpair
  have hreach := (reach_withRaid oneShot _).runGuarded (fun _ _ _ h => h) hs
  have hmem : Call.executeRaidEvent ⟨0, 0⟩ ⟨100000⟩ ∈ s.dispatcher.map Task.call := by
    rw [hcalls]
    exact List.mem_singleton_self _
  obtain ⟨task, htask, hcall⟩ := List.mem_map.mp hmem
  have hcurrent := (h s hreach).current task htask ⟨0, 0⟩ ⟨_, hcall⟩
  simp [hload] at hcurrent

/-- A raid without events is taken, and has nothing that could end it. -/
theorem empty_raid_runs :
    ∃ s, system.Reachable s ∧ s.running = some ⟨0, 0⟩ ∧
      s.pending.map Task.call = [.checkRaids] := by
  have hrun : (TSys.runGuarded step (fun _ _ => True) (withRaid noEvents) firstCheck).map
      (fun s => (s.running, s.pending.map Task.call)) =
        some (some ⟨0, 0⟩, [.checkRaids]) := by
    decide
  obtain ⟨s, hs, hpair⟩ := Option.map_eq_some_iff.mp hrun
  obtain ⟨hrunning, hcalls⟩ := Prod.mk.inj hpair
  exact ⟨s, (reach_withRaid noEvents _).runGuarded (fun _ _ _ h => h) hs, hrunning, hcalls⟩

end Raids

end Infernum.Raiding
