import Infernum.Scheduler.Scheduler
import Mathlib.Data.List.Induction

/-!
# The contract of the scheduler

Ids are given in order, so that they tell the events apart; an event that is popped was
waited for, or was added since and is earlier; and an event leaves the list together with
its id, unless `stopEvent` took the id before.
-/

namespace Infernum.Scheduling

open Lib

namespace Scheduler

/-- What callers are promised, on what they have seen. -/
structure Contract (s : Scheduler) : Prop where
  handedOnce : s.handed.Nodup
  handedAdded : ∀ task ∈ s.handed, task ∈ s.added
  onTime : ∀ task time, .handed task time ∈ s.seen → task.getCycle ≤ time
  /-- Nothing is handed over after `stopEvent` returned true for it. -/
  stopped : ∀ before after eventId, s.seen = before ++ .stopped eventId :: after →
    ∀ task time, .handed task time ∈ after → task.eventId ≠ eventId
  idsDistinct : (s.added.map SchedulerTask.eventId).Nodup
  idsNonzero : ∀ task ∈ s.added, task.eventId ≠ 0
  /-- Nothing is dropped short of `shutdown`. -/
  kept : .cleared ∉ s.seen → ∀ task ∈ s.added, task ∈ s.eventList ∨ s.thread = .handing task ∨
    task ∈ s.handed ∨ .stopped task.eventId ∈ s.seen

/-! ## Ids -/

/-- The ids given are the numbers from 1 to `lastEventId`, in order. -/
structure Ids (s : Scheduler) : Prop where
  count : s.added.length = s.lastEventId.toNat
  bound : ∀ task ∈ s.added, 0 < task.eventId.toNat ∧ task.eventId.toNat ≤ s.lastEventId.toNat
  distinct : (s.added.map SchedulerTask.eventId).Nodup

theorem added_append (s : Scheduler) (x : Seen) :
    added { s with seen := s.seen ++ [x] } =
      s.added ++ (match x with | .added task => [task] | _ => []) := by
  cases x <;> simp [added]

theorem handed_append (s : Scheduler) (x : Seen) :
    handed { s with seen := s.seen ++ [x] } =
      s.handed ++ (match x with | .handed task _ => [task] | _ => []) := by
  cases x <;> simp [handed]

theorem toNat_nextEventId {s : Scheduler} (h : s.lastEventId.toNat + 1 < 2 ^ 32) :
    s.nextEventId.toNat = s.lastEventId.toNat + 1 := by
  have hsum : (s.lastEventId + 1).toNat = s.lastEventId.toNat + 1 := by
    rw [BitVec.toNat_add]
    exact Nat.mod_eq_of_lt h
  have hne : s.lastEventId + 1 ≠ 0 := by
    intro hzero
    rw [hzero] at hsum
    exact absurd hsum (Nat.succ_ne_zero _).symm
  rw [nextEventId, if_neg hne, hsum]

/-- The id given next is the next number. -/
theorem Ids.next {s : Scheduler} (h : s.Ids) (hfew : s.added.length + 1 < 2 ^ 32) :
    s.nextEventId.toNat = s.lastEventId.toNat + 1 :=
  toNat_nextEventId (h.count ▸ hfew)

theorem Ids.fresh {s : Scheduler} (h : s.Ids) (hfew : s.added.length + 1 < 2 ^ 32)
    {task : SchedulerTask} (hid : task.eventId = s.nextEventId) {other : SchedulerTask}
    (hother : other ∈ s.added) : other.eventId ≠ task.eventId := by
  intro heq
  have hbound := (h.bound other hother).2
  have hnext := h.next hfew
  rw [heq, hid] at hbound
  omega

theorem Ids.fresh_task {s : Scheduler} (h : s.Ids) (hfew : s.added.length + 1 < 2 ^ 32)
    {task : SchedulerTask} (hid : task.eventId = s.nextEventId) : task ∉ s.added :=
  fun hmem => h.fresh hfew hid hmem rfl

/-- An event is told by its id. -/
theorem Ids.eq {s : Scheduler} (h : s.Ids) {task other : SchedulerTask} (htask : task ∈ s.added)
    (hother : other ∈ s.added) (hid : task.eventId = other.eventId) : task = other :=
  List.inj_on_of_nodup_map h.distinct htask hother hid

theorem Ids.congr {s t : Scheduler} (h : s.Ids) (hadded : t.added = s.added)
    (hlast : t.lastEventId = s.lastEventId) : t.Ids := by
  refine ⟨?_, ?_, ?_⟩
  · rw [hadded, hlast, h.count]
  · rw [hadded, hlast]
    exact h.bound
  · rw [hadded]
    exact h.distinct

theorem Ids.effect {s t : Scheduler} (h : s.Ids) (heffect : Effect s t) : t.Ids := by
  cases heffect with
  | nothing => exact h
  | add task _ hid hfew =>
      have hnext : task.eventId.toNat = s.lastEventId.toNat + 1 := hid ▸ h.next hfew
      have hadded : s.added ++ [task] = added { s with
          lastEventId := task.eventId
          eventIds := s.eventIds.insert task.eventId
          eventList := s.eventList ++ [task]
          seen := s.seen ++ [.added task] } := (added_append s (.added task)).symm
      refine ⟨?_, ?_, ?_⟩
      · rw [← hadded, List.length_append, List.length_singleton, h.count]
        exact hnext.symm
      · rw [← hadded]
        intro other hother
        show 0 < other.eventId.toNat ∧ other.eventId.toNat ≤ task.eventId.toNat
        rcases List.mem_append.mp hother with hold | hnew
        · have hbound := h.bound other hold
          omega
        · obtain rfl := List.mem_singleton.mp hnew
          omega
      · rw [← hadded, List.map_append, List.map_singleton]
        refine List.nodup_append.mpr ⟨h.distinct, List.nodup_singleton _, ?_⟩
        intro id hold id' hnew
        obtain ⟨other, hother, rfl⟩ := List.mem_map.mp hold
        obtain rfl := List.mem_singleton.mp hnew
        exact h.fresh hfew hid hother
  | cancel eventId _ => exact h.congr ((added_append s _).trans (List.append_nil _)) rfl
  | turn _ _ _ _ _ => exact h.congr rfl rfl
  | pop _ _ _ _ => exact h.congr rfl rfl
  | drop _ _ _ => exact h.congr rfl rfl
  | handOver task _ => exact h.congr ((added_append s _).trans (List.append_nil _)) rfl
  | tick _ => exact h.congr rfl rfl
  | leave _ _ => exact h.congr rfl rfl
  | clear _ => exact h.congr ((added_append s _).trans (List.append_nil _)) rfl

/-! ## The queue -/

/-- The ids that are live belong to tasks that are waiting. -/
structure Queue (s : Scheduler) : Prop where
  added : ∀ task ∈ s.eventList, task ∈ s.added
  nodup : s.eventList.Nodup
  live : ∀ eventId ∈ s.eventIds, ∃ task ∈ s.eventList, task.eventId = eventId
  liveNodup : s.eventIds.Nodup

theorem Queue.effect {s t : Scheduler} (h : s.Queue) (hids : s.Ids) (heffect : Effect s t) :
    t.Queue := by
  cases heffect with
  | nothing => exact h
  | add task _ hid hfew =>
      have hfresh : task ∉ s.eventList := fun hmem =>
        hids.fresh_task hfew hid (h.added task hmem)
      refine ⟨fun other hother => ?_, ?_, fun eventId hlive => ?_, h.liveNodup.insert⟩
      · refine (added_append s (.added task)).symm ▸ ?_
        rcases List.mem_append.mp hother with hold | hnew
        · exact List.mem_append_left _ (h.added other hold)
        · exact List.mem_append_right _ hnew
      · refine List.nodup_append.mpr ⟨h.nodup, List.nodup_singleton _, ?_⟩
        intro other hold _ hnew
        obtain rfl := List.mem_singleton.mp hnew
        exact fun heq => hfresh (heq ▸ hold)
      · rcases List.mem_insert_iff.mp hlive with heq | hold
        · exact ⟨task, List.mem_append_right _ (List.mem_singleton_self task), heq.symm⟩
        · obtain ⟨other, hother, hsame⟩ := h.live eventId hold
          exact ⟨other, List.mem_append_left _ hother, hsame⟩
  | cancel eventId _ =>
      refine ⟨fun task htask => ?_, h.nodup, fun other hother => ?_, h.liveNodup.erase _⟩
      · refine (added_append s (.stopped eventId)).symm ▸ ?_
        exact List.mem_append_left _ (h.added task htask)
      · exact h.live other (List.mem_of_mem_erase hother)
  | turn _ _ _ _ _ => exact ⟨h.added, h.nodup, h.live, h.liveNodup⟩
  | pop top _ htop _ =>
      refine ⟨fun task htask => h.added task (List.mem_of_mem_erase htask), h.nodup.erase _,
        fun eventId hlive => ?_, h.liveNodup.erase _⟩
      obtain ⟨hne, hold⟩ := (h.liveNodup.mem_erase_iff).mp hlive
      obtain ⟨task, htask, hsame⟩ := h.live eventId hold
      refine ⟨task, (h.nodup.mem_erase_iff).mpr ⟨?_, htask⟩, hsame⟩
      exact fun heq => hne (heq ▸ hsame.symm)
  | drop top _ hstopped =>
      refine ⟨fun task htask => h.added task (List.mem_of_mem_erase htask), h.nodup.erase _,
        fun eventId hlive => ?_, h.liveNodup⟩
      obtain ⟨task, htask, hsame⟩ := h.live eventId hlive
      refine ⟨task, (h.nodup.mem_erase_iff).mpr ⟨?_, htask⟩, hsame⟩
      rintro rfl
      exact hstopped (hsame ▸ hlive)
  | handOver task _ =>
      refine ⟨fun other hother => ?_, h.nodup, h.live, h.liveNodup⟩
      refine (added_append s (.handed task s.now)).symm ▸ ?_
      exact List.mem_append_left _ (h.added other hother)
  | tick _ => exact ⟨h.added, h.nodup, h.live, h.liveNodup⟩
  | leave _ _ => exact ⟨h.added, h.nodup, h.live, h.liveNodup⟩
  | clear _ =>
      exact ⟨fun _ hmem => absurd hmem List.not_mem_nil, List.nodup_nil,
        fun _ hmem => absurd hmem List.not_mem_nil, List.nodup_nil⟩

/-! ## What was handed over -/

/-- A task that is being handed over, or was, is no longer in the list. -/
structure Given (s : Scheduler) : Prop where
  added : ∀ task ∈ s.handed, task ∈ s.added
  once : s.handed.Nodup
  gone : ∀ task ∈ s.handed, task ∉ s.eventList
  handing : ∀ task, s.thread = .handing task →
    task ∈ s.added ∧ task ∉ s.eventList ∧ task ∉ s.handed

theorem Given.effect {s t : Scheduler} (h : s.Given) (hids : s.Ids) (hqueue : s.Queue)
    (heffect : Effect s t) : t.Given := by
  cases heffect with
  | nothing => exact h
  | add task _ hid hfew =>
      have hnew : task ∉ s.added := hids.fresh_task hfew hid
      have hadded := added_append s (.added task)
      have hhanded := (handed_append s (.added task)).trans (List.append_nil _)
      have hout : ∀ other ∈ s.added, other ∉ s.eventList → other ∉ s.eventList ++ [task] := by
        intro other hother hgone hmem
        rcases List.mem_append.mp hmem with hold | htask
        · exact hgone hold
        · exact hnew (List.mem_singleton.mp htask ▸ hother)
      refine ⟨fun other hother => ?_, hhanded.symm ▸ h.once, fun other hother => ?_,
        fun other hthread => ?_⟩
      · exact hadded.symm ▸ List.mem_append_left _ (h.added other (hhanded ▸ hother))
      · exact hout other (h.added other (hhanded ▸ hother)) (h.gone other (hhanded ▸ hother))
      · obtain ⟨hother, hgone, honce⟩ := h.handing other hthread
        exact ⟨hadded.symm ▸ List.mem_append_left _ hother, hout other hother hgone,
          fun hmem => honce (hhanded ▸ hmem)⟩
  | cancel eventId _ =>
      have hadded := (added_append s (.stopped eventId)).trans (List.append_nil _)
      have hhanded := (handed_append s (.stopped eventId)).trans (List.append_nil _)
      refine ⟨fun other hother => ?_, hhanded.symm ▸ h.once, fun other hother => ?_,
        fun other hthread => ?_⟩
      · exact hadded.symm ▸ h.added other (hhanded ▸ hother)
      · exact h.gone other (hhanded ▸ hother)
      · obtain ⟨hother, hgone, honce⟩ := h.handing other hthread
        exact ⟨hadded.symm ▸ hother, hgone, fun hmem => honce (hhanded ▸ hmem)⟩
  | turn _ _ hto _ _ =>
      exact ⟨h.added, h.once, h.gone, fun task hthread => absurd hthread (hto task)⟩
  | pop top _ htop _ =>
      have hmem : top ∈ s.eventList := (of_decide_eq_true htop).1
      refine ⟨h.added, h.once,
        fun task htask hold => h.gone task htask (List.mem_of_mem_erase hold), ?_⟩
      rintro task hthread
      obtain rfl := Thread.handing.inj hthread
      exact ⟨hqueue.added top hmem, fun hold => ((hqueue.nodup.mem_erase_iff).mp hold).1 rfl,
        fun hgiven => h.gone top hgiven hmem⟩
  | drop top _ _ =>
      exact ⟨h.added, h.once,
        fun task htask hold => h.gone task htask (List.mem_of_mem_erase hold), nofun⟩
  | handOver task hthread =>
      obtain ⟨htask, hgone, honce⟩ := h.handing task hthread
      have hadded := (added_append s (.handed task s.now)).trans (List.append_nil _)
      have hhanded := handed_append s (.handed task s.now)
      refine ⟨fun other hother => ?_, ?_, fun other hother => ?_, nofun⟩
      · refine hadded.symm ▸ ?_
        rcases List.mem_append.mp (hhanded ▸ hother) with hold | hnew
        · exact h.added other hold
        · exact List.mem_singleton.mp hnew ▸ htask
      · refine hhanded.symm ▸ List.nodup_append.mpr ⟨h.once, List.nodup_singleton _, ?_⟩
        intro other hold _ hnew
        obtain rfl := List.mem_singleton.mp hnew
        exact fun heq => honce (heq ▸ hold)
      · rcases List.mem_append.mp (hhanded ▸ hother) with hold | hnew
        · exact h.gone other hold
        · exact List.mem_singleton.mp hnew ▸ hgone
  | tick _ => exact ⟨h.added, h.once, h.gone, h.handing⟩
  | leave _ _ => exact ⟨h.added, h.once, h.gone, h.handing⟩
  | clear _ =>
      have hadded := (added_append s .cleared).trans (List.append_nil _)
      have hhanded := (handed_append s .cleared).trans (List.append_nil _)
      refine ⟨fun other hother => ?_, hhanded.symm ▸ h.once, fun _ _ => List.not_mem_nil,
        fun other hthread => ?_⟩
      · exact hadded.symm ▸ h.added other (hhanded ▸ hother)
      · obtain ⟨hother, _, honce⟩ := h.handing other hthread
        exact ⟨hadded.symm ▸ hother, List.not_mem_nil, fun hmem => honce (hhanded ▸ hmem)⟩

/-! ## What was stopped -/

/-- Nothing is handed over after a stop in this history. -/
def Final (seen : List Seen) : Prop :=
  ∀ before after eventId, seen = before ++ .stopped eventId :: after →
    ∀ task time, .handed task time ∈ after → task.eventId ≠ eventId

theorem Final.append {seen : List Seen} (h : Final seen) {x : Seen}
    (hx : ∀ task time, x = .handed task time → ∀ eventId, .stopped eventId ∈ seen →
      task.eventId ≠ eventId) : Final (seen ++ [x]) := by
  intro before after eventId hsplit task time hmem
  cases after using List.reverseRecOn with
  | nil => exact absurd hmem List.not_mem_nil
  | append_singleton after y _ =>
      rw [← List.cons_append, ← List.append_assoc] at hsplit
      obtain ⟨hseen, hlast⟩ := List.append_inj' hsplit rfl
      obtain rfl := List.singleton_inj.mp hlast
      rcases List.mem_append.mp hmem with hold | hnew
      · exact h before after eventId hseen task time hold
      · refine hx task time (List.mem_singleton.mp hnew).symm eventId ?_
        rw [hseen]
        exact List.mem_append_right _ List.mem_cons_self

/-- An id that was stopped is no longer live, nor given again. -/
structure Stops (s : Scheduler) : Prop where
  known : ∀ eventId, .stopped eventId ∈ s.seen → eventId.toNat ≤ s.lastEventId.toNat
  gone : ∀ eventId, .stopped eventId ∈ s.seen → eventId ∉ s.eventIds
  handing : ∀ eventId task, .stopped eventId ∈ s.seen → s.thread = .handing task →
    task.eventId ≠ eventId
  final : Final s.seen

theorem mem_of_mem_append {seen : List Seen} {x y : Seen} (h : y ∈ seen ++ [x]) (hne : y ≠ x) :
    y ∈ seen :=
  (List.mem_append.mp h).resolve_right fun hnew => hne (List.mem_singleton.mp hnew)

theorem Stops.effect {s t : Scheduler} (h : s.Stops) (hids : s.Ids) (hqueue : s.Queue)
    (hgiven : s.Given) (heffect : Effect s t) : t.Stops := by
  cases heffect with
  | nothing => exact h
  | add task _ hid hfew =>
      have hnext : task.eventId.toNat = s.lastEventId.toNat + 1 := hid ▸ hids.next hfew
      have hold : ∀ eventId, .stopped eventId ∈ s.seen ++ [.added task] →
          .stopped eventId ∈ s.seen := fun eventId hmem => mem_of_mem_append hmem nofun
      refine ⟨fun eventId hmem => ?_, fun eventId hmem hlive => ?_,
        fun eventId other hmem => h.handing eventId other (hold eventId hmem),
        h.final.append nofun⟩
      · have hknown := h.known eventId (hold eventId hmem)
        show eventId.toNat ≤ task.eventId.toNat
        omega
      · rcases List.mem_insert_iff.mp hlive with heq | hlive
        · have hknown := h.known eventId (hold eventId hmem)
          rw [heq] at hknown
          omega
        · exact h.gone eventId (hold eventId hmem) hlive
  | cancel stopped hlive =>
      obtain ⟨task, htask, hid⟩ := hqueue.live stopped hlive
      have hcases : ∀ eventId, .stopped eventId ∈ s.seen ++ [.stopped stopped] →
          .stopped eventId ∈ s.seen ∨ eventId = stopped := by
        intro eventId hmem
        exact (List.mem_append.mp hmem).imp_right fun hnew =>
          Seen.stopped.inj (List.mem_singleton.mp hnew)
      refine ⟨fun eventId hmem => ?_, fun eventId hmem hstill => ?_,
        fun eventId other hmem hthread => ?_, h.final.append nofun⟩
      · rcases hcases eventId hmem with hold | rfl
        · exact h.known eventId hold
        · exact hid ▸ (hids.bound task (hqueue.added task htask)).2
      · obtain ⟨hne, hbefore⟩ := (hqueue.liveNodup.mem_erase_iff).mp hstill
        rcases hcases eventId hmem with hold | heq
        · exact h.gone eventId hold hbefore
        · exact hne heq
      · rcases hcases eventId hmem with hold | rfl
        · exact h.handing eventId other hold hthread
        · obtain ⟨hother, hgone, _⟩ := hgiven.handing other hthread
          intro heq
          have hsame := hids.eq hother (hqueue.added task htask) (heq.trans hid.symm)
          exact hgone (hsame ▸ htask)
  | turn _ _ hto _ _ =>
      exact ⟨h.known, h.gone, fun _ task _ hthread => absurd hthread (hto task), h.final⟩
  | pop top _ _ hlive =>
      refine ⟨h.known, fun eventId hmem hstill => h.gone eventId hmem (List.mem_of_mem_erase hstill),
        fun eventId task hmem hthread heq => ?_, h.final⟩
      obtain rfl := Thread.handing.inj hthread
      exact h.gone eventId hmem (heq ▸ hlive)
  | drop _ _ _ => exact ⟨h.known, h.gone, nofun, h.final⟩
  | handOver task hthread =>
      have hold : ∀ eventId, .stopped eventId ∈ s.seen ++ [.handed task s.now] →
          .stopped eventId ∈ s.seen := fun eventId hmem => mem_of_mem_append hmem nofun
      refine ⟨fun eventId hmem => h.known eventId (hold eventId hmem),
        fun eventId hmem => h.gone eventId (hold eventId hmem), nofun, h.final.append ?_⟩
      intro other time heq eventId hmem
      obtain ⟨rfl, _⟩ := Seen.handed.inj heq
      exact h.handing eventId task hmem hthread
  | tick _ => exact ⟨h.known, h.gone, h.handing, h.final⟩
  | leave _ _ => exact ⟨h.known, h.gone, h.handing, h.final⟩
  | clear _ =>
      have hold : ∀ eventId, .stopped eventId ∈ s.seen ++ [.cleared] →
          .stopped eventId ∈ s.seen := fun eventId hmem => mem_of_mem_append hmem nofun
      exact ⟨fun eventId hmem => h.known eventId (hold eventId hmem), fun _ _ => List.not_mem_nil,
        fun eventId task hmem => h.handing eventId task (hold eventId hmem),
        h.final.append nofun⟩

/-! ## Time -/

/-- Some task of the list is no later than this, unless `shutdown` emptied it. -/
def Earlier (s : Scheduler) (cycle : Nat) : Prop :=
  (∃ task ∈ s.eventList, task.getCycle ≤ cycle) ∨ s.eventList = [] ∧ s.threadState ≠ .running

/-- The thread waits for no later than its first task. -/
structure Due (s : Scheduler) : Prop where
  handed : ∀ task time, .handed task time ∈ s.seen → task.getCycle ≤ time
  handing : ∀ task, s.thread = .handing task → task.getCycle ≤ s.now
  waiting : ∀ cycle, s.thread = .waitingUntil cycle → s.Earlier cycle
  woken : s.thread = .woken .timeout → ∃ cycle ≤ s.now, s.Earlier cycle

theorem Earlier.add {s t : Scheduler} {cycle : Nat} (h : s.Earlier cycle)
    (hrunning : s.threadState = .running) (hlist : ∀ task ∈ s.eventList, task ∈ t.eventList) :
    t.Earlier cycle := by
  rcases h with ⟨task, htask, hcycle⟩ | ⟨_, hleft⟩
  · exact .inl ⟨task, hlist task htask, hcycle⟩
  · exact absurd hrunning hleft

theorem Due.effect {s t : Scheduler} (h : s.Due) (heffect : Effect s t) : t.Due := by
  cases heffect with
  | nothing => exact h
  | add task hrunning _ _ =>
      have hlist : ∀ other ∈ s.eventList, other ∈ s.eventList ++ [task] := fun other hother =>
        List.mem_append_left _ hother
      refine ⟨fun other time hmem => h.handed other time (mem_of_mem_append hmem nofun),
        h.handing, fun cycle hthread => (h.waiting cycle hthread).add hrunning hlist,
        fun hthread => ?_⟩
      obtain ⟨cycle, hcycle, hearlier⟩ := h.woken hthread
      exact ⟨cycle, hcycle, hearlier.add hrunning hlist⟩
  | cancel eventId _ =>
      exact ⟨fun other time hmem => h.handed other time (mem_of_mem_append hmem nofun),
        h.handing, h.waiting, h.woken⟩
  | turn thread _ hto huntil htimeout =>
      refine ⟨h.handed, fun task hthread => absurd hthread (hto task),
        fun cycle hthread => .inl (huntil cycle hthread), fun hthread => ?_⟩
      obtain ⟨cycle, hcycle, hwaiting⟩ := htimeout hthread
      exact ⟨cycle, hcycle, h.waiting cycle hwaiting⟩
  | pop top hthread htop _ =>
      obtain ⟨hmem, hleast⟩ := of_decide_eq_true htop
      refine ⟨h.handed, ?_, nofun, nofun⟩
      intro task hhanding
      obtain rfl := Thread.handing.inj hhanding
      obtain ⟨cycle, hnow, hearlier⟩ := h.woken hthread
      rcases hearlier with ⟨task, htask, hcycle⟩ | ⟨hempty, _⟩
      · exact Nat.le_trans (hleast task htask) (Nat.le_trans hcycle hnow)
      · exact absurd (hempty ▸ hmem) List.not_mem_nil
  | drop _ _ _ => exact ⟨h.handed, nofun, nofun, nofun⟩
  | handOver task hthread =>
      refine ⟨fun other time hmem => ?_, nofun, nofun, nofun⟩
      rcases List.mem_append.mp hmem with hold | hnew
      · exact h.handed other time hold
      · obtain ⟨rfl, rfl⟩ := Seen.handed.inj (List.mem_singleton.mp hnew)
        exact h.handing _ hthread
  | tick time =>
      refine ⟨h.handed, fun task hthread =>
        Nat.le_trans (h.handing task hthread) (Nat.le_add_right _ _),
        h.waiting, fun hthread => ?_⟩
      obtain ⟨cycle, hcycle, hearlier⟩ := h.woken hthread
      exact ⟨cycle, Nat.le_trans hcycle (Nat.le_add_right _ _), hearlier⟩
  | leave threadState hleft =>
      have hleave : ∀ cycle, s.Earlier cycle →
          Earlier { s with threadState := threadState } cycle := fun cycle hearlier =>
        hearlier.imp_right fun hempty => ⟨hempty.1, hleft⟩
      refine ⟨h.handed, h.handing, fun cycle hthread => hleave cycle (h.waiting cycle hthread),
        fun hthread => ?_⟩
      obtain ⟨cycle, hcycle, hearlier⟩ := h.woken hthread
      exact ⟨cycle, hcycle, hleave cycle hearlier⟩
  | clear hleft =>
      refine ⟨fun other time hmem => h.handed other time (mem_of_mem_append hmem nofun),
        h.handing, fun _ _ => .inr ⟨rfl, hleft⟩, fun hthread => ?_⟩
      obtain ⟨cycle, hcycle, _⟩ := h.woken hthread
      exact ⟨cycle, hcycle, .inr ⟨rfl, hleft⟩⟩

/-! ## Nothing is dropped -/

/-- What became of an event. -/
def Accounted (s : Scheduler) (task : SchedulerTask) : Prop :=
  (task ∈ s.eventList ∧ task.eventId ∈ s.eventIds) ∨ s.thread = .handing task ∨
    task ∈ s.handed ∨ .stopped task.eventId ∈ s.seen

/-- Short of `shutdown` every event is accounted for. -/
def Kept (s : Scheduler) : Prop := .cleared ∉ s.seen → ∀ task ∈ s.added, s.Accounted task

theorem Kept.effect {s t : Scheduler} (h : s.Kept) (hids : s.Ids) (hqueue : s.Queue)
    (heffect : Effect s t) : t.Kept := by
  cases heffect with
  | nothing => exact h
  | add task _ _ _ =>
      intro hclear other hother
      have hbefore : .cleared ∉ s.seen := fun hmem => hclear (List.mem_append_left _ hmem)
      rcases List.mem_append.mp ((added_append s (.added task)) ▸ hother) with hold | hnew
      · rcases h hbefore other hold with hlive | hhanding | hhanded | hstopped
        · exact .inl ⟨List.mem_append_left _ hlive.1, List.mem_insert_of_mem hlive.2⟩
        · exact .inr (.inl hhanding)
        · exact .inr (.inr (.inl ((handed_append s (.added task)).symm ▸
            List.mem_append_left _ hhanded)))
        · exact .inr (.inr (.inr (List.mem_append_left _ hstopped)))
      · obtain rfl := List.mem_singleton.mp hnew
        exact .inl ⟨List.mem_append_right _ (List.mem_singleton_self _), List.mem_insert_self⟩
  | cancel eventId _ =>
      intro hclear task htask
      have hbefore : .cleared ∉ s.seen := fun hmem => hclear (List.mem_append_left _ hmem)
      have hadded := (added_append s (.stopped eventId)).trans (List.append_nil _)
      by_cases heq : task.eventId = eventId
      · exact .inr (.inr (.inr (heq ▸ List.mem_append_right _ (List.mem_singleton_self _))))
      · rcases h hbefore task (hadded ▸ htask) with hlive | hhanding | hhanded | hstopped
        · exact .inl ⟨hlive.1, (hqueue.liveNodup.mem_erase_iff).mpr ⟨heq, hlive.2⟩⟩
        · exact .inr (.inl hhanding)
        · exact .inr (.inr (.inl ((handed_append s (.stopped eventId)).symm ▸
            List.mem_append_left _ hhanded)))
        · exact .inr (.inr (.inr (List.mem_append_left _ hstopped)))
  | turn _ hfrom _ _ _ =>
      intro hclear task htask
      rcases h hclear task htask with hlive | hhanding | hrest
      · exact .inl hlive
      · exact absurd hhanding (hfrom task)
      · exact .inr (.inr hrest)
  | pop top hthread htop _ =>
      have hmem : top ∈ s.eventList := (of_decide_eq_true htop).1
      intro hclear task htask
      by_cases heq : task = top
      · exact .inr (.inl (heq ▸ rfl))
      · rcases h hclear task htask with hlive | hhanding | hrest
        · have hid : task.eventId ≠ top.eventId := fun hsame =>
            heq (hids.eq htask (hqueue.added top hmem) hsame)
          exact .inl ⟨(hqueue.nodup.mem_erase_iff).mpr ⟨heq, hlive.1⟩,
            (hqueue.liveNodup.mem_erase_iff).mpr ⟨hid, hlive.2⟩⟩
        · rw [hthread] at hhanding
          cases hhanding
        · exact .inr (.inr hrest)
  | drop top hthread hstopped =>
      intro hclear task htask
      rcases h hclear task htask with hlive | hhanding | hrest
      · have heq : task ≠ top := fun heq => hstopped (heq ▸ hlive.2)
        exact .inl ⟨(hqueue.nodup.mem_erase_iff).mpr ⟨heq, hlive.1⟩, hlive.2⟩
      · rw [hthread] at hhanding
        cases hhanding
      · exact .inr (.inr hrest)
  | handOver given hthread =>
      intro hclear task htask
      have hbefore : .cleared ∉ s.seen := fun hmem => hclear (List.mem_append_left _ hmem)
      have hadded := (added_append s (.handed given s.now)).trans (List.append_nil _)
      have hhanded := handed_append s (.handed given s.now)
      rcases h hbefore task (hadded ▸ htask) with hlive | hhanding | hold | hstopped
      · exact .inl hlive
      · obtain rfl := Thread.handing.inj (hthread.symm.trans hhanding)
        exact .inr (.inr (.inl (hhanded.symm ▸
          List.mem_append_right _ (List.mem_singleton_self _))))
      · exact .inr (.inr (.inl (hhanded.symm ▸ List.mem_append_left _ hold)))
      · exact .inr (.inr (.inr (List.mem_append_left _ hstopped)))
  | tick _ => exact h
  | leave _ _ => exact h
  | clear _ =>
      intro hclear
      exact absurd (List.mem_append_right _ (List.mem_singleton_self _)) hclear

/-! ## All runs -/

structure Inv (s : Scheduler) : Prop where
  ids : s.Ids
  queue : s.Queue
  given : s.Given
  stops : s.Stops
  due : s.Due
  kept : s.Kept

theorem inv_started : started.Inv where
  ids := ⟨rfl, nofun, List.nodup_nil⟩
  queue := ⟨nofun, List.nodup_nil, nofun, List.nodup_nil⟩
  given := ⟨nofun, List.nodup_nil, nofun, nofun⟩
  stops := by
    refine ⟨nofun, nofun, nofun, fun before after eventId hsplit => ?_⟩
    exact absurd hsplit.symm (List.append_ne_nil_of_right_ne_nil _ (List.cons_ne_nil _ _))
  due := ⟨nofun, nofun, nofun, nofun⟩
  kept := nofun

theorem inductive_inv : system.Inductive Few Inv where
  init s hs := hs ▸ inv_started
  step s a t h hfew hstep := by
    have heffect := effect_of_step hfew hstep
    exact {
      ids := h.ids.effect heffect
      queue := h.queue.effect h.ids heffect
      given := h.given.effect h.ids h.queue heffect
      stops := h.stops.effect h.ids h.queue h.given heffect
      due := h.due.effect heffect
      kept := h.kept.effect h.ids h.queue heffect }

/-- The contract holds whatever the order of calls, wake-ups and time. -/
theorem contract_of_reach {s : Scheduler} (h : system.Reach Few s) : s.Contract := by
  have hinv := inductive_inv.invariant h
  exact {
    handedOnce := hinv.given.once
    handedAdded := hinv.given.added
    onTime := hinv.due.handed
    stopped := hinv.stops.final
    idsDistinct := hinv.ids.distinct
    idsNonzero := fun task htask heq => by
      have hbound := (hinv.ids.bound task htask).1
      rw [heq] at hbound
      exact absurd hbound (Nat.lt_irrefl 0)
    kept := fun hclear task htask =>
      (hinv.kept hclear task htask).imp_left And.left }

theorem reach_next {s t : Scheduler} {a : Action} (h : system.Reach Few s) (hfew : s.Few a)
    (hstep : s.step a = some t) : system.Reach Few t :=
  .next h hfew hstep

/-- An event for time 5 that is handed over at time 7, and one that is stopped. -/
theorem contract_of_reach_two :
    Contract ⟨.running, 2, [⟨2, 9⟩], [], .loop, 7,
      [.added ⟨1, 5⟩, .added ⟨2, 9⟩, .stopped 2, .handed ⟨1, 5⟩ 7]⟩ := by
  have h0 : system.Reach Few started := .start rfl
  have h1 := reach_next (a := .addEvent 5) h0 (show 0 + 1 < 2 ^ 32 by decide) rfl
  have h2 := reach_next (a := .addEvent 9) h1 (show 1 + 1 < 2 ^ 32 by decide) rfl
  have h3 := reach_next (a := .beginWait ⟨1, 5⟩) h2 trivial rfl
  have h4 := reach_next (a := .stopEvent 2) h3 trivial rfl
  have h5 := reach_next (a := .tick 7) h4 trivial rfl
  have h6 := reach_next (a := .wake .timeout) h5 trivial rfl
  have h7 := reach_next (a := .afterWait ⟨1, 5⟩) h6 trivial rfl
  have h8 := reach_next (a := .addTask) h7 trivial rfl
  exact contract_of_reach h8

end Scheduler

end Infernum.Scheduling
