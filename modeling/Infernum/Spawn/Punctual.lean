import Infernum.Spawn.Chains

/-!
# Punctual spawns

When tasks run at most `late` after they are due, a chain has ended 4200 and
three times `late` after its check. A spawn whose checks are further apart
never has two monsters under an id.
-/

namespace Infernum.Spawning

open Lib

namespace Spawn

/-- Time does not pass a pending task by more than `late`. -/
def Punctual (late : Nat) (s : Spawn) : Action → Prop
  | .elapse ms => ∀ task ∈ s.tasks, s.now + ms ≤ task.due + late
  | _ => True

/-- A task with `k` further tasks to come, of a chain begun at `start`. -/
def InChain (late start : Nat) (task : SpawnTask) : Prop :=
  ∃ k, k ≤ 2 ∧ task.interval = (k * 1400).toUInt16 ∧
    task.due + k * 1400 + k * late ≤ start + 4200 + 2 * late

/-- The tasks belong to chains begun by the last check, at `start`, and the
next check is a whole interval away from it. -/
structure Timed (late start : Nat) (s : Spawn) : Prop where
  past : start ≤ s.now
  next : ∀ due, s.checkSpawnEvent = some due → start + s.interval ≤ due
  chain : ∀ task ∈ s.tasks, InChain late start task
  prompt : ∀ task ∈ s.tasks, s.now ≤ task.due + late

variable {late start : Nat}

theorem Timed.congr {s t : Spawn} (h : s.Timed late start) (hnow : t.now = s.now)
    (hinterval : t.interval = s.interval) (hevent : t.checkSpawnEvent = s.checkSpawnEvent)
    (htasks : t.tasks ⊆ s.tasks) : t.Timed late start := by
  refine ⟨hnow ▸ h.past, ?_, fun task htask => h.chain task (htasks htask), ?_⟩
  · intro due hdue
    rw [hinterval]
    exact h.next due (hevent ▸ hdue)
  · intro task htask
    rw [hnow]
    exact h.prompt task (htasks htask)

theorem Timed.startSpawnCheck {s : Spawn} (h : s.Timed late start) :
    s.startSpawnCheck.Timed late start := by
  rw [Spawn.startSpawnCheck]
  split
  · refine ⟨h.past, ?_, h.chain, h.prompt⟩
    intro due hdue
    cases hdue
    exact Nat.add_le_add_right h.past s.interval
  · exact h

/-- A check begins new chains when the old ones are over. -/
theorem Timed.checkSpawn {s : Spawn} {rate : UInt32} {outcome : Outcome}
    (hidle : s.tasks = []) : (s.checkSpawn rate outcome).Timed late s.now := by
  have htasks : ∀ task ∈ (s.checkSpawn rate outcome).tasks,
      task.due = s.now + 1400 ∧ task.interval = 2800 := by
    intro task htask
    rw [checkSpawn_eq, tidied_tasks, hidle, List.nil_append] at htask
    obtain ⟨it, -, rfl⟩ := List.mem_map.mp htask
    exact ⟨by rw [announcement, tidied_now], rfl⟩
  have hnow : (s.checkSpawn rate outcome).now = s.now := by rw [checkSpawn_eq]; exact tidied_now s
  refine ⟨Nat.le_of_eq hnow.symm, ?_, ?_, ?_⟩
  · intro due hdue
    have hinterval : (s.checkSpawn rate outcome).interval = s.interval := by
      rw [checkSpawn_eq]
      exact tidied_interval s
    rw [checkSpawn_eq] at hdue
    rw [hinterval]
    split at hdue
    · cases hdue
      refine Nat.le_of_eq ?_
      rw [tidied_now, tidied_interval]
    · cases hdue
  · intro task htask
    obtain ⟨hdue, hrest⟩ := htasks task htask
    exact ⟨2, Nat.le_refl 2, hrest, by omega⟩
  · intro task htask
    rw [hnow, (htasks task htask).1]
    omega

/-- A task hands its chain on. -/
theorem Timed.runTask {s : Spawn} (h : s.Timed late start) {index : Nat} {task : SpawnTask}
    (htask : s.tasks[index]? = some task) (outcome : Outcome) :
    (scheduleSpawn { s with tasks := s.tasks.eraseIdx index } task.spawnId task.sb task.interval
      outcome).Timed late start := by
  have herase : (s.tasks.eraseIdx index) ⊆ s.tasks := (List.eraseIdx_sublist _ _).subset
  obtain ⟨k, hk, hinterval, hchain⟩ := h.chain task (List.mem_of_getElem? htask)
  have hprompt := h.prompt task (List.mem_of_getElem? htask)
  by_cases hlast : task.interval ≤ 0
  · rw [scheduleSpawn, if_pos hlast]
    obtain ⟨-, htasks, hevent, hint, hnow, -⟩ := spawnMonster_cases
      { s with tasks := s.tasks.eraseIdx index } task.spawnId task.sb outcome
    exact h.congr hnow hint hevent (htasks ▸ herase)
  · rw [scheduleSpawn_of_pos hlast]
    have hpos : k ≠ 0 := by
      intro hzero
      rw [hinterval, hzero] at hlast
      exact hlast (by decide)
    have htwo : k = 1 ∨ k = 2 := by omega
    have hrest : task.interval - 1400 = ((k - 1) * 1400).toUInt16 := by
      rw [hinterval]
      rcases htwo with rfl | rfl <;> decide
    refine ⟨h.past, h.next, ?_, ?_⟩
    · intro other hother
      rcases List.mem_append.mp hother with hold | hnew
      · exact h.chain other (herase hold)
      · cases List.mem_singleton.mp hnew
        refine ⟨k - 1, by omega, hrest, ?_⟩
        show s.now + 1400 + (k - 1) * 1400 + (k - 1) * late ≤ _
        rcases htwo with rfl | rfl <;> omega
    · intro other hother
      rcases List.mem_append.mp hother with hold | hnew
      · exact h.prompt other (herase hold)
      · cases List.mem_singleton.mp hnew
        show s.now ≤ s.now + 1400 + late
        omega

/-- With checks far enough apart no chain is pending at a check. -/
theorem Timed.idle {s : Spawn} (h : s.Timed late start) (hfar : 4200 + 3 * late < s.interval)
    {due : Nat} (hdue : s.checkSpawnEvent = some due) (hnow : due ≤ s.now) : s.tasks = [] := by
  refine List.eq_nil_iff_forall_not_mem.mpr fun task htask => ?_
  obtain ⟨k, hk, -, hchain⟩ := h.chain task htask
  have hnext := h.next due hdue
  have hprompt := h.prompt task htask
  have hlate : 0 ≤ k * late := Nat.zero_le _
  omega

theorem step_interval {s t : Spawn} {a : Action} (hstep : s.step a = some t) :
    t.interval = s.interval := by
  cases effect_of_step hstep with
  | elapse ms => rfl
  | check rate outcome due hdue hnow =>
      rw [checkSpawn_eq]
      exact tidied_interval s
  | task index outcome task htask =>
      rw [scheduleSpawn]
      split
      · exact (spawnMonster_cases _ _ _ _).2.2.2.1
      · rfl
  | remove index =>
      rw [Spawn.startSpawnCheck]
      split <;> rfl
  | removeScripted index => rfl
  | move index position => rfl

theorem Timed.updateMonster {s : Spawn} (h : s.Timed late start) (index : Nat)
    (f : Monster → Monster) : (s.updateMonster index f).Timed late start :=
  h.congr rfl rfl rfl (List.Subset.refl _)

theorem Timed.step {s t : Spawn} (h : s.Timed late start) (hfar : 4200 + 3 * late < s.interval)
    {a : Action} (hguard : s.Punctual late a) (hstep : s.step a = some t) :
    s.NoSecondChain a ∧ ∃ start', t.Timed late start' := by
  cases effect_of_step hstep with
  | elapse ms =>
      refine ⟨trivial, start, Nat.le_trans h.past (Nat.le_add_right _ _), h.next, h.chain, ?_⟩
      exact hguard
  | check rate outcome due hdue hnow =>
      have hidle := h.idle hfar hdue hnow
      refine ⟨?_, s.now, Timed.checkSpawn hidle⟩
      intro it _
      rw [chainIds, hidle]
      exact List.not_mem_nil
  | task index outcome task htask => exact ⟨trivial, start, h.runTask htask outcome⟩
  | remove index => exact ⟨trivial, start, (h.updateMonster index _).startSpawnCheck⟩
  | removeScripted index => exact ⟨trivial, start, h.updateMonster index _⟩
  | move index position => exact ⟨trivial, start, h.updateMonster index _⟩

theorem Timed.init {Startup : (Nat → Outcome) → Prop} {s : Spawn}
    (hs : (system Startup).init s) : s.Timed late s.now := by
  obtain ⟨centerPos, radius, nodes, now, outcome, -, hs⟩ := hs
  obtain ⟨-, htasks, hevent, -⟩ := startup_spec hs
  refine ⟨Nat.le_refl _, ?_, ?_, ?_⟩
  · intro due hdue
    rw [hevent] at hdue
    cases hdue
  · rw [htasks]
    exact fun _ h => absurd h List.not_mem_nil
  · rw [htasks]
    exact fun _ h => absurd h List.not_mem_nil

/-- A punctual run of a spawn with checks far enough apart has no second
chains. -/
theorem reach_of_punctual {Startup : (Nat → Outcome) → Prop} {s : Spawn}
    (h : (system Startup).Reach (Punctual late) s) (hfar : 4200 + 3 * late < s.interval) :
    (∃ start, s.Timed late start) ∧ (system Startup).Reach NoSecondChain s := by
  induction h with
  | start hinit => exact ⟨⟨_, Timed.init hinit⟩, .start hinit⟩
  | next hreach hguard hstep ih =>
      have hsame := step_interval hstep
      obtain ⟨⟨start, htimed⟩, hreach'⟩ := ih (hsame ▸ hfar)
      obtain ⟨hsingle, start', htimed'⟩ := htimed.step (hsame ▸ hfar) hguard hstep
      exact ⟨⟨start', htimed'⟩, .next hreach' hsingle hstep⟩

/-- Checks more than 4200 ms apart keep to one monster for every id, as long
as tasks are late by less than a third of the difference. -/
theorem one_monster_of_punctual {s : Spawn}
    (h : (system fun _ => True).Reach (Punctual late) s) (hfar : 4200 + 3 * late < s.interval) :
    s.AtMostOne :=
  ((single_inductive _).invariant (reach_of_punctual h hfar).2).atMostOne

instance (late : Nat) (s : Spawn) (a : Action) : Decidable (Punctual late s a) :=
  match a with
  | .elapse ms => inferInstanceAs (Decidable (∀ task ∈ s.tasks, s.now + ms ≤ task.due + late))
  | .checkSpawn _ _ | .runTask _ _ | .removeCreature _ _ | .move _ _ => .isTrue trivial

theorem one_monster_of_punctual_rat :
    ∃ s, TSys.runGuarded step (Punctual 200) (ratSpawn 5000) slowRun = some s ∧ s.AtMostOne := by
  have hrun : (TSys.runGuarded step (Punctual 200) (ratSpawn 5000) slowRun).map
      (fun s => s.interval) = some 5000 := by decide
  obtain ⟨s, hs, hinterval⟩ := Option.map_eq_some_iff.mp hrun
  exact ⟨s, hs, one_monster_of_punctual
    ((reach_ratSpawn 5000 _).runGuarded (fun _ _ _ h => h) hs) (by omega)⟩

end Spawn

end Infernum.Spawning
