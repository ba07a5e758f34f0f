import Infernum.Spawn.Chains

/-!
# Ids that wait for a monster

The check is put off when there are as many living monsters as ids. If these
stand in the zone under ids of their own, they are those of all ids. But a
monster that has walked off is counted as well, and may stand for an id that
has none.
-/

namespace Infernum.Spawning

open Lib

namespace Spawn

/-- Without a pending check every id has a monster or a pending task. -/
def Remembered (s : Spawn) : Prop :=
  s.checkSpawnEvent = none → ∀ spawnId ∈ s.spawnIds, spawnId ∈ s.monsterIds ∨ spawnId ∈ s.chainIds

/-- Every monster is placed at the start. -/
def AllPlaced (outcome : Nat → Outcome) : Prop :=
  ∀ spawnId, (outcome spawnId).isPlaced = true

/-- The monsters that are not removed. -/
def living (s : Spawn) : List (Nat × Monster) :=
  s.spawnedMap.filter fun it => !it.2.removed

/-- When a check finds as many living monsters as ids, all of them stand in
the zone, each under an id of its own. -/
def Steady (s : Spawn) : Action → Prop
  | .checkSpawn _ _ =>
      s.spawnMap.length ≤ s.living.length →
        (∀ it ∈ s.living, it.1 ≠ 0 ∧ s.isInSpawnZone it.2.position = true) ∧
          (s.living.map Prod.fst).Nodup
  | _ => True

/-- The invariant: entries and tasks belong to ids of the spawn or to those
that have walked off, and without a pending check all ids have entries. -/
structure Complete (s : Spawn) : Prop where
  monsters : s.monsterIds ⊆ 0 :: s.spawnIds
  chains : s.chainIds ⊆ s.spawnIds
  full : s.checkSpawnEvent = none → s.spawnIds ⊆ s.monsterIds

theorem Complete.remembered {s : Spawn} (h : s.Complete) : s.Remembered :=
  fun hevent _ hid => .inl (h.full hevent hid)

theorem tidied_spawnedMap (s : Spawn) :
    s.tidied.spawnedMap = s.spawnedMap.filterMap s.cleanupEntry := by
  rw [tidied_eq]

theorem cleanupEntry_of_removed {s : Spawn} {it : Nat × Monster} (h : it.2.removed = true) :
    s.cleanupEntry it = none := by
  rw [cleanupEntry, h]
  rfl

/-- A living monster keeps an entry. -/
theorem cleanupEntry_of_living (s : Spawn) {it : Nat × Monster} (h : it.2.removed = false) :
    ∃ it', s.cleanupEntry it = some it' ∧
      (s.isInSpawnZone it.2.position = true → it' = it) := by
  rw [cleanupEntry, h]
  cases hzone : s.isInSpawnZone it.2.position with
  | true => exact ⟨it, rfl, fun _ => rfl⟩
  | false =>
      by_cases hid : it.1 = 0
      · exact ⟨it, by simp [hid], fun _ => rfl⟩
      · exact ⟨(0, it.2), by simp [hid], fun hin => absurd hin (by simp)⟩

theorem length_tidied (s : Spawn) : s.tidied.spawnedMap.length = s.living.length := by
  rw [tidied_spawnedMap, living]
  induction s.spawnedMap with
  | nil => rfl
  | cons it entries ih =>
      rw [List.filter_cons]
      cases hremoved : it.2.removed with
      | true =>
          rw [List.filterMap_cons_none (cleanupEntry_of_removed hremoved), ih]
          rfl
      | false =>
          obtain ⟨it', hentry, -⟩ := cleanupEntry_of_living s hremoved
          rw [List.filterMap_cons_some hentry, List.length_cons, ih]
          rfl

theorem filterMap_cleanupEntry (s : Spawn) (entries : List (Nat × Monster))
    (hzone : ∀ it ∈ entries.filter fun it => !it.2.removed,
      s.isInSpawnZone it.2.position = true) :
    entries.filterMap s.cleanupEntry = entries.filter fun it => !it.2.removed := by
  induction entries with
  | nil => rfl
  | cons it entries ih =>
      rw [List.filter_cons] at hzone ⊢
      cases hremoved : it.2.removed with
      | true =>
          rw [hremoved] at hzone
          rw [List.filterMap_cons_none (cleanupEntry_of_removed hremoved), ih hzone]
          rfl
      | false =>
          rw [hremoved] at hzone
          obtain ⟨it', hentry, hsame⟩ := cleanupEntry_of_living s hremoved
          rw [List.filterMap_cons_some hentry, hsame (hzone it List.mem_cons_self),
            ih fun other hother => hzone other (List.mem_cons_of_mem _ hother)]
          rfl

/-- When nobody has walked off, tidying up leaves the living. -/
theorem tidied_eq_living {s : Spawn}
    (hzone : ∀ it ∈ s.living, s.isInSpawnZone it.2.position = true) :
    s.tidied.spawnedMap = s.living := by
  rw [tidied_spawnedMap]
  exact filterMap_cleanupEntry s s.spawnedMap hzone

theorem monsterIds_tidied_subset {s : Spawn} (h : s.monsterIds ⊆ 0 :: s.spawnIds) :
    s.tidied.monsterIds ⊆ 0 :: s.spawnIds := by
  intro id hid
  rw [monsterIds, tidied_spawnedMap] at hid
  obtain ⟨it', hit', rfl⟩ := List.mem_map.mp hid
  obtain ⟨it, hit, hentry⟩ := List.mem_filterMap.mp hit'
  rcases cleanupEntry_fst hentry with hsame | hzero
  · rw [hsame]
    exact h (List.mem_map_of_mem hit)
  · rw [hzero]
    exact List.mem_cons_self

/-- As many entries as ids, none of them twice, are entries of all ids. -/
theorem spawnIds_subset_of_length {s : Spawn} (hnodup : s.monsterIds.Nodup)
    (hsub : s.monsterIds ⊆ s.spawnIds) (hlen : s.spawnMap.length ≤ s.spawnedMap.length) :
    s.spawnIds ⊆ s.monsterIds := by
  have hle : s.spawnIds.length ≤ s.monsterIds.length := by
    rw [spawnIds, monsterIds, List.length_map, List.length_map]
    exact hlen
  exact ((List.subperm_of_subset hnodup hsub).perm_of_length_le hle).symm.subset

/-- A check that is not followed by another one leaves no id alone. -/
theorem full_of_steady {s : Spawn} (hmonsters : s.monsterIds ⊆ 0 :: s.spawnIds)
    {rate : UInt32} {outcome : Outcome} (hguard : s.Steady (.checkSpawn rate outcome))
    (hmany : s.tidied.spawnMap.length ≤ s.tidied.spawnedMap.length) :
    s.tidied.spawnIds ⊆ s.tidied.monsterIds := by
  have hlen : s.spawnMap.length = s.tidied.spawnMap.length := by
    have hids := congrArg List.length (spawnIds_tidied s)
    rw [spawnIds, List.length_map, spawnIds, List.length_map] at hids
    exact hids.symm
  obtain ⟨hown, hnodup⟩ := hguard (by rw [hlen, ← length_tidied]; exact hmany)
  have hliving : s.tidied.spawnedMap = s.living := tidied_eq_living fun it hit => (hown it hit).2
  refine spawnIds_subset_of_length ?_ ?_ hmany
  · rw [monsterIds, hliving]
    exact hnodup
  · intro id hid
    have hknown := monsterIds_tidied_subset hmonsters hid
    rw [monsterIds, hliving] at hid
    obtain ⟨it, hit, rfl⟩ := List.mem_map.mp hid
    rw [spawnIds_tidied]
    exact (List.mem_cons.mp hknown).resolve_left (hown it hit).1

theorem Complete.checkSpawn {s : Spawn} (h : s.Complete) {rate : UInt32} {outcome : Outcome}
    (hguard : s.Steady (.checkSpawn rate outcome)) : (s.checkSpawn rate outcome).Complete := by
  have hids : (s.checkSpawn rate outcome).spawnIds = s.spawnIds := by
    rw [checkSpawn_eq]
    exact spawnIds_tidied s
  have hmonsters : (s.checkSpawn rate outcome).monsterIds = s.tidied.monsterIds := by
    rw [checkSpawn_eq]
    rfl
  refine ⟨?_, ?_, ?_⟩
  · rw [hids, hmonsters]
    exact monsterIds_tidied_subset h.monsters
  · rw [hids, checkSpawn_eq, chainIds, List.map_append, List.map_map, tidied_tasks]
    intro id hid
    rcases List.mem_append.mp hid with hold | hnew
    · exact h.chains hold
    · exact spawnIds_tidied s ▸ (announced_sublist s.tidied rate.toNat).subset hnew
  · intro hevent
    rw [checkSpawn_eq] at hevent
    by_cases hmissing : s.tidied.spawnedMap.length < s.tidied.spawnMap.length
    · rw [if_pos hmissing] at hevent
      cases hevent
    · rw [hids, hmonsters, ← spawnIds_tidied s]
      exact full_of_steady h.monsters hguard (by omega)

theorem Complete.updateMonster {s : Spawn} (h : s.Complete) (index : Nat)
    (f : Monster → Monster) : (s.updateMonster index f).Complete := by
  refine ⟨?_, h.chains, ?_⟩
  · rw [monsterIds_updateMonster]
    exact h.monsters
  · rw [monsterIds_updateMonster]
    exact h.full

theorem Complete.startSpawnCheck {s : Spawn} (h : s.Complete) : s.startSpawnCheck.Complete := by
  rw [Spawn.startSpawnCheck]
  split
  · refine ⟨h.monsters, h.chains, ?_⟩
    intro hnone
    cases hnone
  · exact h

theorem Complete.runTask {s : Spawn} (h : s.Complete) {index : Nat} {task : SpawnTask}
    (htask : s.tasks[index]? = some task) (outcome : Outcome) :
    (scheduleSpawn { s with tasks := s.tasks.eraseIdx index } task.spawnId task.sb task.interval
      outcome).Complete := by
  have hid : task.spawnId ∈ s.spawnIds :=
    h.chains (List.mem_map_of_mem (List.mem_of_getElem? htask))
  have hrest : (s.tasks.eraseIdx index).map SpawnTask.spawnId ⊆ s.spawnIds := fun id hmem =>
    h.chains (((List.eraseIdx_sublist _ _).map _).subset hmem)
  by_cases hlast : task.interval ≤ 0
  · rw [scheduleSpawn, if_pos hlast]
    obtain ⟨hids, htasks, hevent, -, -, hmonsters⟩ := spawnMonster_cases
      { s with tasks := s.tasks.eraseIdx index } task.spawnId task.sb outcome
    refine ⟨?_, ?_, ?_⟩
    · rw [hids, hmonsters]
      intro id hmem
      rcases List.mem_append.mp hmem with hold | hnew
      · exact h.monsters hold
      · split at hnew
        · exact List.mem_cons_of_mem _ (List.mem_singleton.mp hnew ▸ hid)
        · cases hnew
    · rw [hids, chainIds, htasks]
      exact hrest
    · rw [hids, hmonsters, hevent]
      exact fun hnone id hmem => List.mem_append_left _ (h.full hnone hmem)
  · rw [scheduleSpawn_of_pos hlast]
    refine ⟨h.monsters, ?_, h.full⟩
    intro id hmem
    rw [chainIds, List.map_append] at hmem
    rcases List.mem_append.mp hmem with hold | hnew
    · exact hrest hold
    · exact List.mem_singleton.mp hnew ▸ hid

theorem Complete.step {s t : Spawn} (h : s.Complete) {a : Action} (hguard : s.Steady a)
    (hstep : s.step a = some t) : t.Complete := by
  cases effect_of_step hstep with
  | elapse ms => exact ⟨h.monsters, h.chains, h.full⟩
  | check rate outcome due hdue hnow => exact h.checkSpawn hguard
  | task index outcome task htask => exact h.runTask htask outcome
  | remove index => exact (h.updateMonster index _).startSpawnCheck
  | removeScripted index => exact h.updateMonster index _
  | move index position => exact h.updateMonster index _

theorem Complete.init {s : Spawn} (hs : (system AllPlaced).init s) : s.Complete := by
  obtain ⟨centerPos, radius, nodes, now, outcome, hplaced, hs⟩ := hs
  obtain ⟨hids, htasks, -, hmonsters⟩ := startup_spec hs
  have hall : s.monsterIds = s.spawnIds := by
    rw [hmonsters, hids]
    exact List.filter_eq_self.mpr fun id _ => hplaced id
  refine ⟨?_, ?_, ?_⟩
  · rw [hall]
    exact List.subset_cons_self _ _
  · rw [chainIds, htasks]
    exact List.nil_subset _
  · rw [hall]
    exact fun _ => List.Subset.refl _

theorem complete_inductive : (system AllPlaced).Inductive Steady Complete where
  init _ hs := Complete.init hs
  step _ _ _ h hguard hstep := h.step hguard hstep

instance (s : Spawn) (a : Action) : Decidable (s.Steady a) :=
  match a with
  | .checkSpawn _ _ =>
      inferInstanceAs (Decidable (s.spawnMap.length ≤ s.living.length →
        (∀ it ∈ s.living, it.1 ≠ 0 ∧ s.isInSpawnZone it.2.position = true) ∧
          (s.living.map Prod.fst).Nodup))
  | .elapse _ | .runTask _ _ | .removeCreature _ _ | .move _ _ => .isTrue trivial

/-- In every steady run of a spawn that starts with all its monsters, no id is
forgotten. -/
theorem spawn_remembered {s : Spawn} (h : (system AllPlaced).Reach Steady s) : s.Remembered :=
  (complete_inductive.invariant h).remembered

theorem slow_rat_remembered :
    ∃ s, TSys.runGuarded step Steady (ratSpawn 5000) slowRun = some s ∧ s.Remembered := by
  have hrun : (TSys.runGuarded step Steady (ratSpawn 5000) slowRun).isSome = true := by decide
  obtain ⟨s, hs⟩ := Option.isSome_iff_exists.mp hrun
  have hstart : (system AllPlaced).Reach Steady (ratSpawn 5000) :=
    .start ⟨lair, 5, _, 0, fun _ => .placed lair false, fun _ => rfl, rfl⟩
  exact ⟨s, hs, spawn_remembered (hstart.runGuarded (fun _ _ _ h => h) hs)⟩

/-- Two rats, both on their places. -/
def twoRats : Spawn :=
  (load lair 5
    [{ mType := "Rat", pos := lair, dir := .north, interval := 5000 },
      { mType := "Rat", pos := lair, dir := .north, interval := 8000 }] 0).startup
    fun _ => .placed lair false

/-- The first rat walks off and the second one dies. The first one is
replaced, and together with the one that has walked off there are two again. -/
def strayRun : List Action :=
  [.move 0 { x := 200, y := 100, z := 7 }, .removeCreature 1 false, .elapse 5000,
    .checkSpawn 1 .failed, .elapse 1400, .runTask 0 .failed, .elapse 1400, .runTask 0 .failed,
    .elapse 1400, .runTask 0 (.placed lair false), .elapse 800, .checkSpawn 1 .failed]

theorem second_rat_forgotten :
    ¬ ∀ s, (system fun _ => True).Reachable s → s.Remembered := by
  intro h
  have hrun : (TSys.runGuarded step (fun _ _ => True) twoRats strayRun).map
      (fun s => (s.checkSpawnEvent, s.spawnIds, s.monsterIds, s.chainIds)) =
        some (none, [1, 2], [0, 1], []) := by decide
  obtain ⟨s, hs, hstate⟩ := Option.map_eq_some_iff.mp hrun
  simp only [Prod.mk.injEq] at hstate
  obtain ⟨hevent, hids, hmonsters, hchains⟩ := hstate
  have hstart : (system fun _ => True).Reachable twoRats := .start ⟨lair, 5, _, 0, _, trivial, rfl⟩
  have hreach := hstart.runGuarded (fun _ _ _ h => h) hs
  have hkept := h s hreach hevent 2 (by rw [hids]; decide)
  rw [hmonsters, hchains] at hkept
  revert hkept
  decide

end Spawn

end Infernum.Spawning
