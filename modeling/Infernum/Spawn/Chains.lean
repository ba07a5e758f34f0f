import Infernum.Spawn.Spawn
import Mathlib.Data.List.Perm.Basic
import Mathlib.Data.List.Nodup
import Mathlib.Data.List.Induction

/-!
# At most one monster for every id

Monsters and announcements are counted together: a task hands its place on to
the monster, so an id never has more than one of them unless a check announces
an id whose chain of tasks has not ended.
-/

namespace Infernum.Spawning

open Lib

/-- A monster has been put on the map. -/
def Outcome.isPlaced : Outcome → Bool
  | .placed _ _ => true
  | _ => false

namespace Spawn

/-! ### What the operations do -/

/-- What a step is, with what it requires. -/
inductive Effect (s : Spawn) : Action → Spawn → Prop
  | elapse (ms : Nat) : Effect s (.elapse ms) { s with now := s.now + ms }
  | check (rate : UInt32) (outcome : Outcome) (due : Nat)
      (hdue : s.checkSpawnEvent = some due) (hnow : due ≤ s.now) :
      Effect s (.checkSpawn rate outcome) (s.checkSpawn rate outcome)
  | task (index : Nat) (outcome : Outcome) (task : SpawnTask)
      (htask : s.tasks[index]? = some task) :
      Effect s (.runTask index outcome)
        (scheduleSpawn { s with tasks := s.tasks.eraseIdx index } task.spawnId task.sb
          task.interval outcome)
  | remove (index : Nat) :
      Effect s (.removeCreature index false)
        (s.updateMonster index fun monster => { monster with removed := true }).startSpawnCheck
  | removeScripted (index : Nat) :
      Effect s (.removeCreature index true)
        (s.updateMonster index fun monster => { monster with removed := true })
  | move (index : Nat) (position : Position) :
      Effect s (.move index position)
        (s.updateMonster index fun monster => { monster with position := position })

theorem effect_of_step {s t : Spawn} {a : Action} (h : s.step a = some t) : s.Effect a t := by
  cases a with
  | elapse ms =>
      cases h
      exact .elapse ms
  | checkSpawn rate outcome =>
      rw [step] at h
      split at h
      · rename_i due hdue
        split at h
        · rename_i hnow
          cases h
          exact .check rate outcome due hdue hnow
        · cases h
      · cases h
  | runTask index outcome =>
      rw [step] at h
      split at h
      · rename_i task htask
        split at h
        · cases h
          exact .task index outcome task htask
        · cases h
      · cases h
  | removeCreature index scripted =>
      rw [step] at h
      split at h
      · split at h
        · cases h
        · cases h
          cases scripted with
          | true => exact .removeScripted index
          | false => exact .remove index
      · cases h
  | move index position =>
      rw [step] at h
      split at h
      · split at h
        · cases h
        · cases h
          exact .move index position
      · cases h

/-- The ids of the spawn. -/
def spawnIds (s : Spawn) : List Nat := s.spawnMap.map Prod.fst

/-- The ids with a monster, as often as they have one. -/
def monsterIds (s : Spawn) : List Nat := s.spawnedMap.map Prod.fst

/-- The ids with a pending task, as often as they have one. -/
def chainIds (s : Spawn) : List Nat := s.tasks.map SpawnTask.spawnId

/-- The monsters and the announcements of an id. -/
def claims (s : Spawn) (spawnId : Nat) : Nat :=
  s.monsterIds.count spawnId + s.chainIds.count spawnId

@[simp] theorem spawnIds_touch (s : Spawn) (spawnId : Nat) :
    (s.touch spawnId).spawnIds = s.spawnIds := by
  rw [spawnIds, touch, spawnIds, List.map_map]
  refine List.map_congr_left fun it _ => ?_
  show (if it.1 = spawnId then _ else it).1 = it.1
  split <;> rfl

theorem touches_eq (ids : List Nat) (s : Spawn) :
    ids.foldl touch s = { s with spawnMap := (ids.foldl touch s).spawnMap } ∧
      (ids.foldl touch s).spawnIds = s.spawnIds := by
  induction ids generalizing s with
  | nil => exact ⟨rfl, rfl⟩
  | cons id ids ih =>
      obtain ⟨heq, hids⟩ := ih (s.touch id)
      rw [List.foldl_cons]
      refine ⟨?_, hids.trans (spawnIds_touch s id)⟩
      rw [heq]
      rfl

theorem isSpawned_iff (s : Spawn) (spawnId : Nat) :
    s.isSpawned spawnId = true ↔ spawnId ∈ s.monsterIds := by
  rw [isSpawned, List.any_eq_true, monsterIds, List.mem_map]
  constructor
  · rintro ⟨it, hit, heq⟩
    exact ⟨it, hit, beq_iff_eq.mp heq⟩
  · rintro ⟨it, hit, heq⟩
    exact ⟨it, hit, beq_iff_eq.mpr heq⟩

@[simp] theorem monsterIds_updateMonster (s : Spawn) (index : Nat) (f : Monster → Monster) :
    (s.updateMonster index f).monsterIds = s.monsterIds := by
  rw [monsterIds, updateMonster, monsterIds]
  apply List.ext_getElem?
  intro k
  simp only [List.getElem?_map, List.getElem?_modify]
  split <;> cases s.spawnedMap[k]? <;> rfl

/-- What `spawnMonster` leaves of a spawn. -/
theorem spawnMonster_cases (s : Spawn) (spawnId : Nat) (sb : SpawnBlock) (outcome : Outcome) :
    (s.spawnMonster spawnId sb outcome).spawnIds = s.spawnIds ∧
    (s.spawnMonster spawnId sb outcome).tasks = s.tasks ∧
    (s.spawnMonster spawnId sb outcome).checkSpawnEvent = s.checkSpawnEvent ∧
    (s.spawnMonster spawnId sb outcome).interval = s.interval ∧
    (s.spawnMonster spawnId sb outcome).now = s.now ∧
    (s.spawnMonster spawnId sb outcome).monsterIds =
      s.monsterIds ++ (if outcome.isPlaced then [spawnId] else []) := by
  cases outcome with
  | vetoed => exact ⟨spawnIds_touch s spawnId, rfl, rfl, rfl, rfl, (List.append_nil _).symm⟩
  | failed => exact ⟨rfl, rfl, rfl, rfl, rfl, (List.append_nil _).symm⟩
  | placed position removed =>
      refine ⟨spawnIds_touch _ spawnId, rfl, rfl, rfl, rfl, ?_⟩
      exact List.map_append

theorem scheduleSpawn_of_pos {interval : UInt16} (h : ¬interval ≤ 0) (s : Spawn) (spawnId : Nat)
    (sb : SpawnBlock) (outcome : Outcome) :
    s.scheduleSpawn spawnId sb interval outcome =
      { s with
        tasks := s.tasks ++
          [{ due := s.now + 1400, spawnId := spawnId, sb := sb, interval := interval - 1400 }] } :=
  if_neg h

/-- The ids without a monster whose time has come, at most `rate` of them. -/
def announced (s : Spawn) (rate : Nat) : List (Nat × SpawnBlock) :=
  (s.spawnMap.filter fun it =>
    !s.isSpawned it.1 && decide (it.2.lastSpawn + it.2.interval ≤ s.now)).take (max 1 rate)

/-- The task that announces an id. -/
def announcement (now : Nat) (it : Nat × SpawnBlock) : SpawnTask :=
  { due := now + 1400, spawnId := it.1, sb := it.2, interval := 3 * 1400 - 1400 }

/-- The loop of the check announces ids, and does nothing else. -/
theorem checkLoop_eq (rate : UInt32) (outcome : Outcome) (blocks : List (Nat × SpawnBlock))
    (spawnCount : Nat) (s : Spawn) :
    checkLoop rate outcome blocks spawnCount s =
      { s with
        tasks := s.tasks ++ (((blocks.filter fun it =>
          !s.isSpawned it.1 && decide (it.2.lastSpawn + it.2.interval ≤ s.now)).take
            (max 1 (rate.toNat - spawnCount))).map (announcement s.now)) } := by
  induction blocks generalizing spawnCount s with
  | nil => rw [checkLoop, List.filter_nil, List.take_nil, List.map_nil, List.append_nil]
  | cons it rest ih =>
      rw [checkLoop, List.filter_cons]
      by_cases hspawned : s.isSpawned it.1 = true
      · rw [if_pos hspawned, ih, hspawned]
        rfl
      · rw [if_neg hspawned]
        rw [Bool.not_eq_true] at hspawned
        by_cases hdue : it.2.lastSpawn + it.2.interval ≤ s.now
        · rw [if_pos hdue, scheduleSpawn_of_pos (by decide), hspawned, decide_eq_true hdue]
          simp only [Bool.not_false, Bool.and_self, if_true]
          by_cases hfull : rate.toNat ≤ spawnCount + 1
          · rw [if_pos hfull, show max 1 (rate.toNat - spawnCount) = 0 + 1 by omega,
              List.take_succ_cons, List.take_zero, List.map_singleton]
            rfl
          · rw [if_neg hfull, ih, show max 1 (rate.toNat - spawnCount) =
                max 1 (rate.toNat - (spawnCount + 1)) + 1 by omega,
              List.take_succ_cons, List.map_cons, List.append_assoc]
            rfl
        · rw [if_neg hdue, ih, hspawned, decide_eq_false hdue]
          rfl

/-- What `cleanup` leaves: the ids, the tasks and the clock; an id other than 0
never has more monsters than before. -/
theorem cleanup_eq (s : Spawn) :
    s.cleanup =
      { s with
        spawnMap := s.cleanup.spawnMap
        spawnedMap := s.spawnedMap.filterMap s.cleanupEntry } := by
  have htouch := (touches_eq
    ((s.spawnedMap.filter fun it => it.2.removed && it.1 ≠ 0).map Prod.fst) s).1
  rw [cleanup, htouch]

theorem spawnIds_cleanup (s : Spawn) : s.cleanup.spawnIds = s.spawnIds :=
  (touches_eq _ s).2

theorem cleanupEntry_fst {s : Spawn} {it it' : Nat × Monster}
    (h : s.cleanupEntry it = some it') : it'.1 = it.1 ∨ it'.1 = 0 := by
  rw [cleanupEntry] at h
  split at h
  · cases h
  · split at h
    · cases h
      exact .inr rfl
    · cases h
      exact .inl rfl

theorem count_filterMap_le (s : Spawn) {spawnId : Nat} (hid : spawnId ≠ 0)
    (entries : List (Nat × Monster)) :
    ((entries.filterMap s.cleanupEntry).map Prod.fst).count spawnId ≤
      (entries.map Prod.fst).count spawnId := by
  induction entries with
  | nil => exact Nat.le_refl _
  | cons it entries ih =>
      rw [List.map_cons, List.count_cons]
      cases hentry : s.cleanupEntry it with
      | none =>
          rw [List.filterMap_cons_none hentry]
          omega
      | some it' =>
          rw [List.filterMap_cons_some hentry, List.map_cons, List.count_cons]
          rcases cleanupEntry_fst hentry with hsame | hzero
          · rw [hsame]
            omega
          · rw [hzero, if_neg (by simpa using hid.symm)]
            omega

theorem count_monsterIds_cleanup_le (s : Spawn) {spawnId : Nat} (hid : spawnId ≠ 0) :
    s.cleanup.monsterIds.count spawnId ≤ s.monsterIds.count spawnId :=
  count_filterMap_le s hid s.spawnedMap

theorem announced_sublist (s : Spawn) (rate : Nat) :
    ((s.announced rate).map Prod.fst).Sublist s.spawnIds :=
  ((List.take_sublist _ _).trans List.filter_sublist).map Prod.fst

theorem not_mem_of_announced {s : Spawn} {rate : Nat} {it : Nat × SpawnBlock}
    (h : it ∈ s.announced rate) : it.1 ∉ s.monsterIds := by
  have hfilter := List.mem_filter.mp ((List.take_sublist _ _).subset h)
  intro hmem
  rw [(isSpawned_iff s it.1).mpr hmem] at hfilter
  exact absurd hfilter.2 (by simp)

/-- The spawn as the check has tidied it. -/
def tidied (s : Spawn) : Spawn := cleanup { s with checkSpawnEvent := none }

theorem tidied_eq (s : Spawn) :
    s.tidied =
      { s with
        checkSpawnEvent := none
        spawnMap := s.tidied.spawnMap
        spawnedMap := s.spawnedMap.filterMap s.cleanupEntry } :=
  cleanup_eq { s with checkSpawnEvent := none }

@[simp] theorem tidied_tasks (s : Spawn) : s.tidied.tasks = s.tasks := by
  rw [tidied_eq]

@[simp] theorem tidied_now (s : Spawn) : s.tidied.now = s.now := by
  rw [tidied_eq]

@[simp] theorem tidied_interval (s : Spawn) : s.tidied.interval = s.interval := by
  rw [tidied_eq]

@[simp] theorem tidied_event (s : Spawn) : s.tidied.checkSpawnEvent = none := by
  rw [tidied_eq]

@[simp] theorem spawnIds_tidied (s : Spawn) : s.tidied.spawnIds = s.spawnIds :=
  spawnIds_cleanup { s with checkSpawnEvent := none }

/-- The check tidies up, announces ids, and waits for its next time unless
there are as many entries as ids. -/
theorem checkSpawn_eq (s : Spawn) (rate : UInt32) (outcome : Outcome) :
    s.checkSpawn rate outcome =
      { s.tidied with
        tasks := s.tidied.tasks ++
          (s.tidied.announced rate.toNat).map (announcement s.tidied.now)
        checkSpawnEvent :=
          if s.tidied.spawnedMap.length < s.tidied.spawnMap.length then
            some (s.tidied.now + s.tidied.interval)
          else none } := by
  have hloop := checkLoop_eq rate outcome s.tidied.spawnMap 0 s.tidied
  have hcheck : s.checkSpawn rate outcome =
      (let t := checkLoop rate outcome s.tidied.spawnMap 0 s.tidied
      if t.spawnedMap.length < t.spawnMap.length then
        { t with checkSpawnEvent := some (t.now + t.interval) }
      else t) := rfl
  have hidle : ∀ t : Spawn, t.checkSpawnEvent = none → t = { t with checkSpawnEvent := none } := by
    intro t h
    rw [← h]
  rw [hcheck, hloop]
  by_cases hmissing : s.tidied.spawnedMap.length < s.tidied.spawnMap.length
  · rw [if_pos hmissing]
    simp only [if_pos hmissing]
    rfl
  · rw [if_neg hmissing]
    simp only [if_neg hmissing]
    exact hidle _ (tidied_event s)

/-! ### One claim for every id -/

/-- The invariant: ids are told apart, and none of them is claimed twice. -/
structure Single (s : Spawn) : Prop where
  nodup : s.spawnIds.Nodup
  one : ∀ spawnId, spawnId ≠ 0 → s.claims spawnId ≤ 1

theorem count_one (spawnId id : Nat) :
    ([id] : List Nat).count spawnId = if id = spawnId then 1 else 0 := by
  rw [List.count_singleton]
  simp only [beq_iff_eq]

/-- A task that runs has one claim to hand on. -/
theorem claims_scheduleSpawn_le (s : Spawn) (id : Nat) (sb : SpawnBlock) (interval : UInt16)
    (outcome : Outcome) (spawnId : Nat) :
    (s.scheduleSpawn id sb interval outcome).claims spawnId ≤
      s.claims spawnId + if id = spawnId then 1 else 0 := by
  have hone := count_one spawnId id
  by_cases hlast : interval ≤ 0
  · rw [scheduleSpawn, if_pos hlast]
    obtain ⟨-, htasks, -, -, -, hmonsters⟩ := spawnMonster_cases s id sb outcome
    rw [claims, hmonsters, chainIds, htasks, List.count_append, claims, chainIds]
    split
    · omega
    · rw [List.count_nil]
      omega
  · rw [scheduleSpawn_of_pos hlast, claims, claims, chainIds, List.map_append, List.count_append]
    show s.monsterIds.count spawnId + (s.chainIds.count spawnId + [id].count spawnId) ≤ _
    omega

theorem claims_eraseIdx (s : Spawn) {index : Nat} {task : SpawnTask}
    (h : s.tasks[index]? = some task) (spawnId : Nat) :
    claims { s with tasks := s.tasks.eraseIdx index } spawnId +
      (if task.spawnId = spawnId then 1 else 0) = s.claims spawnId := by
  obtain ⟨hlt, hget⟩ := List.getElem?_eq_some_iff.mp h
  have hperm := (List.getElem_cons_eraseIdx_perm hlt).map SpawnTask.spawnId
  have hcount := hperm.count_eq spawnId
  rw [List.map_cons, List.count_cons, hget] at hcount
  rw [claims, claims, chainIds, chainIds, ← hcount]
  simp only [beq_iff_eq]
  exact Nat.add_assoc _ _ _

/-- A check announces an id only if no task for it is pending. -/
def NoSecondChain (s : Spawn) : Action → Prop
  | .checkSpawn rate _ => ∀ it ∈ s.tidied.announced rate.toNat, it.1 ∉ s.chainIds
  | _ => True

theorem Single.checkSpawn {s : Spawn} (h : s.Single) {rate : UInt32} {outcome : Outcome}
    (hguard : s.NoSecondChain (.checkSpawn rate outcome)) :
    (s.checkSpawn rate outcome).Single := by
  have hnew : ∀ spawnId, (s.checkSpawn rate outcome).claims spawnId =
      s.tidied.monsterIds.count spawnId + s.chainIds.count spawnId +
        ((s.tidied.announced rate.toNat).map Prod.fst).count spawnId := by
    intro spawnId
    rw [checkSpawn_eq, claims, chainIds, List.map_append, List.map_map, List.count_append,
      tidied_tasks, ← Nat.add_assoc]
    rfl
  refine ⟨?_, ?_⟩
  · rw [checkSpawn_eq]
    show s.tidied.spawnIds.Nodup
    rw [spawnIds_tidied]
    exact h.nodup
  · intro spawnId hid
    have hone := h.one spawnId hid
    have hless := count_monsterIds_cleanup_le { s with checkSpawnEvent := none } hid
    rw [hnew]
    by_cases hmem : spawnId ∈ (s.tidied.announced rate.toNat).map Prod.fst
    · -- The id has neither a monster nor a task, and it is announced once.
      obtain ⟨it, hit, rfl⟩ := List.mem_map.mp hmem
      have hchain := hguard it hit
      have hmonster := not_mem_of_announced hit
      have hnodup : ((s.tidied.announced rate.toNat).map Prod.fst).Nodup :=
        (announced_sublist s.tidied rate.toNat).nodup (by rw [spawnIds_tidied]; exact h.nodup)
      refine Nat.le_of_eq ?_
      rw [List.count_eq_zero_of_not_mem hchain, List.count_eq_zero_of_not_mem hmonster,
        List.count_eq_one_of_mem hnodup hmem]
    · rw [List.count_eq_zero_of_not_mem hmem]
      exact Nat.le_trans (Nat.add_le_add_right hless _) hone

theorem Single.congr {s t : Spawn} (h : s.Single) (hids : t.spawnIds = s.spawnIds)
    (hmonsters : t.monsterIds = s.monsterIds) (htasks : t.tasks = s.tasks) : t.Single := by
  refine ⟨hids ▸ h.nodup, fun spawnId hid => ?_⟩
  rw [claims, hmonsters, chainIds, htasks]
  exact h.one spawnId hid

theorem Single.startSpawnCheck {s : Spawn} (h : s.Single) : s.startSpawnCheck.Single := by
  rw [Spawn.startSpawnCheck]
  split
  · exact h.congr rfl rfl rfl
  · exact h

theorem Single.updateMonster {s : Spawn} (h : s.Single) (index : Nat) (f : Monster → Monster) :
    (s.updateMonster index f).Single :=
  h.congr rfl (monsterIds_updateMonster s index f) rfl

theorem Single.scheduleSpawn {s : Spawn} (h : s.Single) {index : Nat} {task : SpawnTask}
    (htask : s.tasks[index]? = some task) (outcome : Outcome) :
    (Spawn.scheduleSpawn { s with tasks := s.tasks.eraseIdx index } task.spawnId task.sb
      task.interval outcome).Single := by
  refine ⟨?_, ?_⟩
  · have hids : (Spawn.scheduleSpawn { s with tasks := s.tasks.eraseIdx index } task.spawnId
        task.sb task.interval outcome).spawnIds = s.spawnIds := by
      rw [Spawn.scheduleSpawn]
      split
      · exact (spawnMonster_cases _ _ _ _).1
      · rfl
    rw [hids]
    exact h.nodup
  · intro spawnId hid
    have hle := claims_scheduleSpawn_le { s with tasks := s.tasks.eraseIdx index } task.spawnId
      task.sb task.interval outcome spawnId
    rw [claims_eraseIdx s htask spawnId] at hle
    exact Nat.le_trans hle (h.one spawnId hid)

theorem Single.step {s t : Spawn} (h : s.Single) {a : Action} (hguard : s.NoSecondChain a)
    (hstep : s.step a = some t) : t.Single := by
  cases effect_of_step hstep with
  | elapse ms => exact h.congr rfl rfl rfl
  | check rate outcome due hdue hnow => exact h.checkSpawn hguard
  | task index outcome task htask => exact h.scheduleSpawn htask outcome
  | remove index => exact (h.updateMonster index _).startSpawnCheck
  | removeScripted index => exact h.updateMonster index _
  | move index position => exact h.updateMonster index _

/-! ### The start -/

theorem addMonster_spawnIds (s : Spawn) (mType : String) (pos : Position) (dir : Direction)
    (interval : Nat) :
    (s.addMonster mType pos dir interval).spawnIds = s.spawnIds ++ [s.spawnMap.length + 1] := by
  rw [spawnIds, addMonster, List.map_append]
  rfl

/-- Ids are given in order, from 1 on. -/
theorem load_spawnIds (centerPos : Position) (radius : Int) (nodes : List MonsterNode)
    (now : Nat) :
    (load centerPos radius nodes now).spawnIds = List.range' 1 nodes.length ∧
      (load centerPos radius nodes now).spawnedMap = [] ∧
      (load centerPos radius nodes now).tasks = [] ∧
      (load centerPos radius nodes now).checkSpawnEvent = none := by
  induction nodes using List.reverseRecOn with
  | nil => exact ⟨rfl, rfl, rfl, rfl⟩
  | append_singleton nodes node ih =>
      obtain ⟨hids, hspawned, htasks, hevent⟩ := ih
      have hlen := congrArg List.length hids
      rw [spawnIds, List.length_map, List.length_range'] at hlen
      rw [load, List.foldl_append, List.foldl_cons, List.foldl_nil]
      refine ⟨?_, hspawned, htasks, hevent⟩
      rw [addMonster_spawnIds]
      show spawnIds (load centerPos radius nodes now) ++
        [(load centerPos radius nodes now).spawnMap.length + 1] = _
      rw [hids, hlen, List.length_append, List.length_singleton, List.range'_concat, Nat.one_mul,
        Nat.add_comm 1]

/-- The placements one after the other. -/
theorem foldl_spawnMonster (outcome : Nat → Outcome) (blocks : List (Nat × SpawnBlock))
    (s : Spawn) :
    (blocks.foldl (fun s it => s.spawnMonster it.1 it.2 (outcome it.1)) s).spawnIds =
        s.spawnIds ∧
    (blocks.foldl (fun s it => s.spawnMonster it.1 it.2 (outcome it.1)) s).tasks = s.tasks ∧
    (blocks.foldl (fun s it => s.spawnMonster it.1 it.2 (outcome it.1)) s).checkSpawnEvent =
      s.checkSpawnEvent ∧
    (blocks.foldl (fun s it => s.spawnMonster it.1 it.2 (outcome it.1)) s).monsterIds =
      s.monsterIds ++ (blocks.map Prod.fst).filter fun id => (outcome id).isPlaced := by
  induction blocks generalizing s with
  | nil => exact ⟨rfl, rfl, rfl, (List.append_nil _).symm⟩
  | cons it blocks ih =>
      obtain ⟨hids, htasks, hevent, hmonsters⟩ := ih (s.spawnMonster it.1 it.2 (outcome it.1))
      obtain ⟨hids', htasks', hevent', -, -, hmonsters'⟩ :=
        spawnMonster_cases s it.1 it.2 (outcome it.1)
      rw [List.foldl_cons]
      refine ⟨hids.trans hids', htasks.trans htasks', hevent.trans hevent', ?_⟩
      rw [hmonsters, hmonsters', List.map_cons, List.filter_cons, List.append_assoc]
      congr 1
      split <;> rfl

/-- At the start there is at most one monster for every id, no task and no
pending check. -/
theorem startup_spec {centerPos : Position} {radius : Int} {nodes : List MonsterNode} {now : Nat}
    {outcome : Nat → Outcome} {s : Spawn}
    (hs : s = (load centerPos radius nodes now).startup outcome) :
    s.spawnIds = List.range' 1 nodes.length ∧ s.tasks = [] ∧ s.checkSpawnEvent = none ∧
      s.monsterIds = (List.range' 1 nodes.length).filter fun id => (outcome id).isPlaced := by
  obtain ⟨hids, hspawned, htasks, hevent⟩ := load_spawnIds centerPos radius nodes now
  obtain ⟨hids', htasks', hevent', hmonsters⟩ := foldl_spawnMonster outcome
    (load centerPos radius nodes now).spawnMap (load centerPos radius nodes now)
  rw [hs]
  refine ⟨hids'.trans hids, htasks'.trans htasks, hevent'.trans hevent, hmonsters.trans ?_⟩
  rw [monsterIds, hspawned]
  show [] ++ List.filter _ (load centerPos radius nodes now).spawnIds = _
  rw [hids, List.nil_append]

theorem Single.init {Startup : (Nat → Outcome) → Prop} {s : Spawn}
    (hs : (system Startup).init s) : s.Single := by
  obtain ⟨centerPos, radius, nodes, now, outcome, -, hs⟩ := hs
  obtain ⟨hids, htasks, -, hmonsters⟩ := startup_spec hs
  have hnodup : (List.range' 1 nodes.length).Nodup := List.nodup_range'
  refine ⟨hids ▸ hnodup, fun spawnId _ => ?_⟩
  rw [claims, hmonsters, chainIds, htasks, List.map_nil, List.count_nil]
  exact List.nodup_iff_count_le_one.mp (hnodup.filter _) spawnId

theorem single_inductive (Startup : (Nat → Outcome) → Prop) :
    (system Startup).Inductive NoSecondChain Single where
  init _ hs := Single.init hs
  step _ _ _ h hguard hstep := h.step hguard hstep

/-! ### Living monsters in the zone -/

/-- The monsters under an id that are alive and in the zone. -/
def present (s : Spawn) (spawnId : Nat) : Nat :=
  s.spawnedMap.countP fun it =>
    it.1 == spawnId && !it.2.removed && s.isInSpawnZone it.2.position

/-- No id but 0 has more than one monster alive and in the zone. -/
def AtMostOne (s : Spawn) : Prop :=
  ∀ spawnId, spawnId ≠ 0 → s.present spawnId ≤ 1

theorem present_le (s : Spawn) (spawnId : Nat) :
    s.present spawnId ≤ s.monsterIds.count spawnId := by
  rw [monsterIds, List.count, List.countP_map]
  refine List.countP_mono_left fun it _ h => ?_
  simp only [Bool.and_eq_true] at h
  exact h.1.1

theorem Single.atMostOne {s : Spawn} (h : s.Single) : s.AtMostOne := by
  intro spawnId hid
  have hone := h.one spawnId hid
  have hle := present_le s spawnId
  rw [claims] at hone
  omega

instance (s : Spawn) (a : Action) : Decidable (s.NoSecondChain a) :=
  match a with
  | .checkSpawn rate _ =>
      inferInstanceAs (Decidable (∀ it ∈ s.tidied.announced rate.toNat, it.1 ∉ s.chainIds))
  | .elapse _ | .runTask _ _ | .removeCreature _ _ | .move _ _ => .isTrue trivial

/-- In every run in which no check announces an id whose chain of tasks is
pending, no id has two monsters alive and in the zone. -/
theorem one_monster_per_id {s : Spawn}
    (h : (system fun _ => True).Reach NoSecondChain s) : s.AtMostOne :=
  ((single_inductive _).invariant h).atMostOne

def lair : Position := { x := 100, y := 100, z := 7 }

/-- A spawn with one rat, which is on its place. -/
def ratSpawn (interval : Nat) : Spawn :=
  (load lair 5 [{ mType := "Rat", pos := lair, dir := .north, interval := interval }] 0).startup
    fun _ => .placed lair false

theorem reach_ratSpawn (interval : Nat) (C : Spawn → Action → Prop) :
    (system fun _ => True).Reach C (ratSpawn interval) :=
  .start ⟨lair, 5, _, 0, _, trivial, rfl⟩

/-- A rat dies and comes back, with checks five seconds apart. -/
def slowRun : List Action :=
  [.removeCreature 0 false, .elapse 5000, .checkSpawn 1 .failed, .elapse 5000,
    .checkSpawn 1 .failed, .elapse 1400, .runTask 0 .failed, .elapse 1400, .runTask 0 .failed,
    .elapse 1400, .runTask 0 (.placed lair false), .elapse 800, .checkSpawn 1 .failed]

theorem one_rat : ∃ s, TSys.runGuarded step NoSecondChain (ratSpawn 5000) slowRun = some s ∧
    s.present 1 = 1 ∧ s.AtMostOne := by
  have hrun : (TSys.runGuarded step NoSecondChain (ratSpawn 5000) slowRun).map
      (fun s => s.present 1) = some 1 := by decide
  obtain ⟨s, hs, hone⟩ := Option.map_eq_some_iff.mp hrun
  exact ⟨s, hs, hone,
    one_monster_per_id ((reach_ratSpawn 5000 _).runGuarded (fun _ _ _ h => h) hs)⟩

/-- A rat dies, and checks two seconds apart announce it twice before the
first chain has ended. -/
def quickRun : List Action :=
  [.removeCreature 0 false, .elapse 2000, .checkSpawn 1 .failed, .elapse 2000,
    .checkSpawn 1 .failed, .elapse 1400, .runTask 0 .failed, .elapse 600, .checkSpawn 1 .failed,
    .elapse 800, .runTask 0 .failed, .elapse 600, .runTask 0 .failed,
    .elapse 800, .runTask 0 (.placed lair false), .elapse 600, .runTask 0 .failed,
    .elapse 1400, .runTask 0 (.placed lair false)]

theorem two_rats : ¬ ∀ s, (system fun _ => True).Reachable s → s.AtMostOne := by
  intro h
  have hrun : (TSys.runGuarded step (fun _ _ => True) (ratSpawn 2000) quickRun).map
      (fun s => s.present 1) = some 2 := by decide
  obtain ⟨s, hs, htwo⟩ := Option.map_eq_some_iff.mp hrun
  have hreach := (reach_ratSpawn 2000 _).runGuarded (fun _ _ _ h => h) hs
  have hone := h s hreach 1 (by decide)
  omega

end Spawn

end Infernum.Spawning
