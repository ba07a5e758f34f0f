import Infernum.Database.StaleRows
import Infernum.Login.PlayerItems

/-!
# Saving a player

`IOLoginData::savePlayer`: the player's row is updated and the rows of the other
tables are deleted and written again, in one transaction. The tables hold the
rows of this player only.
-/

namespace Infernum.IOLoginData

open Infernum.Database Infernum.Lib.Sql

/-! ## The database -/

/-- A value of a column. -/
inductive Value where
  | number (n : Int)
  | blob (bytes : List UInt8)
  deriving DecidableEq, Repr

/-- The number of a column, as `DBResult::getNumber` reads it. -/
def Value.getNumber : Value → Int
  | .number n => n
  | .blob _ => 0

/-- A row of `players`, by the names of the columns. -/
abbrev Columns := String → Value

/-- What `SET` does with a column. -/
inductive Assignment where
  | set (v : Value)
  | add (n : Int)
  deriving DecidableEq, Repr

/-- `SET`, with each column at most once. -/
def setColumns (assignments : List (String × Assignment)) (columns : Columns) : Columns :=
  fun name =>
    match assignments.lookup name with
    | some (.set v) => v
    | some (.add n) => .number ((columns name).getNumber + n)
    | none => columns name

/-- The other tables. -/
inductive PlayerTable where
  | spells
  | items
  | depotitems
  | inboxitems
  | storage
  deriving DecidableEq, Repr

/-- A row of one of the other tables. -/
def PlayerTable.Row : PlayerTable → Type
  | .spells => String
  | .items => IOLoginData.Row
  | .depotitems => IOLoginData.Row
  | .inboxitems => IOLoginData.Row
  | .storage => Nat × Int

/-- The rows of a player. -/
abbrev PlayerRows := Rows Unit Columns PlayerTable PlayerTable.Row

/-! ## The player -/

/-- `Skulls_t`. -/
inductive Skulls where
  | none
  | yellow
  | green
  | white
  | red
  | black
  | orange
  deriving DecidableEq, Repr

/-- The level and the tries of a skill. -/
structure Skill where
  level : Nat
  tries : Nat

structure Outfit where
  lookBody : Nat
  lookFeet : Nat
  lookHead : Nat
  lookLegs : Nat
  lookType : Nat
  lookAddons : Nat

structure OutfitEntry where
  lookType : BitVec 16
  addons : BitVec 8

/-- What a save reads of a `Player`. -/
structure Player where
  level : Nat
  groupId : Nat
  vocationId : Nat
  health : Int
  healthMax : Int
  /-- `getMaxHealth()`, which counts the equipment in -/
  maxHealth : Int
  experience : Nat
  defaultOutfit : Outfit
  magLevel : Nat
  mana : Nat
  manaMax : Nat
  manaSpent : Nat
  soul : Nat
  townId : Nat
  loginPosition : Nat × Nat × Nat
  capacity : Nat
  sex : Nat
  lastLoginSaved : Int
  lastIP : Nat
  /-- the persistent conditions, serialized -/
  conditions : List UInt8
  skullTicks : Int
  skull : Skulls
  lastLogout : Int
  bankBalance : Nat
  offlineTrainingTime : Int
  offlineTrainingSkill : Int
  staminaMinutes : Nat
  skillFist : Skill
  skillClub : Skill
  skillSword : Skill
  skillAxe : Skill
  skillDistance : Skill
  skillShield : Skill
  skillFishing : Skill
  isOffline : Bool
  blessings : Nat
  learnedInstantSpellList : List String
  playerItems : PlayerItems
  lastDepotId : Int
  /-- a `std::map` -/
  storageMap : List (Nat × Int)
  outfits : List OutfitEntry

/-- What a save reads besides the player. -/
structure Environment where
  world : World
  packets : Packets PlayerTable.Row
  /-- `getWorldType() == WORLD_TYPE_PVP_ENFORCED` -/
  pvpEnforced : Bool
  /-- `time(nullptr)` -/
  time : Int

variable (env : Environment)

/-- `Creature::changeHealth`. -/
def Player.changeHealth (p : Player) (healthChange : Int) : Player :=
  if 0 < healthChange then
    { p with health := p.health + min healthChange (p.maxHealth - p.health) }
  else { p with health := max 0 (p.health + healthChange) }

/-- `storageMap[key] = value`. -/
def setStorage (key : Nat) (value : Int) : List (Nat × Int) → List (Nat × Int)
  | [] => [(key, value)]
  | e :: m =>
      if key < e.1 then (key, value) :: e :: m
      else if e.1 = key then (key, value) :: m
      else e :: setStorage key value m

def PSTRG_OUTFITS_RANGE_START : Nat := 10000000 + 1000

/-- The storage value of an outfit. -/
def OutfitEntry.value (entry : OutfitEntry) : BitVec 32 :=
  (entry.lookType.setWidth 32 <<< 16) ||| entry.addons.setWidth 32

/-- `Player::genReservedStorageRange`. -/
def genReservedStorageRange (p : Player) : List (Nat × Int) :=
  (p.outfits.zipIdx (PSTRG_OUTFITS_RANGE_START + 1)).foldl
    (fun m e => setStorage e.2 e.1.value.toInt m) p.storageMap

/-- The columns of a skill. -/
def skillColumns (level tries : String) (s : Skill) : List (String × Assignment) :=
  [(level, .set (.number s.level)), (tries, .set (.number s.tries))]

/-- The columns that `savePlayer` sets. -/
def playerColumns (p : Player) : List (String × Assignment) :=
  let n := fun (name : String) (n : Int) => (name, Assignment.set (.number n))
  let outfit := p.defaultOutfit
  [n "level" p.level, n "group_id" p.groupId, n "vocation" p.vocationId, n "health" p.health,
    n "healthmax" p.healthMax, n "experience" p.experience, n "lookbody" outfit.lookBody,
    n "lookfeet" outfit.lookFeet, n "lookhead" outfit.lookHead, n "looklegs" outfit.lookLegs,
    n "looktype" outfit.lookType, n "lookaddons" outfit.lookAddons, n "maglevel" p.magLevel,
    n "mana" p.mana, n "manamax" p.manaMax, n "manaspent" p.manaSpent, n "soul" p.soul,
    n "town_id" p.townId, n "posx" p.loginPosition.1, n "posy" p.loginPosition.2.1,
    n "posz" p.loginPosition.2.2, n "cap" (p.capacity / 100 : Nat), n "sex" p.sex] ++
  (if p.lastLoginSaved ≠ 0 then [n "lastlogin" p.lastLoginSaved] else []) ++
  (if p.lastIP ≠ 0 then [n "lastip" p.lastIP] else []) ++
  [("conditions", .set (.blob p.conditions))] ++
  (if !env.pvpEnforced then
    [n "skulltime"
      (if 0 < p.skullTicks then (BitVec.ofInt 32 (env.time + p.skullTicks.tdiv 1000)).toInt else 0),
     n "skull" (match p.skull with
      | .red => 4
      | .black => 5
      | _ => 0)]
  else []) ++
  [n "lastlogout" p.lastLogout, n "balance" p.bankBalance,
    n "offlinetraining_time" (p.offlineTrainingTime.tdiv 1000),
    n "offlinetraining_skill" p.offlineTrainingSkill, n "stamina" p.staminaMinutes] ++
  skillColumns "skill_fist" "skill_fist_tries" p.skillFist ++
  skillColumns "skill_club" "skill_club_tries" p.skillClub ++
  skillColumns "skill_sword" "skill_sword_tries" p.skillSword ++
  skillColumns "skill_axe" "skill_axe_tries" p.skillAxe ++
  skillColumns "skill_dist" "skill_dist_tries" p.skillDistance ++
  skillColumns "skill_shielding" "skill_shielding_tries" p.skillShield ++
  skillColumns "skill_fishing" "skill_fishing_tries" p.skillFishing ++
  (if !p.isOffline then [("onlinetime", .add (env.time - p.lastLoginSaved))] else []) ++
  [n "blessings" p.blessings]

/-- The columns of a player that is not to be saved. -/
def loginColumns (p : Player) : List (String × Assignment) :=
  [("lastlogin", .set (.number p.lastLoginSaved)), ("lastip", .set (.number p.lastIP))]

/-- The new rows of a table. -/
def Player.tableRows (p : Player) : (t : PlayerTable) → List t.Row
  | .spells => p.learnedInstantSpellList
  | .items => saveItems env.world p.playerItems.inventoryList
  | .depotitems => saveItems env.world p.playerItems.depotList
  | .inboxitems => saveItems env.world p.playerItems.inboxList
  | .storage => genReservedStorageRange p

/-- The tables that are written; the depot only if it was opened. -/
def Player.savedTables (p : Player) : List PlayerTable :=
  [.spells, .items] ++ (if p.lastDepotId ≠ -1 then [.depotitems] else []) ++ [.inboxitems, .storage]

/-- A dead player is saved with a little health. -/
def Player.alive (p : Player) : Player := if p.health ≤ 0 then p.changeHealth 1 else p

/-- `IOLoginData::savePlayer`. -/
def savePlayer (p : Player) : Op PlayerRows := fun c =>
  let p := p.alive
  let r := storeQuery (fun s => s.row ()) c
  match r.1 with
  | none => (false, r.2)
  | some result =>
      if (result "save").getNumber = 0 then execute (.update () (setColumns (loginColumns p))) r.2
      else
        withTransaction (checkAll
          (execute (.update () (setColumns (playerColumns env p))) ::
            p.savedTables.map fun t => replaceTable env.packets t (p.tableRows env t))) r.2

/-! ## The new rows -/

/-- The rows of the new state: a player whose `save` is zero keeps everything but
the last login. -/
def Player.newRows (p : Player) (old : PlayerRows) : PlayerRows :=
  match old.row () with
  | none => old
  | some result =>
      if (result "save").getNumber = 0 then
        { old with row := fun _ => some (setColumns (loginColumns p) result) }
      else
        { row := fun _ => some (setColumns (playerColumns env p) result)
          table := fun t => if t ∈ p.savedTables then p.tableRows env t else old.table t }

/-- The steps of `savePlayer`. -/
def Player.steps (p : Player) : List (Step Unit Columns PlayerTable PlayerTable.Row) :=
  .must (.update () (setColumns (playerColumns env p))) ::
    p.savedTables.flatMap fun t => replaceSteps env.packets t (p.tableRows env t)

/-- `savePlayer` as a script. -/
theorem savePlayer_script (p : Player) :
    withTransaction (checkAll
      (execute (.update () (setColumns (playerColumns env p))) ::
        p.savedTables.map fun t => replaceTable env.packets t (p.tableRows env t))) =
      script (p.steps env) := by
  simp only [replaceTable_eq]
  have hflatten := checkAll_flatten
    ([execute (.update () (setColumns (playerColumns env p)))] ::
      p.savedTables.map fun t =>
        (replaceSteps env.packets t (p.tableRows env t)).map
          (Step.op (K := Unit) (V := Columns)))
  rw [List.map_cons, checkAll_singleton, List.map_map, List.flatten_cons] at hflatten
  rw [script, Player.steps, List.map_cons, List.map_flatMap]
  exact congrArg withTransaction hflatten

/-! ## All or nothing -/

/-- The tables are written once. -/
theorem Player.savedTables_nodup (p : Player) : p.savedTables.Nodup := by
  rw [Player.savedTables]
  split
  · decide
  · decide

/-- Only the first step is about the player's row. -/
theorem Player.mem_steps (p : Player) {x : Step Unit Columns PlayerTable PlayerTable.Row}
    (h : x ∈ p.steps env) :
    x = .must (.update () (setColumns (playerColumns env p))) ∨ x.keys = [] ∧ x.selects = [] := by
  rcases List.mem_cons.mp h with hupdate | hmem
  · exact .inl hupdate
  · obtain ⟨t, -, hmem⟩ := List.mem_flatMap.mp hmem
    rcases mem_replaceSteps hmem with rfl | ⟨ch, -, rfl⟩
    · exact .inr ⟨rfl, rfl⟩
    · exact .inr ⟨rfl, rfl⟩

theorem Player.steps_replaces (p : Player) : Replaces (p.steps env) where
  first := ⟨_, rfl, .inl ⟨(), _, rfl⟩⟩
  apart := by
    refine List.pairwise_cons.mpr ⟨fun y hy => ?_,
      replaceTables_apart env.packets (p.tableRows env) p.savedTables_nodup⟩
    obtain ⟨t, -, hy⟩ := List.mem_flatMap.mp hy
    rcases mem_replaceSteps hy with rfl | ⟨ch, -, rfl⟩
    · exact ⟨fun key _ h => (nomatch h), fun t h => nomatch h⟩
    · exact ⟨fun key _ h => (nomatch h), fun t h => nomatch h⟩
  nonempty t rows h := by
    rcases List.mem_cons.mp h with hupdate | hmem
    · cases hupdate
    · obtain ⟨t', -, hmem⟩ := List.mem_flatMap.mp hmem
      rcases mem_replaceSteps hmem with hdelete | ⟨ch, hch, hinsert⟩
      · cases hdelete
      · cases hinsert
        exact hch

/-- The script ends in the new rows. -/
theorem Player.target_steps (p : Player) (old : PlayerRows) (result : Columns)
    (hrow : old.row () = some result) (hsave : (result "save").getNumber ≠ 0) :
    target (p.steps env) old = p.newRows env old := by
  rw [Player.steps, target_must, target_replaceSteps, Player.newRows, hrow]
  simp only [if_neg hsave]
  refine Rows.ext (funext fun _ => ?_) rfl
  show ((old.update () (setColumns (playerColumns env p))).row ()) = _
  rw [Rows.update_row, hrow]
  rfl

/-- What `savePlayer` does after its first query. -/
theorem savePlayer_eq (p : Player) (old : PlayerRows) (a : Nat → Answer) :
    savePlayer env p ⟨old, none, a⟩ =
      match if (a 0).ok then old.row () else none with
      | none => (false, ⟨old, none, fun n => a (n + 1)⟩)
      | some result =>
          if (result "save").getNumber = 0 then
            execute (.update () (setColumns (loginColumns p.alive)))
              ⟨old, none, fun n => a (n + 1)⟩
          else script (p.alive.steps env) ⟨old, none, fun n => a (n + 1)⟩ := by
  rw [savePlayer]
  simp only [storeQuery_eq, savePlayer_script, ite_self]
  rfl

/-- A row of a player that differs from the new one and is to be saved. -/
def Player.staleColumns (p : Player) : Columns :=
  fun name => if name = "save" then .number 1 else .number (p.level + 1)

/-- Some row of each table. -/
def PlayerTable.anyRow : (t : PlayerTable) → t.Row
  | .spells => ""
  | .items => ⟨0, 0, 0, 0, [], []⟩
  | .depotitems => ⟨0, 0, 0, 0, [], []⟩
  | .inboxitems => ⟨0, 0, 0, 0, [], []⟩
  | .storage => (0, 0)

theorem Player.setColumns_stale (p : Player) :
    setColumns (playerColumns env p) p.staleColumns ≠ p.staleColumns := by
  intro heq
  have hlookup : (playerColumns env p).lookup "level" = some (.set (.number p.level)) := by
    simp only [playerColumns, List.cons_append]
    exact List.lookup_cons_self
  have hlevel := congrFun heq "level"
  rw [setColumns, hlookup] at hlevel
  have hnumber : (p.level : Int) = p.level + 1 := Value.number.inj hlevel
  omega

/-- Old rows that `savePlayer` changes everywhere. -/
theorem Player.exists_stale (p : Player) (a : Nat → Answer)
    (hnot : ¬Safe (a 0) (send (p.steps env) fun n => a (n + 1)) (a (statements (p.steps env) + 1))) :
    ∃ old : PlayerRows, old.row () = some p.staleColumns ∧
      ¬AllOrNothing (target (p.steps env)) (script (p.steps env)) a old := by
  have hupdate : ∀ key f, Step.must (.update key f) ∈ p.steps env →
      f p.staleColumns ≠ p.staleColumns := by
    intro key f hmem
    rcases p.mem_steps env hmem with heq | hkeys
    · injection heq with hwrite
      injection hwrite with _ hf
      rw [hf]
      exact p.setColumns_stale env
    · exact absurd hkeys.1 (List.cons_ne_nil key [])
  have hupsert : ∀ key f v, Step.upsert key f v ∈ p.steps env →
      f p.staleColumns ≠ p.staleColumns := by
    intro key f v hmem
    rcases p.mem_steps env hmem with heq | hkeys
    · cases heq
    · exact absurd hkeys.1 (List.cons_ne_nil key [])
  obtain ⟨present, hpresent⟩ := not_allOrNothing (p.steps env) a (p.steps_replaces env)
    (fun _ => p.staleColumns) PlayerTable.anyRow hupdate hupsert hnot
  refine ⟨_, if_neg fun h => ?_, hpresent⟩
  obtain ⟨x, hx, hselects⟩ := List.mem_flatMap.mp h.2
  rcases p.mem_steps env hx with rfl | hkeys
  · cases hselects
  · rw [hkeys.2] at hselects
    cases hselects

/-- A save of a player is all or nothing, whatever the old rows are, if and only
if its first query fails or the answers to its transaction are safe. -/
theorem savePlayer_allOrNothing (p : Player) (a : Nat → Answer) :
    (∀ old, AllOrNothing (p.alive.newRows env) (savePlayer env p) a old) ↔
      (a 0).ok = false ∨ Safe (a 1) (send (p.alive.steps env) fun n => a (n + 2))
        (a (statements (p.alive.steps env) + 2)) := by
  constructor
  · intro hall
    by_contra hnot
    rw [not_or] at hnot
    obtain ⟨old, hrow, hbad⟩ := p.alive.exists_stale env (fun n => a (n + 1)) hnot.2
    have hsave : (p.alive.staleColumns "save").getNumber ≠ 0 := Int.one_ne_zero
    refine hbad ?_
    have hold := hall old
    rw [AllOrNothing, savePlayer_eq, if_pos (Bool.eq_true_of_not_eq_false hnot.1), hrow] at hold
    simp only [if_neg hsave] at hold
    rw [AllOrNothing, p.alive.target_steps env old _ hrow hsave]
    exact hold
  · intro hsafe old
    rw [AllOrNothing, savePlayer_eq]
    by_cases hselect : (a 0).ok = true
    · rw [if_pos hselect]
      cases hrow : old.row () with
      | none => exact ⟨.inr rfl, Bool.noConfusion⟩
      | some result =>
          by_cases hsave : (result "save").getNumber = 0
          · -- one statement, without a transaction
            have hnew : p.alive.newRows env old =
                old.update () (setColumns (loginColumns p.alive)) := by
              rw [Player.newRows, hrow]
              simp only [if_pos hsave]
              refine Rows.ext (funext fun _ => ?_) rfl
              rw [Rows.update_row, hrow]
              rfl
            simp only [if_pos hsave, execute_eq, ite_self, hnew]
            cases (a 1).ok with
            | true => exact ⟨.inl rfl, fun _ => rfl⟩
            | false => exact ⟨.inr rfl, Bool.noConfusion⟩
          · simp only [if_neg hsave]
            have hsteps := p.alive.target_steps env old result hrow hsave
            rw [← hsteps]
            rcases hsafe with hfail | hsafe
            · rw [hselect] at hfail
              cases hfail
            · exact allOrNothing_of_safe (p.alive.steps env) (fun n => a (n + 1)) old
                (p.alive.steps_replaces env).selects_nodup hsafe
    · rw [if_neg hselect]
      exact ⟨.inr rfl, Bool.noConfusion⟩

end Infernum.IOLoginData
