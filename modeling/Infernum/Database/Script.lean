import Infernum.Database.Database
import Mathlib.Data.List.Nodup

/-!
# Saves as scripts of statements

A save is a transaction in which statements are sent one after the other. Most
have their results looked at; where a row is looked up and then updated or
inserted, nobody looks. What is left of a save in the database is worked out
from the answers to its statements.
-/

namespace Infernum.Database

open Infernum.Lib.Sql

variable {K V T : Type} {R : T → Type} [DecidableEq K] [DecidableEq T]

/-- Rows that are known by a key, and tables that are deleted and filled. -/
@[ext] structure Rows (K V T : Type) (R : T → Type) where
  row : K → Option V
  table : (t : T) → List (R t)

/-- A statement that changes rows. -/
inductive Write (K V T : Type) (R : T → Type) where
  | update (key : K) (f : V → V)
  | delete (t : T)
  | insert (t : T) (rows : List (R t))

namespace Rows

/-- `UPDATE … WHERE id = key`. -/
def update (key : K) (f : V → V) (s : Rows K V T R) : Rows K V T R :=
  { s with row := Function.update s.row key ((s.row key).map f) }

/-- `INSERT` of the row of a key. -/
def put (key : K) (v : V) (s : Rows K V T R) : Rows K V T R :=
  { s with row := Function.update s.row key (some v) }

/-- `DELETE FROM t`. -/
def delete (t : T) (s : Rows K V T R) : Rows K V T R :=
  { s with table := Function.update s.table t [] }

/-- `INSERT INTO t`. -/
def insert (t : T) (rows : List (R t)) (s : Rows K V T R) : Rows K V T R :=
  { s with table := Function.update s.table t (s.table t ++ rows) }

omit [DecidableEq T] in
theorem update_row (key : K) (f : V → V) (s : Rows K V T R) :
    (s.update key f).row key = (s.row key).map f := Function.update_self key _ s.row

omit [DecidableEq T] in
theorem put_row (key : K) (v : V) (s : Rows K V T R) : (s.put key v).row key = some v :=
  Function.update_self key _ s.row

omit [DecidableEq K] in
theorem delete_table (t : T) (s : Rows K V T R) : (s.delete t).table t = [] :=
  Function.update_self t _ s.table

omit [DecidableEq K] in
theorem insert_table (t : T) (rows : List (R t)) (s : Rows K V T R) :
    (s.insert t rows).table t = s.table t ++ rows := Function.update_self t _ s.table

end Rows

/-- What a statement does to the rows. -/
def Write.apply : Write K V T R → Rows K V T R → Rows K V T R
  | .update key f => Rows.update key f
  | .delete t => Rows.delete t
  | .insert t rows => Rows.insert t rows

/-- A step of a script: a statement whose result is looked at, or a `SELECT` of
a row that is then updated or inserted. -/
inductive Step (K V T : Type) (R : T → Type) where
  | must (w : Write K V T R)
  | upsert (key : K) (f : V → V) (v : V)

/-- `executeQuery` with the statement of a `must` step. -/
def execute (w : Write K V T R) : Op (Rows K V T R) :=
  executeQuery (write fun s => some (w.apply s))

/-- `INSERT`; the key is a primary key. -/
def insertNew (key : K) (v : V) : Op (Rows K V T R) :=
  executeQuery (write fun s => if (s.row key).isSome then none else some (s.put key v))

/-- `SELECT`, then `UPDATE` or `INSERT`, whose result is not looked at. -/
def updateOrInsert (key : K) (f : V → V) (v : V) : Op (Rows K V T R) := fun c =>
  let result := storeQuery (fun s => s.row key) c
  if result.1.isSome then (true, (execute (.update key f) result.2).2)
  else (true, (insertNew key v result.2).2)

/-- The rows that are looked up. -/
def Step.selects : Step K V T R → List K
  | .must _ => []
  | .upsert key _ _ => [key]

/-- How a step is carried out. -/
def Step.op : Step K V T R → Op (Rows K V T R)
  | .must w => execute w
  | .upsert key f v => updateOrInsert key f v

/-- A script that runs in a transaction. -/
def script (steps : List (Step K V T R)) : Op (Rows K V T R) :=
  withTransaction (checkAll (steps.map Step.op))

/-! ## Filling tables -/

/-- What decides how many statements a `DBInsert` sends: the lengths of its
statement and of its rows, and the largest packet. -/
structure Packets (R : T → Type) where
  queryLength : T → Nat
  rowLength : (t : T) → R t → Nat
  maxPacketSize : Nat

variable (p : Packets R)

/-- `INSERT INTO t … VALUES`. -/
def Packets.query (t : T) : InsertQuery (Rows K V T R) (R t) where
  queryLength := p.queryLength t
  rowLength := p.rowLength t
  maxPacketSize := p.maxPacketSize
  insert := Rows.insert t

/-- A `DBInsert` that is filled with rows and executed. -/
def fill (t : T) (rows : List (R t)) : Op (Rows K V T R) := insertAll (p.query t) rows

/-- The steps of a `DBInsert`. -/
def fillSteps (t : T) (rows : List (R t)) : List (Step K V T R) :=
  (chunks (p.query (K := K) (V := V) t) rows ⟨[], p.queryLength t⟩).map fun rows =>
    .must (.insert t rows)

theorem fill_eq (t : T) (rows : List (R t)) :
    fill (K := K) (V := V) p t rows = checkAll ((fillSteps p t rows).map Step.op) := by
  funext c
  rw [fillSteps, List.map_map]
  exact insertRows_eq (p.query t) rows ⟨[], p.queryLength t⟩ c

/-- `DELETE` and the `DBInsert` of a table. -/
def replaceTable (t : T) (rows : List (R t)) : Op (Rows K V T R) :=
  checkAll [execute (.delete t), fill p t rows]

/-- The steps that replace the rows of a table. -/
def replaceSteps (t : T) (rows : List (R t)) : List (Step K V T R) :=
  .must (.delete t) :: fillSteps p t rows

theorem replaceTable_eq (t : T) (rows : List (R t)) :
    replaceTable (K := K) (V := V) p t rows = checkAll ((replaceSteps p t rows).map Step.op) := by
  have hflatten := checkAll_flatten
    [[execute (.delete t)], (fillSteps (K := K) (V := V) p t rows).map Step.op]
  rw [List.map_cons, checkAll_singleton] at hflatten
  rw [replaceTable, fill_eq, replaceSteps, List.map_cons]
  exact hflatten.trans (congrArg checkAll (congrArg (_ :: ·) (List.append_nil _)))

/-! ## Steps and their answers -/

/-- A step with the answers to its statements. -/
inductive Sent (K V T : Type) (R : T → Type) where
  | must (w : Write K V T R) (a : Answer)
  | upsert (key : K) (f : V → V) (v : V) (select a : Answer)

/-- The number of statements of a step. -/
def Step.width : Step K V T R → Nat
  | .must _ => 1
  | .upsert .. => 2

/-- A step with the first of the answers. -/
def Step.sent : Step K V T R → (Nat → Answer) → Sent K V T R
  | .must w, a => .must w (a 0)
  | .upsert key f v, a => .upsert key f v (a 0) (a 1)

/-- The steps of a script with their answers. -/
def send : List (Step K V T R) → (Nat → Answer) → List (Sent K V T R)
  | [], _ => []
  | x :: steps, a => x.sent a :: send steps fun n => a (n + x.width)

/-- The number of statements of a script. -/
def statements (steps : List (Step K V T R)) : Nat := (steps.map Step.width).sum

namespace Sent

/-- The connection is lost before one of the statements gets through. -/
def lost : Sent K V T R → Bool
  | .must _ a => a.losses != 0
  | .upsert _ _ _ select a => select.losses != 0 || a.losses != 0

/-- The script is given up here. -/
def failed : Sent K V T R → Bool
  | .must _ a => !a.ok
  | .upsert .. => false

/-- All the statements succeed. -/
def ok : Sent K V T R → Bool
  | .must _ a => a.ok
  | .upsert _ _ _ select a => select.ok && a.ok

/-- The statement that changes rows succeeds. -/
def writes : Sent K V T R → Bool
  | .must _ a => a.ok
  | .upsert _ _ _ _ a => a.ok

/-- What a step does to the rows. An `INSERT` that comes from a failed `SELECT`
does nothing if the row is there. -/
def apply : Sent K V T R → Rows K V T R → Rows K V T R
  | .must w a, s => if a.ok then w.apply s else s
  | .upsert key f v select a, s =>
      if a.ok then
        if (s.row key).isSome then if select.ok then s.update key f else s
        else s.put key v
      else s

end Sent

/-- The rows after a script without a transaction. -/
def applied : List (Sent K V T R) → Rows K V T R → Rows K V T R
  | [], s => s
  | x :: xs, s => if x.failed then s else applied xs (x.apply s)

/-- The rows that are stored before the end of a transaction: the steps take
effect from the first loss of the connection on. -/
def since : List (Sent K V T R) → Rows K V T R → Rows K V T R
  | [], s => s
  | x :: xs, s =>
      if x.lost then applied (x :: xs) s else if x.failed then s else since xs s

/-- The transaction is lost before the script ends or is given up. -/
def lost : List (Sent K V T R) → Bool
  | [] => false
  | x :: xs => x.lost || (!x.failed && lost xs)

/-- The script is given up. -/
def failed (xs : List (Sent K V T R)) : Bool := xs.any Sent.failed

/-! ## One step -/

/-- A statement that changes rows, on any connection. -/
theorem execute_eq (w : Write K V T R) (s : Rows K V T R) (t : Option (Rows K V T R))
    (a : Nat → Answer) :
    execute w ⟨s, t, a⟩ =
      let c : Conn (Rows K V T R) :=
        ⟨s, if (a 0).losses = 0 then t else none, fun n => a (n + 1)⟩
      ((a 0).ok, if (a 0).ok then c.change w.apply else c) := by
  rw [execute, executeQuery]
  simp only [Conn.answer, Conn.retry_next, write_some]
  cases (a 0).ok with
  | true => rfl
  | false => rfl

omit [DecidableEq K] [DecidableEq T] in
/-- The row that a `SELECT` finds. -/
theorem storeQuery_eq (key : K) (s : Rows K V T R) (t : Option (Rows K V T R))
    (a : Nat → Answer) :
    storeQuery (fun s : Rows K V T R => s.row key) ⟨s, t, a⟩ =
      let c : Conn (Rows K V T R) :=
        ⟨s, if (a 0).losses = 0 then t else none, fun n => a (n + 1)⟩
      (if (a 0).ok then c.rows.row key else none, c) := by
  rw [storeQuery]
  simp only [Conn.answer, Conn.retry_next]
  cases (a 0).ok with
  | true => rfl
  | false => rfl

omit [DecidableEq T] in
/-- An `INSERT` of a row with a primary key. -/
theorem insertNew_eq (key : K) (v : V) (s : Rows K V T R) (t : Option (Rows K V T R))
    (a : Nat → Answer) :
    (insertNew key v ⟨s, t, a⟩).2 =
      let c : Conn (Rows K V T R) :=
        ⟨s, if (a 0).losses = 0 then t else none, fun n => a (n + 1)⟩
      if (a 0).ok ∧ ¬(c.rows.row key).isSome then c.change (Rows.put key v) else c := by
  rw [insertNew, executeQuery]
  simp only [Conn.answer, Conn.retry_next, write]
  cases (a 0).ok with
  | true =>
      by_cases hrow : ((Conn.mk s (if (a 0).losses = 0 then t else none)
          fun n => a (n + 1)).rows.row key).isSome
      · simp [hrow]
      · simp only [hrow]
        exact Conn.change_congr rfl
  | false => rfl

/-- The row that is looked up is there, or not, whether the transaction is still
open or not. -/
def SameRow (key : K) (s : Rows K V T R) (t : Option (Rows K V T R)) : Prop :=
  ∀ w ∈ t, (w.row key).isSome = (s.row key).isSome

omit [DecidableEq K] [DecidableEq T] in
theorem SameRow.of_none (key : K) (s : Rows K V T R) : SameRow key s none := fun _ h => nomatch h

omit [DecidableEq K] [DecidableEq T] in
theorem SameRow.rows {key : K} {s : Rows K V T R} {t : Option (Rows K V T R)}
    (h : SameRow key s t) (a : Nat → Answer) :
    ((Conn.mk s t a).rows.row key).isSome = (s.row key).isSome := by
  cases t with
  | none => rfl
  | some w => exact h w rfl

omit [DecidableEq K] [DecidableEq T] in
theorem SameRow.lose {key : K} {s : Rows K V T R} {t : Option (Rows K V T R)}
    (h : SameRow key s t) (p : Prop) [Decidable p] : SameRow key s (if p then t else none) := by
  split
  · exact h
  · exact SameRow.of_none key s

/-- A row that is looked up and written, or not. -/
theorem updateOrInsert_eq (key : K) (f : V → V) (v : V) (s : Rows K V T R)
    (t : Option (Rows K V T R)) (a : Nat → Answer) (hsame : SameRow key s t) :
    updateOrInsert key f v ⟨s, t, a⟩ =
      (true, Conn.change (Sent.upsert key f v (a 0) (a 1)).apply
        ⟨s, if (a 1).losses = 0 then if (a 0).losses = 0 then t else none else none,
          fun n => a (n + 2)⟩) := by
  have hselect := hsame.lose ((a 0).losses = 0)
  rw [updateOrInsert, storeQuery_eq]
  generalize (if (a 0).losses = 0 then t else none) = t at hselect
  have hfound := hselect.rows fun n => a (n + 1)
  have hrow := (hselect.lose ((a 1).losses = 0)).rows fun n => a (n + 2)
  have hresult : (if (a 0).ok then (Conn.mk s t fun n => a (n + 1)).rows.row key else none).isSome =
      ((a 0).ok && (s.row key).isSome) := by
    cases (a 0).ok with
    | true => exact hfound
    | false => rfl
  show (if Option.isSome (if (a 0).ok then _ else none) then _ else _) = _
  rw [hresult]
  by_cases hexists : (s.row key).isSome
  · rw [hexists] at hrow
    cases hok : (a 0).ok with
    | true =>
        -- the row is found and updated
        rw [hexists, Bool.true_and, if_pos rfl, execute_eq]
        refine congrArg (Prod.mk true) ?_
        cases hwrite : (a 1).ok with
        | true => exact Conn.change_congr (by simp [Sent.apply, Write.apply, hrow, hok, hwrite])
        | false => exact (Conn.change_eq_self (by simp [Sent.apply, hwrite])).symm
    | false =>
        -- the row is not found, and cannot be inserted
        rw [Bool.false_and, if_neg Bool.false_ne_true, insertNew_eq]
        refine congrArg (Prod.mk true) ?_
        show (if _ ∧ ¬_ then _ else _) = _
        rw [if_neg fun h => h.2 hrow]
        exact (Conn.change_eq_self (by simp [Sent.apply, hrow, hok])).symm
  · rw [Bool.eq_false_iff.mpr hexists] at hrow
    rw [Bool.eq_false_iff.mpr hexists, Bool.and_false, if_neg Bool.false_ne_true, insertNew_eq]
    refine congrArg (Prod.mk true) ?_
    cases hwrite : (a 1).ok with
    | true =>
        rw [if_pos ⟨rfl, Bool.eq_false_iff.mp hrow⟩]
        exact Conn.change_congr (by simp [Sent.apply, hrow, hwrite])
    | false => exact (Conn.change_eq_self (by simp [Sent.apply, hwrite])).symm

/-- What a step does: it takes effect in the transaction, or at once if the
connection has been lost. -/
theorem op_eq (x : Step K V T R) (s : Rows K V T R) (t : Option (Rows K V T R))
    (a : Nat → Answer) (hsame : ∀ key f v, x = .upsert key f v → SameRow key s t) :
    x.op ⟨s, t, a⟩ =
      (!(x.sent a).failed, Conn.change (x.sent a).apply
        ⟨s, if (x.sent a).lost then none else t, fun n => a (n + x.width)⟩) := by
  cases x with
  | must w =>
      show execute w ⟨s, t, a⟩ = (!!(a 0).ok, Conn.change (fun s => if (a 0).ok then w.apply s else s)
        ⟨s, if (a 0).losses != 0 then none else t, fun n => a (n + 1)⟩)
      rw [execute_eq, Bool.not_not]
      by_cases hlosses : (a 0).losses = 0
      · cases (a 0).ok with
        | true => simp [hlosses]
        | false => simp [hlosses]
      · cases (a 0).ok with
        | true => simp [hlosses]
        | false => simp [hlosses]
  | upsert key f v =>
      show updateOrInsert key f v ⟨s, t, a⟩ = (true, Conn.change _
        ⟨s, if (a 0).losses != 0 || (a 1).losses != 0 then none else t, fun n => a (n + 2)⟩)
      rw [updateOrInsert_eq key f v s t a (hsame key f v rfl)]
      by_cases h0 : (a 0).losses = 0
      · by_cases h1 : (a 1).losses = 0
        · simp [h0, h1, Step.sent]
        · simp [h1, Step.sent]
      · simp [h0, Step.sent]

/-! ## Runs -/

/-- A step makes or removes no row but the one it looks up. -/
theorem apply_isSome (x : Step K V T R) (a : Nat → Answer) (s : Rows K V T R) (key : K)
    (hkey : key ∉ x.selects) : (((x.sent a).apply s).row key).isSome = (s.row key).isSome := by
  cases x with
  | must w =>
      show ((if (a 0).ok then w.apply s else s).row key).isSome = _
      split
      · cases w with
        | update key' f =>
            show (Function.update s.row key' ((s.row key').map f) key).isSome = _
            by_cases heq : key = key'
            · subst heq
              rw [Function.update_self, Option.isSome_map]
            · rw [Function.update_of_ne heq]
        | delete t => rfl
        | insert t rows => rfl
      · rfl
  | upsert key' f v =>
      have hne : key ≠ key' := fun h => hkey (List.mem_singleton.mpr h)
      simp only [Step.sent, Sent.apply]
      split
      · split
        · split
          · exact congrArg Option.isSome (Function.update_of_ne hne _ _)
          · rfl
        · exact congrArg Option.isSome (Function.update_of_ne hne _ _)
      · rfl

/-- A step that fails has no effect. -/
theorem apply_of_failed (x : Sent K V T R) (s : Rows K V T R) (h : x.failed) : x.apply s = s := by
  cases x with
  | must w a => exact if_neg (by simpa [Sent.failed] using h)
  | upsert key f v select a => cases h

omit [DecidableEq K] [DecidableEq T] in
theorem statements_cons (x : Step K V T R) (steps : List (Step K V T R)) (a : Nat → Answer) :
    (fun n => a (n + statements (x :: steps))) = fun n => a (n + statements steps + x.width) := by
  funext n
  rw [statements, statements, List.map_cons, List.sum_cons, Nat.add_comm x.width, Nat.add_assoc]

/-- A script without a transaction. -/
theorem checkAll_closed (steps : List (Step K V T R)) (s : Rows K V T R) (a : Nat → Answer) :
    ∃ a', checkAll (steps.map Step.op) ⟨s, none, a⟩ =
        (!failed (send steps a), ⟨applied (send steps a) s, none, a'⟩) ∧
      (failed (send steps a) = false → a' = fun n => a (n + statements steps)) := by
  induction steps generalizing s a with
  | nil => exact ⟨a, rfl, fun _ => rfl⟩
  | cons x steps ih =>
      have hop : x.op ⟨s, none, a⟩ = (!(x.sent a).failed,
          ⟨(x.sent a).apply s, none, fun n => a (n + x.width)⟩) := by
        rw [op_eq x s none a fun key _ _ _ => SameRow.of_none key s]
        simp only [ite_self]
        rfl
      rw [List.map_cons, checkAll, hop, send, failed, List.any_cons, applied]
      cases hfailed : (x.sent a).failed with
      | true => exact ⟨_, by rw [apply_of_failed _ s hfailed]; rfl, Bool.noConfusion⟩
      | false =>
          obtain ⟨a', hrun, ha'⟩ := ih ((x.sent a).apply s) fun n => a (n + x.width)
          refine ⟨a', hrun, fun h => ?_⟩
          rw [ha' h, statements_cons]

/-- A script in an open transaction. -/
theorem checkAll_open (steps : List (Step K V T R)) (s w : Rows K V T R) (a : Nat → Answer)
    (hnodup : (steps.flatMap Step.selects).Nodup)
    (hsame : ∀ key ∈ steps.flatMap Step.selects, SameRow key s (some w)) :
    ∃ a', checkAll (steps.map Step.op) ⟨s, some w, a⟩ =
        (!failed (send steps a), ⟨since (send steps a) s,
          if lost (send steps a) then none else some (applied (send steps a) w), a'⟩) ∧
      (failed (send steps a) = false → a' = fun n => a (n + statements steps)) := by
  induction steps generalizing w a with
  | nil => exact ⟨a, rfl, fun _ => rfl⟩
  | cons x steps ih =>
      rw [List.flatMap_cons] at hnodup hsame
      have hlook : ∀ key f v, x = .upsert key f v → SameRow key s (some w) := fun key f v hx =>
        hsame key (List.mem_append_left _ (hx ▸ List.mem_singleton_self key))
      have hop := op_eq x s (some w) a hlook
      by_cases hlost : (x.sent a).lost
      · -- from here on there is no transaction
        have hclosed : x.op ⟨s, some w, a⟩ = x.op ⟨s, none, a⟩ := by
          rw [hop, op_eq x s none a fun key _ _ _ => SameRow.of_none key s]
          simp only [hlost, if_true]
        have hrun : checkAll ((x :: steps).map Step.op) ⟨s, some w, a⟩ =
            checkAll ((x :: steps).map Step.op) ⟨s, none, a⟩ := by
          rw [List.map_cons, checkAll, checkAll, hclosed]
        have hsent : lost (send (x :: steps) a) = true := by
          rw [send, lost, hlost, Bool.true_or]
        have hsince : since (send (x :: steps) a) s = applied (send (x :: steps) a) s := by
          rw [send, since, if_pos hlost]
        rw [hrun, hsent, if_pos rfl, hsince]
        exact checkAll_closed (x :: steps) s a
      · rw [if_neg hlost] at hop
        rw [List.map_cons, checkAll, hop, send, failed, List.any_cons, applied, since, lost,
          Bool.eq_false_iff.mpr hlost, Bool.false_or]
        cases hfailed : (x.sent a).failed with
        | true =>
            rw [Conn.change_eq_self (apply_of_failed _ _ hfailed)]
            exact ⟨fun n => a (n + x.width), rfl, Bool.noConfusion⟩
        | false =>
            have hrest : ∀ key ∈ steps.flatMap Step.selects,
                SameRow key s (some ((x.sent a).apply w)) := by
              intro key hkey t ht
              obtain rfl := Option.mem_some_iff.mp ht
              rw [apply_isSome x a w key fun h => (List.disjoint_of_nodup_append hnodup) h hkey]
              exact hsame key (List.mem_append_right _ hkey) w rfl
            obtain ⟨a', hrun, ha'⟩ := ih ((x.sent a).apply w) (fun n => a (n + x.width))
              hnodup.of_append_right hrest
            refine ⟨a', hrun, fun h => ?_⟩
            rw [ha' h, statements_cons]

/-! ## Transactions -/

/-- A save whose transaction cannot be started does nothing. -/
theorem script_not_begun (steps : List (Step K V T R)) (s : Rows K V T R) (a : Nat → Answer)
    (hbegin : (a 0).ok = false) :
    (script steps ⟨s, none, a⟩).1 = false ∧ (script steps ⟨s, none, a⟩).2.stored = s := by
  rw [script, withTransaction, beginTransaction_eq, hbegin]
  exact ⟨rfl, rollback_stored _⟩

/-- What a save returns and leaves, once its transaction has been started. -/
theorem script_begun (steps : List (Step K V T R)) (s : Rows K V T R) (a : Nat → Answer)
    (hnodup : (steps.flatMap Step.selects).Nodup) (hbegin : (a 0).ok = true) :
    let xs := send steps fun n => a (n + 1)
    let c := a (statements steps + 1)
    let committed := !failed xs && (c.losses == 0 && c.ok)
    (script steps ⟨s, none, a⟩).1 = committed ∧
      (script steps ⟨s, none, a⟩).2.stored =
        if committed && !lost xs then applied xs s else since xs s := by
  obtain ⟨a', hrun, ha'⟩ := checkAll_open steps s s (fun n => a (n + 1)) hnodup
    fun key _ w hw => by rw [Option.mem_some_iff.mp hw]
  intro xs c committed
  rw [script, withTransaction, beginTransaction_eq, hbegin]
  simp only [if_true, hrun]
  cases hfailed : failed xs with
  | true =>
      simp only [Bool.not_true, Bool.false_eq_true, if_false, rollback_stored]
      simp [committed, hfailed, xs]
  | false =>
      simp only [Bool.not_false, if_true]
      have hanswer : a' 0 = c := by
        rw [ha' hfailed]
        show a (0 + statements steps + 1) = a (statements steps + 1)
        rw [Nat.zero_add]
      have hcommitted : committed = (c.losses == 0 && c.ok) := by
        show (!failed xs && (c.losses == 0 && c.ok)) = _
        rw [hfailed, Bool.not_false, Bool.true_and]
      refine ⟨(commit_eq _ _ a').1.trans ?_, (commit_eq _ _ a').2.trans ?_⟩
      · rw [hcommitted, hanswer]
      · rw [hcommitted, hanswer]
        cases hlost : lost xs with
        | true => simp [xs]
        | false => simp [xs]

end Infernum.Database
