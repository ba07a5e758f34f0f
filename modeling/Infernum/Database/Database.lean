import Infernum.Lib.SqlServer
import Mathlib.Algebra.Order.Ring.Nat

/-!
# The database client

`Database`, `DBTransaction` and `DBInsert`. Locks are left out: a save runs
from its first to its last statement without another query in between.
-/

namespace Infernum.Database

open Infernum.Lib.Sql

variable {S R : Type*}

/-- `Database::executeQuery`: a lost connection is tried again, any other error
is a failure. -/
def executeQuery (statement : Statement S) (c : Conn S) : Bool × Conn S :=
  let a := c.answer
  let c := c.next.retry a.losses
  if a.ok then
    match statement c with
    | some c => (true, c)
    | none => (false, c)
  else (false, c)

/-- `Database::storeQuery`: no result if the query fails, and none if it has no
row. -/
def storeQuery (query : S → Option R) (c : Conn S) : Option R × Conn S :=
  let a := c.answer
  let c := c.next.retry a.losses
  if a.ok then (query c.rows, c) else (none, c)

/-- `Database::beginTransaction`. -/
def beginTransaction : Conn S → Bool × Conn S := executeQuery start

/-- `mysql_commit` and `mysql_rollback` send their statement once. -/
def sendOnce (statement : Statement S) (c : Conn S) : Bool × Conn S :=
  let a := c.answer
  let c := c.next
  if a.losses ≠ 0 then (false, c.lose)
  else if a.ok then
    match statement c with
    | some c => (true, c)
    | none => (false, c)
  else (false, c)

/-- `Database::commit`. -/
def commit : Conn S → Bool × Conn S := sendOnce finish

/-- `Database::rollback`. -/
def rollback : Conn S → Bool × Conn S := sendOnce abort

/-- A part of a save: whether it succeeds, and the connection afterwards. -/
abbrev Op (S : Type*) := Conn S → Bool × Conn S

/-- `if (!op) { return false; }` for each part. -/
def checkAll : List (Op S) → Op S
  | [], c => (true, c)
  | op :: ops, c =>
      let r := op c
      if r.1 then checkAll ops r.2 else (false, r.2)

@[simp] theorem checkAll_singleton (op : Op S) : checkAll [op] = op := by
  funext c
  rw [checkAll]
  generalize op c = r
  obtain ⟨ok, c'⟩ := r
  cases ok with
  | true => rfl
  | false => rfl

theorem checkAll_append (xs ys : List (Op S)) (c : Conn S) :
    checkAll (xs ++ ys) c =
      if (checkAll xs c).1 then checkAll ys (checkAll xs c).2 else (false, (checkAll xs c).2) := by
  induction xs generalizing c with
  | nil => rfl
  | cons x xs ih =>
      rw [List.cons_append, checkAll, checkAll]
      cases hx : (x c).1 with
      | true => exact ih (x c).2
      | false => rfl

/-- The last part of a save may itself be made of parts. -/
theorem checkAll_concat (xs ys : List (Op S)) :
    checkAll (xs ++ [checkAll ys]) = checkAll (xs ++ ys) := by
  funext c
  rw [checkAll_append, checkAll_append, checkAll_singleton]

/-- All the parts of a save may be made of parts. -/
theorem checkAll_flatten (ops : List (List (Op S))) :
    checkAll (ops.map checkAll) = checkAll ops.flatten := by
  induction ops with
  | nil => rfl
  | cons op ops ih =>
      funext c
      rw [List.map_cons, checkAll, ih, List.flatten_cons, checkAll_append]

/-- A function with a `DBTransaction` on its stack that returns what `commit`
returns. The destructor rolls back what `begin` has started, or tried to start,
unless `commit` was called. -/
def withTransaction (body : Op S) : Op S := fun c =>
  let b := beginTransaction c
  if b.1 then
    let r := body b.2
    if r.1 then commit r.2 else (false, (rollback r.2).2)
  else (false, (rollback b.2).2)

/-! ## Transactions -/

/-- `BEGIN` on a connection without a transaction. -/
theorem beginTransaction_eq (s : S) (a : Nat → Answer) :
    beginTransaction ⟨s, none, a⟩ =
      ((a 0).ok, ⟨s, if (a 0).ok then some s else none, fun n => a (n + 1)⟩) := by
  rw [beginTransaction, executeQuery]
  simp only [Conn.answer, Conn.retry_next, ite_self]
  cases (a 0).ok with
  | true => rfl
  | false => rfl

/-- `COMMIT` makes what the connection sees the stored rows, if it gets through. -/
theorem commit_eq (s : S) (t : Option S) (a : Nat → Answer) :
    (commit ⟨s, t, a⟩).1 = ((a 0).losses == 0 && (a 0).ok) ∧
      (commit ⟨s, t, a⟩).2.stored = if (a 0).losses = 0 ∧ (a 0).ok then t.getD s else s := by
  rw [commit, sendOnce]
  by_cases hlosses : (a 0).losses = 0
  · cases hok : (a 0).ok with
    | true => simp [hlosses, hok, finish, Conn.rows, Conn.next, Conn.answer]
    | false => simp [hlosses, hok, Conn.next, Conn.answer]
  · simp [hlosses, Conn.lose, Conn.next, Conn.answer]

/-- `ROLLBACK` leaves the stored rows as they are, whether it succeeds or not. -/
theorem rollback_stored (c : Conn S) : (rollback c).2.stored = c.stored := by
  rw [rollback, sendOnce]
  by_cases hlosses : c.answer.losses = 0
  · cases hok : c.answer.ok with
    | true => simp [hlosses, abort, Conn.next]
    | false => simp [hlosses, Conn.next]
  · simp [hlosses, Conn.lose, Conn.next]

/-! ## DBInsert -/

/-- `DBInsert`: the rows that are waiting, and the length that is counted. -/
structure DBInsert (R : Type*) where
  values : List R
  length : Nat

/-- What an insert depends on: the length of the statement without rows, of
each row, and the largest packet; and what the statement does. -/
structure InsertQuery (S R : Type*) where
  queryLength : Nat
  rowLength : R → Nat
  maxPacketSize : Nat
  insert : List R → S → S

/-- `DBInsert::execute`. -/
def DBInsert.execute (q : InsertQuery S R) (stmt : DBInsert R) (c : Conn S) :
    Bool × DBInsert R × Conn S :=
  if stmt.values.isEmpty then (true, stmt, c)
  else
    let r := executeQuery (write fun s => some (q.insert stmt.values s)) c
    (r.1, ⟨[], q.queryLength⟩, r.2)

/-- `DBInsert::addRow`. -/
def DBInsert.addRow (q : InsertQuery S R) (row : R) (stmt : DBInsert R) (c : Conn S) :
    Bool × DBInsert R × Conn S :=
  let stmt := { stmt with length := stmt.length + q.rowLength row }
  if q.maxPacketSize < stmt.length then
    let r := stmt.execute q c
    if r.1 then (true, { r.2.1 with values := r.2.1.values ++ [row] }, r.2.2)
    else (false, r.2.1, r.2.2)
  else (true, { stmt with values := stmt.values ++ [row] }, c)

/-- Add rows one by one and execute at the end, giving up at the first error. -/
def insertRows (q : InsertQuery S R) : List R → DBInsert R → Op S
  | [], stmt, c =>
      let r := stmt.execute q c
      (r.1, r.2.2)
  | row :: rows, stmt, c =>
      let r := stmt.addRow q row c
      if r.1 then insertRows q rows r.2.1 r.2.2 else (false, r.2.2)

/-- A `DBInsert` that is filled with rows and executed. -/
def insertAll (q : InsertQuery S R) (rows : List R) : Op S :=
  insertRows q rows ⟨[], q.queryLength⟩

/-- The rows of each statement that a `DBInsert` sends. -/
def chunks (q : InsertQuery S R) : List R → DBInsert R → List (List R)
  | [], stmt => if stmt.values.isEmpty then [] else [stmt.values]
  | row :: rows, stmt =>
      let length := stmt.length + q.rowLength row
      if q.maxPacketSize < length ∧ ¬stmt.values.isEmpty then
        stmt.values :: chunks q rows ⟨[row], q.queryLength⟩
      else chunks q rows ⟨stmt.values ++ [row], length⟩

/-- A statement that inserts rows. -/
def insertOp (q : InsertQuery S R) (rows : List R) : Op S :=
  executeQuery (write fun s => some (q.insert rows s))

/-- A `DBInsert` that is full sends what it has before it takes the next row. -/
theorem addRow_of_long (q : InsertQuery S R) (row : R) (stmt : DBInsert R) (c : Conn S)
    (hlong : q.maxPacketSize < stmt.length + q.rowLength row) (hvalues : stmt.values ≠ []) :
    stmt.addRow q row c =
      let r := insertOp q stmt.values c
      (r.1, ⟨if r.1 then [row] else [], q.queryLength⟩, r.2) := by
  rw [DBInsert.addRow, if_pos hlong, DBInsert.execute,
    if_neg (fun h => hvalues (List.isEmpty_iff.mp h))]
  show _ = ((insertOp q stmt.values c).1, _, (insertOp q stmt.values c).2)
  rw [insertOp]
  generalize executeQuery _ c = r
  obtain ⟨ok, c'⟩ := r
  cases ok with
  | true => rfl
  | false => rfl

/-- A `DBInsert` sends its statements one after the other, up to the first that
fails. -/
theorem insertRows_eq (q : InsertQuery S R) (rows : List R) (stmt : DBInsert R) (c : Conn S) :
    insertRows q rows stmt c = checkAll ((chunks q rows stmt).map (insertOp q)) c := by
  induction rows generalizing stmt c with
  | nil =>
      rw [insertRows, chunks, DBInsert.execute]
      by_cases hempty : stmt.values.isEmpty
      · rw [if_pos hempty, if_pos hempty]
        rfl
      · rw [if_neg hempty, if_neg hempty]
        simp only [List.map_singleton, checkAll, insertOp]
        generalize executeQuery _ c = r
        obtain ⟨ok, c'⟩ := r
        cases ok with
        | true => rfl
        | false => rfl
  | cons row rows ih =>
      by_cases hlong : q.maxPacketSize < stmt.length + q.rowLength row
      · by_cases hempty : stmt.values.isEmpty
        · -- the row is too long by itself: nothing is sent before it
          obtain ⟨values, length⟩ := stmt
          obtain rfl : values = [] := List.isEmpty_iff.mp hempty
          have hadd : DBInsert.addRow q row ⟨[], length⟩ c =
              (true, ⟨[] ++ [row], length + q.rowLength row⟩, c) := by
            rw [DBInsert.addRow, if_pos hlong]
            rfl
          have hchunks : chunks q (row :: rows) ⟨[], length⟩ =
              chunks q rows ⟨[] ++ [row], length + q.rowLength row⟩ := by
            rw [chunks]
            exact if_neg fun h => h.2 rfl
          rw [insertRows, hadd, hchunks]
          exact ih ⟨[] ++ [row], length + q.rowLength row⟩ c
        · rw [chunks, if_pos ⟨hlong, hempty⟩, List.map_cons, checkAll, insertRows,
            addRow_of_long q row stmt c hlong (mt List.isEmpty_iff.mpr hempty)]
          generalize insertOp q stmt.values c = r
          obtain ⟨ok, c'⟩ := r
          cases ok with
          | true => exact ih ⟨[row], q.queryLength⟩ c'
          | false => rfl
      · rw [chunks, if_neg (fun h => hlong h.1), insertRows, DBInsert.addRow, if_neg hlong]
        exact ih ⟨stmt.values ++ [row], stmt.length + q.rowLength row⟩ c

theorem chunks_ne_nil (q : InsertQuery S R) (rows : List R) (stmt : DBInsert R) :
    ∀ ch ∈ chunks q rows stmt, ch ≠ [] := by
  induction rows generalizing stmt with
  | nil =>
      intro ch hch
      rw [chunks] at hch
      split at hch
      · exact absurd hch List.not_mem_nil
      · rename_i hempty
        rw [List.mem_singleton.mp hch]
        exact fun h => hempty (List.isEmpty_iff.mpr h)
  | cons row rows ih =>
      intro ch hch
      rw [chunks] at hch
      split at hch
      · rename_i hcond
        rcases List.mem_cons.mp hch with rfl | hmem
        · exact fun h => hcond.2 (List.isEmpty_iff.mpr h)
        · exact ih _ ch hmem
      · exact ih _ ch hch

/-- No row is left out, and none is sent twice. -/
theorem chunks_flatten (q : InsertQuery S R) (rows : List R) (stmt : DBInsert R) :
    (chunks q rows stmt).flatten = stmt.values ++ rows := by
  induction rows generalizing stmt with
  | nil =>
      rw [chunks]
      split
      · rename_i hempty
        rw [List.isEmpty_iff.mp hempty]
        rfl
      · simp
  | cons row rows ih =>
      rw [chunks]
      split
      · rw [List.flatten_cons, ih]
        rfl
      · rw [ih, List.append_assoc]
        rfl

end Infernum.Database
