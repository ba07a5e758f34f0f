import Mathlib.Tactic.Common

/-!
# A connection to an SQL server

The stored rows, the open transaction of a connection and the statements that
a client sends. A connection can be lost before a statement gets through: the
server then rolls the open transaction back, and what is sent afterwards takes
effect at once. What happens to each statement is given by a sequence of
answers that nothing is assumed of.
-/

namespace Infernum.Lib.Sql

/-- What happens to one statement: how often the connection is lost before it
gets through, and whether the server carries it out then. -/
structure Answer where
  losses : Nat
  ok : Bool
  deriving DecidableEq, Repr

/-- A connection, with the answers to the statements that are still to come. -/
structure Conn (S : Type*) where
  stored : S
  /-- the rows as the open transaction leaves them -/
  working : Option S
  answers : Nat → Answer

variable {S R : Type*}

namespace Conn

/-- The rows that a statement sees. -/
def rows (c : Conn S) : S := c.working.getD c.stored

/-- The connection is lost, and with it the open transaction. -/
def lose (c : Conn S) : Conn S := { c with working := none }

/-- The answer to the next statement. -/
def answer (c : Conn S) : Answer := c.answers 0

/-- The connection once the next statement has its answer. -/
def next (c : Conn S) : Conn S := { c with answers := fun n => c.answers (n + 1) }

/-- Send a statement again until the connection holds. -/
def retry : Nat → Conn S → Conn S
  | 0, c => c
  | n + 1, c => retry n c.lose

end Conn

namespace Conn

/-- Change the rows: in the open transaction, or at once. -/
def change (f : S → S) (c : Conn S) : Conn S :=
  match c.working with
  | some s => { c with working := some (f s) }
  | none => { c with stored := f c.stored }

end Conn

/-- What a statement does, or `none` if the rows do not allow it. -/
abbrev Statement (S : Type*) := Conn S → Option (Conn S)

/-- A statement that changes rows. -/
def write (f : S → Option S) : Statement S := fun c =>
  (f c.rows).map fun s => c.change fun _ => s

@[simp] theorem write_some (f : S → S) (c : Conn S) :
    write (fun s => some (f s)) c = some (c.change f) := by
  obtain ⟨stored, working, answers⟩ := c
  cases working with
  | none => rfl
  | some s => rfl

/-- `BEGIN`; it commits a transaction that is open. -/
def start : Statement S := fun c => some { c with stored := c.rows, working := some c.rows }

/-- `COMMIT`. -/
def finish : Statement S := fun c => some { c with stored := c.rows, working := none }

/-- `ROLLBACK`. -/
def abort : Statement S := fun c => some { c with working := none }

namespace Conn

/-- One loss is as bad as many. -/
theorem retry_eq (n : Nat) (c : Conn S) : retry n c = if n = 0 then c else c.lose := by
  induction n generalizing c with
  | zero => rfl
  | succ n ih =>
      rw [retry, ih, if_neg (Nat.succ_ne_zero n)]
      split
      · rfl
      · rfl

@[simp] theorem change_id (c : Conn S) : c.change (fun s => s) = c := by
  obtain ⟨stored, working, answers⟩ := c
  cases working with
  | none => rfl
  | some s => rfl

/-- A change is worked out on the rows that the connection sees. -/
theorem change_congr {f g : S → S} {c : Conn S} (h : f c.rows = g c.rows) :
    c.change f = c.change g := by
  obtain ⟨stored, working, answers⟩ := c
  cases working with
  | none => exact congrArg (fun s => Conn.mk s none answers) h
  | some s => exact congrArg (fun s => Conn.mk stored (some s) answers) h

theorem change_eq_self {f : S → S} {c : Conn S} (h : f c.rows = c.rows) : c.change f = c :=
  (change_congr h).trans (change_id c)

/-- The connection when the next statement gets through. -/
theorem retry_next (s : S) (w : Option S) (a : Nat → Answer) :
    retry (a 0).losses (next ⟨s, w, a⟩) =
      ⟨s, if (a 0).losses = 0 then w else none, fun n => a (n + 1)⟩ := by
  rw [retry_eq]
  split
  · rfl
  · rfl

end Conn

end Infernum.Lib.Sql
