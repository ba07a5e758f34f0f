import Infernum.Database.Script

/-!
# When a save is all or nothing

The answers for which a script leaves the new rows or the old ones, whatever
the old rows are. The other answers are met by old rows that differ from the
new ones everywhere: no step of the script can then be missing, or be carried
out alone, without a trace.
-/

namespace Infernum.Database

open Infernum.Lib.Sql

variable {K V T : Type} {R : T → Type} [DecidableEq K] [DecidableEq T]

/-- A save of `new`, for one sequence of answers and one state of the tables
before it: they hold the new rows or the old ones afterwards, and it says so
only if they hold the new ones. -/
def AllOrNothing {S : Type} (new : S → S) (save : Op S) (a : Nat → Answer) (old : S) : Prop :=
  let r := save ⟨old, none, a⟩
  (r.2.stored = new old ∨ r.2.stored = old) ∧ (r.1 = true → r.2.stored = new old)

/-- The rows after a script whose statements all succeed. -/
def target (steps : List (Step K V T R)) (s : Rows K V T R) : Rows K V T R :=
  applied (send steps fun _ => ⟨0, true⟩) s

@[simp] theorem target_nil (s : Rows K V T R) : target [] s = s := rfl

@[simp] theorem target_must (w : Write K V T R) (steps : List (Step K V T R)) (s : Rows K V T R) :
    target (.must w :: steps) s = target steps (w.apply s) := rfl

@[simp] theorem target_append (xs ys : List (Step K V T R)) (s : Rows K V T R) :
    target (xs ++ ys) s = target ys (target xs s) := by
  induction xs generalizing s with
  | nil => rfl
  | cons x xs ih =>
      cases x with
      | must w => exact ih (w.apply s)
      | upsert key f v => exact ih _

/-- All the rows of a `DBInsert` come to the table. -/
@[simp] theorem target_fillSteps (p : Packets R) (t : T) (rows : List (R t)) (s : Rows K V T R) :
    target (fillSteps p t rows) s = s.insert t rows := by
  have hinsert : ∀ (chs : List (List (R t))) (s : Rows K V T R),
      target (chs.map fun rows => .must (.insert t rows)) s = s.insert t chs.flatten := by
    intro chs
    induction chs with
    | nil => intro s; simp [Rows.insert]
    | cons ch chs ih =>
        intro s
        rw [List.map_cons, target_must, ih]
        simp [Rows.insert, Write.apply]
  rw [fillSteps, hinsert, chunks_flatten]
  rfl

/-- The new rows of tables that are replaced. -/
theorem target_replaceSteps (p : Packets R) (rows : (t : T) → List (R t)) (tables : List T)
    (s : Rows K V T R) :
    target (tables.flatMap fun t => replaceSteps p t (rows t)) s =
      { s with table := fun t => if t ∈ tables then rows t else s.table t } := by
  induction tables generalizing s with
  | nil => simp
  | cons t tables ih =>
      rw [List.flatMap_cons, target_append, ih]
      have hrow : (target (replaceSteps p t (rows t)) s).row = s.row := by
        rw [replaceSteps, target_must, target_fillSteps]
        rfl
      refine Rows.ext hrow (funext fun t' => ?_)
      have htable : (target (replaceSteps p t (rows t)) s).table t' =
          if t' = t then rows t' else s.table t' := by
        rw [replaceSteps, target_must, target_fillSteps]
        show Function.update (s.delete t).table t ((s.delete t).table t ++ rows t) t' = _
        rw [Rows.delete_table, List.nil_append]
        by_cases heq : t' = t
        · subst heq
          rw [Function.update_self, if_pos rfl]
        · rw [Function.update_of_ne heq, if_neg heq]
          exact Function.update_of_ne heq _ _
      show (if t' ∈ tables then rows t' else (target (replaceSteps p t (rows t)) s).table t') =
        if t' ∈ t :: tables then rows t' else s.table t'
      rw [htable]
      by_cases hmem : t' ∈ tables
      · rw [if_pos hmem, if_pos (List.mem_cons_of_mem t hmem)]
      · by_cases heq : t' = t
        · subst heq
          rw [if_neg hmem, if_pos rfl, if_pos List.mem_cons_self]
        · rw [if_neg hmem, if_neg heq, if_neg fun h => (List.mem_cons.mp h).elim heq hmem]

/-- No statement that changes rows succeeds. -/
def Silent : List (Sent K V T R) → Prop
  | [] => True
  | x :: xs => x.writes = false ∧ (x.failed = true ∨ Silent xs)

/-- No statement that changes rows succeeds from the first loss of the
connection on. -/
def Quiet : List (Sent K V T R) → Prop
  | [] => True
  | x :: xs => if x.lost then Silent (x :: xs) else x.failed = true ∨ Quiet xs

/-- All statements succeed and the connection holds, or is lost before the first
of them gets through. -/
def Carried (xs : List (Sent K V T R)) : Prop :=
  (∀ x ∈ xs, x.ok = true) ∧ ((∀ x ∈ xs, x.lost = false) ∨ ∃ x ∈ xs.head?, x.lost = true)

/-- The answers that a script stands: to `BEGIN`, to the steps and to `COMMIT`. -/
def Safe (start : Answer) (xs : List (Sent K V T R)) (commit : Answer) : Prop :=
  start.ok = false ∨ Carried xs ∨
    Quiet xs ∧ (failed xs = true ∨ ¬(commit.losses = 0 ∧ commit.ok = true))

/-! ## Safe answers -/

theorem applied_of_silent (xs : List (Sent K V T R)) (s : Rows K V T R) (h : Silent xs) :
    applied xs s = s := by
  induction xs with
  | nil => rfl
  | cons x xs ih =>
      obtain ⟨hwrites, hrest⟩ := h
      have hself : x.apply s = s := by
        cases x with
        | must w a => exact if_neg (ne_true_of_eq_false hwrites)
        | upsert key f v select a => exact if_neg (ne_true_of_eq_false hwrites)
      rw [applied, hself]
      rcases hrest with hfailed | hsilent
      · exact if_pos hfailed
      · rw [ih hsilent, ite_self]

theorem since_of_quiet (xs : List (Sent K V T R)) (s : Rows K V T R) (h : Quiet xs) :
    since xs s = s := by
  induction xs with
  | nil => rfl
  | cons x xs ih =>
      rw [Quiet] at h
      rw [since]
      by_cases hlost : x.lost
      · rw [if_pos hlost] at h ⊢
        exact applied_of_silent (x :: xs) s h
      · rw [if_neg hlost] at h ⊢
        rcases h with hfailed | hquiet
        · exact if_pos hfailed
        · rw [ih hquiet, ite_self]

omit [DecidableEq K] [DecidableEq T] in
theorem failed_of_ok {xs : List (Sent K V T R)} (h : ∀ x ∈ xs, x.ok = true) : failed xs = false := by
  refine List.any_eq_false.mpr fun x hx => ?_
  have hok := h x hx
  cases x with
  | must w a => exact fun hfailed => by simp_all [Sent.ok, Sent.failed]
  | upsert key f v select a => exact Bool.false_ne_true

omit [DecidableEq K] [DecidableEq T] in
theorem lost_of_held {xs : List (Sent K V T R)} (h : ∀ x ∈ xs, x.lost = false) :
    lost xs = false := by
  induction xs with
  | nil => rfl
  | cons x xs ih =>
      rw [lost, h x List.mem_cons_self, ih fun y hy => h y (List.mem_cons_of_mem x hy)]
      exact Bool.and_false _

theorem since_of_held {xs : List (Sent K V T R)} (s : Rows K V T R)
    (h : ∀ x ∈ xs, x.lost = false) : since xs s = s := by
  induction xs with
  | nil => rfl
  | cons x xs ih =>
      rw [since, if_neg (ne_true_of_eq_false (h x List.mem_cons_self)),
        ih fun y hy => h y (List.mem_cons_of_mem x hy), ite_self]

/-- What a step does if all its statements succeed. -/
theorem apply_of_ok (x : Step K V T R) (a : Nat → Answer) (s : Rows K V T R)
    (h : (x.sent a).ok = true) : (x.sent a).apply s = (x.sent fun _ => ⟨0, true⟩).apply s := by
  cases x with
  | must w => exact if_pos h
  | upsert key f v =>
      obtain ⟨hselect, hwrite⟩ := Bool.and_eq_true_iff.mp h
      simp only [Step.sent, Sent.apply, hselect, hwrite]

theorem applied_of_ok (steps : List (Step K V T R)) (a : Nat → Answer) (s : Rows K V T R)
    (h : ∀ x ∈ send steps a, x.ok = true) : applied (send steps a) s = target steps s := by
  induction steps generalizing a s with
  | nil => rfl
  | cons x steps ih =>
      have hx := h _ List.mem_cons_self
      have hfailed : failed [x.sent a] = false :=
        failed_of_ok fun y hy => List.mem_singleton.mp hy ▸ hx
      rw [failed, List.any_cons, List.any_nil, Bool.or_false] at hfailed
      have hnot : (x.sent fun _ => ⟨0, true⟩).failed = false := by cases x <;> rfl
      rw [target, send, send, applied, applied, if_neg (ne_true_of_eq_false hfailed),
        if_neg (ne_true_of_eq_false hnot), apply_of_ok x a s hx]
      exact ih _ _ fun y hy => h y (List.mem_cons_of_mem _ hy)

/-- Safe answers leave a save all or nothing, whatever the old rows are. -/
theorem allOrNothing_of_safe (steps : List (Step K V T R)) (a : Nat → Answer) (s : Rows K V T R)
    (hnodup : (steps.flatMap Step.selects).Nodup)
    (h : Safe (a 0) (send steps fun n => a (n + 1)) (a (statements steps + 1))) :
    AllOrNothing (target steps) (script steps) a s := by
  by_cases hbegin : (a 0).ok = true
  · obtain ⟨hresult, hstored⟩ := script_begun steps s a hnodup hbegin
    rw [AllOrNothing, hresult, hstored]
    rcases h with hnot | ⟨hok, hheld⟩ | ⟨hquiet, hgiven⟩
    · rw [hbegin] at hnot
      cases hnot
    · have happlied := applied_of_ok steps (fun n => a (n + 1)) s hok
      rw [failed_of_ok hok, happlied]
      rcases hheld with hheld | hfirst
      · rw [since_of_held s hheld, lost_of_held hheld]
        cases hcommit : (a (statements steps + 1)).losses == 0 && (a (statements steps + 1)).ok with
        | true => simp
        | false => simp
      · have hsince : since (send steps fun n => a (n + 1)) s = target steps s := by
          rw [← happlied]
          cases hsend : send steps fun n => a (n + 1) with
          | nil => rfl
          | cons x xs =>
              rw [hsend] at hfirst
              obtain ⟨y, hy, hlost⟩ := hfirst
              obtain rfl := Option.mem_some_iff.mp hy
              rw [since, if_pos hlost]
        rw [hsince, ite_self]
        exact ⟨.inl rfl, fun _ => rfl⟩
    · have hnot : (!failed (send steps fun n => a (n + 1)) &&
          ((a (statements steps + 1)).losses == 0 && (a (statements steps + 1)).ok)) = false := by
        rcases hgiven with hfailed | hcommit
        · rw [hfailed]
          rfl
        · refine Bool.eq_false_iff.mpr fun htrue => hcommit ?_
          simpa using (Bool.and_eq_true_iff.mp htrue).2
      rw [hnot, Bool.false_and, if_neg Bool.false_ne_true, since_of_quiet _ s hquiet]
      exact ⟨.inr rfl, Bool.noConfusion⟩
  · obtain ⟨hresult, hstored⟩ := script_not_begun steps s a (Bool.eq_false_iff.mpr hbegin)
    rw [AllOrNothing, hresult, hstored]
    exact ⟨.inr rfl, Bool.noConfusion⟩

end Infernum.Database
