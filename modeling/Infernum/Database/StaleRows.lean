import Infernum.Database.AllOrNothing
import Mathlib.Data.List.Pairwise

/-!
# Answers that a save does not stand

Old rows on which a script leaves a trace of every step that is carried out,
and of every step that is not. With them, answers that are not safe are met by
a mixture of old and new rows, or by a save that says it was done and was not.
-/

namespace Infernum.Database

open Infernum.Lib.Sql

variable {K V T : Type} {R : T → Type} [DecidableEq K] [DecidableEq T]

namespace Step

/-- The rows that a step changes. -/
def keys : Step K V T R → List K
  | .must (.update key _) => [key]
  | .must _ => []
  | .upsert key _ _ => [key]

/-- The tables that a step deletes. -/
def deletes : Step K V T R → List T
  | .must (.delete t) => [t]
  | _ => []

/-- The tables that a step changes. -/
def fills : Step K V T R → List T
  | .must (.delete t) => [t]
  | .must (.insert t _) => [t]
  | _ => []

/-- The number of rows that a step inserts. -/
def inserted (t : T) : Step K V T R → Nat
  | .must (.insert t' rows) => if t' = t then rows.length else 0
  | _ => 0

/-- A step that comes after another one does not undo it. -/
def Apart (x y : Step K V T R) : Prop :=
  (∀ key ∈ x.keys, key ∉ y.keys) ∧ ∀ t ∈ x.fills, t ∉ y.deletes

end Step

/-- The number of rows that a script inserts. -/
def inserted (t : T) (steps : List (Step K V T R)) : Nat := (steps.map (Step.inserted t)).sum

/-- A script that replaces rows: it starts with an `UPDATE` or a `DELETE`, no
step undoes an earlier one, and it inserts no empty list of rows. -/
structure Replaces (steps : List (Step K V T R)) : Prop where
  first : ∃ w ∈ steps.head?, (∃ key f, w = .must (.update key f)) ∨ ∃ t, w = .must (.delete t)
  apart : steps.Pairwise Step.Apart
  nonempty : ∀ t rows, Step.must (.insert t rows) ∈ steps → rows ≠ []

/-- Rows that differ from the new ones: where a row is looked up it has an old
value, or is not there. -/
structure Stale (present : Bool) (steps : List (Step K V T R)) (s : Rows K V T R) : Prop where
  updates : ∀ key f, Step.must (.update key f) ∈ steps → ∃ v, s.row key = some v ∧ f v ≠ v
  upserts : ∀ key f v, Step.upsert key f v ∈ steps →
    if present then ∃ old, s.row key = some old ∧ f old ≠ old else s.row key = none
  tables : ∀ t, Step.must (.delete t) ∈ steps → inserted t steps < (s.table t).length

/-! ## What a step leaves alone -/

theorem apply_row (x : Step K V T R) (a : Nat → Answer) (s : Rows K V T R) (key : K)
    (hkey : key ∉ x.keys) : ((x.sent a).apply s).row key = s.row key := by
  cases x with
  | must w =>
      show (if (a 0).ok then w.apply s else s).row key = _
      split
      · cases w with
        | update key' f =>
            have hne : key ≠ key' := fun h => hkey (List.mem_singleton.mpr h)
            exact Function.update_of_ne hne _ _
        | delete t => rfl
        | insert t rows => rfl
      · rfl
  | upsert key' f v =>
      have hne : key ≠ key' := fun h => hkey (List.mem_singleton.mpr h)
      simp only [Step.sent, Sent.apply]
      split
      · split
        · split
          · exact Function.update_of_ne hne _ _
          · rfl
        · exact Function.update_of_ne hne _ _
      · rfl

theorem apply_table (x : Step K V T R) (a : Nat → Answer) (s : Rows K V T R) (t : T)
    (ht : t ∉ x.fills) : ((x.sent a).apply s).table t = s.table t := by
  cases x with
  | must w =>
      show (if (a 0).ok then w.apply s else s).table t = _
      split
      · cases w with
        | update key f => rfl
        | delete t' =>
            have hne : t ≠ t' := fun h => ht (List.mem_singleton.mpr h)
            exact Function.update_of_ne hne _ _
        | insert t' rows =>
            have hne : t ≠ t' := fun h => ht (List.mem_singleton.mpr h)
            exact Function.update_of_ne hne _ _
      · rfl
  | upsert key f v =>
      simp only [Step.sent, Sent.apply]
      split
      · split
        · split
          · rfl
          · rfl
        · rfl
      · rfl

/-- A step that does not delete a table makes it longer by the rows it inserts,
or leaves it as it is. -/
theorem apply_length (x : Step K V T R) (a : Nat → Answer) (s : Rows K V T R) (t : T)
    (ht : t ∉ x.deletes) :
    (s.table t).length ≤ (((x.sent a).apply s).table t).length ∧
      (((x.sent a).apply s).table t).length ≤ (s.table t).length + x.inserted t ∧
      ((x.sent a).ok = true →
        (((x.sent a).apply s).table t).length = (s.table t).length + x.inserted t) := by
  by_cases hfills : t ∈ x.fills
  · cases x with
    | must w =>
        cases w with
        | update key f => cases hfills
        | delete t' => exact absurd hfills ht
        | insert t' rows =>
            obtain rfl := List.mem_singleton.mp hfills
            show (s.table t).length ≤ ((if (a 0).ok then s.insert t rows else s).table t).length ∧
              ((if (a 0).ok then s.insert t rows else s).table t).length ≤
                (s.table t).length + (if t = t then rows.length else 0) ∧
              ((a 0).ok = true → ((if (a 0).ok then s.insert t rows else s).table t).length =
                (s.table t).length + (if t = t then rows.length else 0))
            have hlength : ((s.insert t rows).table t).length = (s.table t).length + rows.length := by
              rw [Rows.insert_table, List.length_append]
            rw [if_pos rfl]
            cases (a 0).ok with
            | true =>
                rw [if_pos rfl, hlength]
                exact ⟨Nat.le_add_right _ _, Nat.le_refl _, fun _ => rfl⟩
            | false => exact ⟨Nat.le_refl _, Nat.le_add_right _ _, fun h => nomatch h⟩
    | upsert key f v => cases hfills
  · have hzero : x.inserted t = 0 := by
      cases x with
      | must w =>
          cases w with
          | update key f => rfl
          | delete t' => rfl
          | insert t' rows => exact if_neg fun h => hfills (List.mem_singleton.mpr h.symm)
      | upsert key f v => rfl
    rw [apply_table x a s t hfills, hzero]
    exact ⟨Nat.le_refl _, Nat.le_refl _, fun _ => rfl⟩

/-! ## What a script leaves alone -/

/-- What every step preserves, a script preserves. -/
theorem applied_preserves (inv : Rows K V T R → Prop) (steps : List (Step K V T R))
    (hstep : ∀ x ∈ steps, ∀ a s, inv s → inv ((x.sent a).apply s)) (a : Nat → Answer)
    (s : Rows K V T R) (hs : inv s) : inv (applied (send steps a) s) := by
  induction steps generalizing a s with
  | nil => exact hs
  | cons x steps ih =>
      rw [send, applied]
      split
      · exact hs
      · exact ih (fun y hy => hstep y (List.mem_cons_of_mem x hy)) _ _
          (hstep x List.mem_cons_self a s hs)

/-- So does the part of it from the first loss of the connection on. -/
theorem since_preserves (inv : Rows K V T R → Prop) (steps : List (Step K V T R))
    (hstep : ∀ x ∈ steps, ∀ a s, inv s → inv ((x.sent a).apply s)) (a : Nat → Answer)
    (s : Rows K V T R) (hs : inv s) : inv (since (send steps a) s) := by
  induction steps generalizing a with
  | nil => exact hs
  | cons x steps ih =>
      rw [send, since]
      split
      · exact applied_preserves inv (x :: steps) hstep a s hs
      · split
        · exact hs
        · exact ih (fun y hy => hstep y (List.mem_cons_of_mem x hy)) _

theorem applied_row (steps : List (Step K V T R)) (a : Nat → Answer) (s : Rows K V T R) (key : K)
    (hkey : ∀ x ∈ steps, key ∉ x.keys) : (applied (send steps a) s).row key = s.row key :=
  applied_preserves (fun s' => s'.row key = s.row key) steps
    (fun x hx a s' hs => (apply_row x a s' key (hkey x hx)).trans hs) a s rfl

theorem since_row (steps : List (Step K V T R)) (a : Nat → Answer) (s : Rows K V T R) (key : K)
    (hkey : ∀ x ∈ steps, key ∉ x.keys) : (since (send steps a) s).row key = s.row key :=
  since_preserves (fun s' => s'.row key = s.row key) steps
    (fun x hx a s' hs => (apply_row x a s' key (hkey x hx)).trans hs) a s rfl

theorem applied_length_ge (steps : List (Step K V T R)) (a : Nat → Answer) (s : Rows K V T R)
    (t : T) (ht : ∀ x ∈ steps, t ∉ x.deletes) :
    (s.table t).length ≤ ((applied (send steps a) s).table t).length :=
  applied_preserves (fun s' => (s.table t).length ≤ (s'.table t).length) steps
    (fun x hx a s' hs => Nat.le_trans hs (apply_length x a s' t (ht x hx)).1) a s (Nat.le_refl _)

theorem since_length_ge (steps : List (Step K V T R)) (a : Nat → Answer) (s : Rows K V T R)
    (t : T) (ht : ∀ x ∈ steps, t ∉ x.deletes) :
    (s.table t).length ≤ ((since (send steps a) s).table t).length :=
  since_preserves (fun s' => (s.table t).length ≤ (s'.table t).length) steps
    (fun x hx a s' hs => Nat.le_trans hs (apply_length x a s' t (ht x hx)).1) a s (Nat.le_refl _)

theorem applied_length_le (steps : List (Step K V T R)) (a : Nat → Answer) (s : Rows K V T R)
    (t : T) (ht : ∀ x ∈ steps, t ∉ x.deletes) :
    ((applied (send steps a) s).table t).length ≤ (s.table t).length + inserted t steps := by
  induction steps generalizing a s with
  | nil => exact Nat.le_add_right _ _
  | cons x steps ih =>
      rw [send, applied]
      show _ ≤ (s.table t).length + inserted t (x :: steps)
      rw [inserted, List.map_cons, List.sum_cons]
      split
      · exact Nat.le_add_right _ _
      · have hx := (apply_length x a s t (ht x List.mem_cons_self)).2.1
        have hrest := ih (fun n => a (n + x.width)) ((x.sent a).apply s)
          fun y hy => ht y (List.mem_cons_of_mem x hy)
        rw [inserted] at hrest
        omega

/-- The new rows of a table are those that are inserted. -/
theorem target_length (steps : List (Step K V T R)) (s : Rows K V T R) (t : T)
    (ht : ∀ x ∈ steps, t ∉ x.deletes) :
    ((target steps s).table t).length = (s.table t).length + inserted t steps := by
  induction steps generalizing s with
  | nil => rfl
  | cons x steps ih =>
      have hok : (x.sent fun _ => ⟨0, true⟩).ok = true := by cases x <;> rfl
      have hfailed : (x.sent fun _ => ⟨0, true⟩).failed = false := by cases x <;> rfl
      have hx := (apply_length x (fun _ => ⟨0, true⟩) s t (ht x List.mem_cons_self)).2.2 hok
      have hrest := ih ((x.sent fun _ => ⟨0, true⟩).apply s)
        fun y hy => ht y (List.mem_cons_of_mem x hy)
      rw [target] at hrest
      rw [target, send, applied, hfailed, if_neg Bool.false_ne_true, hrest, hx, inserted, inserted,
        List.map_cons, List.sum_cons, Nat.add_assoc]

/-! ## What the new rows are -/

theorem target_update {key : K} {f : V → V} {steps : List (Step K V T R)} (s : Rows K V T R)
    (hkey : ∀ x ∈ steps, key ∉ x.keys) :
    (target (.must (.update key f) :: steps) s).row key = (s.row key).map f := by
  show (applied (send steps fun _ => ⟨0, true⟩) (s.update key f)).row key = _
  rw [applied_row steps _ _ key hkey, Rows.update_row]

theorem target_upsert {key : K} {f : V → V} {v : V} {steps : List (Step K V T R)}
    (s : Rows K V T R) (hkey : ∀ x ∈ steps, key ∉ x.keys) (hrow : (s.row key).isSome = true) :
    (target (.upsert key f v :: steps) s).row key = (s.row key).map f := by
  show (applied (send steps fun _ => ⟨0, true⟩)
    (if (s.row key).isSome then s.update key f else s.put key v)).row key = _
  rw [applied_row steps _ _ key hkey, if_pos hrow, Rows.update_row]

theorem target_delete {t : T} {steps : List (Step K V T R)} (s : Rows K V T R)
    (ht : ∀ x ∈ steps, t ∉ x.deletes) :
    ((target (.must (.delete t) :: steps) s).table t).length = inserted t steps := by
  show ((target steps (s.delete t)).table t).length = _
  rw [target_length steps _ t ht, Rows.delete_table, List.length_nil, Nat.zero_add]

/-! ## Stale rows -/

namespace Stale

variable {present : Bool} {x : Step K V T R} {steps : List (Step K V T R)} {s : Rows K V T R}

omit [DecidableEq K] in
/-- The rest of a script. -/
theorem tail (h : Stale present (x :: steps) s) : Stale present steps s where
  updates key f hx := h.updates key f (List.mem_cons_of_mem x hx)
  upserts key f v hx := h.upserts key f v (List.mem_cons_of_mem x hx)
  tables t hx := by
    have hlt := h.tables t (List.mem_cons_of_mem x hx)
    rw [inserted, List.map_cons, List.sum_cons] at hlt
    rw [inserted]
    omega

/-- A step leaves the rows as they are for the rest of the script. -/
theorem step (h : Stale present (x :: steps) s) (hapart : (x :: steps).Pairwise Step.Apart)
    (a : Nat → Answer) : Stale present steps ((x.sent a).apply s) := by
  have hx := (List.pairwise_cons.mp hapart).1
  have hrow : ∀ y ∈ steps, ∀ key ∈ y.keys, ((x.sent a).apply s).row key = s.row key := by
    intro y hy key hkey
    exact apply_row x a s key fun h' => (hx y hy).1 key h' hkey
  refine ⟨fun key f hy => ?_, fun key f v hy => ?_, fun t hy => ?_⟩
  · rw [hrow _ hy key List.mem_cons_self]
    exact h.tail.updates key f hy
  · rw [hrow _ hy key List.mem_cons_self]
    exact h.tail.upserts key f v hy
  · rw [apply_table x a s t fun h' => (hx _ hy).2 t h' List.mem_cons_self]
    exact h.tail.tables t hy

/-- A statement that is carried out is not undone. -/
theorem applied_must_ne {w : Write K V T R} (h : Stale present (.must w :: steps) s)
    (hapart : (Step.must w :: steps).Pairwise Step.Apart)
    (hnonempty : ∀ t rows, w = .insert t rows → rows ≠ []) (a : Nat → Answer)
    (hok : (a 0).ok = true) : applied (send (.must w :: steps) a) s ≠ s := by
  have hx := (List.pairwise_cons.mp hapart).1
  have hrun : applied (send (.must w :: steps) a) s =
      applied (send steps fun n => a (n + 1)) (w.apply s) := by
    show (if (!(a 0).ok) = true then s
      else applied (send steps fun n => a (n + 1)) (if (a 0).ok then w.apply s else s)) = _
    rw [hok]
    rfl
  rw [hrun]
  intro heq
  cases w with
  | update key f =>
      obtain ⟨v, hv, hne⟩ := h.updates key f List.mem_cons_self
      have hrow : (applied (send steps fun n => a (n + 1)) (s.update key f)).row key = some (f v) := by
        rw [applied_row steps _ _ key fun y hy => (hx y hy).1 key List.mem_cons_self,
          Rows.update_row, hv]
        rfl
      have hrow' := (congrArg (fun s => s.row key) heq).symm.trans hrow
      exact hne (Option.some.inj (hv.symm.trans hrow')).symm
  | delete t =>
      have hle := applied_length_le steps (fun n => a (n + 1)) (s.delete t) t
        fun y hy => (hx y hy).2 t List.mem_cons_self
      have hlt := h.tables t List.mem_cons_self
      have hlength := congrArg (fun s => (s.table t).length) heq
      rw [inserted, List.map_cons, List.sum_cons] at hlt
      rw [Rows.delete_table, List.length_nil, inserted] at hle
      simp only [Write.apply] at hlength
      omega
  | insert t rows =>
      have hge := applied_length_ge steps (fun n => a (n + 1)) (s.insert t rows) t
        fun y hy => (hx y hy).2 t List.mem_cons_self
      have hpos := List.length_pos_iff.mpr (hnonempty t rows rfl)
      have hlength := congrArg (fun s => (s.table t).length) heq
      rw [Rows.insert_table, List.length_append] at hge
      simp only [Write.apply] at hlength
      omega

/-- Without its first statement a script does not reach the new rows. -/
theorem target_must_ne {w : Write K V T R} (h : Stale present (.must w :: steps) s)
    (hapart : (Step.must w :: steps).Pairwise Step.Apart)
    (hfirst : (∃ key f, w = .update key f) ∨ ∃ t, w = .delete t) (s' : Rows K V T R)
    (hrow : ∀ key, (∀ x ∈ steps, key ∉ x.keys) → s'.row key = s.row key)
    (htable : ∀ t, (∀ x ∈ steps, t ∉ x.deletes) → (s.table t).length ≤ (s'.table t).length) :
    s' ≠ target (.must w :: steps) s := by
  have hx := (List.pairwise_cons.mp hapart).1
  intro heq
  rcases hfirst with ⟨key, f, rfl⟩ | ⟨t, rfl⟩
  · obtain ⟨v, hv, hne⟩ := h.updates key f List.mem_cons_self
    have hkey : ∀ y ∈ steps, key ∉ y.keys := fun y hy => (hx y hy).1 key List.mem_cons_self
    have hrow' := congrArg (fun s => s.row key) heq
    simp only [target_update s hkey, hrow key hkey, hv] at hrow'
    exact hne (Option.some.inj hrow').symm
  · have ht : ∀ y ∈ steps, t ∉ y.deletes := fun y hy => (hx y hy).2 t List.mem_cons_self
    have hlength := congrArg (fun s => (s.table t).length) heq
    have hlt := h.tables t List.mem_cons_self
    have hge := htable t ht
    rw [inserted, List.map_cons, List.sum_cons] at hlt
    simp only [target_delete s ht, inserted] at hlength
    omega

/-- Where a statement fails, the script does not reach the new rows. -/
theorem applied_ne_target (h : Stale true steps s) (hapart : steps.Pairwise Step.Apart)
    (hnonempty : ∀ t rows, Step.must (.insert t rows) ∈ steps → rows ≠ []) (a : Nat → Answer)
    (hnot : ¬∀ x ∈ send steps a, x.ok = true) : applied (send steps a) s ≠ target steps s := by
  induction steps generalizing s a with
  | nil => exact absurd (fun x hx => nomatch hx) hnot
  | cons x steps ih =>
      by_cases hok : (x.sent a).ok = true
      · have hfailed : failed [x.sent a] = false :=
          failed_of_ok fun y hy => List.mem_singleton.mp hy ▸ hok
        rw [failed, List.any_cons, List.any_nil, Bool.or_false] at hfailed
        have hnot' : (x.sent fun _ => ⟨0, true⟩).failed = false := by cases x <;> rfl
        rw [target, send, send, applied, applied, if_neg (ne_true_of_eq_false hfailed),
          if_neg (ne_true_of_eq_false hnot'), apply_of_ok x a s hok]
        refine ih (h.step hapart _) hapart.of_cons
          (fun t rows hy => hnonempty t rows (List.mem_cons_of_mem x hy)) _ fun hrest => hnot ?_
        rintro y (_ | ⟨_, hy⟩)
        · exact hok
        · exact hrest y hy
      · cases x with
        | must w =>
            -- the script is given up before the statement
            have hstop : applied (send (.must w :: steps) a) s = s := by
              rw [send, applied]
              exact if_pos (by simpa [Step.sent, Sent.ok, Sent.failed] using hok)
            rw [hstop, target]
            refine (h.applied_must_ne hapart (fun t rows hw => ?_) _ rfl).symm
            exact hnonempty t rows (hw ▸ List.mem_cons_self)
        | upsert key f v =>
            -- the row keeps its old value
            have hkey := (List.pairwise_cons.mp hapart).1
            obtain ⟨old, hold, hne⟩ := h.upserts key f v List.mem_cons_self
            have hsome : (s.row key).isSome = true := by rw [hold]; rfl
            have hself : (Step.sent (.upsert key f v) a).apply s = s := by
              simp only [Step.sent, Sent.apply, hsome, if_true]
              split
              · rename_i hwrite
                exact if_neg fun hselect => hok (Bool.and_eq_true_iff.mpr ⟨hselect, hwrite⟩)
              · rfl
            intro heq
            have hrow := congrArg (fun s => s.row key) heq
            have hleft : (applied (send (.upsert key f v :: steps) a) s).row key = some old := by
              show (applied (send steps fun n => a (n + 2))
                ((Step.sent (.upsert key f v) a).apply s)).row key = some old
              rw [hself, applied_row steps _ _ key fun y hy => (hkey y hy).1 key List.mem_cons_self,
                hold]
            simp only [hleft, target_upsert s (fun y hy => (hkey y hy).1 key List.mem_cons_self)
              hsome, hold] at hrow
            exact hne (Option.some.inj hrow).symm

/-- A script that changes something leaves a trace. -/
theorem applied_ne_old (h : Stale false steps s) (hapart : steps.Pairwise Step.Apart)
    (hnonempty : ∀ t rows, Step.must (.insert t rows) ∈ steps → rows ≠ []) (a : Nat → Answer)
    (hnot : ¬Silent (send steps a)) : applied (send steps a) s ≠ s := by
  induction steps generalizing a with
  | nil => exact absurd trivial hnot
  | cons x steps ih =>
      cases x with
      | must w =>
          have hok : (a 0).ok = true := by
            by_contra hfail
            refine hnot ⟨Bool.eq_false_iff.mpr hfail, .inl ?_⟩
            simpa [Step.sent, Sent.failed] using hfail
          exact h.applied_must_ne hapart (fun t rows hw => hnonempty t rows (hw ▸ List.mem_cons_self))
            a hok
      | upsert key f v =>
          have hkey := (List.pairwise_cons.mp hapart).1
          have hnone : s.row key = none := h.upserts key f v List.mem_cons_self
          cases hwrite : (a 1).ok with
          | true =>
              -- the row is new
              intro heq
              have hrow := congrArg (fun s => s.row key) heq
              have hleft : (applied (send (.upsert key f v :: steps) a) s).row key = some v := by
                show (applied (send steps fun n => a (n + 2))
                  ((Step.sent (.upsert key f v) a).apply s)).row key = some v
                rw [applied_row steps _ _ key fun y hy => (hkey y hy).1 key List.mem_cons_self]
                simp only [Step.sent, Sent.apply, hwrite, hnone, if_true, Option.isSome_none,
                  Bool.false_eq_true, if_false]
                exact Rows.put_row key v s
              simp only [hleft, hnone] at hrow
              cases hrow
          | false =>
              have hself : (Step.sent (.upsert key f v) a).apply s = s :=
                if_neg (ne_true_of_eq_false hwrite)
              have hrest : ¬Silent (send steps fun n => a (n + 2)) := fun hsilent =>
                hnot ⟨hwrite, .inr hsilent⟩
              show applied (send steps fun n => a (n + 2))
                ((Step.sent (.upsert key f v) a).apply s) ≠ s
              rw [hself]
              exact ih h.tail hapart.of_cons
                (fun t rows hy => hnonempty t rows (List.mem_cons_of_mem _ hy)) _ hrest

/-- So does the part of it from the first loss of the connection on. -/
theorem since_ne_old (h : Stale false steps s) (hapart : steps.Pairwise Step.Apart)
    (hnonempty : ∀ t rows, Step.must (.insert t rows) ∈ steps → rows ≠ []) (a : Nat → Answer)
    (hnot : ¬Quiet (send steps a)) : since (send steps a) s ≠ s := by
  induction steps generalizing a with
  | nil => exact absurd trivial hnot
  | cons x steps ih =>
      rw [send, since]
      rw [send, Quiet] at hnot
      by_cases hlost : (x.sent a).lost
      · rw [if_pos hlost] at hnot ⊢
        exact h.applied_ne_old hapart hnonempty a hnot
      · rw [if_neg hlost] at hnot ⊢
        rw [if_neg fun hfailed => hnot (.inl hfailed)]
        exact ih h.tail hapart.of_cons
          (fun t rows hy => hnonempty t rows (List.mem_cons_of_mem x hy)) _
          fun hquiet => hnot (.inr hquiet)

end Stale

/-! ## Scripts that replace tables -/

omit [DecidableEq K] in
/-- The steps of a `DBInsert`. -/
theorem mem_fillSteps {p : Packets R} {t : T} {rows : List (R t)} {x : Step K V T R}
    (h : x ∈ fillSteps p t rows) : ∃ ch, ch ≠ [] ∧ x = .must (.insert t ch) := by
  obtain ⟨ch, hch, rfl⟩ := List.mem_map.mp h
  exact ⟨ch, chunks_ne_nil _ _ _ ch hch, rfl⟩

omit [DecidableEq K] in
theorem fillSteps_apart (p : Packets R) (t : T) (rows : List (R t)) :
    (fillSteps p t rows : List (Step K V T R)).Pairwise Step.Apart := by
  refine List.pairwise_iff_forall_sublist.mpr fun {x y} hxy => ?_
  obtain ⟨ch, -, rfl⟩ := mem_fillSteps (hxy.subset List.mem_cons_self)
  obtain ⟨ch', -, rfl⟩ := mem_fillSteps (hxy.subset (List.mem_cons_of_mem _ List.mem_cons_self))
  exact ⟨fun key hkey => (nomatch hkey), fun t' _ ht' => nomatch ht'⟩

omit [DecidableEq K] in
/-- The steps that replace the rows of a table. -/
theorem mem_replaceSteps {p : Packets R} {t : T} {rows : List (R t)} {x : Step K V T R}
    (h : x ∈ replaceSteps p t rows) :
    x = .must (.delete t) ∨ ∃ ch, ch ≠ [] ∧ x = .must (.insert t ch) := by
  rcases List.mem_cons.mp h with hdelete | hfill
  · exact .inl hdelete
  · exact .inr (mem_fillSteps hfill)

omit [DecidableEq K] in
theorem replaceSteps_apart (p : Packets R) (t : T) (rows : List (R t)) :
    (replaceSteps p t rows : List (Step K V T R)).Pairwise Step.Apart := by
  refine List.pairwise_cons.mpr ⟨fun y hy => ?_, fillSteps_apart p t rows⟩
  obtain ⟨ch, -, rfl⟩ := mem_fillSteps hy
  exact ⟨fun key hkey => (nomatch hkey), fun t' _ ht' => nomatch ht'⟩

omit [DecidableEq K] in
/-- Different tables do not disturb each other. -/
theorem replaceTables_apart (p : Packets R) (rows : (t : T) → List (R t)) {tables : List T}
    (h : tables.Nodup) :
    (tables.flatMap fun t => (replaceSteps p t (rows t) : List (Step K V T R))).Pairwise
      Step.Apart := by
  refine List.pairwise_flatMap.mpr ⟨fun t _ => replaceSteps_apart p t (rows t), h.imp ?_⟩
  intro t t' hne x hx y hy
  have hkeys : x.keys = [] ∧ x.fills = [t] := by
    rcases mem_replaceSteps hx with rfl | ⟨ch, -, rfl⟩
    · exact ⟨rfl, rfl⟩
    · exact ⟨rfl, rfl⟩
  have hdeletes : ∀ u ∈ y.deletes, u = t' := by
    rcases mem_replaceSteps hy with rfl | ⟨ch, -, rfl⟩
    · exact fun u hu => List.mem_singleton.mp hu
    · exact fun u hu => nomatch hu
  refine ⟨fun key hkey => ?_, fun u hu hu' => hne ?_⟩
  · rw [hkeys.1] at hkey
    cases hkey
  · rw [hkeys.2] at hu
    exact (List.mem_singleton.mp hu).symm.trans (hdeletes u hu')

/-! ## Every other answer -/

/-- Old rows for a script: `old` where a row is changed, unless it is looked up
and not to be found, and one row more in each table than the script inserts. -/
def staleRows (present : Bool) (steps : List (Step K V T R)) (old : K → V) (row : (t : T) → R t) :
    Rows K V T R where
  row key := if present = false ∧ key ∈ steps.flatMap Step.selects then none else some (old key)
  table t := List.replicate (inserted t steps + 1) (row t)

namespace Replaces

variable {steps : List (Step K V T R)}

omit [DecidableEq K] [DecidableEq T] in
/-- A row that is updated is not looked up. -/
theorem not_mem_selects (h : Replaces steps) {key : K} {f : V → V}
    (hmem : Step.must (.update key f) ∈ steps) : key ∉ steps.flatMap Step.selects := by
  intro hselects
  obtain ⟨y, hy, hkey⟩ := List.mem_flatMap.mp hselects
  have hdisjoint : Std.Symm fun x y : Step K V T R => ∀ key ∈ x.keys, key ∉ y.keys :=
    ⟨fun x y hxy key hy hx => hxy key hx hy⟩
  have hpair : steps.Pairwise fun x y => ∀ key ∈ x.keys, key ∉ y.keys :=
    h.apart.imp fun hxy => hxy.1
  cases y with
  | must w => cases hkey
  | upsert key' f' v =>
      obtain rfl := List.mem_singleton.mp hkey
      exact hpair.forall hmem hy (fun heq => nomatch heq) key List.mem_cons_self
        List.mem_cons_self

omit [DecidableEq K] [DecidableEq T] in
theorem selects_nodup (h : Replaces steps) : (steps.flatMap Step.selects).Nodup := by
  have hkeys : ∀ x : Step K V T R, ∀ key ∈ x.selects, key ∈ x.keys := by
    intro x key hkey
    cases x with
    | must w => cases hkey
    | upsert key' f v => exact hkey
  refine List.nodup_flatMap.mpr ⟨fun x _ => ?_, h.apart.imp fun hxy => ?_⟩
  · cases x with
    | must w => exact List.nodup_nil
    | upsert key f v => exact List.nodup_singleton key
  · exact fun key hx hy => hxy.1 key (hkeys _ key hx) (hkeys _ key hy)

theorem stale (h : Replaces steps) (present : Bool) (old : K → V) (row : (t : T) → R t)
    (hupdate : ∀ key f, Step.must (.update key f) ∈ steps → f (old key) ≠ old key)
    (hupsert : ∀ key f v, Step.upsert key f v ∈ steps → f (old key) ≠ old key) :
    Stale present steps (staleRows present steps old row) where
  updates key f hmem :=
    ⟨old key, if_neg fun hkey => h.not_mem_selects hmem hkey.2, hupdate key f hmem⟩
  upserts key f v hmem := by
    have hkey : key ∈ steps.flatMap Step.selects :=
      List.mem_flatMap.mpr ⟨_, hmem, List.mem_singleton_self key⟩
    cases present with
    | true =>
        have hrow : (staleRows true steps old row).row key = some (old key) := by
          simp [staleRows]
        exact ⟨old key, hrow, hupsert key f v hmem⟩
    | false => exact if_pos ⟨rfl, hkey⟩
  tables t _ := by
    show _ < (List.replicate (inserted t steps + 1) (row t)).length
    rw [List.length_replicate]
    exact Nat.lt_succ_self _

end Replaces

omit [DecidableEq K] [DecidableEq T] in
/-- A connection that is not lost is quiet. -/
theorem quiet_of_lost_eq_false {xs : List (Sent K V T R)} (h : lost xs = false) : Quiet xs := by
  induction xs with
  | nil => trivial
  | cons x xs ih =>
      rw [lost, Bool.or_eq_false_iff] at h
      rw [Quiet, if_neg (ne_true_of_eq_false h.1)]
      cases hfailed : x.failed with
      | true => exact .inl rfl
      | false => exact .inr (ih (by simpa [hfailed] using h.2))

omit [DecidableEq K] [DecidableEq T] in
/-- A script that is not given up loses its transaction with the connection. -/
theorem lost_of_not_held {xs : List (Sent K V T R)} (hfailed : failed xs = false)
    (h : ¬∀ x ∈ xs, x.lost = false) : lost xs = true := by
  induction xs with
  | nil => exact absurd (fun x hx => nomatch hx) h
  | cons x xs ih =>
      rw [failed, List.any_cons, Bool.or_eq_false_iff] at hfailed
      rw [lost, hfailed.1, Bool.not_false, Bool.true_and]
      cases hlost : x.lost with
      | true => rfl
      | false =>
          refine ih hfailed.2 fun hrest => h ?_
          rintro y (_ | ⟨_, hy⟩)
          · exact hlost
          · exact hrest y hy

/-- Answers that are not safe leave a mixture, or a save that reports what it
has not done. -/
theorem not_allOrNothing (steps : List (Step K V T R)) (a : Nat → Answer) (h : Replaces steps)
    (old : K → V) (row : (t : T) → R t)
    (hupdate : ∀ key f, Step.must (.update key f) ∈ steps → f (old key) ≠ old key)
    (hupsert : ∀ key f v, Step.upsert key f v ∈ steps → f (old key) ≠ old key)
    (hnot : ¬Safe (a 0) (send steps fun n => a (n + 1)) (a (statements steps + 1))) :
    ∃ present, ¬AllOrNothing (target steps) (script steps) a (staleRows present steps old row) := by
  have hbegin : (a 0).ok = true := by
    by_contra hfail
    exact hnot (.inl (Bool.eq_false_iff.mpr hfail))
  have hstale := fun present => h.stale present old row hupdate hupsert
  have hrun := fun s => script_begun steps s a h.selects_nodup hbegin
  obtain ⟨w, rest, hsteps, hfirst⟩ : ∃ w rest, steps = .must w :: rest ∧
      ((∃ key f, w = .update key f) ∨ ∃ t, w = .delete t) := by
    obtain ⟨x, hx, hfirst⟩ := h.first
    obtain ⟨rest, rfl⟩ : ∃ rest, steps = x :: rest := by
      cases steps with
      | nil => cases hx
      | cons y rest => exact ⟨rest, by rw [Option.mem_some_iff.mp hx]⟩
    rcases hfirst with ⟨key, f, rfl⟩ | ⟨t, rfl⟩
    · exact ⟨_, rest, rfl, .inl ⟨key, f, rfl⟩⟩
    · exact ⟨_, rest, rfl, .inr ⟨t, rfl⟩⟩
  by_cases hquiet : Quiet (send steps fun n => a (n + 1))
  · -- nothing is given up: the save says that it was done
    have hgiven : ¬(failed (send steps fun n => a (n + 1)) = true ∨
        ¬((a (statements steps + 1)).losses = 0 ∧ (a (statements steps + 1)).ok = true)) :=
      fun hgiven => hnot (.inr (.inr ⟨hquiet, hgiven⟩))
    have hfailed : failed (send steps fun n => a (n + 1)) = false :=
      Bool.eq_false_iff.mpr fun hfailed => hgiven (.inl hfailed)
    have hcommit : (a (statements steps + 1)).losses = 0 ∧ (a (statements steps + 1)).ok = true :=
      by_contra fun hcommit => hgiven (.inr hcommit)
    refine ⟨true, fun hall => ?_⟩
    obtain ⟨hresult, hstored⟩ := hrun (staleRows true steps old row)
    rw [hfailed, hcommit.1, hcommit.2] at hresult hstored
    have hdone := hall.2 (hresult.trans rfl)
    rw [hstored] at hdone
    by_cases hheld : ∀ x ∈ send steps fun n => a (n + 1), x.lost = false
    · rw [lost_of_held hheld] at hdone
      exact (hstale true).applied_ne_target h.apart h.nonempty _
        (fun hok => hnot (.inr (.inl ⟨hok, .inl hheld⟩))) hdone
    · rw [lost_of_not_held hfailed hheld] at hdone
      have hsince := since_of_quiet _ (staleRows true steps old row) hquiet
      subst hsteps
      exact (hstale true).target_must_ne h.apart hfirst _ (fun _ _ => rfl) (fun _ _ => Nat.le_refl _)
        (hsince.symm.trans hdone)
  · -- what is stored is what was sent after the connection was lost
    have hlost : lost (send steps fun n => a (n + 1)) = true := by
      by_contra hheld
      exact hquiet (quiet_of_lost_eq_false (Bool.eq_false_iff.mpr hheld))
    have hsince : ∀ s, (script steps ⟨s, none, a⟩).2.stored =
        since (send steps fun n => a (n + 1)) s := by
      intro s
      rw [(hrun s).2, hlost, Bool.not_true, Bool.and_false, if_neg Bool.false_ne_true]
    subst hsteps
    by_cases hhead : (a 1).losses = 0
    · -- the first statement is rolled back
      refine ⟨false, fun hall => ?_⟩
      have hfirstHeld : ((Step.must w : Step K V T R).sent fun n => a (n + 1)).lost = false := by
        simp [Step.sent, Sent.lost, hhead]
      rcases hall.1 with hnew | hold
      · rw [hsince] at hnew
        refine (hstale false).target_must_ne h.apart hfirst _ (fun key hkey => ?_) (fun t ht => ?_) hnew
        · rw [send, since, if_neg (ne_true_of_eq_false hfirstHeld)]
          split
          · rfl
          · exact since_row rest _ _ key hkey
        · rw [send, since, if_neg (ne_true_of_eq_false hfirstHeld)]
          split
          · exact Nat.le_refl _
          · exact since_length_ge rest _ _ t ht
      · rw [hsince] at hold
        exact (hstale false).since_ne_old h.apart h.nonempty _ hquiet hold
    · -- everything takes effect at once, up to the statement that fails
      refine ⟨true, fun hall => ?_⟩
      have hfirstLost : ((Step.must w : Step K V T R).sent fun n => a (n + 1)).lost = true := by
        simp [Step.sent, Sent.lost, hhead]
      have happlied : ∀ s, since (send (.must w :: rest) fun n => a (n + 1)) s =
          applied (send (.must w :: rest) fun n => a (n + 1)) s := by
        intro s
        rw [send, since, if_pos hfirstLost]
      have hok : (a 1).ok = true := by
        by_contra hfail
        refine hquiet ?_
        rw [send, Quiet, if_pos hfirstLost]
        refine ⟨Bool.eq_false_iff.mpr hfail, .inl ?_⟩
        simpa [Step.sent, Sent.failed] using hfail
      rcases hall.1 with hnew | hold
      · rw [hsince, happlied] at hnew
        refine (hstale true).applied_ne_target h.apart h.nonempty _ (fun hall' => hnot ?_) hnew
        exact .inr (.inl ⟨hall', .inr ⟨_, rfl, hfirstLost⟩⟩)
      · rw [hsince, happlied] at hold
        refine (hstale true).applied_must_ne h.apart (fun t rows hw => ?_) _ hok hold
        exact h.nonempty t rows (hw ▸ List.mem_cons_self)

/-- A script leaves the new rows or the old ones, whatever the old ones are, if
and only if the answers are safe. -/
theorem script_allOrNothing (steps : List (Step K V T R)) (a : Nat → Answer) (h : Replaces steps)
    (old : K → V) (row : (t : T) → R t)
    (hupdate : ∀ key f, Step.must (.update key f) ∈ steps → f (old key) ≠ old key)
    (hupsert : ∀ key f v, Step.upsert key f v ∈ steps → f (old key) ≠ old key) :
    (∀ s, AllOrNothing (target steps) (script steps) a s) ↔
      Safe (a 0) (send steps fun n => a (n + 1)) (a (statements steps + 1)) := by
  constructor
  · intro hall
    by_contra hnot
    obtain ⟨present, hbad⟩ := not_allOrNothing steps a h old row hupdate hupsert hnot
    exact hbad (hall _)
  · intro hsafe s
    exact allOrNothing_of_safe steps a s h.selects_nodup hsafe

end Infernum.Database
