import Mathlib.Tactic.Common

/-!
# Sequences of quantified characters

Regular expressions without groups and alternatives: every piece is a class of
characters that is taken once, at most once or any number of times. The backtracking
matcher finds a way to cut the whole string up among the pieces whenever there is one.
-/

namespace Infernum.Lib.Regex

variable {α : Type}

inductive Quantifier
  | once
  | optional
  | star
deriving DecidableEq, Repr

structure Piece (α : Type) where
  accepts : α → Bool
  quantifier : Quantifier

/-- The strings that a piece can take. -/
def Piece.Takes (p : Piece α) (u : List α) : Prop :=
  (∀ c ∈ u, p.accepts c = true) ∧
    match p.quantifier with
    | .once => u.length = 1
    | .optional => u.length ≤ 1
    | .star => True

/-- The string is cut up among the pieces. -/
inductive Matches : List (Piece α) → List α → Prop
  | nil : Matches [] []
  | cons {p : Piece α} {ps : List (Piece α)} {u v : List α} (hu : p.Takes u)
      (hv : Matches ps v) : Matches (p :: ps) (u ++ v)

/-- Tries `rest` behind every beginning that `accepts` allows. -/
def starThen (accepts : α → Bool) (rest : List α → Bool) : List α → Bool
  | [] => rest []
  | c :: s => rest (c :: s) || (accepts c && starThen accepts rest s)

def onceThen (accepts : α → Bool) (rest : List α → Bool) : List α → Bool
  | [] => false
  | c :: s => accepts c && rest s

def Piece.takeThen (p : Piece α) (rest : List α → Bool) (s : List α) : Bool :=
  match p.quantifier with
  | .once => onceThen p.accepts rest s
  | .optional => rest s || onceThen p.accepts rest s
  | .star => starThen p.accepts rest s

/-- Matches the whole string. -/
def matchWhole : List (Piece α) → List α → Bool
  | [], s => s.isEmpty
  | p :: ps, s => p.takeThen (matchWhole ps) s

theorem onceThen_iff {accepts : α → Bool} {rest : List α → Bool} {s : List α} :
    onceThen accepts rest s = true ↔ ∃ c v, s = c :: v ∧ accepts c = true ∧ rest v = true := by
  cases s with
  | nil => simp [onceThen]
  | cons c v => simp [onceThen]

theorem starThen_iff {accepts : α → Bool} {rest : List α → Bool} {s : List α} :
    starThen accepts rest s = true ↔
      ∃ u v, s = u ++ v ∧ (∀ c ∈ u, accepts c = true) ∧ rest v = true := by
  induction s with
  | nil =>
    constructor
    · intro h
      exact ⟨[], [], rfl, nofun, h⟩
    · rintro ⟨u, v, hs, _, hrest⟩
      obtain ⟨rfl, rfl⟩ := List.append_eq_nil_iff.mp hs.symm
      exact hrest
  | cons c s ih =>
    simp only [starThen, Bool.or_eq_true, Bool.and_eq_true, ih]
    constructor
    · rintro (hrest | ⟨hc, u, v, rfl, hu, hrest⟩)
      · exact ⟨[], c :: s, rfl, nofun, hrest⟩
      · refine ⟨c :: u, v, rfl, ?_, hrest⟩
        simp only [List.mem_cons, forall_eq_or_imp]
        exact ⟨hc, hu⟩
    · rintro ⟨u, v, hs, hu, hrest⟩
      cases u with
      | nil =>
        rw [hs]
        exact .inl hrest
      | cons d u =>
        obtain ⟨rfl, rfl⟩ := List.cons.inj hs
        exact .inr ⟨hu c (by simp), u, v, rfl, fun e he => hu e (by simp [he]), hrest⟩

theorem Piece.takeThen_iff {p : Piece α} {rest : List α → Bool} {s : List α} :
    p.takeThen rest s = true ↔ ∃ u v, s = u ++ v ∧ p.Takes u ∧ rest v = true := by
  cases hq : p.quantifier with
  | once =>
    simp only [takeThen, Takes, hq, onceThen_iff]
    constructor
    · rintro ⟨c, v, rfl, hc, hrest⟩
      exact ⟨[c], v, rfl, ⟨by simpa using hc, rfl⟩, hrest⟩
    · rintro ⟨u, v, rfl, ⟨hu, hone⟩, hrest⟩
      obtain ⟨c, rfl⟩ := List.length_eq_one_iff.mp hone
      exact ⟨c, v, rfl, hu c (by simp), hrest⟩
  | optional =>
    simp only [takeThen, Takes, hq, Bool.or_eq_true, onceThen_iff]
    constructor
    · rintro (hrest | ⟨c, v, rfl, hc, hrest⟩)
      · exact ⟨[], s, rfl, ⟨nofun, Nat.zero_le _⟩, hrest⟩
      · exact ⟨[c], v, rfl, ⟨by simpa using hc, Nat.le_refl _⟩, hrest⟩
    · rintro ⟨u, v, rfl, ⟨hu, hone⟩, hrest⟩
      match u, hone with
      | [], _ => exact .inl hrest
      | [c], _ => exact .inr ⟨c, v, rfl, hu c (by simp), hrest⟩
  | star =>
    simp only [takeThen, Takes, hq, starThen_iff, and_true]

theorem matches_cons_iff {p : Piece α} {ps : List (Piece α)} {s : List α} :
    Matches (p :: ps) s ↔ ∃ u v, s = u ++ v ∧ p.Takes u ∧ Matches ps v := by
  constructor
  · rintro (_ | @⟨_, _, u, v, hu, hv⟩)
    exact ⟨u, v, rfl, hu, hv⟩
  · rintro ⟨u, v, rfl, hu, hv⟩
    exact .cons hu hv

theorem matchWhole_iff {ps : List (Piece α)} {s : List α} :
    matchWhole ps s = true ↔ Matches ps s := by
  induction ps generalizing s with
  | nil =>
    rw [matchWhole, List.isEmpty_iff]
    constructor
    · rintro rfl
      exact .nil
    · intro h
      cases h
      rfl
  | cons p ps ih =>
    simp only [matchWhole, Piece.takeThen_iff, matches_cons_iff, ih]

end Infernum.Lib.Regex
