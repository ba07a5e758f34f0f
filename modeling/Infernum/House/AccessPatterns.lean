import Infernum.House.GuildLines

/-!
# Expressions in access lists

An expression is a pattern for a whole name: `*` stands for any string, `?` for at most
one character, every other character for itself. The regular expression that it is
rewritten to matches just these names, up to line terminators.
-/

namespace Infernum.House.Access

open Lib.Regex
open Wildcard (asLowerCaseString)

/-! ## Patterns -/

/-- The name fits the pattern; `wild` are the characters that `*` and `?` may stand for. -/
inductive Stands (wild : UInt8 → Bool) : List UInt8 → List UInt8 → Prop
  | nil : Stands wild [] []
  | star {e u s : List UInt8} (hu : ∀ c ∈ u, wild c = true) (h : Stands wild e s) :
      Stands wild (star :: e) (u ++ s)
  | skip {e s : List UInt8} (h : Stands wild e s) : Stands wild (quest :: e) s
  | one {c : UInt8} {e s : List UInt8} (hc : wild c = true) (h : Stands wild e s) :
      Stands wild (quest :: e) (c :: s)
  | char {c : UInt8} {e s : List UInt8} (hstar : c ≠ Access.star) (hquest : c ≠ quest)
      (h : Stands wild e s) : Stands wild (c :: e) (c :: s)

theorem Stands.mono {wild wild' : UInt8 → Bool} (hle : ∀ c, wild c = true → wild' c = true)
    {e s : List UInt8} (h : Stands wild e s) : Stands wild' e s := by
  induction h with
  | nil => exact .nil
  | star hu _ ih => exact .star (fun c hc => hle c (hu c hc)) ih
  | skip _ ih => exact .skip ih
  | one hc _ ih => exact .one (hle _ hc) ih
  | char hstar hquest _ ih => exact .char hstar hquest ih

/-- What a character of an expression becomes. -/
def piece (c : UInt8) : Piece UInt8 :=
  if c = star then ⟨notLineTerminator, .star⟩
  else if c = quest then ⟨notLineTerminator, .optional⟩
  else ⟨(· == c), .once⟩

theorem takes_star {u : List UInt8} :
    (piece star).Takes u ↔ ∀ c ∈ u, notLineTerminator c = true := by
  simp [piece, Piece.Takes]

theorem takes_quest {u : List UInt8} : (piece quest).Takes u ↔
    u = [] ∨ ∃ c, u = [c] ∧ notLineTerminator c = true := by
  have hne : quest ≠ star := by decide
  simp only [piece, if_neg hne, if_true, Piece.Takes]
  constructor
  · rintro ⟨hu, hone⟩
    cases u with
    | nil => exact .inl rfl
    | cons c u =>
      obtain rfl : u = [] := by simpa using hone
      exact .inr ⟨c, rfl, hu c (by simp)⟩
  · rintro (rfl | ⟨c, rfl, hc⟩)
    · simp
    · exact ⟨by simpa using hc, Nat.le_refl _⟩

theorem takes_char {c : UInt8} (hstar : c ≠ star) (hquest : c ≠ quest) {u : List UInt8} :
    (piece c).Takes u ↔ u = [c] := by
  simp only [piece, if_neg hstar, if_neg hquest, Piece.Takes]
  constructor
  · rintro ⟨hu, hone⟩
    obtain ⟨d, rfl⟩ := List.length_eq_one_iff.mp hone
    have hd : d = c := by simpa using hu d (by simp)
    rw [hd]
  · rintro rfl
    simp

theorem matches_pieces {e s : List UInt8} :
    Matches (e.map piece) s ↔ Stands notLineTerminator e s := by
  constructor
  · intro h
    induction e generalizing s with
    | nil =>
      cases h
      exact .nil
    | cons c e ih =>
      obtain ⟨u, v, rfl, hu, hv⟩ := matches_cons_iff.mp h
      have hrest := ih hv
      by_cases hstar : c = star
      · subst hstar
        exact .star (takes_star.mp hu) hrest
      · by_cases hquest : c = quest
        · subst hquest
          rcases takes_quest.mp hu with rfl | ⟨d, rfl, hd⟩
          · exact .skip hrest
          · exact .one hd hrest
        · rw [(takes_char hstar hquest).mp hu]
          exact .char hstar hquest hrest
  · intro h
    induction h with
    | nil => exact .nil
    | star hu _ ih => exact .cons (takes_star.mpr hu) ih
    | skip _ ih => exact .cons (u := []) (takes_quest.mpr (.inl rfl)) ih
    | @one c e s hc _ ih => exact .cons (u := [c]) (takes_quest.mpr (.inr ⟨c, rfl, hc⟩)) ih
    | @char c e s hstar hquest _ ih =>
      exact .cons (u := [c]) ((takes_char hstar hquest).mpr rfl) ih

/-! ## The rewriting -/

theorem replaceString_singleton (str replacement : List UInt8) (sought : UInt8) :
    replaceString str [sought] replacement =
      str.flatMap fun c => if c = sought then replacement else [c] := by
  unfold replaceString
  induction str with
  | nil => rfl
  | cons c rest ih =>
    rw [List.flatMap_cons, replaceFrom]
    by_cases hc : c = sought
    · rw [if_pos (by simp [hc]), if_pos hc]
      exact congrArg _ ih
    · rw [if_neg (by simpa using Ne.symm hc), if_neg hc, ih]
      rfl

/-- What the rewriting makes of a character. -/
def rewrittenChar (c : UInt8) : List UInt8 :=
  if c ∈ metachars then [backslash, c]
  else if c = star then [dot, star]
  else if c = quest then [dot, quest]
  else [c]

theorem not_meta {c : UInt8} (h : c ∈ metachars) : c ≠ star ∧ c ≠ quest := by
  constructor
  · rintro rfl
    exact absurd h (by decide)
  · rintro rfl
    exact absurd h (by decide)

theorem rewritten_eq (e : List UInt8) : AccessList.rewritten e = e.flatMap rewrittenChar := by
  simp only [AccessList.rewritten, replaceString_singleton, List.flatMap_assoc]
  refine List.flatMap_congr fun c _ => ?_
  have hbs : backslash ≠ star ∧ backslash ≠ quest := by decide
  unfold rewrittenChar
  by_cases hmeta : c ∈ metachars
  · simp [if_pos hmeta, hbs, not_meta hmeta]
  · by_cases hstar : c = star
    · rw [hstar]
      rfl
    · by_cases hquest : c = quest
      · rw [hquest]
        rfl
      · simp [if_neg hmeta, hstar, hquest]

/-- What is rewritten never begins with a quantifier. -/
theorem quantifier_rewritten (e : List UInt8) :
    quantifier (e.flatMap rewrittenChar) = .once := by
  cases e with
  | nil => rfl
  | cons c e =>
    have hbs : backslash ≠ star ∧ backslash ≠ quest := by decide
    have hdot : dot ≠ star ∧ dot ≠ quest := by decide
    unfold rewrittenChar
    by_cases hmeta : c ∈ metachars
    · simp [if_pos hmeta, quantifier, hbs]
    · by_cases hstar : c = star
      · simp [if_neg hmeta, if_pos hstar, quantifier, hdot]
      · by_cases hquest : c = quest
        · simp [if_neg hmeta, if_neg hstar, if_pos hquest, quantifier, hdot]
        · simp [if_neg hmeta, if_neg hstar, if_neg hquest, quantifier]

theorem regexFrom_quantifier {c : UInt8} (h : c = star ∨ c = quest) (rest : List UInt8) :
    regexFrom true (c :: rest) = regexFrom false rest := by
  rw [regexFrom.eq_def]
  simp [h]

/-- The constructor of the regular expression never throws. -/
theorem regexFrom_rewritten (e : List UInt8) (quantifiable : Bool) :
    regexFrom quantifiable (e.flatMap rewrittenChar) = some (e.map piece) := by
  induction e generalizing quantifiable with
  | nil => rfl
  | cons c e ih =>
    have hquant := quantifier_rewritten e
    have hbs : backslash ≠ star ∧ backslash ≠ quest := by decide
    have hdot : dot ≠ star ∧ dot ≠ quest ∧ dot ≠ backslash := by decide
    rw [List.flatMap_cons, List.map_cons, rewrittenChar, piece]
    by_cases hmeta : c ∈ metachars
    · obtain ⟨hstar, hquest⟩ := not_meta hmeta
      simp only [if_pos hmeta, if_neg hstar, if_neg hquest, List.cons_append, List.nil_append]
      simp [regexFrom, hbs, hmeta, ih, hquant]
    · by_cases hstar : c = star
      · simp only [if_neg hmeta, if_pos hstar, List.cons_append, List.nil_append]
        simp [regexFrom, hdot, ih, quantifier, regexFrom_quantifier]
      · by_cases hquest : c = quest
        · have hne : quest ≠ star := by decide
          simp only [if_neg hmeta, if_neg hstar, if_pos hquest, List.cons_append,
            List.nil_append]
          simp [regexFrom, hdot, ih, quantifier, hne, regexFrom_quantifier]
        · -- an ordinary character is neither `.` nor a backslash: these are escaped
          have hne : c ≠ backslash ∧ c ≠ dot := by
            refine ⟨?_, ?_⟩
            · rintro rfl
              exact hmeta (by decide)
            · rintro rfl
              exact hmeta (by decide)
          simp only [if_neg hmeta, if_neg hstar, if_neg hquest, List.cons_append,
            List.nil_append]
          rw [regexFrom.eq_def]
          simp [hne, hstar, hquest, hmeta, ih, hquant]

theorem regex_rewritten (e : List UInt8) :
    regex (e.flatMap rewrittenChar) = some (e.map piece) :=
  regexFrom_rewritten e false

end Infernum.House.Access
