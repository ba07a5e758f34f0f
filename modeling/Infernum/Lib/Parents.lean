import Mathlib.Logic.Relation
import Mathlib.Logic.Function.Basic

/-!
# Parent links

Every point has at most one parent. What is above a point, when the way up ends, and how
both change when the links do.
-/

namespace Infernum.Lib

variable {α : Type*} (up : α → Option α)

/-- `b` is `a` or above it. -/
abbrev Above : α → α → Prop := Relation.ReflTransGen fun a p => up a = some p

/-- The way up from `a` ends. -/
abbrev Ends (a : α) : Prop := Acc (fun p a => up a = some p) a

variable {up}

theorem Ends.parent {a p : α} (h : Ends up a) (hp : up a = some p) : Ends up p :=
  h.inv hp

theorem ends_of_none {a : α} (ha : up a = none) : Ends up a := by
  refine ⟨a, fun p hp => ?_⟩
  rw [ha] at hp
  cases hp

theorem Ends.of_above {a b : α} (h : Ends up a) (hab : Above up a b) : Ends up b := by
  induction hab with
  | refl => exact h
  | tail _ hp ih => exact ih.parent hp

/-- Nothing on a way that ends is above itself. -/
theorem Ends.not_above_self {a : α} (h : Ends up a) :
    ¬Relation.TransGen (fun a p => up a = some p) a a := by
  induction h with
  | intro a _ ih =>
      intro hcycle
      -- the cycle goes through the parent, too
      obtain ⟨p, hp, hrest⟩ := Relation.TransGen.head'_iff.mp hcycle
      exact ih p hp (Relation.TransGen.tail' hrest hp)

theorem above_iff_of_none {a b : α} (ha : up a = none) : Above up a b ↔ b = a := by
  refine ⟨fun h => ?_, fun h => h ▸ .refl⟩
  rcases h.cases_head with rfl | ⟨p, hp, _⟩
  · rfl
  · rw [ha] at hp
    cases hp

/-! ## Other links -/

variable {up' : α → Option α}

/-- A way that ends still ends if every link on it is kept or leads to a way that ends. -/
theorem Ends.of_links {a : α} (h : Ends up a)
    (hlinks : ∀ b, Above up a b → up' b = up b ∨ ∀ p, up' b = some p → Ends up' p) :
    Ends up' a := by
  induction h with
  | intro a _ ih =>
      refine ⟨a, fun p hp => ?_⟩
      rcases hlinks a .refl with hsame | hends
      · have hold : up a = some p := hsame ▸ hp
        exact ih p hold fun b hb => hlinks b (.head hold hb)
      · exact hends p hp

theorem above_congr {a b : α} (h : Above up' a b) (hsame : ∀ b, Above up a b → up' b = up b) :
    Above up a b := by
  induction h with
  | refl => exact .refl
  | tail _ hp ih => exact ih.tail (hsame _ ih ▸ hp)

/-! ## A new link -/

section Attach

variable [DecidableEq α] {x i : α}

theorem update_link (hne : ¬Above up i x) {b : α} (hb : Above up i b) :
    Function.update up x (some i) b = up b := by
  refine Function.update_of_ne ?_ _ _
  rintro rfl
  exact hne hb

theorem ends_attach (hends : ∀ a, Ends up a) (hne : ¬Above up i x) (a : α) :
    Ends (Function.update up x (some i)) a := by
  have hi : Ends (Function.update up x (some i)) i :=
    (hends i).of_links fun b hb => .inl (update_link hne hb)
  refine (hends a).of_links fun b _ => ?_
  by_cases hb : b = x
  · refine .inr fun p hp => ?_
    rw [hb, Function.update_self] at hp
    exact Option.some.inj hp ▸ hi
  · exact .inl (Function.update_of_ne hb _ _)

/-- What is above after the new link was there before, or the way leads over the link. -/
theorem above_attach (hne : ¬Above up i x) {a b : α}
    (h : Above (Function.update up x (some i)) a b) :
    Above up a b ∨ (Above up a x ∧ Above up i b) := by
  induction h using Relation.ReflTransGen.head_induction_on with
  | refl => exact .inl .refl
  | head hp _ ih =>
      rename_i c p _
      by_cases hc : c = x
      · rw [hc, Function.update_self] at hp
        obtain rfl := Option.some.inj hp
        rcases ih with hb | ⟨hx, _⟩
        · exact .inr ⟨hc ▸ .refl, hb⟩
        · exact absurd hx hne
      · rw [Function.update_of_ne hc] at hp
        rcases ih with hb | ⟨hx, hb⟩
        · exact .inl (.head hp hb)
        · exact .inr ⟨.head hp hx, hb⟩

end Attach

end Infernum.Lib
