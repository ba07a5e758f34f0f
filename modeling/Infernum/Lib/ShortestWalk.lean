import Mathlib.Order.Nat
import Mathlib.Tactic.Common

/-!
# Best-first search

Walks with costs, and a search that settles the cheapest of the vertices it has seen. A
settled vertex need not relax an edge that no cheapest walk uses.
-/

namespace Infernum.Lib

variable {V : Type*} (edge : V → V → Nat → Prop) (s : V)

/-- A walk from `s`, with the sum of the costs of its edges. -/
inductive Walk : V → Nat → Prop
  | start : Walk s 0
  | step {u v c w} : Walk u c → edge u v w → Walk v (c + w)

/-- What a search knows: each vertex it has seen has a label, and a settled one has shown
its edges to the labels, but for those that a cheaper walk goes around. -/
structure Settling (label : V → Option Nat) (settled : V → Prop) : Prop where
  start : label s = some 0
  relaxed : ∀ u v c w, settled u → label u = some c → edge u v w →
    (∃ d, label v = some d ∧ d ≤ c + w) ∨ ∃ d, Walk edge s v d ∧ d < c + w

variable {edge s} {label : V → Option Nat} {settled : V → Prop}

/-- A walk has ended in a settled vertex, or it has not got past the labels of the others:
by strong induction on its cost. -/
theorem Settling.settled_or_label (h : Settling edge s label settled)
    (hpos : ∀ u v w, edge u v w → 0 < w) {v : V} {c : Nat} (hwalk : Walk edge s v c) :
    (settled v ∧ ∃ d, label v = some d ∧ d ≤ c) ∨
      ∃ x d, ¬settled x ∧ label x = some d ∧ d ≤ c := by
  induction c using Nat.strongRecOn generalizing v with
  | ind c ih =>
      have hlabelled : ∀ d, label v = some d → d ≤ c →
          (settled v ∧ ∃ d, label v = some d ∧ d ≤ c) ∨
            ∃ x d, ¬settled x ∧ label x = some d ∧ d ≤ c := by
        intro d hd hle
        by_cases hv : settled v
        · exact .inl ⟨hv, d, hd, hle⟩
        · exact .inr ⟨v, d, hv, hd, hle⟩
      cases hwalk with
      | start => exact hlabelled 0 h.start (le_refl 0)
      | step hwalk hedge =>
          rename_i u c w
          have hw := hpos _ _ _ hedge
          rcases ih c (Nat.lt_add_of_pos_right hw) hwalk with
            ⟨hu, b, hb, hbc⟩ | ⟨x, d, hx, hd, hdc⟩
          · rcases h.relaxed _ _ _ _ hu hb hedge with ⟨d, hd, hle⟩ | ⟨d, hcheaper, hlt⟩
            · exact hlabelled d hd (le_trans hle (Nat.add_le_add_right hbc w))
            · -- the walk that goes around the edge is cheaper than this one
              have hless : d < c + w := lt_of_lt_of_le hlt (Nat.add_le_add_right hbc w)
              rcases ih d hless hcheaper with ⟨hv, e, he, hed⟩ | ⟨x, e, hx, he, hed⟩
              · exact .inl ⟨hv, e, he, le_trans hed (le_of_lt hless)⟩
              · exact .inr ⟨x, e, hx, he, le_trans hed (le_of_lt hless)⟩
          · exact .inr ⟨x, d, hx, hd, le_trans hdc (Nat.le_add_right c w)⟩

/-- The cheapest of the vertices that are not settled has the cost of a cheapest walk. -/
theorem Settling.le_of_walk (h : Settling edge s label settled)
    (hpos : ∀ u v w, edge u v w → 0 < w) {v : V} {b c : Nat} (hv : ¬settled v)
    (hbest : ∀ x d, ¬settled x → label x = some d → b ≤ d) (hwalk : Walk edge s v c) : b ≤ c := by
  rcases h.settled_or_label hpos hwalk with ⟨hsettled, -⟩ | ⟨x, d, hx, hd, hle⟩
  · exact absurd hsettled hv
  · exact le_trans (hbest x d hx hd) hle

end Infernum.Lib
