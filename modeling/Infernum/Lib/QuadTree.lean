import Mathlib.Tactic.Common

/-!
# Quad trees

A tree with four children at each inner node. A key is a path: for each level
the two bits that choose the child. The trees that are built by inserting paths
of one length have their values at that depth, and hold each value under the
path it was inserted with.
-/

namespace Infernum.Lib

/-- A quad tree with values at the leaves. -/
inductive QuadTree (α : Type*) where
  | nil
  | leaf (a : α)
  | node (c00 c10 c01 c11 : QuadTree α)

namespace QuadTree

variable {α : Type*}

/-- The two bits that choose a child. -/
abbrev Bits := Bool × Bool

/-- A child of a node. -/
def child : QuadTree α → Bits → QuadTree α
  | node c00 _ _ _, (false, false) => c00
  | node _ c10 _ _, (true, false) => c10
  | node _ _ c01 _, (false, true) => c01
  | node _ _ _ c11, (true, true) => c11
  | _, _ => nil

/-- Put a child in its place. -/
def setChild : QuadTree α → Bits → QuadTree α → QuadTree α
  | node _ c10 c01 c11, (false, false), c => node c c10 c01 c11
  | node c00 _ c01 c11, (true, false), c => node c00 c c01 c11
  | node c00 c10 _ c11, (false, true), c => node c00 c10 c c11
  | node c00 c10 c01 _, (true, true), c => node c00 c10 c01 c
  | t, _, _ => t

/-- A node without children. -/
def empty : QuadTree α := node nil nil nil nil

/-- The value under a path. -/
def find (t : QuadTree α) : List Bits → Option α
  | [] =>
      match t with
      | leaf a => some a
      | _ => none
  | b :: path => find (t.child b) path

/-- Insert a value under a path, if there is none. -/
def insert (a : α) (t : QuadTree α) : List Bits → QuadTree α
  | [] =>
      match t with
      | nil => leaf a
      | t => t
  | b :: path =>
      match t with
      | nil => empty.setChild b (insert a nil path)
      | t => t.setChild b (insert a (t.child b) path)

/-- A tree that has its values at a given depth. -/
def Uniform : Nat → QuadTree α → Prop
  | _, nil => True
  | 0, leaf _ => True
  | 0, node .. => False
  | _ + 1, leaf _ => False
  | n + 1, node c00 c10 c01 c11 => Uniform n c00 ∧ Uniform n c10 ∧ Uniform n c01 ∧ Uniform n c11

/-- A node is not a leaf and not missing. -/
def IsNode : QuadTree α → Prop
  | node .. => True
  | _ => False

theorem isNode_empty : (empty : QuadTree α).IsNode := trivial

theorem child_setChild_self {t : QuadTree α} (ht : t.IsNode) (b : Bits) (c : QuadTree α) :
    (t.setChild b c).child b = c := by
  cases t with
  | nil => cases ht
  | leaf a => cases ht
  | node c00 c10 c01 c11 => obtain ⟨_ | _, _ | _⟩ := b <;> rfl

theorem child_setChild_ne (t : QuadTree α) {b b' : Bits} (hne : b' ≠ b) (c : QuadTree α) :
    (t.setChild b c).child b' = t.child b' := by
  cases t with
  | nil => obtain ⟨_ | _, _ | _⟩ := b <;> rfl
  | leaf a => obtain ⟨_ | _, _ | _⟩ := b <;> rfl
  | node c00 c10 c01 c11 =>
      obtain ⟨_ | _, _ | _⟩ := b <;> obtain ⟨_ | _, _ | _⟩ := b' <;>
        first | rfl | exact absurd rfl hne

theorem isNode_setChild {t : QuadTree α} (ht : t.IsNode) (b : Bits) (c : QuadTree α) :
    (t.setChild b c).IsNode := by
  cases t with
  | nil => cases ht
  | leaf a => cases ht
  | node c00 c10 c01 c11 => obtain ⟨_ | _, _ | _⟩ := b <;> trivial

theorem Uniform.child {n : Nat} {t : QuadTree α} (h : Uniform (n + 1) t) (b : Bits) :
    Uniform n (t.child b) := by
  cases t with
  | nil => cases n <;> trivial
  | leaf a => cases h
  | node c00 c10 c01 c11 =>
      obtain ⟨h00, h10, h01, h11⟩ := h
      obtain ⟨_ | _, _ | _⟩ := b
      · exact h00
      · exact h01
      · exact h10
      · exact h11

theorem Uniform.setChild {n : Nat} {t : QuadTree α} (h : Uniform (n + 1) t) (b : Bits)
    {c : QuadTree α} (hc : Uniform n c) : Uniform (n + 1) (t.setChild b c) := by
  cases t with
  | nil => trivial
  | leaf a => cases h
  | node c00 c10 c01 c11 =>
      obtain ⟨h00, h10, h01, h11⟩ := h
      obtain ⟨_ | _, _ | _⟩ := b
      · exact ⟨hc, h10, h01, h11⟩
      · exact ⟨h00, h10, hc, h11⟩
      · exact ⟨h00, hc, h01, h11⟩
      · exact ⟨h00, h10, h01, hc⟩

theorem uniform_nil (n : Nat) : Uniform n (nil : QuadTree α) := by
  cases n <;> trivial

theorem uniform_empty (n : Nat) : Uniform (n + 1) (empty : QuadTree α) :=
  ⟨uniform_nil n, uniform_nil n, uniform_nil n, uniform_nil n⟩

theorem find_nil (path : List Bits) : find (nil : QuadTree α) path = none := by
  induction path with
  | nil => rfl
  | cons b path ih => exact ih

theorem find_empty (path : List Bits) : find (empty : QuadTree α) path = none := by
  cases path with
  | nil => rfl
  | cons b path => obtain ⟨_ | _, _ | _⟩ := b <;> exact find_nil path

/-- A tree of depth `n + 1` is a node, or missing. -/
theorem Uniform.cases {n : Nat} {t : QuadTree α} (h : Uniform (n + 1) t) : t = nil ∨ t.IsNode := by
  cases t with
  | nil => exact .inl rfl
  | leaf a => cases h
  | node c00 c10 c01 c11 => exact .inr trivial

theorem insert_cons_of_isNode {t : QuadTree α} (ht : t.IsNode) (a : α) (b : Bits)
    (path : List Bits) : insert a t (b :: path) = t.setChild b (insert a (t.child b) path) := by
  cases t with
  | nil => cases ht
  | leaf a => cases ht
  | node c00 c10 c01 c11 => rfl

/-- A missing tree takes a value as an empty node does. -/
theorem insert_empty_cons (a : α) (b : Bits) (path : List Bits) :
    (empty : QuadTree α).insert a (b :: path) = (nil : QuadTree α).insert a (b :: path) := by
  obtain ⟨_ | _, _ | _⟩ := b <;> rfl

/-- Inserting keeps the depth of a tree. -/
theorem Uniform.insert {n : Nat} {t : QuadTree α} (h : Uniform n t) (a : α) {path : List Bits}
    (hpath : path.length = n) : Uniform n (t.insert a path) := by
  induction path generalizing n t with
  | nil =>
      obtain rfl := hpath
      cases t with
      | nil => trivial
      | leaf a => trivial
      | node c00 c10 c01 c11 => cases h
  | cons b path ih =>
      obtain rfl := hpath
      rcases h.cases with rfl | hnode
      · exact (uniform_empty path.length).setChild b (ih (uniform_nil _) rfl)
      · rw [insert_cons_of_isNode hnode]
        exact h.setChild b (ih (h.child b) rfl)

/-- What is found after inserting: the value under its path, unless there was one
before, and everything else as before. -/
theorem find_insert {n : Nat} {t : QuadTree α} (h : Uniform n t) (a : α) {path path' : List Bits}
    (hpath : path.length = n) (hpath' : path'.length = n) :
    find (t.insert a path) path' =
      if path' = path then some ((find t path).getD a) else find t path' := by
  induction path generalizing n t path' with
  | nil =>
      obtain rfl := hpath
      obtain rfl := List.length_eq_zero_iff.mp hpath'
      rw [if_pos rfl]
      cases t with
      | nil => rfl
      | leaf a => rfl
      | node c00 c10 c01 c11 => cases h
  | cons b path ih =>
      obtain rfl := hpath
      cases path' with
      | nil => cases hpath'
      | cons b' path' =>
          have hlength : path'.length = path.length := Nat.succ.inj hpath'
          -- a node with the child that is inserted into, in place of a missing tree
          obtain ⟨t', ht', hnode, hinsert, hchild⟩ : ∃ t' : QuadTree α, Uniform (path.length + 1) t' ∧
              t'.IsNode ∧ t.insert a (b :: path) = t'.setChild b ((t'.child b).insert a path) ∧
              ∀ b path, find (t'.child b) path = find (t.child b) path := by
            rcases h.cases with rfl | hnode
            · refine ⟨empty, uniform_empty _, isNode_empty, ?_, ?_⟩
              · obtain ⟨_ | _, _ | _⟩ := b <;> rfl
              · intro b path
                obtain ⟨_ | _, _ | _⟩ := b <;> rfl
            · exact ⟨t, h, hnode, insert_cons_of_isNode hnode a b path, fun _ _ => rfl⟩
          rw [hinsert]
          show find ((t'.setChild b ((t'.child b).insert a path)).child b') path' = _
          by_cases heq : b' = b
          · subst heq
            rw [child_setChild_self hnode, ih (ht'.child b') rfl hlength, hchild, hchild]
            by_cases hpaths : path' = path
            · subst hpaths
              rw [if_pos rfl, if_pos rfl]
              rfl
            · rw [if_neg hpaths, if_neg fun h => hpaths (List.cons.inj h).2]
              rfl
          · rw [child_setChild_ne t' heq, hchild, if_neg fun h => heq (List.cons.inj h).1]
            rfl

end QuadTree

end Infernum.Lib
