import Infernum.Lib.Trie
import Mathlib.Data.Set.Insert

/-!
# The wildcard tree

`WildcardTreeNode`: a tree of characters in which the names of the players on-line
end in a `breakpoint`. The nodes are those of a trie over bytes; a `std::map` is the
list of its entries, whose order nothing reads.
-/

namespace Infernum.Wildcard

open Lib (Trie)

abbrev WildcardTreeNode := Trie UInt8

inductive ReturnValue where
  | noError | playerWithThisNameIsNotOnline | nameIsTooAmbiguous
  deriving DecidableEq, Repr

namespace WildcardTreeNode

/-- The tree before any name is in it. -/
def root : WildcardTreeNode := .node false []

def breakpoint (n : WildcardTreeNode) : Bool := n.mark

def getChild (n : WildcardTreeNode) (ch : UInt8) : Option WildcardTreeNode := n.child ch

/-- `addChild`: the child, and whether it was there or not the node with it. -/
def addChild (n : WildcardTreeNode) (ch : UInt8) (breakpoint : Bool) :
    WildcardTreeNode × WildcardTreeNode :=
  match n.getChild ch with
  | some child =>
      let child := if breakpoint && !child.mark then child.setMark true else child
      (child, n.setChild ch child)
  | none =>
      let child := .node breakpoint []
      (child, n.setChild ch child)

/-- `insert`. A name has at least one character. -/
def insert : WildcardTreeNode → List UInt8 → WildcardTreeNode
  | cur, [] => cur
  | cur, [ch] => (cur.addChild ch true).2
  | cur, ch :: str =>
      let (child, cur) := cur.addChild ch false
      cur.setChild ch (insert child str)

/-- The stack of `remove`: the nodes above the current one, the lowest first, each
with the character that leads on from it. -/
abbrev Path := List (WildcardTreeNode × UInt8)

/-- The first loop of `remove`, down the tree. -/
def down : WildcardTreeNode → List UInt8 → Path → Option (WildcardTreeNode × Path)
  | cur, [], path => some (cur, path)
  | cur, ch :: str, path =>
      match cur.getChild ch with
      | none => none
      | some child => down child str ((cur, ch) :: path)

/-- The tree whose node at the end of a path is this one. -/
def plug : WildcardTreeNode → Path → WildcardTreeNode
  | cur, [] => cur
  | cur, (parent, ch) :: path => plug (parent.setChild ch cur) path

/-- The second loop of `remove`, back up while the node on top is of no use. -/
def up : WildcardTreeNode → Path → WildcardTreeNode
  | cur, [] => cur
  | cur, (parent, ch) :: path =>
      if !cur.children.isEmpty || cur.breakpoint then plug cur ((parent, ch) :: path)
      else up (parent.eraseChild ch) path

def remove (n : WildcardTreeNode) (str : List UInt8) : WildcardTreeNode :=
  match down n str [] with
  | none => n
  | some (cur, path) => up (cur.setMark false) path

/-- The second loop of `findOne`, down the only children. -/
def follow : WildcardTreeNode → List UInt8 → ReturnValue × List UInt8
  | .node _ [], result => (.noError, result)
  | .node breakpoint [(ch, child)], result =>
      if breakpoint then (.nameIsTooAmbiguous, result) else follow child (result ++ [ch])
  | .node _ (_ :: _ :: _), result => (.nameIsTooAmbiguous, result)

/-- `findOne` and what it leaves in `result`. -/
def findOne (n : WildcardTreeNode) (query result : List UInt8) : ReturnValue × List UInt8 :=
  match n.descend query with
  | none => (.playerWithThisNameIsNotOnline, result)
  | some cur => follow cur query

end WildcardTreeNode

end Infernum.Wildcard

/-!
## The names in the wildcard tree

Inserting adds a word to a pruned tree and removing takes it out and prunes, so
after any history the tree stands for the set of the names present. A search walks
to the node of the query; the node is there exactly if some name begins with the
query, and only children lead on from it exactly as long as there is one such name.
-/

namespace Infernum.Wildcard

open Lib Lib.Trie

namespace WildcardTreeNode

variable {n : WildcardTreeNode}

/-- A node that is not there counts for an empty one. -/
def childOrNew (n : WildcardTreeNode) (ch : UInt8) : WildcardTreeNode :=
  (n.child ch).getD (.node false [])

theorem mem_words_childOrNew (ch : UInt8) (w : List UInt8) :
    w ∈ (n.childOrNew ch).words ↔ ch :: w ∈ n.words := by
  rw [cons_mem_words, childOrNew]
  cases n.child ch with
  | some child => simp
  | none =>
      cases w with
      | nil => simp
      | cons k w => simp [cons_mem_words]

theorem pruned_childOrNew (h : n.Pruned) (ch : UInt8) : (n.childOrNew ch).Pruned := by
  rw [childOrNew]
  cases hchild : n.child ch with
  | some child => exact (h.child hchild).1
  | none => exact pruned_leaf false

theorem setMark_mark (t : WildcardTreeNode) : t.setMark t.mark = t := by
  cases t
  rfl

theorem addChild_eq (ch : UInt8) (b : Bool) :
    n.addChild ch b =
      let child := (n.childOrNew ch).setMark ((n.childOrNew ch).mark || b)
      (child, n.setChild ch child) := by
  rw [addChild, getChild, childOrNew]
  cases n.child ch with
  | none => rfl
  | some child =>
      have hmark : (if b && !child.mark then child.setMark true else child) =
          child.setMark (child.mark || b) := by
        cases child with
        | node m cs => cases m <;> cases b <;> rfl
      simp only [Option.getD_some, hmark]

theorem cons_mem_words_setMark (m : Bool) (k : UInt8) (w : List UInt8) :
    k :: w ∈ (n.setMark m).words ↔ k :: w ∈ n.words := by
  rw [cons_mem_words, cons_mem_words, child_setMark]

/-! ## Insertion -/

theorem insert_singleton (ch : UInt8) :
    n.insert [ch] = n.setChild ch ((n.childOrNew ch).setMark true) := by
  rw [insert, addChild_eq, Bool.or_true]

theorem insert_cons (ch : UInt8) {str : List UInt8} (hstr : str ≠ []) :
    n.insert (ch :: str) = n.setChild ch ((n.childOrNew ch).insert str) := by
  cases str with
  | nil => exact absurd rfl hstr
  | cons c str =>
      rw [insert, addChild_eq, Bool.or_false, setMark_mark]
      · exact setChild_setChild ..
      · exact fun h => absurd h (List.cons_ne_nil _ _)

theorem insert_children (n : WildcardTreeNode) {str : List UInt8} (hstr : str ≠ []) :
    (n.insert str).children ≠ [] := by
  cases str with
  | nil => exact absurd rfl hstr
  | cons ch str =>
      by_cases hlast : str = []
      · subst hlast
        rw [insert_singleton]
        exact children_setChild_ne_nil _ _ _
      · rw [insert_cons ch hlast]
        exact children_setChild_ne_nil _ _ _

theorem mem_words_insert {str : List UInt8} (hstr : str ≠ []) (w : List UInt8) :
    w ∈ (n.insert str).words ↔ w = str ∨ w ∈ n.words := by
  induction str generalizing n w with
  | nil => exact absurd rfl hstr
  | cons ch str ih =>
      by_cases hlast : str = []
      · subst hlast
        rw [insert_singleton]
        cases w with
        | nil => simp
        | cons k w =>
            rw [cons_mem_words_setChild, List.cons.injEq]
            split
            · next hk =>
                subst hk
                cases w with
                | nil => simp
                | cons k' w => simp [cons_mem_words_setMark, mem_words_childOrNew]
            · next hk => simp [hk]
      · rw [insert_cons ch hlast]
        cases w with
        | nil => simp
        | cons k w =>
            rw [cons_mem_words_setChild, List.cons.injEq]
            split
            · next hk =>
                subst hk
                rw [ih hlast, mem_words_childOrNew]
                simp
            · next hk => simp [hk]

theorem pruned_insert {str : List UInt8} (h : n.Pruned) (hstr : str ≠ []) :
    (n.insert str).Pruned := by
  induction str generalizing n with
  | nil => exact absurd rfl hstr
  | cons ch str ih =>
      have hchild := pruned_childOrNew h ch
      by_cases hlast : str = []
      · subst hlast
        rw [insert_singleton]
        exact h.setChild (hchild.setMark true) fun _ => mark_setMark ..
      · rw [insert_cons ch hlast]
        exact h.setChild (ih hchild hlast) fun hleaf =>
          absurd hleaf (insert_children _ hlast)

/-! ## Removal -/

/-- `remove` without its stack: a child that is of no use afterwards is taken out. -/
def removed : WildcardTreeNode → List UInt8 → WildcardTreeNode
  | n, [] => n.setMark false
  | n, ch :: str =>
      match n.getChild ch with
      | none => n
      | some child =>
          let child := removed child str
          if !child.children.isEmpty || child.breakpoint then n.setChild ch child
          else n.eraseChild ch

theorem removed_cons (ch : UInt8) (str : List UInt8) {child : WildcardTreeNode}
    (hchild : n.child ch = some child) :
    n.removed (ch :: str) =
      if !(child.removed str).children.isEmpty || (child.removed str).breakpoint then
        n.setChild ch (child.removed str)
      else n.eraseChild ch := by
  rw [removed, getChild, hchild]

/-- The way back up prunes what `removed` prunes on its way. -/
theorem up_down {cur : WildcardTreeNode} {str : List UInt8} {path above : Path}
    (hdown : n.down str path = some (cur, above)) :
    up (cur.setMark false) above = up (n.removed str) path := by
  induction str generalizing n path with
  | nil =>
      rw [down] at hdown
      obtain ⟨rfl, rfl⟩ := Prod.mk.inj (Option.some.inj hdown)
      rw [removed]
  | cons ch str ih =>
      rw [down] at hdown
      cases hchild : n.child ch with
      | none =>
          rw [getChild, hchild] at hdown
          cases hdown
      | some child =>
          rw [getChild, hchild] at hdown
          rw [ih hdown, up, removed_cons ch str hchild]
          split
          · rw [plug]
            cases path with
            | nil => rfl
            | cons frame path =>
                have huse : (n.setChild ch (removed child str)).children.isEmpty = false :=
                  List.isEmpty_eq_false_iff.mpr (children_setChild_ne_nil _ _ _)
                rw [up, huse, Bool.not_false, Bool.true_or, if_pos rfl]
          · rfl

theorem down_eq_none {str : List UInt8} {path : Path} (hdown : n.down str path = none) :
    n.descend str = none := by
  induction str generalizing n path with
  | nil => cases hdown
  | cons ch str ih =>
      rw [down] at hdown
      rw [descend_cons]
      cases hchild : n.child ch with
      | none => rfl
      | some child =>
          rw [getChild, hchild] at hdown
          exact ih hdown

theorem remove_cases (n : WildcardTreeNode) (str : List UInt8) :
    n.remove str = n.removed str ∨ n.remove str = n ∧ str ∉ n.words := by
  rw [remove]
  cases hdown : n.down str [] with
  | none =>
      refine .inr ⟨rfl, fun hmem => ?_⟩
      obtain ⟨s, hs, _⟩ := hmem
      rw [down_eq_none hdown] at hs
      cases hs
  | some found =>
      left
      exact up_down hdown

/-- A child that is of no use holds no word. -/
theorem words_of_useless {child : WildcardTreeNode}
    (huseless : ¬(!child.children.isEmpty || child.breakpoint) = true) (w : List UInt8) :
    w ∉ child.words := by
  simp only [Bool.or_eq_true, Bool.not_eq_true', not_or, Bool.not_eq_false, Bool.not_eq_true,
    List.isEmpty_iff] at huseless
  obtain ⟨hleaf, hmark⟩ := huseless
  cases w with
  | nil =>
      rw [nil_mem_words]
      exact fun h => Bool.false_ne_true (hmark.symm.trans h)
  | cons k w =>
      rw [cons_mem_words, child_eq_none_of_leaf hleaf]
      rintro ⟨s, hs, _⟩
      cases hs

theorem mem_words_removed {str : List UInt8} (w : List UInt8) :
    w ∈ (n.removed str).words ↔ w ∈ n.words ∧ w ≠ str := by
  induction str generalizing n w with
  | nil =>
      rw [removed]
      cases w with
      | nil => simp
      | cons k w => simp [cons_mem_words_setMark]
  | cons ch str ih =>
      cases hchild : n.child ch with
      | none =>
          have habsent : ch :: str ∉ n.words := by
            rw [cons_mem_words, hchild]
            rintro ⟨s, hs, _⟩
            cases hs
          rw [removed, getChild, hchild]
          exact ⟨fun h => ⟨h, fun heq => habsent (heq ▸ h)⟩, And.left⟩
      | some child =>
          have hwords : ∀ w, ch :: w ∈ n.words ↔ w ∈ child.words := by
            intro w
            rw [cons_mem_words, hchild]
            simp
          rw [removed_cons ch str hchild]
          split
          · cases w with
            | nil => simp
            | cons k w =>
                rw [cons_mem_words_setChild]
                split
                · next hk =>
                    subst hk
                    rw [ih, hwords]
                    simp
                · next hk => simp [hk]
          · next huseless =>
            cases w with
            | nil => simp
            | cons k w =>
                rw [cons_mem_words_eraseChild]
                by_cases hk : k = ch
                · subst hk
                  have hnone := words_of_useless huseless w
                  rw [ih] at hnone
                  rw [hwords]
                  simpa using hnone
                · simp [hk]

theorem pruned_removed {str : List UInt8} (h : n.Pruned) : (n.removed str).Pruned := by
  induction str generalizing n with
  | nil =>
      rw [removed]
      exact h.setMark false
  | cons ch str ih =>
      cases hchild : n.child ch with
      | none =>
          rw [removed, getChild, hchild]
          exact h
      | some child =>
          rw [removed_cons ch str hchild]
          split
          · next huse =>
            refine h.setChild (ih (h.child hchild).1) fun hleaf => ?_
            rw [hleaf, List.isEmpty_nil, Bool.not_true, Bool.false_or] at huse
            exact huse
          · exact h.eraseChild

theorem mem_words_remove {str : List UInt8} (w : List UInt8) :
    w ∈ (n.remove str).words ↔ w ∈ n.words ∧ w ≠ str := by
  rcases remove_cases n str with heq | ⟨heq, habsent⟩
  · rw [heq, mem_words_removed]
  · rw [heq]
    exact ⟨fun h => ⟨h, fun hw => habsent (hw ▸ h)⟩, And.left⟩

theorem pruned_remove {str : List UInt8} (h : n.Pruned) : (n.remove str).Pruned := by
  rcases remove_cases n str with heq | ⟨heq, _⟩
  · exact heq ▸ pruned_removed h
  · exact heq.symm ▸ h

end WildcardTreeNode

end Infernum.Wildcard
