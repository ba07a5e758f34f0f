import Infernum.Lib.Rose
import Mathlib.Data.List.Flatten
import Mathlib.Data.List.Perm.Basic

/-!
# Walks with a worklist

A walk takes a tree from a list, goes through its children, and puts those that it opens on
the list: at the end of a queue, at the front of a stack, or at any other place. Whatever
the place, the walk comes to the same children, in another order.
-/

namespace Infernum.Lib.Rose

variable {α : Type} (opened : Rose α → Bool)

/-! ## What is on the list gets less -/

/-- What is not opened is in the trees by itself. -/
theorem length_flattenList_filter (ts : List (Rose α)) :
    ts.length + (flattenList (ts.filter opened)).length ≤
      (flattenList ts).length + (ts.filter opened).length := by
  induction ts with
  | nil => simp [flattenList]
  | cons t ts ih =>
      have hone : 0 < t.flatten.length := List.length_pos_of_mem t.label_mem_flatten
      by_cases ht : opened t
      · rw [List.filter_cons_of_pos ht]
        simp only [flattenList, List.length_append, List.length_cons]
        omega
      · rw [List.filter_cons_of_neg ht]
        simp only [flattenList, List.length_append, List.length_cons]
        omega

theorem length_flattenList_append (ts us : List (Rose α)) :
    (flattenList (ts ++ us)).length = (flattenList ts).length + (flattenList us).length := by
  simp [flattenList_eq]

theorem length_flattenList_cons (t : Rose α) (ts : List (Rose α)) :
    (flattenList (t :: ts)).length = 1 + (flattenList t.children).length +
      (flattenList ts).length := by
  cases t
  simp only [flattenList, flatten, children_node, List.length_append, List.length_cons]
  omega

/-- A walk has less before it with each tree it has gone through. -/
theorem length_flattenList_opened (t : Rose α) (rest : List (Rose α)) :
    (flattenList (rest ++ t.children.filter opened)).length <
      (flattenList (t :: rest)).length := by
  have hfilter := length_flattenList_filter opened t.children
  have hle := t.children.length_filter_le opened
  rw [length_flattenList_append, length_flattenList_cons]
  omega

/-! ## Disciplines -/

/-- Where new trees are put on the list. -/
structure Discipline (β : Type) where
  insert : List β → List β → List β
  perm : ∀ rest new, (insert rest new).Perm (rest ++ new)

/-- `push_back` of one after the other -/
def queue {β : Type} : Discipline β where
  insert rest new := rest ++ new
  perm _ _ := .refl _

/-- `push_front` of one after the other -/
def stack {β : Type} : Discipline β where
  insert rest new := new.reverse ++ rest
  perm rest new := List.perm_append_comm.trans ((List.reverse_perm new).append_left rest)

theorem length_flattenList_perm {ts us : List (Rose α)} (h : ts.Perm us) :
    (flattenList ts).length = (flattenList us).length := by
  rw [flattenList_eq, flattenList_eq]
  exact (h.flatMap_right flatten).length_eq

theorem length_flattenList_insert (d : Discipline (Rose α)) (t : Rose α) (rest : List (Rose α)) :
    (flattenList (d.insert rest (t.children.filter opened))).length <
      (flattenList (t :: rest)).length := by
  rw [length_flattenList_perm (d.perm _ _)]
  exact length_flattenList_opened opened t rest

/-- The children that a walk comes to and does not open. -/
def walk (d : Discipline (Rose α)) : List (Rose α) → List α
  | [] => []
  | t :: rest =>
      (t.children.filter (!opened ·)).map label ++
        walk d (d.insert rest (t.children.filter opened))
termination_by ts => (flattenList ts).length
decreasing_by exact length_flattenList_insert opened d t rest

mutual

/-- What is below and not opened, in pre-order. -/
def closed : Rose α → List α
  | node a ts => if opened (node a ts) then closedList ts else [a]

def closedList : List (Rose α) → List α
  | [] => []
  | t :: ts => closed t ++ closedList ts

end

theorem closed_of_opened {t : Rose α} (h : opened t = true) :
    closed opened t = closedList opened t.children := by
  cases t
  rw [closed, if_pos h, children_node]

theorem closed_of_not_opened {t : Rose α} (h : opened t = false) :
    closed opened t = [t.label] := by
  cases t
  rw [closed, if_neg (by simp [h]), label_node]

/-- The children that are not opened, and what is below those that are. -/
theorem closedList_perm (ts : List (Rose α)) :
    (closedList opened ts).Perm ((ts.filter (!opened ·)).map label ++
      (ts.filter opened).flatMap fun t => closedList opened t.children) := by
  induction ts with
  | nil => exact .refl _
  | cons t ts ih =>
      rw [closedList]
      cases h : opened t with
      | true =>
          rw [closed_of_opened opened h, List.filter_cons_of_neg (by simp [h]),
            List.filter_cons_of_pos h, List.flatMap_cons]
          exact (ih.append_left _).trans (List.perm_append_comm_assoc _ _ _)
      | false =>
          rw [closed_of_not_opened opened h, List.filter_cons_of_pos (by simp [h]),
            List.filter_cons_of_neg (by simp [h])]
          exact ih.cons t.label

/-- Every discipline comes to the same. -/
theorem walk_perm (d : Discipline (Rose α)) (ts : List (Rose α)) :
    (walk opened d ts).Perm (ts.flatMap fun t => closedList opened t.children) := by
  induction ts using walk.induct opened d with
  | case1 => rw [walk, List.flatMap_nil]
  | case2 t rest ih =>
      rw [walk, List.flatMap_cons]
      have hinsert := (d.perm rest (t.children.filter opened)).flatMap_right
        fun t => closedList opened t.children
      rw [List.flatMap_append] at hinsert
      refine ((ih.trans hinsert).append_left _).trans ?_
      refine .trans ?_ ((closedList_perm opened t.children).append_right _).symm
      rw [List.append_assoc]
      exact List.perm_append_comm.append_left _

theorem walk_perm_walk (d d' : Discipline (Rose α)) (ts : List (Rose α)) :
    (walk opened d ts).Perm (walk opened d' ts) :=
  (walk_perm opened d ts).trans (walk_perm opened d' ts).symm

end Infernum.Lib.Rose
