import Mathlib.Tactic.Common

/-!
# Rose trees

Trees with a list of children at every node, their pre-order list of labels
and the relabelling `map`. Functions on trees are given together with their
version on lists of children.
-/

namespace Infernum.Lib

/-- A label and the trees below it. -/
inductive Rose (α : Type*)
  | node (label : α) (children : List (Rose α))

namespace Rose

variable {α β γ : Type*}

/-- The label at the root. -/
def label : Rose α → α
  | node a _ => a

/-- The trees below the root. -/
def children : Rose α → List (Rose α)
  | node _ ts => ts

@[simp] theorem label_node (a : α) (ts : List (Rose α)) : (node a ts).label = a := rfl
@[simp] theorem children_node (a : α) (ts : List (Rose α)) : (node a ts).children = ts := rfl

theorem node_label_children (t : Rose α) : node t.label t.children = t := by
  cases t
  rfl

mutual

/-- Induction over a tree: the property holds of a node if it holds of all
trees below it. -/
theorem induct {P : Rose α → Prop} (step : ∀ a ts, (∀ t ∈ ts, P t) → P (node a ts)) :
    ∀ t, P t
  | node a ts => step a ts (inductList step ts)

theorem inductList {P : Rose α → Prop} (step : ∀ a ts, (∀ t ∈ ts, P t) → P (node a ts)) :
    ∀ ts : List (Rose α), ∀ t ∈ ts, P t
  | [], _, h => absurd h List.not_mem_nil
  | t :: ts, u, h => by
      rcases List.mem_cons.mp h with heq | hmem
      · rw [heq]
        exact induct step t
      · exact inductList step ts u hmem

end

mutual

/-- Relabel every node. -/
def map (f : α → β) : Rose α → Rose β
  | node a ts => node (f a) (mapList f ts)

/-- `map` on a list of trees. -/
def mapList (f : α → β) : List (Rose α) → List (Rose β)
  | [] => []
  | t :: ts => map f t :: mapList f ts

end

theorem mapList_eq (f : α → β) (ts : List (Rose α)) : mapList f ts = ts.map (map f) := by
  induction ts with
  | nil => rfl
  | cons t ts ih => rw [mapList, ih, List.map_cons]

@[simp] theorem map_node (f : α → β) (a : α) (ts : List (Rose α)) :
    (node a ts).map f = node (f a) (ts.map (map f)) := by
  rw [map, mapList_eq]

mutual

/-- The labels, a node before the trees below it. -/
def flatten : Rose α → List α
  | node a ts => a :: flattenList ts

/-- `flatten` on a list of trees. -/
def flattenList : List (Rose α) → List α
  | [] => []
  | t :: ts => flatten t ++ flattenList ts

end

theorem flattenList_eq (ts : List (Rose α)) : flattenList ts = ts.flatMap flatten := by
  induction ts with
  | nil => rfl
  | cons t ts ih => rw [flattenList, ih, List.flatMap_cons]

@[simp] theorem flatten_node (a : α) (ts : List (Rose α)) :
    (node a ts).flatten = a :: ts.flatMap flatten := by
  rw [flatten, flattenList_eq]

theorem label_mem_flatten (t : Rose α) : t.label ∈ t.flatten := by
  cases t
  simp

theorem map_map (g : β → γ) (f : α → β) (t : Rose α) :
    (t.map f).map g = t.map fun a => g (f a) := by
  induction t using induct with
  | step a ts ih =>
      rw [map_node, map_node, map_node, List.map_map]
      congr 1
      exact List.map_congr_left ih

end Rose

end Infernum.Lib
