import Infernum.Lib.Rose
import Mathlib.Data.List.Perm.Basic

/-!
# Labels and what they lie below

The labels of a rose tree with the keys of the labels above them. To prune a key takes out
what has it and everything below; a relabelling that keeps the keys moves nothing. The
labels in breadth are those of the tree in another order.
-/

namespace Infernum.Lib

variable {α κ : Type}

/-- A label with the keys above it, the nearest first. -/
structure Placed (α κ : Type) where
  label : α
  above : List κ

def Placed.relabel (f : α → α) (r : Placed α κ) : Placed α κ := ⟨f r.label, r.above⟩

namespace Rose

variable (key : α → κ)

mutual

/-- The labels with their places, in pre-order. -/
def placed (above : List κ) : Rose α → List (Placed α κ)
  | node a ts => ⟨a, above⟩ :: placedList (key a :: above) ts

def placedList (above : List κ) : List (Rose α) → List (Placed α κ)
  | [] => []
  | t :: ts => placed above t ++ placedList above ts

end

mutual

/-- Take out what has the key. The root stays. -/
def prune [DecidableEq κ] (k : κ) : Rose α → Rose α
  | node a ts => node a (pruneList k ts)

def pruneList [DecidableEq κ] (k : κ) : List (Rose α) → List (Rose α)
  | [] => []
  | t :: ts => if key t.label = k then pruneList k ts else prune k t :: pruneList k ts

end

variable {key}

mutual

theorem label_placed (above : List κ) :
    ∀ t : Rose α, (placed key above t).map Placed.label = t.flatten
  | node a ts => by
      rw [placed, List.map_cons, label_placedList (key a :: above) ts, flatten_node,
        flattenList_eq]

theorem label_placedList (above : List κ) :
    ∀ ts : List (Rose α), (placedList key above ts).map Placed.label = flattenList ts
  | [] => rfl
  | t :: ts => by
      rw [placedList, List.map_append, label_placed above t, label_placedList above ts,
        flattenList]

end

mutual

/-- Everything keeps what is above its tree. -/
theorem above_placed {above : List κ} {k : κ} (hk : k ∈ above) :
    ∀ (t : Rose α), ∀ r ∈ placed key above t, k ∈ r.above
  | node a ts, r, hr => by
      rw [placed] at hr
      rcases List.mem_cons.mp hr with rfl | hr
      · exact hk
      · exact above_placedList (List.mem_cons_of_mem _ hk) ts r hr

theorem above_placedList {above : List κ} {k : κ} (hk : k ∈ above) :
    ∀ (ts : List (Rose α)), ∀ r ∈ placedList key above ts, k ∈ r.above
  | t :: ts, r, hr => by
      rw [placedList] at hr
      rcases List.mem_append.mp hr with hr | hr
      · exact above_placed hk t r hr
      · exact above_placedList hk ts r hr

end

/-- All of a tree is its root or below it. -/
theorem placed_root {above : List κ} {t : Rose α} {r : Placed α κ} (hr : r ∈ placed key above t) :
    r = ⟨t.label, above⟩ ∨ key t.label ∈ r.above := by
  cases t with
  | node a ts =>
    rw [placed] at hr
    rcases List.mem_cons.mp hr with rfl | hr
    · exact .inl rfl
    · exact .inr (above_placedList List.mem_cons_self ts r hr)

mutual

/-- Whatever lies above something in a tree is in the tree, or above the tree. -/
theorem mem_above_placed {above : List κ} {k : κ} :
    ∀ (t : Rose α), ∀ r ∈ placed key above t, k ∈ r.above →
      k ∈ above ∨ ∃ r' ∈ placed key above t, key r'.label = k
  | node a ts, r, hr, hk => by
      rw [placed] at hr ⊢
      rcases List.mem_cons.mp hr with rfl | hr
      · exact .inl hk
      · rcases mem_above_placedList ts r hr hk with hk | ⟨r', hr', heq⟩
        · rcases List.mem_cons.mp hk with rfl | hk
          · exact .inr ⟨_, List.mem_cons_self, rfl⟩
          · exact .inl hk
        · exact .inr ⟨r', List.mem_cons_of_mem _ hr', heq⟩

theorem mem_above_placedList {above : List κ} {k : κ} :
    ∀ (ts : List (Rose α)), ∀ r ∈ placedList key above ts, k ∈ r.above →
      k ∈ above ∨ ∃ r' ∈ placedList key above ts, key r'.label = k
  | t :: ts, r, hr, hk => by
      rw [placedList] at hr ⊢
      rcases List.mem_append.mp hr with hr | hr
      · rcases mem_above_placed t r hr hk with hk | ⟨r', hr', heq⟩
        · exact .inl hk
        · exact .inr ⟨r', List.mem_append_left _ hr', heq⟩
      · rcases mem_above_placedList ts r hr hk with hk | ⟨r', hr', heq⟩
        · exact .inl hk
        · exact .inr ⟨r', List.mem_append_right _ hr', heq⟩

end

/-! ## Pruning -/

section

variable [DecidableEq κ]

/-- What stays when a key is pruned. -/
def Outside (key : α → κ) (k : κ) (r : Placed α κ) : Prop := key r.label ≠ k ∧ k ∉ r.above

instance (k : κ) (r : Placed α κ) : Decidable (Outside key k r) :=
  inferInstanceAs (Decidable (_ ∧ _))

mutual

theorem placed_prune {k : κ} {above : List κ} (hk : k ∉ above) :
    ∀ t : Rose α, key t.label ≠ k →
      placed key above (prune key k t) = (placed key above t).filter (Outside key k ·)
  | node a ts, ha => by
      have hne : key a ≠ k := ha
      have hroot : Outside key k ⟨a, above⟩ := ⟨hne, hk⟩
      have hbelow : k ∉ key a :: above := by
        rw [List.mem_cons, not_or]
        exact ⟨hne.symm, hk⟩
      rw [prune, placed, placed, List.filter_cons_of_pos (by simpa using hroot),
        placedList_prune hbelow ts]

theorem placedList_prune {k : κ} {above : List κ} (hk : k ∉ above) :
    ∀ ts : List (Rose α),
      placedList key above (pruneList key k ts) =
        (placedList key above ts).filter (Outside key k ·)
  | [] => rfl
  | t :: ts => by
      rw [pruneList, placedList, List.filter_append]
      by_cases ht : key t.label = k
      · -- the whole tree goes
        have hnone : (placed key above t).filter (Outside key k ·) = [] := by
          rw [List.filter_eq_nil_iff]
          intro r hr hout
          rcases placed_root hr with rfl | hbelow
          · exact (of_decide_eq_true hout).1 ht
          · exact (of_decide_eq_true hout).2 (ht ▸ hbelow)
        rw [if_pos ht, hnone, List.nil_append, placedList_prune hk ts]
      · rw [if_neg ht, placedList, placed_prune hk t ht, placedList_prune hk ts]

end

end

/-! ## Relabelling -/

mutual

theorem placed_map {f : α → α} (hf : ∀ a, key (f a) = key a) (above : List κ) :
    ∀ t : Rose α, placed key above (t.map f) = (placed key above t).map (Placed.relabel f)
  | node a ts => by
      rw [map, placed, placed, List.map_cons, placedList_map hf, hf]
      rfl

theorem placedList_map {f : α → α} (hf : ∀ a, key (f a) = key a) (above : List κ) :
    ∀ ts : List (Rose α),
      placedList key above (mapList f ts) = (placedList key above ts).map (Placed.relabel f)
  | [] => rfl
  | t :: ts => by
      rw [mapList, placedList, placedList, List.map_append, placed_map hf above t,
        placedList_map hf above ts]

end

/-! ## Breadth -/

/-- The labels, what lies higher first. -/
def breadth : List (Rose α) → List α
  | [] => []
  | t :: ts => t.label :: breadth (ts ++ t.children)
termination_by ts => (flattenList ts).length
decreasing_by
  cases t with
  | node a us =>
    simp only [flattenList_eq, List.flatMap_append, List.flatMap_cons, flatten_node,
      children_node, List.length_append, List.length_cons]
    omega

theorem breadth_perm (ts : List (Rose α)) : (breadth ts).Perm (flattenList ts) := by
  induction ts using breadth.induct with
  | case1 => rw [breadth, flattenList]
  | case2 t ts ih =>
    rw [breadth]
    cases t with
    | node a us =>
      refine (List.Perm.cons a ih).trans ?_
      simp only [flattenList_eq, List.flatMap_append, List.flatMap_cons, flatten_node,
        children_node, List.cons_append]
      exact List.Perm.cons a List.perm_append_comm

/-- The trees that lie `n` levels below. -/
def level : Nat → List (Rose α) → List (Rose α)
  | 0, ts => ts
  | n + 1, ts => level n (ts.flatMap children)

/-- The first trees come before what is below them. -/
theorem breadth_append (ts us : List (Rose α)) :
    breadth (ts ++ us) = ts.map label ++ breadth (us ++ ts.flatMap children) := by
  induction ts generalizing us with
  | nil => simp
  | cons t ts ih =>
    rw [List.cons_append, breadth, List.append_assoc, ih, List.map_cons, List.flatMap_cons,
      List.append_assoc, List.cons_append]

theorem length_flattenList_children (ts : List (Rose α)) :
    (flattenList ts).length = ts.length + (flattenList (ts.flatMap children)).length := by
  induction ts with
  | nil => rfl
  | cons t ts ih =>
    cases t with
    | node a us =>
      rw [flattenList, flatten, List.length_append, ih]
      simp only [flattenList_eq, List.flatMap_cons, children_node, List.flatMap_append,
        List.length_append, List.length_cons]
      omega

/-- There are no more levels than trees. -/
theorem level_eq_nil {n : Nat} {ts : List (Rose α)} (h : (flattenList ts).length ≤ n) :
    level n ts = [] := by
  induction n generalizing ts with
  | zero =>
    have hlength := length_flattenList_children ts
    have hzero : ts.length = 0 := by omega
    exact List.length_eq_zero_iff.mp hzero
  | succ n ih =>
    cases ts with
    | nil => exact ih (Nat.zero_le n)
    | cons t ts =>
      refine ih ?_
      have hlength := length_flattenList_children (t :: ts)
      rw [List.length_cons] at hlength
      omega

/-- What lies higher first: level after level. -/
theorem breadth_levels {n : Nat} {ts : List (Rose α)} (h : level n ts = []) :
    breadth ts = (List.range n).flatMap fun k => (level k ts).map label := by
  induction n generalizing ts with
  | zero =>
    obtain rfl : ts = [] := h
    rw [breadth, List.range_zero, List.flatMap_nil]
  | succ n ih =>
    have hfirst := breadth_append ts []
    rw [List.append_nil, List.nil_append] at hfirst
    rw [hfirst, ih h, List.range_succ_eq_map, List.flatMap_cons, List.flatMap_map]
    rfl

end Rose

end Infernum.Lib
