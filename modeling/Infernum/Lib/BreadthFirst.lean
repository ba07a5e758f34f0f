import Infernum.Lib.Rose
import Mathlib.Algebra.BigOperators.Group.List.Basic
import Mathlib.Algebra.Order.Group.Nat
import Mathlib.Algebra.Order.Ring.Nat

/-!
# Trees as a table, in breadth-first order

The nodes of a list of trees are given running numbers, a queue of pending
lists of children deciding the order. Each entry of the table names its
parent: the number of another entry, or a number not above the first that is
handed out, for a root. `rebuild` reads trees back from the numbers.
-/

namespace Infernum.Lib.BreadthFirst

variable {α β : Type*}

/-- A node with its number and the number of its parent. -/
structure Entry (α : Type*) where
  parent : Nat
  id : Nat
  tree : Rose α

/-- Number a list of trees with given parents, from `n + 1` on. -/
def numberList : List (Nat × Rose α) → Nat → List (Entry α)
  | [], _ => []
  | (p, t) :: ts, n => ⟨p, n + 1, t⟩ :: numberList ts (n + 1)

variable (inner : α → Bool)

/-- The lists of children that are pending after `es`: only the nodes with an
`inner` label are entered. -/
def pending (es : List (Entry α)) : List (Nat × List (Rose α)) :=
  es.filterMap fun e => if inner e.tree.label then some (e.id, e.tree.children) else none

/-- The number of nodes in a queue, each pending list counted as one. -/
def weight (q : List (Nat × List (Rose α))) : Nat :=
  (q.map fun b => 1 + (b.2.map fun t => t.flatten.length).sum).sum

theorem weight_append (q r : List (Nat × List (Rose α))) :
    weight (q ++ r) = weight q + weight r := by
  rw [weight, List.map_append, List.sum_append]
  rfl

theorem weight_cons (b : Nat × List (Rose α)) (q : List (Nat × List (Rose α))) :
    weight (b :: q) = 1 + (b.2.map fun t => t.flatten.length).sum + weight q := by
  rw [weight, List.map_cons, List.sum_cons]
  rfl

theorem length_flatMap_flatten (ts : List (Rose α)) :
    (ts.flatMap Rose.flatten).length = (ts.map fun t => t.flatten.length).sum := by
  induction ts with
  | nil => rfl
  | cons t ts ih =>
      rw [List.flatMap_cons, List.length_append, ih, List.map_cons, List.sum_cons]

/-- What is pending after a list is less than the list. -/
theorem weight_pending_le (ts : List (Nat × Rose α)) (n : Nat) :
    weight (pending inner (numberList ts n)) ≤ (ts.map fun t => t.2.flatten.length).sum := by
  induction ts generalizing n with
  | nil => exact Nat.zero_le _
  | cons t ts ih =>
      obtain ⟨p, t⟩ := t
      have hrest := ih (n + 1)
      have hsize : t.flatten.length = 1 + (t.children.map fun u => u.flatten.length).sum := by
        cases t with
        | node a us =>
            rw [Rose.flatten_node, List.length_cons, length_flatMap_flatten, Rose.children_node]
            omega
      rw [numberList, pending, List.filterMap_cons, List.map_cons, List.sum_cons]
      split
      · rename_i hnone
        rw [pending] at hrest
        omega
      · rename_i b hsome
        split at hsome
        · obtain rfl := Option.some.inj hsome
          rw [weight_cons]
          rw [pending] at hrest
          dsimp only
          omega
        · exact absurd hsome (by simp)

/-- A list of trees under one parent. -/
def under (p : Nat) (ts : List (Rose α)) : List (Nat × Rose α) := ts.map fun t => (p, t)

/-- Number the pending lists, the first one first; the lists that they open
come last. -/
def numberQueue (q : List (Nat × List (Rose α))) (n : Nat) : List (Entry α) :=
  match q with
  | [] => []
  | (p, ts) :: q =>
      let es := numberList (under p ts) n
      es ++ numberQueue (q ++ pending inner es) (n + ts.length)
termination_by weight q
decreasing_by
  have h := weight_pending_le inner (under p ts) n
  have hunder : (under p ts).map (fun t => t.2.flatten.length) =
      ts.map fun t => t.flatten.length := by
    rw [under, List.map_map]
    rfl
  rw [hunder] at h
  rw [weight_append, weight_cons]
  dsimp only at h ⊢
  omega

/-- Number the nodes of trees with given parents. -/
def number (ts : List (Nat × Rose α)) (n : Nat) : List (Entry α) :=
  let es := numberList ts n
  es ++ numberQueue inner (pending inner es) (n + ts.length)

/-- The entries with a given parent. -/
def childrenOf (es : List (Entry α)) (p : Nat) : List (Entry α) := es.filter fun e => e.parent == p

theorem childrenOf_append (es fs : List (Entry α)) (p : Nat) :
    childrenOf (es ++ fs) p = childrenOf es p ++ childrenOf fs p := by
  rw [childrenOf, List.filter_append]
  rfl

/-! ## Numbers -/

theorem length_numberList (ts : List (Nat × Rose α)) (n : Nat) :
    (numberList ts n).length = ts.length := by
  induction ts generalizing n with
  | nil => rfl
  | cons t ts ih => rw [numberList, List.length_cons, ih, List.length_cons]

theorem numberList_ids (ts : List (Nat × Rose α)) (n : Nat) :
    (numberList ts n).map Entry.id = List.range' (n + 1) ts.length := by
  induction ts generalizing n with
  | nil => rfl
  | cons t ts ih => rw [numberList, List.map_cons, ih, List.length_cons, List.range'_succ]

theorem numberQueue_ids (q : List (Nat × List (Rose α))) (n : Nat) :
    (numberQueue inner q n).map Entry.id =
      List.range' (n + 1) (numberQueue inner q n).length := by
  induction q, n using numberQueue.induct inner with
  | case1 n => simp [numberQueue]
  | case2 n p ts q es ih =>
      rw [numberQueue, List.map_append, numberList_ids, ih, List.length_append, length_numberList,
        under, List.length_map, ← List.range'_append_1]
      congr 2
      omega

/-- The numbers are consecutive. -/
theorem number_ids (ts : List (Nat × Rose α)) (n : Nat) :
    (number inner ts n).map Entry.id = List.range' (n + 1) (number inner ts n).length := by
  rw [number, List.map_append, numberList_ids, numberQueue_ids, List.length_append,
    length_numberList, ← List.range'_append_1]
  congr 2
  omega

theorem id_of_mem_numberList {ts : List (Nat × Rose α)} {n : Nat} {e : Entry α}
    (h : e ∈ numberList ts n) : n < e.id ∧ e.id ≤ n + ts.length := by
  have hmem : e.id ∈ (numberList ts n).map Entry.id := List.mem_map_of_mem h
  rw [numberList_ids, List.mem_range'_1] at hmem
  omega

theorem lt_id_of_mem_numberQueue {q : List (Nat × List (Rose α))} {n : Nat} {e : Entry α}
    (h : e ∈ numberQueue inner q n) : n < e.id := by
  have hmem : e.id ∈ (numberQueue inner q n).map Entry.id := List.mem_map_of_mem h
  rw [numberQueue_ids, List.mem_range'_1] at hmem
  omega

/-! ## Parents -/

theorem parent_of_mem_numberList {ts : List (Nat × Rose α)} {n : Nat} {e : Entry α}
    (h : e ∈ numberList ts n) : (e.parent, e.tree) ∈ ts := by
  induction ts generalizing n with
  | nil => exact absurd h List.not_mem_nil
  | cons t ts ih =>
      rw [numberList] at h
      rcases List.mem_cons.mp h with rfl | hmem
      · exact List.mem_cons_self
      · exact List.mem_cons_of_mem t (ih hmem)

theorem mem_pending {es : List (Entry α)} {b : Nat × List (Rose α)} (h : b ∈ pending inner es) :
    ∃ e ∈ es, inner e.tree.label = true ∧ b = (e.id, e.tree.children) := by
  obtain ⟨e, he, hb⟩ := List.mem_filterMap.mp h
  split at hb
  · rename_i hinner
    exact ⟨e, he, hinner, (Option.some.inj hb).symm⟩
  · exact absurd hb (by simp)

/-- The children of an entry get larger numbers. -/
theorem parent_lt_numberQueue {q : List (Nat × List (Rose α))} {n : Nat}
    (hq : ∀ b ∈ q, b.1 ≤ n) : ∀ e ∈ numberQueue inner q n, e.parent < e.id := by
  induction q, n using numberQueue.induct inner with
  | case1 n =>
      intro e he
      rw [numberQueue] at he
      exact absurd he List.not_mem_nil
  | case2 n p ts q es ih =>
      intro e he
      rw [numberQueue] at he
      rcases List.mem_append.mp he with hmem | hmem
      · obtain ⟨t, _, ht⟩ := List.mem_map.mp (parent_of_mem_numberList hmem)
        have hparent : p = e.parent := congrArg Prod.fst ht
        have hp := hq (p, ts) List.mem_cons_self
        have hid := id_of_mem_numberList hmem
        dsimp only at hp
        omega
      · refine ih (fun b hb => ?_) e hmem
        rcases List.mem_append.mp hb with hbq | hbp
        · have := hq b (List.mem_cons_of_mem _ hbq)
          omega
        · obtain ⟨f, hf, _, rfl⟩ := mem_pending inner hbp
          have := id_of_mem_numberList hf
          rw [under, List.length_map] at this
          dsimp only
          omega

theorem parent_lt {ts : List (Nat × Rose α)} {n : Nat} (hts : ∀ t ∈ ts, t.1 ≤ n) :
    ∀ e ∈ number inner ts n, e.parent < e.id := by
  intro e he
  rw [number] at he
  rcases List.mem_append.mp he with hmem | hmem
  · have hparent := hts _ (parent_of_mem_numberList hmem)
    have hid := id_of_mem_numberList hmem
    dsimp only at hparent
    omega
  · refine parent_lt_numberQueue inner (fun b hb => ?_) e hmem
    obtain ⟨f, hf, _, rfl⟩ := mem_pending inner hb
    exact (id_of_mem_numberList hf).2

theorem mem_numberQueue_cases {q : List (Nat × List (Rose α))} {n : Nat} :
    ∀ e ∈ numberQueue inner q n, (∃ b ∈ q, b.1 = e.parent) ∨
      ∃ f ∈ numberQueue inner q n, f.id = e.parent ∧ inner f.tree.label = true := by
  induction q, n using numberQueue.induct inner with
  | case1 n =>
      intro e he
      rw [numberQueue] at he
      exact absurd he List.not_mem_nil
  | case2 n p ts q es ih =>
      intro e he
      rw [numberQueue] at he ⊢
      rcases List.mem_append.mp he with hmem | hmem
      · obtain ⟨t, _, ht⟩ := List.mem_map.mp (parent_of_mem_numberList hmem)
        exact .inl ⟨(p, ts), List.mem_cons_self, congrArg Prod.fst ht⟩
      · rcases ih e hmem with ⟨b, hb, hparent⟩ | ⟨f, hf, hparent⟩
        · rcases List.mem_append.mp hb with hbq | hbp
          · exact .inl ⟨b, List.mem_cons_of_mem _ hbq, hparent⟩
          · obtain ⟨f, hf, hinner, rfl⟩ := mem_pending inner hbp
            exact .inr ⟨f, List.mem_append_left _ hf, hparent, hinner⟩
        · exact .inr ⟨f, List.mem_append_right _ hf, hparent⟩

/-- An entry is one of the roots or a child of an entry that is entered. -/
theorem mem_number_cases {ts : List (Nat × Rose α)} {n : Nat} :
    ∀ e ∈ number inner ts n, (∃ t ∈ ts, t.1 = e.parent) ∨
      ∃ f ∈ number inner ts n, f.id = e.parent ∧ inner f.tree.label = true := by
  intro e he
  rw [number] at he ⊢
  rcases List.mem_append.mp he with hmem | hmem
  · exact .inl ⟨_, parent_of_mem_numberList hmem, rfl⟩
  · rcases mem_numberQueue_cases inner e hmem with ⟨b, hb, hparent⟩ | ⟨f, hf, hparent⟩
    · obtain ⟨f, hf, hinner, rfl⟩ := mem_pending inner hb
      exact .inr ⟨f, List.mem_append_left _ hf, hparent, hinner⟩
    · exact .inr ⟨f, List.mem_append_right _ hf, hparent⟩

/-- A property that a tree passes to its children holds of every entry if it
holds of the roots. -/
theorem forall_mem_numberQueue (P : Rose α → Prop) (hP : ∀ t, P t → ∀ u ∈ t.children, P u)
    (q : List (Nat × List (Rose α))) (n : Nat) (hq : ∀ b ∈ q, ∀ t ∈ b.2, P t) :
    ∀ e ∈ numberQueue inner q n, P e.tree := by
  induction q, n using numberQueue.induct inner with
  | case1 n =>
      intro e he
      rw [numberQueue] at he
      exact absurd he List.not_mem_nil
  | case2 n p ts q es ih =>
      have hes : ∀ e ∈ es, P e.tree := by
        intro e he
        obtain ⟨t, ht, heq⟩ := List.mem_map.mp (parent_of_mem_numberList he)
        have htree : t = e.tree := congrArg Prod.snd heq
        rw [← htree]
        exact hq (p, ts) List.mem_cons_self t ht
      intro e he
      rw [numberQueue] at he
      rcases List.mem_append.mp he with hmem | hmem
      · exact hes e hmem
      · refine ih (fun b hb t ht => ?_) e hmem
        rcases List.mem_append.mp hb with hbq | hbp
        · exact hq b (List.mem_cons_of_mem _ hbq) t ht
        · obtain ⟨f, hf, _, rfl⟩ := mem_pending inner hbp
          exact hP f.tree (hes f hf) t ht

theorem forall_mem_number (P : Rose α → Prop) (hP : ∀ t, P t → ∀ u ∈ t.children, P u)
    (ts : List (Nat × Rose α)) (n : Nat) (hts : ∀ t ∈ ts, P t.2) :
    ∀ e ∈ number inner ts n, P e.tree := by
  have hes : ∀ e ∈ numberList ts n, P e.tree :=
    fun e he => hts (e.parent, e.tree) (parent_of_mem_numberList he)
  intro e he
  rw [number] at he
  rcases List.mem_append.mp he with hmem | hmem
  · exact hes e hmem
  · refine forall_mem_numberQueue inner P hP _ _ (fun b hb t ht => ?_) e hmem
    obtain ⟨f, hf, _, rfl⟩ := mem_pending inner hb
    exact hP f.tree (hes f hf) t ht

/-! ## Children -/

theorem childrenOf_numberList (ts : List (Nat × Rose α)) (n p : Nat) :
    (childrenOf (numberList ts n) p).map Entry.tree =
      (ts.filter fun t => t.1 == p).map Prod.snd := by
  induction ts generalizing n with
  | nil => rfl
  | cons t ts ih =>
      have hrest := ih (n + 1)
      rw [childrenOf] at hrest
      rw [numberList, childrenOf, List.filter_cons, List.filter_cons]
      dsimp only
      split
      · rw [List.map_cons, List.map_cons, hrest]
      · exact hrest

/-- The pending lists of a parent that is no entry. -/
theorem pending_filter_of_not_mem (es : List (Entry α)) (p : Nat) (h : ∀ e ∈ es, e.id ≠ p) :
    (pending inner es).filter (fun b => b.1 == p) = [] := by
  rw [List.filter_eq_nil_iff]
  intro b hb
  obtain ⟨e, he, _, rfl⟩ := mem_pending inner hb
  simpa using h e he

/-- The pending list of an entry, if numbers are not used twice. -/
theorem pending_filter_of_mem (ts : List (Nat × Rose α)) (n : Nat) {e : Entry α}
    (h : e ∈ numberList ts n) :
    ((pending inner (numberList ts n)).filter fun b => b.1 == e.id).flatMap Prod.snd =
      if inner e.tree.label then e.tree.children else [] := by
  induction ts generalizing n with
  | nil => exact absurd h List.not_mem_nil
  | cons t ts ih =>
      obtain ⟨p, t⟩ := t
      have hcons : pending inner (⟨p, n + 1, t⟩ :: numberList ts (n + 1)) =
          (if inner t.label then [(n + 1, t.children)] else []) ++
            pending inner (numberList ts (n + 1)) := by
        rw [pending, List.filterMap_cons]
        dsimp only
        split
        · rename_i hnone
          split at hnone
          · exact absurd hnone (by simp)
          · rename_i hinner
            rw [if_neg hinner]
            rfl
        · rename_i b hsome
          split at hsome
          · rename_i hinner
            obtain rfl := Option.some.inj hsome
            rw [if_pos hinner]
            rfl
          · exact absurd hsome (by simp)
      rw [numberList] at h ⊢
      rw [hcons, List.filter_append, List.flatMap_append]
      rcases List.mem_cons.mp h with rfl | hmem
      · dsimp only
        rw [pending_filter_of_not_mem inner _ (n + 1) fun f hf => by
          have := id_of_mem_numberList hf
          omega]
        split
        · simp
        · simp
      · have hid := id_of_mem_numberList hmem
        have hne : ((n + 1 == e.id) = true) ↔ False := by
          rw [beq_iff_eq, iff_false]
          omega
        rw [ih (n + 1) hmem]
        split
        · simp [hne]
        · simp

/-- The children of every number that is or will be in the queue. -/
theorem childrenOf_numberQueue (q : List (Nat × List (Rose α))) (n : Nat)
    (hq : ∀ b ∈ q, b.1 ≤ n) :
    (∀ p ≤ n, (childrenOf (numberQueue inner q n) p).map Entry.tree =
      (q.filter fun b => b.1 == p).flatMap Prod.snd) ∧
    ∀ e ∈ numberQueue inner q n,
      (childrenOf (numberQueue inner q n) e.id).map Entry.tree =
        if inner e.tree.label then e.tree.children else [] := by
  induction q, n using numberQueue.induct inner with
  | case1 n =>
      constructor
      · intro p _
        rw [numberQueue]
        rfl
      · intro e he
        rw [numberQueue] at he
        exact absurd he List.not_mem_nil
  | case2 n p ts q es ih =>
      have hp : p ≤ n := hq (p, ts) List.mem_cons_self
      have hids : ∀ e ∈ es, n < e.id ∧ e.id ≤ n + ts.length := by
        intro e he
        have := id_of_mem_numberList he
        rwa [under, List.length_map] at this
      have hrest : ∀ b ∈ q ++ pending inner es, b.1 ≤ n + ts.length := by
        intro b hb
        rcases List.mem_append.mp hb with hbq | hbp
        · have := hq b (List.mem_cons_of_mem _ hbq)
          omega
        · obtain ⟨f, hf, _, rfl⟩ := mem_pending inner hbp
          exact (hids f hf).2
      obtain ⟨hlow, hhigh⟩ := ih hrest
      have hhead : ∀ c, (childrenOf es c).map Entry.tree = if p = c then ts else [] := by
        intro c
        rw [childrenOf_numberList, under, List.filter_map, List.map_map]
        split
        · rename_i hc
          simp [Function.comp_def, hc]
        · rename_i hc
          simp [Function.comp_def, hc]
      have hsplit : ∀ c, (childrenOf (numberQueue inner ((p, ts) :: q) n) c).map Entry.tree =
          (if p = c then ts else []) ++
            (childrenOf (numberQueue inner (q ++ pending inner es) (n + ts.length)) c).map
              Entry.tree := by
        intro c
        rw [numberQueue, childrenOf_append, List.map_append, hhead c]
      constructor
      · intro c hc
        rw [hsplit, hlow c (by omega), List.filter_append,
          pending_filter_of_not_mem inner es c fun e he => by
            have := hids e he
            omega,
          List.append_nil, List.filter_cons]
        by_cases hpc : p = c
        · simp [hpc]
        · simp [hpc]
      · intro e he
        have hnew : p ≠ e.id := by
          have := lt_id_of_mem_numberQueue inner he
          omega
        rw [hsplit, if_neg hnew, List.nil_append]
        rw [numberQueue] at he
        rcases List.mem_append.mp he with hmem | hmem
        · -- a node of this list: its children are the last in the queue
          have hid := hids e hmem
          rw [hlow e.id hid.2, List.filter_append, List.flatMap_append,
            pending_filter_of_mem inner _ n hmem]
          have hnone : (q.filter fun b => b.1 == e.id) = [] := by
            rw [List.filter_eq_nil_iff]
            intro b hb
            have := hq b (List.mem_cons_of_mem _ hb)
            simp
            omega
          rw [hnone]
          rfl
        · exact hhigh e hmem

/-- The roots at a place. -/
theorem childrenOf_root (ts : List (Nat × Rose α)) (n p : Nat) (hp : p ≤ n) :
    (childrenOf (number inner ts n) p).map Entry.tree =
      (ts.filter fun t => t.1 == p).map Prod.snd := by
  have hq : ∀ b ∈ pending inner (numberList ts n), b.1 ≤ n + ts.length := by
    intro b hb
    obtain ⟨f, hf, _, rfl⟩ := mem_pending inner hb
    exact (id_of_mem_numberList hf).2
  rw [number, childrenOf_append, List.map_append, childrenOf_numberList,
    (childrenOf_numberQueue inner _ _ hq).1 p (by omega),
    pending_filter_of_not_mem inner _ p fun e he => by
      have := id_of_mem_numberList he
      omega]
  simp

/-- The children of an entry. -/
theorem childrenOf_entry (ts : List (Nat × Rose α)) (n : Nat) (hts : ∀ t ∈ ts, t.1 ≤ n)
    (e : Entry α) (he : e ∈ number inner ts n) :
    (childrenOf (number inner ts n) e.id).map Entry.tree =
      if inner e.tree.label then e.tree.children else [] := by
  have hq : ∀ b ∈ pending inner (numberList ts n), b.1 ≤ n + ts.length := by
    intro b hb
    obtain ⟨f, hf, _, rfl⟩ := mem_pending inner hb
    exact (id_of_mem_numberList hf).2
  have hroot : (ts.filter fun t => t.1 == e.id) = [] := by
    rw [List.filter_eq_nil_iff]
    intro t ht
    have hle := hts t ht
    have hlt : n < e.id := by
      have hmem : e.id ∈ (number inner ts n).map Entry.id := List.mem_map_of_mem he
      rw [number_ids, List.mem_range'_1] at hmem
      omega
    simp
    omega
  rw [number] at he ⊢
  rw [childrenOf_append, List.map_append, childrenOf_numberList, hroot]
  rw [List.map_nil, List.nil_append]
  obtain ⟨hlow, hhigh⟩ := childrenOf_numberQueue inner _ _ hq
  rcases List.mem_append.mp he with hmem | hmem
  · rw [hlow e.id (id_of_mem_numberList hmem).2, pending_filter_of_mem inner ts n hmem]
  · exact hhigh e hmem

/-! ## Reading trees back -/

/-- The tree at a number, from the labels and the numbers of the children. -/
def rebuild (label : Nat → β) (kids : Nat → List Nat) : Nat → Nat → Rose β
  | 0, id => .node (label id) []
  | fuel + 1, id => .node (label id) ((kids id).map (rebuild label kids fuel))

/-- If the numbers grow from a parent to its children, the table gives every
tree back, with the labels that are stored for it. -/
theorem rebuild_eq (es : List (Entry α)) (f : α → β) (label : Nat → β) (kids : Nat → List Nat)
    (last : Nat) (hlast : ∀ e ∈ es, e.id ≤ last) (hparent : ∀ e ∈ es, e.parent < e.id)
    (hlabel : ∀ e ∈ es, label e.id = f e.tree.label)
    (hkids : ∀ e ∈ es, kids e.id = (childrenOf es e.id).map Entry.id)
    (htree : ∀ e ∈ es, (childrenOf es e.id).map Entry.tree = e.tree.children)
    (fuel : Nat) (e : Entry α) (he : e ∈ es) (hfuel : last ≤ fuel + e.id) :
    rebuild label kids fuel e.id = e.tree.map f := by
  have hchild : ∀ e ∈ es, ∀ c ∈ childrenOf es e.id, c ∈ es ∧ e.id < c.id := by
    intro e he c hc
    obtain ⟨hmem, hp⟩ := List.mem_filter.mp hc
    have hlt := hparent c hmem
    rw [beq_iff_eq] at hp
    exact ⟨hmem, by omega⟩
  have hmap : e.tree.map f = .node (f e.tree.label) (e.tree.children.map (Rose.map f)) := by
    rw [← Rose.map_node, Rose.node_label_children]
  induction fuel generalizing e with
  | zero =>
      have hnil : childrenOf es e.id = [] := by
        rw [List.eq_nil_iff_forall_not_mem]
        intro c hc
        have hc' := hchild e he c hc
        have := hlast c hc'.1
        omega
      have hchildren : e.tree.children = [] := by
        rw [← htree e he, hnil]
        rfl
      rw [rebuild, hlabel e he, hmap, hchildren]
      rfl
  | succ fuel ih =>
      rw [rebuild, hlabel e he, hmap, ← htree e he, hkids e he, List.map_map, List.map_map]
      congr 1
      refine List.map_congr_left fun c hc => ?_
      obtain ⟨hmem, hlt⟩ := hchild e he c hc
      exact ih c hmem (by omega) (by rw [← Rose.map_node, Rose.node_label_children])

end Infernum.Lib.BreadthFirst
