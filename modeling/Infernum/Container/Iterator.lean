import Infernum.Inventory.RemoveItems

/-!
# The iterator of a container

`Container::iterator` and `ContainerIterator`, with which money, shops, the market and
scripts go through all that is in a container. The iterator keeps the containers that it has
passed in a queue and goes through the first one. It comes to what a walk in breadth comes
to, in the same order.
-/

namespace Infernum.ContainerIteration

open Lib (Rose)

variable {α : Type}

/-- An `Item`, or a `Container` with its `itemlist`; each under its pointer. -/
inductive Item (α : Type)
  | item (pointer : α)
  | container (pointer : α) (itemlist : List (Item α))

namespace Item

/-- `getContainer`, by the `itemlist`. -/
def getContainer : Item α → Option (List (Item α))
  | .item _ => none
  | .container _ itemlist => some itemlist

def pointer : Item α → α
  | .item a => a
  | .container a _ => a

end Item

/-! ## The iterator -/

/-- `lists` is `over`, the containers by their item lists; `cur` is a place in the first
one. -/
structure ContainerIterator (α : Type) where
  lists : List (List (Item α)) := []
  cur : Nat := 0

/-- `Container::iterator`. -/
def iterator (itemlist : List (Item α)) : ContainerIterator α :=
  if !itemlist.isEmpty then { lists := [itemlist] } else {}

namespace ContainerIterator

def hasNext (it : ContainerIterator α) : Bool := !it.lists.isEmpty

/-- `operator*`; `none` where `cur` does not point to an item. -/
def current (it : ContainerIterator α) : Option (Item α) :=
  it.lists.head?.bind (·[it.cur]?)

/-- `over` when the item under `cur` has been looked at. -/
def pushBack (lists : List (List (Item α))) (i : Item α) : List (List (Item α)) :=
  match i.getContainer with
  | some c => if !c.isEmpty then lists ++ [c] else lists
  | none => lists

/-- `advance`; `none` where the behavior is undefined. -/
def advance (it : ContainerIterator α) : Option (ContainerIterator α) :=
  match it.current with
  | none => none
  | some i =>
      match pushBack it.lists i with
      | [] => none
      | front :: rest =>
          let cur := it.cur + 1
          if cur = front.length then
            -- `cur` is left at the end when there is no other container
            some { lists := rest, cur := if rest.isEmpty then cur else 0 }
          else some { lists := front :: rest, cur := cur }

/-- `for (it = iterator(); it.hasNext(); it.advance())`, with the items that it comes to;
`none` where more rounds than `fuel` are needed. -/
def loop : Nat → ContainerIterator α → Option (List (Item α))
  | 0, it => if it.hasNext then none else some []
  | fuel + 1, it =>
      if it.hasNext then
        it.current.bind fun i => it.advance.bind fun it => (loop fuel it).map (i :: ·)
      else some []

end ContainerIterator

/-! ## Trees -/

mutual

/-- The pointers of an item and of all that is in it. -/
def Item.tree : Item α → Rose α
  | .item a => .node a []
  | .container a itemlist => .node a (trees itemlist)

def trees : List (Item α) → List (Rose α)
  | [] => []
  | i :: is => i.tree :: trees is

end

/-- What is in an item. -/
def Item.inside (i : Item α) : List (Item α) := i.getContainer.getD []

theorem trees_eq (is : List (Item α)) : trees is = is.map Item.tree := by
  induction is with
  | nil => rfl
  | cons i is ih => rw [trees, ih, List.map_cons]

theorem trees_append (is js : List (Item α)) : trees (is ++ js) = trees is ++ trees js := by
  rw [trees_eq, trees_eq, trees_eq, List.map_append]

@[simp] theorem Item.label_tree (i : Item α) : i.tree.label = i.pointer := by
  cases i with
  | item a => rw [Item.tree, Rose.label_node, Item.pointer]
  | container a itemlist => rw [Item.tree, Rose.label_node, Item.pointer]

@[simp] theorem Item.children_tree (i : Item α) : i.tree.children = trees i.inside := by
  cases i with
  | item a => rw [Item.tree, Rose.children_node, Item.inside, Item.getContainer, Option.getD_none, trees]
  | container a itemlist =>
      rw [Item.tree, Rose.children_node, Item.inside, Item.getContainer, Option.getD_some]

/-! ## One round of the loop -/

namespace ContainerIterator

variable {it : ContainerIterator α}

/-- No container of the queue is empty, and there is an item under `cur`. -/
structure Valid (it : ContainerIterator α) : Prop where
  nonempty : ∀ l ∈ it.lists, l ≠ []
  inFront : ∀ front ∈ it.lists.head?, it.cur < front.length

/-- What has been queued, from `cur` on. -/
def pending (it : ContainerIterator α) : List (Item α) :=
  match it.lists with
  | [] => []
  | front :: rest => front.drop it.cur ++ rest.flatten

theorem valid_iterator (itemlist : List (Item α)) : (iterator itemlist).Valid := by
  rw [iterator]
  split
  · next h =>
    have hne : itemlist ≠ [] := by simpa using h
    refine ⟨fun l hl => (List.mem_singleton.mp hl) ▸ hne, fun front hfront => ?_⟩
    obtain rfl := Option.some.inj hfront
    exact List.length_pos_iff.mpr hne
  · exact ⟨by simp, by simp⟩

theorem pending_iterator (itemlist : List (Item α)) : (iterator itemlist).pending = itemlist := by
  rw [iterator]
  split
  · simp [pending]
  · next h =>
    have hnil : itemlist = [] := by simpa using h
    simp [pending, hnil]

theorem pushBack_eq (lists : List (List (Item α))) (i : Item α) :
    pushBack lists i = lists ++ if i.inside.isEmpty then [] else [i.inside] := by
  rw [pushBack, Item.inside]
  cases i.getContainer with
  | none => simp
  | some c =>
      rw [Option.getD_some]
      cases c <;> simp

/-- A round comes to the next item, and what is in it comes last. -/
theorem Valid.advance (hv : it.Valid) (hnext : it.hasNext = true) :
    ∃ i it' rest, it.current = some i ∧ it.advance = some it' ∧ it'.Valid ∧
      it.pending = i :: rest ∧ it'.pending = rest ++ i.inside := by
  obtain ⟨lists, cur⟩ := it
  cases lists with
  | nil => simp [hasNext] at hnext
  | cons front rest =>
      have hcur : cur < front.length := hv.inFront front rfl
      have hcurrent : current ⟨front :: rest, cur⟩ = some front[cur] := by
        simp [current, hcur]
      have hpush := pushBack_eq (front :: rest) front[cur]
      generalize hi : front[cur] = i at hcurrent hpush
      rw [List.cons_append] at hpush
      have hdrop : front.drop cur = i :: front.drop (cur + 1) := by
        rw [← hi]
        exact List.drop_eq_getElem_cons hcur
      have hqueued : (rest ++ if i.inside.isEmpty then [] else [i.inside]).flatten =
          rest.flatten ++ i.inside := by
        cases hinside : i.inside <;> simp
      have hnonempty : ∀ l ∈ rest ++ (if i.inside.isEmpty then [] else [i.inside]), l ≠ [] := by
        intro l hl
        rcases List.mem_append.mp hl with hl | hl
        · exact hv.nonempty l (List.mem_cons_of_mem _ hl)
        · cases hinside : i.inside <;> simp_all
      generalize (rest ++ if i.inside.isEmpty then [] else [i.inside]) = queued at *
      by_cases hlast : cur + 1 = front.length
      · -- the first container has been gone through
        refine ⟨i, ⟨queued, if queued.isEmpty then cur + 1 else 0⟩, rest.flatten, hcurrent, ?_,
          ⟨hnonempty, ?_⟩, ?_, ?_⟩
        · rw [ContainerIterator.advance, hcurrent]
          simp only [hpush, if_pos hlast]
        · intro l hl
          cases queued with
          | nil => cases hl
          | cons first queued =>
              obtain rfl := Option.some.inj hl
              exact List.length_pos_iff.mpr (hnonempty _ List.mem_cons_self)
        · show front.drop cur ++ rest.flatten = _
          rw [hdrop, hlast, List.drop_length]
          rfl
        · rw [← hqueued, pending]
          cases queued with
          | nil => rfl
          | cons first queued => simp
      · refine ⟨i, ⟨front :: queued, cur + 1⟩, front.drop (cur + 1) ++ rest.flatten, hcurrent, ?_,
          ⟨?_, ?_⟩, ?_, ?_⟩
        · rw [ContainerIterator.advance, hcurrent]
          simp only [hpush, if_neg hlast]
        · intro l hl
          rcases List.mem_cons.mp hl with rfl | hl
          · exact hv.nonempty l List.mem_cons_self
          · exact hnonempty l hl
        · intro l hl
          obtain rfl := Option.some.inj hl
          show cur + 1 < front.length
          omega
        · show front.drop cur ++ rest.flatten = _
          rw [hdrop]
          rfl
        · show front.drop (cur + 1) ++ queued.flatten = _
          rw [hqueued, List.append_assoc]

/-! ## The loop -/

theorem Valid.hasNext_iff (hv : it.Valid) : it.hasNext = true ↔ it.pending ≠ [] := by
  constructor
  · intro hnext
    obtain ⟨i, -, rest, -, -, -, hpending, -⟩ := hv.advance hnext
    simp [hpending]
  · intro hne
    rw [hasNext, Bool.not_eq_true', List.isEmpty_eq_false_iff]
    intro hover
    exact hne (by rw [pending, hover])

theorem breadth_trees_cons (i : Item α) (is : List (Item α)) :
    Rose.breadth (trees (i :: is)) = i.pointer :: Rose.breadth (trees (is ++ i.inside)) := by
  rw [trees, Rose.breadth, Item.label_tree, Item.children_tree, trees_append]

theorem Valid.breadth_done (hv : it.Valid) (hnext : it.hasNext = false) :
    Rose.breadth (trees it.pending) = [] := by
  have hpending : it.pending = [] := by
    by_contra hne
    rw [hv.hasNext_iff.mpr hne] at hnext
    cases hnext
  rw [hpending, trees, Rose.breadth]

/-- The loop ends after as many rounds as there are items in what is queued, and has come to
them in breadth. -/
theorem Valid.loop (hv : it.Valid) (fuel : Nat) :
    (it.loop fuel).map (·.map Item.pointer) =
      if (Rose.breadth (trees it.pending)).length ≤ fuel then
        some (Rose.breadth (trees it.pending))
      else none := by
  induction fuel generalizing it with
  | zero =>
      cases hnext : it.hasNext with
      | false => simp [ContainerIterator.loop, hnext, hv.breadth_done hnext]
      | true =>
          obtain ⟨i, -, rest, -, -, -, hpending, -⟩ := hv.advance hnext
          rw [hpending, breadth_trees_cons]
          simp [ContainerIterator.loop, hnext]
  | succ fuel ih =>
      cases hnext : it.hasNext with
      | false => simp [ContainerIterator.loop, hnext, hv.breadth_done hnext]
      | true =>
          obtain ⟨i, it', rest, hcurrent, hadvance, hv', hpending, hpending'⟩ := hv.advance hnext
          have hrest := ih hv'
          have hcons : ∀ l : Option (List (Item α)), (l.map (i :: ·)).map (·.map Item.pointer) =
              (l.map (·.map Item.pointer)).map (i.pointer :: ·) := by
            intro l
            cases l <;> rfl
          rw [ContainerIterator.loop, if_pos hnext, hcurrent, hadvance, Option.bind_some,
            Option.bind_some, hpending, breadth_trees_cons, ← hpending', List.length_cons, hcons,
            hrest]
          by_cases hfew : (Rose.breadth (trees it'.pending)).length ≤ fuel
          · rw [if_pos hfew, if_pos (Nat.succ_le_succ hfew)]
            rfl
          · rw [if_neg hfew, if_neg (by omega)]
            rfl

end ContainerIterator

/-! ## What is visited -/

/-- The loop over a container ends after one round for each item in it, at whatever depth. It
comes to each of them once and to nothing else, level after level, and on each level to one
container after the other in the order in which it came to these. -/
theorem iterator_visits (itemlist : List (Item α)) : ∃ visited : List α,
    (∀ fuel, ((iterator itemlist).loop fuel).map (·.map Item.pointer) =
      if visited.length ≤ fuel then some visited else none) ∧
    visited.Perm (Rose.flattenList (trees itemlist)) ∧
    ((Rose.flattenList (trees itemlist)).Nodup → visited.Nodup) ∧
    visited = (List.range visited.length).flatMap fun n =>
      (Rose.level n (trees itemlist)).map Rose.label := by
  have hperm := Rose.breadth_perm (trees itemlist)
  refine ⟨Rose.breadth (trees itemlist), fun fuel => ?_, hperm, hperm.nodup_iff.mpr, ?_⟩
  · have hloop := (ContainerIterator.valid_iterator itemlist).loop fuel
    rwa [ContainerIterator.pending_iterator] at hloop
  · exact Rose.breadth_levels (Rose.level_eq_nil hperm.length_eq.ge)

/-- A bag with a coin, an empty bag, and a box with another coin. -/
example : ((iterator [Item.item 1, .container 2 [], .container 3 [.item 4], .item 5]).loop 5).map
    (·.map Item.pointer) = some [1, 2, 3, 5, 4] := by decide

/-! ## The trees of an inventory -/

mutual

/-- An item of a tree, which is a container if something is in it. -/
def ofTree : Rose α → Item α
  | .node a ts => .container a (ofTrees ts)

def ofTrees : List (Rose α) → List (Item α)
  | [] => []
  | t :: ts => ofTree t :: ofTrees ts

end

mutual

theorem tree_ofTree : ∀ t : Rose α, (ofTree t).tree = t
  | .node a ts => by rw [ofTree, Item.tree, trees_ofTrees ts]

theorem trees_ofTrees : ∀ ts : List (Rose α), trees (ofTrees ts) = ts
  | [] => by rw [ofTrees, trees]
  | t :: ts => by rw [ofTrees, trees, tree_ofTree t, trees_ofTrees ts]

end

/-- Counting and removing go through the items to which the iterator comes. -/
theorem loop_eq_inventory_iterator (t : Inventory.Held) {fuel : Nat}
    (hfuel : (Inventory.iterator t).length ≤ fuel) :
    ((iterator (ofTrees t.children)).loop fuel).map (·.map Item.pointer) =
      some (Inventory.iterator t) := by
  have hloop := (ContainerIterator.valid_iterator (ofTrees t.children)).loop fuel
  rw [ContainerIterator.pending_iterator, trees_ofTrees] at hloop
  rw [hloop]
  exact if_pos hfuel

end Infernum.ContainerIteration
