import Infernum.Path.Nodes

/-!
# The search ends, and what it finds is a path

Each step of the search settles one more node, and there are at most `MAX_NODES` of them.
From every node the parents lead back to the start, and the steps on the way are steps that
the creature may make.
-/

namespace Infernum

open PathFinding Lib

namespace PathSeeker

variable {T : Type} [DecidableEq T] (s : PathSeeker T) (condition : PathCondition)
  (fpp : FindPathParams)

/-! ## Paths -/

/-- Where directions lead to. -/
def follow : Position → List PathFinding.Direction → Position
  | pos, [] => pos
  | pos, d :: path => follow (getNextPosition d pos) path

/-- Every place on the way may be walked on and is in the part of the map that is searched. -/
def Walkable : Position → List PathFinding.Direction → Prop
  | _, [] => True
  | pos, d :: path =>
      let next := getNextPosition d pos
      s.inSearchArea condition fpp next = true ∧ (∃ tile, s.Allowed next tile) ∧
        Walkable next path

/-- The cost of the steps and of the tiles that are entered. -/
def pathCost : Position → List PathFinding.Direction → Nat
  | _, [] => 0
  | pos, d :: path =>
      let next := getNextPosition d pos
      d.walkCost + ((s.getTile next).map s.getTileWalkCost).getD 0 + pathCost next path

/-- The condition has let the place through. -/
def Accepts (pos : Position) : Prop :=
  ∃ bestMatch, (condition.call s.position pos fpp bestMatch).1 = true

variable {s condition fpp}

theorem follow_append (pos : Position) (path more : List PathFinding.Direction) :
    follow pos (path ++ more) = follow (follow pos path) more := by
  induction path generalizing pos with
  | nil => rfl
  | cons d path ih => exact ih _

theorem Walkable.append {pos : Position} {path more : List PathFinding.Direction}
    (h : s.Walkable condition fpp pos path)
    (hmore : s.Walkable condition fpp (follow pos path) more) :
    s.Walkable condition fpp pos (path ++ more) := by
  induction path generalizing pos with
  | nil => exact hmore
  | cons d path ih => exact ⟨h.1, h.2.1, ih h.2.2 hmore⟩

omit [DecidableEq T] in
theorem pathCost_append (pos : Position) (path more : List PathFinding.Direction) :
    s.pathCost pos (path ++ more) = s.pathCost pos path + s.pathCost (follow pos path) more := by
  induction path generalizing pos with
  | nil => exact (Nat.zero_add _).symm
  | cons d path ih =>
      show _ + s.pathCost _ (path ++ more) = _ + s.pathCost _ path + _
      rw [ih]
      exact (Nat.add_assoc _ _ _).symm

/-- A step at the end of a path. -/
theorem StepTo.last {u v : Position} {w : Nat} (h : s.StepTo condition fpp u v w) :
    ∃ d, v = getNextPosition d u ∧ s.Walkable condition fpp u [d] ∧ s.pathCost u [d] = w := by
  obtain ⟨d, tile, rfl, harea, hallowed, rfl⟩ := h
  refine ⟨d, rfl, ⟨harea, ⟨tile, hallowed⟩, trivial⟩, ?_⟩
  show d.walkCost + ((s.getTile _).map s.getTileWalkCost).getD 0 + 0 = _
  rw [hallowed.1]
  rfl

/-! ## The way back -/

section

variable {st : AStarNodes} {settled : Finset Nat}

/-- The cost of a node is above that of its parent. -/
theorem NodesOk.parent_cases (hok : s.NodesOk condition fpp st settled) {i : Nat}
    (hi : i < st.curNode) : (i = 0 ∧ (st.nodes i).parent = none) ∨
      ∃ p < st.curNode, ∃ w, (st.nodes i).parent = some p ∧
        s.StepTo condition fpp (s.nodePlace (st.nodes p)) (s.nodePlace (st.nodes i)) w ∧
        (st.nodes i).f = (st.nodes p).f + w ∧ (st.nodes p).f < (st.nodes i).f := by
  rcases Nat.eq_zero_or_pos i with rfl | hpos
  · rw [hok.root]
    exact .inl ⟨rfl, rfl⟩
  · obtain ⟨p, hp, w, hparent, hstep, hf⟩ := hok.linked i hpos hi
    have hw := hstep.pos
    exact .inr ⟨p, hok.settled_lt p hp, w, hparent, hstep, hf, by omega⟩

/-- The nodes that are cheaper than a node. -/
def cheaper (st : AStarNodes) (i : Nat) : Finset Nat :=
  (Finset.range st.curNode).filter fun j => (st.nodes j).f < (st.nodes i).f

theorem cheaper_card_lt {i p : Nat} (hp : p < st.curNode)
    (hlt : (st.nodes p).f < (st.nodes i).f) : (cheaper st p).card < (cheaper st i).card := by
  refine Finset.card_lt_card ⟨fun j hj => ?_, fun hsub => ?_⟩
  · obtain ⟨hrange, hj⟩ := Finset.mem_filter.mp hj
    exact Finset.mem_filter.mpr ⟨hrange, lt_trans hj hlt⟩
  · have hmem := hsub (Finset.mem_filter.mpr ⟨Finset.mem_range.mpr hp, hlt⟩)
    exact lt_irrefl _ (Finset.mem_filter.mp hmem).2

theorem cheaper_card_le (hok : s.NodesOk condition fpp st settled) {i : Nat}
    (hi : i < st.curNode) : (cheaper st i).card < AStarNodes.MAX_NODES := by
  have hsub : cheaper st i ⊆ (Finset.range st.curNode).erase i := by
    intro j hj
    obtain ⟨hrange, hj⟩ := Finset.mem_filter.mp hj
    exact Finset.mem_erase.mpr ⟨fun heq => by subst heq; exact lt_irrefl _ hj, hrange⟩
  have hcard := Finset.card_le_card hsub
  rw [Finset.card_erase_of_mem (Finset.mem_range.mpr hi), Finset.card_range] at hcard
  have hle := hok.le
  omega

/-- The parents of a node lead to the first node. -/
theorem NodesOk.above_root (hok : s.NodesOk condition fpp st settled) {i : Nat}
    (hi : i < st.curNode) : Above (fun j => (st.nodes j).parent) i 0 := by
  induction hcost : (st.nodes i).f using Nat.strongRecOn generalizing i with
  | ind c ih =>
      rcases hok.parent_cases hi with ⟨rfl, -⟩ | ⟨p, hp, w, hparent, -, -, hlt⟩
      · exact .refl
      · exact .head hparent (ih _ (hcost ▸ hlt) hp rfl)

/-- The loop that follows the parents gives the way from the start, at the cost of the
node: by induction on the cheaper nodes. -/
theorem NodesOk.walkBack (hok : s.NodesOk condition fpp st settled) (hworld : s.InWorld)
    {fuel i : Nat} (hi : i < st.curNode) (hfuel : (cheaper st i).card ≤ fuel)
    (dirList : List PathFinding.Direction) :
    ∃ path, PathFinding.walkBack st.nodes fuel (st.nodes i).parent (st.nodes i).x.toNat
        (st.nodes i).y.toNat dirList = some (path ++ dirList) ∧
      s.Walkable condition fpp s.position path ∧
      follow s.position path = s.nodePlace (st.nodes i) ∧
      s.pathCost s.position path = (st.nodes i).f := by
  induction fuel generalizing i dirList with
  | zero =>
      rcases hok.parent_cases hi with ⟨rfl, hnone⟩ | ⟨p, hp, w, -, -, -, hlt⟩
      · refine ⟨[], ?_, trivial, hok.place_root.symm, ?_⟩
        · rw [hnone]
          rfl
        · rw [hok.root]
          rfl
      · have hcard := cheaper_card_lt hp hlt
        omega
  | succ fuel ih =>
      rcases hok.parent_cases hi with ⟨rfl, hnone⟩ | ⟨p, hp, w, hparent, hstep, hf, hlt⟩
      · refine ⟨[], ?_, trivial, hok.place_root.symm, ?_⟩
        · rw [hnone]
          rfl
        · rw [hok.root]
          rfl
      · obtain ⟨d, hnext, hwalk, hcost⟩ := hstep.last
        have hcard := cheaper_card_lt hp hlt
        obtain ⟨path, hback, hwalkable, hend, hpath⟩ := ih hp (by omega) (d :: dirList)
        -- the step leads from the parent to the node
        obtain ⟨tile, hallowed⟩ := hok.allowed hworld hi
        have hinside := hworld.inside _ _ hallowed.1
        rw [hnext] at hinside
        have hx := getX_next hinside
        have hy := getY_next hinside
        rw [← hnext] at hx hy
        have hdx : ((st.nodes p).x.toNat : Int) - (st.nodes i).x.toNat = -d.offset.1 := by
          have hx : ((st.nodes i).x.toNat : Int) = (st.nodes p).x.toNat + d.offset.1 := hx
          omega
        have hdy : ((st.nodes p).y.toNat : Int) - (st.nodes i).y.toNat = -d.offset.2 := by
          have hy : ((st.nodes i).y.toNat : Int) = (st.nodes p).y.toNat + d.offset.2 := hy
          omega
        refine ⟨path ++ [d], ?_, ?_, ?_, ?_⟩
        · rw [hparent, PathFinding.walkBack]
          rw [hdx, hdy, d.stepDirection_neg, List.append_assoc]
          exact hback
        · exact hwalkable.append (hend ▸ hwalk)
        · rw [follow_append, hend, hnext]
          rfl
        · rw [pathCost_append, hend, hpath, hcost, hf]

end

/-! ## The loop -/

variable (s condition fpp) in
/-- The loop goes on. -/
def Searching (v : Search) : Prop := fpp.maxSearchDist ≠ 0 ∨ v.nodes.closedNodes < 100

variable (s condition fpp) in
/-- The states that the loop comes to. -/
inductive Reached : Search → Prop
  | start : Reached s.startSearch
  | step {v v' : Search} (before : Reached v) (searching : Searching fpp v)
      (again : s.searchStep condition fpp v = .again v') : Reached v'

variable (s condition fpp) in
/-- The states in which the loop is left. -/
inductive Left : Search → Prop
  | limit {v : Search} (before : Reached s condition fpp v) (ended : ¬Searching fpp v) : Left v
  | leave {v v' : Search} (before : Reached s condition fpp v)
      (leave : s.searchStep condition fpp v = .leave v') : Left v'

variable (s condition fpp) in
/-- What the loop over the places around the node makes of the nodes. -/
def expanded (v : Search) (n : Nat) : AStarNodes × Bool :=
  s.visitNeighbors condition fpp n (v.nodes.nodes n)
    (neighbors fpp.allowDiagonal v.nodes.nodes n) v.nodes

/-- The node is what is found now, or what was found stays. -/
def Finds (s : PathSeeker T) (condition : PathCondition) (fpp : FindPathParams) (v v' : Search)
    (n : Nat) : Prop :=
  (v'.found = v.found ∧ v'.endPos = v.endPos) ∨
    (v'.found = some n ∧ v'.endPos = s.nodePlace (v.nodes.nodes n) ∧
      s.Accepts condition fpp v'.endPos)

variable (s condition fpp) in
/-- All that the body of the loop can do. -/
theorem searchStep_cases (v : Search) : (v.nodes.getBestNode = none ∧
      s.searchStep condition fpp v = if v.found.isSome then .leave v else .returnFalse) ∨
    ∃ n v', v.nodes.getBestNode = some n ∧ s.Finds condition fpp v v' n ∧
      ((v'.nodes = v.nodes ∧ v'.found = some n ∧ s.searchStep condition fpp v = .leave v') ∨
        ((s.expanded condition fpp v n).2 = false ∧
          s.searchStep condition fpp v = .returnFalse) ∨
        (v'.nodes = (s.expanded condition fpp v n).1.closeNode n ∧
          s.searchStep condition fpp v = .again v')) := by
  cases hbest : v.nodes.getBestNode with
  | none => exact .inl ⟨rfl, by rw [searchStep, hbest]⟩
  | some n =>
      refine .inr ⟨n, ?_⟩
      rw [searchStep, hbest]
      dsimp only
      cases hcall : condition.call s.position (s.nodePlace (v.nodes.nodes n)) fpp v.bestMatch with
      | mk hit bestMatch =>
          rw [nodePlace] at hcall
          rw [hcall]
          cases hit with
          | false =>
              refine ⟨{ v with
                bestMatch := bestMatch
                nodes := (s.expanded condition fpp v n).1.closeNode n }, rfl, .inl ⟨rfl, rfl⟩, .inr ?_⟩
              by_cases hstop : (!(s.expanded condition fpp v n).2 && v.found.isNone) = true
              · refine .inl ⟨by simpa using (Bool.and_eq_true_iff.mp hstop).1, ?_⟩
                exact if_pos hstop
              · exact .inr ⟨rfl, if_neg hstop⟩
          | true =>
              have haccepts : s.Accepts condition fpp (s.nodePlace (v.nodes.nodes n)) :=
                ⟨v.bestMatch, by rw [nodePlace, hcall]⟩
              by_cases hzero : bestMatch = 0
              · refine ⟨{ v with
                  bestMatch := bestMatch
                  found := some n
                  endPos := s.nodePlace (v.nodes.nodes n) }, rfl, .inr ⟨rfl, rfl, haccepts⟩,
                  .inl ⟨rfl, rfl, ?_⟩⟩
                exact if_pos (decide_eq_true hzero)
              · refine ⟨{ v with
                  bestMatch := bestMatch
                  found := some n
                  endPos := s.nodePlace (v.nodes.nodes n)
                  nodes := (s.expanded condition fpp v n).1.closeNode n }, rfl,
                  .inr ⟨rfl, rfl, haccepts⟩, .inr (.inr ⟨rfl, ?_⟩)⟩
                -- something has been found, so the search goes on
                have hnot : ¬(!(s.expanded condition fpp v n).2 &&
                    (some n : Option Nat).isNone) = true := by
                  rw [Option.isNone_some, Bool.and_false]
                  exact Bool.false_ne_true
                exact (if_neg (by simpa using hzero)).trans (if_neg hnot)

variable (s condition fpp) in
/-- What holds in every state of the search. -/
structure SearchOk (v : Search) (settled : Finset Nat) : Prop where
  nodes : s.NodesOk condition fpp v.nodes settled
  closed : v.nodes.closed = settled

variable (s condition fpp) in
/-- What has been found is settled, and the condition has let its place through. -/
def FoundOk (v : Search) (settled : Finset Nat) : Prop :=
  ∀ n, v.found = some n → n ∈ settled ∧ v.endPos = s.nodePlace (v.nodes.nodes n) ∧
    s.Accepts condition fpp v.endPos

theorem new_ok : s.NodesOk condition fpp (.new s.position.x s.position.y) ∅ where
  pos := Nat.one_pos
  le := (by decide : 1 ≤ AStarNodes.MAX_NODES)
  settled_lt i hi := absurd hi (Finset.notMem_empty i)
  opened i hi _ := by
    obtain rfl := Nat.lt_one_iff.mp hi
    rfl
  table k i := by
    show Function.update (fun _ => none) (AStarNodes.key s.position.x s.position.y) (some 0) k =
      some i ↔ i < 1 ∧ _
    rw [Function.update_apply, Nat.lt_one_iff]
    constructor
    · intro hk
      split at hk
      · rename_i heq
        obtain rfl := Option.some.inj hk
        exact ⟨rfl, heq.symm⟩
      · cases hk
    · rintro ⟨rfl, hkey⟩
      exact if_pos hkey.symm
  root := rfl
  linked i hpos hi := absurd hpos (by rw [Nat.lt_one_iff.mp hi]; exact lt_irrefl 0)
  ordered c hc := absurd hc (Finset.notMem_empty c)

theorem start_ok : s.SearchOk condition fpp s.startSearch ∅ where
  nodes := new_ok
  closed := by
    refine Finset.eq_empty_of_forall_notMem fun i hi => ?_
    obtain ⟨hlt, hclosed⟩ := (AStarNodes.mem_closed _).mp hi
    obtain rfl := Nat.lt_one_iff.mp hlt
    have hopen : s.startSearch.nodes.openNodes 0 = true := rfl
    cases hclosed.symm.trans hopen

section

variable {v v' : Search} {settled : Finset Nat} {n : Nat}

/-- The best node is not settled yet, and settling it is right. -/
theorem SearchOk.best (hok : s.SearchOk condition fpp v settled)
    (hbest : v.nodes.getBestNode = some n) : n < v.nodes.curNode ∧ n ∉ settled ∧
      s.NodesOk condition fpp v.nodes (insert n settled) ∧
      ∀ c ∈ insert n settled, (v.nodes.nodes c).f ≤ (v.nodes.nodes n).f := by
  obtain ⟨hlt, hopen, hmin⟩ := v.nodes.getBestNode_spec hbest
  have hnot : n ∉ settled := by
    rw [← hok.closed]
    intro hmem
    rw [((AStarNodes.mem_closed _).mp hmem).2] at hopen
    cases hopen
  have hleast : ∀ i < v.nodes.curNode, i ∉ settled →
      (v.nodes.nodes n).f ≤ (v.nodes.nodes i).f := fun i hi hi' =>
    hmin i hi (hok.nodes.opened i hi hi')
  refine ⟨hlt, hnot, hok.nodes.settle hlt hleast, fun c hc => ?_⟩
  rcases Finset.mem_insert.mp hc with rfl | hc
  · exact le_refl _
  · exact hok.nodes.ordered c hc n hlt hnot

/-- The nodes after the places around the best one have been looked at. -/
theorem SearchOk.expanded (hok : s.SearchOk condition fpp v settled) (hworld : s.InWorld)
    (hbest : v.nodes.getBestNode = some n) :
    s.NodesOk condition fpp (s.expanded condition fpp v n).1 (insert n settled) ∧
      s.Improves v.nodes (s.expanded condition fpp v n).1 (insert n settled) ∧
      ((s.expanded condition fpp v n).2 = true → ∀ d : PathFinding.Direction,
        d.offset ∈ neighbors fpp.allowDiagonal v.nodes.nodes n → ∀ w,
          s.StepTo condition fpp (s.nodePlace (v.nodes.nodes n))
            (getNextPosition d (s.nodePlace (v.nodes.nodes n))) w →
          s.Labelled (s.expanded condition fpp v n).1
            (getNextPosition d (s.nodePlace (v.nodes.nodes n))) ((v.nodes.nodes n).f + w)) := by
  obtain ⟨-, -, hsettle, hmax⟩ := hok.best hbest
  exact NodesOk.visitNeighbors hworld (Finset.mem_insert_self n settled)
    (fun o ho => exists_direction ho) hsettle rfl hmax

/-- One step settles one more node. -/
theorem SearchOk.step (hok : s.SearchOk condition fpp v settled) (hworld : s.InWorld)
    (hagain : s.searchStep condition fpp v = .again v') :
    ∃ n, v.nodes.getBestNode = some n ∧ n ∉ settled ∧
      v'.nodes = (s.expanded condition fpp v n).1.closeNode n ∧ s.Finds condition fpp v v' n ∧
      s.SearchOk condition fpp v' (insert n settled) := by
  rcases s.searchStep_cases condition fpp v with
    ⟨hnone, hstep⟩ | ⟨n, u, hbest, hfinds, hstep⟩
  · rw [hstep] at hagain
    split at hagain <;> cases hagain
  · rcases hstep with ⟨-, -, hstep⟩ | ⟨-, hstep⟩ | ⟨hnodes, hstep⟩
    · rw [hstep] at hagain
      cases hagain
    · rw [hstep] at hagain
      cases hagain
    · rw [hstep] at hagain
      cases hagain
      obtain ⟨hlt, hnot, -, -⟩ := hok.best hbest
      obtain ⟨hexpanded, himproves, -⟩ := hok.expanded hworld hbest
      refine ⟨n, hbest, hnot, hnodes, hfinds, ?_, ?_⟩
      · rw [hnodes]
        exact hexpanded.closeNode (Finset.mem_insert_self n settled)
      · rw [hnodes, ← hok.closed]
        refine closed_closeNode himproves (fun i hi hge => hexpanded.opened i hi fun hmem => ?_) hlt
        rcases Finset.mem_insert.mp hmem with rfl | hmem
        · omega
        · have hlt' := hok.nodes.settled_lt i hmem
          omega

theorem SearchOk.card_le (hok : s.SearchOk condition fpp v settled) :
    settled.card ≤ AStarNodes.MAX_NODES := by
  have hsub : settled ⊆ Finset.range v.nodes.curNode := fun i hi =>
    Finset.mem_range.mpr (hok.nodes.settled_lt i hi)
  exact le_trans (Finset.card_le_card hsub) (le_trans (Finset.card_range _).le hok.nodes.le)

/-- What has been found stays as it is. -/
theorem FoundOk.step (hfound : s.FoundOk condition fpp v settled)
    (hok : s.SearchOk condition fpp v settled) (hworld : s.InWorld)
    (hbest : v.nodes.getBestNode = some n)
    (hnodes : v'.nodes = (s.expanded condition fpp v n).1.closeNode n)
    (hfinds : s.Finds condition fpp v v' n) :
    s.FoundOk condition fpp v' (insert n settled) := by
  obtain ⟨-, himproves, -⟩ := hok.expanded hworld hbest
  have hkept : ∀ i ∈ insert n settled, v'.nodes.nodes i = v.nodes.nodes i := fun i hi => by
    rw [hnodes]
    exact himproves.kept i hi
  intro m hm
  rcases hfinds with ⟨hsame, hend⟩ | ⟨hnew, hend, haccepts⟩
  · obtain ⟨hsettled, hplace, haccepts⟩ := hfound m (hsame ▸ hm)
    have hmem : m ∈ insert n settled := Finset.mem_insert_of_mem hsettled
    refine ⟨hmem, ?_, ?_⟩
    · rw [hend, hkept m hmem, hplace]
    · rw [hend]
      exact haccepts
  · obtain rfl := Option.some.inj (hnew.symm.trans hm)
    have hmem := Finset.mem_insert_self n settled
    exact ⟨hmem, by rw [hkept n hmem, hend], haccepts⟩

theorem Reached.ok (hworld : s.InWorld) (h : s.Reached condition fpp v) :
    ∃ settled, s.SearchOk condition fpp v settled ∧ s.FoundOk condition fpp v settled := by
  induction h with
  | start => exact ⟨∅, start_ok, nofun⟩
  | step _ _ hagain ih =>
      obtain ⟨settled, hok, hfound⟩ := ih
      obtain ⟨n, hbest, -, hnodes, hfinds, hok'⟩ := hok.step hworld hagain
      exact ⟨insert n settled, hok', hfound.step hok hworld hbest hnodes hfinds⟩

/-- What has been found when the loop is left has a node, too. -/
theorem Left.ok (hworld : s.InWorld) (h : s.Left condition fpp v) :
    ∃ settled, s.NodesOk condition fpp v.nodes settled ∧ s.FoundOk condition fpp v settled := by
  cases h with
  | limit hreached _ =>
      obtain ⟨settled, hok, hfound⟩ := hreached.ok hworld
      exact ⟨settled, hok.nodes, hfound⟩
  | leave hreached hleave =>
      rename_i v₀
      obtain ⟨settled, hok, hfound⟩ := hreached.ok hworld
      rcases s.searchStep_cases condition fpp v₀ with
        ⟨hnone, hstep⟩ | ⟨n, u, hbest, hfinds, hstep⟩
      · rw [hstep] at hleave
        split at hleave <;> cases hleave
        exact ⟨settled, hok.nodes, hfound⟩
      · rcases hstep with ⟨hnodes, hn, hstep⟩ | ⟨-, hstep⟩ | ⟨-, hstep⟩
        · rw [hstep] at hleave
          cases hleave
          obtain ⟨-, -, hsettle, -⟩ := hok.best hbest
          refine ⟨insert n settled, hnodes ▸ hsettle, fun m hm => ?_⟩
          rcases hfinds with ⟨hsame, hend⟩ | ⟨-, hend, haccepts⟩
          · obtain ⟨hmem, hplace, haccepts⟩ := hfound m (hsame ▸ hm)
            refine ⟨Finset.mem_insert_of_mem hmem, ?_, ?_⟩
            · rw [hend, hnodes, hplace]
            · rw [hend]
              exact haccepts
          · obtain rfl := Option.some.inj (hn.symm.trans hm)
            exact ⟨Finset.mem_insert_self _ _, by rw [hend, hnodes], haccepts⟩
        · rw [hstep] at hleave
          cases hleave
        · rw [hstep] at hleave
          cases hleave

/-- The loop ends: each step settles one more of at most `MAX_NODES` nodes. -/
theorem SearchOk.searchLoop (hok : s.SearchOk condition fpp v settled) (hworld : s.InWorld)
    {fuel : Nat} (hfuel : AStarNodes.MAX_NODES < settled.card + fuel)
    (hreached : s.Reached condition fpp v) :
    ∃ r, s.searchLoop condition fpp fuel v = some r ∧
      ∀ u, r = some u → s.Left condition fpp u := by
  induction fuel generalizing v settled with
  | zero =>
      have hle := hok.card_le
      omega
  | succ fuel ih =>
      rw [PathSeeker.searchLoop]
      by_cases hsearching : fpp.maxSearchDist ≠ 0 ∨ v.nodes.closedNodes < 100
      · rw [if_pos hsearching]
        cases hstep : s.searchStep condition fpp v with
        | returnFalse => exact ⟨none, rfl, nofun⟩
        | leave u =>
            refine ⟨some u, rfl, fun u' hu => ?_⟩
            obtain rfl := Option.some.inj hu
            exact .leave hreached hstep
        | again u =>
            obtain ⟨n, -, hnot, -, -, hok'⟩ := hok.step hworld hstep
            refine ih hok' ?_ (.step hreached hsearching hstep)
            rw [Finset.card_insert_of_notMem hnot]
            omega
      · rw [if_neg hsearching]
        refine ⟨some v, rfl, fun u' hu => ?_⟩
        obtain rfl := Option.some.inj hu
        exact .limit hreached hsearching

variable (condition fpp) in
/-- What `getPathMatching` gives is the way to what was found when the loop was left. -/
theorem getPathMatching_spec (hworld : s.InWorld) {fuel : Nat}
    (hfuel : AStarNodes.MAX_NODES < fuel) (dirList : List PathFinding.Direction) :
    ∃ result, s.getPathMatching condition fpp fuel dirList = some result ∧
      ∀ dirs, result = some dirs → ∃ u n path, s.Left condition fpp u ∧ u.found = some n ∧
        dirs = path ++ dirList ∧ s.Walkable condition fpp s.position path ∧
        follow s.position path = u.endPos ∧
        s.pathCost s.position path = (u.nodes.nodes n).f := by
  have hstart : s.SearchOk condition fpp s.startSearch ∅ := start_ok
  obtain ⟨r, hloop, hleft⟩ := hstart.searchLoop hworld
    (by rw [Finset.card_empty, Nat.zero_add]; exact hfuel) .start
  rw [getPathMatching, hloop]
  cases r with
  | none => exact ⟨none, rfl, nofun⟩
  | some u =>
      have hu := hleft u rfl
      obtain ⟨settled, hok, hfound⟩ := hu.ok hworld
      dsimp only
      cases hn : u.found with
      | none => exact ⟨none, rfl, nofun⟩
      | some n =>
          obtain ⟨hsettled, hend, -⟩ := hfound n hn
          have hlt := hok.settled_lt n hsettled
          have hfew : (cheaper u.nodes n).card ≤ fuel := by
            have hcard := cheaper_card_le hok hlt
            omega
          obtain ⟨path, hback, hwalk, hfollow, hcost⟩ := hok.walkBack hworld hlt hfew dirList
          refine ⟨some (path ++ dirList), ?_, fun dirs hdirs => ?_⟩
          · dsimp only
            rw [hend]
            exact congrArg (Option.map some) hback
          · obtain rfl := Option.some.inj hdirs
            exact ⟨u, n, path, hu, hn, rfl, hwalk, hfollow.trans hend.symm, hcost⟩

end

/-! ## What a path is worth -/

theorem Walkable.inside {pos : Position} {path : List PathFinding.Direction}
    (h : s.Walkable condition fpp pos path) :
    ∀ k < path.length, s.inSearchArea condition fpp (follow pos (path.take (k + 1))) = true ∧
      ∃ tile, s.Allowed (follow pos (path.take (k + 1))) tile := by
  induction path generalizing pos with
  | nil => exact fun k hk => absurd hk (Nat.not_lt_zero k)
  | cons d path ih =>
      intro k hk
      cases k with
      | zero => exact ⟨h.1, h.2.1⟩
      | succ k => exact ih h.2.2 k (Nat.lt_of_succ_lt_succ hk)

omit [DecidableEq T] in
theorem near_of_inSearchArea {pos : Position} (h : s.inSearchArea condition fpp pos = true)
    (hdist : fpp.maxSearchDist ≠ 0) : getDistanceX s.position pos ≤ fpp.maxSearchDist ∧
      getDistanceY s.position pos ≤ fpp.maxSearchDist := by
  have hnear := (Bool.and_eq_true_iff.mp h).1
  simp only [Bool.not_eq_true', Bool.and_eq_false_iff, Bool.or_eq_false_iff,
    decide_eq_false_iff_not, not_not, not_lt] at hnear
  exact hnear.resolve_left hdist

variable (condition fpp) in
/-- The search ends; a path that it gives leads over places that the creature may walk on, no
further away than it may search, to a place that the condition lets through. At any time the
parents of every node lead back to the start. -/
theorem getPathMatching_sound (hworld : s.InWorld) {fuel : Nat}
    (hfuel : AStarNodes.MAX_NODES < fuel) (dirList : List PathFinding.Direction) :
    (∃ result, s.getPathMatching condition fpp fuel dirList = some result ∧
      ∀ dirs, result = some dirs → ∃ path, dirs = path ++ dirList ∧
        s.Accepts condition fpp (follow s.position path) ∧
        ∀ k < path.length, ∃ pos, pos = follow s.position (path.take (k + 1)) ∧
          (pos = s.position ∨ (s.canWalkTo pos).isSome) ∧
          (fpp.maxSearchDist ≠ 0 → getDistanceX s.position pos ≤ fpp.maxSearchDist ∧
            getDistanceY s.position pos ≤ fpp.maxSearchDist)) ∧
    ∀ v, s.Reached condition fpp v → ∀ i < v.nodes.curNode,
      Above (fun j => (v.nodes.nodes j).parent) i 0 := by
  obtain ⟨result, hrun, hpath⟩ :=
    getPathMatching_spec condition fpp hworld hfuel dirList
  refine ⟨⟨result, hrun, fun dirs hdirs => ?_⟩, fun v hv i hi => ?_⟩
  · obtain ⟨u, n, path, hleft, hn, rfl, hwalk, hend, -⟩ := hpath dirs hdirs
    obtain ⟨settled, -, hfound⟩ := hleft.ok hworld
    refine ⟨path, rfl, hend ▸ (hfound n hn).2.2, fun k hk => ⟨_, rfl, ?_⟩⟩
    obtain ⟨harea, tile, htile⟩ := hwalk.inside k hk
    refine ⟨htile.2.imp_right fun hcan => ?_, near_of_inSearchArea harea⟩
    rw [hcan]
    rfl
  · obtain ⟨settled, hok, -⟩ := hv.ok hworld
    exact hok.nodes.above_root hi

/-! A hallway of six tiles. -/

def hallway : PathSeeker (BitVec 16) where
  getTile pos := if pos.y = 100 ∧ 100 ≤ pos.x ∧ pos.x ≤ 105 then some pos.x else none
  position := { x := 100, y := 100, z := 7 }
  useCacheMap := false
  tile := some 100
  queryAdd _ := true
  getTopVisibleCreature _ := false
  isPad _ := false
  getFieldItem _ := none
  isImmune _ := false
  hasCondition _ := false

/-- Something at the end of the hallway is looked for. -/
def atEnd : PathCondition := frozenPathingCondition (fun _ _ => true) { x := 105, y := 100, z := 7 }

theorem hallway_place {pos : Position} {tile : BitVec 16}
    (htile : hallway.getTile pos = some tile) :
    pos.y = 100 ∧ 100 ≤ pos.x.toNat ∧ pos.x.toNat ≤ 105 := by
  by_contra hnot
  have hnone : hallway.getTile pos = none := if_neg hnot
  rw [hnone] at htile
  cases htile

theorem hallway_inWorld : hallway.InWorld where
  inside pos tile htile := by
    obtain ⟨hy, hlow, hhigh⟩ := hallway_place htile
    rw [Inside, hy]
    exact ⟨by omega, by omega, by decide, by decide⟩
  start := ⟨100, rfl⟩

theorem hallway_path : hallway.getPathMatching atEnd { maxTargetDist := 1 } 513 [] =
    some (some [.east, .east, .east, .east]) := by
  decide +kernel

theorem getPathMatching_sound_hallway : hallway.Accepts atEnd { maxTargetDist := 1 }
    (follow hallway.position [.east, .east, .east, .east]) := by
  have hfuel : AStarNodes.MAX_NODES < 513 := by decide
  obtain ⟨⟨result, hrun, hsound⟩, -⟩ :=
    getPathMatching_sound atEnd { maxTargetDist := 1 } hallway_inWorld hfuel []
  obtain rfl := Option.some.inj (hrun.symm.trans hallway_path)
  obtain ⟨path, hpath, haccepts, -⟩ := hsound _ rfl
  rw [List.append_nil] at hpath
  rw [hpath]
  exact haccepts

end PathSeeker

end Infernum
