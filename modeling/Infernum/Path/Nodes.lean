import Infernum.Lib.Parents
import Infernum.Path.PathFinding
import Mathlib.Data.Finset.Card

/-!
# The nodes of a search

Each node stands for a place, and each but the first is reached from its parent in one
step. The nodes whose neighbors have been looked at are cheaper than the others, so that
neither their cost nor their parent changes any more.
-/

namespace Infernum

open PathFinding

/-! ## Look-ups -/

namespace AStarNodes

theorem key_injective {x y x' y' : BitVec 16} (h : key x y = key x' y') : x = x' ∧ y = y' := by
  unfold key at h
  constructor
  · ext i hi
    have hbit := congrArg (fun k => k.getLsbD (i + 16)) h
    simp only [BitVec.getLsbD_or, BitVec.getLsbD_shiftLeft, BitVec.getLsbD_setWidth] at hbit
    have hy : y.getLsbD (i + 16) = false := BitVec.getLsbD_of_ge y _ (by omega)
    have hy' : y'.getLsbD (i + 16) = false := BitVec.getLsbD_of_ge y' _ (by omega)
    simpa [hy, hy', hi, show i + 16 < 32 by omega, show ¬i + 16 < 16 by omega,
      show i < 32 by omega] using hbit
  · ext i hi
    have hbit := congrArg (fun k => k.getLsbD i) h
    simpa [BitVec.getLsbD_setWidth, hi, show i < 32 by omega] using hbit

variable (s : AStarNodes)

/-- The loop of `getBestNode` over the nodes from `0` to `n - 1`. -/
theorem bestLoop_spec (n : Nat) :
    let best := (List.range n).foldl (fun best i =>
      if s.openNodes i && (s.nodes i).f < best.1 then ((s.nodes i).f, some i) else best)
      (2 ^ 31 - 1, (none : Option Nat))
    (∀ i < n, s.openNodes i = true → best.1 ≤ (s.nodes i).f) ∧
      ∀ i, best.2 = some i → i < n ∧ s.openNodes i = true ∧ best.1 = (s.nodes i).f := by
  induction n with
  | zero => exact ⟨fun i hi => absurd hi (Nat.not_lt_zero i), fun i hi => by cases hi⟩
  | succ n ih =>
      rw [List.range_succ, List.foldl_append, List.foldl_cons, List.foldl_nil]
      dsimp only at ih ⊢
      obtain ⟨hmin, hbest⟩ := ih
      split
      · rename_i hbetter
        rw [Bool.and_eq_true, decide_eq_true_eq] at hbetter
        refine ⟨fun i hi hopen => ?_, fun i hi => ?_⟩
        · rcases Nat.lt_succ_iff_lt_or_eq.mp hi with hlt | rfl
          · exact le_trans (le_of_lt hbetter.2) (hmin i hlt hopen)
          · exact le_refl _
        · obtain rfl := Option.some.inj hi
          exact ⟨Nat.lt_succ_self _, hbetter.1, rfl⟩
      · rename_i hworse
        rw [Bool.and_eq_true, decide_eq_true_eq, not_and, Nat.not_lt] at hworse
        refine ⟨fun i hi hopen => ?_, fun i hi => ?_⟩
        · rcases Nat.lt_succ_iff_lt_or_eq.mp hi with hlt | rfl
          · exact hmin i hlt hopen
          · exact hworse hopen
        · obtain ⟨hlt, hrest⟩ := hbest i hi
          exact ⟨Nat.lt_succ_of_lt hlt, hrest⟩

/-- The best node is open, and no open node is cheaper. -/
theorem getBestNode_spec {n : Nat} (h : s.getBestNode = some n) :
    n < s.curNode ∧ s.openNodes n = true ∧
      ∀ i < s.curNode, s.openNodes i = true → (s.nodes n).f ≤ (s.nodes i).f := by
  obtain ⟨hmin, hbest⟩ := s.bestLoop_spec s.curNode
  obtain ⟨hlt, hopen, hf⟩ := hbest n h
  exact ⟨hlt, hopen, fun i hi hi' => hf ▸ hmin i hi hi'⟩

/-- What `createOpenNode` does. -/
structure Created (s s' : AStarNodes) (node : AStarNode) : Prop where
  room : s.curNode < MAX_NODES
  curNode : s'.curNode = s.curNode + 1
  new : s'.nodes s.curNode = node
  old : ∀ i < s.curNode, s'.nodes i = s.nodes i
  openNew : s'.openNodes s.curNode = true
  openOld : ∀ i < s.curNode, s'.openNodes i = s.openNodes i
  table : ∀ k, s'.nodeTable k = if k = key node.x node.y then some s.curNode else s.nodeTable k

variable {s} in
theorem createOpenNode_spec {s' : AStarNodes} {parent : Nat} {x y : BitVec 16} {f : Nat}
    (h : s.createOpenNode parent x y f = some s') :
    Created s s' { parent := some parent, f := f, x := x, y := y } := by
  unfold createOpenNode at h
  split at h
  · cases h
  · rename_i hroom
    obtain rfl := Option.some.inj h
    exact ⟨Nat.lt_of_not_le hroom, rfl, Function.update_self _ _ _,
      fun i hi => Function.update_of_ne (Nat.ne_of_lt hi) _ _, Function.update_self _ _ _,
      fun i hi => Function.update_of_ne (Nat.ne_of_lt hi) _ _,
      fun k => Function.update_apply _ _ _ _⟩

theorem setParent_self (index parent f : Nat) : (s.setParent index parent f).nodes index =
    { s.nodes index with f := f, parent := some parent } :=
  Function.update_self _ _ _

theorem setParent_of_ne {i index : Nat} (hne : i ≠ index) (parent f : Nat) :
    (s.setParent index parent f).nodes i = s.nodes i :=
  Function.update_of_ne hne _ _

variable {s} in
theorem openNode_of_open {i : Nat} (h : s.openNodes i = true) : s.openNode i = s := by
  rw [openNode, h]
  rfl

/-- The nodes that have been closed. -/
def closed : Finset Nat := (Finset.range s.curNode).filter fun i => s.openNodes i = false

theorem mem_closed {i : Nat} : i ∈ s.closed ↔ i < s.curNode ∧ s.openNodes i = false := by
  rw [closed, Finset.mem_filter, Finset.mem_range]

end AStarNodes

namespace PathSeeker

variable {T : Type} [DecidableEq T] (s : PathSeeker T) (condition : PathCondition)
  (fpp : FindPathParams)

/-! ## Steps of the creature -/

/-- The creature may step on the tile of a place, or stands on it. -/
def Allowed (pos : Position) (tile : T) : Prop :=
  s.getTile pos = some tile ∧ (pos = s.position ∨ s.canWalkTo pos = some tile)

/-- A step inside the part of the map that is searched, with its cost. -/
def StepTo (u v : Position) (w : Nat) : Prop :=
  ∃ d tile, v = getNextPosition d u ∧ s.inSearchArea condition fpp v = true ∧
    s.Allowed v tile ∧ w = d.walkCost + s.getTileWalkCost tile

/-- No tile lies at the edge of the map, and the creature stands on one. -/
structure InWorld : Prop where
  inside : ∀ pos tile, s.getTile pos = some tile → Inside pos
  start : ∃ tile, s.getTile s.position = some tile

/-- The place of a node. -/
def nodePlace (node : AStarNode) : Position := { x := node.x, y := node.y, z := s.position.z }

variable {s condition fpp}

theorem canWalkTo_tile {pos : Position} {tile : T} (h : s.canWalkTo pos = some tile) :
    s.getTile pos = some tile := by
  unfold canWalkTo at h
  dsimp only at h
  split at h
  · cases h
  · split at h
    · exact h
    · split at h
      · exact (Option.filter_eq_some_iff.mp h).1
      · exact h

theorem StepTo.pos {u v : Position} {w : Nat} (h : s.StepTo condition fpp u v w) : 0 < w := by
  obtain ⟨d, tile, -, -, -, rfl⟩ := h
  exact Nat.add_pos_left d.walkCost_pos _

omit [DecidableEq T] in
theorem placeBeside_offset (node : AStarNode) (d : PathFinding.Direction) :
    s.placeBeside node d.offset = getNextPosition d (s.nodePlace node) := by
  rw [getNextPosition_eq, placeBeside, nodePlace]
  rw [coordinate_add, coordinate_add]

omit [DecidableEq T] in
/-- The cost of a step, from the places. -/
theorem getMapWalkCost_next {node : AStarNode} {d : PathFinding.Direction}
    (h : Inside (getNextPosition d (s.nodePlace node))) :
    node.getMapWalkCost (getNextPosition d (s.nodePlace node)) = d.walkCost := by
  have hx := getX_next h
  have hy := getY_next h
  have hx' : ((node.x.toNat : Int) - (getNextPosition d (s.nodePlace node)).getX).natAbs =
      d.offset.1.natAbs := by
    rw [hx, show (s.nodePlace node).getX = (node.x.toNat : Int) from rfl]
    omega
  have hy' : ((node.y.toNat : Int) - (getNextPosition d (s.nodePlace node)).getY).natAbs =
      d.offset.2.natAbs := by
    rw [hy, show (s.nodePlace node).getY = (node.y.toNat : Int) from rfl]
    omega
  rw [AStarNode.getMapWalkCost, hx', hy']
  cases d <;> decide

/-- A step in a known direction. -/
theorem StepTo.next {u : Position} {d : PathFinding.Direction} {w : Nat}
    (h : s.StepTo condition fpp u (getNextPosition d u) w) :
    s.inSearchArea condition fpp (getNextPosition d u) = true ∧
      ∃ tile, s.Allowed (getNextPosition d u) tile ∧ w = d.walkCost + s.getTileWalkCost tile := by
  obtain ⟨e, tile, hnext, harea, hallowed, hw⟩ := h
  obtain rfl := getNextPosition_injective hnext
  exact ⟨harea, tile, hallowed, hw⟩

/-! ## The invariant -/

variable (s condition fpp) in
/-- Each node stands for a place of its own, and each but the first was reached in one
step from a node that is settled. What is settled is the cheapest. -/
structure NodesOk (st : AStarNodes) (settled : Finset Nat) : Prop where
  pos : 0 < st.curNode
  le : st.curNode ≤ AStarNodes.MAX_NODES
  settled_lt : ∀ i ∈ settled, i < st.curNode
  opened : ∀ i < st.curNode, i ∉ settled → st.openNodes i = true
  table : ∀ k i, st.nodeTable k = some i ↔
    i < st.curNode ∧ AStarNodes.key (st.nodes i).x (st.nodes i).y = k
  root : st.nodes 0 = { x := s.position.x, y := s.position.y }
  linked : ∀ i, 0 < i → i < st.curNode → ∃ p ∈ settled, ∃ w, (st.nodes i).parent = some p ∧
    s.StepTo condition fpp (s.nodePlace (st.nodes p)) (s.nodePlace (st.nodes i)) w ∧
    (st.nodes i).f = (st.nodes p).f + w
  ordered : ∀ c ∈ settled, ∀ i < st.curNode, i ∉ settled → (st.nodes c).f ≤ (st.nodes i).f

/-- What the loop over the neighbors does to nodes that are there. -/
structure Improves (st st' : AStarNodes) (settled : Finset Nat) : Prop where
  le : st.curNode ≤ st'.curNode
  kept : ∀ i ∈ settled, st'.nodes i = st.nodes i
  place : ∀ i < st.curNode, s.nodePlace (st'.nodes i) = s.nodePlace (st.nodes i)
  cheaper : ∀ i < st.curNode, (st'.nodes i).f ≤ (st.nodes i).f
  opened : ∀ i < st.curNode, st'.openNodes i = st.openNodes i

/-- There is a node for a place, at a cost or below. -/
def Labelled (s : PathSeeker T) (st : AStarNodes) (pos : Position) (c : Nat) : Prop :=
  ∃ i < st.curNode, s.nodePlace (st.nodes i) = pos ∧ (st.nodes i).f ≤ c

section

variable {st st' st'' : AStarNodes} {settled : Finset Nat}

omit [DecidableEq T] in
theorem Improves.refl : s.Improves st st settled where
  le := le_refl _
  kept _ _ := rfl
  place _ _ := rfl
  cheaper _ _ := le_refl _
  opened _ _ := rfl

omit [DecidableEq T] in
theorem Improves.trans (h : s.Improves st st' settled) (h' : s.Improves st' st'' settled) :
    s.Improves st st'' settled where
  le := le_trans h.le h'.le
  kept i hi := (h'.kept i hi).trans (h.kept i hi)
  place i hi := (h'.place i (lt_of_lt_of_le hi h.le)).trans (h.place i hi)
  cheaper i hi := le_trans (h'.cheaper i (lt_of_lt_of_le hi h.le)) (h.cheaper i hi)
  opened i hi := (h'.opened i (lt_of_lt_of_le hi h.le)).trans (h.opened i hi)

omit [DecidableEq T] in
theorem Labelled.improves {pos : Position} {c : Nat} (h : s.Labelled st pos c)
    (himproves : s.Improves st st' settled) : s.Labelled st' pos c := by
  obtain ⟨i, hi, hplace, hf⟩ := h
  exact ⟨i, lt_of_lt_of_le hi himproves.le, (himproves.place i hi).trans hplace,
    le_trans (himproves.cheaper i hi) hf⟩

/-- The node of a place is found. -/
theorem NodesOk.getNode (hok : s.NodesOk condition fpp st settled) {i : Nat}
    (hi : i < st.curNode) : st.getNodeByPosition (st.nodes i).x (st.nodes i).y = some i :=
  (hok.table _ i).mpr ⟨hi, rfl⟩

theorem NodesOk.place_injective (hok : s.NodesOk condition fpp st settled) {i j : Nat}
    (hi : i < st.curNode) (hj : j < st.curNode)
    (h : s.nodePlace (st.nodes i) = s.nodePlace (st.nodes j)) : i = j := by
  rw [nodePlace, nodePlace, Position.mk.injEq] at h
  have hfound := hok.getNode hi
  rw [h.1, h.2.1, hok.getNode hj] at hfound
  exact (Option.some.inj hfound).symm

theorem NodesOk.place_root (hok : s.NodesOk condition fpp st settled) :
    s.nodePlace (st.nodes 0) = s.position := by
  rw [hok.root]
  rfl

/-- A node has a tile, which the creature may step on. -/
theorem NodesOk.allowed (hok : s.NodesOk condition fpp st settled) (hworld : s.InWorld) {i : Nat}
    (hi : i < st.curNode) : ∃ tile, s.Allowed (s.nodePlace (st.nodes i)) tile := by
  rcases Nat.eq_zero_or_pos i with rfl | hpos
  · obtain ⟨tile, htile⟩ := hworld.start
    rw [hok.place_root]
    exact ⟨tile, htile, .inl rfl⟩
  · obtain ⟨p, -, w, -, ⟨d, tile, -, -, hallowed, -⟩, -⟩ := hok.linked i hpos hi
    exact ⟨tile, hallowed⟩

/-! ## Neighbors -/

/-- A node comes to a cheaper parent. -/
theorem NodesOk.setParent (hok : s.NodesOk condition fpp st settled) {n j w : Nat}
    (hn : n ∈ settled) (hmax : ∀ c ∈ settled, (st.nodes c).f ≤ (st.nodes n).f)
    (hj : j < st.curNode)
    (hstep : s.StepTo condition fpp (s.nodePlace (st.nodes n)) (s.nodePlace (st.nodes j)) w)
    (hlt : (st.nodes n).f + w < (st.nodes j).f) :
    s.NodesOk condition fpp (st.setParent j n ((st.nodes n).f + w)) settled ∧
      s.Improves st (st.setParent j n ((st.nodes n).f + w)) settled := by
  have hnot : j ∉ settled := by
    intro hmem
    have hle := hmax j hmem
    omega
  have hroot : j ≠ 0 := by
    rintro rfl
    rw [hok.root] at hlt
    exact absurd hlt (Nat.not_lt_zero _)
  have hkept : ∀ i, i ≠ j →
      (st.setParent j n ((st.nodes n).f + w)).nodes i = st.nodes i := fun i hi =>
    st.setParent_of_ne hi _ _
  have hself := st.setParent_self j n ((st.nodes n).f + w)
  have hsettled : ∀ i ∈ settled, i ≠ j := fun i hi heq => hnot (heq ▸ hi)
  have hplace : ∀ i, s.nodePlace ((st.setParent j n ((st.nodes n).f + w)).nodes i) =
      s.nodePlace (st.nodes i) := by
    intro i
    by_cases hi : i = j
    · rw [hi, hself]
      rfl
    · rw [hkept i hi]
  have hcheaper : ∀ i, ((st.setParent j n ((st.nodes n).f + w)).nodes i).f ≤ (st.nodes i).f := by
    intro i
    by_cases hi : i = j
    · rw [hi, hself]
      exact le_of_lt hlt
    · rw [hkept i hi]
  constructor
  · refine ⟨hok.pos, hok.le, hok.settled_lt, hok.opened, ?_, ?_, ?_, ?_⟩
    · intro k i
      have hxy := hplace i
      rw [nodePlace, nodePlace, Position.mk.injEq] at hxy
      rw [hxy.1, hxy.2.1]
      exact hok.table k i
    · rw [hkept 0 (Ne.symm hroot)]
      exact hok.root
    · intro i hpos hi
      by_cases hij : i = j
      · subst hij
        refine ⟨n, hn, w, ?_, ?_, ?_⟩
        · rw [hself]
        · rw [hplace, hplace]
          exact hstep
        · rw [hself, hkept n (hsettled n hn)]
      · obtain ⟨p, hp, w', hparent, hstep', hf⟩ := hok.linked i hpos hi
        refine ⟨p, hp, w', ?_, ?_, ?_⟩
        · rw [hkept i hij]
          exact hparent
        · rw [hplace, hplace]
          exact hstep'
        · rw [hkept i hij, hkept p (hsettled p hp)]
          exact hf
    · intro c hc i hi hnot'
      rw [hkept c (hsettled c hc)]
      by_cases hij : i = j
      · rw [hij, hself]
        exact le_trans (hmax c hc) (Nat.le_add_right _ _)
      · rw [hkept i hij]
        exact hok.ordered c hc i hi hnot'
  · exact ⟨le_refl _, fun i hi => hkept i (hsettled i hi), fun i _ => hplace i,
      fun i _ => hcheaper i, fun _ _ => rfl⟩

/-- A place that has no node gets one. -/
theorem NodesOk.createOpenNode (hok : s.NodesOk condition fpp st settled) {n w : Nat}
    {pos : Position} (hn : n ∈ settled)
    (hmax : ∀ c ∈ settled, (st.nodes c).f ≤ (st.nodes n).f)
    (hnone : st.getNodeByPosition pos.x pos.y = none) (hz : pos.z = s.position.z)
    (hstep : s.StepTo condition fpp (s.nodePlace (st.nodes n)) pos w)
    (hcreate : st.createOpenNode n pos.x pos.y ((st.nodes n).f + w) = some st') :
    s.NodesOk condition fpp st' settled ∧ s.Improves st st' settled ∧
      s.Labelled st' pos ((st.nodes n).f + w) := by
  have hnew := AStarNodes.createOpenNode_spec hcreate
  have hplace : s.nodePlace (st'.nodes st.curNode) = pos := by
    rw [hnew.new, nodePlace, ← hz]
  have hsettled : ∀ i ∈ settled, st'.nodes i = st.nodes i := fun i hi =>
    hnew.old i (hok.settled_lt i hi)
  have hcases : ∀ i, i < st'.curNode → i < st.curNode ∨ i = st.curNode := by
    intro i hi
    rw [hnew.curNode] at hi
    exact Nat.lt_succ_iff_lt_or_eq.mp hi
  refine ⟨⟨?_, ?_, ?_, ?_, ?_, ?_, ?_, ?_⟩, ?_, ?_⟩
  · rw [hnew.curNode]
    exact Nat.succ_pos _
  · rw [hnew.curNode]
    exact hnew.room
  · intro i hi
    rw [hnew.curNode]
    exact Nat.lt_succ_of_lt (hok.settled_lt i hi)
  · intro i hi hnot
    rcases hcases i hi with hlt | rfl
    · exact (hnew.openOld i hlt).trans (hok.opened i hlt hnot)
    · exact hnew.openNew
  · intro k i
    rw [hnew.table, hnew.curNode]
    dsimp only
    split
    · rename_i hk
      subst hk
      constructor
      · intro h
        obtain rfl := Option.some.inj h
        exact ⟨Nat.lt_succ_self _, by rw [hnew.new]⟩
      · rintro ⟨hi, hkey⟩
        rcases Nat.lt_succ_iff_lt_or_eq.mp hi with hlt | rfl
        · -- the place had no node before
          rw [hnew.old i hlt] at hkey
          have hfound := (hok.table _ i).mpr ⟨hlt, hkey⟩
          rw [AStarNodes.getNodeByPosition, hfound] at hnone
          cases hnone
        · rfl
    · rename_i hk
      rw [hok.table]
      constructor
      · rintro ⟨hi, hkey⟩
        rw [hnew.old i hi]
        exact ⟨Nat.lt_succ_of_lt hi, hkey⟩
      · rintro ⟨hi, hkey⟩
        rcases Nat.lt_succ_iff_lt_or_eq.mp hi with hlt | rfl
        · rw [hnew.old i hlt] at hkey
          exact ⟨hlt, hkey⟩
        · rw [hnew.new] at hkey
          exact absurd hkey.symm hk
  · rw [hnew.old 0 hok.pos]
    exact hok.root
  · intro i hpos hi
    rcases hcases i hi with hlt | rfl
    · obtain ⟨p, hp, w', hparent, hstep', hf⟩ := hok.linked i hpos hlt
      rw [hnew.old i hlt]
      refine ⟨p, hp, w', hparent, ?_, ?_⟩
      · rw [hsettled p hp]
        exact hstep'
      · rw [hsettled p hp]
        exact hf
    · refine ⟨n, hn, w, ?_, ?_, ?_⟩
      · rw [hnew.new]
      · rw [hplace, hsettled n hn]
        exact hstep
      · rw [hnew.new, hsettled n hn]
  · intro c hc i hi hnot
    rw [hsettled c hc]
    rcases hcases i hi with hlt | rfl
    · rw [hnew.old i hlt]
      exact hok.ordered c hc i hlt hnot
    · rw [hnew.new]
      exact le_trans (hmax c hc) (Nat.le_add_right _ _)
  · refine ⟨?_, hsettled, fun i hi => ?_, fun i hi => ?_, hnew.openOld⟩
    · rw [hnew.curNode]
      exact Nat.le_succ _
    · rw [hnew.old i hi]
    · rw [hnew.old i hi]
  · refine ⟨st.curNode, ?_, hplace, ?_⟩
    · rw [hnew.curNode]
      exact Nat.lt_succ_self _
    · rw [hnew.new]

/-- One place around a node is looked at: a step to it is no cheaper than its label then. -/
theorem NodesOk.visitNeighbor (hok : s.NodesOk condition fpp st settled) (hworld : s.InWorld)
    {n : Nat} (hn : n ∈ settled) (hmax : ∀ c ∈ settled, (st.nodes c).f ≤ (st.nodes n).f)
    {d : PathFinding.Direction}
    (hvisit : s.visitNeighbor condition fpp n (st.nodes n) st d.offset = some st') :
    s.NodesOk condition fpp st' settled ∧ s.Improves st st' settled ∧
      ∀ w, s.StepTo condition fpp (s.nodePlace (st.nodes n))
          (getNextPosition d (s.nodePlace (st.nodes n))) w →
        s.Labelled st' (getNextPosition d (s.nodePlace (st.nodes n))) ((st.nodes n).f + w) := by
  unfold PathSeeker.visitNeighbor at hvisit
  rw [placeBeside_offset] at hvisit
  set pos := getNextPosition d (s.nodePlace (st.nodes n)) with hpos
  have hz : pos.z = s.position.z := getNextPosition_z d _
  dsimp only at hvisit
  split at hvisit
  · -- outside of the part that is searched there are no steps
    rename_i harea
    obtain rfl := Option.some.inj hvisit
    refine ⟨hok, .refl, fun w hstep => ?_⟩
    have hin := hstep.next.1
    rw [← hpos] at hin
    simp [hin] at harea
  · rename_i harea
    have harea : s.inSearchArea condition fpp pos = true := by simpa using harea
    cases hnode : st.getNodeByPosition pos.x pos.y with
    | some j =>
        rw [hnode] at hvisit
        obtain ⟨hj, hkey⟩ := (hok.table _ j).mp hnode
        obtain ⟨hx, hy⟩ := AStarNodes.key_injective hkey
        have hplace : s.nodePlace (st.nodes j) = pos := by
          rw [nodePlace, hx, hy, ← hz]
        obtain ⟨tile, hallowed⟩ := hok.allowed hworld hj
        rw [hplace] at hallowed
        have hcost : (st.nodes n).getMapWalkCost pos = d.walkCost :=
          getMapWalkCost_next (hworld.inside _ _ hallowed.1)
        have hstep : s.StepTo condition fpp (s.nodePlace (st.nodes n)) pos
            (d.walkCost + s.getTileWalkCost tile) := ⟨d, tile, rfl, harea, hallowed, rfl⟩
        have hsame : ∀ w, s.StepTo condition fpp (s.nodePlace (st.nodes n)) pos w →
            w = d.walkCost + s.getTileWalkCost tile := by
          intro w h
          obtain ⟨-, tile', hallowed', rfl⟩ := h.next
          have htile := hallowed'.1
          rw [← hpos, hallowed.1] at htile
          rw [Option.some.inj htile]
        rw [hcost, hallowed.1, Option.map_some, Option.getD_some, Nat.add_assoc] at hvisit
        dsimp only at hvisit
        split at hvisit
        · rename_i hle
          obtain rfl := Option.some.inj hvisit
          exact ⟨hok, .refl, fun w h => ⟨j, hj, hplace, hsame w h ▸ hle⟩⟩
        · rename_i hlt
          have hlt := Nat.lt_of_not_le hlt
          have hnot : j ∉ settled := by
            intro hmem
            have hle := hmax j hmem
            omega
          obtain ⟨hok', himproves⟩ := hok.setParent hn hmax hj (hplace ▸ hstep) hlt
          have hopened : (st.setParent j n ((st.nodes n).f +
              (d.walkCost + s.getTileWalkCost tile))).openNodes j = true := hok.opened j hj hnot
          rw [AStarNodes.openNode_of_open hopened] at hvisit
          obtain rfl := Option.some.inj hvisit
          refine ⟨hok', himproves, fun w h => ⟨j, hj, (himproves.place j hj).trans hplace, ?_⟩⟩
          rw [hsame w h, AStarNodes.setParent_self]
    | none =>
        rw [hnode] at hvisit
        cases hwalk : s.canWalkTo pos with
        | none =>
            rw [hwalk] at hvisit
            obtain rfl := Option.some.inj hvisit
            refine ⟨hok, .refl, fun w h => ?_⟩
            obtain ⟨-, tile, ⟨-, hstart | hcan⟩, -⟩ := h.next
            · -- the start has a node
              have hroot := hok.getNode hok.pos
              rw [hok.root] at hroot
              rw [hpos, hstart] at hnode
              rw [hnode] at hroot
              cases hroot
            · rw [← hpos, hwalk] at hcan
              cases hcan
        | some tile =>
            rw [hwalk] at hvisit
            have hallowed : s.Allowed pos tile := ⟨canWalkTo_tile hwalk, .inr hwalk⟩
            have hcost : (st.nodes n).getMapWalkCost pos = d.walkCost :=
              getMapWalkCost_next (hworld.inside _ _ hallowed.1)
            have hstep : s.StepTo condition fpp (s.nodePlace (st.nodes n)) pos
                (d.walkCost + s.getTileWalkCost tile) := ⟨d, tile, rfl, harea, hallowed, rfl⟩
            change st.createOpenNode n pos.x pos.y ((st.nodes n).f +
              (st.nodes n).getMapWalkCost pos + s.getTileWalkCost tile) = some st' at hvisit
            rw [hcost, Nat.add_assoc] at hvisit
            obtain ⟨hok', himproves, hlabelled⟩ :=
              hok.createOpenNode hn hmax hnode hz hstep hvisit
            refine ⟨hok', himproves, fun w h => ?_⟩
            obtain ⟨-, tile', hallowed', rfl⟩ := h.next
            have htile := hallowed'.1
            rw [← hpos, hallowed.1] at htile
            rw [← Option.some.inj htile]
            exact hlabelled

/-- The loop over the neighbors: by induction on what is left of them. -/
theorem NodesOk.visitNeighbors (hworld : s.InWorld) {n : Nat} (hn : n ∈ settled)
    {node : AStarNode} {offsets : List (Int × Int)}
    (hdirections : ∀ o ∈ offsets, ∃ d : PathFinding.Direction, d.offset = o)
    (hok : s.NodesOk condition fpp st settled) (hnode : st.nodes n = node)
    (hmax : ∀ c ∈ settled, (st.nodes c).f ≤ node.f) :
    let u := s.visitNeighbors condition fpp n node offsets st
    s.NodesOk condition fpp u.1 settled ∧ s.Improves st u.1 settled ∧
      (u.2 = true → ∀ d : PathFinding.Direction, d.offset ∈ offsets → ∀ w,
        s.StepTo condition fpp (s.nodePlace node) (getNextPosition d (s.nodePlace node)) w →
        s.Labelled u.1 (getNextPosition d (s.nodePlace node)) (node.f + w)) := by
  induction offsets generalizing st with
  | nil => exact ⟨hok, .refl, fun _ d hd => absurd hd List.not_mem_nil⟩
  | cons o offsets ih =>
      obtain ⟨d, rfl⟩ := hdirections o List.mem_cons_self
      subst hnode
      rw [PathSeeker.visitNeighbors]
      cases hvisit : s.visitNeighbor condition fpp n (st.nodes n) st d.offset with
      | none => exact ⟨hok, .refl, fun h => absurd h Bool.false_ne_true⟩
      | some st' =>
          obtain ⟨hok', himproves, hlabelled⟩ := hok.visitNeighbor hworld hn hmax hvisit
          have hkept := himproves.kept n hn
          obtain ⟨hok'', himproves', hlabelled'⟩ :=
            ih (fun o ho => hdirections o (List.mem_cons_of_mem _ ho)) hok' hkept
              fun c hc => by
                rw [himproves.kept c hc]
                exact hmax c hc
          refine ⟨hok'', himproves.trans himproves', fun hall e he w hstep => ?_⟩
          rcases List.mem_cons.mp he with heq | he
          · obtain rfl := PathFinding.Direction.offset_injective heq
            exact (hlabelled w hstep).improves himproves'
          · exact hlabelled' hall e he w hstep

/-! ## Closing -/

/-- The best node may be settled. -/
theorem NodesOk.settle (hok : s.NodesOk condition fpp st settled) {n : Nat} (hn : n < st.curNode)
    (hbest : ∀ i < st.curNode, i ∉ settled → (st.nodes n).f ≤ (st.nodes i).f) :
    s.NodesOk condition fpp st (insert n settled) where
  pos := hok.pos
  le := hok.le
  settled_lt i hi := by
    rcases Finset.mem_insert.mp hi with rfl | hi
    · exact hn
    · exact hok.settled_lt i hi
  opened i hi hnot := hok.opened i hi fun h => hnot (Finset.mem_insert_of_mem h)
  table := hok.table
  root := hok.root
  linked i hpos hi := by
    obtain ⟨p, hp, hrest⟩ := hok.linked i hpos hi
    exact ⟨p, Finset.mem_insert_of_mem hp, hrest⟩
  ordered c hc i hi hnot := by
    have hnot' : i ∉ settled := fun h => hnot (Finset.mem_insert_of_mem h)
    rcases Finset.mem_insert.mp hc with rfl | hc
    · exact hbest i hi hnot'
    · exact hok.ordered c hc i hi hnot'

theorem NodesOk.closeNode (hok : s.NodesOk condition fpp st settled) {n : Nat} (hn : n ∈ settled) :
    s.NodesOk condition fpp (st.closeNode n) settled where
  pos := hok.pos
  le := hok.le
  settled_lt := hok.settled_lt
  opened i hi hnot := by
    have hne : i ≠ n := fun heq => hnot (heq ▸ hn)
    exact (Function.update_of_ne hne _ _).trans (hok.opened i hi hnot)
  table := hok.table
  root := hok.root
  linked := hok.linked
  ordered := hok.ordered

omit [DecidableEq T] in
/-- The loop closes its node and no other, and opens none. -/
theorem closed_closeNode (himproves : s.Improves st st' settled)
    (hopened : ∀ i < st'.curNode, st.curNode ≤ i → st'.openNodes i = true) {n : Nat}
    (hn : n < st.curNode) : (st'.closeNode n).closed = insert n st.closed := by
  ext i
  rw [AStarNodes.mem_closed, Finset.mem_insert, AStarNodes.mem_closed]
  show i < st'.curNode ∧ Function.update st'.openNodes n false i = false ↔ _
  by_cases hin : i = n
  · subst hin
    rw [Function.update_self]
    exact iff_of_true ⟨lt_of_lt_of_le hn himproves.le, rfl⟩ (.inl rfl)
  · rw [Function.update_of_ne hin, or_iff_right hin]
    constructor
    · rintro ⟨hi, hclosed⟩
      have hlt : i < st.curNode := by
        by_contra hge
        rw [hopened i hi (Nat.le_of_not_lt hge)] at hclosed
        cases hclosed
      exact ⟨hlt, (himproves.opened i hlt).symm.trans hclosed⟩
    · rintro ⟨hi, hclosed⟩
      exact ⟨lt_of_lt_of_le hi himproves.le, (himproves.opened i hi).trans hclosed⟩

end

end PathSeeker

end Infernum
