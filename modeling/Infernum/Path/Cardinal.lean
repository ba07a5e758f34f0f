import Infernum.Path.Search

/-!
# Searches without diagonals

Without `allowDiagonal` a node has its three straight neighbors looked at, but the first
node has all eight. So all directions of a path but the first are straight, and the first
is if no place diagonally beside the creature can be walked to.
-/

namespace Infernum

namespace PathFinding

/-- What is left of the directions without `allowDiagonal`. -/
def Direction.cardinals : List Direction := [.north, .east, .south, .west]

def Straight (offset : Int × Int) : Prop := offset.1 = 0 ∨ offset.2 = 0

theorem straight_neighbors {nodes : Nat → AStarNode} {n p : Nat}
    (hparent : (nodes n).parent = some p) {offset : Int × Int}
    (h : offset ∈ neighbors false nodes n) : Straight offset := by
  have hall : ∀ d ∈ Direction.cardinals, ∀ o ∈ (dirNeighbors d).take 3, o.1 = 0 ∨ o.2 = 0 := by
    decide
  have hdirection : ∀ offset_x offset_y,
      parentDirection false offset_x offset_y ∈ Direction.cardinals := by
    intro offset_x offset_y
    unfold parentDirection
    split_ifs <;> simp_all [Direction.cardinals]
  rw [neighbors, hparent] at h
  exact hall _ (hdirection _ _) offset h

/-- Only a step that changes both coordinates by one is diagonal. -/
theorem stepDirection_cardinal {dx dy : Int} (h : ¬(dx.natAbs = 1 ∧ dy.natAbs = 1))
    {d : Direction} (hd : stepDirection dx dy = some d) : d ∈ Direction.cardinals := by
  unfold stepDirection at hd
  split_ifs at hd with h1 h2 h3 h4
  · omega
  · omega
  · omega
  · omega
  all_goals
    obtain rfl := Option.some.inj hd
    simp [Direction.cardinals]

/-- A straight step changes one coordinate at most. -/
theorem Straight.not_diagonal {offset : Int × Int} (h : Straight offset) (x y : BitVec 16) :
    ¬(((x.toNat : Int) - (Walker.coordinate (x.toNat + offset.1)).toNat).natAbs = 1 ∧
      ((y.toNat : Int) - (Walker.coordinate (y.toNat + offset.2)).toNat).natAbs = 1) := by
  have hsame : ∀ v : BitVec 16, Walker.coordinate (v.toNat + 0) = v := fun v =>
    (coordinate_add v 0).trans (BitVec.add_zero v)
  rintro ⟨hx, hy⟩
  rcases h with h | h
  · rw [h, hsame] at hx
    omega
  · rw [h, hsame] at hy
    omega

end PathFinding

namespace PathSeeker

open PathFinding

variable {T : Type} [DecidableEq T] {s : PathSeeker T} {condition : PathCondition}
  {fpp : FindPathParams} {st st' : AStarNodes}

/-! ## The nodes -/

variable (s condition fpp) in
/-- Each node but the first stands for a place of the search area that can be walked to, and
its parent is the first one or a straight step away. -/
structure StraightNodes (st : AStarNodes) : Prop where
  pos : 0 < st.curNode
  root : st.nodes 0 = { x := s.position.x, y := s.position.y }
  table : ∀ k i, st.nodeTable k = some i →
    i < st.curNode ∧ AStarNodes.key (st.nodes i).x (st.nodes i).y = k
  walked : ∀ i, 0 < i → i < st.curNode →
    s.inSearchArea condition fpp (s.nodePlace (st.nodes i)) = true ∧
      (s.canWalkTo (s.nodePlace (st.nodes i))).isSome
  parent : ∀ i, 0 < i → i < st.curNode → ∃ p < st.curNode, (st.nodes i).parent = some p ∧
    (p = 0 ∨ ∃ offset, Straight offset ∧
      s.nodePlace (st.nodes i) = s.placeBeside (st.nodes p) offset)

variable (s) in
/-- Nodes stay where they are. -/
structure KeepsPlaces (st st' : AStarNodes) : Prop where
  le : st.curNode ≤ st'.curNode
  place : ∀ i < st.curNode, s.nodePlace (st'.nodes i) = s.nodePlace (st.nodes i)

omit [DecidableEq T] in
theorem KeepsPlaces.refl (st : AStarNodes) : s.KeepsPlaces st st := ⟨le_refl _, fun _ _ => rfl⟩

omit [DecidableEq T] in
theorem KeepsPlaces.trans {st'' : AStarNodes} (h : s.KeepsPlaces st st')
    (h' : s.KeepsPlaces st' st'') : s.KeepsPlaces st st'' where
  le := h.le.trans h'.le
  place i hi := (h'.place i (hi.trans_le h.le)).trans (h.place i hi)

omit [DecidableEq T] in
theorem nodePlace_eq_iff {node node' : AStarNode} :
    s.nodePlace node = s.nodePlace node' ↔ node.x = node'.x ∧ node.y = node'.y := by
  simp [nodePlace]

omit [DecidableEq T] in
theorem placeBeside_congr {node node' : AStarNode} (h : s.nodePlace node = s.nodePlace node')
    (offset : Int × Int) : s.placeBeside node offset = s.placeBeside node' offset := by
  obtain ⟨hx, hy⟩ := nodePlace_eq_iff.mp h
  rw [placeBeside, placeBeside, hx, hy]

theorem straightNodes_new : s.StraightNodes condition fpp (.new s.position.x s.position.y) where
  pos := Nat.one_pos
  root := rfl
  table k i h := by
    have hk : Function.update (fun _ => none) (AStarNodes.key s.position.x s.position.y) (some 0) k =
      some i := h
    rw [Function.update_apply] at hk
    split at hk
    · next hkey =>
      obtain rfl := Option.some.inj hk
      exact ⟨Nat.one_pos, hkey.symm⟩
    · cases hk
  walked i hpos hlt := absurd hlt (Nat.not_lt.mpr hpos)
  parent i hpos hlt := absurd hlt (Nat.not_lt.mpr hpos)

/-- A node that was there comes to another parent. -/
theorem StraightNodes.setParent (h : s.StraightNodes condition fpp st) {n j f : Nat} (hn : n < st.curNode)
    (hj : 0 < j) (hstep : n = 0 ∨ ∃ offset, Straight offset ∧
      s.nodePlace (st.nodes j) = s.placeBeside (st.nodes n) offset) :
    s.StraightNodes condition fpp (st.setParent j n f) ∧ s.KeepsPlaces st (st.setParent j n f) := by
  have hplace : ∀ i, s.nodePlace ((st.setParent j n f).nodes i) = s.nodePlace (st.nodes i) := by
    intro i
    by_cases hij : i = j
    · subst hij
      rw [AStarNodes.setParent_self]
      rfl
    · rw [AStarNodes.setParent_of_ne st hij]
  refine ⟨⟨h.pos, ?_, ?_, ?_, ?_⟩, le_refl _, fun i _ => hplace i⟩
  · rw [AStarNodes.setParent_of_ne st hj.ne, h.root]
  · intro k i hk
    obtain ⟨hlt, hkey⟩ := h.table k i hk
    obtain ⟨hx, hy⟩ := nodePlace_eq_iff.mp (hplace i)
    exact ⟨hlt, by rw [hx, hy, hkey]⟩
  · intro i hpos hlt
    rw [hplace]
    exact h.walked i hpos hlt
  · intro i hpos hlt
    simp only [hplace, placeBeside_congr (hplace _)]
    by_cases hij : i = j
    · subst hij
      exact ⟨n, hn, by rw [AStarNodes.setParent_self], hstep⟩
    · rw [AStarNodes.setParent_of_ne st hij]
      exact h.parent i hpos hlt

omit [DecidableEq T] in
theorem openNode_nodes (j : Nat) : (st.openNode j).nodes = st.nodes ∧
    (st.openNode j).nodeTable = st.nodeTable ∧ (st.openNode j).curNode = st.curNode := by
  unfold AStarNodes.openNode
  split <;> exact ⟨rfl, rfl, rfl⟩

/-- What is open does not matter. -/
theorem StraightNodes.congr (h : s.StraightNodes condition fpp st) (hnodes : st'.nodes = st.nodes)
    (htable : st'.nodeTable = st.nodeTable) (hcur : st'.curNode = st.curNode) :
    s.StraightNodes condition fpp st' where
  pos := hcur ▸ h.pos
  root := hnodes ▸ h.root
  table := by
    rw [hnodes, htable, hcur]
    exact h.table
  walked := by
    rw [hnodes, hcur]
    exact h.walked
  parent := by
    rw [hnodes, hcur]
    exact h.parent

/-- A new node, for a place that can be walked to. -/
theorem StraightNodes.created (h : s.StraightNodes condition fpp st) {n f : Nat} {pos : Position}
    (hn : n < st.curNode) (hz : pos.z = s.position.z)
    (hwalk : s.inSearchArea condition fpp pos = true ∧ (s.canWalkTo pos).isSome)
    (hstep : n = 0 ∨ ∃ offset, Straight offset ∧ pos = s.placeBeside (st.nodes n) offset)
    (hcreate : st.createOpenNode n pos.x pos.y f = some st') :
    s.StraightNodes condition fpp st' ∧ s.KeepsPlaces st st' := by
  have hnew := AStarNodes.createOpenNode_spec hcreate
  have hplace : s.nodePlace { parent := some n, f := f, x := pos.x, y := pos.y } = pos := by
    rw [nodePlace, ← hz]
  have hcases : ∀ i < st'.curNode, i < st.curNode ∨ i = st.curNode := by
    intro i hi
    rw [hnew.curNode] at hi
    omega
  refine ⟨⟨?_, ?_, ?_, ?_, ?_⟩, ?_, ?_⟩
  · rw [hnew.curNode]
    omega
  · rw [hnew.old 0 h.pos, h.root]
  · intro k i hk
    rw [hnew.table, hnew.curNode] at *
    split at hk
    · next hkey =>
      obtain rfl := Option.some.inj hk
      rw [hnew.new]
      exact ⟨Nat.lt_succ_self _, hkey.symm⟩
    · obtain ⟨hlt, hkey⟩ := h.table k i hk
      rw [hnew.old i hlt]
      exact ⟨hlt.trans (Nat.lt_succ_self _), hkey⟩
  · intro i hpos hlt
    rcases hcases i hlt with hold | rfl
    · rw [hnew.old i hold]
      exact h.walked i hpos hold
    · rw [hnew.new, hplace]
      exact hwalk
  · intro i hpos hlt
    rcases hcases i hlt with hold | rfl
    · obtain ⟨p, hp, hparent, hoffset⟩ := h.parent i hpos hold
      rw [hnew.old i hold]
      refine ⟨p, ?_, hparent, ?_⟩
      · rw [hnew.curNode]
        omega
      · rw [hnew.old p hp]
        exact hoffset
    · refine ⟨n, ?_, ?_, ?_⟩
      · rw [hnew.curNode]
        omega
      · rw [hnew.new]
      · rw [hnew.new, hplace, hnew.old n hn]
        exact hstep
  · rw [hnew.curNode]
    omega
  · intro i hi
    rw [hnew.old i hi]

/-! ## The search -/

omit [DecidableEq T] in
theorem placeBeside_z (node : AStarNode) (offset : Int × Int) :
    (s.placeBeside node offset).z = s.position.z := rfl

/-- One neighbor, in a straight direction unless the node is the first one. -/
theorem StraightNodes.visitNeighbor (h : s.StraightNodes condition fpp st) {n : Nat} {node : AStarNode}
    {offset : Int × Int} (hn : n < st.curNode)
    (hnode : s.nodePlace (st.nodes n) = s.nodePlace node) (hoffset : n = 0 ∨ Straight offset)
    (hvisit : s.visitNeighbor condition fpp n node st offset = some st') :
    s.StraightNodes condition fpp st' ∧ s.KeepsPlaces st st' := by
  have hstep : n = 0 ∨ ∃ o, Straight o ∧
      s.placeBeside node offset = s.placeBeside (st.nodes n) o :=
    hoffset.imp_right fun hstraight => ⟨offset, hstraight, (placeBeside_congr hnode offset).symm⟩
  rw [PathSeeker.visitNeighbor] at hvisit
  split at hvisit
  · obtain rfl := Option.some.inj hvisit
    exact ⟨h, .refl st⟩
  · next harea =>
    cases hfound : st.getNodeByPosition (s.placeBeside node offset).x
        (s.placeBeside node offset).y with
    | some j =>
        simp only [hfound] at hvisit
        split at hvisit
        · obtain rfl := Option.some.inj hvisit
          exact ⟨h, .refl st⟩
        · next hcheaper =>
          obtain rfl := Option.some.inj hvisit
          obtain ⟨hlt, hkey⟩ := h.table _ j hfound
          obtain ⟨hx, hy⟩ := AStarNodes.key_injective hkey
          have hplace : s.nodePlace (st.nodes j) = s.placeBeside node offset := by
            rw [nodePlace, hx, hy, ← placeBeside_z node offset]
          -- nothing is cheaper than the first node
          have hj : 0 < j := by
            refine Nat.pos_of_ne_zero fun hzero => hcheaper ?_
            rw [hzero, h.root]
            exact Nat.zero_le _
          obtain ⟨hset, hkeeps⟩ := h.setParent hn hj (by rw [hplace]; exact hstep)
          obtain ⟨hnodes, htable, hcur⟩ := openNode_nodes j
          refine ⟨hset.congr hnodes htable hcur, ?_, ?_⟩
          · rw [hcur]
            exact hkeeps.le
          · rw [hnodes]
            exact hkeeps.place
    | none =>
        simp only [hfound] at hvisit
        cases hwalk : s.canWalkTo (s.placeBeside node offset) with
        | none =>
            rw [hwalk] at hvisit
            obtain rfl := Option.some.inj hvisit
            exact ⟨h, .refl st⟩
        | some tile =>
            simp only [hwalk] at hvisit
            exact h.created hn (placeBeside_z node offset)
              ⟨by simpa using harea, by rw [hwalk]; rfl⟩ hstep hvisit

/-- All neighbors of a node. -/
theorem StraightNodes.visitNeighbors (h : s.StraightNodes condition fpp st) {n : Nat} {node : AStarNode}
    {offsets : List (Int × Int)} (hn : n < st.curNode)
    (hnode : s.nodePlace (st.nodes n) = s.nodePlace node)
    (hoffsets : n = 0 ∨ ∀ o ∈ offsets, Straight o) :
    s.StraightNodes condition fpp (s.visitNeighbors condition fpp n node offsets st).1 ∧
      s.KeepsPlaces st (s.visitNeighbors condition fpp n node offsets st).1 := by
  induction offsets generalizing st with
  | nil => exact ⟨h, .refl st⟩
  | cons o offsets ih =>
      rw [PathSeeker.visitNeighbors]
      cases hvisit : s.visitNeighbor condition fpp n node st o with
      | none => exact ⟨h, .refl st⟩
      | some st' =>
          obtain ⟨h', hkeeps⟩ := h.visitNeighbor hn hnode
            (hoffsets.imp_right fun hall => hall o List.mem_cons_self) hvisit
          obtain ⟨h'', hkeeps'⟩ := ih h' (hn.trans_le hkeeps.le)
            ((hkeeps.place n hn).trans hnode)
            (hoffsets.imp_right fun hall o ho => hall o (List.mem_cons_of_mem _ ho))
          exact ⟨h'', hkeeps.trans hkeeps'⟩

theorem StraightNodes.expanded (hdiagonal : fpp.allowDiagonal = false) {v : Search}
    (h : s.StraightNodes condition fpp v.nodes) {n : Nat} (hn : n < v.nodes.curNode) :
    s.StraightNodes condition fpp (s.expanded condition fpp v n).1 ∧
      s.KeepsPlaces v.nodes (s.expanded condition fpp v n).1 := by
  refine h.visitNeighbors hn rfl ?_
  rcases Nat.eq_zero_or_pos n with hzero | hpos
  · exact .inl hzero
  · obtain ⟨p, -, hparent, -⟩ := h.parent n hpos hn
    refine .inr fun o ho => ?_
    rw [hdiagonal] at ho
    exact straight_neighbors hparent ho

variable (s condition fpp) in
/-- What holds in every state of a search without diagonals. -/
structure StraightSearch (v : Search) : Prop where
  nodes : s.StraightNodes condition fpp v.nodes
  found : ∀ n, v.found = some n → n < v.nodes.curNode ∧ v.endPos = s.nodePlace (v.nodes.nodes n)

/-- What is found, or was, in the nodes that there are then. -/
theorem StraightSearch.finds {v v' : Search} {n : Nat} (h : s.StraightSearch condition fpp v)
    (hn : n < v.nodes.curNode) (hfinds : s.Finds condition fpp v v' n)
    (hnodes : s.StraightNodes condition fpp v'.nodes) (hkeeps : s.KeepsPlaces v.nodes v'.nodes) :
    s.StraightSearch condition fpp v' where
  nodes := hnodes
  found m hm := by
    rcases hfinds with ⟨hsame, hend⟩ | ⟨hfound, hend, -⟩
    · obtain ⟨hlt, hplace⟩ := h.found m (hsame ▸ hm)
      exact ⟨hlt.trans_le hkeeps.le, by rw [hend, hplace, hkeeps.place m hlt]⟩
    · obtain rfl := Option.some.inj (hfound.symm.trans hm)
      exact ⟨hn.trans_le hkeeps.le, by rw [hend, hkeeps.place n hn]⟩

/-- The body of the loop, whether it goes on or leaves. -/
theorem StraightSearch.step (hdiagonal : fpp.allowDiagonal = false) {v v' : Search}
    (h : s.StraightSearch condition fpp v)
    (hstep : s.searchStep condition fpp v = .again v' ∨
      s.searchStep condition fpp v = .leave v') : s.StraightSearch condition fpp v' := by
  rcases s.searchStep_cases condition fpp v with ⟨-, heq⟩ | ⟨n, u, hbest, hfinds, hcases⟩
  · rw [heq] at hstep
    split at hstep
    · rcases hstep with hstep | hstep
      · cases hstep
      · cases hstep
        exact h
    · rcases hstep with hstep | hstep <;> cases hstep
  · have hn := (v.nodes.getBestNode_spec hbest).1
    rcases hcases with ⟨hnodes, -, heq⟩ | ⟨-, heq⟩ | ⟨hnodes, heq⟩
    · rw [heq] at hstep
      rcases hstep with hstep | hstep
      · cases hstep
      · cases hstep
        refine h.finds hn hfinds ?_ ?_
        · rw [hnodes]
          exact h.nodes
        · rw [hnodes]
          exact .refl _
    · rw [heq] at hstep
      rcases hstep with hstep | hstep <;> cases hstep
    · rw [heq] at hstep
      rcases hstep with hstep | hstep
      · cases hstep
        obtain ⟨hexpanded, hkeeps⟩ := h.nodes.expanded hdiagonal hn
        refine h.finds hn hfinds ?_ ?_
        · rw [hnodes]
          exact hexpanded.congr rfl rfl rfl
        · rw [hnodes]
          exact ⟨hkeeps.le, hkeeps.place⟩
      · cases hstep

theorem straightSearch_start : s.StraightSearch condition fpp s.startSearch where
  nodes := straightNodes_new
  found n hn := absurd hn (by simp [startSearch])

theorem StraightSearch.searchLoop (hdiagonal : fpp.allowDiagonal = false) {fuel : Nat}
    {v u : Search} (h : s.StraightSearch condition fpp v)
    (hloop : s.searchLoop condition fpp fuel v = some (some u)) : s.StraightSearch condition fpp u := by
  induction fuel generalizing v with
  | zero => cases hloop
  | succ fuel ih =>
      rw [PathSeeker.searchLoop] at hloop
      split at hloop
      · cases hstep : s.searchStep condition fpp v with
        | returnFalse =>
            rw [hstep] at hloop
            cases hloop
        | leave v' =>
            rw [hstep] at hloop
            cases hloop
            exact h.step hdiagonal (.inr hstep)
        | again v' =>
            rw [hstep] at hloop
            exact ih (h.step hdiagonal (.inl hstep)) hloop
      · cases hloop
        exact h

/-! ## The path -/

/-- Both coordinates differ by one. -/
def DiagonallyBeside (p q : Position) : Prop :=
  q.z = p.z ∧ getDistanceX p q = 1 ∧ getDistanceY p q = 1

variable (s condition fpp) in
/-- Nothing diagonally beside the creature can be searched. -/
def NoDiagonal : Prop :=
  ∀ pos, DiagonallyBeside s.position pos → s.inSearchArea condition fpp pos = true →
    s.canWalkTo pos = none

/-- The step from a node to its parent. -/
theorem StraightNodes.stepDirection (h : s.StraightNodes condition fpp st) {i p : Nat}
    (hpos : 0 < i) (hi : i < st.curNode) (hparent : (st.nodes i).parent = some p)
    (hfree : p ≠ 0 ∨ s.NoDiagonal condition fpp) {d : PathFinding.Direction}
    (hd : PathFinding.stepDirection ((st.nodes p).x.toNat - (st.nodes i).x.toNat)
      ((st.nodes p).y.toNat - (st.nodes i).y.toNat) = some d) : d ∈ Direction.cardinals := by
  refine stepDirection_cardinal ?_ hd
  obtain ⟨q, -, hq, hstep⟩ := h.parent i hpos hi
  obtain rfl := Option.some.inj (hparent.symm.trans hq)
  rintro ⟨hx, hy⟩
  have hstart : p = 0 → False := by
    rintro rfl
    rw [h.root] at hx hy
    obtain ⟨harea, hwalk⟩ := h.walked i hpos hi
    have hbeside : DiagonallyBeside s.position (s.nodePlace (st.nodes i)) :=
      ⟨rfl, congrArg Nat.cast hx, congrArg Nat.cast hy⟩
    rw [hfree.resolve_left (· rfl) _ hbeside harea] at hwalk
    cases hwalk
  rcases hstep with hzero | ⟨offset, hstraight, hplace⟩
  · exact hstart hzero
  · obtain ⟨hx', hy'⟩ : (st.nodes i).x = (s.placeBeside (st.nodes p) offset).x ∧
        (st.nodes i).y = (s.placeBeside (st.nodes p) offset).y := by
      rw [← hplace]
      exact ⟨rfl, rfl⟩
    rw [hx'] at hx
    rw [hy'] at hy
    exact hstraight.not_diagonal _ _ ⟨hx, hy⟩

/-- The way back from a node. -/
theorem StraightNodes.walkBack (h : s.StraightNodes condition fpp st) {fuel i : Nat}
    (hi : i < st.curNode) {dirList dirs : List PathFinding.Direction}
    (hback : walkBack st.nodes fuel (st.nodes i).parent (st.nodes i).x.toNat
      (st.nodes i).y.toNat dirList = some dirs) :
    ∃ path, dirs = path ++ dirList ∧ (∀ d ∈ path.tail, d ∈ Direction.cardinals) ∧
      (s.NoDiagonal condition fpp → ∀ d ∈ path, d ∈ Direction.cardinals) ∧
      (i = 0 → path = []) := by
  induction fuel generalizing i dirList with
  | zero =>
      cases hparent : (st.nodes i).parent with
      | none =>
          rw [hparent] at hback
          cases hback
          exact ⟨[], rfl, by simp, by simp, fun _ => rfl⟩
      | some p =>
          rw [hparent] at hback
          cases hback
  | succ fuel ih =>
      cases hparent : (st.nodes i).parent with
      | none =>
          rw [hparent] at hback
          cases hback
          exact ⟨[], rfl, by simp, by simp, fun _ => rfl⟩
      | some p =>
          have hpos : 0 < i := by
            refine Nat.pos_of_ne_zero fun hzero => ?_
            rw [hzero, h.root] at hparent
            cases hparent
          obtain ⟨q, hq, hq', -⟩ := h.parent i hpos hi
          obtain rfl := Option.some.inj (hparent.symm.trans hq')
          rw [hparent] at hback
          obtain ⟨path, hdirs, htail, hall, hroot⟩ := ih hq hback
          have hstep : p ≠ 0 ∨ s.NoDiagonal condition fpp → ∀ d ∈ (PathFinding.stepDirection
              ((st.nodes p).x.toNat - (st.nodes i).x.toNat)
              ((st.nodes p).y.toNat - (st.nodes i).y.toNat)).toList, d ∈ Direction.cardinals :=
            fun hfree d hd => h.stepDirection hpos hi hparent hfree (Option.mem_toList.mp hd)
          refine ⟨path ++ _, by rw [hdirs, List.append_assoc], ?_, ?_, by omega⟩
          · cases path with
            | nil =>
                intro d hd
                rw [List.nil_append] at hd
                cases hone : PathFinding.stepDirection
                  ((st.nodes p).x.toNat - (st.nodes i).x.toNat)
                  ((st.nodes p).y.toNat - (st.nodes i).y.toNat) <;> simp [hone] at hd
            | cons e path =>
                -- the parent is not the first node, as there is more to go back
                have hp : p ≠ 0 := fun hzero => by simpa using hroot hzero
                intro d hd
                rcases List.mem_append.mp hd with hd | hd
                · exact htail d hd
                · exact hstep (.inl hp) d hd
          · intro hno d hd
            rcases List.mem_append.mp hd with hd | hd
            · exact hall hno d hd
            · exact hstep (.inr hno) d hd

/-- All directions but the first are straight, and the first is if nothing diagonally beside
the creature can be searched. -/
theorem cardinal_of_getPathMatching (hdiagonal : fpp.allowDiagonal = false) {fuel : Nat}
    {dirs : List PathFinding.Direction}
    (hrun : s.getPathMatching condition fpp fuel [] = some (some dirs)) :
    (∀ d ∈ dirs.tail, d ∈ Direction.cardinals) ∧
      (s.NoDiagonal condition fpp → ∀ d ∈ dirs, d ∈ Direction.cardinals) := by
  rw [getPathMatching] at hrun
  cases hloop : s.searchLoop condition fpp fuel s.startSearch with
  | none =>
      rw [hloop] at hrun
      cases hrun
  | some r =>
      rw [hloop] at hrun
      cases r with
      | none => cases hrun
      | some v =>
          have hv := straightSearch_start.searchLoop hdiagonal hloop
          cases hfound : v.found with
          | none => simp [hfound] at hrun
          | some n =>
              obtain ⟨hn, hend⟩ := hv.found n hfound
              simp only [hfound, hend] at hrun
              obtain ⟨dirs', hback, hsome⟩ := Option.map_eq_some_iff.mp hrun
              obtain rfl := Option.some.inj hsome
              obtain ⟨path, hdirs, htail, hall, -⟩ := hv.nodes.walkBack hn hback
              rw [List.append_nil] at hdirs
              rw [hdirs]
              exact ⟨htail, hall⟩

/-! ## A search for one place -/

/-- Only a place itself is good enough, and nothing else is searched. -/
def onlyThere : FindPathParams where
  allowDiagonal := false
  keepDistance := true
  maxTargetDist := 0

variable {pos : Position}

theorem isInRange_onlyThere (isSightClear : Position → Position → Bool)
    (pos start q : Position) :
    (frozenPathingCondition isSightClear pos).isInRange start q onlyThere = true ↔
      q.x = pos.x ∧ q.y = pos.y := by
  rw [← BitVec.toNat_inj, ← BitVec.toNat_inj]
  simp [frozenPathingCondition, FrozenPathingConditionCall.isInRange, onlyThere, Position.getX,
    Position.getY]
  omega

theorem call_onlyThere_self {isSightClear : Position → Position → Bool}
    (hclear : isSightClear pos pos = true) (start : Position) (bestMatch : Int) :
    (frozenPathingCondition isSightClear pos).call start pos onlyThere bestMatch = (true, 0) := by
  have hrange : FrozenPathingConditionCall.isInRange pos start pos onlyThere = true :=
    (isInRange_onlyThere isSightClear pos start pos).mpr ⟨rfl, rfl⟩
  show FrozenPathingConditionCall.call isSightClear pos start pos onlyThere bestMatch = _
  rw [FrozenPathingConditionCall.call, hrange, hclear]
  simp [onlyThere, getDistanceX, getDistanceY, getOffsetX, getOffsetY]

theorem call_onlyThere_of_ne (isSightClear : Position → Position → Bool) (start : Position)
    {q : Position} (bestMatch : Int) (hx : q.x ≠ pos.x) :
    (frozenPathingCondition isSightClear pos).call start q onlyThere bestMatch =
      (false, bestMatch) := by
  have hrange : FrozenPathingConditionCall.isInRange pos start q onlyThere = false :=
    Bool.eq_false_iff.mpr fun h => hx ((isInRange_onlyThere isSightClear pos start q).mp h).1
  show FrozenPathingConditionCall.call isSightClear pos start q onlyThere bestMatch = _
  rw [FrozenPathingConditionCall.call, hrange]
  rfl

/-- A loop in which one place around the node matters. -/
theorem visitNeighbors_one {n : Nat} {node : AStarNode} {offset : Int × Int}
    {offsets : List (Int × Int)} (hnodup : offsets.Nodup) (hmem : offset ∈ offsets)
    (hother : ∀ o ∈ offsets, o ≠ offset → ∀ st,
      s.visitNeighbor condition fpp n node st o = some st)
    (hvisit : s.visitNeighbor condition fpp n node st offset = some st') :
    s.visitNeighbors condition fpp n node offsets st = (st', true) := by
  have hskip : ∀ (offsets : List (Int × Int)) (st : AStarNodes),
      (∀ o ∈ offsets, s.visitNeighbor condition fpp n node st o = some st) →
        s.visitNeighbors condition fpp n node offsets st = (st, true) := by
    intro offsets st hall
    induction offsets with
    | nil => rfl
    | cons o offsets ih =>
        rw [PathSeeker.visitNeighbors, hall o List.mem_cons_self]
        exact ih fun o' ho' => hall o' (List.mem_cons_of_mem _ ho')
  induction offsets with
  | nil => cases hmem
  | cons o offsets ih =>
      obtain ⟨hnot, hnodup⟩ := List.nodup_cons.mp hnodup
      rw [PathSeeker.visitNeighbors]
      by_cases heq : o = offset
      · rw [heq, hvisit]
        refine hskip offsets st' fun o' ho' => hother o' (List.mem_cons_of_mem _ ho') ?_ st'
        rintro rfl
        exact hnot (heq ▸ ho')
      · rw [hother o List.mem_cons_self heq]
        exact ih hnodup ((List.mem_cons.mp hmem).resolve_left (Ne.symm heq))
          fun o' ho' => hother o' (List.mem_cons_of_mem _ ho')

omit [DecidableEq T] in
/-- Different places around a node are different. -/
theorem placeBeside_injective {node : AStarNode} {o o' : Int × Int} (ho : o ∈ allNeighbors)
    (ho' : o' ∈ allNeighbors) (h : s.placeBeside node o = s.placeBeside node o') : o = o' := by
  obtain ⟨d, rfl⟩ := exists_direction_of_mem_all ho
  obtain ⟨d', rfl⟩ := exists_direction_of_mem_all ho'
  rw [placeBeside_offset, placeBeside_offset] at h
  rw [getNextPosition_injective h]

omit [DecidableEq T] in
theorem getTileWalkCost_le (tile : T) : s.getTileWalkCost tile ≤ 390 := by
  unfold getTileWalkCost
  simp only [MAP_NORMALWALKCOST]
  split_ifs <;> split <;> (try split) <;> omega

theorem getMapWalkCost_le (node : AStarNode) (pos : Position) : node.getMapWalkCost pos ≤ 25 := by
  unfold AStarNode.getMapWalkCost
  split <;> decide

omit [DecidableEq T] in
/-- The offset of a place diagonally beside the creature. -/
theorem DiagonallyBeside.offset (h : DiagonallyBeside s.position pos) {root : AStarNode}
    (hroot : s.nodePlace root = s.position) :
    ∃ o ∈ allNeighbors, s.placeBeside root o = pos ∧ o.1.natAbs = 1 ∧ o.2.natAbs = 1 ∧
      o.1 = pos.x.toNat - root.x.toNat ∧ o.2 = pos.y.toNat - root.y.toNat := by
  obtain ⟨hz, hx, hy⟩ := h
  have hx' : ((pos.x.toNat : Int) - root.x.toNat).natAbs = 1 := by
    rw [← hroot] at hx
    simp only [getDistanceX, getOffsetX, Position.getX, nodePlace] at hx
    omega
  have hy' : ((pos.y.toNat : Int) - root.y.toNat).natAbs = 1 := by
    rw [← hroot] at hy
    simp only [getDistanceY, getOffsetY, Position.getY, nodePlace] at hy
    omega
  have hcoordinate : ∀ v w : BitVec 16,
      Walker.coordinate (v.toNat + ((w.toNat : Int) - v.toNat)) = w := by
    intro v w
    rw [add_sub_cancel, Walker.coordinate, BitVec.ofInt_natCast, BitVec.ofNat_toNat,
      BitVec.setWidth_eq]
  refine ⟨(pos.x.toNat - root.x.toNat, pos.y.toNat - root.y.toNat), ?_, ?_, hx', hy', rfl, rfl⟩
  · rcases Int.natAbs_eq_iff.mp hx' with hx' | hx' <;>
      rcases Int.natAbs_eq_iff.mp hy' with hy' | hy' <;>
      simp [allNeighbors, hx', hy']
  · rw [placeBeside, hcoordinate, hcoordinate, ← hz]

/-- The step between them, seen from the end. -/
theorem not_cardinal_of_diagonal {dx dy : Int} (hx : dx.natAbs = 1) (hy : dy.natAbs = 1) :
    ∃ d, stepDirection dx dy = some d ∧ d ∉ Direction.cardinals := by
  rcases Int.natAbs_eq_iff.mp hx with rfl | rfl <;> rcases Int.natAbs_eq_iff.mp hy with rfl | rfl
  · exact ⟨.northwest, rfl, by decide⟩
  · exact ⟨.southwest, rfl, by decide⟩
  · exact ⟨.northeast, rfl, by decide⟩
  · exact ⟨.southeast, rfl, by decide⟩

theorem getNodeByPosition_new {x x' : BitVec 16} (y y' : BitVec 16) (h : x ≠ x') :
    (AStarNodes.new x y).getNodeByPosition x' y' = none := by
  rw [AStarNodes.getNodeByPosition, AStarNodes.new]
  dsimp only
  rw [Function.update_of_ne fun heq => h (AStarNodes.key_injective heq).1.symm]

/-- The place is the only one to which the first node leads. -/
theorem visitNeighbors_onlyThere (isSightClear : Position → Position → Bool)
    (hbeside : DiagonallyBeside s.position pos) {tile : T} (hwalk : s.canWalkTo pos = some tile) :
    ∃ st f, f < 2147483647 ∧ st.closedNodes = 0 ∧
      AStarNodes.Created s.startSearch.nodes st
        { parent := some 0, f := f, x := pos.x, y := pos.y } ∧
      s.visitNeighbors (frozenPathingCondition isSightClear pos) onlyThere 0
        { x := s.position.x, y := s.position.y } allNeighbors s.startSearch.nodes = (st, true) := by
  have hrange := isInRange_onlyThere isSightClear pos s.position
  generalize frozenPathingCondition isSightClear pos = condition at *
  generalize hroot : ({ x := s.position.x, y := s.position.y } : AStarNode) = root
  have hplace : s.nodePlace root = s.position := by
    rw [← hroot]
    rfl
  obtain ⟨o, ho, hpos, hx, -, hdx, -⟩ := hbeside.offset hplace
  have hne : s.position.x ≠ pos.x := by
    intro heq
    have hsame : root.x = pos.x := by rw [← hroot, ← heq]
    rw [hdx, hsame] at hx
    omega
  have harea : ∀ q, s.inSearchArea condition onlyThere q = true ↔ q.x = pos.x ∧ q.y = pos.y := by
    intro q
    rw [← hrange, inSearchArea, show onlyThere.maxSearchDist = 0 from rfl,
      show onlyThere.keepDistance = true from rfl]
    simp
  have hother : ∀ o' ∈ allNeighbors, o' ≠ o → ∀ st,
      s.visitNeighbor condition onlyThere 0 root st o' = some st := by
    intro o' ho' hne' st
    have hout : s.inSearchArea condition onlyThere (s.placeBeside root o') = false := by
      refine Bool.eq_false_iff.mpr fun hin => ?_
      obtain ⟨hx', hy'⟩ := (harea _).mp hin
      have hsame : s.placeBeside root o' = s.placeBeside root o := by
        rw [hpos]
        exact (congr (congrArg₂ Position.mk hx' hy') hbeside.1.symm :
          Position.mk _ _ _ = Position.mk pos.x pos.y pos.z)
      exact hne' (placeBeside_injective ho' ho hsame)
    rw [PathSeeker.visitNeighbor, hout]
    rfl
  have hfree : s.startSearch.nodes.getNodeByPosition pos.x pos.y = none :=
    getNodeByPosition_new _ _ hne
  have hcreate : s.visitNeighbor condition onlyThere 0 root s.startSearch.nodes o =
      s.startSearch.nodes.createOpenNode 0 pos.x pos.y
        (root.f + root.getMapWalkCost pos + s.getTileWalkCost tile) := by
    rw [PathSeeker.visitNeighbor, hpos, (harea pos).mpr ⟨rfl, rfl⟩]
    simp [hfree, hwalk]
  have hroom : ¬AStarNodes.MAX_NODES ≤ s.startSearch.nodes.curNode := (by decide : ¬512 ≤ 1)
  obtain ⟨st, hst⟩ : ∃ st, s.startSearch.nodes.createOpenNode 0 pos.x pos.y
      (root.f + root.getMapWalkCost pos + s.getTileWalkCost tile) = some st :=
    ⟨_, if_neg hroom⟩
  refine ⟨st, _, ?_, ?_, AStarNodes.createOpenNode_spec hst,
    visitNeighbors_one (by decide) ho hother (hcreate.trans hst)⟩
  · have hmap := getMapWalkCost_le root pos
    have htile := s.getTileWalkCost_le tile
    have hzero : root.f = 0 := by rw [← hroot]
    omega
  · rw [AStarNodes.createOpenNode, if_neg hroom] at hst
    obtain rfl := Option.some.inj hst
    rfl

omit [DecidableEq T] in
/-- The new node is the best one when the first is closed. -/
theorem getBestNode_created {node : AStarNode} (hnew : AStarNodes.Created s.startSearch.nodes st node)
    (hf : node.f < 2147483647) : (st.closeNode 0).getBestNode = some 1 := by
  have hcur : st.curNode = 2 := hnew.curNode
  have hopen : st.openNodes 1 = true := hnew.openNew
  have hnode : st.nodes 1 = node := hnew.new
  simp [AStarNodes.getBestNode, AStarNodes.closeNode, hcur, hopen, hnode, List.range_succ, hf]

/-- A place diagonally beside the creature that can be walked to is found in one step. -/
theorem getPathMatching_onlyThere {isSightClear : Position → Position → Bool}
    (hclear : isSightClear pos pos = true) (hbeside : DiagonallyBeside s.position pos) {tile : T}
    (hwalk : s.canWalkTo pos = some tile) :
    ∃ d, d ∉ Direction.cardinals ∧
      s.getPathMatching (frozenPathingCondition isSightClear pos) onlyThere 3 [] =
        some (some [d]) := by
  obtain ⟨st, f, hf, hnone, hnew, hneighbors⟩ := visitNeighbors_onlyThere isSightClear hbeside hwalk
  obtain ⟨hz, hx, hy⟩ := hbeside
  have hne : s.position.x ≠ pos.x := by
    intro heq
    simp [getDistanceX, getOffsetX, Position.getX, heq] at hx
  have hself := call_onlyThere_self hclear s.position 0
  have hstart := call_onlyThere_of_ne isSightClear s.position 0 hne
  generalize frozenPathingCondition isSightClear pos = condition at *
  have hfirst : s.searchStep condition onlyThere s.startSearch =
      .again { s.startSearch with nodes := st.closeNode 0 } := by
    have hbest : s.startSearch.nodes.getBestNode = some 0 := rfl
    have hroot : s.startSearch.nodes.nodes 0 = { x := s.position.x, y := s.position.y } := rfl
    rw [searchStep, hbest]
    dsimp only
    rw [hroot]
    have hcall : condition.call s.position { x := s.position.x, y := s.position.y, z := s.position.z }
        onlyThere s.startSearch.bestMatch = (false, 0) := hstart
    have hparent : neighbors onlyThere.allowDiagonal s.startSearch.nodes.nodes 0 = allNeighbors :=
      rfl
    rw [hcall]
    simp only [Bool.false_and, Bool.false_eq_true, if_false, hparent, hneighbors, Bool.not_true]
    rfl
  have hsecond : s.searchStep condition onlyThere { s.startSearch with nodes := st.closeNode 0 } =
      .leave { s.startSearch with nodes := st.closeNode 0, found := some 1, endPos := pos } := by
    have hbest := getBestNode_created hnew hf
    have hnode : (st.closeNode 0).nodes 1 = { parent := some 0, f := f, x := pos.x, y := pos.y } :=
      hnew.new
    rw [searchStep]
    dsimp only
    rw [hbest]
    dsimp only
    rw [hnode]
    have hcall : condition.call s.position { x := pos.x, y := pos.y, z := s.position.z }
        onlyThere s.startSearch.bestMatch = (true, 0) := by
      rw [← hz]
      exact hself
    simp only [hcall, if_true, Bool.true_and]
    rw [← hz]
    rfl
  obtain ⟨d, hd, hnot⟩ := not_cardinal_of_diagonal (Int.natCast_inj.mp hx) (Int.natCast_inj.mp hy)
  refine ⟨d, hnot, ?_⟩
  have hloop : s.searchLoop condition onlyThere 3 s.startSearch =
      some (some { s.startSearch with nodes := st.closeNode 0, found := some 1, endPos := pos }) := by
    rw [searchLoop, if_pos (.inr (by decide : (0 : Int) < 100)), hfirst]
    dsimp only
    have hclosed : (st.closeNode 0).closedNodes < 100 := by
      show st.closedNodes + 1 < 100
      rw [hnone]
      decide
    rw [searchLoop, if_pos (.inr hclosed), hsecond]
  rw [getPathMatching, hloop]
  dsimp only
  have hnode : (st.closeNode 0).nodes 1 = { parent := some 0, f := f, x := pos.x, y := pos.y } :=
    hnew.new
  have hroot : (st.closeNode 0).nodes 0 = { x := s.position.x, y := s.position.y } :=
    hnew.old 0 Nat.one_pos
  rw [hnode, walkBack, hroot, walkBack]
  have hback : PathFinding.stepDirection ((s.position.x.toNat : Int) - pos.getX)
      (s.position.y.toNat - pos.getY) = some d := hd
  rw [hback]
  rfl

/-- Without `allowDiagonal` all directions of a path but the first are straight, and the
first is too if no place of the search area diagonally beside the creature can be walked to.
If there is such a place, some search leads to it. -/
theorem getPathMatching_cardinal (s : PathSeeker T) :
    (∀ condition fpp fuel dirs, fpp.allowDiagonal = false →
      s.getPathMatching condition fpp fuel [] = some (some dirs) →
        (∀ d ∈ dirs.tail, d ∈ Direction.cardinals) ∧
          (s.NoDiagonal condition fpp → ∀ d ∈ dirs, d ∈ Direction.cardinals)) ∧
    ((∀ isSightClear target fpp fuel dirs, fpp.allowDiagonal = false →
      s.getPathMatching (frozenPathingCondition isSightClear target) fpp fuel [] =
        some (some dirs) → ∀ d ∈ dirs, d ∈ Direction.cardinals) ↔
      ∀ pos, DiagonallyBeside s.position pos → s.canWalkTo pos = none) := by
  refine ⟨fun condition fpp fuel dirs hdiagonal hrun =>
    cardinal_of_getPathMatching hdiagonal hrun, ?_, ?_⟩
  · intro hall pos hbeside
    cases hwalk : s.canWalkTo pos with
    | none => rfl
    | some tile =>
        obtain ⟨d, hnot, hrun⟩ : ∃ d, d ∉ Direction.cardinals ∧
            s.getPathMatching (frozenPathingCondition (fun _ _ => true) pos) onlyThere 3 [] =
              some (some [d]) := getPathMatching_onlyThere rfl hbeside hwalk
        exact absurd (hall _ pos onlyThere 3 [d] rfl hrun d List.mem_cons_self) hnot
  · intro hnone isSightClear target fpp fuel dirs hdiagonal hrun
    exact (cardinal_of_getPathMatching hdiagonal hrun).2 fun pos hbeside _ => hnone pos hbeside

/-! Two tiles, one diagonally beside the other. -/

def corner : PathSeeker (BitVec 16) where
  getTile pos := if pos.x = pos.y ∧ 100 ≤ pos.x ∧ pos.x ≤ 101 then some pos.x else none
  position := { x := 100, y := 100, z := 7 }
  useCacheMap := false
  tile := some 100
  queryAdd _ := true
  getTopVisibleCreature _ := false
  isPad _ := false
  getFieldItem _ := none
  isImmune _ := false
  hasCondition _ := false

/-- What stands two places to the south and to the east is reached diagonally. -/
theorem corner_path : ∃ dirs, corner.getPathMatching
    (frozenPathingCondition (fun _ _ => true) { x := 102, y := 102, z := 7 })
    { allowDiagonal := false, maxTargetDist := 1 } 513 [] = some (some dirs) ∧
      ¬∀ d ∈ dirs, d ∈ Direction.cardinals :=
  ⟨[.southeast], by decide +kernel, by decide⟩

end PathSeeker

end Infernum
