import Infernum.Lib.ShortestWalk
import Infernum.Path.Search

/-!
# No path is cheaper

A node looks at five places around it only, chosen from the direction of its parent. What
it leaves out can be reached from the parent at a lower cost, so the search settles the nodes
like one that leaves nothing out.
-/

namespace Infernum

open PathFinding Lib

namespace PathSeeker

variable {T : Type} [DecidableEq T] {s : PathSeeker T} {condition : PathCondition}
  {fpp : FindPathParams} {st st' : AStarNodes} {settled : Finset Nat} {v v' : Search} {n : Nat}

variable (s condition fpp) in
/-- A walk of the creature from its place. -/
abbrev WalkTo (pos : Position) (c : Nat) : Prop := Walk (s.StepTo condition fpp) s.position pos c

/-- A path that may be walked is a walk at its cost. -/
theorem Walkable.walkTo {pos : Position} {path : List PathFinding.Direction} {c : Nat}
    (h : s.Walkable condition fpp pos path) (hwalk : s.WalkTo condition fpp pos c) :
    s.WalkTo condition fpp (follow pos path) (c + s.pathCost pos path) := by
  induction path generalizing pos c with
  | nil => exact hwalk
  | cons d path ih =>
      obtain ⟨harea, ⟨tile, hallowed⟩, hrest⟩ := h
      have hstep : s.StepTo condition fpp pos (getNextPosition d pos)
          (d.walkCost + s.getTileWalkCost tile) := ⟨d, tile, rfl, harea, hallowed, rfl⟩
      have hnext := ih hrest (.step hwalk hstep)
      show s.WalkTo condition fpp _ (c + (d.walkCost +
        ((s.getTile (getNextPosition d pos)).map s.getTileWalkCost).getD 0 + _))
      rw [hallowed.1, Option.map_some, Option.getD_some, ← Nat.add_assoc]
      exact hnext

/-- The cost of a node is that of a walk to its place. -/
theorem NodesOk.walkTo (hok : s.NodesOk condition fpp st settled) {i : Nat}
    (hi : i < st.curNode) :
    s.WalkTo condition fpp (s.nodePlace (st.nodes i)) (st.nodes i).f := by
  induction hcost : (st.nodes i).f using Nat.strongRecOn generalizing i with
  | ind c ih =>
      rcases hok.parent_cases hi with ⟨rfl, -⟩ | ⟨p, hp, w, -, hstep, hf, hlt⟩
      · rw [hok.root] at hcost
        rw [← hcost, hok.place_root]
        exact .start
      · rw [← hcost, hf]
        exact .step (ih _ (hcost ▸ hlt) hp rfl) hstep

/-! ## The nodes as a search -/

/-- The cost of the node of a place. -/
def label (s : PathSeeker T) (st : AStarNodes) (pos : Position) : Option Nat :=
  if pos.z = s.position.z then
    (st.getNodeByPosition pos.x pos.y).map fun i => (st.nodes i).f
  else none

def SettledPlace (s : PathSeeker T) (st : AStarNodes) (settled : Finset Nat)
    (pos : Position) : Prop :=
  ∃ i ∈ settled, s.nodePlace (st.nodes i) = pos

theorem NodesOk.label_iff (hok : s.NodesOk condition fpp st settled) {pos : Position} {c : Nat} :
    s.label st pos = some c ↔
      ∃ i < st.curNode, s.nodePlace (st.nodes i) = pos ∧ (st.nodes i).f = c := by
  rw [label]
  constructor
  · intro h
    split at h
    · rename_i hz
      obtain ⟨i, hi, hc⟩ := Option.map_eq_some_iff.mp h
      obtain ⟨hlt, hkey⟩ := (hok.table _ i).mp hi
      obtain ⟨hx, hy⟩ := AStarNodes.key_injective hkey
      refine ⟨i, hlt, ?_, hc⟩
      rw [nodePlace, hx, hy, ← hz]
    · cases h
  · rintro ⟨i, hi, rfl, rfl⟩
    refine (if_pos rfl).trans ?_
    show (st.getNodeByPosition (st.nodes i).x (st.nodes i).y).map _ = _
    rw [hok.getNode hi]
    rfl

variable (s condition fpp) in
/-- What is settled has the cost of a cheapest walk, and the steps from it are no cheaper than
the nodes that they lead to, or than a walk. -/
structure Cheapest (st : AStarNodes) (settled : Finset Nat) : Prop where
  relaxed : ∀ u ∈ settled, ∀ pos w, s.StepTo condition fpp (s.nodePlace (st.nodes u)) pos w →
    s.Labelled st pos ((st.nodes u).f + w) ∨
      ∃ c, s.WalkTo condition fpp pos c ∧ c < (st.nodes u).f + w
  least : ∀ u ∈ settled, ∀ c, s.WalkTo condition fpp (s.nodePlace (st.nodes u)) c →
    (st.nodes u).f ≤ c

theorem Cheapest.settling (hc : s.Cheapest condition fpp st settled)
    (hok : s.NodesOk condition fpp st settled) :
    Settling (s.StepTo condition fpp) s.position (s.label st) (s.SettledPlace st settled) where
  start := hok.label_iff.mpr ⟨0, hok.pos, hok.place_root, by rw [hok.root]⟩
  relaxed := by
    rintro u pos c w ⟨i, hi, hplace⟩ hlabel hstep
    obtain ⟨j, hj, hplace', rfl⟩ := hok.label_iff.mp hlabel
    obtain rfl := hok.place_injective (hok.settled_lt i hi) hj (hplace.trans hplace'.symm)
    rcases hc.relaxed i hi pos w (hplace ▸ hstep) with ⟨k, hk, hkplace, hle⟩ | hcheaper
    · exact .inl ⟨_, hok.label_iff.mpr ⟨k, hk, hkplace, rfl⟩, hle⟩
    · exact .inr hcheaper

/-- The best node has the cost of a cheapest walk. -/
theorem Cheapest.best (hc : s.Cheapest condition fpp v.nodes settled)
    (hok : s.SearchOk condition fpp v settled) (hbest : v.nodes.getBestNode = some n) {c : Nat}
    (hwalk : s.WalkTo condition fpp (s.nodePlace (v.nodes.nodes n)) c) :
    (v.nodes.nodes n).f ≤ c := by
  obtain ⟨hlt, -, hmin⟩ := v.nodes.getBestNode_spec hbest
  have hnot := (hok.best hbest).2.1
  refine (hc.settling hok.nodes).le_of_walk (fun _ _ _ hstep => hstep.pos) ?_ ?_ hwalk
  · rintro ⟨i, hi, hplace⟩
    obtain rfl := hok.nodes.place_injective (hok.nodes.settled_lt i hi) hlt hplace
    exact hnot hi
  · intro pos d hpos hlabel
    obtain ⟨i, hi, hplace, rfl⟩ := hok.nodes.label_iff.mp hlabel
    exact hmin i hi (hok.nodes.opened i hi fun hmem => hpos ⟨i, hmem, hplace⟩)

/-! ## What is left out -/

/-- With diagonals all five places are looked at. -/
theorem neighbors_of_parent (nodes : Nat → AStarNode) {i p : Nat}
    (hparent : (nodes i).parent = some p) : neighbors true nodes i =
      dirNeighbors (parentDirection true ((nodes p).x.toNat - (nodes i).x.toNat)
        ((nodes p).y.toNat - (nodes i).y.toNat)) := by
  rw [neighbors, hparent]
  have hlength : ∀ d, (dirNeighbors d).length = 5 := by
    intro d
    cases d <;> rfl
  exact List.take_of_length_le (le_of_eq (hlength _))

/-- A step that is left out leads back to the parent, or there is a cheaper way around. -/
theorem NodesOk.left_out (hok : s.NodesOk condition fpp st settled) (hworld : s.InWorld) {i : Nat}
    (hi : i < st.curNode) {d : PathFinding.Direction} {w : Nat}
    (hnot : d.offset ∉ neighbors true st.nodes i)
    (hstep : s.StepTo condition fpp (s.nodePlace (st.nodes i))
      (getNextPosition d (s.nodePlace (st.nodes i))) w) :
    (∃ p < st.curNode, s.nodePlace (st.nodes p) = getNextPosition d (s.nodePlace (st.nodes i)) ∧
        (st.nodes p).f ≤ (st.nodes i).f + w) ∨
      ∃ c, s.WalkTo condition fpp (getNextPosition d (s.nodePlace (st.nodes i))) c ∧
        c < (st.nodes i).f + w := by
  rcases hok.parent_cases hi with ⟨rfl, hnone⟩ | ⟨p, hp, w', hparent, hstep', hf, hlt⟩
  · -- the first node leaves nothing out
    refine absurd (mem_allNeighbors d) ?_
    rw [neighbors, hnone] at hnot
    exact hnot
  · obtain ⟨e, tile', hnext, -, hallowed', hw'⟩ := hstep'
    have hinside := hworld.inside _ _ hallowed'.1
    rw [hnext] at hinside
    have hx := getX_next hinside
    have hy := getY_next hinside
    rw [← hnext] at hx hy
    have hdx : ((st.nodes p).x.toNat : Int) - (st.nodes i).x.toNat = -e.offset.1 := by
      have hx : ((st.nodes i).x.toNat : Int) = (st.nodes p).x.toNat + e.offset.1 := hx
      omega
    have hdy : ((st.nodes p).y.toNat : Int) - (st.nodes i).y.toNat = -e.offset.2 := by
      have hy : ((st.nodes i).y.toNat : Int) = (st.nodes p).y.toNat + e.offset.2 := hy
      omega
    rw [neighbors_of_parent _ hparent, hdx, hdy] at hnot
    rcases around_of_not_mem e d hnot with ⟨hx0, hy0⟩ | ⟨a, ha, hcost⟩
    · refine .inl ⟨p, hp, ?_, by omega⟩
      rw [hnext, getNextPosition_back hx0 hy0]
    · obtain ⟨harea, tile, hallowed, rfl⟩ := hstep.next
      have hround := getNextPosition_add ha (s.nodePlace (st.nodes p))
      rw [← hnext] at hround
      have hdirect : s.StepTo condition fpp (s.nodePlace (st.nodes p))
          (getNextPosition d (s.nodePlace (st.nodes i)))
          (a.walkCost + s.getTileWalkCost tile) := ⟨a, tile, hround, harea, hallowed, rfl⟩
      exact .inr ⟨_, .step (hok.walkTo hp) hdirect, by omega⟩

/-! ## All steps -/

/-- A step that looks at all its places keeps the costs cheapest. -/
theorem Cheapest.step (hc : s.Cheapest condition fpp v.nodes settled)
    (hok : s.SearchOk condition fpp v settled) (hworld : s.InWorld)
    (hdiagonal : fpp.allowDiagonal = true) (hbest : v.nodes.getBestNode = some n)
    (hall : (s.expanded condition fpp v n).2 = true)
    (hnodes : v'.nodes = (s.expanded condition fpp v n).1.closeNode n) :
    s.Cheapest condition fpp v'.nodes (insert n settled) := by
  obtain ⟨hexpanded, himproves, hlabelled⟩ := hok.expanded hworld hbest
  obtain ⟨hlt, -, -, -⟩ := hok.best hbest
  have hlabelled := hlabelled hall
  rw [hdiagonal] at hlabelled
  have hkept : ∀ i ∈ insert n settled, v'.nodes.nodes i = v.nodes.nodes i := fun i hi => by
    rw [hnodes]
    exact himproves.kept i hi
  -- closing a node changes no label
  have hclose : ∀ pos c, s.Labelled (s.expanded condition fpp v n).1 pos c →
      s.Labelled v'.nodes pos c := fun pos c h => by
    rw [hnodes]
    exact h
  constructor
  · intro u hu pos w hstep
    rw [hkept u hu] at hstep ⊢
    rcases Finset.mem_insert.mp hu with rfl | hu
    · obtain ⟨d, tile, rfl, harea, hallowed, rfl⟩ := hstep
      have hstep : s.StepTo condition fpp (s.nodePlace (v.nodes.nodes u))
          (getNextPosition d (s.nodePlace (v.nodes.nodes u)))
          (d.walkCost + s.getTileWalkCost tile) := ⟨d, tile, rfl, harea, hallowed, rfl⟩
      by_cases hmem : d.offset ∈ neighbors true v.nodes.nodes u
      · exact .inl (hclose _ _ (hlabelled d hmem _ hstep))
      · rcases hok.nodes.left_out hworld hlt hmem hstep with ⟨p, hp, hplace, hle⟩ | hcheaper
        · have hold : s.Labelled v.nodes _ _ := ⟨p, hp, hplace, hle⟩
          exact .inl (hclose _ _ (hold.improves himproves))
        · exact .inr hcheaper
    · rcases hc.relaxed u hu pos w hstep with hold | hcheaper
      · exact .inl (hclose _ _ (hold.improves himproves))
      · exact .inr hcheaper
  · intro u hu c hwalk
    rw [hkept u hu] at hwalk ⊢
    rcases Finset.mem_insert.mp hu with rfl | hu
    · exact hc.best hok hbest hwalk
    · exact hc.least u hu c hwalk

end PathSeeker

end Infernum
