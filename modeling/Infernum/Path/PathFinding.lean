import Infernum.Combat.Combat
import Infernum.Walk.WalkCache

/-!
# The search for a path

`Map::getPathMatching` and its table of nodes. The nodes are known by their indices in
the table. What matches is left to a condition; `FrozenPathingConditionCall` is the one
that creatures use.
-/

namespace Infernum

open Combat (CombatType)

namespace PathFinding

/-! ## Directions -/

/-- `Direction`, with the diagonals. -/
inductive Direction
  | north | east | south | west | southwest | southeast | northwest | northeast
  deriving DecidableEq, Repr

def getNextPosition (direction : Direction) (pos : Position) : Position :=
  match direction with
  | .north => { pos with y := pos.y - 1 }
  | .south => { pos with y := pos.y + 1 }
  | .west => { pos with x := pos.x - 1 }
  | .east => { pos with x := pos.x + 1 }
  | .southwest => { pos with x := pos.x - 1, y := pos.y + 1 }
  | .northwest => { pos with x := pos.x - 1, y := pos.y - 1 }
  | .northeast => { pos with x := pos.x + 1, y := pos.y - 1 }
  | .southeast => { pos with x := pos.x + 1, y := pos.y + 1 }

def getOffsetX (p1 p2 : Position) : Int := p1.getX - p2.getX
def getOffsetY (p1 p2 : Position) : Int := p1.getY - p2.getY

def getDistanceX (p1 p2 : Position) : Int := (getOffsetX p1 p2).natAbs
def getDistanceY (p1 p2 : Position) : Int := (getOffsetY p1 p2).natAbs

/-! ## Conditions -/

structure FindPathParams where
  fullPathSearch : Bool := true
  clearSight : Bool := true
  allowDiagonal : Bool := true
  keepDistance : Bool := false
  maxSearchDist : Int := 0
  minTargetDist : Int := -1
  maxTargetDist : Int := -1
  deriving DecidableEq, Repr

/-- What a search asks of its condition, for a start and a place. -/
structure PathCondition where
  isInRange : Position → Position → FindPathParams → Bool
  /-- whether the place matches, and what `bestMatchDist` is then -/
  call : Position → Position → FindPathParams → Int → Bool × Int

namespace FrozenPathingConditionCall

def isInRange (targetPos startPos testPos : Position) (fpp : FindPathParams) : Bool :=
  if fpp.fullPathSearch then
    if testPos.getX > targetPos.getX + fpp.maxTargetDist then false
    else if testPos.getX < targetPos.getX - fpp.maxTargetDist then false
    else if testPos.getY > targetPos.getY + fpp.maxTargetDist then false
    else if testPos.getY < targetPos.getY - fpp.maxTargetDist then false
    else true
  else
    let dx := getOffsetX startPos targetPos
    let dy := getOffsetY startPos targetPos
    if testPos.getX > targetPos.getX + (if dx ≥ 0 then fpp.maxTargetDist else 0) then false
    else if testPos.getX < targetPos.getX - (if dx ≤ 0 then fpp.maxTargetDist else 0) then false
    else if testPos.getY > targetPos.getY + (if dy ≥ 0 then fpp.maxTargetDist else 0) then false
    else if testPos.getY < targetPos.getY - (if dy ≤ 0 then fpp.maxTargetDist else 0) then false
    else true

/-- `operator()`; the map says whether the sight is clear. -/
def call (isSightClear : Position → Position → Bool) (targetPos startPos testPos : Position)
    (fpp : FindPathParams) (bestMatchDist : Int) : Bool × Int :=
  if !isInRange targetPos startPos testPos fpp then (false, bestMatchDist)
  else if fpp.clearSight && !isSightClear testPos targetPos then (false, bestMatchDist)
  else
    let testDist := max (getDistanceX targetPos testPos) (getDistanceY targetPos testPos)
    if fpp.maxTargetDist = 1 then
      (!(testDist < fpp.minTargetDist || testDist > fpp.maxTargetDist), bestMatchDist)
    else if testDist ≤ fpp.maxTargetDist then
      if testDist < fpp.minTargetDist then (false, bestMatchDist)
      else if testDist = fpp.maxTargetDist then (true, 0)
      else if testDist > bestMatchDist then (true, testDist)
      else (false, bestMatchDist)
    else (false, bestMatchDist)

end FrozenPathingConditionCall

/-- The condition that `Creature::getPathTo` searches with. -/
def frozenPathingCondition (isSightClear : Position → Position → Bool) (targetPos : Position) :
    PathCondition where
  isInRange := FrozenPathingConditionCall.isInRange targetPos
  call := FrozenPathingConditionCall.call isSightClear targetPos

/-! ## Tiles -/

def MAP_NORMALWALKCOST : Nat := 10
def MAP_DIAGONALWALKCOST : Nat := 25

end PathFinding

/-- A creature that looks for a path, with the tiles of the map and what the search asks
of them. -/
structure PathSeeker (T : Type) extends Walker T where
  /-- `Creature::getTile` -/
  tile : Option T
  /-- `Tile::queryAdd` of the creature, which looks for a path and ignores field damage -/
  queryAdd : T → Bool
  /-- there is a creature on the tile that this one sees -/
  getTopVisibleCreature : T → Bool
  isPad : T → Bool
  /-- the damage of the magic field on the tile -/
  getFieldItem : T → Option CombatType
  isImmune : CombatType → Bool
  /-- the creature has the condition that the damage causes -/
  hasCondition : CombatType → Bool

namespace PathSeeker

open PathFinding

variable {T : Type} [DecidableEq T] (s : PathSeeker T)

/-- `Map::canWalkTo`. -/
def canWalkTo (pos : Position) : Option T :=
  let walkCache := s.getWalkCache pos
  if walkCache = 0 then none
  else if walkCache = 1 then s.getTile pos
  else
    let tile := s.getTile pos
    if s.tile ≠ tile then tile.filter s.queryAdd else tile

omit [DecidableEq T] in
/-- `AStarNodes::getTileWalkCost`. -/
def getTileWalkCost (tile : T) : Nat :=
  let cost := if s.getTopVisibleCreature tile then MAP_NORMALWALKCOST * 3 else 0
  let cost := if s.isPad tile then cost + MAP_NORMALWALKCOST * 18 else cost
  match s.getFieldItem tile with
  | some combatType =>
      if !s.isImmune combatType && !s.hasCondition combatType then
        cost + MAP_NORMALWALKCOST * 18
      else cost
  | none => cost

end PathSeeker

/-! ## The nodes -/

structure AStarNode where
  parent : Option Nat := none
  f : Nat := 0
  x : BitVec 16 := 0
  y : BitVec 16 := 0
  deriving DecidableEq, Repr

structure AStarNodes where
  nodes : Nat → AStarNode
  openNodes : Nat → Bool
  nodeTable : BitVec 32 → Option Nat
  curNode : Nat
  closedNodes : Int

namespace AStarNodes

open PathFinding

def MAX_NODES : Nat := 512

/-- The key of a place in `nodeTable`. -/
def key (x y : BitVec 16) : BitVec 32 := (x.setWidth 32 <<< 16) ||| y.setWidth 32

/-- The constructor. -/
def new (x y : BitVec 16) : AStarNodes where
  nodes := Function.update (fun _ => {}) 0 { x := x, y := y }
  openNodes := Function.update (fun _ => false) 0 true
  nodeTable := Function.update (fun _ => none) (key x y) (some 0)
  curNode := 1
  closedNodes := 0

variable (s : AStarNodes)

def createOpenNode (parent : Nat) (x y : BitVec 16) (f : Nat) : Option AStarNodes :=
  if MAX_NODES ≤ s.curNode then none
  else
    some
      { s with
        nodes := Function.update s.nodes s.curNode { parent := some parent, f := f, x := x, y := y }
        openNodes := Function.update s.openNodes s.curNode true
        nodeTable := Function.update s.nodeTable (key x y) (some s.curNode)
        curNode := s.curNode + 1 }

/-- The first of the open nodes with the least `f`, which is compared in 32 bits. -/
def getBestNode : Option Nat :=
  ((List.range s.curNode).foldl (fun best i =>
    if s.openNodes i && (s.nodes i).f < best.1 then ((s.nodes i).f, some i) else best)
    (2 ^ 31 - 1, none)).2

def closeNode (index : Nat) : AStarNodes :=
  { s with
    openNodes := Function.update s.openNodes index false
    closedNodes := s.closedNodes + 1 }

def openNode (index : Nat) : AStarNodes :=
  if !s.openNodes index then
    { s with
      openNodes := Function.update s.openNodes index true
      closedNodes := s.closedNodes - 1 }
  else s

def getNodeByPosition (x y : BitVec 16) : Option Nat := s.nodeTable (key x y)

/-- A node comes to another parent. -/
def setParent (index parent f : Nat) : AStarNodes :=
  { s with
    nodes := Function.update s.nodes index { s.nodes index with f := f, parent := some parent } }

end AStarNodes

/-- `AStarNodes::getMapWalkCost`. -/
def AStarNode.getMapWalkCost (node : AStarNode) (neighborPos : Position) : Nat :=
  if ((node.x.toNat : Int) - neighborPos.getX).natAbs =
      ((node.y.toNat : Int) - neighborPos.getY).natAbs then
    PathFinding.MAP_DIAGONALWALKCOST
  else PathFinding.MAP_NORMALWALKCOST

/-! ## The search -/

namespace PathFinding

/-- The neighbors of a node whose parent is in a direction, the straight ones first. -/
def dirNeighbors : Direction → List (Int × Int)
  | .north => [(-1, 0), (0, 1), (1, 0), (1, 1), (-1, 1)]
  | .east => [(-1, 0), (0, 1), (0, -1), (-1, -1), (-1, 1)]
  | .south => [(-1, 0), (1, 0), (0, -1), (-1, -1), (1, -1)]
  | .west => [(0, 1), (1, 0), (0, -1), (1, -1), (1, 1)]
  | .southwest => [(1, 0), (0, -1), (-1, -1), (1, -1), (1, 1)]
  | .southeast => [(-1, 0), (0, -1), (-1, -1), (1, -1), (-1, 1)]
  | .northwest => [(0, 1), (1, 0), (1, -1), (1, 1), (-1, 1)]
  | .northeast => [(-1, 0), (0, 1), (-1, -1), (1, 1), (-1, 1)]

def allNeighbors : List (Int × Int) :=
  [(-1, 0), (0, 1), (1, 0), (0, -1), (-1, -1), (1, -1), (1, 1), (-1, 1)]

/-- The direction of the parent, from its offset. -/
def parentDirection (allowDiagonal : Bool) (offset_x offset_y : Int) : Direction :=
  if offset_y = 0 then
    if offset_x = -1 then .west else .east
  else if !allowDiagonal || offset_x = 0 then
    if offset_y = -1 then .north else .south
  else if offset_y = -1 then
    if offset_x = -1 then .northwest else .northeast
  else if offset_x = -1 then .southwest else .southeast

/-- The places around a node that are looked at. -/
def neighbors (allowDiagonal : Bool) (nodes : Nat → AStarNode) (n : Nat) : List (Int × Int) :=
  match (nodes n).parent with
  | some parent =>
      let offset_x : Int := (nodes parent).x.toNat - (nodes n).x.toNat
      let offset_y : Int := (nodes parent).y.toNat - (nodes n).y.toNat
      (dirNeighbors (parentDirection allowDiagonal offset_x offset_y)).take
        (if allowDiagonal then 5 else 3)
  | none => allNeighbors

/-- The direction of a step back to the parent, turned round. -/
def stepDirection (dx dy : Int) : Option Direction :=
  if dx = 1 ∧ dy = 1 then some .northwest
  else if dx = -1 ∧ dy = 1 then some .northeast
  else if dx = 1 ∧ dy = -1 then some .southwest
  else if dx = -1 ∧ dy = -1 then some .southeast
  else if dx = 1 then some .west
  else if dx = -1 then some .east
  else if dy = 1 then some .north
  else if dy = -1 then some .south
  else none

/-- The loop that follows the parents of `found`. -/
def walkBack (nodes : Nat → AStarNode) :
    Nat → Option Nat → Int → Int → List Direction → Option (List Direction)
  | _, none, _, _, dirList => some dirList
  | 0, some _, _, _, _ => none
  | fuel + 1, some found, prevx, prevy, dirList =>
      let x : Int := (nodes found).x.toNat
      let y : Int := (nodes found).y.toNat
      walkBack nodes fuel (nodes found).parent x y
        ((stepDirection (x - prevx) (y - prevy)).toList ++ dirList)

/-- The variables of `getPathMatching`. -/
structure Search where
  nodes : AStarNodes
  bestMatch : Int := 0
  found : Option Nat := none
  endPos : Position

/-- How the body of the loop ends. -/
inductive Flow
  | returnFalse
  | leave (v : Search)
  | again (v : Search)

end PathFinding

namespace PathSeeker

open PathFinding

variable {T : Type} [DecidableEq T] (s : PathSeeker T) (condition : PathCondition)
  (fpp : FindPathParams)

/-- The place is in the part of the map that is searched. -/
def inSearchArea (pos : Position) : Bool :=
  !(fpp.maxSearchDist ≠ 0 && (getDistanceX s.position pos > fpp.maxSearchDist ||
    getDistanceY s.position pos > fpp.maxSearchDist)) &&
  !(fpp.keepDistance && !condition.isInRange s.position pos fpp)

/-- The place beside a node. -/
def placeBeside (node : AStarNode) (offset : Int × Int) : Position where
  x := Walker.coordinate (node.x.toNat + offset.1)
  y := Walker.coordinate (node.y.toNat + offset.2)
  z := s.position.z

/-- One place around the node `n`; `none` where the nodes are used up. -/
def visitNeighbor (n : Nat) (node : AStarNode) (nodes : AStarNodes) (offset : Int × Int) :
    Option AStarNodes :=
  let pos := s.placeBeside node offset
  if !s.inSearchArea condition fpp pos then some nodes
  else
    match nodes.getNodeByPosition pos.x pos.y with
    | some neighborNode =>
        -- a node has a tile
        let newf := node.f + node.getMapWalkCost pos +
          ((s.getTile pos).map s.getTileWalkCost).getD 0
        if (nodes.nodes neighborNode).f ≤ newf then some nodes
        else some ((nodes.setParent neighborNode n newf).openNode neighborNode)
    | none =>
        match s.canWalkTo pos with
        | none => some nodes
        | some tile =>
            nodes.createOpenNode n pos.x pos.y
              (node.f + node.getMapWalkCost pos + s.getTileWalkCost tile)

/-- The loop over the places around `n`, with whether it came to its end. -/
def visitNeighbors (n : Nat) (node : AStarNode) :
    List (Int × Int) → AStarNodes → AStarNodes × Bool
  | [], nodes => (nodes, true)
  | offset :: offsets, nodes =>
      match s.visitNeighbor condition fpp n node nodes offset with
      | some nodes => visitNeighbors n node offsets nodes
      | none => (nodes, false)

/-- The body of the loop. -/
def searchStep (v : Search) : Flow :=
  match v.nodes.getBestNode with
  | none => if v.found.isSome then .leave v else .returnFalse
  | some n =>
      let node := v.nodes.nodes n
      let pos : Position := { x := node.x, y := node.y, z := s.position.z }
      let r := condition.call s.position pos fpp v.bestMatch
      let v : Search := { v with bestMatch := r.2 }
      let v : Search := if r.1 then { v with found := some n, endPos := pos } else v
      if r.1 && v.bestMatch = 0 then .leave v
      else
        let u := s.visitNeighbors condition fpp n node
          (neighbors fpp.allowDiagonal v.nodes.nodes n) v.nodes
        if !u.2 && v.found.isNone then .returnFalse
        else .again { v with nodes := u.1.closeNode n }

/-- The loop; `none` where the fuel is used up, and `some none` where it returns. -/
def searchLoop : Nat → Search → Option (Option Search)
  | 0, _ => none
  | fuel + 1, v =>
      if fpp.maxSearchDist ≠ 0 ∨ v.nodes.closedNodes < 100 then
        match s.searchStep condition fpp v with
        | .returnFalse => some none
        | .leave v => some (some v)
        | .again v => searchLoop fuel v
      else some (some v)

def startSearch : Search where
  nodes := .new s.position.x s.position.y
  endPos := { x := 0, y := 0, z := 0 }

/-- `Map::getPathMatching`; `none` where one of its loops has used up the fuel, and
`some none` where it returns false. -/
def getPathMatching (fuel : Nat) (dirList : List PathFinding.Direction) :
    Option (Option (List PathFinding.Direction)) :=
  match s.searchLoop condition fpp fuel s.startSearch with
  | none => none
  | some none => some none
  | some (some v) =>
      match v.found with
      | none => some none
      | some found =>
          (walkBack v.nodes.nodes fuel (v.nodes.nodes found).parent v.endPos.getX v.endPos.getY
            dirList).map some

end PathSeeker

end Infernum

/-!
## Steps

A step to a place that is not at the edge of the map leads one coordinate further, so that
the search, which calculates with offsets, and `getNextPosition` mean the same.
-/

namespace Infernum

namespace PathFinding

/-! ## Offsets -/

namespace Direction

def offset : Direction → Int × Int
  | .north => (0, -1)
  | .east => (1, 0)
  | .south => (0, 1)
  | .west => (-1, 0)
  | .southwest => (-1, 1)
  | .southeast => (1, 1)
  | .northwest => (-1, -1)
  | .northeast => (1, -1)

def all : List Direction :=
  [.north, .east, .south, .west, .southwest, .southeast, .northwest, .northeast]

theorem mem_all (d : Direction) : d ∈ all := by
  cases d <;> decide

/-- What a step costs without the tile. -/
def walkCost (d : Direction) : Nat :=
  if d.offset.1 ≠ 0 ∧ d.offset.2 ≠ 0 then MAP_DIAGONALWALKCOST else MAP_NORMALWALKCOST

theorem walkCost_pos (d : Direction) : 0 < d.walkCost := by
  cases d <;> decide

theorem offset_bounds (d : Direction) : -1 ≤ d.offset.1 ∧ d.offset.1 ≤ 1 ∧
    -1 ≤ d.offset.2 ∧ d.offset.2 ≤ 1 := by
  cases d <;> decide

theorem offset_injective {d e : Direction} (h : d.offset = e.offset) : d = e := by
  cases d <;> cases e <;> first | rfl | cases h

/-- The way back. -/
theorem stepDirection_neg (d : Direction) :
    stepDirection (-d.offset.1) (-d.offset.2) = some d := by
  cases d <;> decide

end Direction

open PathFinding.Direction

theorem exists_direction_of_mem_all {offset : Int × Int} (h : offset ∈ allNeighbors) :
    ∃ d : Direction, d.offset = offset := by
  have hall : ∀ o ∈ allNeighbors, ∃ d ∈ all, Direction.offset d = o := by decide
  obtain ⟨d, -, hd⟩ := hall offset h
  exact ⟨d, hd⟩

theorem mem_allNeighbors (d : Direction) : d.offset ∈ allNeighbors := by
  cases d <;> decide

/-- Only places around a node are looked at. -/
theorem exists_direction {allowDiagonal : Bool} {nodes : Nat → AStarNode} {n : Nat}
    {offset : Int × Int} (h : offset ∈ neighbors allowDiagonal nodes n) :
    ∃ d : Direction, d.offset = offset := by
  unfold neighbors at h
  cases hparent : (nodes n).parent with
  | none =>
      rw [hparent] at h
      exact exists_direction_of_mem_all h
  | some p =>
      rw [hparent] at h
      have hall : ∀ e ∈ all, ∀ o ∈ dirNeighbors e, o ∈ allNeighbors := by decide
      exact exists_direction_of_mem_all
        (hall _ (mem_all _) offset (List.mem_of_mem_take h))

/-- What is not looked at beside a node that was reached by a step `e`: the place before
the step, and places that are reached from there at a lower cost. -/
theorem around_of_not_mem (e d : Direction)
    (h : d.offset ∉ dirNeighbors (parentDirection true (-e.offset.1) (-e.offset.2))) :
    (e.offset.1 + d.offset.1 = 0 ∧ e.offset.2 + d.offset.2 = 0) ∨
      ∃ c : Direction, c.offset = (e.offset.1 + d.offset.1, e.offset.2 + d.offset.2) ∧
        c.walkCost < e.walkCost + d.walkCost := by
  have hall : ∀ e ∈ all, ∀ d ∈ all,
      Direction.offset d ∉ dirNeighbors (parentDirection true (-e.offset.1) (-e.offset.2)) →
      (e.offset.1 + d.offset.1 = 0 ∧ e.offset.2 + d.offset.2 = 0) ∨
        ∃ c ∈ all, c.offset = (e.offset.1 + d.offset.1, e.offset.2 + d.offset.2) ∧
          walkCost c < walkCost e + walkCost d := by decide
  rcases hall e (mem_all e) d (mem_all d) h with hback | ⟨c, -, hc⟩
  · exact .inl hback
  · exact .inr ⟨c, hc⟩

/-! ## Places -/

theorem sub_one_eq (v : BitVec 16) : v - 1 = v + BitVec.ofInt 16 (-1) := by
  rw [show BitVec.ofInt 16 (-1) = -1 from rfl]
  exact BitVec.sub_eq_add_neg v 1

theorem getNextPosition_eq (d : Direction) (pos : Position) :
    getNextPosition d pos = { pos with
      x := pos.x + BitVec.ofInt 16 d.offset.1
      y := pos.y + BitVec.ofInt 16 d.offset.2 } := by
  have hzero : ∀ v : BitVec 16, v + BitVec.ofInt 16 0 = v := fun v => BitVec.add_zero v
  have hone : ∀ v : BitVec 16, v + BitVec.ofInt 16 1 = v + 1 := fun _ => rfl
  cases d <;> simp only [getNextPosition, Direction.offset, sub_one_eq, hzero, hone]

@[simp] theorem getNextPosition_z (d : Direction) (pos : Position) :
    (getNextPosition d pos).z = pos.z := by
  rw [getNextPosition_eq]

theorem coordinate_add (x : BitVec 16) (dx : Int) :
    Walker.coordinate (x.toNat + dx) = x + BitVec.ofInt 16 dx := by
  rw [Walker.coordinate, BitVec.ofInt_add]
  congr 1
  rw [BitVec.ofInt_natCast, BitVec.ofNat_toNat, BitVec.setWidth_eq]

/-- Two steps whose offsets add up to those of one. -/
theorem getNextPosition_add {c d e : Direction}
    (h : c.offset = (e.offset.1 + d.offset.1, e.offset.2 + d.offset.2)) (pos : Position) :
    getNextPosition d (getNextPosition e pos) = getNextPosition c pos := by
  rw [getNextPosition_eq d, getNextPosition_eq e, getNextPosition_eq c, h]
  simp only [BitVec.ofInt_add, BitVec.add_assoc]

theorem getNextPosition_back {d e : Direction} (hx : e.offset.1 + d.offset.1 = 0)
    (hy : e.offset.2 + d.offset.2 = 0) (pos : Position) :
    getNextPosition d (getNextPosition e pos) = pos := by
  rw [getNextPosition_eq d, getNextPosition_eq e]
  simp only [BitVec.add_assoc, ← BitVec.ofInt_add, hx, hy]
  have hzero : ∀ v : BitVec 16, v + BitVec.ofInt 16 0 = v := fun v => BitVec.add_zero v
  rw [hzero, hzero]

/-- Steps in different directions lead to different places. -/
theorem getNextPosition_injective {d e : Direction} {pos : Position}
    (h : getNextPosition d pos = getNextPosition e pos) : d = e := by
  rw [getNextPosition_eq, getNextPosition_eq e, Position.mk.injEq] at h
  have hx : BitVec.ofInt 16 d.offset.1 = BitVec.ofInt 16 e.offset.1 :=
    (BitVec.add_right_inj pos.x).mp h.1
  have hy : BitVec.ofInt 16 d.offset.2 = BitVec.ofInt 16 e.offset.2 :=
    (BitVec.add_right_inj pos.y).mp h.2.1
  revert hx hy
  cases d <;> cases e <;> decide

/-- A place that is not at the edge of the map. -/
def Inside (pos : Position) : Prop :=
  0 < pos.x.toNat ∧ pos.x.toNat < 65535 ∧ 0 < pos.y.toNat ∧ pos.y.toNat < 65535

theorem toNat_add_ofInt {x : BitVec 16} {dx : Int} (h : -1 ≤ dx) (h' : dx ≤ 1)
    (hpos : 0 < (x + BitVec.ofInt 16 dx).toNat) (hlt : (x + BitVec.ofInt 16 dx).toNat < 65535) :
    ((x + BitVec.ofInt 16 dx).toNat : Int) = x.toNat + dx := by
  have hx := x.isLt
  obtain rfl | rfl | rfl : dx = -1 ∨ dx = 0 ∨ dx = 1 := by omega
  · rw [show BitVec.ofInt 16 (-1) = 65535#16 from rfl, BitVec.toNat_add] at *
    simp only [BitVec.toNat_ofNat] at *
    omega
  · rw [show BitVec.ofInt 16 0 = 0#16 from rfl, BitVec.add_zero, Int.add_zero]
  · rw [show BitVec.ofInt 16 1 = 1#16 from rfl, BitVec.toNat_add] at *
    simp only [BitVec.toNat_ofNat] at *
    omega

/-- A step that ends inside does not lead over the edge. -/
theorem getX_next {d : Direction} {pos : Position} (h : Inside (getNextPosition d pos)) :
    (getNextPosition d pos).getX = pos.getX + d.offset.1 := by
  obtain ⟨hlow, hhigh, -, -⟩ := h
  obtain ⟨h1, h2, -, -⟩ := d.offset_bounds
  rw [getNextPosition_eq] at *
  exact toNat_add_ofInt h1 h2 hlow hhigh

theorem getY_next {d : Direction} {pos : Position} (h : Inside (getNextPosition d pos)) :
    (getNextPosition d pos).getY = pos.getY + d.offset.2 := by
  obtain ⟨-, -, hlow, hhigh⟩ := h
  obtain ⟨-, -, h1, h2⟩ := d.offset_bounds
  rw [getNextPosition_eq] at *
  exact toNat_add_ofInt h1 h2 hlow hhigh

end PathFinding

end Infernum
