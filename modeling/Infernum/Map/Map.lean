import Infernum.Map.Leaves
import Mathlib.Data.Finset.Basic

/-!
# The map

`Map`: the leaves with the creatures that are registered in them, the places of
the creatures, and the two caches of spectators. What a tile holds besides
creatures plays no part here.
-/

namespace Infernum

open Lib

variable {C : Type} [DecidableEq C] (isPlayer : C → Bool)

/-- `QTreeLeafNode`. -/
structure QTreeLeafNode (C : Type) where
  leafS : Option Nat := none
  leafE : Option Nat := none
  creature_list : List C := []
  player_list : List C := []

namespace QTreeLeafNode

/-- `QTreeLeafNode::addCreature`. -/
def addCreature (c : C) (leaf : QTreeLeafNode C) : QTreeLeafNode C :=
  { leaf with
    creature_list := leaf.creature_list ++ [c]
    player_list := if isPlayer c then leaf.player_list ++ [c] else leaf.player_list }

/-- The last creature takes the place of the one that is removed. -/
def swapRemove (c : C) (list : List C) : List C :=
  match list.getLast? with
  | some back => (list.set (list.idxOf c) back).dropLast
  | none => list

/-- `QTreeLeafNode::removeCreature`. -/
def removeCreature (c : C) (leaf : QTreeLeafNode C) : QTreeLeafNode C :=
  { leaf with
    creature_list := swapRemove c leaf.creature_list
    player_list := if isPlayer c then swapRemove c leaf.player_list else leaf.player_list }

end QTreeLeafNode

/-- `SpectatorCache`. -/
abbrev SpectatorCache (C : Type) := Position → Option (Finset C)

/-- `Map`. -/
structure Map (C : Type) where
  root : QuadTree Nat := .empty
  /-- the leaves by number -/
  leaves : Nat → QTreeLeafNode C := fun _ => {}
  /-- how many leaves there are -/
  size : Nat := 0
  /-- the places that have a tile -/
  hasTile : Position → Bool := fun _ => false
  /-- the tile that a creature is on -/
  parent : C → Option Position := fun _ => none
  spectatorCache : SpectatorCache C := fun _ => none
  playersSpectatorCache : SpectatorCache C := fun _ => none

namespace Map

/-! ## Tiles -/

/-- `getLeaf` for a place. -/
def getQTNode (m : Map C) (pos : Position) : Option Nat :=
  getLeaf m.root (pos.x.setWidth 32) (pos.y.setWidth 32)

/-- Change a leaf, if there is one. -/
def modifyLeaf (n : Option Nat) (f : QTreeLeafNode C → QTreeLeafNode C)
    (leaves : Nat → QTreeLeafNode C) : Nat → QTreeLeafNode C :=
  match n with
  | some n => Function.update leaves n (f (leaves n))
  | none => leaves

/-- The links of a new leaf and of its neighbours. -/
def linkLeaf (root : QuadTree Nat) (leaf : Nat) (x y : BitVec 32)
    (leaves : Nat → QTreeLeafNode C) : Nat → QTreeLeafNode C :=
  let northLeaf := getLeaf root x (y - 8)
  let leaves := modifyLeaf northLeaf (fun l => { l with leafS := some leaf }) leaves
  let westLeaf := getLeaf root (x - 8) y
  let leaves := modifyLeaf westLeaf (fun l => { l with leafE := some leaf }) leaves
  let southLeaf := getLeaf root x (y + 8)
  let leaves := if southLeaf.isSome then
      modifyLeaf (some leaf) (fun l => { l with leafS := southLeaf }) leaves
    else leaves
  let eastLeaf := getLeaf root (x + 8) y
  if eastLeaf.isSome then modifyLeaf (some leaf) (fun l => { l with leafE := eastLeaf }) leaves
  else leaves

/-- `Map::setTile`. -/
def setTile (m : Map C) (pos : Position) : Map C :=
  if MAP_MAX_LAYERS ≤ pos.z.toNat then m
  else
    let x := pos.x.setWidth 32
    let y := pos.y.setWidth 32
    let root := createLeaf m.size 15 m.root x y
    let m :=
      if getLeaf root x y = some m.size then
        { m with
          root := root
          leaves := linkLeaf root m.size x y (Function.update m.leaves m.size {})
          size := m.size + 1 }
      else { m with root := root }
    { m with hasTile := Function.update m.hasTile pos true }

/-! ## Spectators -/

/-- The value of an `int32_t`. -/
def toInt32 (v : Int) : Int := (BitVec.ofInt 32 v).toInt

/-- `std::min<uint32_t>(0xFFFF, std::max<int32_t>(0, v))`. -/
def clampCoord (v : Int) : Nat := min 0xFFFF (max 0 (toInt32 v)).toNat

/-- The ranges of a search around a place. -/
structure Ranges where
  minRangeX : Int
  maxRangeX : Int
  minRangeY : Int
  maxRangeY : Int
  minRangeZ : Int
  maxRangeZ : Int
  deriving DecidableEq, Repr

/-- The place of a creature; a creature without a tile counts as nowhere. -/
def getPosition (m : Map C) (c : C) : Position := (m.parent c).getD ⟨0xFFFF, 0xFFFF, 0xFF⟩

/-- A place lies in the ranges around another one, shifted by the floors between
them. -/
def inRanges (centerPos : Position) (r : Ranges) (cpos : Position) : Bool :=
  if r.minRangeZ > cpos.getZ ∨ r.maxRangeZ < cpos.getZ then false
  else
    let offsetZ := Position.getOffsetZ centerPos cpos
    if centerPos.getY + r.minRangeY + offsetZ > cpos.getY ∨
        centerPos.getY + r.maxRangeY + offsetZ < cpos.getY ∨
        centerPos.getX + r.minRangeX + offsetZ > cpos.getX ∨
        centerPos.getX + r.maxRangeX + offsetZ < cpos.getX then false
    else true

/-- The creatures of a leaf that are in the ranges. -/
def visitLeaf (m : Map C) (centerPos : Position) (r : Ranges) (onlyPlayers : Bool) (leaf : Nat)
    (spectators : Finset C) : Finset C :=
  let node_list :=
    if onlyPlayers then (m.leaves leaf).player_list else (m.leaves leaf).creature_list
  node_list.foldl (fun spectators creature =>
    if inRanges centerPos r (m.getPosition creature) then insert creature spectators
    else spectators) spectators

/-- The inner loop, over a number of leaves from `nx` on. -/
def visitRow (m : Map C) (visit : Nat → Finset C → Finset C) (ny : Nat) :
    Nat → Nat → Option Nat → Finset C → Finset C
  | 0, _, _, spectators => spectators
  | n + 1, nx, leafE, spectators =>
      match leafE with
      | some leaf =>
          visitRow m visit ny n (nx + FLOOR_SIZE) (m.leaves leaf).leafE (visit leaf spectators)
      | none =>
          visitRow m visit ny n (nx + FLOOR_SIZE)
            (getLeaf m.root (.ofNat 32 (nx + FLOOR_SIZE)) (.ofNat 32 ny)) spectators

/-- The outer loop, over a number of rows from `ny` on. -/
def visitRows (m : Map C) (visit : Nat → Finset C → Finset C) (startx1 columns : Nat) :
    Nat → Nat → Option Nat → Finset C → Finset C
  | 0, _, _, spectators => spectators
  | n + 1, ny, leafS, spectators =>
      let spectators := visitRow m visit ny columns startx1 leafS spectators
      let leafS :=
        match leafS with
        | some leaf => (m.leaves leaf).leafS
        | none => getLeaf m.root (.ofNat 32 startx1) (.ofNat 32 (ny + FLOOR_SIZE))
      visitRows m visit startx1 columns n (ny + FLOOR_SIZE) leafS spectators

/-- How often `for (n = start; n <= end; n += FLOOR_SIZE)` runs. -/
def loopCount (start stop : Nat) : Nat :=
  if stop < start then 0 else (stop - start) / FLOOR_SIZE + 1

/-- `Map::getSpectatorsInternal`. -/
def getSpectatorsInternal (m : Map C) (spectators : Finset C) (centerPos : Position) (r : Ranges)
    (onlyPlayers : Bool) : Finset C :=
  let minoffset := centerPos.getZ - r.maxRangeZ
  let x1 := clampCoord (centerPos.getX + r.minRangeX + minoffset)
  let y1 := clampCoord (centerPos.getY + r.minRangeY + minoffset)
  let maxoffset := centerPos.getZ - r.minRangeZ
  let x2 := clampCoord (centerPos.getX + r.maxRangeX + maxoffset)
  let y2 := clampCoord (centerPos.getY + r.maxRangeY + maxoffset)
  let startx1 := x1 - x1 % FLOOR_SIZE
  let starty1 := y1 - y1 % FLOOR_SIZE
  let endx2 := x2 - x2 % FLOOR_SIZE
  let endy2 := y2 - y2 % FLOOR_SIZE
  let startLeaf := getLeaf m.root (.ofNat 32 startx1) (.ofNat 32 starty1)
  visitRows m (m.visitLeaf centerPos r onlyPlayers) startx1 (loopCount startx1 endx2)
    (loopCount starty1 endy2) starty1 startLeaf spectators

def maxViewportX : Int := 11
def maxViewportY : Int := 11

/-- The floors that are searched. -/
def floorRange (centerPos : Position) (multifloor : Bool) : Int × Int :=
  let z := centerPos.getZ
  if multifloor then
    if z > 7 then (max (z - 2) 0, min (z + 2) (MAP_MAX_LAYERS - 1))
    else if z = 6 then (0, 8)
    else if z = 7 then (0, 9)
    else (0, 7)
  else (z, z)

/-- The arguments of `getSpectators` besides the place. -/
structure Query where
  multifloor : Bool := false
  onlyPlayers : Bool := false
  minRangeX : Int := 0
  maxRangeX : Int := 0
  minRangeY : Int := 0
  maxRangeY : Int := 0
  deriving DecidableEq, Repr

/-- The ranges of a query; a zero stands for the viewport. -/
def Query.ranges (q : Query) (centerPos : Position) : Ranges where
  minRangeX := if q.minRangeX = 0 then -maxViewportX else -q.minRangeX
  maxRangeX := if q.maxRangeX = 0 then maxViewportX else q.maxRangeX
  minRangeY := if q.minRangeY = 0 then -maxViewportY else -q.minRangeY
  maxRangeY := if q.maxRangeY = 0 then maxViewportY else q.maxRangeY
  minRangeZ := (floorRange centerPos q.multifloor).1
  maxRangeZ := (floorRange centerPos q.multifloor).2

/-- The queries that the caches serve. -/
def Query.cacheable (q : Query) (centerPos : Position) : Bool :=
  let r := q.ranges centerPos
  r.minRangeX == -maxViewportX && r.maxRangeX == maxViewportX &&
    r.minRangeY == -maxViewportY && r.maxRangeY == maxViewportY && q.multifloor

/-- What a cache has for a query. -/
def cached (m : Map C) (centerPos : Position) (onlyPlayers : Bool) : Option (Finset C) :=
  if onlyPlayers then
    match m.playersSpectatorCache centerPos with
    | some cachedSpectators => some cachedSpectators
    | none => (m.spectatorCache centerPos).map fun cachedSpectators =>
        cachedSpectators.filter fun c => isPlayer c
  else m.spectatorCache centerPos

/-- `Map::getSpectators`. What is stored in a cache is the caller's set, with what
was in it before. -/
def getSpectators (m : Map C) (spectators : Finset C) (centerPos : Position) (q : Query) :
    Finset C × Map C :=
  if MAP_MAX_LAYERS ≤ centerPos.z.toNat then (spectators, m)
  else
    let cacheResult := q.cacheable centerPos
    match if cacheResult then m.cached isPlayer centerPos q.onlyPlayers else none with
    | some cachedSpectators => (spectators ∪ cachedSpectators, m)
    | none =>
        let spectators :=
          m.getSpectatorsInternal spectators centerPos (q.ranges centerPos) q.onlyPlayers
        if cacheResult then
          if q.onlyPlayers then
            (spectators, { m with
              playersSpectatorCache :=
                Function.update m.playersSpectatorCache centerPos (some spectators) })
          else
            (spectators, { m with
              spectatorCache := Function.update m.spectatorCache centerPos (some spectators) })
        else (spectators, m)

/-- `Map::clearSpectatorCache`. -/
def clearSpectatorCache (m : Map C) : Map C :=
  { m with spectatorCache := fun _ => none, playersSpectatorCache := fun _ => none }

/-! ## Creatures -/

/-- A creature is registered in the leaf of a place. -/
def addCreature (m : Map C) (pos : Position) (c : C) : Map C :=
  { m with leaves := modifyLeaf (m.getQTNode pos) (QTreeLeafNode.addCreature isPlayer c) m.leaves }

/-- A creature is taken out of the leaf of a place. -/
def removeFromLeaf (m : Map C) (pos : Position) (c : C) : Map C :=
  { m with
    leaves := modifyLeaf (m.getQTNode pos) (QTreeLeafNode.removeCreature isPlayer c) m.leaves }

/-- `Tile::addThing` and `Tile::internalAddThing` for a creature. -/
def addThing (m : Map C) (pos : Position) (c : C) : Map C :=
  { m.clearSpectatorCache with parent := Function.update m.parent c (some pos) }

/-- `Map::placeCreature`, once the tile has been chosen. -/
def placeCreature (m : Map C) (dest : Position) (c : C) : Map C :=
  (m.addThing dest c).addCreature isPlayer dest c

/-- `Map::moveCreature`. -/
def moveCreature (m : Map C) (oldPos newPos : Position) (c : C) : Map C :=
  let (spectators, m) := m.getSpectators isPlayer ∅ oldPos { multifloor := true }
  let (_, m) := m.getSpectators isPlayer spectators newPos { multifloor := true }
  -- the creature is removed from its tile
  let m := m.clearSpectatorCache
  let m :=
    if m.getQTNode oldPos ≠ m.getQTNode newPos then
      (m.removeFromLeaf isPlayer oldPos c).addCreature isPlayer newPos c
    else m
  m.addThing newPos c

/-- `Game::removeCreature`, with `Tile::removeCreature`. -/
def removeCreature (m : Map C) (pos : Position) (c : C) : Map C :=
  let (_, m) := m.getSpectators isPlayer ∅ pos { multifloor := true }
  { (m.removeFromLeaf isPlayer pos c).clearSpectatorCache with
    parent := Function.update m.parent c none }

end Map

end Infernum
