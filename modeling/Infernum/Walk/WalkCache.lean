import Infernum.Map.Position
import Infernum.Lib.Window

/-!
# The walk cache

The part of `localMapCache` around a creature that remembers which tiles it may
step on: how it is computed as a whole (`updateMapCache`), looked up
(`getWalkCache`) and shifted when the creature moves (`onCreatureMove`). What a
tile holds is left open; `queryAdd` says whether the creature may be added to it.
-/

namespace Infernum

open Lib

namespace Walker

def maxViewportX : Nat := 11
def maxViewportY : Nat := 11

def mapWalkWidth : Nat := maxViewportX * 2 + 1
def mapWalkHeight : Nat := maxViewportY * 2 + 1
def maxWalkCacheWidth : Nat := (mapWalkWidth - 1) / 2
def maxWalkCacheHeight : Nat := (mapWalkHeight - 1) / 2

end Walker

/-- A creature, as far as its walk cache goes, with the tiles of the map. The cache is
indexed by row and column. -/
structure Walker (T : Type) where
  getTile : Position → Option T
  position : Position
  localMapCache : Nat → Nat → Bool := fun _ _ => false
  isMapLoaded : Bool := false
  useCacheMap : Bool := true

namespace Walker

variable {T : Type} (queryAdd : T → Bool) (s : Walker T)

/-- The loop from `-n` to `n`. -/
def offsets (n : Nat) : List Int := (List.range (2 * n + 1)).map fun (i : Nat) => (i : Int) - n

/-- A coordinate in 16 bits. -/
def coordinate (v : Int) : BitVec 16 := .ofInt 16 v

/-- The place at a distance from the creature, on its floor. -/
def place (x y : Int) : Position where
  x := coordinate (s.position.getX + x)
  y := coordinate (s.position.getY + y)
  z := s.position.z

/-- What the cache should say of a tile, which may be missing. -/
def walkable (tile : Option T) : Bool := tile.any queryAdd

def setCell (cache : Nat → Nat → Bool) (y x : Nat) (b : Bool) : Nat → Nat → Bool :=
  Function.update cache y (Function.update (cache y) x b)

/-- `Creature::updateTileCache(tile, dx, dy)`. -/
def updateTileCache (tile : Option T) (dx dy : Int) : Walker T :=
  if dx.natAbs ≤ maxWalkCacheWidth ∧ dy.natAbs ≤ maxWalkCacheHeight then
    let cache := setCell s.localMapCache (maxWalkCacheHeight + dy).toNat (maxWalkCacheWidth + dx).toNat
      (walkable queryAdd tile)
    { s with localMapCache := cache }
  else s

/-- `Creature::updateTileCache(tile, pos)`. -/
def updateTileCacheAt (tile : Option T) (pos : Position) : Walker T :=
  if pos.z = s.position.z then
    s.updateTileCache queryAdd tile (pos.getX - s.position.getX) (pos.getY - s.position.getY)
  else s

/-- `Creature::updateMapCache`. -/
def updateMapCache : Walker T :=
  (offsets maxWalkCacheHeight).foldl (fun t y =>
    (offsets maxWalkCacheWidth).foldl (fun t x =>
      t.updateTileCacheAt queryAdd (s.getTile (s.place x y)) (s.place x y)) t) s

/-- `Creature::getWalkCache`. -/
def getWalkCache (pos : Position) : Int :=
  if s.useCacheMap = false then 2
  else if s.position.z ≠ pos.z then 0
  else if pos = s.position then 1
  else
    let dx := pos.getX - s.position.getX
    let dy := pos.getY - s.position.getY
    if dx.natAbs ≤ maxWalkCacheWidth ∧ dy.natAbs ≤ maxWalkCacheHeight then
      if s.localMapCache (maxWalkCacheHeight + dy).toNat (maxWalkCacheWidth + dx).toNat then 1 else 0
    else 2

/-! ## Moves -/

/-- One row is computed anew. -/
def updateRow (dy : Int) : Walker T :=
  (offsets maxWalkCacheWidth).foldl
    (fun t x => t.updateTileCache queryAdd (s.getTile (s.place x dy)) x dy) s

/-- One column is computed anew. -/
def updateColumn (dx : Int) : Walker T :=
  (offsets maxWalkCacheHeight).foldl
    (fun t y => t.updateTileCache queryAdd (s.getTile (s.place dx y)) dx y) s

/-- The rows move when the creature went north or south. -/
def shiftRows (oldPos newPos : Position) : Walker T :=
  if newPos.getY < oldPos.getY then
    -- north: shift y south
    { s with localMapCache := shiftUp (mapWalkHeight - 1) s.localMapCache }.updateRow queryAdd
      (-maxWalkCacheHeight)
  else if oldPos.getY < newPos.getY then
    -- south: shift y north
    { s with localMapCache := shiftDown (mapWalkHeight - 1) s.localMapCache }.updateRow queryAdd
      maxWalkCacheHeight
  else s

/-- `Position::getDistanceY`. -/
def getDistanceY (p1 p2 : Position) : Int := (p1.getY - p2.getY).natAbs

/-- The rows from `starty` to `endy`, which the columns are shifted in. -/
def shiftedRows (oldPos newPos : Position) : List Nat :=
  let dy := getDistanceY oldPos newPos
  let endy : Int := if dy < 0 then mapWalkHeight - 1 + dy else mapWalkHeight - 1
  let starty : Int := if dy < 0 then 0 else if 0 < dy then dy else 0
  List.range' starty.toNat (endy + 1 - starty).toNat

/-- The columns move when the creature went east or west. -/
def shiftColumns (oldPos newPos : Position) : Walker T :=
  if oldPos.getX < newPos.getX then
    -- east: shift x west
    let cache := (shiftedRows oldPos newPos).foldl
      (fun cache y => Function.update cache y (shiftDown (mapWalkWidth - 1) (cache y)))
      s.localMapCache
    { s with localMapCache := cache }.updateColumn queryAdd maxWalkCacheWidth
  else if newPos.getX < oldPos.getX then
    -- west: shift x east
    let cache := (shiftedRows oldPos newPos).foldl
      (fun cache y => Function.update cache y (shiftUp (mapWalkWidth - 1) (cache y)))
      s.localMapCache
    { s with localMapCache := cache }.updateColumn queryAdd (-maxWalkCacheWidth)
  else s

/-- The map cache in `Creature::onCreatureMove`, of the creature that has moved. -/
def onMove (newPos oldPos : Position) (oldTile : Option T) (teleport : Bool) : Walker T :=
  if s.isMapLoaded then
    if teleport ∨ oldPos.z ≠ newPos.z then s.updateMapCache queryAdd
    else
      ((s.shiftRows queryAdd oldPos newPos).shiftColumns queryAdd oldPos newPos).updateTileCacheAt
        queryAdd oldTile oldPos
  else s

/-- The map cache in `Creature::onCreatureMove`, when another creature has moved. -/
def onOtherMove (newPos oldPos : Position) : Walker T :=
  if s.isMapLoaded then
    let s :=
      if newPos.z = s.position.z then s.updateTileCacheAt queryAdd (s.getTile newPos) newPos else s
    if oldPos.z = s.position.z then s.updateTileCacheAt queryAdd (s.getTile oldPos) oldPos else s
  else s

/-- The creature leaves its tile for another one, and both change. -/
def moved (newPos : Position) (oldTile newTile : T) : Walker T :=
  { s with
    getTile := Function.update (Function.update s.getTile s.position (some oldTile)) newPos
      (some newTile)
    position := newPos }

/-- `Map::moveCreature`: the creature is moved and told. -/
def moveCreature (newPos : Position) (oldTile newTile : T) (teleport : Bool) : Walker T :=
  (s.moved newPos oldTile newTile).onMove queryAdd newPos s.position (some oldTile) teleport

end Walker

end Infernum
