import Infernum.MapDescription.Things

/-!
# Map descriptions

`GetMapDescription` walks over the floors, and each floor column by column. A tile
is described by its things; places without a tile are counted, and the count goes
out as a marker of two bytes, the count and `0xFF`, in front of the next tile and at
the end. The counter begins at -1, which tells places in front of the first tile
from those behind one, and is sent when it has reached `0xFE`.

A client reads a tile up to the next marker, and takes from it how many places to
leave empty.
-/

namespace Infernum.MapDescription

open Infernum.Lib Infernum.Network

/-! ### The map -/

/-- A tile as the client is shown it: the first ten things at most. -/
structure TileView (client : Client) where
  things : List Thing
  few : things.length ≤ 10
  shown : ∀ t ∈ things, t.Shown client

structure Place where
  x : Int
  y : Int
  z : Int
deriving DecidableEq

/-- What `Map::getTile` finds, by its own types of coordinates. -/
abbrev Tiles (client : Client) := UInt16 → UInt16 → UInt8 → Option (TileView client)

variable {client : Client}

def getTile (tiles : Tiles client) (p : Place) : Option (TileView client) :=
  tiles (UInt16.ofInt p.x) (UInt16.ofInt p.y) (UInt8.ofInt p.z)

def MAP_MAX_LAYERS : Int := 16

/-! ### Writing -/

/-- `if (skip >= 0) { msg.addByte(skip); msg.addByte(0xFF); }` -/
def flush (skip : Int) : List NetworkMessage.Write :=
  if skip ≥ 0 then [.byte (UInt8.ofInt skip), .byte 0xFF] else []

/-- The body of the loops of `GetFloorDescription`, over the tiles in their order;
what is written, and `skip`. -/
def describe : List (Option (TileView client)) → Int → List NetworkMessage.Write × Int
  | [], skip => ([], skip)
  | some tile :: tiles, skip =>
      let (ws, last) := describe tiles 0
      (flush skip ++ (GetTileDescription tile.things ++ ws), last)
  | none :: tiles, skip =>
      if skip = 0xFE then
        let (ws, last) := describe tiles (-1)
        (.byte 0xFF :: .byte 0xFF :: ws, last)
      else describe tiles (skip + 1)

/-- The places of a floor in the order of the loops. -/
def floorPlaces (x y z width height offset : Int) : List Place :=
  (List.range width.toNat).flatMap fun nx =>
    (List.range height.toNat).map fun ny => ⟨x + nx + offset, y + ny + offset, z⟩

def GetFloorDescription (tiles : Tiles client) (x y z width height offset skip : Int) :
    List NetworkMessage.Write × Int :=
  describe ((floorPlaces x y z width height offset).map (getTile tiles)) skip

/-- `for (int32_t nz = startz; nz != stop; nz += zstep)`; `none` once the fuel is
used up. -/
def floorLoop (stop zstep : Int) : Nat → Int → Option (List Int)
  | 0, _ => none
  | fuel + 1, nz =>
      if nz = stop then some []
      else do
        let rest ← floorLoop stop zstep fuel (nz + zstep)
        pure (nz :: rest)

/-- The floors that are sent. -/
def floors (z : Int) : Option (List Int) :=
  let (startz, endz, zstep) :=
    if z > 7 then (z - 2, min (MAP_MAX_LAYERS - 1) (z + 2), 1) else ((7 : Int), (0 : Int), (-1 : Int))
  floorLoop (endz + zstep) zstep 9 startz

/-- The floors one after the other, with `skip` carried over. -/
def describeFloors (tiles : Tiles client) (x y z width height : Int) :
    List Int → Int → List NetworkMessage.Write × Int
  | [], skip => ([], skip)
  | nz :: floors, skip =>
      let (ws, skip) := GetFloorDescription tiles x y nz width height (z - nz) skip
      let (rest, skip) := describeFloors tiles x y z width height floors skip
      (ws ++ rest, skip)

def GetMapDescription (tiles : Tiles client) (x y z width height : Int) :
    Option (List NetworkMessage.Write) := do
  let floors ← floors z
  let (ws, skip) := describeFloors tiles x y z width height floors (-1)
  pure (ws ++ flush skip)

/-! ### Reading -/

/-- The things of a tile and the count of the marker behind them. -/
def Client.getThings (client : Client) : Nat → List UInt8 → Option (List Thing × Nat × List UInt8)
  | 0, _ => none
  | fuel + 1, s => do
      let id ← peekU16 s
      if id ≥ 0xFF00 then do
        let (marker, s) ← getU16 s
        pure ([], (marker &&& 0xFF).toNat, s)
      else do
        let (t, s) ← client.getThing s
        let (ts, skip, s) ← client.getThings fuel s
        pure (t :: ts, skip, s)

/-- One place: its tile, if there is one, and how many places behind it are empty. -/
def Client.getTileDescription (client : Client) (s : List UInt8) :
    Option (Option (List Thing) × Nat × List UInt8) := do
  let id ← peekU16 s
  let (marker, s) ← getU16 s
  if id ≥ 0xFF00 then pure (none, (marker &&& 0xFF).toNat, s)
  else do
    -- what was read are the environmental effects
    let (ts, skip, s) ← client.getThings 256 s
    pure (some ts, skip, s)

/-- The places in order, `skip` of which are empty. -/
def Client.getPlaces (client : Client) :
    List Place → Nat → List UInt8 → Option (List (Place × Option (List Thing)) × Nat × List UInt8)
  | [], skip, s => some ([], skip, s)
  | p :: ps, 0, s => do
      let (tile, skip, s) ← client.getTileDescription s
      let (rest, skip, s) ← client.getPlaces ps skip s
      pure ((p, tile) :: rest, skip, s)
  | p :: ps, skip + 1, s => do
      let (rest, skip, s) ← client.getPlaces ps skip s
      pure ((p, none) :: rest, skip, s)

/-- The places that are asked for, floor by floor. -/
def requested (x y z width height : Int) (floors : List Int) : List Place :=
  floors.flatMap fun nz => floorPlaces x y nz width height (z - nz)

/-- A description: what is at each place, and the bytes behind it. -/
def Client.getMapDescription (client : Client) (x y z width height : Int) (s : List UInt8) :
    Option (List (Place × Option (List Thing)) × List UInt8) := do
  let floors ← floors z
  let (places, _, s) ← client.getPlaces (requested x y z width height floors) 0 s
  pure (places, s)

/-! ### One walk over all places -/

theorem describe_append (xs ys : List (Option (TileView client))) (skip : Int) :
    describe (xs ++ ys) skip
      = ((describe xs skip).1 ++ (describe ys (describe xs skip).2).1,
        (describe ys (describe xs skip).2).2) := by
  induction xs generalizing skip with
  | nil => rfl
  | cons tile xs ih =>
      cases tile with
      | some tile => simp only [List.cons_append, describe, ih, List.append_assoc]
      | none =>
          simp only [List.cons_append, describe]
          split
          · simp only [ih, List.cons_append]
          · exact ih _

/-- Floors are no borders for the counter. -/
theorem describeFloors_eq (tiles : Tiles client) (x y z width height : Int) (floors : List Int)
    (skip : Int) :
    describeFloors tiles x y z width height floors skip
      = describe ((requested x y z width height floors).map (getTile tiles)) skip := by
  induction floors generalizing skip with
  | nil => rfl
  | cons nz floors ih =>
      rw [describeFloors, requested, List.flatMap_cons, List.map_append, describe_append, ← requested]
      simp only [GetFloorDescription, ih]

/-- On the floors of a map the loop ends. -/
theorem exists_floors {z : Int} (h : z < MAP_MAX_LAYERS) : ∃ l, floors z = some l := by
  unfold MAP_MAX_LAYERS at h
  by_cases hz : z > 7
  · have hcases : z = 8 ∨ z = 9 ∨ z = 10 ∨ z = 11 ∨ z = 12 ∨ z = 13 ∨ z = 14 ∨ z = 15 := by omega
    rcases hcases with rfl | rfl | rfl | rfl | rfl | rfl | rfl | rfl <;> exact ⟨_, rfl⟩
  · refine ⟨[7, 6, 5, 4, 3, 2, 1, 0], ?_⟩
    rw [floors, if_neg hz]
    rfl

end Infernum.MapDescription
