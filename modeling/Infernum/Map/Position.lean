import Mathlib.Tactic.Common

/-!
# Positions

`Position`: a place on the map.
-/

namespace Infernum

def MAP_MAX_LAYERS : Nat := 16

structure Position where
  x : BitVec 16
  y : BitVec 16
  z : BitVec 8
  deriving DecidableEq, Repr

namespace Position

def getX (p : Position) : Int := p.x.toNat
def getY (p : Position) : Int := p.y.toNat
def getZ (p : Position) : Int := p.z.toNat

/-- `Position::getOffsetZ`. -/
def getOffsetZ (p1 p2 : Position) : Int := p1.getZ - p2.getZ

end Position

end Infernum
