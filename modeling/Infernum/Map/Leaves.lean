import Infernum.Lib.QuadTree
import Infernum.Map.Position

/-!
# The leaves of the map

`QTreeNode` and `QTreeLeafNode`: the map is a quad tree over bits 15 to 3 of the
two coordinates. A leaf stands for eight by eight places and is linked to the
leaves south and east of it. Leaves are known by their number.
-/

namespace Infernum

open Lib Lib.QuadTree

def FLOOR_BITS : Nat := 3
def FLOOR_SIZE : Nat := 8

/-- `child` index: the two bits `0x8000` of the coordinates. -/
def childIndex (x y : BitVec 32) : Bits := (x &&& 0x8000 != 0, y &&& 0x8000 != 0)

/-- `QTreeNode::getLeaf`. -/
def getLeaf : QuadTree Nat → BitVec 32 → BitVec 32 → Option Nat
  | .nil, _, _ => none
  | .leaf n, _, _ => some n
  | .node c00 c10 c01 c11, x, y =>
      match childIndex x y with
      | (false, false) => getLeaf c00 (x <<< 1) (y <<< 1)
      | (true, false) => getLeaf c10 (x <<< 1) (y <<< 1)
      | (false, true) => getLeaf c01 (x <<< 1) (y <<< 1)
      | (true, true) => getLeaf c11 (x <<< 1) (y <<< 1)

/-- The loop of `getLeafStatic` goes on below a child that is not a leaf. -/
def whileNotLeaf (next : Option Nat) : QuadTree Nat → Option Nat
  | .nil => none
  | .leaf n => some n
  | .node .. => next

/-- `QTreeNode::getLeafStatic`: the first child is taken before a leaf is looked
for, and a leaf has no children. -/
def getLeafStatic : QuadTree Nat → BitVec 32 → BitVec 32 → Option Nat
  | .nil, _, _ => none
  | .leaf _, _, _ => none
  | .node c00 c10 c01 c11, x, y =>
      match childIndex x y with
      | (false, false) => whileNotLeaf (getLeafStatic c00 (x <<< 1) (y <<< 1)) c00
      | (true, false) => whileNotLeaf (getLeafStatic c10 (x <<< 1) (y <<< 1)) c10
      | (false, true) => whileNotLeaf (getLeafStatic c01 (x <<< 1) (y <<< 1)) c01
      | (true, true) => whileNotLeaf (getLeafStatic c11 (x <<< 1) (y <<< 1)) c11

/-- The new child of a node: a node, or on the last level a leaf. -/
def newChild (newLeaf level : Nat) : QuadTree Nat → QuadTree Nat
  | .nil => if level ≠ FLOOR_BITS then empty else .leaf newLeaf
  | c => c

/-- `QTreeNode::createLeaf`; `newLeaf` is the number of the leaf if one is made. -/
def createLeaf (newLeaf : Nat) : Nat → QuadTree Nat → BitVec 32 → BitVec 32 → QuadTree Nat
  | _, .leaf n, _, _ => .leaf n
  | 0, t, _, _ => t
  | level + 1, t, x, y =>
      let index := childIndex x y
      t.setChild index
        (createLeaf newLeaf level (newChild newLeaf (level + 1) (t.child index)) (x * 2) (y * 2))

/-- The leaf that `QTreeNode::createLeaf` returns. -/
def createdLeaf (newLeaf : Nat) : Nat → QuadTree Nat → BitVec 32 → BitVec 32 → Option Nat
  | _, .leaf n, _, _ => some n
  | 0, _, _, _ => none
  | level + 1, t, x, y =>
      createdLeaf newLeaf level (newChild newLeaf (level + 1) (t.child (childIndex x y))) (x * 2)
        (y * 2)

/-! ## Paths -/

/-- The children that are taken on the way down. -/
def leafPath : Nat → BitVec 32 → BitVec 32 → List Bits
  | 0, _, _ => []
  | n + 1, x, y => childIndex x y :: leafPath n (x <<< 1) (y <<< 1)

theorem leafPath_length (n : Nat) (x y : BitVec 32) : (leafPath n x y).length = n := by
  induction n generalizing x y with
  | zero => rfl
  | succ n ih => exact congrArg Nat.succ (ih _ _)

theorem getLeaf_node {t : QuadTree Nat} (ht : t.IsNode) (x y : BitVec 32) :
    getLeaf t x y = getLeaf (t.child (childIndex x y)) (x <<< 1) (y <<< 1) := by
  cases t with
  | nil => cases ht
  | leaf a => cases ht
  | node c00 c10 c01 c11 =>
      rw [getLeaf]
      obtain ⟨_ | _, _ | _⟩ := childIndex x y <;> rfl

/-- The leaf of two coordinates is what the tree has under their path. -/
theorem getLeaf_eq_find {n : Nat} {t : QuadTree Nat} (h : Uniform n t) (x y : BitVec 32) :
    getLeaf t x y = t.find (leafPath n x y) := by
  induction n generalizing t x y with
  | zero =>
      cases t with
      | nil => rfl
      | leaf a => rfl
      | node c00 c10 c01 c11 => cases h
  | succ n ih =>
      rcases h.cases with rfl | hnode
      · exact (find_nil _).symm
      · rw [getLeaf_node hnode, ih (h.child _)]
        rfl

theorem mul_two_eq_shiftLeft (x : BitVec 32) : x * (2 : BitVec 32) = x <<< 1 := by
  apply BitVec.eq_of_toNat_eq
  simp [BitVec.toNat_mul, BitVec.toNat_shiftLeft, Nat.shiftLeft_eq]

theorem newChild_of_isNode (newLeaf level : Nat) {t : QuadTree Nat} (ht : t.IsNode) :
    newChild newLeaf level t = t := by
  cases t with
  | nil => cases ht
  | leaf a => rfl
  | node c00 c10 c01 c11 => rfl

/-- `createLeaf` inserts a number under the path of the coordinates. -/
theorem createLeaf_eq_insert (newLeaf n : Nat) {t : QuadTree Nat} (h : Uniform (n + 1) t)
    (ht : t.IsNode) (x y : BitVec 32) :
    createLeaf newLeaf (n + FLOOR_BITS) t x y = t.insert newLeaf (leafPath (n + 1) x y) := by
  induction n generalizing t x y with
  | zero =>
      have hdown : createLeaf newLeaf (0 + FLOOR_BITS) t x y = t.setChild (childIndex x y)
          (createLeaf newLeaf 2 (newChild newLeaf 3 (t.child (childIndex x y))) (x * 2) (y * 2)) := by
        cases t with
        | nil => cases ht
        | leaf a => cases ht
        | node c00 c10 c01 c11 => rfl
      rw [hdown]
      show _ = t.insert newLeaf [childIndex x y]
      rw [insert_cons_of_isNode ht]
      have hchild := h.child (childIndex x y)
      cases hc : t.child (childIndex x y) with
      | nil => rfl
      | leaf a => rfl
      | node c00 c10 c01 c11 =>
          rw [hc] at hchild
          cases hchild
  | succ n ih =>
      have hdown : createLeaf newLeaf (n + 1 + FLOOR_BITS) t x y = t.setChild (childIndex x y)
          (createLeaf newLeaf (n + FLOOR_BITS)
            (newChild newLeaf (n + 1 + FLOOR_BITS) (t.child (childIndex x y))) (x * 2) (y * 2)) := by
        have hlevel : n + 1 + FLOOR_BITS = n + FLOOR_BITS + 1 := by omega
        rw [hlevel]
        cases t with
        | nil => cases ht
        | leaf a => cases ht
        | node c00 c10 c01 c11 => rfl
      have hlevel : n + 1 + FLOOR_BITS ≠ FLOOR_BITS := by omega
      rw [hdown, mul_two_eq_shiftLeft, mul_two_eq_shiftLeft]
      show _ = t.insert newLeaf (childIndex x y :: leafPath (n + 1) (x <<< 1) (y <<< 1))
      rw [insert_cons_of_isNode ht]
      refine congrArg (t.setChild (childIndex x y)) ?_
      have hchild := h.child (childIndex x y)
      rcases hchild.cases with hnil | hnode
      · -- the child is made
        rw [hnil, newChild, if_pos hlevel, ih (uniform_empty n) isNode_empty]
        exact insert_empty_cons newLeaf _ _
      · rw [newChild_of_isNode newLeaf _ hnode, ih hchild hnode]

/-- `getLeafStatic` finds what `getLeaf` finds below a root that is not a leaf. -/
theorem getLeafStatic_eq_getLeaf {t : QuadTree Nat} (ht : t.IsNode) (x y : BitVec 32) :
    getLeafStatic t x y = getLeaf t x y := by
  induction t generalizing x y with
  | nil => cases ht
  | leaf a => cases ht
  | node c00 c10 c01 c11 ih00 ih10 ih01 ih11 =>
      have hdown : ∀ c : QuadTree Nat,
          (c.IsNode → getLeafStatic c (x <<< 1) (y <<< 1) = getLeaf c (x <<< 1) (y <<< 1)) →
          whileNotLeaf (getLeafStatic c (x <<< 1) (y <<< 1)) c = getLeaf c (x <<< 1) (y <<< 1) := by
        intro c ih
        cases c with
        | nil => rfl
        | leaf a => rfl
        | node d00 d10 d01 d11 => exact ih trivial
      rw [getLeafStatic, getLeaf]
      split
      · exact hdown c00 fun hc => ih00 hc _ _
      · exact hdown c10 fun hc => ih10 hc _ _
      · exact hdown c01 fun hc => ih01 hc _ _
      · exact hdown c11 fun hc => ih11 hc _ _

/-- `createLeaf` returns the leaf that is there, or the new one. -/
theorem createdLeaf_eq (newLeaf n : Nat) {t : QuadTree Nat} (h : Uniform (n + 1) t)
    (ht : t.IsNode) (x y : BitVec 32) :
    createdLeaf newLeaf (n + FLOOR_BITS) t x y = some ((getLeaf t x y).getD newLeaf) := by
  induction n generalizing t x y with
  | zero =>
      have hdown : createdLeaf newLeaf (0 + FLOOR_BITS) t x y =
          createdLeaf newLeaf 2 (newChild newLeaf 3 (t.child (childIndex x y))) (x * 2) (y * 2) := by
        cases t with
        | nil => cases ht
        | leaf a => cases ht
        | node c00 c10 c01 c11 => rfl
      rw [hdown, getLeaf_node ht]
      have hchild := h.child (childIndex x y)
      cases hc : t.child (childIndex x y) with
      | nil => rfl
      | leaf a => rfl
      | node c00 c10 c01 c11 =>
          rw [hc] at hchild
          cases hchild
  | succ n ih =>
      have hdown : createdLeaf newLeaf (n + 1 + FLOOR_BITS) t x y =
          createdLeaf newLeaf (n + FLOOR_BITS)
            (newChild newLeaf (n + 1 + FLOOR_BITS) (t.child (childIndex x y))) (x * 2) (y * 2) := by
        have hlevel : n + 1 + FLOOR_BITS = n + FLOOR_BITS + 1 := by omega
        rw [hlevel]
        cases t with
        | nil => cases ht
        | leaf a => cases ht
        | node c00 c10 c01 c11 => rfl
      have hlevel : n + 1 + FLOOR_BITS ≠ FLOOR_BITS := by omega
      rw [hdown, mul_two_eq_shiftLeft, mul_two_eq_shiftLeft, getLeaf_node ht]
      have hchild := h.child (childIndex x y)
      rcases hchild.cases with hnil | hnode
      · -- below a child that is made there is no leaf
        rw [hnil, newChild, if_pos hlevel, ih (uniform_empty n) isNode_empty,
          getLeaf_eq_find (uniform_empty n), find_empty]
        rfl
      · rw [newChild_of_isNode newLeaf _ hnode, ih hchild hnode]

/-- The bit that `childIndex` tests. -/
theorem and_0x8000 (a : BitVec 32) : (a &&& 0x8000 != 0) = a.getLsbD 15 := by
  have hpow : (0x8000 : BitVec 32) = BitVec.twoPow 32 15 := by decide
  rw [hpow, BitVec.and_twoPow]
  cases a.getLsbD 15 with
  | true => rfl
  | false => rfl

theorem getLsbD_shiftLeft_one (a : BitVec 32) (i : Nat) (hi : i < 15) :
    (a <<< 1).getLsbD (15 - i) = a.getLsbD (15 - (i + 1)) := by
  have hlt : 15 - i < 32 := by omega
  have hpos : ¬15 - i < 1 := by omega
  have hpred : 15 - i - 1 = 15 - (i + 1) := by omega
  rw [BitVec.getLsbD_shiftLeft]
  simp [hlt, hpos, hpred]

/-- A path shows the bits from the highest one down. -/
theorem leafPath_eq_iff (n : Nat) (hn : n ≤ 16) (x y x' y' : BitVec 32) :
    leafPath n x y = leafPath n x' y' ↔
      ∀ i < n, x.getLsbD (15 - i) = x'.getLsbD (15 - i) ∧
        y.getLsbD (15 - i) = y'.getLsbD (15 - i) := by
  induction n generalizing x y x' y' with
  | zero =>
      refine ⟨fun _ i hi => ?_, fun _ => rfl⟩
      omega
  | succ n ih =>
      rw [leafPath, leafPath, List.cons.injEq, ih (by omega), childIndex, childIndex, and_0x8000,
        and_0x8000, and_0x8000, and_0x8000, Prod.mk.injEq]
      constructor
      · intro h i hi
        cases i with
        | zero => exact h.1
        | succ i =>
            have hrest := h.2 i (by omega)
            rw [getLsbD_shiftLeft_one x i (by omega), getLsbD_shiftLeft_one x' i (by omega),
              getLsbD_shiftLeft_one y i (by omega), getLsbD_shiftLeft_one y' i (by omega)] at hrest
            exact hrest
      · intro h
        refine ⟨h 0 (by omega), fun i hi => ?_⟩
        rw [getLsbD_shiftLeft_one x i (by omega), getLsbD_shiftLeft_one x' i (by omega),
          getLsbD_shiftLeft_one y i (by omega), getLsbD_shiftLeft_one y' i (by omega)]
        exact h (i + 1) (by omega)

/-- The column, or row, of leaves that a coordinate belongs to. -/
def leafCoord (x : BitVec 32) : Nat := x.toNat % 65536 / 8

/-- Bits 15 to 3 are the column. -/
theorem leafCoord_eq_iff (x x' : BitVec 32) :
    leafCoord x = leafCoord x' ↔ ∀ i < 13, x.getLsbD (15 - i) = x'.getLsbD (15 - i) := by
  have htest : ∀ (a : BitVec 32) i,
      (leafCoord a).testBit i = (decide (i < 13) && a.getLsbD (i + 3)) := by
    intro a i
    show (a.toNat % 2 ^ 16 / 2 ^ 3).testBit i = _
    rw [Nat.testBit_div_two_pow, Nat.testBit_mod_two_pow, BitVec.getLsbD]
    congr 1
    simp only [decide_eq_decide]
    omega
  constructor
  · intro h i hi
    have hbit := congrArg (fun n => Nat.testBit n (12 - i)) h
    have hindex : 12 - i + 3 = 15 - i := by omega
    have hlt : 12 - i < 13 := by omega
    simpa [htest, hindex, hlt] using hbit
  · intro h
    refine Nat.eq_of_testBit_eq fun i => ?_
    rw [htest, htest]
    by_cases hi : i < 13
    · have hbit := h (12 - i) (by omega)
      have hindex : 15 - (12 - i) = i + 3 := by omega
      rw [hindex] at hbit
      rw [hbit]
    · simp [hi]

/-- Two places belong to one leaf if their columns and rows are the same. -/
theorem leafPath_eq_iff_coord (x y x' y' : BitVec 32) :
    leafPath 13 x y = leafPath 13 x' y' ↔
      leafCoord x = leafCoord x' ∧ leafCoord y = leafCoord y' := by
  rw [leafPath_eq_iff 13 (by omega), leafCoord_eq_iff, leafCoord_eq_iff]
  exact ⟨fun h => ⟨fun i hi => (h i hi).1, fun i hi => (h i hi).2⟩,
    fun h i hi => ⟨h.1 i hi, h.2 i hi⟩⟩

end Infernum
