import Infernum.Combat.Matrix
import Infernum.Path.PathFinding

/-!
# Spell areas

`AreaCombat` keeps the area of a spell for each direction: the rotations of one definition,
and for the diagonals the mirror images of another one. The rotations are exact for every
rectangle. The mirror and the flip take the rows for the columns when they set the centre:
right for a square, and off by the difference for any other rectangle.
-/

namespace Infernum.Combat

open Lib
open PathFinding (getOffsetX getOffsetY)

/-- The values of an area definition. -/
def isCell (value : BitVec 32) : Prop := value = 1 ∨ value = 3
def isCenter (value : BitVec 32) : Prop := value = 2 ∨ value = 3

instance (value : BitVec 32) : Decidable (isCell value) := inferInstanceAs (Decidable (_ ∨ _))
instance (value : BitVec 32) : Decidable (isCenter value) := inferInstanceAs (Decidable (_ ∨ _))

/-- The loop of `createArea`. -/
def createLoop (cols : BitVec 32) :
    List (BitVec 32) → BitVec 32 → BitVec 32 → MatrixArea → Option MatrixArea
  | [], _, _, area => some area
  | value :: list, x, y, area =>
      let area := if isCell value then area.writeAll [⟨y.toNat, x.toNat, true⟩] else some area
      area.bind fun area =>
        let area := if isCenter value then area.setCenter y x else area
        if cols = x + 1 then createLoop cols list 0 (y + 1) area
        else createLoop cols list (x + 1) y area

/-- `AreaCombat::createArea`. -/
def createArea (list : List (BitVec 32)) (rows : BitVec 32) : Option MatrixArea :=
  let cols := if rows = 0 then 0 else .ofNat 32 (list.length / rows.toNat)
  createLoop cols list 0 0 (.new rows cols)

/-- `AreaCombat`. -/
structure AreaCombat where
  areas : PathFinding.Direction → Option MatrixArea := fun _ => none
  hasExtArea : Bool := false

namespace AreaCombat

/-- `std::max` of the columns and the rows. -/
def longer (area : MatrixArea) : BitVec 32 :=
  if area.cols < area.rows then area.rows else area.cols

/-- What `setupArea` puts into the map. -/
def setAreas (ac : AreaCombat) (area southArea eastArea westArea : MatrixArea) : AreaCombat :=
  { ac with
    areas := fun
      | .north => some area
      | .south => some southArea
      | .east => some eastArea
      | .west => some westArea
      | dir => ac.areas dir }

/-- What `setupExtArea` puts into the map. -/
def setExtAreas (ac : AreaCombat) (area neArea swArea seArea : MatrixArea) : AreaCombat where
  hasExtArea := true
  areas
    | .northwest => some area
    | .northeast => some neArea
    | .southwest => some swArea
    | .southeast => some seArea
    | dir => ac.areas dir

/-- `AreaCombat::setupArea` of a list. -/
def setupArea (ac : AreaCombat) (list : List (BitVec 32)) (rows : BitVec 32) :
    Option AreaCombat := do
  let area ← createArea list rows
  let maxOutput := longer area * 2
  let southArea ← copyArea area (.new maxOutput maxOutput) .rotate180
  let eastArea ← copyArea area (.new maxOutput maxOutput) .rotate90
  let westArea ← copyArea area (.new maxOutput maxOutput) .rotate270
  return ac.setAreas area southArea eastArea westArea

/-- `AreaCombat::setupExtArea`. -/
def setupExtArea (ac : AreaCombat) (list : List (BitVec 32)) (rows : BitVec 32) :
    Option AreaCombat :=
  if list.isEmpty then some ac
  else do
    let area ← createArea list rows
    let maxOutput := longer area * 2
    let neArea ← copyArea area (.new maxOutput maxOutput) .mirror
    let swArea ← copyArea area (.new maxOutput maxOutput) .flip
    let seArea ← copyArea swArea (.new maxOutput maxOutput) .mirror
    return ac.setExtAreas area neArea swArea seArea

/-- The direction that `AreaCombat::getArea` looks up. -/
def direction (ac : AreaCombat) (centerPos targetPos : Position) : PathFinding.Direction :=
  let dx := getOffsetX targetPos centerPos
  let dy := getOffsetY targetPos centerPos
  let dir :=
    if dx < 0 then .west else if dx > 0 then .east else if dy < 0 then .north else .south
  if ac.hasExtArea then
    if dx < 0 ∧ dy < 0 then .northwest
    else if dx > 0 ∧ dy < 0 then .northeast
    else if dx < 0 ∧ dy > 0 then .southwest
    else if dx > 0 ∧ dy > 0 then .southeast
    else dir
  else dir

/-- `AreaCombat::getArea`. -/
def getArea (ac : AreaCombat) (centerPos targetPos : Position) : Option MatrixArea :=
  ac.areas (ac.direction centerPos targetPos)

/-- One turn of the inner loop of `getList`: `tmpPos`, and the tiles by their positions. A tile
that is not there is made; it blocks no sight. -/
def getCell (isSightClear : Position → Position → Bool) (area : MatrixArea)
    (targetPos : Position) (y : Nat) (s : Position × List Position) (x : Nat) :
    Position × List Position :=
  ({ s.1 with x := s.1.x + 1 },
    if area.data y x && isSightClear targetPos s.1 then s.1 :: s.2 else s.2)

/-- One turn of the outer loop of `getList`. -/
def getRow (isSightClear : Position → Position → Bool) (area : MatrixArea)
    (targetPos : Position) (s : Position × List Position) (y : Nat) :
    Position × List Position :=
  let s := (List.range area.cols.toNat).foldl (getCell isSightClear area targetPos y) s
  ({ s.1 with x := s.1.x - area.cols.setWidth 16, y := s.1.y + 1 }, s.2)

/-- `AreaCombat::getList`. -/
def getList (isSightClear : Position → Position → Bool) (ac : AreaCombat)
    (centerPos targetPos : Position) : List Position :=
  match ac.getArea centerPos targetPos with
  | none => []
  | some area =>
      let tmpPos : Position :=
        ⟨targetPos.x - area.centerX.setWidth 16, targetPos.y - area.centerY.setWidth 16,
          targetPos.z⟩
      ((List.range area.rows.toNat).foldl (getRow isSightClear area targetPos) (tmpPos, [])).2

end AreaCombat

/-! ## Definitions of areas -/

/-- A rectangular area definition with one centre. -/
structure AreaDefinition where
  list : List (BitVec 32)
  rows : BitVec 32
  cols : BitVec 32
  length_eq : list.length = rows.toNat * cols.toNat
  centerY : Nat
  centerX : Nat
  centerY_lt : centerY < rows.toNat
  centerX_lt : centerX < cols.toNat
  isCenter_iff : ∀ y x, y < rows.toNat → x < cols.toNat →
    (isCenter (list.getD (y * cols.toNat + x) 0) ↔ y = centerY ∧ x = centerX)

namespace AreaDefinition

variable (d : AreaDefinition)

/-- A cell that is defined. -/
def HasCell (y x : Nat) : Prop :=
  y < d.rows.toNat ∧ x < d.cols.toNat ∧ isCell (d.list.getD (y * d.cols.toNat + x) 0)

/-- An offset from the centre that is defined. -/
def HasOffset (q : Int × Int) : Prop :=
  ∃ y x, d.HasCell y x ∧ ((x : Int) - d.centerX, (y : Int) - d.centerY) = q

/-- The longer side. -/
def side : Nat := max d.rows.toNat d.cols.toNat

end AreaDefinition

/-- What a direction does to an offset: the definition faces north, that for the diagonals
north-west. -/
def dirImage : PathFinding.Direction → Int × Int → Int × Int
  | .north, q => q
  | .east, q => (-q.2, q.1)
  | .south, q => (-q.1, -q.2)
  | .west, q => (q.2, -q.1)
  | .northwest, q => q
  | .northeast, q => (-q.1, q.2)
  | .southwest, q => (q.1, -q.2)
  | .southeast, q => (-q.1, -q.2)

theorem dirImage_surjective (dir : PathFinding.Direction) : (dirImage dir).Surjective := by
  rintro ⟨x, y⟩
  cases dir
  case north => exact ⟨(x, y), rfl⟩
  case east => exact ⟨(y, -x), by simp [dirImage]⟩
  case south => exact ⟨(-x, -y), by simp [dirImage]⟩
  case west => exact ⟨(-y, x), by simp [dirImage]⟩
  case northwest => exact ⟨(x, y), rfl⟩
  case northeast => exact ⟨(-x, y), by simp [dirImage]⟩
  case southwest => exact ⟨(x, -y), by simp [dirImage]⟩
  case southeast => exact ⟨(-x, -y), by simp [dirImage]⟩

/-- The position at an offset. -/
def shiftPosition (p : Position) (q : Int × Int) : Position :=
  ⟨p.x + BitVec.ofInt 16 q.1, p.y + BitVec.ofInt 16 q.2, p.z⟩

/-- Every matrix is the image of the definition about the caster, with the centre inside, and
what is hit from a place is the image for its direction, as far as there is sight. -/
structure ShapeKept (d : AreaDefinition) (ac : AreaCombat) : Prop where
  matrix : ∀ dir m, ac.areas dir = some m →
    m.CenterInside ∧ ∀ q, m.HasOffset (dirImage dir q) ↔ d.HasOffset q
  getList : ∀ isSightClear centerPos targetPos p,
    p ∈ ac.getList isSightClear centerPos targetPos ↔
      isSightClear targetPos p = true ∧
        ∃ q, d.HasOffset q ∧
          shiftPosition targetPos (dirImage (ac.direction centerPos targetPos) q) = p

/-- A definition keeps its shape, in the four directions and in all eight: nothing is written
outside a matrix, and the shape is kept. -/
def AreaDefinition.KeepsShape (d : AreaDefinition) : Prop :=
  ∃ plain ext both, AreaCombat.setupArea {} d.list d.rows = some plain ∧
    AreaCombat.setupExtArea {} d.list d.rows = some ext ∧
    ext.setupArea d.list d.rows = some both ∧ ShapeKept d plain ∧ ShapeKept d both

/-! ## The definition as a matrix -/

namespace AreaDefinition

variable (d : AreaDefinition)

/-- The matrix after so many values of the definition. -/
structure Filled (n : Nat) (area : MatrixArea) : Prop where
  rows : area.rows = d.rows
  cols : area.cols = d.cols
  data : ∀ y x, x < d.cols.toNat →
    (area.data y x = true ↔ y * d.cols.toNat + x < n ∧ isCell (d.list.getD (y * d.cols.toNat + x) 0))
  center : d.centerY * d.cols.toNat + d.centerX < n →
    area.centerY.toNat = d.centerY ∧ area.centerX.toNat = d.centerX

variable {d}

/-- A place is known by its number. -/
theorem place_injective {cols y x y' x' : Nat} (hx : x < cols) (hx' : x' < cols)
    (h : y * cols + x = y' * cols + x') : y = y' ∧ x = x' := by
  have hdiv : ∀ {y x : Nat}, x < cols → (y * cols + x) / cols = y := by
    intro y x hx
    rw [Nat.mul_comm, Nat.mul_add_div (by omega), Nat.div_eq_of_lt hx, Nat.add_zero]
  have hy : y = y' := by
    rw [← hdiv (y := y) hx, h, hdiv hx']
  subst hy
  exact ⟨rfl, by omega⟩

theorem place_lt {rows cols y x : Nat} (h : y * cols + x < rows * cols) :
    y < rows := by
  by_contra hy
  have := Nat.mul_le_mul_right cols (Nat.le_of_not_lt hy)
  omega

theorem place_mem {rows cols y x : Nat} (hy : y < rows) (hx : x < cols) :
    y * cols + x < rows * cols := by
  have := Nat.mul_le_mul_right cols (Nat.succ_le_of_lt hy)
  rw [Nat.succ_mul] at this
  omega

/-- One value of the definition. -/
theorem Filled.step {n : Nat} {area : MatrixArea} (hfilled : d.Filled n area)
    {x y : BitVec 32} (hplace : y.toNat * d.cols.toNat + x.toNat = n) (hx : x.toNat < d.cols.toNat)
    (hn : n < d.list.length) :
    ∃ area', (if isCell (d.list.getD n 0) then area.writeAll [⟨y.toNat, x.toNat, true⟩]
        else some area) = some area' ∧
      d.Filled (n + 1) (if isCenter (d.list.getD n 0) then area'.setCenter y x else area') := by
  subst hplace
  have hy : y.toNat < d.rows.toNat := place_lt (d.length_eq ▸ hn)
  have hinside : (⟨y.toNat, x.toNat, true⟩ : Write Bool).Inside area.rows.toNat
      area.cols.toNat := by
    rw [hfilled.rows, hfilled.cols]
    exact ⟨hy, hx⟩
  have hcenter := d.isCenter_iff y.toNat x.toNat hy hx
  -- the value is written or not; rows, columns and centre are as they were
  obtain ⟨data, hwrite, hdata⟩ : ∃ data,
      (if isCell (d.list.getD (y.toNat * d.cols.toNat + x.toNat) 0) then
        area.writeAll [⟨y.toNat, x.toNat, true⟩] else some area) = some { area with data } ∧
      ∀ r c, c < d.cols.toNat → (data r c = true ↔
        r * d.cols.toNat + c < y.toNat * d.cols.toNat + x.toNat + 1 ∧
          isCell (d.list.getD (r * d.cols.toNat + c) 0)) := by
    split
    · next hcell =>
      refine ⟨_, MatrixArea.writeAll_singleton hinside, fun r c hc => ?_⟩
      simp only [Write.apply]
      split
      · next h =>
        rw [h.1, h.2]
        exact ⟨fun _ => ⟨Nat.lt_succ_self _, hcell⟩, fun _ => rfl⟩
      · next h =>
        rw [hfilled.data r c hc]
        refine and_congr_left fun _ => ?_
        have hne : r * d.cols.toNat + c ≠ y.toNat * d.cols.toNat + x.toNat :=
          fun heq => h (place_injective hc hx heq)
        omega
    · next hcell =>
      refine ⟨area.data, rfl, fun r c hc => ?_⟩
      rw [hfilled.data r c hc]
      refine and_congr_left fun hset => ?_
      have hne : r * d.cols.toNat + c ≠ y.toNat * d.cols.toNat + x.toNat :=
        fun heq => hcell (heq ▸ hset)
      omega
  refine ⟨_, hwrite, ?_⟩
  by_cases hc : isCenter (d.list.getD (y.toNat * d.cols.toNat + x.toNat) 0)
  · rw [if_pos hc]
    exact ⟨hfilled.rows, hfilled.cols, hdata, fun _ => hcenter.mp hc⟩
  · rw [if_neg hc]
    refine ⟨hfilled.rows, hfilled.cols, hdata, fun hlt => hfilled.center ?_⟩
    have hne : d.centerY * d.cols.toNat + d.centerX ≠ y.toNat * d.cols.toNat + x.toNat := by
      intro heq
      obtain ⟨hy', hx'⟩ := place_injective d.centerX_lt hx heq
      exact hc (hcenter.mpr ⟨hy'.symm, hx'.symm⟩)
    omega

/-- The loop of `createArea` goes through the definition row by row. -/
theorem createLoop_filled (list : List (BitVec 32)) {n : Nat} (hlist : d.list.drop n = list)
    {area : MatrixArea} (hfilled : d.Filled n area) {x y : BitVec 32}
    (hplace : y.toNat * d.cols.toNat + x.toNat = n) (hx : x.toNat < d.cols.toNat) :
    ∃ area', createLoop d.cols list x y area = some area' ∧ d.Filled d.list.length area' := by
  induction list generalizing n area x y with
  | nil =>
      have hle : d.list.length ≤ n := List.drop_eq_nil_iff.mp hlist
      refine ⟨area, rfl, hfilled.rows, hfilled.cols, fun r c hc => ?_, fun hlt =>
        hfilled.center (by omega)⟩
      rw [hfilled.data r c hc]
      refine and_congr_left fun hset => ?_
      -- beyond the list there is no cell
      have hlt : r * d.cols.toNat + c < d.list.length := by
        by_contra hout
        rw [List.getD_eq_getElem?_getD, List.getElem?_eq_none (Nat.le_of_not_lt hout)] at hset
        simp [isCell] at hset
      omega
  | cons value list ih =>
      have hn : n < d.list.length := by
        by_contra hle
        rw [List.drop_eq_nil_of_le (by omega)] at hlist
        cases hlist
      rw [List.drop_eq_getElem_cons hn] at hlist
      obtain ⟨hvalue, hrest⟩ := List.cons.inj hlist
      have hget : d.list.getD n 0 = value := by
        rw [List.getD_eq_getElem?_getD, List.getElem?_eq_getElem hn, Option.getD_some, hvalue]
      obtain ⟨area', hwrite, hstep⟩ := hfilled.step hplace hx hn
      rw [hget] at hwrite hstep
      have hy : y.toNat < d.rows.toNat := place_lt (hplace ▸ d.length_eq ▸ hn)
      rw [createLoop]
      simp only [hwrite, Option.bind_some]
      have hnext : (x + 1).toNat = x.toNat + 1 := by bv_omega
      split
      · next hend =>
        rw [hend] at hplace
        refine ih hrest hstep ?_ (by simp; bv_omega)
        have hrow : (y + 1).toNat = y.toNat + 1 := by bv_omega
        have hcols : d.cols.toNat = x.toNat + 1 := by rw [hend, hnext]
        rw [hrow, Nat.succ_mul, ← hplace, hcols, hnext]
        simp
        omega
      · next hend =>
        refine ih hrest hstep ?_ ?_
        · omega
        · bv_omega

variable (d)

/-- The definition as a matrix. -/
structure Created (area : MatrixArea) : Prop where
  rows : area.rows = d.rows
  cols : area.cols = d.cols
  centerY : area.centerY.toNat = d.centerY
  centerX : area.centerX.toNat = d.centerX
  hasOffset : ∀ q, area.HasOffset q ↔ d.HasOffset q

theorem createArea_created : ∃ area, createArea d.list d.rows = some area ∧ d.Created area := by
  have hcols : BitVec.ofNat 32 (d.list.length / d.rows.toNat) = d.cols := by
    have hpos : 0 < d.rows.toNat := by
      have := d.centerY_lt
      omega
    rw [d.length_eq, Nat.mul_div_cancel_left _ hpos, BitVec.ofNat_toNat, BitVec.setWidth_eq]
  have hrows : d.rows ≠ 0 := by
    have := d.centerY_lt
    bv_omega
  have hx : 0 < d.cols.toNat := by
    have := d.centerX_lt
    omega
  have hblank : d.Filled 0 (.new d.rows d.cols) := by
    refine ⟨rfl, rfl, ?_, ?_⟩ <;> simp
  obtain ⟨area, hloop, hfilled⟩ := createLoop_filled d.list (by simp) hblank (x := 0) (y := 0)
    (by simp) (by simpa using hx)
  obtain ⟨hy, hx⟩ := hfilled.center (d.length_eq ▸ place_mem d.centerY_lt d.centerX_lt)
  refine ⟨area, ?_, hfilled.rows, hfilled.cols, hy, hx, fun q => ?_⟩
  · rw [createArea, if_neg hrows, hcols]
    exact hloop
  · refine exists_congr fun r => exists_congr fun c => ?_
    rw [MatrixArea.offset, hy, hx]
    refine and_congr_left fun _ => ?_
    rw [MatrixArea.HasCell, HasCell, hfilled.rows, hfilled.cols]
    refine and_congr_right fun hr => and_congr_right fun hc => ?_
    rw [hfilled.data r c hc]
    exact and_iff_right (d.length_eq ▸ place_mem hr hc)

end AreaDefinition

/-! ## The list of a matrix -/

section

variable (isSightClear : Position → Position → Bool) (area : MatrixArea) (targetPos : Position)

/-- A row from its left end on. -/
theorem getCell_foldl (y n : Nat) (s : Position × List Position) :
    ((List.range n).foldl (AreaCombat.getCell isSightClear area targetPos y) s).1 =
        { s.1 with x := s.1.x + BitVec.ofNat 16 n } ∧
      ∀ p, p ∈ ((List.range n).foldl (AreaCombat.getCell isSightClear area targetPos y) s).2 ↔
        p ∈ s.2 ∨ ∃ x < n, area.data y x = true ∧ isSightClear targetPos p = true ∧
          { s.1 with x := s.1.x + BitVec.ofNat 16 x } = p := by
  induction n with
  | zero => simp
  | succ n ih =>
      rw [List.range_succ, List.foldl_append]
      obtain ⟨hpos, hmem⟩ := ih
      simp only [List.foldl_cons, List.foldl_nil, AreaCombat.getCell, hpos]
      refine ⟨?_, fun p => ?_⟩
      · rw [BitVec.add_assoc, BitVec.ofNat_add]
        rfl
      · have hsplit : (∃ x < n + 1, area.data y x = true ∧ isSightClear targetPos p = true ∧
            { s.1 with x := s.1.x + BitVec.ofNat 16 x } = p) ↔
            (∃ x < n, area.data y x = true ∧ isSightClear targetPos p = true ∧
              { s.1 with x := s.1.x + BitVec.ofNat 16 x } = p) ∨
            (area.data y n = true ∧ isSightClear targetPos p = true ∧
              { s.1 with x := s.1.x + BitVec.ofNat 16 n } = p) := by
          simp only [Nat.lt_succ_iff_lt_or_eq]
          constructor
          · rintro ⟨x, hx | rfl, h⟩
            · exact .inl ⟨x, hx, h⟩
            · exact .inr h
          · rintro (⟨x, hx, h⟩ | h)
            · exact ⟨x, .inl hx, h⟩
            · exact ⟨n, .inr rfl, h⟩
        rw [hsplit, ← or_assoc, ← hmem p]
        split
        · next hset =>
          rw [Bool.and_eq_true] at hset
          rw [List.mem_cons, or_comm]
          refine or_congr_right ⟨?_, fun h => h.2.2.symm⟩
          rintro rfl
          exact ⟨hset.1, hset.2, rfl⟩
        · next hset =>
          refine (or_iff_left ?_).symm
          rintro ⟨hdata, hsight, rfl⟩
          rw [hdata, hsight] at hset
          exact hset rfl

/-- The rows from the upper one on. -/
theorem getRow_foldl (n : Nat) (s : Position × List Position) :
    ((List.range n).foldl (AreaCombat.getRow isSightClear area targetPos) s).1 =
        { s.1 with y := s.1.y + BitVec.ofNat 16 n } ∧
      ∀ p, p ∈ ((List.range n).foldl (AreaCombat.getRow isSightClear area targetPos) s).2 ↔
        p ∈ s.2 ∨ isSightClear targetPos p = true ∧
          ∃ y x, (y < n ∧ x < area.cols.toNat ∧ area.data y x = true) ∧
            ⟨s.1.x + BitVec.ofNat 16 x, s.1.y + BitVec.ofNat 16 y, s.1.z⟩ = p := by
  induction n with
  | zero => simp
  | succ n ih =>
      rw [List.range_succ, List.foldl_append]
      obtain ⟨hpos, hmem⟩ := ih
      obtain ⟨hend, hrow⟩ := getCell_foldl isSightClear area targetPos n area.cols.toNat
        ((List.range n).foldl (AreaCombat.getRow isSightClear area targetPos) s)
      simp only [List.foldl_cons, List.foldl_nil, AreaCombat.getRow, hend, hpos]
      refine ⟨?_, fun p => ?_⟩
      · rw [BitVec.ofNat_toNat, BitVec.add_sub_cancel, BitVec.add_assoc, BitVec.ofNat_add]
        rfl
      · rw [hrow p, hmem p, hpos, or_assoc]
        refine or_congr_right ⟨?_, ?_⟩
        · rintro (⟨hsight, y, x, ⟨hy, hcell⟩, hp⟩ | ⟨x, hx, hdata, hsight, hp⟩)
          · exact ⟨hsight, y, x, ⟨by omega, hcell⟩, hp⟩
          · exact ⟨hsight, n, x, ⟨by omega, hx, hdata⟩, hp⟩
        · rintro ⟨hsight, y, x, ⟨hy, hx, hdata⟩, hp⟩
          rcases Nat.lt_succ_iff_lt_or_eq.mp hy with hy | rfl
          · exact .inl ⟨hsight, y, x, ⟨hy, hx, hdata⟩, hp⟩
          · exact .inr ⟨x, hx, hdata, hsight, hp⟩

/-- A place of a matrix, seen from the target. -/
theorem shiftPosition_offset (y x : Nat) :
    shiftPosition targetPos (area.offset y x) =
      ⟨targetPos.x - area.centerX.setWidth 16 + BitVec.ofNat 16 x,
        targetPos.y - area.centerY.setWidth 16 + BitVec.ofNat 16 y, targetPos.z⟩ := by
  have hshift : ∀ (t : BitVec 16) (c : BitVec 32) (n : Nat),
      t + BitVec.ofInt 16 ((n : Int) - c.toNat) = t - c.setWidth 16 + BitVec.ofNat 16 n := by
    intro t c n
    rw [Int.sub_eq_add_neg, BitVec.ofInt_add, BitVec.ofInt_neg, BitVec.ofInt_natCast,
      BitVec.ofInt_natCast, BitVec.ofNat_toNat]
    bv_omega
  simp only [shiftPosition, MatrixArea.offset, hshift]

/-- What is hit from a place: the offsets of the matrix that is looked up. -/
theorem mem_getList {ac : AreaCombat} {centerPos : Position}
    (harea : ac.getArea centerPos targetPos = some area) (p : Position) :
    p ∈ ac.getList isSightClear centerPos targetPos ↔
      isSightClear targetPos p = true ∧
        ∃ q, area.HasOffset q ∧ shiftPosition targetPos q = p := by
  simp only [AreaCombat.getList, harea]
  rw [(getRow_foldl isSightClear area targetPos area.rows.toNat _).2 p]
  simp only [List.not_mem_nil, false_or]
  refine and_congr_right fun _ => ⟨?_, ?_⟩
  · rintro ⟨y, x, hcell, hp⟩
    exact ⟨_, ⟨y, x, hcell, rfl⟩, by rw [shiftPosition_offset, hp]⟩
  · rintro ⟨_, ⟨y, x, hcell, rfl⟩, hp⟩
    exact ⟨y, x, hcell, by rw [← hp, shiftPosition_offset]⟩

end

/-- Where the matrices are right, so is what is hit. -/
theorem ShapeKept.of_matrix {d : AreaDefinition} {ac : AreaCombat}
    (hmatrix : ∀ dir m, ac.areas dir = some m →
      m.CenterInside ∧ ∀ q, m.HasOffset (dirImage dir q) ↔ d.HasOffset q)
    (hall : ∀ centerPos targetPos, (ac.getArea centerPos targetPos).isSome) : ShapeKept d ac := by
  refine ⟨hmatrix, fun isSightClear centerPos targetPos p => ?_⟩
  obtain ⟨m, hm⟩ := Option.isSome_iff_exists.mp (hall centerPos targetPos)
  have hexact := (hmatrix _ m hm).2
  rw [mem_getList isSightClear m targetPos hm]
  refine and_congr_right fun _ => ⟨?_, ?_⟩
  · rintro ⟨q, hq, hp⟩
    obtain ⟨q, rfl⟩ := dirImage_surjective (ac.direction centerPos targetPos) q
    exact ⟨q, (hexact q).mp hq, hp⟩
  · rintro ⟨q, hq, hp⟩
    exact ⟨_, (hexact q).mpr hq, hp⟩

/-! ## The four directions -/

/-- The matrix is right for the direction. -/
def MatrixRight (d : AreaDefinition) (dir : PathFinding.Direction) (m : MatrixArea) : Prop :=
  m.CenterInside ∧ ∀ q, m.HasOffset (dirImage dir q) ↔ d.HasOffset q

def isDiagonal : PathFinding.Direction → Bool
  | .southwest | .southeast | .northwest | .northeast => true
  | _ => false

variable {d : AreaDefinition}

theorem AreaDefinition.Created.centerInside {area : MatrixArea} (h : d.Created area) :
    area.CenterInside := by
  refine ⟨?_, ?_⟩
  · rw [h.centerY, h.rows]
    exact d.centerY_lt
  · rw [h.centerX, h.cols]
    exact d.centerX_lt

theorem AreaDefinition.Created.toNat_longer {area : MatrixArea} (h : d.Created area) :
    (AreaCombat.longer area).toNat = d.side := by
  rw [AreaCombat.longer, h.rows, h.cols, AreaDefinition.side]
  split <;> bv_omega

theorem AreaDefinition.Created.north {area : MatrixArea} (h : d.Created area) :
    MatrixRight d .north area ∧ MatrixRight d .northwest area :=
  ⟨⟨h.centerInside, h.hasOffset⟩, ⟨h.centerInside, h.hasOffset⟩⟩

/-- The rotations are right. -/
theorem AreaDefinition.Created.rotated {area : MatrixArea} (h : d.Created area)
    (hside : d.side < 2 ^ 31) {op : MatrixOperation} (hop : op.isRotation = true)
    {dir : PathFinding.Direction} (hdir : op.rotate = dirImage dir) :
    ∃ out, copyArea area (.new (AreaCombat.longer area * 2) (AreaCombat.longer area * 2)) op =
      some out ∧ MatrixRight d dir out := by
  have hlonger := h.toNat_longer
  have hn : (AreaCombat.longer area * 2).toNat = 2 * d.side := by bv_omega
  obtain ⟨out, hcopy, hinside, hoffset⟩ := copyArea_rotate_hasOffset hop hn
    (by rw [h.rows]; exact Nat.le_max_left ..) (by rw [h.cols]; exact Nat.le_max_right ..)
    h.centerInside
  refine ⟨out, hcopy, hinside, fun q => ?_⟩
  rw [← hdir, hoffset, h.hasOffset]

theorem rotate_eq_dirImage :
    MatrixOperation.rotate90.rotate = dirImage .east ∧
      MatrixOperation.rotate180.rotate = dirImage .south ∧
      MatrixOperation.rotate270.rotate = dirImage .west := by
  refine ⟨?_, ?_, ?_⟩ <;> funext q <;>
    simp [MatrixOperation.rotate, MatrixOperation.angle, MatrixOperation.cos,
      MatrixOperation.sin, dirImage]

/-- The four directions of a definition are right, and the diagonals stay as they are. -/
theorem setupArea_right (hside : d.side < 2 ^ 31) (ac : AreaCombat) :
    ∃ ac', ac.setupArea d.list d.rows = some ac' ∧ ac'.hasExtArea = ac.hasExtArea ∧
      (∀ dir, isDiagonal dir = false → ∃ m, ac'.areas dir = some m ∧ MatrixRight d dir m) ∧
      ∀ dir, isDiagonal dir = true → ac'.areas dir = ac.areas dir := by
  obtain ⟨area, hcreate, h⟩ := d.createArea_created
  obtain ⟨south, hsouth, hsouthRight⟩ := h.rotated hside rfl rotate_eq_dirImage.2.1
  obtain ⟨east, heast, heastRight⟩ := h.rotated hside rfl rotate_eq_dirImage.1
  obtain ⟨west, hwest, hwestRight⟩ := h.rotated hside rfl rotate_eq_dirImage.2.2
  have hsetup : ac.setupArea d.list d.rows = some (ac.setAreas area south east west) := by
    simp only [AreaCombat.setupArea, hcreate, hsouth, heast, hwest, Option.bind_eq_bind,
      Option.bind_some, Option.pure_def]
  refine ⟨_, hsetup, rfl, ?_, ?_⟩
  · intro dir hdir
    cases dir with
    | north => exact ⟨area, rfl, h.north.1⟩
    | east => exact ⟨east, rfl, heastRight⟩
    | south => exact ⟨south, rfl, hsouthRight⟩
    | west => exact ⟨west, rfl, hwestRight⟩
    | southwest | southeast | northwest | northeast => cases hdir
  · intro dir hdir
    cases dir with
    | north | east | south | west => cases hdir
    | southwest | southeast | northwest | northeast => rfl

/-- A definition with a side of 2^31 is written outside. -/
theorem setupArea_outside (hside : 2 ^ 31 ≤ d.side) (ac : AreaCombat) :
    ac.setupArea d.list d.rows = none := by
  obtain ⟨area, hcreate, h⟩ := d.createArea_created
  have hmax : area.rows = AreaCombat.longer area ∨ area.cols = AreaCombat.longer area := by
    rw [AreaCombat.longer]
    split
    · exact .inl rfl
    · exact .inr rfl
  have hnone := copyArea_rotate180_outside (h.toNat_longer ▸ hside) hmax h.centerInside
  simp only [AreaCombat.setupArea, hcreate, hnone, Option.bind_eq_bind, Option.bind_some,
    Option.bind_none]

/-! ## The diagonals -/

/-- The mirror and the flip of a definition. -/
structure Mirrored (d : AreaDefinition) (area ne sw : MatrixArea) : Prop where
  created : d.Created area
  ne_size : ne.rows = AreaCombat.longer area * 2 ∧ ne.cols = AreaCombat.longer area * 2
  ne_center : ne.centerY = area.centerY ∧ ne.centerX = area.rows - 1 - area.centerX
  ne_offset : ∀ q, ne.HasOffset (mirrorOffset q + mirrorError area) ↔ area.HasOffset q
  sw_size : sw.rows = AreaCombat.longer area * 2 ∧ sw.cols = AreaCombat.longer area * 2
  sw_center : sw.centerY = area.cols - 1 - area.centerY ∧ sw.centerX = area.centerX
  sw_offset : ∀ q, sw.HasOffset (flipOffset q + flipError area) ↔ area.HasOffset q

/-- What `setupExtArea` makes of a definition, but for the mirror of the flip. -/
theorem setupExtArea_eq (hside : d.side < 2 ^ 31) (ac : AreaCombat) :
    ∃ area ne sw, Mirrored d area ne sw ∧ ac.setupExtArea d.list d.rows =
      (copyArea sw (.new (AreaCombat.longer area * 2) (AreaCombat.longer area * 2)) .mirror).map
        (ac.setExtAreas area ne sw) := by
  obtain ⟨area, hcreate, h⟩ := d.createArea_created
  have hlonger := h.toNat_longer
  have hn : (AreaCombat.longer area * 2).toNat = 2 * d.side := by bv_omega
  have hrows : area.rows.toNat ≤ d.side := by
    rw [h.rows]
    exact Nat.le_max_left ..
  have hcols : area.cols.toNat ≤ d.side := by
    rw [h.cols]
    exact Nat.le_max_right ..
  have hr : area.rows.toNat ≤ (AreaCombat.longer area * 2).toNat := by omega
  have hc : area.cols.toNat ≤ (AreaCombat.longer area * 2).toNat := by omega
  obtain ⟨ne, hne, hner, hnec, hney, hnex, hneoffset⟩ :=
    copyArea_mirror_hasOffset (Nat.lt_of_le_of_lt hcols hside) hr hc
  obtain ⟨sw, hsw, hswr, hswc, hswy, hswx, hswoffset⟩ :=
    copyArea_flip_hasOffset (Nat.lt_of_le_of_lt hrows hside) hr hc
  have hnonempty : d.list.isEmpty = false := by
    have hpos := AreaDefinition.place_mem d.centerY_lt d.centerX_lt
    rw [← d.length_eq] at hpos
    cases hlist : d.list with
    | nil => simp [hlist] at hpos
    | cons _ _ => rfl
  refine ⟨area, ne, sw, ⟨h, ⟨hner, hnec⟩, ⟨hney, hnex⟩, hneoffset, ⟨hswr, hswc⟩, ⟨hswy, hswx⟩,
    hswoffset⟩, ?_⟩
  simp only [AreaCombat.setupExtArea, hnonempty, Bool.false_eq_true, if_false, hcreate, hne, hsw,
    Option.bind_eq_bind, Option.bind_some, Option.pure_def]
  cases copyArea sw _ .mirror <;> rfl

section

variable {area ne sw : MatrixArea} (h : Mirrored d area ne sw)

include h

/-- The mirror has the cells of the definition, as many columns aside as its centre is wrong. -/
theorem Mirrored.ne_shifted (q : Int × Int) :
    ne.HasOffset (mirrorOffset q) ↔ d.HasOffset (q + mirrorError area) := by
  have hq : mirrorOffset q = mirrorOffset (q + mirrorError area) + mirrorError area := by
    apply Prod.ext
    · show -q.1 = -(q.1 + (mirrorError area).1) + (mirrorError area).1
      omega
    · show q.2 = q.2 + 0 + 0
      omega
  rw [hq, h.ne_offset, h.created.hasOffset]

theorem Mirrored.sw_shifted (q : Int × Int) :
    sw.HasOffset (flipOffset q) ↔ d.HasOffset (q + flipError area) := by
  have hq : flipOffset q = flipOffset (q + flipError area) + flipError area := by
    apply Prod.ext
    · show q.1 = q.1 + 0 + 0
      omega
    · show -q.2 = -(q.2 + (flipError area).2) + (flipError area).2
      omega
  rw [hq, h.sw_offset, h.created.hasOffset]

theorem Mirrored.error_eq_zero_iff :
    (mirrorError area = 0 ↔ d.rows = d.cols) ∧ (flipError area = 0 ↔ d.rows = d.cols) := by
  obtain ⟨hcy, hcx⟩ := h.created.centerInside
  simp only [mirrorError, flipError, Prod.ext_iff, Prod.fst_zero, Prod.snd_zero, and_true, true_and,
    ← h.created.rows, ← h.created.cols]
  constructor <;> bv_omega

end

/-- The definition lies as before after a shift only if it is not shifted, or empty. -/
theorem hasOffset_shift_iff {area ne sw : MatrixArea} (h : Mirrored d area ne sw)
    {e : Int × Int} : (∀ q, d.HasOffset (q + e) ↔ d.HasOffset q) ↔
      ((∃ q, d.HasOffset q) → e = 0) := by
  constructor
  · rintro hshift ⟨q, hq⟩
    refine eq_zero_of_shift (S := d.HasOffset) (b := 2 ^ 32) (fun q hq => ?_)
      (fun q hq => (hshift q).mpr hq) hq
    exact ((h.created.hasOffset q).mpr hq).bound
  · intro hzero q
    by_cases hsome : ∃ q, d.HasOffset q
    · rw [hzero hsome, add_zero]
    · exact iff_of_false (fun hq => hsome ⟨_, hq⟩) (fun hq => hsome ⟨_, hq⟩)

/-- What a definition must be for its mirror images to be right. -/
structure AreaDefinition.Keepable (d : AreaDefinition) : Prop where
  side_lt : d.side < 2 ^ 31
  side_ne : d.side ≠ 2 ^ 30
  centerX : (d.rows - 1 - BitVec.ofNat 32 d.centerX).toNat < 2 * d.side
  centerY : (d.cols - 1 - BitVec.ofNat 32 d.centerY).toNat < 2 * d.side
  square : (∃ q, d.HasOffset q) → d.rows = d.cols ∧ d.side < 2 ^ 30

section

variable {area ne sw : MatrixArea} (h : Mirrored d area ne sw) (hside : d.side < 2 ^ 31)

include h hside

theorem Mirrored.toNat_size : (AreaCombat.longer area * 2).toNat = 2 * d.side := by
  have := h.created.toNat_longer
  bv_omega

theorem Mirrored.ne_right_iff :
    MatrixRight d .northeast ne ↔
      (d.rows - 1 - BitVec.ofNat 32 d.centerX).toNat < 2 * d.side ∧
        ((∃ q, d.HasOffset q) → d.rows = d.cols) := by
  have hsize := h.toNat_size hside
  have hcx : area.centerX = BitVec.ofNat 32 d.centerX := by
    rw [← h.created.centerX, BitVec.ofNat_toNat, BitVec.setWidth_eq]
  have hcy := d.centerY_lt
  have hrows : d.rows.toNat ≤ d.side := Nat.le_max_left ..
  rw [MatrixRight, MatrixArea.CenterInside, h.ne_size.1, h.ne_size.2, h.ne_center.1,
    h.ne_center.2, hsize, h.created.rows, h.created.centerY, hcx]
  refine and_congr ⟨fun hin => hin.2, fun hin => ⟨by omega, hin⟩⟩ ?_
  rw [← h.error_eq_zero_iff.1, ← hasOffset_shift_iff h]
  exact forall_congr' fun q => by rw [← h.ne_shifted]; rfl

theorem Mirrored.sw_right_iff :
    MatrixRight d .southwest sw ↔
      (d.cols - 1 - BitVec.ofNat 32 d.centerY).toNat < 2 * d.side ∧
        ((∃ q, d.HasOffset q) → d.rows = d.cols) := by
  have hsize := h.toNat_size hside
  have hcy : area.centerY = BitVec.ofNat 32 d.centerY := by
    rw [← h.created.centerY, BitVec.ofNat_toNat, BitVec.setWidth_eq]
  have hcx := d.centerX_lt
  have hcols : d.cols.toNat ≤ d.side := Nat.le_max_right ..
  rw [MatrixRight, MatrixArea.CenterInside, h.sw_size.1, h.sw_size.2, h.sw_center.1,
    h.sw_center.2, hsize, h.created.cols, h.created.centerX, hcy]
  refine and_congr ⟨fun hin => hin.1, fun hin => ⟨hin, by omega⟩⟩ ?_
  rw [← h.error_eq_zero_iff.2, ← hasOffset_shift_iff h]
  exact forall_congr' fun q => by rw [← h.sw_shifted]; rfl

/-- The mirror of the flip is right where the flip is, unless it has too many columns for the
loop of the mirror. -/
theorem Mirrored.se_right_iff (hne : d.side ≠ 2 ^ 30) :
    ∃ se, copyArea sw (.new (AreaCombat.longer area * 2) (AreaCombat.longer area * 2)) .mirror =
        some se ∧
      (MatrixRight d .southeast se ↔
        (d.cols - 1 - BitVec.ofNat 32 d.centerY).toNat < 2 * d.side ∧
          ((∃ q, d.HasOffset q) → d.rows = d.cols ∧ d.side < 2 ^ 30)) := by
  have hsize := h.toNat_size hside
  have hcy : area.centerY = BitVec.ofNat 32 d.centerY := by
    rw [← h.created.centerY, BitVec.ofNat_toNat, BitVec.setWidth_eq]
  have hcx : area.centerX.toNat < d.side := by
    rw [h.created.centerX]
    exact Nat.lt_of_lt_of_le d.centerX_lt (Nat.le_max_right ..)
  have hinside : (sw.rows - 1 - sw.centerX).toNat = 2 * d.side - 1 - area.centerX.toNat := by
    rw [h.sw_size.1, h.sw_center.2]
    bv_omega
  rcases Nat.lt_or_gt_of_ne hne with hlt | hgt
  · have hcols : sw.cols.toNat < 2 ^ 31 := by
      rw [h.sw_size.2, hsize]
      omega
    obtain ⟨se, hcopy, hr, hc, hy, hx, hoffset⟩ := copyArea_mirror_hasOffset hcols
      (Nat.le_of_eq (congrArg BitVec.toNat h.sw_size.1))
      (Nat.le_of_eq (congrArg BitVec.toNat h.sw_size.2))
    have hexact : mirrorError sw = 0 := by
      apply Prod.ext
      · show (sw.cols.toNat : Int) - 1 - sw.centerX.toNat - (sw.rows - 1 - sw.centerX).toNat = 0
        rw [hinside, h.sw_size.2, hsize, h.sw_center.2]
        omega
      · rfl
    refine ⟨se, hcopy, ?_⟩
    rw [MatrixRight, MatrixArea.CenterInside, hr, hc, hy, hx, hinside, hsize, h.sw_center.1,
      h.created.cols, hcy]
    refine and_congr ⟨fun hin => hin.1, fun hin => ⟨hin, by omega⟩⟩ ?_
    have hse : ∀ q, se.HasOffset (dirImage .southeast q) ↔ d.HasOffset (q + flipError area) := by
      intro q
      have hq := hoffset (flipOffset q)
      rw [hexact, add_zero] at hq
      exact hq.trans (h.sw_shifted q)
    simp only [hse]
    rw [hasOffset_shift_iff h, h.error_eq_zero_iff.2]
    exact imp_congr_right fun _ => (and_iff_left hlt).symm
  · have hcols : 2 ^ 31 < sw.cols.toNat := by
      rw [h.sw_size.2, hsize]
      omega
    refine ⟨_, copyArea_mirror_of_gt hcols, ?_⟩
    rw [MatrixRight, MatrixArea.CenterInside]
    simp only [h.sw_center.1, hinside, hsize, h.created.cols, hcy]
    refine and_congr ⟨fun hin => hin.1, fun hin => ⟨hin, by omega⟩⟩ ?_
    constructor
    · rintro hnone ⟨q, hq⟩
      obtain ⟨y, x, ⟨-, -, hset⟩, -⟩ := (hnone q).mpr hq
      cases hset
    · intro hempty q
      refine iff_of_false ?_ fun hq => absurd (hempty ⟨q, hq⟩).2 (by omega)
      rintro ⟨y, x, ⟨-, -, hset⟩, -⟩
      cases hset

end

theorem getArea_isSome {ac : AreaCombat}
    (hcardinal : ∀ dir, isDiagonal dir = false → (ac.areas dir).isSome)
    (hdiagonal : ac.hasExtArea = true → ∀ dir, isDiagonal dir = true → (ac.areas dir).isSome)
    (centerPos targetPos : Position) : (ac.getArea centerPos targetPos).isSome := by
  rw [AreaCombat.getArea]
  cases hdir : isDiagonal (ac.direction centerPos targetPos) with
  | false => exact hcardinal _ hdir
  | true =>
      refine hdiagonal ?_ _ hdir
      by_contra hno
      rw [AreaCombat.direction, if_neg hno] at hdir
      split at hdir
      · cases hdir
      · split at hdir
        · cases hdir
        · split at hdir <;> cases hdir

theorem AreaDefinition.KeepsShape.keepable (hkeep : d.KeepsShape) : d.Keepable := by
  obtain ⟨plain, ext, both, hplain, hext, hboth, -, hshape⟩ := hkeep
  have hside : d.side < 2 ^ 31 := by
    by_contra hlarge
    rw [setupArea_outside (Nat.le_of_not_lt hlarge)] at hplain
    cases hplain
  obtain ⟨area, ne, sw, h, hsetup⟩ := setupExtArea_eq hside {}
  have hne : d.side ≠ 2 ^ 30 := by
    intro heq
    have hcols : sw.cols.toNat = 2 ^ 31 := by
      rw [h.sw_size.2, h.toNat_size hside, heq]
      rfl
    rw [hsetup, copyArea_mirror_of_eq _ hcols] at hext
    cases hext
  obtain ⟨se, hse, hseRight⟩ := h.se_right_iff hside hne
  rw [hsetup, hse] at hext
  cases hext
  obtain ⟨ac, hac, -, -, hdiagonal⟩ := setupArea_right hside
    (AreaCombat.setExtAreas {} area ne sw se)
  rw [hac] at hboth
  cases hboth
  have hneRight := (h.ne_right_iff hside).mp (hshape.matrix _ _ (hdiagonal .northeast rfl))
  have hswRight := (h.sw_right_iff hside).mp (hshape.matrix _ _ (hdiagonal .southwest rfl))
  have hseRight := hseRight.mp (hshape.matrix _ _ (hdiagonal .southeast rfl))
  exact ⟨hside, hne, hneRight.1, hswRight.1, hseRight.2⟩

theorem AreaDefinition.Keepable.keepsShape (hkeep : d.Keepable) : d.KeepsShape := by
  obtain ⟨area, ne, sw, h, hsetup⟩ := setupExtArea_eq hkeep.side_lt {}
  obtain ⟨se, hse, hseRight⟩ := h.se_right_iff hkeep.side_lt hkeep.side_ne
  rw [hse] at hsetup
  obtain ⟨plain, hplain, hplainExt, hplainRight, hplainDiagonal⟩ :=
    setupArea_right hkeep.side_lt {}
  obtain ⟨both, hboth, hbothExt, hbothRight, hbothDiagonal⟩ :=
    setupArea_right hkeep.side_lt (AreaCombat.setExtAreas {} area ne sw se)
  have hext : ∀ dir, isDiagonal dir = true →
      ∃ m, (AreaCombat.setExtAreas {} area ne sw se).areas dir = some m ∧
        MatrixRight d dir m := by
    intro dir hdir
    cases dir with
    | northwest => exact ⟨area, rfl, h.created.north.2⟩
    | northeast =>
        exact ⟨ne, rfl, (h.ne_right_iff hkeep.side_lt).mpr
          ⟨hkeep.centerX, fun hsome => (hkeep.square hsome).1⟩⟩
    | southwest =>
        exact ⟨sw, rfl, (h.sw_right_iff hkeep.side_lt).mpr
          ⟨hkeep.centerY, fun hsome => (hkeep.square hsome).1⟩⟩
    | southeast => exact ⟨se, rfl, hseRight.mpr ⟨hkeep.centerY, hkeep.square⟩⟩
    | north | east | south | west => cases hdir
  have hboth' : ∀ dir, ∃ m, both.areas dir = some m ∧ MatrixRight d dir m := by
    intro dir
    cases hdir : isDiagonal dir with
    | false => exact hbothRight dir hdir
    | true =>
        rw [hbothDiagonal dir hdir]
        exact hext dir hdir
  refine ⟨plain, _, both, hplain, hsetup, hboth, .of_matrix ?_ ?_, .of_matrix ?_ ?_⟩
  · intro dir m hm
    cases hdir : isDiagonal dir with
    | false =>
        obtain ⟨m', hm', hright⟩ := hplainRight dir hdir
        cases hm.symm.trans hm'
        exact hright
    | true =>
        rw [hplainDiagonal dir hdir] at hm
        cases hm
  · refine getArea_isSome (fun dir hdir => ?_) fun hno => ?_
    · obtain ⟨m, hm, -⟩ := hplainRight dir hdir
      rw [hm]
      rfl
    · rw [hplainExt] at hno
      cases hno
  · intro dir m hm
    obtain ⟨m', hm', hright⟩ := hboth' dir
    cases hm.symm.trans hm'
    exact hright
  · have hsome : ∀ dir, (both.areas dir).isSome := by
      intro dir
      obtain ⟨m, hm, -⟩ := hboth' dir
      rw [hm]
      rfl
    exact getArea_isSome (fun dir _ => hsome dir) fun _ dir _ => hsome dir

/-- **Spell areas keep their shape in every direction exactly if they are square, or have no
cell at all, and are not too large.** -/
theorem keepsShape_iff (d : AreaDefinition) : d.KeepsShape ↔ d.Keepable :=
  ⟨fun h => h.keepable, fun h => h.keepsShape⟩

/-- A row of three cells with the caster at its left end. -/
def lineArea : AreaDefinition where
  list := [3, 1, 1]
  rows := 1
  cols := 3
  length_eq := rfl
  centerY := 0
  centerX := 0
  centerY_lt := by decide
  centerX_lt := by decide
  isCenter_iff := by
    intro y x hy hx
    have hy : y < 1 := hy
    have hx : x < 3 := hx
    obtain rfl : y = 0 := by omega
    rcases (by omega : x = 0 ∨ x = 1 ∨ x = 2) with rfl | rfl | rfl <;> decide

/-- Its mirror image lies to the right of the caster again. -/
theorem lineArea_not_keepsShape : ¬lineArea.KeepsShape := by
  intro h
  have hcell : ∃ q, lineArea.HasOffset q := ⟨(0, 0), 0, 0, ⟨by decide, by decide, by decide⟩, rfl⟩
  exact absurd (h.keepable.square hcell).1 (by decide)

end Infernum.Combat
