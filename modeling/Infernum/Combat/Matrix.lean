import Infernum.Lib.Grid
import Mathlib.Algebra.Group.Prod
import Mathlib.Algebra.Group.Int.Defs
import Mathlib.Logic.Function.Basic
import Mathlib.Algebra.Order.Ring.Nat
import Mathlib.Algebra.Order.Ring.Int

/-!
# Area matrices

`MatrixArea` is the set of cells of a spell with the caster at its centre, and
`AreaCombat::copyArea` rotates, mirrors or flips it into another one. Sine and cosine of
multiples of 90 degrees are exact.
-/

namespace Infernum.Combat

open Lib

/-- `MatrixArea`. -/
structure MatrixArea where
  rows : BitVec 32
  cols : BitVec 32
  centerY : BitVec 32 := 0
  centerX : BitVec 32 := 0
  data : Grid Bool := fun _ _ => false

namespace MatrixArea

/-- `new MatrixArea(rows, cols)` -/
abbrev new (rows cols : BitVec 32) : MatrixArea := { rows, cols }

/-- `operator[]` and `setValue`, one after the other. What is written outside has no meaning. -/
def writeAll (m : MatrixArea) (ws : List (Write Bool)) : Option MatrixArea :=
  (Lib.writeAll m.rows.toNat m.cols.toNat ws m.data).map fun data => { m with data }

theorem writeAll_singleton {m : MatrixArea} {w : Write Bool}
    (hin : w.Inside m.rows.toNat m.cols.toNat) :
    m.writeAll [w] = some { m with data := w.apply m.data } := by
  simp [writeAll, Lib.writeAll, hin]

def setCenter (m : MatrixArea) (y x : BitVec 32) : MatrixArea :=
  { m with centerX := x, centerY := y }

/-- A cell of the area. -/
def HasCell (m : MatrixArea) (y x : Nat) : Prop :=
  y < m.rows.toNat ∧ x < m.cols.toNat ∧ m.data y x = true

/-- Where a place lies from the centre. -/
def offset (m : MatrixArea) (y x : Nat) : Int × Int :=
  ((x : Int) - m.centerX.toNat, (y : Int) - m.centerY.toNat)

/-- A cell of the area, seen from the centre. -/
def HasOffset (m : MatrixArea) (q : Int × Int) : Prop := ∃ y x, m.HasCell y x ∧ m.offset y x = q

/-- The centre is inside. -/
def CenterInside (m : MatrixArea) : Prop :=
  m.centerY.toNat < m.rows.toNat ∧ m.centerX.toNat < m.cols.toNat

end MatrixArea

/-- `MatrixOperation_t`. -/
inductive MatrixOperation
  | copy | mirror | flip | rotate90 | rotate180 | rotate270
  deriving DecidableEq, Repr

namespace MatrixOperation

/-- The angle of a rotation, and 0 for anything else. -/
def angle : MatrixOperation → Nat
  | rotate90 => 90
  | rotate180 => 180
  | rotate270 => 270
  | _ => 0

/-- `std::cos` and `std::sin` of multiples of 90 degrees. -/
def cos (angle : Nat) : Int := if angle = 0 then 1 else if angle = 180 then -1 else 0
def sin (angle : Nat) : Int := if angle = 90 then 1 else if angle = 270 then -1 else 0

/-- The rotation about the origin. -/
def rotate (op : MatrixOperation) (q : Int × Int) : Int × Int :=
  let a := cos op.angle
  let b := -sin op.angle
  let c := sin op.angle
  let d := cos op.angle
  (q.1 * a + q.2 * b, q.1 * c + q.2 * d)

end MatrixOperation

/-- The values of `x` in `for (int32_t x = n; --x >= 0;)`: to take one from the least number
has no meaning. -/
def countDown (n : BitVec 32) : Option (List Nat) :=
  if n = BitVec.intMin 32 then none else some (List.range n.toInt.toNat).reverse

/-- The writes of a rotation. -/
def rotateWrites (input : MatrixArea) (op : MatrixOperation) (rotateCenterX rotateCenterY : BitVec 32) :
    List (Write Bool) :=
  (List.range input.cols.toNat).flatMap fun x => (List.range input.rows.toNat).map fun y =>
    let newX : BitVec 32 := .ofNat 32 x - input.centerX
    let newY : BitVec 32 := .ofNat 32 y - input.centerY
    let rotated := op.rotate (newX.toInt, newY.toInt)
    ⟨(BitVec.ofInt 32 rotated.2 + rotateCenterY).toNat,
      (BitVec.ofInt 32 rotated.1 + rotateCenterX).toNat, input.data y x⟩

/-- `AreaCombat::copyArea`. -/
def copyArea (input output : MatrixArea) (op : MatrixOperation) : Option MatrixArea :=
  let centerY := input.centerY
  let centerX := input.centerX
  match op with
  | .copy =>
      (output.writeAll ((List.range input.rows.toNat).flatMap fun y =>
        (List.range input.cols.toNat).map fun x => ⟨y, x, input.data y x⟩)).map
          (·.setCenter centerY centerX)
  | .mirror =>
      (countDown input.cols).bind fun xs =>
        (output.writeAll ((List.range input.rows.toNat).flatMap fun y =>
          xs.zipIdx.map fun (x, rx) => ⟨y, rx, input.data y x⟩)).map
            (·.setCenter centerY ((input.rows - 1) - centerX))
  | .flip =>
      (countDown input.rows).bind fun ys =>
        (output.writeAll ((List.range input.cols.toNat).flatMap fun x =>
          ys.zipIdx.map fun (y, ry) => ⟨ry, x, input.data y x⟩)).map
            (·.setCenter ((input.cols - 1) - centerY) centerX)
  | op =>
      let rotateCenterX := output.cols / 2 - 1
      let rotateCenterY := output.rows / 2 - 1
      (output.writeAll (rotateWrites input op rotateCenterX rotateCenterY)).map
        (·.setCenter rotateCenterY rotateCenterX)

/-! ## Cells that are moved -/

/-- Every cell of the one is moved to a place of its own in the other. -/
structure Moved (input output : MatrixArea) (row col : Nat → Nat → Nat) : Prop where
  hasCell : ∀ r c, output.HasCell r c ↔ ∃ y x, input.HasCell y x ∧ row y x = r ∧ col y x = c

/-- The cells of a new area after writes that put each value of another one in a place of its
own. -/
theorem writeAll_moved {input : MatrixArea} (rows cols : BitVec 32) {ws : List (Write Bool)}
    {row col : Nat → Nat → Nat}
    (hws : ∀ w, w ∈ ws ↔ ∃ y x, (y < input.rows.toNat ∧ x < input.cols.toNat) ∧
      w = ⟨row y x, col y x, input.data y x⟩)
    (hin : ∀ y x, y < input.rows.toNat → x < input.cols.toNat →
      row y x < rows.toNat ∧ col y x < cols.toNat)
    (hinj : ∀ y x y' x', (y < input.rows.toNat ∧ x < input.cols.toNat) →
      (y' < input.rows.toNat ∧ x' < input.cols.toNat) → row y x = row y' x' →
      col y x = col y' x' → y = y' ∧ x = x') (centerY centerX : BitVec 32) :
    ∃ data, (MatrixArea.new rows cols).writeAll ws = some { rows, cols, data } ∧
      Moved input { rows, cols, centerY, centerX, data } row col := by
  have hinside : ∀ w ∈ ws, w.Inside rows.toNat cols.toNat := by
    intro w hw
    obtain ⟨y, x, ⟨hy, hx⟩, rfl⟩ := (hws w).mp hw
    exact hin y x hy hx
  have hagree : Agree ws := by
    intro w hw w' hw' hrow hcol
    obtain ⟨y, x, hplace, rfl⟩ := (hws w).mp hw
    obtain ⟨y', x', hplace', rfl⟩ := (hws w').mp hw'
    obtain ⟨rfl, rfl⟩ := hinj y x y' x' hplace hplace' hrow hcol
    rfl
  obtain ⟨data, hwrite, hdata⟩ := writeAll_blank hinside hagree
  refine ⟨data, by simp [MatrixArea.writeAll, hwrite], ⟨fun r c => ?_⟩⟩
  constructor
  · rintro ⟨-, -, hset⟩
    obtain ⟨w, hw, hrow, hcol, hvalue⟩ := (hdata r c).mp hset
    obtain ⟨y, x, ⟨hy, hx⟩, rfl⟩ := (hws w).mp hw
    exact ⟨y, x, ⟨hy, hx, hvalue⟩, hrow, hcol⟩
  · rintro ⟨y, x, ⟨hy, hx, hvalue⟩, rfl, rfl⟩
    obtain ⟨hr, hc⟩ := hin y x hy hx
    exact ⟨hr, hc, (hdata _ _).mpr ⟨_, (hws _).mpr ⟨y, x, ⟨hy, hx⟩, rfl⟩, rfl, rfl, hvalue⟩⟩

/-- Where all cells are moved as `g` moves the offsets, and by `s` besides, the image is exact
but for `s`. -/
theorem Moved.hasOffset {input output : MatrixArea} {row col : Nat → Nat → Nat}
    (hmoved : Moved input output row col) {g : Int × Int → Int × Int} (hg : g.Injective)
    {s : Int × Int}
    (hplace : ∀ y x, input.HasCell y x →
      output.offset (row y x) (col y x) = g (input.offset y x) + s) (q : Int × Int) :
    output.HasOffset (g q + s) ↔ input.HasOffset q := by
  constructor
  · rintro ⟨r, c, hcell, hq⟩
    obtain ⟨y, x, hfrom, rfl, rfl⟩ := (hmoved.hasCell r c).mp hcell
    rw [hplace y x hfrom] at hq
    exact ⟨y, x, hfrom, hg (add_right_cancel hq)⟩
  · rintro ⟨y, x, hcell, rfl⟩
    exact ⟨row y x, col y x, (hmoved.hasCell _ _).mpr ⟨y, x, hcell, rfl, rfl⟩, hplace y x hcell⟩

/-- A bounded set that a shift takes into itself is empty or not shifted at all. -/
theorem eq_zero_of_shift {S : Int × Int → Prop} {b : Nat}
    (hbound : ∀ q, S q → q.1.natAbs < b ∧ q.2.natAbs < b) {s : Int × Int}
    (hshift : ∀ q, S q → S (q + s)) {q : Int × Int} (hq : S q) : s = 0 := by
  have hmany : ∀ n : Nat, S (q.1 + n * s.1, q.2 + n * s.2) := by
    intro n
    induction n with
    | zero => simpa using hq
    | succ n ih =>
        have hnext := hshift _ ih
        rw [Prod.mk_add_mk] at hnext
        push_cast
        rwa [Int.add_mul, Int.add_mul, Int.one_mul, Int.one_mul, ← Int.add_assoc,
          ← Int.add_assoc]
  have hfar := hbound _ (hmany (2 * b))
  have hnear := hbound q hq
  have hzero : ∀ c v : Int, c.natAbs < b → (c + (2 * b : Nat) * v).natAbs < b → v = 0 := by
    intro c v hc hv
    by_contra hne
    have hle : 2 * b ≤ 2 * b * v.natAbs := Nat.le_mul_of_pos_right _ (Int.natAbs_pos.mpr hne)
    have habs : ((2 * b : Nat) * v : Int).natAbs = 2 * b * v.natAbs := by
      rw [Int.natAbs_mul, Int.natAbs_natCast]
    omega
  exact Prod.ext (hzero _ _ hnear.1 hfar.1) (hzero _ _ hnear.2 hfar.2)

theorem MatrixArea.HasOffset.bound {m : MatrixArea} {q : Int × Int} (h : m.HasOffset q) :
    q.1.natAbs < 2 ^ 32 ∧ q.2.natAbs < 2 ^ 32 := by
  obtain ⟨y, x, ⟨hy, hx, -⟩, rfl⟩ := h
  simp only [offset]
  omega

/-! ## The operations -/

theorem countDown_of_lt {n : BitVec 32} (hn : n.toNat < 2 ^ 31) :
    countDown n = some (List.range n.toNat).reverse := by
  have hmin : n ≠ BitVec.intMin 32 := by
    rintro rfl
    simp at hn
  rw [countDown, if_neg hmin, BitVec.toInt_eq_toNat_of_lt (by omega), Int.toNat_natCast]

theorem countDown_of_gt {n : BitVec 32} (hn : 2 ^ 31 < n.toNat) : countDown n = some [] := by
  have hmin : n ≠ BitVec.intMin 32 := by
    rintro rfl
    simp at hn
  have hneg : n.toInt.toNat = 0 := by
    rw [BitVec.toInt_eq_toNat_cond, if_neg (by omega)]
    omega
  rw [countDown, if_neg hmin, hneg]
  rfl

theorem mem_zipIdx_reverse_range {n x rx : Nat} :
    (x, rx) ∈ (List.range n).reverse.zipIdx ↔ x < n ∧ rx = n - 1 - x := by
  rw [List.mem_zipIdx_iff_getElem?, List.getElem?_eq_some_iff]
  simp only [List.length_reverse, List.length_range, List.getElem_reverse, List.getElem_range]
  constructor
  · rintro ⟨h, rfl⟩
    omega
  · rintro ⟨h, rfl⟩
    exact ⟨by omega, by omega⟩

variable {input : MatrixArea} {rows cols : BitVec 32}

theorem copyArea_mirror (hcols : input.cols.toNat < 2 ^ 31)
    (hr : input.rows.toNat ≤ rows.toNat) (hc : input.cols.toNat ≤ cols.toNat) :
    ∃ data, copyArea input (.new rows cols) .mirror =
        some ⟨rows, cols, input.centerY, input.rows - 1 - input.centerX, data⟩ ∧
      Moved input ⟨rows, cols, input.centerY, input.rows - 1 - input.centerX, data⟩
        (fun y _ => y) (fun _ x => input.cols.toNat - 1 - x) := by
  have hws : ∀ w : Write Bool, w ∈ ((List.range input.rows.toNat).flatMap fun y =>
      (List.range input.cols.toNat).reverse.zipIdx.map fun (x, rx) => ⟨y, rx, input.data y x⟩) ↔
      ∃ y x, (y < input.rows.toNat ∧ x < input.cols.toNat) ∧
        w = ⟨y, input.cols.toNat - 1 - x, input.data y x⟩ := by
    intro w
    simp only [List.mem_flatMap, List.mem_range, List.mem_map, Prod.exists,
      mem_zipIdx_reverse_range]
    constructor
    · rintro ⟨y, hy, x, rx, ⟨hx, rfl⟩, rfl⟩
      exact ⟨y, x, ⟨hy, hx⟩, rfl⟩
    · rintro ⟨y, x, ⟨hy, hx⟩, rfl⟩
      exact ⟨y, hy, x, _, ⟨hx, rfl⟩, rfl⟩
  obtain ⟨data, hwrite, hmoved⟩ := writeAll_moved rows cols hws
    (fun y x hy hx => ⟨by omega, by omega⟩) (fun y x y' x' h h' hrow hcol => ⟨hrow, by omega⟩)
    input.centerY (input.rows - 1 - input.centerX)
  refine ⟨data, ?_, hmoved⟩
  show ((countDown input.cols).bind fun xs => _) = _
  rw [countDown_of_lt hcols, Option.bind_some, hwrite]
  rfl

theorem copyArea_flip (hrows : input.rows.toNat < 2 ^ 31)
    (hr : input.rows.toNat ≤ rows.toNat) (hc : input.cols.toNat ≤ cols.toNat) :
    ∃ data, copyArea input (.new rows cols) .flip =
        some ⟨rows, cols, input.cols - 1 - input.centerY, input.centerX, data⟩ ∧
      Moved input ⟨rows, cols, input.cols - 1 - input.centerY, input.centerX, data⟩
        (fun y _ => input.rows.toNat - 1 - y) (fun _ x => x) := by
  have hws : ∀ w : Write Bool, w ∈ ((List.range input.cols.toNat).flatMap fun x =>
      (List.range input.rows.toNat).reverse.zipIdx.map fun (y, ry) => ⟨ry, x, input.data y x⟩) ↔
      ∃ y x, (y < input.rows.toNat ∧ x < input.cols.toNat) ∧
        w = ⟨input.rows.toNat - 1 - y, x, input.data y x⟩ := by
    intro w
    simp only [List.mem_flatMap, List.mem_range, List.mem_map, Prod.exists,
      mem_zipIdx_reverse_range]
    constructor
    · rintro ⟨x, hx, y, ry, ⟨hy, rfl⟩, rfl⟩
      exact ⟨y, x, ⟨hy, hx⟩, rfl⟩
    · rintro ⟨y, x, ⟨hy, hx⟩, rfl⟩
      exact ⟨x, hx, y, _, ⟨hy, rfl⟩, rfl⟩
  obtain ⟨data, hwrite, hmoved⟩ := writeAll_moved rows cols hws
    (fun y x hy hx => ⟨by omega, by omega⟩) (fun y x y' x' h h' hrow hcol => ⟨by omega, hcol⟩)
    (input.cols - 1 - input.centerY) input.centerX
  refine ⟨data, ?_, hmoved⟩
  show ((countDown input.rows).bind fun ys => _) = _
  rw [countDown_of_lt hrows, Option.bind_some, hwrite]
  rfl

def mirrorOffset (q : Int × Int) : Int × Int := (-q.1, q.2)
def flipOffset (q : Int × Int) : Int × Int := (q.1, -q.2)

theorem mirrorOffset_injective : mirrorOffset.Injective := by
  rintro ⟨x, y⟩ ⟨x', y'⟩ h
  simp only [mirrorOffset, Prod.mk.injEq] at h ⊢
  omega

theorem flipOffset_injective : flipOffset.Injective := by
  rintro ⟨x, y⟩ ⟨x', y'⟩ h
  simp only [flipOffset, Prod.mk.injEq] at h ⊢
  omega

/-- How far the centre that the mirror sets is from where the centre is in the mirror. -/
def mirrorError (input : MatrixArea) : Int × Int :=
  ((input.cols.toNat : Int) - 1 - input.centerX.toNat -
    (input.rows - 1 - input.centerX).toNat, 0)

def flipError (input : MatrixArea) : Int × Int :=
  (0, (input.rows.toNat : Int) - 1 - input.centerY.toNat -
    (input.cols - 1 - input.centerY).toNat)

/-- The mirror is exact but for its centre. -/
theorem copyArea_mirror_hasOffset (hcols : input.cols.toNat < 2 ^ 31)
    (hr : input.rows.toNat ≤ rows.toNat) (hc : input.cols.toNat ≤ cols.toNat) :
    ∃ out, copyArea input (.new rows cols) .mirror = some out ∧ out.rows = rows ∧ out.cols = cols ∧
      out.centerY = input.centerY ∧ out.centerX = input.rows - 1 - input.centerX ∧
      ∀ q, out.HasOffset (mirrorOffset q + mirrorError input) ↔ input.HasOffset q := by
  obtain ⟨data, hcopy, hmoved⟩ := copyArea_mirror hcols hr hc
  refine ⟨_, hcopy, rfl, rfl, rfl, rfl, hmoved.hasOffset mirrorOffset_injective fun y x hcell => ?_⟩
  have hx := hcell.2.1
  apply Prod.ext
  · show ((input.cols.toNat - 1 - x : Nat) : Int) - (input.rows - 1 - input.centerX).toNat =
      -((x : Int) - input.centerX.toNat) + (mirrorError input).1
    simp only [mirrorError]
    omega
  · show (y : Int) - input.centerY.toNat = (y : Int) - input.centerY.toNat + 0
    omega

/-- The flip is exact but for its centre. -/
theorem copyArea_flip_hasOffset (hrows : input.rows.toNat < 2 ^ 31)
    (hr : input.rows.toNat ≤ rows.toNat) (hc : input.cols.toNat ≤ cols.toNat) :
    ∃ out, copyArea input (.new rows cols) .flip = some out ∧ out.rows = rows ∧ out.cols = cols ∧
      out.centerY = input.cols - 1 - input.centerY ∧ out.centerX = input.centerX ∧
      ∀ q, out.HasOffset (flipOffset q + flipError input) ↔ input.HasOffset q := by
  obtain ⟨data, hcopy, hmoved⟩ := copyArea_flip hrows hr hc
  refine ⟨_, hcopy, rfl, rfl, rfl, rfl, hmoved.hasOffset flipOffset_injective fun y x hcell => ?_⟩
  have hy := hcell.1
  apply Prod.ext
  · show (x : Int) - input.centerX.toNat = (x : Int) - input.centerX.toNat + 0
    omega
  · show ((input.rows.toNat - 1 - y : Nat) : Int) - (input.cols - 1 - input.centerY).toNat =
      -((y : Int) - input.centerY.toNat) + (flipError input).2
    simp only [flipError]
    omega

/-- The loop of the mirror does nothing with more columns than the loop can count down. -/
theorem copyArea_mirror_of_gt (hcols : 2 ^ 31 < input.cols.toNat) :
    copyArea input (.new rows cols) .mirror =
      some { rows, cols, centerY := input.centerY,
             centerX := input.rows - 1 - input.centerX } := by
  show ((countDown input.cols).bind fun xs => _) = _
  have hnone : ((List.range input.rows.toNat).flatMap fun y =>
      ([] : List Nat).zipIdx.map fun (x, rx) => (⟨y, rx, input.data y x⟩ : Write Bool)) = [] := by
    simp
  rw [countDown_of_gt hcols, Option.bind_some, hnone]
  rfl

theorem copyArea_mirror_of_eq (output : MatrixArea) (hcols : input.cols.toNat = 2 ^ 31) :
    copyArea input output .mirror = none := by
  have hmin : input.cols = BitVec.intMin 32 := BitVec.eq_of_toNat_eq (by simpa using hcols)
  show ((countDown input.cols).bind fun xs => _) = _
  rw [countDown, if_pos hmin]
  rfl

/-- A rotation by 90, 180 or 270 degrees. -/
def MatrixOperation.isRotation (op : MatrixOperation) : Bool := op.angle != 0

theorem copyArea_rotate (input output : MatrixArea) {op : MatrixOperation}
    (hop : op.isRotation = true) :
    copyArea input output op =
      (output.writeAll
        (rotateWrites input op (output.cols / 2 - 1) (output.rows / 2 - 1))).map
          (·.setCenter (output.rows / 2 - 1) (output.cols / 2 - 1)) := by
  cases op <;> first | rfl | simp [MatrixOperation.isRotation, MatrixOperation.angle] at hop

theorem MatrixOperation.rotate_injective {op : MatrixOperation} (hop : op.isRotation = true) :
    op.rotate.Injective := by
  rintro ⟨x, y⟩ ⟨x', y'⟩ h
  cases op <;> simp [isRotation, rotate, angle, cos, sin] at hop h ⊢ <;> omega

/-- What is subtracted as unsigned is read as signed. -/
theorem toInt_ofNat_sub {x : Nat} {c : BitVec 32} (hx : x < 2 ^ 31) (hc : c.toNat < 2 ^ 31) :
    (BitVec.ofNat 32 x - c).toInt = (x : Int) - c.toNat := by
  rw [BitVec.toInt_eq_toNat_cond, BitVec.toNat_sub, BitVec.toNat_ofNat]
  split <;> omega

/-- The centre of the output of a rotation. -/
theorem toNat_half_sub_one {n : BitVec 32} {k : Nat} (hn : n.toNat = 2 * k) (hk : 0 < k) :
    (n / 2 - 1).toNat = k - 1 := by
  have hone : (1 : BitVec 32).toNat = 1 := rfl
  have htwo : (2 : BitVec 32).toNat = 2 := rfl
  rw [BitVec.toNat_sub, BitVec.toNat_udiv, hn, hone, htwo]
  omega

/-- A rotated place, counted from the centre of the output. -/
theorem toNat_ofInt_add {n : BitVec 32} {k : Nat} (hn : n.toNat = 2 * k) {r : Int}
    (hlow : -(k : Int) < r) (hhigh : r < k) :
    ((BitVec.ofInt 32 r + (n / 2 - 1)).toNat : Int) = r + (k - 1) := by
  have hhalf := toNat_half_sub_one hn (by omega)
  have hr : ((BitVec.ofInt 32 r).toNat : Int) = r % 2 ^ 32 := by
    rw [BitVec.toNat_ofInt]
    omega
  rw [BitVec.toNat_add, hhalf]
  omega

theorem MatrixOperation.rotate_bound {op : MatrixOperation} (hop : op.isRotation = true)
    {q : Int × Int} {k : Int} (hx : -k < q.1 ∧ q.1 < k) (hy : -k < q.2 ∧ q.2 < k) :
    (-k < (op.rotate q).1 ∧ (op.rotate q).1 < k) ∧
      (-k < (op.rotate q).2 ∧ (op.rotate q).2 < k) := by
  cases op <;> simp [isRotation, rotate, angle, cos, sin] at hop ⊢ <;> omega

/-- A rotation into an area of twice the longer side is exact. -/
theorem copyArea_rotate_hasOffset {op : MatrixOperation} (hop : op.isRotation = true)
    {n : BitVec 32} {k : Nat} (hn : n.toNat = 2 * k) (hrows : input.rows.toNat ≤ k)
    (hcols : input.cols.toNat ≤ k) (hcenter : input.CenterInside) :
    ∃ out, copyArea input (.new n n) op = some out ∧ out.CenterInside ∧
      ∀ q, out.HasOffset (op.rotate q) ↔ input.HasOffset q := by
  obtain ⟨hcy, hcx⟩ := hcenter
  have hk : k < 2 ^ 31 := by omega
  -- where the cell of an offset goes
  have hplace : ∀ y x, y < input.rows.toNat → x < input.cols.toNat →
      ((BitVec.ofNat 32 x - input.centerX).toInt, (BitVec.ofNat 32 y - input.centerY).toInt) =
        input.offset y x := by
    intro y x hy hx
    rw [toInt_ofNat_sub (by omega) (by omega), toInt_ofNat_sub (by omega) (by omega)]
    rfl
  let row := fun y x => (BitVec.ofInt 32 (op.rotate (input.offset y x)).2 + (n / 2 - 1)).toNat
  let col := fun y x => (BitVec.ofInt 32 (op.rotate (input.offset y x)).1 + (n / 2 - 1)).toNat
  have hindex : ∀ y x, y < input.rows.toNat → x < input.cols.toNat →
      (row y x : Int) = (op.rotate (input.offset y x)).2 + (k - 1) ∧
      (col y x : Int) = (op.rotate (input.offset y x)).1 + (k - 1) ∧
      row y x < n.toNat ∧ col y x < n.toNat := by
    intro y x hy hx
    have hbound := MatrixOperation.rotate_bound hop
      (q := input.offset y x) (k := (k : Int))
      (by simp only [MatrixArea.offset]; omega) (by simp only [MatrixArea.offset]; omega)
    have hrow : (row y x : Int) = _ := toNat_ofInt_add hn hbound.2.1 hbound.2.2
    have hcol : (col y x : Int) = _ := toNat_ofInt_add hn hbound.1.1 hbound.1.2
    exact ⟨hrow, hcol, by omega, by omega⟩
  have hws : ∀ w, w ∈ rotateWrites input op (n / 2 - 1) (n / 2 - 1) ↔
      ∃ y x, (y < input.rows.toNat ∧ x < input.cols.toNat) ∧
        w = ⟨row y x, col y x, input.data y x⟩ := by
    intro w
    simp only [rotateWrites, List.mem_flatMap, List.mem_range, List.mem_map]
    constructor
    · rintro ⟨x, hx, y, hy, rfl⟩
      exact ⟨y, x, ⟨hy, hx⟩, by rw [hplace y x hy hx]⟩
    · rintro ⟨y, x, ⟨hy, hx⟩, rfl⟩
      exact ⟨x, hx, y, hy, by rw [hplace y x hy hx]⟩
  have hinj : ∀ y x y' x', (y < input.rows.toNat ∧ x < input.cols.toNat) →
      (y' < input.rows.toNat ∧ x' < input.cols.toNat) → row y x = row y' x' →
      col y x = col y' x' → y = y' ∧ x = x' := by
    intro y x y' x' ⟨hy, hx⟩ ⟨hy', hx'⟩ hrow hcol
    obtain ⟨hr, hc, -⟩ := hindex y x hy hx
    obtain ⟨hr', hc', -⟩ := hindex y' x' hy' hx'
    have heq : op.rotate (input.offset y x) = op.rotate (input.offset y' x') :=
      Prod.ext (by omega) (by omega)
    have hoffset := MatrixOperation.rotate_injective hop heq
    simp only [MatrixArea.offset, Prod.mk.injEq] at hoffset
    omega
  obtain ⟨data, hwrite, hmoved⟩ := writeAll_moved n n hws
    (fun y x hy hx => (hindex y x hy hx).2.2) hinj (n / 2 - 1) (n / 2 - 1)
  have hhalf := toNat_half_sub_one hn (by omega)
  refine ⟨⟨n, n, n / 2 - 1, n / 2 - 1, data⟩, ?_, ⟨?_, ?_⟩, fun q => ?_⟩
  · rw [copyArea_rotate input _ hop, hwrite]
    rfl
  · simp only [hhalf]
    omega
  · simp only [hhalf]
    omega
  · have hoffset := hmoved.hasOffset (MatrixOperation.rotate_injective hop) (s := (0, 0))
      (fun y x hcell => by
        obtain ⟨hr, hc, -⟩ := hindex y x hcell.1 hcell.2.1
        apply Prod.ext
        · show (col y x : Int) - (n / 2 - 1).toNat = _ + 0
          rw [hc, hhalf]
          omega
        · show (row y x : Int) - (n / 2 - 1).toNat = _ + 0
          rw [hr, hhalf]
          omega) q
    rwa [show ((0, 0) : Int × Int) = 0 from rfl, add_zero] at hoffset

/-! ## Too large areas -/

/-- Of as many places in a row as the area has, one is not inside twice the number taken in
32 bits. -/
theorem exists_outside {k : BitVec 32} (hk : 2 ^ 31 ≤ k.toNat) (c : BitVec 32) :
    ∃ x < k.toNat, (k * 2).toNat ≤ (c - BitVec.ofNat 32 x).toNat := by
  by_cases hc : (k * 2).toNat ≤ c.toNat
  · exact ⟨0, by omega, by simpa using hc⟩
  · refine ⟨c.toNat + 1, by bv_omega, ?_⟩
    have hwrap : (c - BitVec.ofNat 32 (c.toNat + 1)).toNat = 2 ^ 32 - 1 := by bv_omega
    bv_omega

theorem rotate180_eq (q : Int × Int) : MatrixOperation.rotate180.rotate q = (-q.1, -q.2) := by
  simp [MatrixOperation.rotate, MatrixOperation.angle, MatrixOperation.cos, MatrixOperation.sin]

/-- An area with 2^31 rows or columns is turned round into one that cannot hold it. -/
theorem copyArea_rotate180_outside {k : BitVec 32} (hk : 2 ^ 31 ≤ k.toNat)
    (hmax : input.rows = k ∨ input.cols = k) (hcenter : input.CenterInside) :
    copyArea input (.new (k * 2) (k * 2)) .rotate180 = none := by
  obtain ⟨hcy, hcx⟩ := hcenter
  -- the place of a row or a column is counted down from that of the centre
  have hindex : ∀ v c e : BitVec 32,
      BitVec.ofInt 32 (-(v - c).toInt) + e = c + e - v := by
    intro v c e
    rw [BitVec.ofInt_neg, BitVec.ofInt_toInt]
    bv_omega
  suffices hout : ∃ w ∈ rotateWrites input .rotate180 (k * 2 / 2 - 1) (k * 2 / 2 - 1),
      ¬w.Inside (k * 2).toNat (k * 2).toNat by
    obtain ⟨w, hw, hout⟩ := hout
    rw [copyArea_rotate _ _ rfl, MatrixArea.writeAll, writeAll_eq_none hw hout]
    rfl
  rcases hmax with hrows | hcols
  · obtain ⟨y, hy, hle⟩ := exists_outside hk (input.centerY + (k * 2 / 2 - 1))
    refine ⟨_, List.mem_flatMap.mpr ⟨0, List.mem_range.mpr (by omega), List.mem_map.mpr
      ⟨y, List.mem_range.mpr (hrows ▸ hy), rfl⟩⟩, fun hin => absurd hin.1 (Nat.not_lt.mpr ?_)⟩
    show _ ≤ (BitVec.ofInt 32 (MatrixOperation.rotate180.rotate (_, _)).2 + _).toNat
    rw [rotate180_eq, hindex]
    exact hle
  · obtain ⟨x, hx, hle⟩ := exists_outside hk (input.centerX + (k * 2 / 2 - 1))
    refine ⟨_, List.mem_flatMap.mpr ⟨x, List.mem_range.mpr (hcols ▸ hx), List.mem_map.mpr
      ⟨0, List.mem_range.mpr (by omega), rfl⟩⟩, fun hin => absurd hin.2 (Nat.not_lt.mpr ?_)⟩
    show _ ≤ (BitVec.ofInt 32 (MatrixOperation.rotate180.rotate (_, _)).1 + _).toNat
    rw [rotate180_eq, hindex]
    exact hle

end Infernum.Combat
