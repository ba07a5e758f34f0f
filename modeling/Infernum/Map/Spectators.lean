import Infernum.Map.Linked

/-!
# The search for spectators

`getSpectatorsInternal` walks over a rectangle of leaves by their links. On a map
whose links are those of the tree it visits each leaf of the rectangle, and so it
finds the creatures in the ranges.
-/

namespace Infernum

open Lib

variable {C : Type} [DecidableEq C] {isPlayer : C → Bool}

/-- The registered creatures are those on the map, each in the leaf of its tile. -/
structure Map.WellFormed (isPlayer : C → Bool) (m : Map C) : Prop where
  linked : Map.Linked m.root m.leaves m.size
  fresh : ∀ n, m.size ≤ n → m.leaves n = {}
  tile : ∀ pos, m.hasTile pos = true →
    pos.z.toNat < MAP_MAX_LAYERS ∧ ∃ n, m.getQTNode pos = some n
  placed : ∀ c pos, m.parent c = some pos → m.hasTile pos = true
  registered : ∀ c n, c ∈ (m.leaves n).creature_list ↔
    ∃ pos, m.parent c = some pos ∧ m.getQTNode pos = some n
  players : ∀ n, (m.leaves n).player_list.Perm ((m.leaves n).creature_list.filter isPlayer)
  nodup : ∀ n, (m.leaves n).creature_list.Nodup

namespace Map

/-- A place lies in the ranges around another one, shifted by the floors between
them. -/
def InRanges (centerPos : Position) (r : Ranges) (pos : Position) : Prop :=
  (r.minRangeZ ≤ pos.getZ ∧ pos.getZ ≤ r.maxRangeZ) ∧
    (centerPos.getX + r.minRangeX + (centerPos.getZ - pos.getZ) ≤ pos.getX ∧
      pos.getX ≤ centerPos.getX + r.maxRangeX + (centerPos.getZ - pos.getZ)) ∧
    centerPos.getY + r.minRangeY + (centerPos.getZ - pos.getZ) ≤ pos.getY ∧
      pos.getY ≤ centerPos.getY + r.maxRangeY + (centerPos.getZ - pos.getZ)

instance (centerPos : Position) (r : Ranges) (pos : Position) :
    Decidable (InRanges centerPos r pos) :=
  inferInstanceAs (Decidable (_ ∧ _))

theorem inRanges_iff (centerPos : Position) (r : Ranges) (pos : Position) :
    inRanges centerPos r pos = true ↔ InRanges centerPos r pos := by
  rw [inRanges, InRanges]
  show (if _ then _ else if centerPos.getY + r.minRangeY + (centerPos.getZ - pos.getZ) > pos.getY ∨
    centerPos.getY + r.maxRangeY + (centerPos.getZ - pos.getZ) < pos.getY ∨
    centerPos.getX + r.minRangeX + (centerPos.getZ - pos.getZ) > pos.getX ∨
    centerPos.getX + r.maxRangeX + (centerPos.getZ - pos.getZ) < pos.getX then _ else _) = true ↔ _
  split
  · constructor
    · intro h
      cases h
    · intro h
      omega
  · split
    · constructor
      · intro h
        cases h
      · intro h
        omega
    · refine ⟨fun _ => ?_, fun _ => rfl⟩
      omega

/-- A creature that a search with these ranges is to find. -/
def Seen (isPlayer : C → Bool) (m : Map C) (centerPos : Position) (r : Ranges) (onlyPlayers : Bool)
    (c : C) : Prop :=
  (∃ pos, m.parent c = some pos ∧ InRanges centerPos r pos) ∧
    (onlyPlayers = true → isPlayer c = true)

/-! ## The loops -/

section Loops

variable (m : Map C) (hlinked : Linked m.root m.leaves m.size)
  {visit : Nat → Finset C → Finset C} {P : Nat → C → Prop}
  (hvisit : ∀ leaf s c, c ∈ visit leaf s ↔ c ∈ s ∨ P leaf c)

include hlinked hvisit

omit [DecidableEq C] in
/-- The inner loop visits the leaves of a row. -/
theorem mem_visitRow (ny n nx : Nat) (s : Finset C) (c : C) :
    c ∈ visitRow m visit ny n nx (getLeaf m.root (.ofNat 32 nx) (.ofNat 32 ny)) s ↔
      c ∈ s ∨ ∃ i < n, ∃ leaf,
        getLeaf m.root (.ofNat 32 (nx + FLOOR_SIZE * i)) (.ofNat 32 ny) = some leaf ∧ P leaf c := by
  induction n generalizing nx s with
  | zero =>
      refine ⟨.inl, fun h => h.resolve_right fun ⟨i, hi, _⟩ => ?_⟩
      omega
  | succ n ih =>
      have hsucc : BitVec.ofNat 32 (nx + FLOOR_SIZE) = BitVec.ofNat 32 nx + 8 := BitVec.ofNat_add ..
      have hindex : ∀ i, nx + FLOOR_SIZE + FLOOR_SIZE * i = nx + FLOOR_SIZE * (i + 1) := fun i => by
        rw [Nat.mul_succ]
        omega
      -- the first leaf of the row, and the rest
      have hsplit : (∃ i < n + 1, ∃ leaf, getLeaf m.root (.ofNat 32 (nx + FLOOR_SIZE * i))
            (.ofNat 32 ny) = some leaf ∧ P leaf c) ↔
          (∃ leaf, getLeaf m.root (.ofNat 32 nx) (.ofNat 32 ny) = some leaf ∧ P leaf c) ∨
            ∃ i < n, ∃ leaf, getLeaf m.root (.ofNat 32 (nx + FLOOR_SIZE + FLOOR_SIZE * i))
              (.ofNat 32 ny) = some leaf ∧ P leaf c := by
        constructor
        · rintro ⟨i, hi, hleaf⟩
          cases i with
          | zero => exact .inl hleaf
          | succ i => exact .inr ⟨i, by omega, by rw [hindex]; exact hleaf⟩
        · rintro (hleaf | ⟨i, hi, hleaf⟩)
          · exact ⟨0, by omega, hleaf⟩
          · exact ⟨i + 1, by omega, by rw [← hindex]; exact hleaf⟩
      rw [hsplit, ← or_assoc]
      cases hleaf : getLeaf m.root (.ofNat 32 nx) (.ofNat 32 ny) with
      | none =>
          show c ∈ visitRow m visit ny n (nx + FLOOR_SIZE)
            (getLeaf m.root (.ofNat 32 (nx + FLOOR_SIZE)) (.ofNat 32 ny)) s ↔ _
          rw [ih]
          refine or_congr ?_ Iff.rfl
          exact ⟨.inl, fun h => h.resolve_right fun ⟨leaf, hsome, _⟩ => nomatch hsome⟩
      | some leaf =>
          -- the link goes to the next leaf of the row
          show c ∈ visitRow m visit ny n (nx + FLOOR_SIZE) (m.leaves leaf).leafE
            (visit leaf s) ↔ _
          rw [hlinked.east _ _ _ hleaf, ← hsucc, ih, hvisit]
          refine or_congr (or_congr Iff.rfl ?_) Iff.rfl
          exact ⟨fun h => ⟨leaf, rfl, h⟩, fun ⟨_, hsome, h⟩ => Option.some.inj hsome ▸ h⟩

omit [DecidableEq C] in
/-- The outer loop visits the leaves of the rectangle. -/
theorem mem_visitRows (startx1 columns n ny : Nat) (s : Finset C) (c : C) :
    c ∈ visitRows m visit startx1 columns n ny
        (getLeaf m.root (.ofNat 32 startx1) (.ofNat 32 ny)) s ↔
      c ∈ s ∨ ∃ j < n, ∃ i < columns, ∃ leaf,
        getLeaf m.root (.ofNat 32 (startx1 + FLOOR_SIZE * i))
          (.ofNat 32 (ny + FLOOR_SIZE * j)) = some leaf ∧ P leaf c := by
  induction n generalizing ny s with
  | zero =>
      refine ⟨.inl, fun h => h.resolve_right ?_⟩
      rintro ⟨j, hj, -⟩
      omega
  | succ n ih =>
      have hsucc : BitVec.ofNat 32 (ny + FLOOR_SIZE) = BitVec.ofNat 32 ny + 8 := BitVec.ofNat_add ..
      have hindex : ∀ j, ny + FLOOR_SIZE + FLOOR_SIZE * j = ny + FLOOR_SIZE * (j + 1) := fun j => by
        rw [Nat.mul_succ]
        omega
      -- the first leaf of the next row
      have hnext : visitRows m visit startx1 columns (n + 1) ny
          (getLeaf m.root (.ofNat 32 startx1) (.ofNat 32 ny)) s =
          visitRows m visit startx1 columns n (ny + FLOOR_SIZE)
            (getLeaf m.root (.ofNat 32 startx1) (.ofNat 32 (ny + FLOOR_SIZE)))
            (visitRow m visit ny columns startx1
              (getLeaf m.root (.ofNat 32 startx1) (.ofNat 32 ny)) s) := by
        cases hleaf : getLeaf m.root (.ofNat 32 startx1) (.ofNat 32 ny) with
        | none => rfl
        | some leaf =>
            rw [hsucc, ← hlinked.south _ _ _ hleaf]
            rfl
      rw [hnext, ih, mem_visitRow m hlinked hvisit, or_assoc]
      refine or_congr Iff.rfl ?_
      constructor
      · rintro (hleaf | ⟨j, hj, hleaf⟩)
        · exact ⟨0, by omega, hleaf⟩
        · exact ⟨j + 1, by omega, by rw [← hindex]; exact hleaf⟩
      · rintro ⟨j, hj, hleaf⟩
        cases j with
        | zero => exact .inl hleaf
        | succ j => exact .inr ⟨j, by omega, by rw [hindex]; exact hleaf⟩

end Loops

/-- A leaf adds its creatures that are in the ranges. -/
theorem mem_visitLeaf (m : Map C) (centerPos : Position) (r : Ranges) (onlyPlayers : Bool)
    (leaf : Nat) (s : Finset C) (c : C) :
    c ∈ m.visitLeaf centerPos r onlyPlayers leaf s ↔
      c ∈ s ∨ (c ∈ (if onlyPlayers then (m.leaves leaf).player_list
          else (m.leaves leaf).creature_list) ∧
        inRanges centerPos r (m.getPosition c) = true) := by
  rw [visitLeaf]
  generalize (if onlyPlayers then (m.leaves leaf).player_list
    else (m.leaves leaf).creature_list) = node_list
  induction node_list generalizing s with
  | nil => simp
  | cons creature node_list ih =>
      rw [List.foldl_cons, ih]
      by_cases hin : inRanges centerPos r (m.getPosition creature) = true
      · rw [if_pos hin, Finset.mem_insert, List.mem_cons]
        constructor
        · rintro ((rfl | hs) | ⟨hmem, hc⟩)
          · exact .inr ⟨.inl rfl, hin⟩
          · exact .inl hs
          · exact .inr ⟨.inr hmem, hc⟩
        · rintro (hs | ⟨rfl | hmem, hc⟩)
          · exact .inl (.inr hs)
          · exact .inl (.inl rfl)
          · exact .inr ⟨hmem, hc⟩
      · rw [if_neg hin, List.mem_cons]
        refine or_congr Iff.rfl ?_
        constructor
        · rintro ⟨hmem, hc⟩
          exact ⟨.inr hmem, hc⟩
        · rintro ⟨rfl | hmem, hc⟩
          · exact absurd hc hin
          · exact ⟨hmem, hc⟩

/-! ## The rectangle -/

/-- The corners of the search are 32-bit numbers. -/
def Fits (centerPos : Position) (r : Ranges) : Prop :=
  (-2147483648 ≤ centerPos.getX + r.minRangeX + (centerPos.getZ - r.maxRangeZ) ∧
      centerPos.getX + r.maxRangeX + (centerPos.getZ - r.minRangeZ) ≤ 2147483647) ∧
    -2147483648 ≤ centerPos.getY + r.minRangeY + (centerPos.getZ - r.maxRangeZ) ∧
      centerPos.getY + r.maxRangeY + (centerPos.getZ - r.minRangeZ) ≤ 2147483647

instance (centerPos : Position) (r : Ranges) : Decidable (Fits centerPos r) :=
  inferInstanceAs (Decidable (_ ∧ _))

theorem toInt32_of_fits {v : Int} (hlow : -2147483648 ≤ v) (hhigh : v ≤ 2147483647) :
    toInt32 v = v := by
  rw [toInt32, BitVec.toInt_ofInt]
  exact Int.bmod_eq_of_le (by omega) (by omega)

/-- The lower corner is not beyond a coordinate that the range has. -/
theorem clampCoord_le {v : Int} (hlow : -2147483648 ≤ v) {a : BitVec 16} (ha : v ≤ a.toNat) :
    clampCoord v ≤ a.toNat := by
  have hlt := a.isLt
  rw [clampCoord, toInt32_of_fits hlow (by omega)]
  omega

theorem le_clampCoord {v : Int} (hhigh : v ≤ 2147483647) {a : BitVec 16} (ha : a.toNat ≤ v) :
    a.toNat ≤ clampCoord v := by
  have hlt := a.isLt
  rw [clampCoord, toInt32_of_fits (by omega) hhigh]
  omega

/-- The loop between two corners comes to the column of a coordinate. -/
def Visited (v w : Nat) (a : BitVec 16) : Prop :=
  ∃ i < loopCount (v - v % FLOOR_SIZE) (w - w % FLOOR_SIZE),
    leafCoord (.ofNat 32 (v - v % FLOOR_SIZE + FLOOR_SIZE * i)) = leafCoord (a.setWidth 32)

/-- A coordinate between two corners belongs to one of the columns between them. -/
theorem visited_of_le {a : BitVec 16} {v w : Nat} (hv : v ≤ a.toNat) (hw : a.toNat ≤ w) :
    Visited v w a := by
  have hsize : FLOOR_SIZE = 8 := rfl
  have hlt := a.isLt
  rw [Visited, hsize]
  refine ⟨a.toNat / 8 - v / 8, ?_, ?_⟩
  · rw [loopCount, hsize]
    split <;> omega
  · rw [leafCoord, leafCoord, BitVec.toNat_ofNat, BitVec.toNat_setWidth]
    omega

/-! ## Corners that do not fit -/

/-- A lower corner below the 32-bit numbers becomes the border on the other side. -/
theorem clampCoord_of_low {v : Int} (hlow : v < -2147483648) (hhigh : -2147549184 ≤ v) :
    clampCoord v = 65535 := by
  have hwrap : toInt32 v = v + 4294967296 := by
    rw [toInt32, BitVec.toInt_ofInt, Int.bmod_def]
    omega
  rw [clampCoord, hwrap]
  omega

theorem clampCoord_of_high {v : Int} (hlow : 2147483647 < v) (hhigh : v ≤ 2147549184) :
    clampCoord v = 0 := by
  have hwrap : toInt32 v = v - 4294967296 := by
    rw [toInt32, BitVec.toInt_ofInt, Int.bmod_def]
    omega
  rw [clampCoord, hwrap]
  omega

theorem clampCoord_le_last (v : Int) : clampCoord v ≤ 65535 := by
  rw [clampCoord]
  omega

/-- From the last column on there is no way to the first one. -/
theorem not_visited_zero {w : Nat} (hw : w ≤ 65535) : ¬Visited 65535 w 0 := by
  rintro ⟨i, hi, hcolumn⟩
  have hsize : FLOOR_SIZE = 8 := rfl
  rw [loopCount, hsize] at hi
  rw [leafCoord, leafCoord, BitVec.toNat_ofNat, BitVec.toNat_setWidth, hsize] at hcolumn
  have hzero : (0 : BitVec 16).toNat = 0 := rfl
  split at hi <;> omega

theorem not_visited_last (v : Nat) : ¬Visited v 0 0xFFFF := by
  rintro ⟨i, hi, hcolumn⟩
  have hsize : FLOOR_SIZE = 8 := rfl
  rw [loopCount, hsize] at hi
  rw [leafCoord, leafCoord, BitVec.toNat_ofNat, BitVec.toNat_setWidth, hsize] at hcolumn
  have hlast : (0xFFFF : BitVec 16).toNat = 65535 := rfl
  split at hi <;> omega

/-! ## The search -/

/-- What is in the caller's set plays no part in the search. -/
theorem WellFormed.mem_getSpectatorsInternal {m : Map C} (h : m.WellFormed isPlayer)
    (s : Finset C) (centerPos : Position) (r : Ranges) (onlyPlayers : Bool) (c : C) :
    c ∈ m.getSpectatorsInternal s centerPos r onlyPlayers ↔
      c ∈ s ∨ c ∈ m.getSpectatorsInternal ∅ centerPos r onlyPlayers := by
  have hvisit := m.mem_visitLeaf centerPos r onlyPlayers
  rw [getSpectatorsInternal, getSpectatorsInternal, mem_visitRows m h.linked hvisit,
    mem_visitRows m h.linked hvisit]
  simp only [Finset.notMem_empty, false_or]

omit [DecidableEq C] in
theorem WellFormed.mem_player_list {m : Map C} (h : m.WellFormed isPlayer) (n : Nat) (c : C) :
    c ∈ (m.leaves n).player_list ↔ c ∈ (m.leaves n).creature_list ∧ isPlayer c = true := by
  rw [(h.players n).mem_iff, List.mem_filter]

/-- A found creature is in a leaf of the rectangle. -/
theorem WellFormed.column_of_mem {m : Map C} (h : m.WellFormed isPlayer) {centerPos : Position}
    {r : Ranges} {onlyPlayers : Bool} {c : C}
    (hc : c ∈ m.getSpectatorsInternal ∅ centerPos r onlyPlayers) :
    (∃ pos, m.parent c = some pos ∧
      Visited (clampCoord (centerPos.getX + r.minRangeX + (centerPos.getZ - r.maxRangeZ)))
        (clampCoord (centerPos.getX + r.maxRangeX + (centerPos.getZ - r.minRangeZ))) pos.x ∧
      Visited (clampCoord (centerPos.getY + r.minRangeY + (centerPos.getZ - r.maxRangeZ)))
        (clampCoord (centerPos.getY + r.maxRangeY + (centerPos.getZ - r.minRangeZ))) pos.y ∧
      InRanges centerPos r pos) ∧ (onlyPlayers = true → isPlayer c = true) := by
  rw [getSpectatorsInternal,
    mem_visitRows m h.linked (m.mem_visitLeaf centerPos r onlyPlayers)] at hc
  obtain ⟨j, hj, i, hi, leaf, hleaf, hlist, hin⟩ := hc.resolve_left (Finset.notMem_empty c)
  have hcreature : c ∈ (m.leaves leaf).creature_list := by
    split at hlist
    · exact ((h.mem_player_list leaf c).mp hlist).1
    · exact hlist
  obtain ⟨pos, hparent, hpos⟩ := (h.registered c leaf).mp hcreature
  have hsame := h.linked.distinct _ _ _ _ _ hpos hleaf
  refine ⟨⟨pos, hparent, ⟨i, hi, hsame.1⟩, ⟨j, hj, hsame.2⟩, ?_⟩, fun honly => ?_⟩
  · rw [inRanges_iff, getPosition, hparent] at hin
    exact hin
  · rw [if_pos honly] at hlist
    exact ((h.mem_player_list leaf c).mp hlist).2

/-- A found creature is one that was to be found. -/
theorem WellFormed.seen_of_mem {m : Map C} (h : m.WellFormed isPlayer) {centerPos : Position}
    {r : Ranges} {onlyPlayers : Bool} {c : C}
    (hc : c ∈ m.getSpectatorsInternal ∅ centerPos r onlyPlayers) :
    m.Seen isPlayer centerPos r onlyPlayers c := by
  obtain ⟨⟨pos, hparent, _, _, hin⟩, honly⟩ := h.column_of_mem hc
  exact ⟨⟨pos, hparent, hin⟩, honly⟩

/-- A creature that is to be found is in a leaf of the rectangle. -/
theorem WellFormed.mem_of_seen {m : Map C} (h : m.WellFormed isPlayer) {centerPos : Position}
    {r : Ranges} (hfits : Fits centerPos r) {onlyPlayers : Bool} {c : C}
    (hc : m.Seen isPlayer centerPos r onlyPlayers c) :
    c ∈ m.getSpectatorsInternal ∅ centerPos r onlyPlayers := by
  obtain ⟨⟨pos, hparent, hin⟩, honly⟩ := hc
  obtain ⟨⟨hminX, hmaxX⟩, hminY, hmaxY⟩ := hfits
  have hin' := hin
  obtain ⟨⟨hzmin, hzmax⟩, ⟨hxmin, hxmax⟩, hymin, hymax⟩ := hin'
  rw [getSpectatorsInternal,
    mem_visitRows m h.linked (m.mem_visitLeaf centerPos r onlyPlayers)]
  have hx : (pos.x.toNat : Int) = pos.getX := rfl
  have hy : (pos.y.toNat : Int) = pos.getY := rfl
  obtain ⟨i, hi, hcolumn⟩ := visited_of_le
    (clampCoord_le hminX (a := pos.x) (by omega)) (le_clampCoord hmaxX (a := pos.x) (by omega))
  obtain ⟨j, hj, hrow⟩ := visited_of_le
    (clampCoord_le hminY (a := pos.y) (by omega)) (le_clampCoord hmaxY (a := pos.y) (by omega))
  obtain ⟨_, leaf, hleaf⟩ := h.tile pos (h.placed c pos hparent)
  have hcreature := (h.registered c leaf).mpr ⟨pos, hparent, hleaf⟩
  refine .inr ⟨j, hj, i, hi, leaf, ?_, ?_, ?_⟩
  · rw [← hleaf]
    exact (getLeaf_congr h.linked.uniform ⟨hcolumn, hrow⟩)
  · split
    case isTrue hplayers =>
      exact (h.mem_player_list leaf c).mpr ⟨hcreature, honly hplayers⟩
    case isFalse => exact hcreature
  · rw [inRanges_iff, getPosition, hparent]
    exact hin

/-- The search adds the creatures that are to be found. -/
theorem WellFormed.mem_getSpectatorsInternal_iff {m : Map C} (h : m.WellFormed isPlayer)
    {centerPos : Position} {r : Ranges} (hfits : Fits centerPos r) (s : Finset C)
    (onlyPlayers : Bool) (c : C) :
    c ∈ m.getSpectatorsInternal s centerPos r onlyPlayers ↔
      c ∈ s ∨ m.Seen isPlayer centerPos r onlyPlayers c := by
  rw [h.mem_getSpectatorsInternal]
  exact or_congr Iff.rfl ⟨h.seen_of_mem, h.mem_of_seen hfits⟩

end Map

end Infernum
