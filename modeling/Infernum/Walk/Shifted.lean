import Infernum.Lib.TransitionSystem
import Infernum.Walk.WalkCache

/-!
# The shifted walk cache

When the shifted cache is what a full computation gives. Every step but the two
that go south-east and south-west keeps it so; these leave the northernmost row
where it was and shift the southernmost row, which is already right.
-/

namespace Infernum

open Lib

namespace Walker

variable {T : Type} {queryAdd : T → Bool} {s t : Walker T}

/-! ## Single cells -/

/-- What stays when the cache is updated. -/
def frame (s : Walker T) : (Position → Option T) × Position × Bool × Bool :=
  (s.getTile, s.position, s.isMapLoaded, s.useCacheMap)

section Frame

variable (h : t.frame = s.frame)
include h

theorem frame_getTile : t.getTile = s.getTile := congrArg (·.1) h

theorem frame_position : t.position = s.position := congrArg (·.2.1) h

theorem frame_isMapLoaded : t.isMapLoaded = s.isMapLoaded := congrArg (·.2.2.1) h

end Frame

/-- A distance that belongs to a cell. -/
def Hits (dx dy : Int) (y x : Nat) : Prop :=
  dx.natAbs ≤ 11 ∧ dy.natAbs ≤ 11 ∧ (y : Int) = 11 + dy ∧ (x : Int) = 11 + dx

instance (dx dy : Int) (y x : Nat) : Decidable (Hits dx dy y x) :=
  inferInstanceAs (Decidable (_ ∧ _ ∧ _ ∧ _))

theorem updateTileCache_frame (tile : Option T) (dx dy : Int) :
    (s.updateTileCache queryAdd tile dx dy).frame = s.frame := by
  unfold updateTileCache
  split <;> rfl

theorem updateTileCacheAt_frame (tile : Option T) (pos : Position) :
    (s.updateTileCacheAt queryAdd tile pos).frame = s.frame := by
  unfold updateTileCacheAt
  split
  · exact updateTileCache_frame _ _ _
  · rfl

theorem setCell_apply (cache : Nat → Nat → Bool) (y₀ x₀ : Nat) (b : Bool) (y x : Nat) :
    setCell cache y₀ x₀ b y x = if y = y₀ ∧ x = x₀ then b else cache y x := by
  unfold setCell
  by_cases hy : y = y₀
  · rw [hy, Function.update_self]
    by_cases hx : x = x₀
    · rw [hx, Function.update_self, if_pos ⟨rfl, rfl⟩]
    · rw [Function.update_of_ne hx, if_neg (fun h => hx h.2)]
  · rw [Function.update_of_ne hy, if_neg (fun h => hy h.1)]

theorem updateTileCache_apply (tile : Option T) (dx dy : Int) (y x : Nat) :
    (s.updateTileCache queryAdd tile dx dy).localMapCache y x =
      if Hits dx dy y x then walkable queryAdd tile else s.localMapCache y x := by
  have hw : maxWalkCacheWidth = 11 := rfl
  have hh : maxWalkCacheHeight = 11 := rfl
  have hhits : Hits dx dy y x ↔
      dx.natAbs ≤ 11 ∧ dy.natAbs ≤ 11 ∧ (y : Int) = 11 + dy ∧ (x : Int) = 11 + dx := Iff.rfl
  unfold updateTileCache
  rw [hw, hh]
  by_cases hrange : dx.natAbs ≤ 11 ∧ dy.natAbs ≤ 11
  · rw [if_pos hrange]
    show setCell _ _ _ _ y x = _
    rw [setCell_apply]
    refine if_congr ?_ rfl rfl
    rw [hhits]
    omega
  · rw [if_neg hrange, if_neg fun h => hrange ⟨h.1, h.2.1⟩]

/-- A loop over cells that leaves everything else alone and writes the same value each
time it comes to a cell. -/
theorem foldl_apply {κ : Type} (l : List κ) (hits : κ → Prop) [DecidablePred hits] (v : Bool)
    {f : κ → Walker T → Walker T} {y x : Nat} (hframe : ∀ k t, (f k t).frame = t.frame)
    (hstep : ∀ k ∈ l, ∀ t, t.frame = s.frame →
      (f k t).localMapCache y x = if hits k then v else t.localMapCache y x) :
    (l.foldl (fun t k => f k t) s).localMapCache y x =
      if ∃ k ∈ l, hits k then v else s.localMapCache y x := by
  induction l generalizing s with
  | nil => simp
  | cons k l ih =>
      have hfirst := hstep k List.mem_cons_self s rfl
      have hrest := ih (s := f k s) fun k' hk' t ht =>
        hstep k' (List.mem_cons_of_mem _ hk') t (ht.trans (hframe k s))
      rw [List.foldl_cons, hrest, hfirst]
      by_cases hk : hits k <;> by_cases hl : ∃ k' ∈ l, hits k' <;> simp [hk, hl]

theorem foldl_frame {κ : Type} (l : List κ) {f : κ → Walker T → Walker T}
    (hframe : ∀ k t, (f k t).frame = t.frame) : (l.foldl (fun t k => f k t) s).frame = s.frame := by
  induction l generalizing s with
  | nil => rfl
  | cons k l ih => rw [List.foldl_cons, ih, hframe]

theorem mem_offsets {n : Nat} {v : Int} : v ∈ offsets n ↔ v.natAbs ≤ n := by
  unfold offsets
  rw [List.mem_map]
  constructor
  · rintro ⟨i, hi, rfl⟩
    rw [List.mem_range] at hi
    omega
  · intro hv
    exact ⟨(v + n).toNat, List.mem_range.mpr (by omega), by omega⟩

/-! ## The whole cache -/

/-- What a cell should say: the tile at the distance of the cell. -/
def value (queryAdd : T → Bool) (s : Walker T) (y x : Nat) : Bool :=
  walkable queryAdd (s.getTile (s.place (x - 11) (y - 11)))

/-- A cell whose tile has coordinates that fit into 16 bits. -/
def InWorld (s : Walker T) (y x : Nat) : Prop :=
  (0 ≤ s.position.getX + x - 11 ∧ s.position.getX + x - 11 < 65536) ∧
    0 ≤ s.position.getY + y - 11 ∧ s.position.getY + y - 11 < 65536

instance (s : Walker T) (y x : Nat) : Decidable (s.InWorld y x) :=
  inferInstanceAs (Decidable (_ ∧ _ ∧ _))

theorem coordinate_toNat (v : Int) : ((coordinate v).toNat : Int) = v % 65536 := by
  unfold coordinate
  rw [BitVec.toNat_ofInt]
  omega

theorem position_lt (p : Position) :
    (0 ≤ p.getX ∧ p.getX < 65536) ∧ 0 ≤ p.getY ∧ p.getY < 65536 := by
  have hx := p.x.isLt
  have hy := p.y.isLt
  unfold Position.getX Position.getY
  omega

theorem place_getX (x y : Int) : (s.place x y).getX = (s.position.getX + x) % 65536 :=
  coordinate_toNat _

theorem place_getY (x y : Int) : (s.place x y).getY = (s.position.getY + y) % 65536 :=
  coordinate_toNat _

/-- The places beyond the edge of the world come out too far away to be written. -/
theorem hits_place {x' y' : Int} {y x : Nat} (hx' : x'.natAbs ≤ 11) (hy' : y'.natAbs ≤ 11) :
    Hits ((s.place x' y').getX - s.position.getX) ((s.place x' y').getY - s.position.getY) y x ↔
      (s.InWorld y x ∧ x' = x - 11) ∧ y' = y - 11 := by
  have hp := position_lt s.position
  rw [place_getX, place_getY]
  unfold Hits InWorld
  omega

theorem updateTileCacheAt_apply (tile : Option T) {pos : Position} (hz : pos.z = s.position.z)
    (y x : Nat) :
    (s.updateTileCacheAt queryAdd tile pos).localMapCache y x =
      if Hits (pos.getX - s.position.getX) (pos.getY - s.position.getY) y x then
        walkable queryAdd tile
      else s.localMapCache y x := by
  rw [updateTileCacheAt, if_pos hz, updateTileCache_apply]

theorem updateMapCache_frame : (s.updateMapCache queryAdd).frame = s.frame :=
  foldl_frame _ fun _ _ => foldl_frame _ fun _ _ => updateTileCacheAt_frame _ _

/-- The places beyond the edge of the world come out too far away to be written. -/
theorem updateMapCache_apply {y x : Nat} (hy : y < 23) (hx : x < 23) :
    (s.updateMapCache queryAdd).localMapCache y x =
      if s.InWorld y x then s.value queryAdd y x else s.localMapCache y x := by
  have hinner (y' : Int) (hy' : y'.natAbs ≤ 11) (t : Walker T) (ht : t.frame = s.frame) :
      ((offsets maxWalkCacheWidth).foldl (fun t x =>
        t.updateTileCacheAt queryAdd (s.getTile (s.place x y')) (s.place x y')) t).localMapCache y x =
        if s.InWorld y x ∧ y' = y - 11 then s.value queryAdd y x else t.localMapCache y x := by
    have hloop := foldl_apply (s := t) (offsets maxWalkCacheWidth)
      (fun x' => (s.InWorld y x ∧ x' = x - 11) ∧ y' = y - 11) (s.value queryAdd y x)
      (y := y) (x := x) (f := fun x t =>
        t.updateTileCacheAt queryAdd (s.getTile (s.place x y')) (s.place x y'))
      (fun _ _ => updateTileCacheAt_frame _ _) fun x' hx' t' ht' => by
        have hposition : t'.position = s.position := frame_position (ht'.trans ht)
        have hhits : Hits ((s.place x' y').getX - t'.position.getX)
            ((s.place x' y').getY - t'.position.getY) y x ↔
            (s.InWorld y x ∧ x' = x - 11) ∧ y' = y - 11 := by
          rw [hposition]
          exact hits_place (mem_offsets.mp hx') hy'
        rw [updateTileCacheAt_apply _ (by rw [hposition]; rfl)]
        by_cases hhit : (s.InWorld y x ∧ x' = x - 11) ∧ y' = y - 11
        · rw [if_pos (hhits.mpr hhit), if_pos hhit, hhit.1.2, hhit.2]
          rfl
        · rw [if_neg (mt hhits.mp hhit), if_neg hhit]
    rw [hloop]
    refine if_congr ⟨fun ⟨_, _, h⟩ => ⟨h.1.1, h.2⟩, fun h => ⟨x - 11, ?_, ⟨h.1, rfl⟩, h.2⟩⟩ rfl rfl
    exact mem_offsets.mpr (by show ((x : Int) - 11).natAbs ≤ 11; omega)
  have houter := foldl_apply (s := s) (offsets maxWalkCacheHeight)
    (fun y' => s.InWorld y x ∧ y' = y - 11) (s.value queryAdd y x) (y := y) (x := x)
    (f := fun y t => (offsets maxWalkCacheWidth).foldl (fun t x =>
      t.updateTileCacheAt queryAdd (s.getTile (s.place x y)) (s.place x y)) t)
    (fun _ _ => foldl_frame _ fun _ _ => updateTileCacheAt_frame _ _)
    fun y' hy' t ht => hinner y' (mem_offsets.mp hy') t ht
  rw [updateMapCache, houter]
  refine if_congr ⟨fun ⟨_, _, h⟩ => h.1, fun h => ⟨y - 11, ?_, h, rfl⟩⟩ rfl rfl
  exact mem_offsets.mpr (by show ((y : Int) - 11).natAbs ≤ 11; omega)

/-! ## Rows and columns -/

/-- A row that is computed anew. -/
theorem updateRow_apply {dy : Int} (hdy : dy.natAbs ≤ 11) {y x : Nat} (hx : x < 23) :
    (s.updateRow queryAdd dy).localMapCache y x =
      if (y : Int) = 11 + dy then s.value queryAdd y x else s.localMapCache y x := by
  have hloop := foldl_apply (s := s) (offsets maxWalkCacheWidth)
    (fun x' => x' = (x : Int) - 11 ∧ (y : Int) = 11 + dy) (s.value queryAdd y x) (y := y) (x := x)
    (f := fun x t => t.updateTileCache queryAdd (s.getTile (s.place x dy)) x dy)
    (fun _ _ => updateTileCache_frame _ _ _) fun x' hx' t _ => by
      have hrange := mem_offsets.mp hx'
      have hhits : Hits x' dy y x ↔ x' = (x : Int) - 11 ∧ (y : Int) = 11 + dy := by
        show x'.natAbs ≤ 11 ∧ dy.natAbs ≤ 11 ∧ (y : Int) = 11 + dy ∧ (x : Int) = 11 + x' ↔ _
        omega
      rw [updateTileCache_apply]
      by_cases hhit : x' = (x : Int) - 11 ∧ (y : Int) = 11 + dy
      · have hplace : dy = (y : Int) - 11 := by omega
        rw [if_pos (hhits.mpr hhit), if_pos hhit, hhit.1, hplace]
        rfl
      · rw [if_neg (mt hhits.mp hhit), if_neg hhit]
  rw [updateRow, hloop]
  refine if_congr ⟨fun ⟨_, _, h⟩ => h.2, fun h => ⟨x - 11, mem_offsets.mpr ?_, rfl, h⟩⟩ rfl rfl
  show ((x : Int) - 11).natAbs ≤ 11
  omega

/-- A column that is computed anew. -/
theorem updateColumn_apply {dx : Int} (hdx : dx.natAbs ≤ 11) {y x : Nat} (hy : y < 23) :
    (s.updateColumn queryAdd dx).localMapCache y x =
      if (x : Int) = 11 + dx then s.value queryAdd y x else s.localMapCache y x := by
  have hloop := foldl_apply (s := s) (offsets maxWalkCacheHeight)
    (fun y' => y' = (y : Int) - 11 ∧ (x : Int) = 11 + dx) (s.value queryAdd y x) (y := y) (x := x)
    (f := fun y t => t.updateTileCache queryAdd (s.getTile (s.place dx y)) dx y)
    (fun _ _ => updateTileCache_frame _ _ _) fun y' hy' t _ => by
      have hrange := mem_offsets.mp hy'
      have hhits : Hits dx y' y x ↔ y' = (y : Int) - 11 ∧ (x : Int) = 11 + dx := by
        show dx.natAbs ≤ 11 ∧ y'.natAbs ≤ 11 ∧ (y : Int) = 11 + y' ∧ (x : Int) = 11 + dx ↔ _
        omega
      rw [updateTileCache_apply]
      by_cases hhit : y' = (y : Int) - 11 ∧ (x : Int) = 11 + dx
      · have hplace : dx = (x : Int) - 11 := by omega
        rw [if_pos (hhits.mpr hhit), if_pos hhit, hhit.1, hplace]
        rfl
      · rw [if_neg (mt hhits.mp hhit), if_neg hhit]
  rw [updateColumn, hloop]
  refine if_congr ⟨fun ⟨_, _, h⟩ => h.2, fun h => ⟨y - 11, mem_offsets.mpr ?_, rfl, h⟩⟩ rfl rfl
  show ((y : Int) - 11).natAbs ≤ 11
  omega

/-- The value of a cell depends on the map and the place alone. -/
theorem value_congr (h : t.frame = s.frame) (y x : Nat) :
    t.value queryAdd y x = s.value queryAdd y x := by
  unfold value place
  rw [frame_getTile h, frame_position h]

section Shifts

variable {oldPos newPos : Position} {y x : Nat}

theorem shiftRows_frame : (s.shiftRows queryAdd oldPos newPos).frame = s.frame := by
  unfold shiftRows
  split
  · exact foldl_frame _ fun _ _ => updateTileCache_frame _ _ _
  · split
    · exact foldl_frame _ fun _ _ => updateTileCache_frame _ _ _
    · rfl

theorem shiftColumns_frame : (s.shiftColumns queryAdd oldPos newPos).frame = s.frame := by
  unfold shiftColumns
  split
  · exact foldl_frame _ fun _ _ => updateTileCache_frame _ _ _
  · split
    · exact foldl_frame _ fun _ _ => updateTileCache_frame _ _ _
    · rfl

theorem shiftRows_north (hnorth : newPos.getY < oldPos.getY) (hy : y < 23) (hx : x < 23) :
    (s.shiftRows queryAdd oldPos newPos).localMapCache y x =
      if y = 0 then s.value queryAdd y x else s.localMapCache (y - 1) x := by
  rw [shiftRows, if_pos hnorth, updateRow_apply (by decide) hx]
  by_cases hfirst : y = 0
  · rw [if_pos (by rw [hfirst]; rfl), if_pos hfirst]
    rfl
  · rw [if_neg (by show ¬(y : Int) = 11 + -11; omega), if_neg hfirst]
    show shiftUp (mapWalkHeight - 1) s.localMapCache y x = _
    rw [shiftUp_apply, if_pos ⟨by omega, by show y ≤ 22; omega⟩]

theorem shiftRows_south (hsouth : oldPos.getY < newPos.getY) (hy : y < 23) (hx : x < 23) :
    (s.shiftRows queryAdd oldPos newPos).localMapCache y x =
      if y = 22 then s.value queryAdd y x else s.localMapCache (y + 1) x := by
  rw [shiftRows, if_neg (by omega), if_pos hsouth, updateRow_apply (by decide) hx]
  by_cases hlast : y = 22
  · rw [if_pos (by rw [hlast]; rfl), if_pos hlast]
    rfl
  · rw [if_neg (by show ¬(y : Int) = 11 + 11; omega), if_neg hlast]
    show shiftDown (mapWalkHeight - 1) s.localMapCache y x = _
    rw [shiftDown_apply, if_pos (by show y < 22; omega)]

theorem shiftRows_level (hlevel : oldPos.getY = newPos.getY) :
    s.shiftRows queryAdd oldPos newPos = s := by
  rw [shiftRows, if_neg (by omega), if_neg (by omega)]

/-- The distance is never negative: the rows are those from it to the last one. -/
theorem mem_shiftedRows (hdistance : (oldPos.getY - newPos.getY).natAbs ≤ 1) (hy : y < 23) :
    y ∈ shiftedRows oldPos newPos ↔ (oldPos.getY - newPos.getY).natAbs ≤ y := by
  have hheight : (mapWalkHeight : Int) = 23 := rfl
  have hnonneg : ¬(((oldPos.getY - newPos.getY).natAbs : Int) < 0) := by omega
  have hstart : (if 0 < ((oldPos.getY - newPos.getY).natAbs : Int) then
      ((oldPos.getY - newPos.getY).natAbs : Int) else 0) = (oldPos.getY - newPos.getY).natAbs := by
    split <;> omega
  unfold shiftedRows getDistanceY
  simp only [if_neg hnonneg, hstart, hheight]
  rw [List.mem_range']
  constructor
  · rintro ⟨i, hi, rfl⟩
    omega
  · intro h
    exact ⟨y - (oldPos.getY - newPos.getY).natAbs, by omega, by omega⟩

theorem nodup_shiftedRows : (shiftedRows oldPos newPos).Nodup := by
  unfold shiftedRows
  exact List.nodup_range' 1

theorem shiftColumns_east (heast : oldPos.getX < newPos.getX)
    (hdistance : (oldPos.getY - newPos.getY).natAbs ≤ 1) (hy : y < 23) (hx : x < 23) :
    (s.shiftColumns queryAdd oldPos newPos).localMapCache y x =
      if x = 22 then s.value queryAdd y x
      else if (oldPos.getY - newPos.getY).natAbs ≤ y then s.localMapCache y (x + 1)
      else s.localMapCache y x := by
  rw [shiftColumns, if_pos heast, updateColumn_apply (by decide) hy]
  by_cases hlast : x = 22
  · rw [if_pos (by rw [hlast]; rfl), if_pos hlast]
    rfl
  · rw [if_neg (by show ¬(x : Int) = 11 + 11; omega), if_neg hlast]
    show (shiftedRows oldPos newPos).foldl _ s.localMapCache y x = _
    rw [foldl_change nodup_shiftedRows]
    by_cases hrow : y ∈ shiftedRows oldPos newPos
    · rw [if_pos hrow, if_pos ((mem_shiftedRows hdistance hy).mp hrow), shiftDown_apply,
        if_pos (by show x < 22; omega)]
    · rw [if_neg hrow, if_neg (mt (mem_shiftedRows hdistance hy).mpr hrow)]

theorem shiftColumns_west (hwest : newPos.getX < oldPos.getX)
    (hdistance : (oldPos.getY - newPos.getY).natAbs ≤ 1) (hy : y < 23) (hx : x < 23) :
    (s.shiftColumns queryAdd oldPos newPos).localMapCache y x =
      if x = 0 then s.value queryAdd y x
      else if (oldPos.getY - newPos.getY).natAbs ≤ y then s.localMapCache y (x - 1)
      else s.localMapCache y x := by
  rw [shiftColumns, if_neg (by omega), if_pos hwest, updateColumn_apply (by decide) hy]
  by_cases hfirst : x = 0
  · rw [if_pos (by rw [hfirst]; rfl), if_pos hfirst]
    rfl
  · rw [if_neg (by show ¬(x : Int) = 11 + -11; omega), if_neg hfirst]
    show (shiftedRows oldPos newPos).foldl _ s.localMapCache y x = _
    rw [foldl_change nodup_shiftedRows]
    by_cases hrow : y ∈ shiftedRows oldPos newPos
    · rw [if_pos hrow, if_pos ((mem_shiftedRows hdistance hy).mp hrow), shiftUp_apply,
        if_pos ⟨by omega, by show x ≤ 22; omega⟩]
    · rw [if_neg hrow, if_neg (mt (mem_shiftedRows hdistance hy).mpr hrow)]

theorem shiftColumns_level (hlevel : oldPos.getX = newPos.getX) :
    s.shiftColumns queryAdd oldPos newPos = s := by
  rw [shiftColumns, if_neg (by omega), if_neg (by omega)]

/-- Every row shows the place that it showed from where the creature was, but the one
that came into sight. -/
theorem shiftRows_apply (hdistance : (oldPos.getY - newPos.getY).natAbs ≤ 1) (hy : y < 23)
    (hx : x < 23) :
    (s.shiftRows queryAdd oldPos newPos).localMapCache y x =
      if 0 ≤ y + (newPos.getY - oldPos.getY) ∧ y + (newPos.getY - oldPos.getY) < 23 then
        s.localMapCache (y + (newPos.getY - oldPos.getY)).toNat x
      else s.value queryAdd y x := by
  obtain hnorth | hlevel | hsouth := Int.lt_trichotomy newPos.getY oldPos.getY
  · rw [shiftRows_north hnorth hy hx]
    by_cases hfirst : y = 0
    · rw [if_pos hfirst, if_neg (by omega)]
    · have hrow : y - 1 = (y + (newPos.getY - oldPos.getY)).toNat := by omega
      rw [if_neg hfirst, if_pos (by omega), hrow]
  · have hrow : y = (y + (newPos.getY - oldPos.getY)).toNat := by omega
    rw [shiftRows_level hlevel.symm, if_pos (by omega), ← hrow]
  · rw [shiftRows_south hsouth hy hx]
    by_cases hlast : y = 22
    · rw [if_pos hlast, if_neg (by omega)]
    · have hrow : y + 1 = (y + (newPos.getY - oldPos.getY)).toNat := by omega
      rw [if_neg hlast, if_pos (by omega), hrow]

/-- The same for the columns, in the rows that are shifted. -/
theorem shiftColumns_apply (hwidth : (oldPos.getX - newPos.getX).natAbs ≤ 1)
    (hdistance : (oldPos.getY - newPos.getY).natAbs ≤ 1) (hy : y < 23) (hx : x < 23) :
    (s.shiftColumns queryAdd oldPos newPos).localMapCache y x =
      if 0 ≤ x + (newPos.getX - oldPos.getX) ∧ x + (newPos.getX - oldPos.getX) < 23 then
        if (oldPos.getY - newPos.getY).natAbs ≤ y then
          s.localMapCache y (x + (newPos.getX - oldPos.getX)).toNat
        else s.localMapCache y x
      else s.value queryAdd y x := by
  obtain hwest | hlevel | heast := Int.lt_trichotomy newPos.getX oldPos.getX
  · rw [shiftColumns_west hwest hdistance hy hx]
    by_cases hfirst : x = 0
    · rw [if_pos hfirst, if_neg (by omega)]
    · have hcolumn : x - 1 = (x + (newPos.getX - oldPos.getX)).toNat := by omega
      have hin : 0 ≤ x + (newPos.getX - oldPos.getX) ∧ x + (newPos.getX - oldPos.getX) < 23 := by omega
      rw [if_neg hfirst, if_pos hin, hcolumn]
  · have hcolumn : x = (x + (newPos.getX - oldPos.getX)).toNat := by omega
    rw [shiftColumns_level hlevel.symm, if_pos (by omega), ← hcolumn, ite_self]
  · rw [shiftColumns_east heast hdistance hy hx]
    by_cases hlast : x = 22
    · rw [if_pos hlast, if_neg (by omega)]
    · have hcolumn : x + 1 = (x + (newPos.getX - oldPos.getX)).toNat := by omega
      have hin : 0 ≤ x + (newPos.getX - oldPos.getX) ∧ x + (newPos.getX - oldPos.getX) < 23 := by omega
      rw [if_neg hlast, if_pos hin, hcolumn]

end Shifts

/-! ## The cache after a step -/

/-- The cache, its own cell apart, is what `updateMapCache` makes of it. -/
def Exact (queryAdd : T → Bool) (s : Walker T) : Prop :=
  ∀ y < mapWalkHeight, ∀ x < mapWalkWidth, (y, x) ≠ (maxWalkCacheHeight, maxWalkCacheWidth) →
    s.localMapCache y x = (s.updateMapCache queryAdd).localMapCache y x

theorem exact_iff : s.Exact queryAdd ↔ ∀ y < 23, ∀ x < 23, (y, x) ≠ (11, 11) → s.InWorld y x →
    s.localMapCache y x = s.value queryAdd y x := by
  constructor
  · intro h y hy x hx hown hworld
    have hcell := h y hy x hx hown
    rwa [updateMapCache_apply hy hx, if_pos hworld] at hcell
  · intro h y hy x hx hown
    rw [updateMapCache_apply hy hx]
    split
    · rename_i hworld
      exact h y hy x hx hown hworld
    · rfl

/-- A full computation leaves nothing to compute. -/
theorem exact_updateMapCache : (s.updateMapCache queryAdd).Exact queryAdd := by
  refine exact_iff.mpr fun y hy x hx _ hworld => ?_
  have hworld₀ : s.InWorld y x := by
    unfold InWorld at hworld ⊢
    rwa [frame_position updateMapCache_frame] at hworld
  rw [updateMapCache_apply hy hx, if_pos hworld₀, value_congr updateMapCache_frame]

/-- One of the eight tiles around a place, on the same floor. -/
def Neighbour (oldPos newPos : Position) : Prop :=
  (oldPos.getX - newPos.getX).natAbs ≤ 1 ∧ (oldPos.getY - newPos.getY).natAbs ≤ 1 ∧
    oldPos.z = newPos.z ∧ oldPos ≠ newPos

section Step

variable {newPos : Position} {oldTile newTile : T}

/-- The place of a cell in the world, as numbers. -/
theorem place_inWorld {y x : Nat} (h : s.InWorld y x) :
    (s.place (x - 11) (y - 11)).getX = s.position.getX + x - 11 ∧
      (s.place (x - 11) (y - 11)).getY = s.position.getY + y - 11 := by
  unfold InWorld at h
  rw [place_getX, place_getY]
  omega

/-- No other tile changes. -/
theorem moved_getTile {pos : Position} (hold : pos ≠ s.position) (hnew : pos ≠ newPos) :
    (s.moved newPos oldTile newTile).getTile pos = s.getTile pos :=
  (Function.update_of_ne hnew _ _).trans (Function.update_of_ne hold _ _)

/-- A cell that shows the same place as before still says what is right, unless one of
the two tiles that changed is there. -/
theorem moved_value (hexact : s.Exact queryAdd) {y x y₀ x₀ : Nat} (hy₀ : y₀ < 23) (hx₀ : x₀ < 23)
    (hz : s.position.z = newPos.z) (hx : s.position.getX + x₀ = newPos.getX + x)
    (hy : s.position.getY + y₀ = newPos.getY + y) (hown : (y, x) ≠ (11, 11))
    (hold : (y₀, x₀) ≠ (11, 11)) (hworld : (s.moved newPos oldTile newTile).InWorld y x) :
    s.localMapCache y₀ x₀ = (s.moved newPos oldTile newTile).value queryAdd y x := by
  have hworld₀ : s.InWorld y₀ x₀ := by
    have hnew : (s.moved newPos oldTile newTile).position = newPos := rfl
    unfold InWorld at hworld ⊢
    rw [hnew] at hworld
    omega
  have hplace : s.place (x₀ - 11) (y₀ - 11) =
      (s.moved newPos oldTile newTile).place (x - 11) (y - 11) := by
    have hx' : s.position.getX + ((x₀ : Int) - 11) = newPos.getX + ((x : Int) - 11) := by omega
    have hy' : s.position.getY + ((y₀ : Int) - 11) = newPos.getY + ((y : Int) - 11) := by omega
    unfold place
    rw [hx', hy', hz]
    rfl
  have hnumbers := place_inWorld hworld
  have hnumbers₀ := place_inWorld hworld₀
  have hneNew : (s.moved newPos oldTile newTile).place (x - 11) (y - 11) ≠ newPos := by
    intro h
    rw [h] at hnumbers
    have hnew : (s.moved newPos oldTile newTile).position = newPos := rfl
    rw [hnew] at hnumbers
    exact hown (Prod.ext (by show y = 11; omega) (by show x = 11; omega))
  have hneOld : s.place (x₀ - 11) (y₀ - 11) ≠ s.position := by
    intro h
    rw [h] at hnumbers₀
    exact hold (Prod.ext (by show y₀ = 11; omega) (by show x₀ = 11; omega))
  rw [exact_iff.mp hexact y₀ hy₀ x₀ hx₀ hold hworld₀, value, value]
  rw [hplace] at hneOld ⊢
  rw [moved_getTile hneOld hneNew]

/-- The cache after the shifts, before the old tile is looked at again. -/
def shifted (queryAdd : T → Bool) (s : Walker T) (newPos : Position) (oldTile newTile : T) :
    Walker T :=
  ((s.moved newPos oldTile newTile).shiftRows queryAdd s.position newPos).shiftColumns queryAdd
    s.position newPos

theorem shifted_frame :
    (s.shifted queryAdd newPos oldTile newTile).frame = (s.moved newPos oldTile newTile).frame :=
  shiftColumns_frame.trans shiftRows_frame

/-- The step goes south-east or south-west. -/
def SouthDiagonal (oldPos newPos : Position) : Prop :=
  oldPos.getY < newPos.getY ∧ oldPos.getX ≠ newPos.getX

/-- The cache after the shifts, cell by cell. -/
theorem shifted_apply (hnext : Neighbour s.position newPos) {y x : Nat} (hy : y < 23)
    (hx : x < 23) :
    (s.shifted queryAdd newPos oldTile newTile).localMapCache y x =
      if 0 ≤ x + (newPos.getX - s.position.getX) ∧ x + (newPos.getX - s.position.getX) < 23 then
        let x' := if (s.position.getY - newPos.getY).natAbs ≤ y then
          (x + (newPos.getX - s.position.getX)).toNat else x
        if 0 ≤ y + (newPos.getY - s.position.getY) ∧ y + (newPos.getY - s.position.getY) < 23 then
          s.localMapCache (y + (newPos.getY - s.position.getY)).toNat x'
        else (s.moved newPos oldTile newTile).value queryAdd y x'
      else (s.moved newPos oldTile newTile).value queryAdd y x := by
  have hcache : (s.moved newPos oldTile newTile).localMapCache = s.localMapCache := rfl
  rw [shifted, shiftColumns_apply hnext.1 hnext.2.1 hy hx]
  by_cases hcolumn : 0 ≤ x + (newPos.getX - s.position.getX) ∧
      x + (newPos.getX - s.position.getX) < 23
  · rw [if_pos hcolumn, if_pos hcolumn]
    dsimp only
    by_cases hrow : (s.position.getY - newPos.getY).natAbs ≤ y
    · rw [if_pos hrow, if_pos hrow, shiftRows_apply hnext.2.1 hy (by omega), hcache]
    · rw [if_neg hrow, if_neg hrow, shiftRows_apply hnext.2.1 hy hx, hcache]
  · rw [if_neg hcolumn, if_neg hcolumn, value_congr shiftRows_frame]

/-- The shifts leave every cell right, in a step to the south-east or south-west all but
those of the first and the last row. -/
theorem shifted_right (hexact : s.Exact queryAdd) (hnext : Neighbour s.position newPos) {y x : Nat}
    (hy : y < 23) (hx : x < 23) (hown : (y, x) ≠ (11, 11))
    (hold : ¬Hits (s.position.getX - newPos.getX) (s.position.getY - newPos.getY) y x)
    (hworld : (s.moved newPos oldTile newTile).InWorld y x)
    (hrow : ¬SouthDiagonal s.position newPos ∨ 0 < y ∧ y < 22) :
    (s.shifted queryAdd newPos oldTile newTile).localMapCache y x =
      (s.moved newPos oldTile newTile).value queryAdd y x := by
  obtain ⟨hdx, hdy, hz, -⟩ := id hnext
  have hold' : ¬((s.position.getX - newPos.getX).natAbs ≤ 11 ∧
      (s.position.getY - newPos.getY).natAbs ≤ 11 ∧
      (y : Int) = 11 + (s.position.getY - newPos.getY) ∧
      (x : Int) = 11 + (s.position.getX - newPos.getX)) := hold
  -- a cell that shows the same place as before
  have hcell (y₀ x₀ : Nat) (hy₀ : y₀ < 23) (hx₀ : x₀ < 23)
      (hmovex : s.position.getX + x₀ = newPos.getX + x)
      (hmovey : s.position.getY + y₀ = newPos.getY + y) :
      s.localMapCache y₀ x₀ = (s.moved newPos oldTile newTile).value queryAdd y x := by
    refine moved_value hexact hy₀ hx₀ hz hmovex hmovey hown (fun h => ?_) hworld
    have hy₁₁ : y₀ = 11 := congrArg Prod.fst h
    have hx₁₁ : x₀ = 11 := congrArg Prod.snd h
    omega
  unfold SouthDiagonal at hrow
  rw [shifted_apply hnext hy hx]
  by_cases hcolumn : 0 ≤ x + (newPos.getX - s.position.getX) ∧
      x + (newPos.getX - s.position.getX) < 23
  · rw [if_pos hcolumn]
    dsimp only
    by_cases hrows : 0 ≤ y + (newPos.getY - s.position.getY) ∧
        y + (newPos.getY - s.position.getY) < 23
    · rw [if_pos hrows]
      by_cases hshift : (s.position.getY - newPos.getY).natAbs ≤ y
      · rw [if_pos hshift]
        exact hcell _ _ (by omega) (by omega) (by omega) (by omega)
      · -- the first row, which is the same one unless the step goes south
        rw [if_neg hshift]
        exact hcell _ _ (by omega) (by omega) (by omega) (by omega)
    · -- the row that came into sight
      rw [if_neg hrows]
      by_cases hshift : (s.position.getY - newPos.getY).natAbs ≤ y
      · have hsame : (x + (newPos.getX - s.position.getX)).toNat = x := by omega
        rw [if_pos hshift, hsame]
      · rw [if_neg hshift]
  · rw [if_neg hcolumn]

/-- A step to the south-east or south-west, cell by cell in the first row: it still shows
what was in the row below. -/
theorem shifted_first_row (hnext : Neighbour s.position newPos)
    (hsouth : s.position.getY < newPos.getY) {x : Nat} (hx : x < 23)
    (hcolumn : 0 ≤ x + (newPos.getX - s.position.getX) ∧
      x + (newPos.getX - s.position.getX) < 23) :
    (s.shifted queryAdd newPos oldTile newTile).localMapCache 0 x = s.localMapCache 1 x := by
  have hdy := hnext.2.1
  have hrow : (((0 : Nat) : Int) + (newPos.getY - s.position.getY)).toNat = 1 := by omega
  have hkept : ¬(s.position.getY - newPos.getY).natAbs ≤ 0 := by omega
  have hin : 0 ≤ ((0 : Nat) : Int) + (newPos.getY - s.position.getY) ∧
      ((0 : Nat) : Int) + (newPos.getY - s.position.getY) < 23 := by omega
  rw [shifted_apply hnext (by decide) hx, if_pos hcolumn]
  dsimp only
  rw [if_neg hkept, if_pos hin, hrow]

/-- In the last row each cell shows what its neighbour should. -/
theorem shifted_last_row (hnext : Neighbour s.position newPos)
    (hsouth : s.position.getY < newPos.getY) {x : Nat} (hx : x < 23)
    (hcolumn : 0 ≤ x + (newPos.getX - s.position.getX) ∧
      x + (newPos.getX - s.position.getX) < 23) :
    (s.shifted queryAdd newPos oldTile newTile).localMapCache 22 x =
      (s.moved newPos oldTile newTile).value queryAdd 22
        (x + (newPos.getX - s.position.getX)).toNat := by
  have hdy := hnext.2.1
  have hshift : (s.position.getY - newPos.getY).natAbs ≤ 22 := by omega
  have hout : ¬(0 ≤ ((22 : Nat) : Int) + (newPos.getY - s.position.getY) ∧
      ((22 : Nat) : Int) + (newPos.getY - s.position.getY) < 23) := by omega
  rw [shifted_apply hnext (by decide) hx, if_pos hcolumn]
  dsimp only
  rw [if_pos hshift, if_neg hout]

/-- What the two rows hold is right all the same: in the first row the tiles are as
walkable as what was seen in the row below, in the last row as their neighbours. -/
def RowsAgree (queryAdd : T → Bool) (s t : Walker T) : Prop :=
  ∀ x < mapWalkWidth, 0 ≤ x + (t.position.getX - s.position.getX) →
    x + (t.position.getX - s.position.getX) < mapWalkWidth →
      (t.InWorld 0 x → s.localMapCache 1 x = t.value queryAdd 0 x) ∧
      (t.InWorld (mapWalkHeight - 1) x →
        t.value queryAdd (mapWalkHeight - 1) (x + (t.position.getX - s.position.getX)).toNat =
          t.value queryAdd (mapWalkHeight - 1) x)

theorem coordinate_getX (p : Position) : coordinate p.getX = p.x ∧ coordinate p.getY = p.y := by
  unfold coordinate Position.getX Position.getY
  rw [BitVec.ofInt_natCast, BitVec.ofInt_natCast, BitVec.ofNat_toNat, BitVec.ofNat_toNat]
  exact ⟨BitVec.setWidth_eq _, BitVec.setWidth_eq _⟩

/-- The cell that shows the tile the creature came from. -/
theorem place_old (hnext : Neighbour s.position newPos) {y x : Nat}
    (hhit : Hits (s.position.getX - newPos.getX) (s.position.getY - newPos.getY) y x) :
    (s.moved newPos oldTile newTile).place (x - 11) (y - 11) = s.position := by
  obtain ⟨-, -, hrow, hcolumn⟩ := hhit
  have hx : newPos.getX + ((x : Int) - 11) = s.position.getX := by omega
  have hy : newPos.getY + ((y : Int) - 11) = s.position.getY := by omega
  show Position.mk (coordinate (newPos.getX + (x - 11))) (coordinate (newPos.getY + (y - 11)))
    newPos.z = s.position
  rw [hx, hy, (coordinate_getX s.position).1, (coordinate_getX s.position).2, ← hnext.2.2.1]

/-- After the step: the old tile has been looked at again, and the rest is as the shifts
left it. -/
theorem exact_moveCreature_iff (hloaded : s.isMapLoaded = true)
    (hnext : Neighbour s.position newPos) :
    (s.moveCreature queryAdd newPos oldTile newTile false).Exact queryAdd ↔
      ∀ y < 23, ∀ x < 23, (y, x) ≠ (11, 11) →
        ¬Hits (s.position.getX - newPos.getX) (s.position.getY - newPos.getY) y x →
        (s.moved newPos oldTile newTile).InWorld y x →
        (s.shifted queryAdd newPos oldTile newTile).localMapCache y x =
          (s.moved newPos oldTile newTile).value queryAdd y x := by
  set t := s.moved newPos oldTile newTile with ht
  set c := s.shifted queryAdd newPos oldTile newTile with hc
  have hmove : s.moveCreature queryAdd newPos oldTile newTile false =
      c.updateTileCacheAt queryAdd (some oldTile) s.position := by
    rw [moveCreature, onMove, if_pos (show (s.moved newPos oldTile newTile).isMapLoaded from hloaded),
      if_neg (by simp [hnext.2.2.1])]
    rfl
  have hframe : (c.updateTileCacheAt queryAdd (some oldTile) s.position).frame = t.frame :=
    (updateTileCacheAt_frame _ _).trans shifted_frame
  have hposition : c.position = newPos := frame_position shifted_frame
  have hworld (y x : Nat) :
      (c.updateTileCacheAt queryAdd (some oldTile) s.position).InWorld y x ↔ t.InWorld y x := by
    unfold InWorld
    rw [frame_position hframe]
  have hcell (y x : Nat) :
      (c.updateTileCacheAt queryAdd (some oldTile) s.position).localMapCache y x =
        if Hits (s.position.getX - newPos.getX) (s.position.getY - newPos.getY) y x then
          walkable queryAdd (some oldTile)
        else c.localMapCache y x := by
    rw [updateTileCacheAt_apply _ (by rw [hposition]; exact hnext.2.2.1), hposition]
  have hold {y x : Nat}
      (hhit : Hits (s.position.getX - newPos.getX) (s.position.getY - newPos.getY) y x) :
      t.value queryAdd y x = walkable queryAdd (some oldTile) := by
    have hplace : t.place (x - 11) (y - 11) = s.position := place_old hnext hhit
    have htile : t.getTile s.position = some oldTile :=
      (Function.update_of_ne hnext.2.2.2 _ _).trans (Function.update_self _ _ _)
    rw [value, hplace, htile]
  rw [hmove, exact_iff]
  simp only [value_congr hframe, hworld, hcell]
  constructor
  · intro h y hy x hx hown hhit hin
    have hright := h y hy x hx hown hin
    rwa [if_neg hhit] at hright
  · intro h y hy x hx hown hin
    by_cases hhit : Hits (s.position.getX - newPos.getX) (s.position.getY - newPos.getY) y x
    · rw [if_pos hhit, hold hhit]
    · rw [if_neg hhit, h y hy x hx hown hhit hin]

/-- An exact cache after a step to the south-east or south-west is one by chance. -/
theorem rowsAgree_of_exact (hloaded : s.isMapLoaded = true)
    (hnext : Neighbour s.position newPos)
    (h : (s.moveCreature queryAdd newPos oldTile newTile false).Exact queryAdd)
    (hsouth : SouthDiagonal s.position newPos) :
    RowsAgree queryAdd s (s.moved newPos oldTile newTile) := by
  have hright := (exact_moveCreature_iff hloaded hnext).mp h
  -- neither row shows the old tile
  have hfar {y x : Nat} (hy : y = 0 ∨ y = 22) :
      ¬Hits (s.position.getX - newPos.getX) (s.position.getY - newPos.getY) y x := by
    rintro ⟨-, -, hrow, -⟩
    have hdy := hnext.2.1
    omega
  intro x hx hlow hhigh
  constructor
  · intro hin
    have hfirst := hright 0 (by decide) x hx (by simp) (hfar (.inl rfl)) hin
    rwa [shifted_first_row hnext hsouth.1 hx ⟨hlow, hhigh⟩] at hfirst
  · intro hin
    have hlast := hright 22 (by decide) x hx (by simp) (hfar (.inr rfl)) hin
    rwa [shifted_last_row hnext hsouth.1 hx ⟨hlow, hhigh⟩] at hlast

theorem exact_of_rowsAgree (hloaded : s.isMapLoaded = true) (hexact : s.Exact queryAdd)
    (hnext : Neighbour s.position newPos)
    (hagree : SouthDiagonal s.position newPos →
      RowsAgree queryAdd s (s.moved newPos oldTile newTile)) :
    (s.moveCreature queryAdd newPos oldTile newTile false).Exact queryAdd := by
  refine (exact_moveCreature_iff hloaded hnext).mpr fun y hy x hx hown hhit hin => ?_
  by_cases hright : ¬SouthDiagonal s.position newPos ∨ 0 < y ∧ y < 22
  · exact shifted_right hexact hnext hy hx hown hhit hin hright
  · obtain ⟨hsouth, hrow⟩ : SouthDiagonal s.position newPos ∧ (y = 0 ∨ y = 22) := by
      rw [not_or, not_not] at hright
      exact ⟨hright.1, by omega⟩
    by_cases hcolumn : 0 ≤ x + (newPos.getX - s.position.getX) ∧
        x + (newPos.getX - s.position.getX) < 23
    · obtain ⟨hfirst, hlast⟩ := hagree hsouth x hx hcolumn.1 hcolumn.2
      cases hrow with
      | inl hrow =>
          rw [hrow] at hin ⊢
          rw [shifted_first_row hnext hsouth.1 hx hcolumn]
          exact hfirst hin
      | inr hrow =>
          rw [hrow] at hin ⊢
          rw [shifted_last_row hnext hsouth.1 hx hcolumn]
          exact hlast hin
    · rw [shifted_apply hnext hy hx, if_neg hcolumn]

/-- After a step to one of the eight neighbours the cache is what a full computation
gives, exactly when the step is none to the south-east or south-west, or the two rows
that go wrong agree by chance. -/
theorem moveCreature_exact (hloaded : s.isMapLoaded = true) (hexact : s.Exact queryAdd)
    (hnext : Neighbour s.position newPos) (oldTile newTile : T) :
    (s.moveCreature queryAdd newPos oldTile newTile false).Exact queryAdd ↔
      (SouthDiagonal s.position newPos →
        RowsAgree queryAdd s (s.moved newPos oldTile newTile)) :=
  ⟨rowsAgree_of_exact hloaded hnext, exact_of_rowsAgree hloaded hexact hnext⟩

end Step

/-! ## Two steps -/

/-- A creature on a map where a single tile is closed. -/
def prowler : Walker Bool where
  getTile pos := some (pos != ⟨89, 90, 7⟩)
  position := ⟨100, 100, 7⟩
  isMapLoaded := true

def hunter : Walker Bool := prowler.updateMapCache id

theorem hunter_position : hunter.position = ⟨100, 100, 7⟩ := frame_position updateMapCache_frame

theorem hunter_getTile : hunter.getTile = prowler.getTile := frame_getTile updateMapCache_frame

theorem hunter_loaded : hunter.isMapLoaded = true := frame_isMapLoaded updateMapCache_frame

theorem moveCreature_exact_east :
    (hunter.moveCreature id ⟨101, 100, 7⟩ true true false).Exact id := by
  have hnext : Neighbour hunter.position ⟨101, 100, 7⟩ := by
    rw [hunter_position]
    exact ⟨by decide, by decide, rfl, by decide⟩
  refine (moveCreature_exact hunter_loaded exact_updateMapCache hnext true true).mpr fun h => ?_
  rw [hunter_position] at h
  exact absurd h.1 (by decide)

/-- The closed tile stays in the first row after a step to the south-east. -/
theorem south_east_inexact : ¬∀ (T : Type) (queryAdd : T → Bool) (s : Walker T)
    (newPos : Position) (oldTile newTile : T), s.isMapLoaded = true → s.Exact queryAdd →
      Neighbour s.position newPos →
        (s.moveCreature queryAdd newPos oldTile newTile false).Exact queryAdd := by
  intro h
  have hnext : Neighbour hunter.position ⟨101, 101, 7⟩ := by
    rw [hunter_position]
    exact ⟨by decide, by decide, rfl, by decide⟩
  have hsouth : SouthDiagonal hunter.position ⟨101, 101, 7⟩ := by
    rw [hunter_position]
    exact ⟨by decide, by decide⟩
  have hagree := rowsAgree_of_exact hunter_loaded hnext
    (h Bool id hunter ⟨101, 101, 7⟩ true true hunter_loaded exact_updateMapCache hnext) hsouth
  have hin : (hunter.moved ⟨101, 101, 7⟩ true true).InWorld 0 0 := by
    show (0 ≤ (101 : Int) + 0 - 11 ∧ (101 : Int) + 0 - 11 < 65536) ∧
      0 ≤ (101 : Int) + 0 - 11 ∧ (101 : Int) + 0 - 11 < 65536
    decide
  have hstale : hunter.localMapCache 1 0 = false := by
    rw [hunter, updateMapCache_apply (by decide) (by decide)]
    decide
  have hright : (hunter.moved ⟨101, 101, 7⟩ true true).value id 0 0 = true := by
    have hplace : (hunter.moved ⟨101, 101, 7⟩ true true).place ((0 : Nat) - 11) ((0 : Nat) - 11) =
        ⟨90, 90, 7⟩ := rfl
    have htile : (hunter.moved ⟨101, 101, 7⟩ true true).getTile ⟨90, 90, 7⟩ =
        prowler.getTile ⟨90, 90, 7⟩ := by
      have hnew : (⟨90, 90, 7⟩ : Position) ≠ ⟨101, 101, 7⟩ := by decide
      have hold : (⟨90, 90, 7⟩ : Position) ≠ hunter.position := by
        rw [hunter_position]
        decide
      rw [moved_getTile hold hnew, hunter_getTile]
    rw [value, hplace, htile]
    decide
  have hcell := (hagree 0 (by decide) (by rw [hunter_position]; decide)
    (by rw [hunter_position]; decide)).1 hin
  rw [hstale, hright] at hcell
  cases hcell

end Walker

end Infernum

/-!
## The walk cache over whole runs

The creature moves, is teleported, and others move around it. As long as each of
its own steps leaves the two rows right, its cache is exact after every one of
these events.
-/

namespace Infernum

open Lib

namespace Walker

variable {T : Type} {queryAdd : T → Bool} {s t : Walker T}

/-- What happens around a creature: it moves itself, or another creature does. -/
inductive Event (T : Type)
  | moveCreature (newPos : Position) (oldTile newTile : T) (teleport : Bool)
  | onOtherMove (newPos oldPos : Position) (oldTile newTile : T)

/-- Another creature has left a tile for another one. -/
def otherMoved (s : Walker T) (newPos oldPos : Position) (oldTile newTile : T) : Walker T :=
  let getTile :=
    Function.update (Function.update s.getTile oldPos (some oldTile)) newPos (some newTile)
  { s with getTile := getTile }

def apply (queryAdd : T → Bool) (s : Walker T) : Event T → Walker T
  | .moveCreature newPos oldTile newTile teleport =>
      s.moveCreature queryAdd newPos oldTile newTile teleport
  | .onOtherMove newPos oldPos oldTile newTile =>
      (s.otherMoved newPos oldPos oldTile newTile).onOtherMove queryAdd newPos oldPos

/-- A step of the creature leaves the cache right: it computes the cache anew, or goes to
a neighbour and not to the south-east or south-west, or the two rows agree. -/
def Keeps (queryAdd : T → Bool) (s : Walker T) : Event T → Prop
  | .moveCreature newPos oldTile newTile teleport =>
      teleport = true ∨ s.position.z ≠ newPos.z ∨ Neighbour s.position newPos ∧
        (SouthDiagonal s.position newPos →
          RowsAgree queryAdd s (s.moved newPos oldTile newTile))
  | .onOtherMove _ _ _ _ => True

/-- A creature whose cache has just been computed, and what happens to it. -/
def system (queryAdd : T → Bool) : TSys (Walker T) (Event T) where
  init s := ∃ s₀ : Walker T, s₀.isMapLoaded = true ∧ s = s₀.updateMapCache queryAdd
  step s event t := t = s.apply queryAdd event

end Walker

end Infernum
