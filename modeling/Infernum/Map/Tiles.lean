import Infernum.Map.Linked
import Infernum.Tile.Runs

/-!
# The tiles of the map

`Map::getTile` and `Map::setTile` with the floors of the leaves and the tiles on
them. The map is a function from the places to the tiles that were stored first,
and a later tile is merged into the one that is there.
-/

namespace Infernum

open Lib

namespace Tile

variable {I C : Type} [DecidableEq I] [DecidableEq C] (w : TileWorld)

/-- The items of a tile. -/
def contents (t : Tile I C) : List I := t.ground.toList ++ t.items.items

/-- The ground and the items of a tile let `addThing` put an item beside them:
nothing is refused and nothing is replaced. -/
def Accepts (t : Tile I C) (item : I) : Prop :=
  t.items.items.length < 0xFFFF ∧
    let itemType := (t.object item).itemType w
    if itemType.isGroundTile then t.ground = none
    else if itemType.alwaysOnTop then
      itemType.isSplash → ∀ i ∈ t.items.topItems, ((t.object i).itemType w).isSplash = false
    else itemType.type = .magicField → ∀ i ∈ t.items.downItems, (t.object i).cls ≠ .magicField

/-- A sequence of items is accepted one after the other. -/
def AcceptsAll : Tile I C → List I → Prop
  | _, [] => True
  | t, item :: items => t.Accepts w item ∧ AcceptsAll (t.addThing w (.item item)) items

/-- An item that is accepted comes to the others. -/
theorem contents_addThing {t : Tile I C} {item : I} (h : t.Accepts w item) :
    (t.addThing w (.item item)).contents.Perm (item :: t.contents) := by
  obtain ⟨hsize, hkind⟩ := h
  have hdown : ((t.insertDown item).setTileFlags w item).contents.Perm (item :: t.contents) := by
    show (t.ground.toList ++ item :: t.items.items).Perm _
    exact List.perm_middle
  rw [addThing, if_neg (by omega)]
  dsimp only at hkind ⊢
  split at hkind
  case isTrue hground =>
    rw [if_pos hground, hkind]
    show ([item] ++ t.items.items).Perm (item :: (t.ground.toList ++ t.items.items))
    rw [hkind]
    exact .refl _
  case isFalse hground =>
    rw [if_neg hground]
    split at hkind
    case isTrue htop =>
      have hsplash : t.removeOldSplash w ((t.object item).itemType w) = t := by
        rw [removeOldSplash]
        split
        · next hs =>
          have hnone : t.items.topItems.find? (fun i => ((t.object i).itemType w).isSplash) = none :=
            List.find?_eq_none.mpr fun i hi => by simp [hkind hs i hi]
          rw [hnone]
        · rfl
      rw [if_pos htop, hsplash]
      show (t.ground.toList ++ (t.insertTop _ item).items.items).Perm _
      exact ((insertTop_perm t _ item).append_left _).trans List.perm_middle
    case isFalse htop =>
      rw [if_neg htop]
      split
      · next hfield =>
        have hnone : t.items.downItems.find? (fun i => (t.object i).cls == .magicField) = none :=
          List.find?_eq_none.mpr fun i hi => by simp [hkind hfield i hi]
        rw [hnone]
        exact hdown
      · exact hdown

/-- All the items that are accepted come to the others. -/
theorem contents_addThings {t : Tile I C} {items : List I} (h : t.AcceptsAll w items) :
    (items.foldl (fun t item => t.addThing w (.item item)) t).contents.Perm
      (t.contents ++ items) := by
  induction items generalizing t with
  | nil =>
      rw [List.append_nil]
      exact .refl _
  | cons item items ih =>
      refine (ih h.2).trans (((contents_addThing w h.1).append_right items).trans ?_)
      exact List.perm_middle.symm

end Tile

/-! ## Floors -/

def FLOOR_MASK : BitVec 16 := 7

/-- `Floor`: the tiles by the low bits of their coordinates. -/
abbrev Floor (T : Type) := BitVec 16 → BitVec 16 → Option T

/-- The map with its floors and with the tiles that there are, in the map or not. -/
structure TileMap (I C T : Type) where
  map : Map C := {}
  /-- `array` of the leaves -/
  array : Nat → Nat → Option (Floor T) := fun _ _ => none
  tile : T → Tile I C
  /-- the objects that the tiles share -/
  object : I → Object

namespace TileMap

variable {I C T : Type} [DecidableEq I] [DecidableEq C] [DecidableEq T] (w : TileWorld)

/-- A tile with the present values of the objects. -/
def tileAt (m : TileMap I C T) (tile : T) : Tile I C := { m.tile tile with object := m.object }

/-- `Map::getTile`. -/
def getTile (m : TileMap I C T) (pos : Position) : Option T :=
  if MAP_MAX_LAYERS ≤ pos.z.toNat then none
  else
    match getLeafStatic m.map.root (pos.x.setWidth 32) (pos.y.setWidth 32) with
    | none => none
    | some leaf =>
        match m.array leaf pos.z.toNat with
        | none => none
        | some floor => floor (pos.x &&& FLOOR_MASK) (pos.y &&& FLOOR_MASK)

/-- The items of a new tile are added to the one that is there, the last one
first and the ground in the end. -/
def merge (m : TileMap I C T) (tile newTile : T) : TileMap I C T :=
  let new := m.tileAt newTile
  let t := new.items.items.reverse.foldl (fun t item => t.addThing w (.item item)) (m.tileAt tile)
  let t :=
    match new.ground with
    | some ground => t.addThing w (.item ground)
    | none => t
  { m with
    tile := Function.update
      (Function.update m.tile newTile { new with ground := none, items := { new.items with items := [] } })
      tile t
    object := t.object }

/-- `Map::setTile`. -/
def setTile (m : TileMap I C T) (pos : Position) (newTile : T) : TileMap I C T :=
  if MAP_MAX_LAYERS ≤ pos.z.toNat then m
  else
    match createdLeaf m.map.size 15 m.map.root (pos.x.setWidth 32) (pos.y.setWidth 32) with
    | none => m
    | some leaf =>
        let array :=
          if leaf = m.map.size then Function.update m.array leaf fun _ => none else m.array
        let m := { m with map := m.map.setTile pos }
        let floor := (array leaf pos.z.toNat).getD fun _ _ => none
        let offsetX := pos.x &&& FLOOR_MASK
        let offsetY := pos.y &&& FLOOR_MASK
        match floor offsetX offsetY with
        | some tile =>
            merge w { m with
              array := Function.update array leaf
                (Function.update (array leaf) pos.z.toNat (some floor)) } tile newTile
        | none =>
            let floor := Function.update floor offsetX
              (Function.update (floor offsetX) offsetY (some newTile))
            { m with
              array := Function.update array leaf
                (Function.update (array leaf) pos.z.toNat (some floor)) }

/-! ## A tile is stored -/

/-- The links are those of the tree, and every leaf is one of the tree. -/
structure Stored (m : TileMap I C T) : Prop where
  linked : Map.Linked m.map.root m.map.leaves m.map.size
  found : ∀ n < m.map.size, ∃ x y : BitVec 16,
    getLeaf m.map.root (x.setWidth 32) (y.setWidth 32) = some n

section Step

variable {m : TileMap I C T}

omit [DecidableEq I] [DecidableEq C] [DecidableEq T] in
/-- What `getTile` reads. -/
theorem getTile_eq (h : m.Stored) {pos : Position} (hz : pos.z.toNat < MAP_MAX_LAYERS) :
    m.getTile pos = (m.map.getQTNode pos).bind fun leaf => (m.array leaf pos.z.toNat).bind
      fun floor => floor (pos.x &&& FLOOR_MASK) (pos.y &&& FLOOR_MASK) := by
  rw [getTile, if_neg (Nat.not_le.mpr hz), getLeafStatic_eq_getLeaf h.linked.isNode]
  show (match m.map.getQTNode pos with | none => none | some leaf => _) = _
  cases m.map.getQTNode pos with
  | none => rfl
  | some leaf =>
      show (match m.array leaf pos.z.toNat with | none => none | some floor => _) = _
      cases hfloor : m.array leaf pos.z.toNat with
      | none => rw [Option.bind_some, hfloor]; rfl
      | some floor => rw [Option.bind_some, hfloor]; rfl

/-- The place of a tile in the leaf, the floor and the row and column it has there. -/
theorem eq_of_slot {pos pos' : Position}
    (hleaf : SameLeaf (pos.x.setWidth 32) (pos.y.setWidth 32) (pos'.x.setWidth 32)
      (pos'.y.setWidth 32)) (hz : pos'.z.toNat = pos.z.toNat)
    (hx : pos'.x &&& FLOOR_MASK = pos.x &&& FLOOR_MASK)
    (hy : pos'.y &&& FLOOR_MASK = pos.y &&& FLOOR_MASK) : pos' = pos := by
  have hmask : ∀ a : BitVec 16, (a &&& FLOOR_MASK).toNat = a.toNat % 8 := fun a => by
    rw [BitVec.toNat_and]
    exact Nat.and_two_pow_sub_one_eq_mod a.toNat 3
  have heq : ∀ a a' : BitVec 16, leafCoord (a'.setWidth 32) = leafCoord (a.setWidth 32) →
      a' &&& FLOOR_MASK = a &&& FLOOR_MASK → a' = a := by
    intro a a' hcoord hand
    have hlow := congrArg BitVec.toNat hand
    rw [hmask, hmask] at hlow
    rw [leafCoord, leafCoord, BitVec.toNat_setWidth, BitVec.toNat_setWidth] at hcoord
    have ha := a.isLt
    have ha' := a'.isLt
    exact BitVec.eq_of_toNat_eq (by omega)
  obtain ⟨x, y, z⟩ := pos
  obtain ⟨x', y', z'⟩ := pos'
  rw [Position.mk.injEq]
  exact ⟨heq _ _ hleaf.1 hx, heq _ _ hleaf.2 hy, BitVec.eq_of_toNat_eq hz⟩

/-- A floor with a tile, unless there is one at the place. -/
def storeFirst (floor : Floor T) (offsetX offsetY : BitVec 16) (tile : T) : Floor T :=
  Function.update floor offsetX
    (Function.update (floor offsetX) offsetY (some ((floor offsetX offsetY).getD tile)))

omit [DecidableEq T] in
theorem storeFirst_apply (floor : Floor T) (offsetX offsetY x y : BitVec 16) (tile : T) :
    storeFirst floor offsetX offsetY tile x y =
      if x = offsetX ∧ y = offsetY then some ((floor x y).getD tile) else floor x y := by
  rw [storeFirst, Function.update_apply]
  by_cases hx : x = offsetX
  · rw [if_pos hx, Function.update_apply]
    by_cases hy : y = offsetY
    · rw [if_pos hy, if_pos ⟨hx, hy⟩, hx, hy]
    · rw [if_neg hy, if_neg fun h => hy h.2, hx]
  · rw [if_neg hx, if_neg fun h => hx h.1]

/-- The leaves' floors before a tile is stored in a leaf. -/
def arrayOf (m : TileMap I C T) (leaf : Nat) : Nat → Nat → Option (Floor T) :=
  if leaf = m.map.size then Function.update m.array leaf fun _ => none else m.array

/-- The leaf of a place, made if there is none. -/
def leafOf (m : TileMap I C T) (pos : Position) : Nat := (m.map.getQTNode pos).getD m.map.size

/-- What `setTile` does to the map and the floors, whether or not a tile is there. -/
theorem setTile_map_array (h : m.Stored) {pos : Position} (hz : pos.z.toNat < MAP_MAX_LAYERS)
    (newTile : T) :
    (m.setTile w pos newTile).map = m.map.setTile pos ∧
      (m.setTile w pos newTile).array = Function.update (m.arrayOf (m.leafOf pos)) (m.leafOf pos)
        (Function.update (m.arrayOf (m.leafOf pos) (m.leafOf pos)) pos.z.toNat
          (some (storeFirst ((m.arrayOf (m.leafOf pos) (m.leafOf pos) pos.z.toNat).getD
            fun _ _ => none) (pos.x &&& FLOOR_MASK) (pos.y &&& FLOOR_MASK) newTile))) := by
  have hleaf : createdLeaf m.map.size 15 m.map.root (pos.x.setWidth 32) (pos.y.setWidth 32) =
      some (m.leafOf pos) := createdLeaf_eq m.map.size 12 h.linked.uniform h.linked.isNode _ _
  rw [setTile, if_neg (Nat.not_le.mpr hz), hleaf]
  dsimp only
  rw [show (if m.leafOf pos = m.map.size then _ else m.array) = m.arrayOf (m.leafOf pos) from rfl]
  generalize (m.arrayOf (m.leafOf pos) (m.leafOf pos) pos.z.toNat).getD (fun _ _ => none) = floor
  split
  · next tile htile =>
    -- the floor keeps its tile
    have hsame : storeFirst floor (pos.x &&& FLOOR_MASK) (pos.y &&& FLOOR_MASK) newTile = floor := by
      funext x y
      rw [storeFirst_apply]
      split
      · next hxy => rw [hxy.1, hxy.2, htile, Option.getD_some]
      · rfl
    rw [hsame]
    exact ⟨rfl, rfl⟩
  · next htile =>
    rw [storeFirst, htile, Option.getD_none]
    exact ⟨rfl, rfl⟩

theorem Stored.setTile (h : m.Stored) (pos : Position) (newTile : T) :
    (m.setTile w pos newTile).Stored := by
  by_cases hz : MAP_MAX_LAYERS ≤ pos.z.toNat
  · rw [TileMap.setTile, if_pos hz]
    exact h
  · have hlt := Nat.not_le.mp hz
    have hmap := (setTile_map_array w h hlt newTile).1
    refine ⟨?_, ?_⟩
    · rw [hmap]
      exact h.linked.setTile pos
    · rw [hmap]
      cases hleaf : m.map.getQTNode pos with
      | none =>
          rw [Map.setTile_of_none h.linked hlt hleaf]
          have hget := h.linked.createLeaf_of_none hleaf
          intro n hn
          by_cases hnew : n = m.map.size
          · refine ⟨pos.x, pos.y, ?_⟩
            rw [hget, if_pos ⟨rfl, rfl⟩, hnew]
          · have hsize : n < m.map.size + 1 := hn
            obtain ⟨x, y, hxy⟩ := h.found n (by omega)
            refine ⟨x, y, ?_⟩
            rw [hget]
            split
            · next hsame =>
              rw [getLeaf_congr h.linked.uniform hsame] at hxy
              cases hleaf.symm.trans hxy
            · exact hxy
      | some k =>
          rw [Map.setTile_of_some h.linked hlt hleaf]
          intro n hn
          obtain ⟨x, y, hxy⟩ := h.found n hn
          refine ⟨x, y, ?_⟩
          rw [h.linked.createLeaf_of_some hleaf]
          exact hxy

omit [DecidableEq I] [DecidableEq C] [DecidableEq T] in
/-- A place below the lowest floor has no tile. -/
theorem getTile_of_le {pos : Position} (hz : MAP_MAX_LAYERS ≤ pos.z.toNat) : m.getTile pos = none :=
  if_pos hz

/-- One call: the place has the first tile, and the other places keep theirs. -/
theorem getTile_setTile (h : m.Stored) {pos : Position} (hz : pos.z.toNat < MAP_MAX_LAYERS)
    (newTile : T) (pos' : Position) :
    (m.setTile w pos newTile).getTile pos' =
      if pos' = pos then some ((m.getTile pos).getD newTile) else m.getTile pos' := by
  by_cases hz' : MAP_MAX_LAYERS ≤ pos'.z.toNat
  · have hne : pos' ≠ pos := by
      rintro rfl
      omega
    rw [getTile_of_le hz', getTile_of_le hz', if_neg hne]
  have hlt' := Nat.not_le.mp hz'
  obtain ⟨hmap, harray⟩ := setTile_map_array w h hz newTile
  have hget : ∀ x y, getLeaf (m.setTile w pos newTile).map.root x y =
      if SameLeaf (pos.x.setWidth 32) (pos.y.setWidth 32) x y then some (m.leafOf pos)
      else getLeaf m.map.root x y := by
    intro x y
    rw [hmap, show (m.map.setTile pos).root =
      createLeaf m.map.size 15 m.map.root (pos.x.setWidth 32) (pos.y.setWidth 32) from ?_]
    · exact getLeaf_createLeaf h.linked.uniform h.linked.isNode _ _ _ _ _
    · rw [Map.setTile, if_neg (Nat.not_le.mpr hz)]
      dsimp only
      split <;> rfl
  -- the floors that were there, or none in a new leaf
  have hfloors : ∀ z, m.arrayOf (m.leafOf pos) (m.leafOf pos) z =
      (m.map.getQTNode pos).bind fun leaf => m.array leaf z := by
    intro z
    rw [arrayOf, leafOf]
    cases hleaf : m.map.getQTNode pos with
    | none =>
        rw [Option.getD_none, if_pos rfl, Function.update_self]
        rfl
    | some n =>
        have hlt : n < m.map.size := h.linked.numbered _ _ _ hleaf
        rw [Option.getD_some, if_neg (Nat.ne_of_lt hlt)]
        rfl
  rw [getTile_eq (h.setTile w pos newTile) hlt', getTile_eq h hlt', getTile_eq h hz, harray]
  rw [Map.getQTNode, hget]
  by_cases hsame : SameLeaf (pos.x.setWidth 32) (pos.y.setWidth 32) (pos'.x.setWidth 32)
      (pos'.y.setWidth 32)
  · have hleaf : m.map.getQTNode pos' = m.map.getQTNode pos := getLeaf_congr h.linked.uniform hsame
    rw [if_pos hsame, Option.bind_some, Function.update_self, hleaf]
    by_cases hzz : pos'.z.toNat = pos.z.toNat
    · rw [hzz, Function.update_self, Option.bind_some, storeFirst_apply, hfloors]
      have hread : ∀ x y, ((m.map.getQTNode pos).bind fun leaf => m.array leaf pos.z.toNat).getD
          (fun _ _ => none) x y = (m.map.getQTNode pos).bind fun leaf =>
            (m.array leaf pos.z.toNat).bind fun floor => floor x y := by
        intro x y
        cases m.map.getQTNode pos with
        | none => rfl
        | some n =>
            rw [Option.bind_some, Option.bind_some]
            cases m.array n pos.z.toNat with
            | none => rfl
            | some floor => rfl
      rw [hread]
      by_cases hoffsets : pos'.x &&& FLOOR_MASK = pos.x &&& FLOOR_MASK ∧
          pos'.y &&& FLOOR_MASK = pos.y &&& FLOOR_MASK
      · rw [if_pos hoffsets, if_pos (eq_of_slot hsame hzz hoffsets.1 hoffsets.2), hoffsets.1,
          hoffsets.2]
      · have hne : pos' ≠ pos := by
          rintro rfl
          exact hoffsets ⟨rfl, rfl⟩
        rw [if_neg hoffsets, if_neg hne]
    · have hne : pos' ≠ pos := by
        rintro rfl
        exact hzz rfl
      rw [Function.update_of_ne hzz, if_neg hne, hfloors]
      cases m.map.getQTNode pos with
      | none => rfl
      | some n => rfl
  · have hne : pos' ≠ pos := by
      rintro rfl
      exact hsame ⟨rfl, rfl⟩
    rw [if_neg hsame, if_neg hne]
    show (m.map.getQTNode pos').bind _ = (m.map.getQTNode pos').bind _
    cases hleaf : m.map.getQTNode pos' with
    | none => rfl
    | some n =>
        -- another leaf keeps its floors
        have hother : n ≠ m.leafOf pos := by
          rw [leafOf]
          intro heq
          cases hleaf' : m.map.getQTNode pos with
          | none =>
              rw [hleaf', Option.getD_none] at heq
              have hlt := h.linked.numbered _ _ _ hleaf
              omega
          | some k =>
              rw [hleaf', Option.getD_some] at heq
              subst heq
              exact hsame (h.linked.distinct _ _ _ _ _ hleaf' hleaf)
        rw [Option.bind_some, Option.bind_some, Function.update_of_ne hother]
        congr 1
        rw [arrayOf]
        split
        · rw [Function.update_of_ne hother]
        · rfl

end Step

/-! ## Sequences of calls -/

/-- The tile of the first call for a place. -/
def firstStored (calls : List (Position × T)) (pos : Position) : Option T :=
  if MAP_MAX_LAYERS ≤ pos.z.toNat then none
  else (calls.find? fun call => call.1 = pos).map fun call => call.2

/-- Calls of `setTile`, one after the other. -/
def setTiles (m : TileMap I C T) (calls : List (Position × T)) : TileMap I C T :=
  calls.foldl (fun m call => m.setTile w call.1 call.2) m

theorem Stored.setTiles {m : TileMap I C T} (h : m.Stored) (calls : List (Position × T)) :
    (m.setTiles w calls).Stored := by
  induction calls generalizing m with
  | nil => exact h
  | cons call calls ih => exact ih (h.setTile w call.1 call.2)

/-- What is stored stays, and otherwise the first call for a place counts. -/
theorem getTile_setTiles {m : TileMap I C T} (h : m.Stored) (calls : List (Position × T))
    (pos : Position) :
    (m.setTiles w calls).getTile pos = (m.getTile pos).or (firstStored calls pos) := by
  induction calls generalizing m with
  | nil =>
      show m.getTile pos = _
      rw [firstStored, List.find?_nil, Option.map_none, ite_self, Option.or_none]
  | cons call calls ih =>
      show ((m.setTile w call.1 call.2).setTiles w calls).getTile pos = _
      rw [ih (h.setTile w call.1 call.2)]
      by_cases hz : MAP_MAX_LAYERS ≤ call.1.z.toNat
      · rw [setTile, if_pos hz]
        congr 1
        rw [firstStored, firstStored]
        split
        · rfl
        · next hpos =>
          have hne : call.1 ≠ pos := by
            rintro rfl
            exact hpos hz
          rw [List.find?_cons_of_neg (by simpa using hne)]
      · rw [getTile_setTile w h (Nat.not_le.mp hz)]
        by_cases heq : pos = call.1
        · subst heq
          rw [if_pos rfl, Option.some_or, firstStored, if_neg hz, List.find?_cons_of_pos (by simp),
            Option.map_some]
          cases m.getTile call.1 with
          | none => rfl
          | some tile => rfl
        · rw [if_neg heq]
          congr 1
          rw [firstStored, firstStored, List.find?_cons_of_neg (by simpa using Ne.symm heq)]

/-! ## Two tiles for one place -/

/-- The items of a new tile in the order in which they are added. -/
def arrivals (t : Tile I C) : List I := t.items.items.reverse ++ t.ground.toList

/-- The tile that is there gets the items of the new tile, and the new tile loses them. -/
theorem merge_tileAt (m : TileMap I C T) {tile newTile : T} (hne : newTile ≠ tile) :
    (m.merge w tile newTile).tileAt tile =
        (arrivals (m.tileAt newTile)).foldl (fun t item => t.addThing w (.item item)) (m.tileAt tile) ∧
      ((m.merge w tile newTile).tileAt newTile).contents = [] := by
  have hground : ∀ (t : Tile I C) (ground : Option I),
      (match ground with
        | some ground => t.addThing w (.item ground)
        | none => t) = ground.toList.foldl (fun t item => t.addThing w (.item item)) t := by
    intro t ground
    cases ground with
    | none => rfl
    | some ground => rfl
  rw [arrivals, List.foldl_append, ← hground]
  refine ⟨?_, ?_⟩
  · rw [tileAt, merge]
    dsimp only
    rw [Function.update_self]
  · rw [tileAt, merge]
    dsimp only
    rw [Function.update_of_ne hne, Function.update_self]
    rfl

/-- A second call for a place merges the new tile into the one that is there. -/
theorem setTile_of_getTile {m : TileMap I C T} (h : m.Stored) {pos : Position} {tile : T}
    (htile : m.getTile pos = some tile) (newTile : T) (t : T) :
    (m.setTile w pos newTile).tileAt t = (m.merge w tile newTile).tileAt t := by
  have hz : pos.z.toNat < MAP_MAX_LAYERS := by
    refine Nat.not_le.mp fun hz => ?_
    rw [getTile_of_le hz] at htile
    cases htile
  rw [getTile_eq h hz] at htile
  have hleaf : createdLeaf m.map.size 15 m.map.root (pos.x.setWidth 32) (pos.y.setWidth 32) =
      some (m.leafOf pos) := createdLeaf_eq m.map.size 12 h.linked.uniform h.linked.isNode _ _
  cases hnode : m.map.getQTNode pos with
  | none => simp [hnode] at htile
  | some leaf =>
      rw [hnode, Option.bind_some] at htile
      have hlt : leaf < m.map.size := h.linked.numbered _ _ _ hnode
      have hof : m.leafOf pos = leaf := by rw [leafOf, hnode, Option.getD_some]
      cases hfloor : m.array leaf pos.z.toNat with
      | none => simp [hfloor] at htile
      | some floor =>
          rw [hfloor, Option.bind_some] at htile
          rw [setTile, if_neg (Nat.not_le.mpr hz), hleaf, hof]
          dsimp only
          rw [if_neg (Nat.ne_of_lt hlt), hfloor, Option.getD_some, htile]
          rfl

/-- Nothing of either tile is lost in a merge, if all of it is accepted. -/
theorem contents_setTile {m : TileMap I C T} (h : m.Stored) {pos : Position} {tile newTile : T}
    (htile : m.getTile pos = some tile) (hne : newTile ≠ tile)
    (haccepts : (m.tileAt tile).AcceptsAll w (arrivals (m.tileAt newTile))) :
    ((m.setTile w pos newTile).tileAt tile).contents.Perm
      ((m.tileAt tile).contents ++ (m.tileAt newTile).contents) := by
  rw [setTile_of_getTile w h htile, (merge_tileAt w m hne).1]
  refine (Tile.contents_addThings w haccepts).trans (List.Perm.append_left _ ?_)
  rw [arrivals]
  exact ((List.reverse_perm _).append_right _).trans List.perm_append_comm

/-! ## The map as a function -/

omit [DecidableEq I] [DecidableEq C] [DecidableEq T] in
/-- A map without tiles. -/
theorem stored_empty (tile : T → Tile I C) (object : I → Object) :
    ({ tile := tile, object := object } : TileMap I C T).Stored := by
  refine ⟨Map.linked_empty _, ?_⟩
  intro n hn
  exact absurd hn (Nat.not_lt_zero n)

/-- What the map is after calls of `setTile`: the function of the first calls, three
walks that agree, the links of the tree and tiles that are merged whole. -/
structure IsMapOf (m : TileMap I C T) (calls : List (Position × T)) : Prop where
  getTile : ∀ pos, m.getTile pos = firstStored calls pos
  getLeafStatic : ∀ x y : BitVec 32, getLeafStatic m.map.root x y = getLeaf m.map.root x y
  createLeaf : ∀ (newLeaf : Nat) (x y : BitVec 32),
    createdLeaf newLeaf 15 m.map.root x y = some ((getLeaf m.map.root x y).getD newLeaf) ∧
      getLeaf (createLeaf newLeaf 15 m.map.root x y) x y = createdLeaf newLeaf 15 m.map.root x y
  /-- every leaf is that of some coordinates -/
  found : ∀ n < m.map.size, ∃ x y : BitVec 16,
    getLeaf m.map.root (x.setWidth 32) (y.setWidth 32) = some n
  /-- the sums are those of `uint16_t` -/
  links : ∀ (x y : BitVec 16) n, getLeaf m.map.root (x.setWidth 32) (y.setWidth 32) = some n →
    (m.map.leaves n).leafS = getLeaf m.map.root (x.setWidth 32) ((y + 8).setWidth 32) ∧
      (m.map.leaves n).leafE = getLeaf m.map.root ((x + 8).setWidth 32) (y.setWidth 32)
  merged : ∀ pos tile newTile, m.getTile pos = some tile → newTile ≠ tile →
    (m.tileAt tile).AcceptsAll w (arrivals (m.tileAt newTile)) →
    (m.setTile w pos newTile).getTile pos = some tile ∧
      ((m.setTile w pos newTile).tileAt tile).contents.Perm
        ((m.tileAt tile).contents ++ (m.tileAt newTile).contents)

/-- A sum of `uint16_t` leads to the leaf that the sum of `uint32_t` leads to. -/
theorem leafCoord_setWidth_add (x : BitVec 16) :
    leafCoord ((x + 8).setWidth 32) = leafCoord (x.setWidth 32 + 8) := by
  rw [leafCoord_add_eight, leafCoord, leafCoord, BitVec.toNat_setWidth, BitVec.toNat_setWidth,
    BitVec.toNat_add]
  have hx := x.isLt
  have height : (8 : BitVec 16).toNat = 8 := rfl
  omega

/-- Whatever tiles are stored, in whatever order and wherever, the map is the
function of the first calls. -/
theorem setTiles_isMapOf (tile : T → Tile I C) (object : I → Object)
    (calls : List (Position × T)) :
    (setTiles w { tile := tile, object := object } calls).IsMapOf w calls := by
  have hempty := stored_empty (T := T) tile object
  have hstored := hempty.setTiles w calls
  have hlinked := hstored.linked
  refine ⟨?_, ?_, ?_, hstored.found, ?_, ?_⟩
  · intro pos
    have hnone : ({ tile := tile, object := object } : TileMap I C T).getTile pos = none := by
      by_cases hz : MAP_MAX_LAYERS ≤ pos.z.toNat
      · exact getTile_of_le hz
      · rw [getTile_eq hempty (Nat.not_le.mp hz)]
        generalize Map.getQTNode _ pos = leaf
        cases leaf with
        | none => rfl
        | some n => rfl
    rw [getTile_setTiles w hempty, hnone, Option.none_or]
  · intro x y
    exact getLeafStatic_eq_getLeaf hlinked.isNode x y
  · intro newLeaf x y
    have hcreated := createdLeaf_eq newLeaf 12 hlinked.uniform hlinked.isNode x y
    refine ⟨hcreated, ?_⟩
    rw [getLeaf_createLeaf hlinked.uniform hlinked.isNode, if_pos ⟨rfl, rfl⟩]
    exact hcreated.symm
  · intro x y n hn
    rw [hlinked.south _ _ _ hn, hlinked.east _ _ _ hn]
    exact ⟨getLeaf_congr hlinked.uniform ⟨rfl, (leafCoord_setWidth_add y).symm⟩,
      getLeaf_congr hlinked.uniform ⟨(leafCoord_setWidth_add x).symm, rfl⟩⟩
  · intro pos t newTile htile hne haccepts
    refine ⟨?_, contents_setTile w hstored htile hne haccepts⟩
    have hz : pos.z.toNat < MAP_MAX_LAYERS := by
      refine Nat.not_le.mp fun hz => ?_
      rw [getTile_of_le hz] at htile
      cases htile
    rw [getTile_setTile w hstored hz, if_pos rfl, htile, Option.getD_some]

/-- The second tile of a place is merged into the first one. -/
example :
    let w : TileWorld :=
      { itemType := fun _ => {}, addUniqueItem := fun _ => true, getNameByGuid := fun _ => [],
        tileItemType := fun _ => {} }
    let object : Nat → Object := fun _ => { id := 1, cls := .item }
    let tile : Bool → Tile Nat Unit := fun first =>
      { object := object
        items := if first then ⟨[1], 1⟩ else ⟨[3, 2], 2⟩ }
    let calls : List (Position × Bool) := [(⟨100, 200, 7⟩, true), (⟨100, 200, 7⟩, false)]
    let m := setTiles w { tile := tile, object := object } calls
    m.getTile ⟨100, 200, 7⟩ = some true ∧ (m.tileAt true).contents = [3, 2, 1] := by
  decide

end TileMap

end Infernum
