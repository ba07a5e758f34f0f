import Infernum.Cylinder.Rooted
import Infernum.Cylinder.Acyclic

/-!
# To the depot

When a house is lost, `House::transferToDepot` collects what lies on its tiles and moves it,
one item after the other, into the inbox of the owner. What the tiles hold is kept beside
the heap.
-/

namespace Infernum

/-- What a tile holds. `TileItemVector` keeps the down items before the top items. -/
structure TileThings where
  ground : Option Nat := none
  downItems : List Nat := []
  topItems : List Nat := []
  creatures : Nat := 0

abbrev Tiles := Nat → TileThings

namespace Heap

variable (w : CylinderWorld) (h : Heap Tiles) (t : Nat) (item : Nat)

/-- `getItemList` of a tile; a missing list is an empty one. -/
def getItemList : List Nat := (h.others t).downItems ++ (h.others t).topItems

/-- `Item::isAlwaysOnTop`. -/
def isAlwaysOnTop : Bool := (h.itemType w item).alwaysOnTop

/-- `Tile::getThingIndex`, for an item. -/
def tileGetThingIndex : Int :=
  let tile := h.others t
  if tile.ground = some item then 0
  else
    let n : Int := if tile.ground.isSome then 0 else -1
    if h.isAlwaysOnTop w item then
      match tile.topItems.idxOf? item with
      | some k => n + 1 + k
      | none => -1
    else
      match tile.downItems.idxOf? item with
      | some k => n + tile.topItems.length + tile.creatures + 1 + k
      | none => -1

/-- `Tile::queryRemove`, for an item. -/
def tileQueryRemove (count flags : BitVec 32) : ReturnValue :=
  if h.tileGetThingIndex w t item = -1 then .notPossible
  else if count = 0 ∨ (h.isStackable w item ∧ (h.getItemCount item).setWidth 32 < count) then
    .notPossible
  else if h.isMoveable w item = false ∧ hasBitSet FLAG_IGNORENOTMOVEABLE flags = false then
    .notMoveable
  else .noError

def setTile (tile : TileThings) : Heap Tiles :=
  { h with others := Function.update h.others t tile }

/-- The item is shown in browse fields. -/
def isBrowsed : Bool := (h.object item).hasProperty w.toTileWorld .moveable ||
  (h.container item).isSome

/-- The browse field of a tile. -/
def browseField : Option (Nat × HeapContainer) :=
  (h.browseFields t).bind fun b => (h.container b).map fun c => (b, c)

/-- `Tile::onRemoveTileItem`: the browse field of the tile loses the item too. -/
def onRemoveTileItem : Heap Tiles :=
  if h.isBrowsed w item then
    match h.browseField t with
    | some (b, c) => h.containerRemoveThing w b c item ((h.getItemCount item).setWidth 32)
    | none => h
  else h

/-- `Tile::onUpdateTileItem`, of an item that stays the same. -/
def onUpdateTileItem : Heap Tiles :=
  if h.isBrowsed w item then
    match h.browseField t with
    | some (_, c) => if c.getThingIndex item = -1 then h else h.setParent item (some (.tile t))
    | none => h
  else h

/-- `Tile::removeThing`, for an item. -/
def tileRemoveThing (count : BitVec 32) : Heap Tiles :=
  let tile := h.others t
  if h.tileGetThingIndex w t item = -1 then h
  else if tile.ground = some item then
    ((h.setParent item none).setTile t { tile with ground := none }).onRemoveTileItem w t item
  else if h.isAlwaysOnTop w item then
    if item ∈ tile.topItems then
      ((h.setParent item none).setTile t
        { tile with topItems := tile.topItems.erase item }).onRemoveTileItem w t item
    else h
  else if item ∈ tile.downItems then
    if h.isStackable w item ∧ count ≠ (h.getItemCount item).setWidth 32 then
      let newCount := (max 0 ((h.getItemCount item).setWidth 32 - count).toInt).toNat
      (h.setItemCount item (.ofNat 16 (newCount % 256))).onUpdateTileItem w t item
    else
      ((h.setParent item none).setTile t
        { tile with downItems := tile.downItems.erase item }).onRemoveTileItem w t item
  else h

theorem loosens_onRemoveTileItem : h.Loosens (h.onRemoveTileItem w t item) := by
  rw [onRemoveTileItem]
  split
  · split
    · rename_i b c hbrowse
      obtain ⟨b', -, hmap⟩ := Option.bind_eq_some_iff.mp hbrowse
      obtain ⟨c', hc, heq⟩ := Option.map_eq_some_iff.mp hmap
      cases heq
      exact loosens_containerRemoveThing hc item _
    · exact Loosens.refl h
  · exact Loosens.refl h

theorem loosens_onUpdateTileItem : h.Loosens (h.onUpdateTileItem w t item) := by
  rw [onUpdateTileItem]
  split
  · split
    · split
      · exact Loosens.refl h
      · refine ⟨fun j => ?_, rfl, fun _ => rfl, fun _ => rfl, rfl⟩
        show Function.update h.parent item _ j = _ ∨ ∀ k, Function.update h.parent item _ j ≠ _
        by_cases hj : j = item
        · rw [hj, Function.update_self]
          exact .inr nofun
        · rw [Function.update_of_ne hj]
          exact .inl rfl
    · exact Loosens.refl h
  · exact Loosens.refl h

/-- An item that goes from the lists of a tile. -/
theorem loosens_take (tile : TileThings) :
    h.Loosens (((h.setParent item none).setTile t tile).onRemoveTileItem w t item) := by
  have htile : (h.setParent item none).Loosens ((h.setParent item none).setTile t tile) :=
    ⟨fun _ => .inl rfl, rfl, fun _ => rfl, fun _ => rfl, rfl⟩
  exact ((loosens_setParent_none item).trans htile).trans (loosens_onRemoveTileItem _ _ _ _)

theorem loosens_tileRemoveThing (count : BitVec 32) :
    h.Loosens (h.tileRemoveThing w t item count) := by
  have hcount : ∀ m, h.Loosens (h.setItemCount item m) := fun m => loosens_setObject item rfl
  rw [tileRemoveThing]
  dsimp only
  split
  · exact Loosens.refl h
  · split
    · exact h.loosens_take w t item _
    · split
      · split
        · exact h.loosens_take w t item _
        · exact Loosens.refl h
      · split
        · split
          · exact (hcount _).trans (loosens_onUpdateTileItem _ _ _ _)
          · exact h.loosens_take w t item _
        · exact Loosens.refl h

end Heap

/-- Tiles do with items what `Tile` does. -/
def Others.withTiles (w : CylinderWorld) (o : Others Tiles) : Others Tiles :=
  { o with
    queryRemove := fun h c item count flags =>
      match c with
      | .tile t => some (h.tileQueryRemove w t item count flags)
      | _ => o.queryRemove h c item count flags
    getThingIndex := fun h c item =>
      match c with
      | .tile t => h.tileGetThingIndex w t item
      | _ => o.getThingIndex h c item
    removeThing := fun h c item count =>
      match c with
      | .tile t => h.tileRemoveThing w t item count
      | _ => o.removeThing h c item count
    removeThing_loosens := by
      intro h c item count
      cases c with
      | tile t => exact h.loosens_tileRemoveThing w t item count
      | item _ | player _ | virtualCylinder => exact o.removeThing_loosens h _ item count }

namespace House

/-- The fields of `House` that are used here. -/
structure Estate where
  owner : BitVec 32
  townId : BitVec 32
  houseTiles : List Nat

variable (w : CylinderWorld) (o : Others Tiles) (n : Nat)

/-- `moveItemList`: the items that can be picked up, and what lies in the containers among
the others. -/
def moveItemList (h : Heap Tiles) (house : Estate) : List Nat :=
  house.houseTiles.flatMap fun tile =>
    (h.getItemList tile).flatMap fun item =>
      if h.isPickupable w item then [item]
      else
        match h.container item with
        | some container => container.itemlist
        | none => []

/-- One item of the list goes to the inbox; whether it does is not looked at. There is no
result if a null pointer is followed. -/
def moveToInbox (inbox : Nat) (h : Heap Tiles) (item : Nat) : Option (Heap Tiles) :=
  match h.getParent n (.item item) with
  | some (some fromCylinder) =>
      (h.internalMoveItem w (o.withTiles w) n fromCylinder (.item inbox) INDEX_WHEREEVER item
        ((h.getItemCount item).setWidth 32) FLAG_NOLIMIT none).map Prod.fst
  | _ => none

/-- `House::transferToDepot`, for a player with this inbox. -/
def transferToDepot (h : Heap Tiles) (house : Estate) (inbox : Nat) :
    Option (Bool × Heap Tiles) :=
  if house.townId = 0 ∨ house.owner = 0 then some (false, h)
  else ((moveItemList w h house).foldlM (moveToInbox w o n inbox) h).map fun h => (true, h)

end House

end Infernum
