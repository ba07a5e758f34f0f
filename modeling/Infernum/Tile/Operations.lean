import Infernum.Tile.Tile

/-!
# What is done with tiles

`Tile::addThing`, `internalAddThing`, `updateThing`, `replaceThing` and
`removeThing`, and `Game::transformItem` for an item on a tile.
-/

namespace Infernum.Tile

variable {I C : Type} [DecidableEq I] [DecidableEq C] (w : TileWorld) (t : Tile I C)

/-! ## The item vector -/

/-- `insert` before the first item that is to come later, or `push_back`. -/
def insertBefore (later : I → Bool) (item : I) : List I → List I
  | [] => [item]
  | i :: items => if later i then item :: i :: items else i :: insertBefore later item items

/-- Insert a top item. -/
def insertTop (later : I → Bool) (item : I) : Tile I C :=
  { t with items := { t.items with
      items := t.items.downItems ++ insertBefore later item t.items.topItems } }

/-- Insert a down item: the newest is the first. -/
def insertDown (item : I) : Tile I C :=
  { t with items := ⟨item :: t.items.items, t.items.downItemCount + 1⟩ }

/-- Take an item out of the down items or of the top items. -/
def eraseDown (item : I) : Tile I C :=
  { t with items := ⟨t.items.downItems.erase item ++ t.items.topItems, t.items.downItemCount - 1⟩ }

def eraseTop (item : I) : Tile I C :=
  { t with items := { t.items with
      items := t.items.downItems ++ t.items.topItems.erase item } }

/-- Put an item in the place of the one at an index of the vector. -/
def setAt (k : Nat) (item : I) : Tile I C :=
  { t with items := { t.items with items := t.items.items.set k item } }

/-! ## Operations -/

/-- `Tile::removeThing`. -/
def removeThing (thing : Thing I C) (count : BitVec 32) : Tile I C :=
  match thing with
  | .creature creature => { t with creatures := t.creatures.erase creature }
  | .item item =>
      if t.getThingIndex w (.item item) = none then t
      else if t.ground = some item then { t with ground := none }.resetTileFlags w item
      else
        let o := t.object item
        if o.isAlwaysOnTop w then
          if item ∉ t.items.topItems then t else (t.eraseTop item).resetTileFlags w item
        else if item ∉ t.items.downItems then t
        else if (o.itemType w).stackable ∧ count ≠ o.count.setWidth 32 then
          -- `newCount`: a difference below zero counts as zero
          let newCount := (max 0 (o.count.setWidth 32 - count).toInt).toNat
          t.setObject item { o with toItem := o.toItem.setItemCount (.ofNat 16 (newCount % 256)) }
        else (t.eraseDown item).resetTileFlags w item

/-- The order of a top item. -/
def topOrder (item : I) : Nat := ((t.object item).itemType w).alwaysOnTopOrder.toNat

/-- A new splash takes the place of the old one. -/
def removeOldSplash (itemType : ItemType) : Tile I C :=
  if itemType.isSplash then
    match t.items.topItems.find? fun i => ((t.object i).itemType w).isSplash with
    | some oldSplash => t.removeThing w (.item oldSplash) 1
    | none => t
  else t

/-- `Tile::addThing`. -/
def addThing : Thing I C → Tile I C
  | .creature creature => { t with creatures := creature :: t.creatures }
  | .item item =>
      if 0xFFFF ≤ t.items.items.length then t
      else
        let itemType := (t.object item).itemType w
        if itemType.isGroundTile then
          match t.ground with
          | none => { t with ground := some item }.setTileFlags w item
          | some oldGround =>
              ({ t with ground := some item }.resetTileFlags w oldGround).setTileFlags w item
        else if itemType.alwaysOnTop then
          let t := t.removeOldSplash w itemType
          (t.insertTop (fun i => t.topOrder w item ≤ t.topOrder w i) item).setTileFlags w item
        else if itemType.type = .magicField then
          match t.items.downItems.find? fun i => (t.object i).cls == .magicField with
          | some oldField =>
              if (w.tileItemType (t.object oldField).id).replaceable then
                ((t.removeThing w (.item oldField) 1).insertDown item).setTileFlags w item
              else t
          | none => (t.insertDown item).setTileFlags w item
        else (t.insertDown item).setTileFlags w item

/-- `Tile::internalAddThing`. -/
def internalAddThing : Thing I C → Tile I C
  | .creature creature => { t with creatures := creature :: t.creatures }
  | .item item =>
      let itemType := (t.object item).itemType w
      if itemType.isGroundTile then
        if t.ground = none then { t with ground := some item }.setTileFlags w item else t
      else if 0xFFFF ≤ t.items.items.length then t
      else if itemType.alwaysOnTop then
        (t.insertTop (fun i => t.topOrder w item < t.topOrder w i) item).setTileFlags w item
      else (t.insertDown item).setTileFlags w item

/-- `Tile::updateThing`. -/
def updateThing (item : I) (itemId : BitVec 16) (count : BitVec 32) : Tile I C :=
  if t.getThingIndex w (.item item) = none then t
  else
    let o := ((t.object item).setID w itemId).setSubType w (count.setWidth 16)
    ((t.resetTileFlags w item).setObject item o).setTileFlags w item

/-- `Tile::replaceThing` for an item at an index of the vector. -/
def replaceAt (k : Nat) (item : I) : Tile I C :=
  match t.items.items[k]? with
  | some oldItem => ((t.setAt k item).resetTileFlags w oldItem).setTileFlags w item
  | none => t

/-- `Tile::replaceThing`. -/
def replaceThing (index : Nat) (item : I) : Tile I C :=
  match t.ground, index with
  | some oldItem, 0 =>
      ({ t with ground := some item }.resetTileFlags w oldItem).setTileFlags w item
  | _, _ =>
      let pos := if t.ground.isSome then index - 1 else index
      if pos < t.items.getTopItemCount then t.replaceAt w (t.items.downItemCount + pos) item
      else
        let pos := pos - t.items.getTopItemCount
        if pos < t.creatures.length then t
        else
          let pos := pos - t.creatures.length
          if pos < t.items.downItemCount then t.replaceAt w pos item else t

/-- `Game::internalRemoveItem` for an item on the tile, with all of its count. -/
def internalRemoveItem (item : I) : Tile I C :=
  let o := t.object item
  -- `Tile::queryRemove`, with `FLAG_IGNORENOTMOVEABLE`
  if t.getThingIndex w (.item item) = none ∨ o.count = 0 then t
  else if o.canRemove = false then t
  else t.removeThing w (.item item) (o.count.setWidth 32)

/-! ## `Game::transformItem` -/

/-- `newItem` is made and takes the place of the item. -/
def replaceByNew (itemIndex : Nat) (newItem : I) (newId newCount : BitVec 16) : Tile I C :=
  match Item.createItem w.toWorld newId newCount with
  | some i =>
      let cls := (w.itemType newId).itemClass
      (t.setObject newItem { i with cls := cls, canRemove := cls != .depotLocker }).replaceThing w
        itemIndex newItem
  | none => t

/-- The item stays and changes its type and its sub-type. -/
def transformInPlace (item : I) (newId : BitVec 16) (newCount : Int) : Tile I C :=
  let o := t.object item
  let curType := o.itemType w
  let newType := w.itemType newId
  let count : Int := (o.getSubType w.toWorld).toNat
  let count :=
    if newCount ≠ -1 ∧ (newType.holdsFluid ∨ newType.stackable ∨ newType.charges ≠ 0) then newCount
    else count
  if curType.id ≠ newType.id then
    let t := if newType.group ≠ curType.group then t.setObject item (o.setDefaultSubtype w) else t
    t.updateThing w item newId (.ofInt 32 count)
  else t.updateThing w item o.id (.ofInt 32 count)

/-- `Game::transformItem` for an item on the tile; `newItem` is the object that is
made if one is. -/
def transformItem (item : I) (newId : BitVec 16) (newCount : Int) (newItem : I) : Tile I C :=
  let o := t.object item
  if o.id = newId ∧ (newCount = -1 ∨ (newCount = (o.getSubType w.toWorld).toNat ∧ newCount ≠ 0)) then
    t
  else
    match t.getThingIndex w (.item item) with
    | none => t
    | some itemIndex =>
        let curType := o.itemType w
        let newType := w.itemType newId
        if o.canTransform = false then t
        else if newType.id = 0 then t
        else if curType.alwaysOnTop ≠ newType.alwaysOnTop then
          -- the item goes to the other part of the vector
          let t := t.removeThing w (.item item) (o.count.setWidth 32)
          let o := (t.object item).setID w newId
          let o := if newCount ≠ -1 then o.setSubType w (.ofInt 16 newCount) else o
          (t.setObject item o).addThing w (.item item)
        else if curType.type = newType.type then
          if newCount = 0 ∧ (curType.stackable ∨ o.hasAttribute .charges) then
            if curType.stackable then t.internalRemoveItem w item
            else
              let newItemId : Int := if curType.id = newType.id then curType.decayTo else newId.toNat
              if newItemId < 0 then t.internalRemoveItem w item
              else if newItemId ≠ newId.toNat then
                t.replaceByNew w itemIndex newItem (.ofInt 16 newItemId) 1
              -- `transformItem(item, newItemId)`
              else if o.id = newId then t
              else t.transformInPlace w item newId (-1)
          else t.transformInPlace w item newId newCount
        else
          t.replaceByNew w itemIndex newItem newId (if newCount = -1 then 0 else .ofInt 16 newCount)

end Infernum.Tile
