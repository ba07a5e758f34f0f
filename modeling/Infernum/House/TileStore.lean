import Infernum.Item.Serialize
import Infernum.Map.Position

/-!
# The items of house tiles in the database

`IOMapSerialize`: a tile's items are written to a row of two streams, the data
and the abilities, and read back at the start of the server.
-/

namespace Infernum.IOMapSerialize

open Infernum.Lib

/-- The two streams of a row of `tile_store`. -/
@[ext] structure Streams where
  data : List UInt8 := []
  abilities : List UInt8 := []

/-- Writing `t` behind `s`. -/
def Streams.append (s t : Streams) : Streams := ⟨s.data ++ t.data, s.abilities ++ t.abilities⟩

instance : Append Streams := ⟨Streams.append⟩

@[simp] theorem Streams.data_append (s t : Streams) : (s ++ t).data = s.data ++ t.data := rfl
@[simp] theorem Streams.abilities_append (s t : Streams) :
    (s ++ t).abilities = s.abilities ++ t.abilities := rfl

/-! ## Tiles -/

/-- The items of a tile; `getItemList` has the down items before the top items. -/
structure Tile where
  ground : Option ItemTree := none
  downItems : List ItemTree := []
  topItems : List ItemTree := []

/-- `Tile::getItemList`. -/
def Tile.getItemList (tile : Tile) : List ItemTree := tile.downItems ++ tile.topItems

/-- `Map::getTile`. -/
abbrev Tiles := Position → Option Tile

/-- What loading needs of `Game` besides: what stands in the place of an item
whose time is up, and what an item becomes under another id. -/
structure Game where
  internalDecayItem : Item → Option Item
  transformItem : Item → BitVec 16 → Item

variable (w : World)

/-- `Tile::internalAddThing` for an item. `put` is what has become of it there
(`startDecaying` runs at once and may take it away). -/
def Tile.internalAddThing (tile : Tile) (t : ItemTree) (put : Option ItemTree) : Tile :=
  let itemType := t.label.type w
  if itemType.isGroundTile then
    match tile.ground with
    | none => { tile with ground := put }
    | some _ => tile
  else if 0xFFFF ≤ tile.getItemList.length then tile
  else if itemType.alwaysOnTop then
    let below := fun u : ItemTree =>
      decide ((u.label.type w).alwaysOnTopOrder ≤ itemType.alwaysOnTopOrder)
    { tile with topItems :=
        tile.topItems.takeWhile below ++ put.toList ++ tile.topItems.dropWhile below }
  else { tile with downItems := put.toList ++ tile.downItems }

/-- Put `t` in the place of the item with a given index. -/
def Tile.set (tile : Tile) (index : Nat) (t : ItemTree) : Tile :=
  let items := tile.getItemList.set index t
  { tile with
    downItems := items.take tile.downItems.length
    topItems := items.drop tile.downItems.length }

/-! ## Writing -/

mutual

/-- `IOMapSerialize::saveItem`. -/
def saveItem : ItemTree → Streams
  | .node i ts =>
      ⟨encodeLE 2 i.id.toNat ++ i.serializeAttr w, i.serializeAbility⟩ ++
      (if isContainer w i then
        ⟨AttrTypes.containerItems.code :: encodeLE 4 ts.length, []⟩ ++ saveReversed ts
      else {}) ++
      ⟨[0], []⟩

/-- `saveItem` on each item of a list, the last one first. -/
def saveReversed : List ItemTree → Streams
  | [] => {}
  | t :: ts => saveReversed ts ++ saveItem t

end

/-- The items that `saveTile` saves. -/
def isSaved (t : ItemTree) : Bool :=
  let it := t.label.type w
  it.moveable || it.forceSerialize || it.itemClass == .door ||
    (isContainer w t.label && !t.children.isEmpty) || it.canWriteText || it.itemClass == .bed

/-- `IOMapSerialize::saveTile`. The list that is written is built with
`push_front`; its length is counted in 16 bits. -/
def saveTile (pos : Position) (tile : Tile) : Streams :=
  let items := tile.getItemList.filter (isSaved w)
  if items.isEmpty then {}
  else
    ⟨encodeLE 2 pos.x.toNat ++ (encodeLE 2 pos.y.toNat ++ (encodeLE 1 pos.z.toNat ++
      encodeLE 4 (BitVec.ofNat 16 items.length).toNat)), []⟩ ++ saveReversed w items

/-! ## Decay -/

variable (g : Game)

/-- `Game::startDecay` on an item that lies on the map. -/
def startDecay (i : Item) : Option Item :=
  if !i.canDecay w then some i
  else if i.getDecaying.setWidth 32 = DECAYING_TRUE then some i
  else if i.getIntAttr .duration ≠ 0 then some (i.setIntAttr .decayState DECAYING_TRUE)
  else g.internalDecayItem i

mutual

/-- The virtual `startDecaying`: a container starts the items in it, not
itself. -/
def startDecaying : ItemTree → Option ItemTree
  | .node i ts =>
      if isContainer w i then some (.node i (startDecayingList ts))
      else (startDecay w g i).map fun j => .node j ts

/-- `startDecaying` on the items of a container. -/
def startDecayingList : List ItemTree → List ItemTree
  | [] => []
  | t :: ts => (startDecaying t).toList ++ startDecayingList ts

end

/-! ## Reading -/

/-- What reading one item leaves: the result, the item if one was made, and the
rest of the streams. -/
structure Loaded where
  ok : Bool
  item : Option ItemTree
  rest : Streams

/-- `IOMapSerialize::loadContainer`: `load` reads one item and `start` is what
becomes of it in the container. -/
def loadContainer (load : Streams → Loaded) (start : ItemTree → Option ItemTree) :
    Nat → List ItemTree → Streams → Bool × List ItemTree × Streams
  | 0, items, s =>
      match readLE 1 s.data with
      | (some 0, data) => (true, items, { s with data := data })
      | (_, data) => (false, items, { s with data := data })
  | serializationCount + 1, items, s =>
      let r := load s
      if r.ok then
        loadContainer load start serializationCount ((r.item.bind start).toList ++ items) r.rest
      else (false, items, r.rest)

/-- The branch of `loadItem` that creates the item. Its contents do not decay
yet: an item in a container that lies nowhere counts as removed. -/
def loadNewItem (load : Streams → Loaded) (id : BitVec 16) (s : Streams) : Loaded :=
  match Item.createItem w id 0 with
  | none => ⟨true, none, s⟩
  | some item =>
      let a := Item.unserializeAbility s.abilities item
      let u := Item.unserializeAttr w s.data a.1
      let s := ⟨u.rest, a.2⟩
      if u.ok then
        if isContainer w u.item then
          match loadContainer load some u.serializationCount [] s with
          | (true, items, s) => ⟨true, some (.node u.item items), s⟩
          | (false, _, s) => ⟨false, none, s⟩
        else ⟨true, some (.node u.item []), s⟩
      else ⟨false, none, s⟩

/-- `IOMapSerialize::loadItem` into a container. Each item takes at least the
two bytes of its id, so the length of the stream bounds the nesting. -/
def loadItem : Nat → Streams → Loaded
  | 0, s => ⟨false, none, s⟩
  | fuel + 1, s =>
      match readLE 2 s.data with
      | (none, data) => ⟨false, none, { s with data := data }⟩
      | (some id, data) => loadNewItem w (loadItem fuel) (.ofNat 16 id) { s with data := data }

/-- The item on the tile that a stationary item is read into. -/
def findItem (id : BitVec 16) (tile : Tile) : Option Nat :=
  let iType := w.itemType id
  tile.getItemList.findIdx? fun t =>
    let itemClass := (t.label.type w).itemClass
    t.label.id == id || (iType.isDoor && itemClass == .door) || (iType.isBed && itemClass == .bed)

/-- The branch of `loadItem` for stationary items. What is in a container that
is on the tile starts to decay when it is added. -/
def loadStationary (fuel : Nat) (id : BitVec 16) (tile : Tile) (s : Streams) : Tile × Streams :=
  match (findItem w id tile).bind fun n => (tile.getItemList[n]?).map (Prod.mk n) with
  | some (index, .node item items) =>
      let a := Item.unserializeAbility s.abilities item
      let u := Item.unserializeAttr w s.data a.1
      let s := ⟨u.rest, a.2⟩
      if u.ok then
        if isContainer w u.item then
          match loadContainer (loadItem w fuel) (startDecaying w g) u.serializationCount items s with
          | (true, items, s) => (tile.set index (.node (g.transformItem u.item id) items), s)
          | (false, items, s) => (tile.set index (.node u.item items), s)
        else (tile.set index (.node (g.transformItem u.item id) items), s)
      else (tile.set index (.node u.item items), s)
  | none =>
      -- the map has changed: a dummy takes the attributes
      match Item.createItem w id 0 with
      | none => (tile, s)
      | some dummy =>
          let u := Item.unserializeAttr w s.data dummy
          let a := Item.unserializeAbility s.abilities u.item
          let s := ⟨u.rest, a.2⟩
          if isContainer w a.1 then
            (tile, (loadContainer (loadItem w fuel) some u.serializationCount [] s).2.2)
          else (tile, s)

/-- `IOMapSerialize::loadItem` onto a tile. -/
def loadTileItem (fuel : Nat) (tile : Tile) (s : Streams) : Tile × Streams :=
  match readLE 2 s.data with
  | (none, data) => (tile, { s with data := data })
  | (some id, data) =>
      let s := { s with data := data }
      let id := BitVec.ofNat 16 id
      if (w.itemType id).moveable || (w.itemType id).forceSerialize then
        let r := loadNewItem w (loadItem w fuel) id s
        match r.item with
        | some t => (tile.internalAddThing w t (startDecaying w g t), r.rest)
        | none => (tile, r.rest)
      else loadStationary w g fuel id tile s

/-- The loop over the items of a row; the result of `loadItem` is not looked at. -/
def loadItems (fuel : Nat) : Nat → Tile → Streams → Tile × Streams
  | 0, tile, s => (tile, s)
  | item_count + 1, tile, s =>
      let r := loadTileItem w g fuel tile s
      loadItems fuel item_count r.1 r.2

/-- The position at the start of a row. -/
def readPosition (s : List UInt8) : Option (Position × List UInt8) :=
  match readLE 2 s with
  | (none, _) => none
  | (some x, s) =>
      match readLE 2 s with
      | (none, _) => none
      | (some y, s) =>
          match readLE 1 s with
          | (none, _) => none
          | (some z, s) => some (⟨.ofNat 16 x, .ofNat 16 y, .ofNat 8 z⟩, s)

/-- `loadHouseItems`, for one row. -/
def loadRow (tiles : Tiles) (row : Streams) : Tiles :=
  match readPosition row.data with
  | none => tiles
  | some (pos, data) =>
      match tiles pos with
      | none => tiles
      | some tile =>
          match readLE 4 data with
          | (none, _) => tiles
          | (some item_count, data) =>
              Function.update tiles pos
                (some (loadItems w g data.length item_count tile ⟨data, row.abilities⟩).1)

/-- `IOMapSerialize::loadHouseItems`. -/
def loadHouseItems (rows : List Streams) (tiles : Tiles) : Tiles :=
  rows.foldl (loadRow w g) tiles

end Infernum.IOMapSerialize
