import Infernum.Item.Serialize
import Infernum.Lib.BreadthFirst

/-!
# The items of a player in the database

`IOLoginData::saveItems`, `loadItems` and the loops of `loadPlayer` that put
the items of the three tables in their places. Items are known by their `sid`
while the tables are read: a container holds references, and an item may be
put into a container that already has its place.
-/

namespace Infernum.IOLoginData

open Infernum.Lib Infernum.Lib.BreadthFirst

/-- A row of `player_items`, `player_depotitems` or `player_inboxitems`. -/
structure Row where
  pid : Nat
  sid : Nat
  itemtype : BitVec 16
  count : BitVec 16
  attributes : List UInt8
  abilities : List UInt8

/-- The items that a player has: in the slots 1 to 10, in the depot chests by
depot id, and in the inbox. -/
structure PlayerItems where
  inventory : Nat → Option ItemTree
  depotChests : List (Nat × List ItemTree)
  /-- a `std::map` -/
  ordered : (depotChests.map Prod.fst).Pairwise (· < ·)
  inbox : List ItemTree

/-- `ItemBlockList`. -/
abbrev ItemBlockList := List (Nat × ItemTree)

/-- The rows of the three tables. -/
structure Tables where
  items : List Row
  depotitems : List Row
  inboxitems : List Row

variable (w : World)

/-! ## Saving -/

/-- The row of one item. -/
def saveRow (e : Entry Item) : Row where
  pid := e.parent
  sid := e.id
  itemtype := e.tree.label.id
  count := e.tree.label.getSubType w
  attributes := e.tree.label.serializeAttr w
  abilities := e.tree.label.serializeAbility

/-- `IOLoginData::saveItems`: the running id starts at 100 and is counted up
for every item, first over the list, then over the queue of containers. -/
def saveItems (itemList : ItemBlockList) : List Row :=
  (number (isContainer w) itemList 100).map (saveRow w)

namespace PlayerItems

/-- The list of the slots that are not empty. -/
def inventoryList (p : PlayerItems) : ItemBlockList :=
  (List.range' 1 10).filterMap fun slotId => (p.inventory slotId).map (Prod.mk slotId)

/-- The list of the items in the depot chests. -/
def depotList (p : PlayerItems) : ItemBlockList :=
  p.depotChests.flatMap fun it => it.2.map (Prod.mk it.1)

/-- The list of the items in the inbox. -/
def inboxList (p : PlayerItems) : ItemBlockList := p.inbox.map (Prod.mk 0)

end PlayerItems

/-- `IOLoginData::savePlayer`, the items. -/
def savePlayerItems (p : PlayerItems) : Tables where
  items := saveItems w p.inventoryList
  depotitems := saveItems w p.depotList
  inboxitems := saveItems w p.inboxList

/-! ## Loading -/

/-- `ORDER BY sid DESC`. -/
def orderBySidDesc (rows : List Row) : List Row :=
  rows.mergeSort fun a b => decide (b.sid ≤ a.sid)

/-- `ItemMap`: the items by `sid` with their `pid`, in the order of the reverse
iterator. -/
abbrev ItemMap := List (Nat × Item × Nat)

/-- `itemMap[sid] = pair`. -/
def ItemMap.set : ItemMap → Nat → Item × Nat → ItemMap
  | [], sid, pair => [(sid, pair)]
  | e :: itemMap, sid, pair =>
      if e.1 < sid then (sid, pair) :: e :: itemMap
      else if e.1 = sid then (sid, pair) :: itemMap
      else e :: ItemMap.set itemMap sid pair

/-- `itemMap.find`. -/
def ItemMap.find (itemMap : ItemMap) (sid : Nat) : Option Item :=
  (itemMap.find? fun e => e.1 == sid).map fun e => e.2.1

/-- The item of a row. An error in one of the streams is only reported. -/
def loadItem (row : Row) : Option Item :=
  (Item.createItem w row.itemtype row.count).map fun item =>
    (Item.unserializeAbility row.abilities (Item.unserializeAttr w row.attributes item).item).1

/-- `IOLoginData::loadItems`. -/
def loadItems (rows : List Row) : ItemMap :=
  rows.foldl (fun itemMap row =>
    match loadItem w row with
    | some item => itemMap.set row.sid (item, row.pid)
    | none => itemMap) []

/-- Where the items lie: in the containers (by the `sid` of the container) and
directly with the player (by slot or depot id). -/
structure Placed where
  contents : Nat → List Nat := fun _ => []
  direct : Nat → List Nat := fun _ => []

/-- How an item with a given `pid` is added to what the player has directly;
`none` if it belongs into a container. -/
abbrev AddDirect := Nat → Nat → (Nat → List Nat) → Option (Nat → List Nat)

/-- `player->internalAddThing(pid, item)`: a slot that is taken stays as it is. -/
def addToSlot : AddDirect := fun pid sid direct =>
  if 1 ≤ pid ∧ pid ≤ 10 then
    some (if direct pid = [] then Function.update direct pid [sid] else direct)
  else none

/-- The chest of the depot, which is made if it is not there. -/
def addToDepotChest : AddDirect := fun pid sid direct =>
  if pid < 100 then some (Function.update direct pid (sid :: direct pid)) else none

/-- The inbox, whatever the `pid` is. -/
def addToInbox : AddDirect := fun pid sid direct =>
  if pid < 100 then some (Function.update direct 0 (sid :: direct 0)) else none

/-- One round of the loops of `loadPlayer`. -/
def placeItem (add : AddDirect) (itemMap : ItemMap) (p : Placed) (e : Nat × Item × Nat) : Placed :=
  match add e.2.2 e.1 p.direct with
  | some direct => { p with direct := direct }
  | none =>
      match itemMap.find e.2.2 with
      | none => p
      | some container =>
          if isContainer w container then
            { p with contents :=
                Function.update p.contents e.2.2 (e.1 :: p.contents e.2.2) }
          else p

/-- A loop of `loadPlayer`, from the highest `sid` down. -/
def placeItems (add : AddDirect) (itemMap : ItemMap) : Placed :=
  itemMap.foldl (placeItem w add itemMap) {}

/-- The tree of an item. No chain of containers is longer than the ids go. -/
def treeAt (itemMap : ItemMap) (p : Placed) (sid : Nat) : ItemTree :=
  rebuild (fun sid => (itemMap.find sid).getD { id := 0 }) p.contents
    ((itemMap.head?.map Prod.fst).getD 0) sid

/-- The items that a table gives to a place with the player. -/
def loadTable (add : AddDirect) (rows : List Row) (place : Nat) : List ItemTree :=
  let itemMap := loadItems w (orderBySidDesc rows)
  let p := placeItems w add itemMap
  (p.direct place).map (treeAt itemMap p)

/-- The items of a player that has been loaded. -/
structure LoadedItems where
  inventory : Nat → Option ItemTree
  depotChest : Nat → List ItemTree
  inbox : List ItemTree

/-- `IOLoginData::loadPlayer`, the items. -/
def loadPlayerItems (tables : Tables) : LoadedItems where
  inventory slotId := (loadTable w addToSlot tables.items slotId).head?
  depotChest depotId := loadTable w addToDepotChest tables.depotitems depotId
  inbox := loadTable w addToInbox tables.inboxitems 0

end Infernum.IOLoginData
