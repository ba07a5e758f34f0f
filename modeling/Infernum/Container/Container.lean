import Infernum.Item.Serialize
import Infernum.Lib.Rose
import Infernum.Tile.Tile

/-!
# Containers

An item and, if it is a container, the items in it. A container keeps the weight of
its contents in `totalWeight`. What `Container` does to `itemlist` is given together
with the difference that it hands to `updateItemWeight`.
-/

namespace Infernum

structure WeightWorld extends TileWorld where
  weight : BitVec 16 → BitVec 32
  maxItems : BitVec 16 → BitVec 16

/-- The fields of `Container`, the items apart. `hidesParent`: a `DepotChest` or an
`Inbox`, whose `getParent` is the parent of the locker that it lies in. -/
structure Container where
  totalWeight : BitVec 32 := 0
  maxSize : BitVec 32
  hidesParent : Bool := false

/-- An object, with its `getContainer()`. -/
structure Holder where
  object : Object
  container : Option Container := none

/-- An item with what it holds. -/
abbrev Content := Lib.Rose Holder

namespace Object

variable (w : WeightWorld) (o : Object)

/-- `Item::getBaseWeight`. -/
def getBaseWeight : BitVec 32 :=
  if o.hasAttribute .weight then o.getIntAttr .weight else w.weight o.id

/-- `Item::getWeight`. -/
def getWeight : BitVec 32 :=
  if (o.itemType w.toTileWorld).stackable then
    o.getBaseWeight w * .ofNat 32 (max 1 o.count.toNat)
  else o.getBaseWeight w

end Object

namespace Content

variable (w : WeightWorld)

def object (t : Content) : Object := t.label.object
def container (t : Content) : Option Container := t.label.container
def items (t : Content) : List Content := t.children

def setObject (t : Content) (o : Object) : Content := .node { t.label with object := o } t.children

/-- `getWeight`; a container adds `totalWeight`. -/
def getWeight (t : Content) : BitVec 32 :=
  match t.container with
  | some c => t.object.getWeight w + c.totalWeight
  | none => t.object.getWeight w

/-- `getParent` is not the container that the item lies in. -/
def hidesParent (t : Content) : Bool :=
  match t.container with
  | some c => c.hidesParent
  | none => false

end Content

/-! ## Operations of a container -/

/-- The new `itemlist`, the difference for `updateItemWeight`, and the items that are in
no container then. -/
structure Change where
  items : List Content
  diff : BitVec 32 := 0
  loose : List Content := []

namespace Container

variable (w : WeightWorld)

/-- `addThing`. -/
def addThing (c : Container) (index : Int) (item : Content) (items : List Content) : Change :=
  if c.maxSize.toInt ≤ index then ⟨items, 0, [item]⟩
  else ⟨item :: items, item.getWeight w, []⟩

/-- `addItemBack`. -/
def addItemBack (item : Content) (items : List Content) : Change :=
  ⟨items ++ [item], item.getWeight w, []⟩

/-- `internalAddThing`. -/
def internalAddThing (item : Content) (items : List Content) : Change :=
  ⟨item :: items, item.getWeight w, []⟩

/-- The item at an index gets other values. -/
def setItem (index : Nat) (item : Content) (o : Object) (items : List Content) : Change :=
  ⟨items.set index (item.setObject o), -item.getWeight w + (item.setObject o).getWeight w,
    []⟩

/-- `updateThing`, for the item at an index. -/
def updateThing (index : Nat) (itemId : BitVec 16) (count : BitVec 32) (items : List Content) :
    Change :=
  match items[index]? with
  | none => ⟨items, 0, []⟩
  | some item =>
      setItem w index item ((item.object.setID w.toTileWorld itemId).setSubType w.toTileWorld
        (count.setWidth 16)) items

/-- `replaceThing`. -/
def replaceThing (index : Nat) (item : Content) (items : List Content) : Change :=
  match items[index]? with
  | none => ⟨items, 0, [item]⟩
  | some replacedItem =>
      ⟨items.set index item, -replacedItem.getWeight w + item.getWeight w, [replacedItem]⟩

/-- `removeThing`, for the item at an index. -/
def removeThing (index : Nat) (count : BitVec 32) (items : List Content) : Change :=
  match items[index]? with
  | none => ⟨items, 0, []⟩
  | some item =>
      let o := item.object
      if (o.itemType w.toTileWorld).stackable ∧ count ≠ o.count.setWidth 32 then
        let newCount := (max 0 (o.count.setWidth 32 - count).toInt).toNat
        setItem w index item { o with toItem := o.toItem.setItemCount (.ofNat 16 (newCount % 256)) }
          items
      else ⟨items.eraseIdx index, -item.getWeight w, [item]⟩

/-- `Game::internalRemoveItem`, with all of the count. -/
def internalRemoveItem (index : Nat) (items : List Content) : Change :=
  match items[index]? with
  | none => ⟨items, 0, []⟩
  | some item =>
      let o := item.object
      -- `queryRemove`, with `FLAG_IGNORENOTMOVEABLE`
      if o.count = 0 then ⟨items, 0, []⟩
      else if o.canRemove = false then ⟨items, 0, []⟩
      else removeThing w index (o.count.setWidth 32) items

/-! ## `Game::transformItem` -/

/-- An item that `Item::CreateItem` made. -/
def newItem (id : BitVec 16) (i : Item) : Content :=
  let cls := (w.itemType id).itemClass
  .node
    { object := { i with cls := cls, canRemove := cls != .depotLocker }
      container :=
        match cls with
        | .depotLocker => some { maxSize := 3 }
        | .container => some { maxSize := (w.maxItems id).setWidth 32 }
        | _ => none }
    []

/-- `newItem` is made and takes the place of the item. -/
def replaceByNew (index : Nat) (newId newCount : BitVec 16) (items : List Content) : Change :=
  match Item.createItem w.toWorld newId newCount with
  | some i => replaceThing w index (newItem w newId i) items
  | none => ⟨items, 0, []⟩

/-- The item stays and changes its type and its sub-type. -/
def transformInPlace (index : Nat) (item : Content) (newId : BitVec 16) (newCount : Int)
    (items : List Content) : Change :=
  let o := item.object
  let curType := o.itemType w.toTileWorld
  let newType := w.itemType newId
  let count : Int := (o.getSubType w.toWorld).toNat
  let count :=
    if newCount ≠ -1 ∧ (newType.holdsFluid ∨ newType.stackable ∨ newType.charges ≠ 0) then newCount
    else count
  if curType.id ≠ newType.id then
    let items :=
      -- the item changes before `updateThing` takes its weight
      if newType.group ≠ curType.group then
        items.set index (item.setObject (o.setDefaultSubtype w.toTileWorld))
      else items
    updateThing w index newId (.ofInt 32 count) items
  else updateThing w index o.id (.ofInt 32 count) items

/-- An item that is removed and added again. -/
def transformMoved (c : Container) (index : Nat) (item : Content) (newId : BitVec 16)
    (newCount : Int) (items : List Content) : Change :=
  let removed := removeThing w index (item.object.count.setWidth 32) items
  let o := item.object.setID w.toTileWorld newId
  let o := if newCount ≠ -1 then o.setSubType w.toTileWorld (.ofInt 16 newCount) else o
  let added := c.addThing w 0 (item.setObject o) removed.items
  ⟨added.items, removed.diff + added.diff, added.loose⟩

/-- `Game::transformItem`, for the item at an index. -/
def transformItem (c : Container) (index : Nat) (newId : BitVec 16) (newCount : Int)
    (items : List Content) : Change :=
  match items[index]? with
  | none => ⟨items, 0, []⟩
  | some item =>
      let o := item.object
      if o.id = newId ∧
          (newCount = -1 ∨ (newCount = (o.getSubType w.toWorld).toNat ∧ newCount ≠ 0)) then
        ⟨items, 0, []⟩
      -- the parent does not hold the item
      else if item.hidesParent then ⟨items, 0, []⟩
      else if o.canTransform = false then ⟨items, 0, []⟩
      else
        let curType := o.itemType w.toTileWorld
        let newType := w.itemType newId
        if newType.id = 0 then ⟨items, 0, []⟩
        else if curType.alwaysOnTop ≠ newType.alwaysOnTop then
          transformMoved w c index item newId newCount items
        else if curType.type = newType.type then
          if newCount = 0 ∧ (curType.stackable ∨ o.hasAttribute .charges) then
            if curType.stackable then internalRemoveItem w index items
            else
              let newItemId : Int := if curType.id = newType.id then curType.decayTo else newId.toNat
              if newItemId < 0 then internalRemoveItem w index items
              else if newItemId ≠ newId.toNat then
                replaceByNew w index (.ofInt 16 newItemId) 1 items
              -- `transformItem(item, newItemId)`
              else if o.id = newId then ⟨items, 0, []⟩
              else transformInPlace w index item newId (-1) items
          else transformInPlace w index item newId newCount items
        else
          replaceByNew w index newId (if newCount = -1 then 0 else .ofInt 16 newCount) items

end Container

end Infernum
