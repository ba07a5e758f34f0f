import Infernum.Container.Container

/-!
# Forests of containers

An operation on the container at the end of a path, with the way of
`updateItemWeight` up from it; `clone` and `unserializeItemNode`; and runs of these.
-/

namespace Infernum

namespace Container

/-- `updateItemWeight`, for this container alone. -/
def updateItemWeight (c : Container) (diff : BitVec 32) : Container :=
  { c with totalWeight := c.totalWeight + diff }

end Container

namespace Content

variable (w : WeightWorld)

/-- What is done with the container at the end of a path: the tree after it, the
difference that goes up, and the items that are in no container then. -/
def perform (op : Container → List Content → Change) :
    List Nat → Content → Option (Content × BitVec 32 × List Content)
  | [], .node h items =>
      match h.container with
      | none => none
      | some c =>
          let change := op c items
          some (.node { h with container := some (c.updateItemWeight change.diff) } change.items,
            change.diff, change.loose)
  | k :: path, .node h items =>
      match h.container, items[k]? with
      | some c, some item =>
          match perform op path item with
          | none => none
          | some (item', diff, loose) =>
              -- `getParentContainer`
              let c := if hidesParent item then c else c.updateItemWeight diff
              some (.node { h with container := some c } (items.set k item'), diff, loose)
      | _, _ => none

/-- The item at the end of a path. -/
def find : List Nat → Content → Option Content
  | [], t => some t
  | k :: path, .node _ items =>
      match items[k]? with
      | none => none
      | some item => find path item

/-! ## `clone` -/

/-- `Item::clone`. An item without attributes is of a type that gives it none. -/
def cloneItem (o : Object) : Option Content :=
  (Item.createItem w.toWorld o.id (o.count.setWidth 16)).map fun i =>
    Container.newItem w o.id { i with attributes := o.attributes, abilities := o.abilities }

mutual

/-- `clone`. -/
def clone : Content → Option Content
  | .node h items =>
      match cloneItem w h.object, h.container with
      | none, _ => none
      | some t, none => some t
      | some t, some c =>
          match t.container with
          -- the cast to `Container`
          | none => none
          | some c' =>
              match cloneItems items with
              | none => none
              | some items' =>
                  some (.node
                    { t.label with container := some { c' with totalWeight := c.totalWeight } }
                    items')

def cloneItems : List Content → Option (List Content)
  | [] => some []
  | item :: items =>
      match clone item, cloneItems items with
      | some item', some items' => some (item' :: items')
      | _, _ => none

end

/-! ## `unserializeItemNode` -/

/-- A node of the map file: whether it is an `OTBM_ITEM`, and its properties if they
can be read. -/
structure OtbLabel where
  isItem : Bool
  props : Option (List UInt8)

abbrev OtbNode := Lib.Rose OtbLabel

/-- The ids that `CreateItem` reads as others. -/
def persistentId : Nat → Nat
  | 1487 => 1492
  | 1488 => 1493
  | 1489 => 1494
  | 1491 => 1495
  | 1490 => 1496
  | 1497 => 1498
  | 1499 => 2721
  | id => id

/-- `Item::CreateItem(propStream)`, with the rest of the stream. -/
def createItem (s : List UInt8) : Option (Item × List UInt8) :=
  match Lib.readLE 2 s with
  | (none, _) => none
  | (some id, s) => (Item.createItem w.toWorld (.ofNat 16 (persistentId id)) 0).map fun i => (i, s)

/-- An item is added to a container that is being loaded. -/
def load (t item : Content) : Content :=
  match t.container with
  | none => t
  | some c =>
      let change := Container.addItemBack w item t.items
      .node { t.label with container := some (c.updateItemWeight change.diff) } change.items

mutual

/-- `CreateItem`, then `unserializeItemNode`. -/
def unserializeItemNode : OtbNode → Option Content
  | .node l nodes =>
      match l.isItem, l.props with
      | true, some s =>
          match createItem w s with
          | none => none
          | some (i, s) =>
              let r := Item.unserializeAttr w.toWorld s i
              let t := Container.newItem w i.id r.item
              if r.ok = false then none
              else if t.container.isNone then some t
              else unserializeItems t nodes
      | _, _ => none

def unserializeItems (t : Content) : List OtbNode → Option Content
  | [] => some t
  | node :: nodes =>
      match unserializeItemNode node with
      | none => none
      | some item => unserializeItems (load w t item) nodes

end

end Content

/-! ## Runs -/

/-- What is done with the items: `r` and `path` say which container, and an item that is
put there is the `j`-th one in no container. -/
inductive Op where
  | createItem (id count : BitVec 16)
  | unserializeItemNode (node : Content.OtbNode)
  | clone (r : Nat) (path : List Nat)
  /-- an item in no container gets other values -/
  | setObject (r : Nat) (o : Object)
  | addThing (r : Nat) (path : List Nat) (index : Int) (j : Nat)
  | addItemBack (r : Nat) (path : List Nat) (j : Nat)
  | internalAddThing (r : Nat) (path : List Nat) (j : Nat)
  | replaceThing (r : Nat) (path : List Nat) (index : Nat) (j : Nat)
  | updateThing (r : Nat) (path : List Nat) (index : Nat) (itemId : BitVec 16) (count : BitVec 32)
  | removeThing (r : Nat) (path : List Nat) (index : Nat) (count : BitVec 32)
  | transformItem (r : Nat) (path : List Nat) (index : Nat) (newId : BitVec 16) (newCount : Int)

/-- The items that are in no container, with what they hold. -/
abbrev Forest := List Content

namespace Forest

variable (w : WeightWorld)

def perform (f : Forest) (r : Nat) (path : List Nat) (op : Container → List Content → Change) :
    Forest :=
  match f[r]? with
  | none => f
  | some t =>
      match t.perform op path with
      | none => f
      | some (t', _, loose) => f.set r t' ++ loose

/-- An operation that takes an item; `r` counts without it. -/
def performWith (f : Forest) (r : Nat) (path : List Nat) (j : Nat)
    (op : Content → Container → List Content → Change) : Forest :=
  match f[j]? with
  | none => f
  | some item =>
      match (f.eraseIdx j)[r]? with
      | none => f
      | some t =>
          match t.perform (op item) path with
          | none => f
          | some (t', _, loose) => (f.eraseIdx j).set r t' ++ loose

def run (f : Forest) : Op → Forest
  | .createItem id count =>
      match Item.createItem w.toWorld id count with
      | none => f
      | some i => f ++ [Container.newItem w id i]
  | .unserializeItemNode node =>
      match Content.unserializeItemNode w node with
      | none => f
      | some t => f ++ [t]
  | .clone r path =>
      match (f[r]?.bind (Content.find path)).bind (Content.clone w) with
      | none => f
      | some t => f ++ [t]
  | .setObject r o =>
      match f[r]? with
      | none => f
      | some t => f.set r (t.setObject o)
  | .addThing r path index j =>
      f.performWith r path j fun item c => c.addThing w index item
  | .addItemBack r path j => f.performWith r path j fun item _ => Container.addItemBack w item
  | .internalAddThing r path j =>
      f.performWith r path j fun item _ => Container.internalAddThing w item
  | .replaceThing r path index j =>
      f.performWith r path j fun item _ => Container.replaceThing w index item
  | .updateThing r path index itemId count =>
      f.perform r path fun _ => Container.updateThing w index itemId count
  | .removeThing r path index count =>
      f.perform r path fun _ => Container.removeThing w index count
  | .transformItem r path index newId newCount =>
      f.perform r path fun c => c.transformItem w index newId newCount

end Forest

end Infernum
