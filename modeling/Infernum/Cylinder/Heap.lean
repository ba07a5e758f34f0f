import Infernum.Container.Container

/-!
# The heap of items

Items that lie in cylinders: containers, which keep their items in `itemlist`, and tiles,
players and other items, of which the heap only knows that items lie in them. Every item
has a pointer to its parent. A loop along the parents takes fuel; it gives nothing if it
has not ended by then.
-/

namespace Infernum

structure CylinderWorld extends WeightWorld where
  pickupable : BitVec 16 → Bool

/-- What an item can lie in. -/
inductive Cylinder where
  | item (i : Nat)
  | player (p : Nat)
  | tile (t : Nat)
  | virtualCylinder
  deriving DecidableEq, Repr

/-- The classes of containers. -/
inductive ContainerKind where
  | container
  | depotLocker
  | depotChest (maxDepotItems : BitVec 32)
  | inbox
  deriving DecidableEq, Repr

namespace ContainerKind

/-- `getParent` of a `DepotChest` or an `Inbox` is the parent of what it lies in. -/
def skipsParent : ContainerKind → Bool
  | .depotChest _ | .inbox => true
  | .container | .depotLocker => false

end ContainerKind

/-- An object, and whether it has an `ItemAttributes` and an `ItemAbilities`. -/
structure Node extends Object where
  hasAttributes : Bool := false
  hasAbilities : Bool := false

/-- The fields of a `Container` on the heap. -/
structure HeapContainer where
  kind : ContainerKind := .container
  maxSize : BitVec 32
  unlocked : Bool := true
  itemlist : List Nat := []

/-- The items made so far are those below `next`; `others` is what else there is of the
tiles and the players. -/
structure Heap (σ : Type) where
  object : Nat → Node
  parent : Nat → Option Cylinder
  container : Nat → Option HeapContainer
  next : Nat
  /-- the tiles that the players are on -/
  tile : Nat → Option Nat
  /-- `Game::browseFields` -/
  browseFields : Nat → Option Nat
  others : σ

namespace ItemAttributes

/-- All integer and all string attributes. -/
def ints : List IntAttr :=
  [.actionId, .uniqueId, .date, .weight, .attack, .defense, .extraDefense, .armor, .hitChance,
    .shootRange, .owner, .duration, .decayState, .corpseOwner, .charges, .fluidType, .doorId]

def strs : List StrAttr := [.description, .text, .writer, .name, .article, .pluralName]

theorem mem_ints (k : IntAttr) : k ∈ ints := by
  cases k <;> decide

theorem mem_strs (k : StrAttr) : k ∈ strs := by
  cases k <;> decide

def isEmpty (a : ItemAttributes) : Bool :=
  ints.all (fun k => (a.int k).isNone) && strs.all (fun k => (a.str k).isNone) && a.custom.isNone

/-- The same bits and the same values. Custom attributes are compared by their pointers,
which are those of the item. -/
def same (sameItem : Bool) (a b : ItemAttributes) : Bool :=
  ints.all (fun k => a.int k == b.int k) && strs.all (fun k => a.str k == b.str k) &&
    (if a.custom.isSome && b.custom.isSome then sameItem else a.custom.isNone && b.custom.isNone)

end ItemAttributes

namespace Node

/-- An item that `Item::CreateItem` made. -/
def ofItem (w : CylinderWorld) (id : BitVec 16) (i : Item) : Node where
  toItem := i
  cls := (w.itemType id).itemClass
  canRemove := (w.itemType id).itemClass != .depotLocker
  hasAttributes := !i.attributes.isEmpty

/-- The attributes of a node may have been set. -/
def setObject (n : Node) (o : Object) : Node :=
  { n with toObject := o, hasAttributes := n.hasAttributes || !o.attributes.isEmpty }

/-- `Item::equals`. -/
def equals (sameItem : Bool) (n m : Node) : Bool :=
  n.id == m.id &&
    if !n.hasAttributes && !n.hasAbilities then !m.hasAttributes && !m.hasAbilities
    else
      (!n.hasAttributes || m.hasAttributes && n.attributes.same sameItem m.attributes) &&
      (!n.hasAbilities || m.hasAbilities && decide (∀ a, n.abilities a = m.abilities a))

/-- The container that `CreateItem` makes for a type. -/
def newContainer (w : CylinderWorld) (id : BitVec 16) : Option HeapContainer :=
  match (w.itemType id).itemClass with
  | .depotLocker => some { kind := .depotLocker, maxSize := 3 }
  | .container => some { maxSize := (w.maxItems id).setWidth 32 }
  | _ => none

/-- `Item::clone`, the items of a container apart. -/
def clone (w : CylinderWorld) (n : Node) : Option Node :=
  (Item.createItem w.toWorld n.id (n.count.setWidth 16)).map fun i =>
    let m := ofItem w n.id i
    { m with
      attributes := if n.hasAttributes then n.attributes else m.attributes
      hasAttributes := n.hasAttributes || m.hasAttributes
      abilities := if n.hasAbilities then n.abilities else m.abilities
      hasAbilities := n.hasAbilities || m.hasAbilities }

end Node

namespace Heap

variable {σ : Type} (w : CylinderWorld) (h : Heap σ)

def itemType (i : Nat) : ItemType := w.itemType (h.object i).id

/-- `isStackable`, `isMoveable`, `isPickupable` and `getItemCount`. -/
def isStackable (i : Nat) : Bool := (h.itemType w i).stackable
def isMoveable (i : Nat) : Bool := (h.itemType w i).moveable
def isPickupable (i : Nat) : Bool := w.pickupable (h.object i).id
def getItemCount (i : Nat) : BitVec 8 := (h.object i).count

/-- `Item::equals`; nothing equals a null pointer. -/
def equals (i : Nat) : Option Nat → Bool
  | none => false
  | some j => (h.object i).equals (i == j) (h.object j)

/-- The item has been made and is a cylinder. -/
def isCylinder (i : Nat) : Bool :=
  decide (i < h.next) && ((h.container i).isSome || (h.object i).cls == .teleport ||
    (h.object i).cls == .trashHolder || (h.object i).cls == .mailbox)

/-- A cylinder that has been made. -/
def Made (c : Cylinder) : Prop := ∀ i, c = .item i → i < h.next

/-! ## The way up -/

/-- What a cylinder lies in. -/
def up : Cylinder → Option Cylinder
  | .item i => h.parent i
  | .player p => (h.tile p).map .tile
  | .tile _ => none
  | .virtualCylinder => none

def skipsParent : Cylinder → Bool
  | .item i => (h.container i).any (·.kind.skipsParent)
  | _ => false

/-- `getParent`. -/
def getParent : Nat → Cylinder → Option (Option Cylinder)
  | 0, _ => none
  | n + 1, c =>
      match h.up c with
      | none => some none
      | some p => if h.skipsParent c then getParent n p else some (some p)

/-- The cylinders that `getParent` leads to, one after the other. -/
def parents : Nat → Cylinder → Option (List Cylinder)
  | 0, _ => none
  | n + 1, c =>
      match h.getParent n c with
      | none => none
      | some none => some []
      | some (some p) => (parents n p).map (p :: ·)

/-- The loop of `getTopParent`. -/
def topParent : Nat → Option Cylinder → Cylinder → Option Cylinder
  | 0, _, _ => none
  | n + 1, prevaux, aux =>
      match h.getParent n aux with
      | none => none
      | some none => some (prevaux.getD aux)
      | some (some parent) => topParent n (some aux) parent

/-- `Item::getTopParent`; a null pointer for an item that is no cylinder and has no
parent. -/
def getTopParent (n : Nat) (i : Nat) : Option (Option Cylinder) :=
  let prevaux := if h.isCylinder i then some (Cylinder.item i) else none
  match h.getParent n (.item i) with
  | none => none
  | some none => some prevaux
  | some (some aux) => (h.topParent n prevaux aux).map some

/-- `getTile`. -/
def getTile (n : Nat) : Cylinder → Option (Option Nat)
  | .tile t => some (some t)
  | .player p => some (h.tile p)
  | .virtualCylinder => some none
  | .item i =>
      match h.getTopParent n i with
      | none => none
      | some none => some none
      | some (some top) =>
          match h.getParent n top with
          | none => none
          | some parent =>
              match parent.getD top with
              | .tile t => some (some t)
              | _ => some none

/-! ## Changes -/

def setObject (i : Nat) (o : Object) : Heap σ :=
  { h with object := Function.update h.object i ((h.object i).setObject o) }

def setItemCount (i : Nat) (n : BitVec 16) : Heap σ :=
  h.setObject i { (h.object i).toObject with toItem := (h.object i).toItem.setItemCount n }

def setParent (i : Nat) (c : Option Cylinder) : Heap σ :=
  { h with parent := Function.update h.parent i c }

def setItemlist (i : Nat) (c : HeapContainer) (itemlist : List Nat) : Heap σ :=
  { h with container := Function.update h.container i (some { c with itemlist := itemlist }) }

/-- An item is made. -/
def new (node : Node) (c : Option HeapContainer) : Heap σ × Nat :=
  ({ h with
      object := Function.update h.object h.next node
      parent := Function.update h.parent h.next none
      container := Function.update h.container h.next c
      next := h.next + 1 }, h.next)

/-- `Container::addItem`. -/
def addItem (k item : Nat) : Heap σ :=
  match h.container k with
  | none => h
  | some c => (h.setItemlist k c (c.itemlist ++ [item])).setParent item (some (.item k))

/-- `clone`; the depth of the containers is below the fuel. -/
def clone : Nat → Heap σ → Nat → Option (Heap σ × Nat)
  | 0, _, _ => none
  | n + 1, h, i =>
      match (h.object i).clone w with
      | none => none
      | some node =>
          let made := h.new node (Node.newContainer w (h.object i).id)
          match h.container i with
          | none => some made
          | some c =>
              (c.itemlist.foldlM (fun h item =>
                (clone n h item).map fun r => r.1.addItem made.2 r.2) made.1).map fun h =>
                  (h, made.2)

end Heap

end Infernum
