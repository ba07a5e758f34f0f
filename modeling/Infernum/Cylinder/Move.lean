import Infernum.Cylinder.Query
import Infernum.Map.Position

/-!
# `internalMoveItem` and `internalAddItem`

Both give nothing if a loop or a recursion of theirs has not ended by the fuel, or if a null
pointer is followed. Notifications and messages to clients change no item here.
-/

namespace Infernum

/-- `std::min<uint32_t>`. -/
def uint32Min (a b : BitVec 32) : BitVec 32 := if b < a then b else a

namespace Heap

variable {σ : Type} (w : CylinderWorld) (o : Others σ) (h : Heap σ) (n : Nat)

/-! ## What a cylinder does -/

/-- `Container::addThing`. -/
def containerAddThing (i : Nat) (c : HeapContainer) (index : Int) (item : Nat) : Heap σ :=
  if c.maxSize.toInt ≤ index then h
  else (h.setParent item (some (.item i))).setItemlist i c (item :: c.itemlist)

/-- `Container::updateThing`. -/
def containerUpdateThing (c : HeapContainer) (item : Nat) (itemId : BitVec 16)
    (count : BitVec 32) : Heap σ :=
  if c.getThingIndex item = -1 then h
  else
    h.setObject item (((h.object item).toObject.setID w.toTileWorld itemId).setSubType
      w.toTileWorld (count.setWidth 16))

/-- `Container::removeThing`. -/
def containerRemoveThing (i : Nat) (c : HeapContainer) (item : Nat) (count : BitVec 32) :
    Heap σ :=
  if c.getThingIndex item = -1 then h
  else if h.isStackable w item ∧ count ≠ (h.getItemCount item).setWidth 32 then
    let newCount := (max 0 ((h.getItemCount item).setWidth 32 - count).toInt).toNat
    h.setItemCount item (.ofNat 16 (newCount % 256))
  else (h.setParent item none).setItemlist i c (c.itemlist.erase item)

def addThing (c : Cylinder) (index : Int) (item : Nat) : Heap σ :=
  match c with
  | .item i =>
      match h.container i with
      | some k => h.containerAddThing i k index item
      | none => o.addThing h c index item
  | _ => o.addThing h c index item

def updateThing (c : Cylinder) (item : Nat) (itemId : BitVec 16) (count : BitVec 32) : Heap σ :=
  match c with
  | .item i =>
      match h.container i with
      | some k => h.containerUpdateThing w k item itemId count
      | none => o.updateThing h c item itemId count
  | _ => o.updateThing h c item itemId count

def removeThing (c : Cylinder) (item : Nat) (count : BitVec 32) : Heap σ :=
  match c with
  | .item i =>
      match h.container i with
      | some k => h.containerRemoveThing w i k item count
      | none => o.removeThing h c item count
  | _ => o.removeThing h c item count

/-! ## `Game::internalMoveItem` -/

/-- A browse field stands for its tile. -/
def moveSource (fromCylinder : Cylinder) : Option Cylinder :=
  (h.getTile n fromCylinder).map fun
    | none => fromCylinder
    | some t =>
        match h.browseFields t with
        | some b => if fromCylinder = .item b then .tile t else fromCylinder
        | none => fromCylinder

/-- The loop over `queryDestination`, so many times at most. -/
def findDestination (item : Nat) : Nat → Destination → Option Destination
  | 0, d => some d
  | k + 1, d =>
      match h.queryDestination w o n d.cylinder d.index item d.toItem d.flags with
      | none => none
      | some d' =>
          if d'.cylinder = d.cylinder then some d'
          else findDestination item k { d' with flags := 0 }

/-- The exchange: `toItem` goes to the source if it is taken there. The answer is that of
the last query, and the item that is still at the destination. -/
def exchange (fromCylinder : Cylinder) (item : Nat) (count : BitVec 32) (d : Destination) :
    Option (Heap σ × ReturnValue × Option Nat) :=
  match d.toItem with
  | none => none
  | some toItem =>
      let toCount := (h.getItemCount toItem).setWidth 32
      match h.queryAdd w o n fromCylinder (h.getThingIndex o fromCylinder item) toItem toCount 0 with
      | none => none
      | some .noError =>
          match h.queryMaxCount w o n fromCylinder INDEX_WHEREEVER toItem toCount 0 with
          | none => none
          | some (retMaxCount, maxQueryCount) =>
              if retMaxCount ≠ .noError ∧ maxQueryCount = 0 then some (h, retMaxCount, some toItem)
              else
                match h.queryRemove w o d.cylinder toItem toCount d.flags with
                | none => none
                | some .noError =>
                    let h := h.removeThing w o d.cylinder toItem toCount
                    let h := h.addThing o fromCylinder 0 toItem
                    (h.queryAdd w o n d.cylinder d.index item count d.flags).map fun ret =>
                      (h, ret, none)
                -- the answer is that of the source
                | some _ => some (h, .noError, some toItem)
      | some ret => some (h, ret, some toItem)

/-- An item is in the trade item, or is it. -/
def isIn (tradeItem : Nat) : Nat → Cylinder → Option Bool
  | 0, _ => none
  | n + 1, c =>
      if c = .item tradeItem then some true
      else
        match h.getParent n c with
        | none => none
        | some none => some false
        | some (some parent) => isIn tradeItem n parent

structure Moved where
  ret : ReturnValue
  /-- what is written to `*_moveItem` -/
  moveItem : Option Nat := none

/-- The item at the destination takes what it can, and how much that is. -/
def mergeThing (item : Nat) (m : BitVec 32) (d : Destination) : Heap σ × BitVec 32 :=
  match d.toItem with
  | some toItem =>
      if h.equals item (some toItem) then
        let n := uint32Min (100 - (h.getItemCount toItem).setWidth 32) m
        (h.updateThing w o d.cylinder toItem (h.object toItem).id
          ((h.getItemCount toItem).setWidth 32 + n), n)
      else (h, 0)
  | none => (h, 0)

/-- The item is removed, merged into the item at the destination, and the rest added. -/
def moveThing (fromCylinder : Cylinder) (item : Nat) (m : BitVec 32) (d : Destination) :
    Option (Heap σ × Option Nat) :=
  let h := h.removeThing w o fromCylinder item m
  if h.isStackable w item then
    let merged := h.mergeThing w o item m d
    let newCount := m - merged.2
    if 0 < newCount.toInt then
      (merged.1.clone w n item).map fun (h, moveItem) =>
        ((h.setItemCount moveItem (newCount.setWidth 16)).addThing o d.cylinder d.index moveItem,
          some moveItem)
    else some (merged.1, none)
  else some (h.addThing o d.cylinder d.index item, some item)

/-- The checks after `queryAdd`, and the move. -/
def moveChecked (fromCylinder : Cylinder) (item : Nat) (count : BitVec 32) (d : Destination)
    (tradeItem : Option Nat) : Option (Heap σ × Moved) :=
  match h.queryMaxCount w o n d.cylinder d.index item count d.flags with
  | none => none
  | some (retMaxCount, maxQueryCount) =>
      if retMaxCount ≠ .noError ∧ maxQueryCount = 0 then some (h, ⟨retMaxCount, none⟩)
      else
        let m := if h.isStackable w item then uint32Min count maxQueryCount else maxQueryCount
        match h.queryRemove w o fromCylinder item m d.flags with
        | none => none
        | some .noError =>
            match tradeItem.elim (some false) fun t => h.isIn t n d.cylinder with
            | none => none
            | some true => some (h, ⟨.notEnoughRoom, none⟩)
            | some false =>
                (h.moveThing w o n fromCylinder item m d).map fun (h', moveItem) =>
                  (h', ⟨if h.isStackable w item ∧ maxQueryCount < count then retMaxCount
                    else .noError, some (moveItem.getD item)⟩)
        | some ret => some (h, ⟨ret, none⟩)

/-- `Game::internalMoveItem`. -/
def internalMoveItem (fromCylinder toCylinder : Cylinder) (index : Int) (item : Nat)
    (count flags : BitVec 32) (tradeItem : Option Nat) : Option (Heap σ × Moved) :=
  match h.moveSource n fromCylinder,
    h.findDestination w o n item MAP_MAX_LAYERS ⟨toCylinder, index, none, flags⟩ with
  | some fromCylinder, some d =>
      if d.toItem = some item then some (h, ⟨.noError, none⟩)
      else
        match h.queryAdd w o n d.cylinder d.index item count d.flags with
        | none => none
        | some .needExchange =>
            match h.exchange w o n fromCylinder item count d with
            | none => none
            | some (h, .noError, toItem) =>
                h.moveChecked w o n fromCylinder item count { d with toItem := toItem } tradeItem
            | some (h, ret, _) => some (h, ⟨ret, none⟩)
        | some .noError => h.moveChecked w o n fromCylinder item count d tradeItem
        | some ret => some (h, ⟨ret, none⟩)
  | _, _ => none

/-! ## `Game::internalAddItem` -/

structure Added where
  ret : ReturnValue
  remainderCount : BitVec 32 := 0

/-- `Game::internalAddItem`; an item that is merged into another one is released. -/
def internalAddItem : Nat → Heap σ → Cylinder → Nat → Int → BitVec 32 → Bool →
    Option (Heap σ × Added)
  | 0, _, _, _, _, _, _ => none
  | k + 1, h, destCylinder, item, index, flags, test =>
      match h.queryDestination w o n destCylinder index item none flags with
      | none => none
      | some d =>
          let itemCount := (h.getItemCount item).setWidth 32
          match h.queryAdd w o n d.cylinder d.index item itemCount d.flags with
          | none => none
          | some .noError =>
              match h.queryMaxCount w o n destCylinder INDEX_WHEREEVER item itemCount d.flags with
              | none => none
              | some (.noError, maxQueryCount) =>
                  if test then some (h, ⟨.noError, 0⟩)
                  else
                    match d.toItem.filter fun t => h.isStackable w item && h.equals item (some t) with
                    | none => some (h.addThing o d.cylinder d.index item, ⟨.noError, 0⟩)
                    | some toItem =>
                        let m := uint32Min itemCount maxQueryCount
                        let n' := uint32Min (100 - (h.getItemCount toItem).setWidth 32) m
                        let h := h.updateThing w o d.cylinder toItem (h.object toItem).id
                          ((h.getItemCount toItem).setWidth 32 + n')
                        let count := m - n'
                        if 0 < count.toInt then
                          if (h.getItemCount item).setWidth 32 ≠ count then
                            match h.clone w n item with
                            | none => none
                            | some (h, remainderItem) =>
                                (internalAddItem k (h.setItemCount remainderItem (count.setWidth 16))
                                  destCylinder remainderItem INDEX_WHEREEVER d.flags false).map
                                    fun (h, added) =>
                                      (h, ⟨.noError, if added.ret = .noError then 0 else count⟩)
                          else some (h.addThing o d.cylinder d.index item, ⟨.noError, 0⟩)
                        else some (h, ⟨.noError, 0⟩)
              | some (ret, _) => some (h, ⟨ret, 0⟩)
          | some ret => some (h, ⟨ret, 0⟩)

end Heap

/-! ## Runs -/

inductive HeapOp where
  | createItem (id count : BitVec 16)
  | internalMoveItem (fromCylinder toCylinder : Cylinder) (index : Int) (item : Nat)
      (count flags : BitVec 32) (tradeItem : Option Nat)
  | internalAddItem (toCylinder : Cylinder) (item : Nat) (index : Int) (flags : BitVec 32)
      (test : Bool)

namespace Heap

variable {σ : Type} (w : CylinderWorld) (o : Others σ) (h : Heap σ)

def run (n : Nat) : HeapOp → Option (Heap σ)
  | .createItem id count =>
      some (match Item.createItem w.toWorld id count with
        | none => h
        | some i => (h.new (Node.ofItem w id i) (Node.newContainer w id)).1)
  | .internalMoveItem fromCylinder toCylinder index item count flags tradeItem =>
      (h.internalMoveItem w o n fromCylinder toCylinder index item count flags tradeItem).map
        Prod.fst
  | .internalAddItem toCylinder item index flags test =>
      (internalAddItem w o n n h toCylinder item index flags test).map Prod.fst

end Heap

end Infernum
