import Infernum.Lib.Paging
import Infernum.Lib.TransitionSystem
import Infernum.Tile.Tile

/-!
# Containers that a client has open

`Player::openContainers`, the changes of a container and the messages that a player near it
is sent for them, and the client that shows a page of each window. An item is the value
that messages are written from; `thing` is given by its place in the container, a place
outside standing for `getThingIndex` being -1. A client is always connected.
-/

namespace Infernum.OpenPages

open Lib

abbrev ContainerRef := Nat

def ITEM_BROWSEFIELD : BitVec 16 := 460

/-- What `Container::getParent` points to. -/
inductive Parent
  | nullptr | virtualCylinder | player | other
  deriving DecidableEq, Repr

/-! ## Containers -/

structure Container where
  id : BitVec 16
  maxSize : BitVec 32
  unlocked : Bool := true
  pagination : Bool := false
  parent : Parent
  itemlist : List Object

namespace Container

variable (container : Container)

def size : Nat := container.itemlist.length

def capacity : BitVec 32 := container.maxSize

def isBrowseField : Bool := container.id == ITEM_BROWSEFIELD

/-- `Container::hasParent`. -/
def hasParent : Bool := !container.isBrowseField && container.parent != .player

/-- `Container::getItemByIndex`. -/
def getItemByIndex (index : Nat) : Option Object := container.itemlist[index]?

/-- The container with other items in it. -/
def withItems (itemlist : List Object) : Container := { container with itemlist }

end Container

/-! ## Messages and the client -/

/-- The messages `0x6E` to `0x72`, less the names. -/
inductive Message
  | container (cid capacity : BitVec 8) (hasParent unlocked pagination : Bool)
      (containerSize firstIndex : BitVec 16) (items : List Object)
  | closeContainer (cid : BitVec 8)
  | addContainerItem (cid : BitVec 8) (slot : BitVec 16) (item : Object)
  | updateContainerItem (cid : BitVec 8) (slot : BitVec 16) (item : Object)
  | removeContainerItem (cid : BitVec 8) (slot : BitVec 16) (lastItem : Option Object)

def Message.cid : Message → BitVec 8
  | .container cid _ _ _ _ _ _ _ | .closeContainer cid | .addContainerItem cid _ _
  | .updateContainerItem cid _ _ | .removeContainerItem cid _ _ => cid

/-- What a client shows under one id. -/
structure Page where
  firstIndex : BitVec 16
  capacity : BitVec 8
  items : List Object

namespace Page

variable (p : Page) (slot : BitVec 16)

/-- The item goes to its slot, the ones behind move up, and what no longer fits the page is
dropped. -/
def addItem (item : Object) : Page :=
  if p.firstIndex ≤ slot ∧ slot.toNat - p.firstIndex.toNat ≤ p.items.length then
    { p with
      items := (p.items.insertIdx (slot.toNat - p.firstIndex.toNat) item).take p.capacity.toNat }
  else p

def updateItem (item : Object) : Page :=
  if p.firstIndex ≤ slot then
    { p with items := p.items.set (slot.toNat - p.firstIndex.toNat) item }
  else p

/-- The item of the slot goes, the ones behind move down, and `lastItem` is shown last. -/
def removeItem (lastItem : Option Object) : Page :=
  if p.firstIndex ≤ slot ∧ slot.toNat - p.firstIndex.toNat < p.items.length then
    { p with
      items := p.items.eraseIdx (slot.toNat - p.firstIndex.toNat) ++ lastItem.toList }
  else p

end Page

/-- What a message makes of the page that its id shows. -/
def Message.apply : Message → Option Page → Option Page
  | .container _ capacity _ _ _ _ firstIndex items, _ => some { firstIndex, capacity, items }
  | .closeContainer _, _ => none
  | .addContainerItem _ slot item, p => p.map fun p => p.addItem slot item
  | .updateContainerItem _ slot item, p => p.map fun p => p.updateItem slot item
  | .removeContainerItem _ slot lastItem, p => p.map fun p => p.removeItem slot lastItem

/-! ## What a player is sent -/

structure OpenContainer where
  container : ContainerRef
  index : BitVec 16
  deriving DecidableEq, Repr

/-- An entry of `openContainers`. -/
abbrev Entry := BitVec 8 × OpenContainer

namespace Container

variable (container : Container)

/-- `ProtocolGame::sendContainer`. -/
def sendContainer (cid : BitVec 8) (hasParent : Bool) (firstIndex : BitVec 16) : Message :=
  let containerSize : BitVec 32 := .ofNat 32 container.size
  let items :=
    if firstIndex.setWidth 32 < containerSize then
      let itemsToSend :=
        min (min container.capacity.toNat (containerSize - firstIndex.setWidth 32).toNat) 255
      (container.itemlist.drop firstIndex.toNat).take itemsToSend
    else []
  .container cid (container.capacity.setWidth 8) hasParent container.unlocked
    container.pagination (containerSize.setWidth 16) firstIndex items

/-- One turn of the loop of `Player::sendAddContainerItem`: the slot, and the item that
this window and the next ones are sent. -/
def addTurn (index : BitVec 16) (item : Option Object) : BitVec 16 × Option Object :=
  if container.isBrowseField then
    let containerSize : BitVec 16 := .ofNat 16 container.size - 1
    let pageEnd : BitVec 16 := index + container.capacity.setWidth 16 - 1
    if pageEnd < containerSize then (pageEnd, container.getItemByIndex pageEnd.toNat)
    else (containerSize, item)
  else if container.capacity ≤ index.setWidth 32 then
    -- `index - 1` is below zero for a container without room
    (index, container.getItemByIndex (index.setWidth 64 - 1).toNat)
  else (index, item)

/-- `Player::sendAddContainerItem`, over the windows of the container. Nothing is left if a
null pointer is to be written into a message. -/
def sendAddContainerItem : List Entry → Option Object → Option (List Message)
  | [], _ => some []
  | it :: entries, item => do
      let (slot, item) := container.addTurn it.2.index item
      let message := .addContainerItem it.1 slot (← item)
      return message :: (← sendAddContainerItem entries item)

/-- One turn of the loop of `Player::sendUpdateContainerItem`. -/
def updateTurn (slot : BitVec 16) (newItem : Object) (it : Entry) : List Message :=
  if slot < it.2.index then []
  else
    let pageEnd : BitVec 16 := it.2.index + container.capacity.setWidth 16
    if pageEnd ≤ slot then []
    else [.updateContainerItem it.1 slot newItem]

/-- Whether the page is empty once an item is gone. There is an item to go, so `size` is
not 0. -/
def turnsPage (firstIndex : BitVec 16) : Bool :=
  0 < firstIndex && container.size - 1 ≤ firstIndex.toNat

/-- The `firstIndex` that one turn of the loop of `Player::sendRemoveContainerItem` leaves. -/
def firstIndexAfter (firstIndex : BitVec 16) : BitVec 16 :=
  if container.turnsPage firstIndex then firstIndex - container.capacity.setWidth 16
  else firstIndex

/-- One turn of the loop of `Player::sendRemoveContainerItem`. -/
def removeTurn (slot : BitVec 16) (it : Entry) : List Message :=
  let firstIndex := container.firstIndexAfter it.2.index
  let lastItem :=
    container.getItemByIndex (container.capacity + firstIndex.setWidth 32).toNat
  (if container.turnsPage it.2.index then [container.sendContainer it.1 false firstIndex]
    else []) ++
    [.removeContainerItem it.1 (if slot < firstIndex then firstIndex else slot) lastItem]

end Container

/-! ## The server and one client -/

structure State where
  container : ContainerRef → Container
  /-- a `std::map`: it is walked from the lowest id to the highest -/
  openContainers : BitVec 8 → Option OpenContainer
  /-- what the client shows -/
  pages : BitVec 8 → Option Page

namespace State

variable (s : State) (c : ContainerRef)

/-- The entries of `openContainers`, in order. -/
def entries : List Entry :=
  (List.finRange 256).filterMap fun cid =>
    (s.openContainers (.ofFin cid)).map (Prod.mk (.ofFin cid))

/-- The entries for which the loops over `openContainers` do not `continue`. -/
def entriesOf : List Entry := s.entries.filter fun it => it.2.container == c

/-- The client reads the messages in order. -/
def send (messages : List Message) : State :=
  { s with pages := messages.foldl (receive Message.cid Message.apply) s.pages }

def setItems (itemlist : List Object) : State :=
  { s with container := Function.update s.container c ((s.container c).withItems itemlist) }

@[simp] theorem setItems_container (itemlist : List Object) :
    (s.setItems c itemlist).container c = (s.container c).withItems itemlist :=
  Function.update_self ..

@[simp] theorem setItems_entriesOf (itemlist : List Object) :
    (s.setItems c itemlist).entriesOf c = s.entriesOf c := rfl

/-! ### The container changes -/

/-- `Container::onAddContainerItem`, for a player near the container. -/
def onAddContainerItem (item : Object) : Option State :=
  ((s.container c).sendAddContainerItem (s.entriesOf c) (some item)).map s.send

/-- `Container::onUpdateContainerItem`. -/
def onUpdateContainerItem (index : Nat) (newItem : Object) : State :=
  s.send ((s.entriesOf c).flatMap ((s.container c).updateTurn (.ofNat 16 index) newItem))

/-- `Container::onRemoveContainerItem`: the pages may be turned. -/
def onRemoveContainerItem (index : Nat) : State :=
  { s.send ((s.entriesOf c).flatMap ((s.container c).removeTurn (.ofNat 16 index))) with
    openContainers := fun cid => (s.openContainers cid).map fun oc =>
      if oc.container = c then { oc with index := (s.container c).firstIndexAfter oc.index }
      else oc }

/-- `Container::addThing`. -/
def addThing (index : BitVec 32) (item : Object) : Option State :=
  let k := s.container c
  if k.capacity.toInt ≤ index.toInt then some s
  else
    let s := s.setItems c (item :: k.itemlist)
    if k.parent ≠ .nullptr ∧ k.parent ≠ .virtualCylinder then s.onAddContainerItem c item
    else some s

/-- `Container::addItemBack`. -/
def addItemBack (item : Object) : Option State :=
  let k := s.container c
  let s := s.setItems c (k.itemlist ++ [item])
  if k.parent ≠ .nullptr ∧ k.parent ≠ .virtualCylinder then s.onAddContainerItem c item
  else some s

/-- The item at a place is another one or has changed. -/
def setItem (index : Nat) (newItem : Object) : State :=
  let k := s.container c
  let s := s.setItems c (k.itemlist.set index newItem)
  if k.parent ≠ .nullptr then s.onUpdateContainerItem c index newItem else s

/-- `Container::updateThing`. -/
def updateThing (w : TileWorld) (index : Nat) (itemId : BitVec 16) (count : BitVec 32) : State :=
  match (s.container c).getItemByIndex index with
  | none => s
  | some item => s.setItem c index ((item.setID w itemId).setSubType w (count.setWidth 16))

/-- `Container::replaceThing`. -/
def replaceThing (index : Nat) (item : Object) : State :=
  match (s.container c).getItemByIndex index with
  | none => s
  | some _ => s.setItem c index item

/-- Whether `removeThing` takes a part of a stack only. -/
def splits (w : TileWorld) (item : Object) (count : BitVec 32) : Bool :=
  (item.itemType w).stackable && count != item.count.setWidth 32

/-- `Container::removeThing`. -/
def removeThing (w : TileWorld) (index : Nat) (count : BitVec 32) : State :=
  let k := s.container c
  match k.getItemByIndex index with
  | none => s
  | some item =>
      if splits w item count then
        let newCount : BitVec 8 :=
          .ofNat 8 (max 0 (item.count.setWidth 32 - count).toInt).toNat
        s.setItem c index { item with count := newCount }
      else
        -- the clients are told before the item is gone
        let s := if k.parent ≠ .nullptr then s.onRemoveContainerItem c index else s
        s.setItems c (k.itemlist.eraseIdx index)

/-! ### The player turns pages -/

/-- `Player::addContainer`. -/
def addContainer (cid : BitVec 8) : State :=
  if 0xF < cid then s
  else { s with openContainers := Function.update s.openContainers cid (some ⟨c, 0⟩) }

/-- `Player::getContainerIndex`. -/
def getContainerIndex (cid : BitVec 8) : BitVec 16 :=
  match s.openContainers cid with
  | none => 0
  | some oc => oc.index

/-- A container is opened under an id, as `Game::playerMoveUpContainer` and
`Game::playerBrowseField` do and using a container comes to. -/
def showContainer (cid : BitVec 8) : State :=
  let s := s.addContainer c cid
  let container := s.container c
  s.send [container.sendContainer cid container.hasParent (s.getContainerIndex cid)]

/-- `Player::setContainerIndex`. -/
def setContainerIndex (cid : BitVec 8) (index : BitVec 16) : State :=
  match s.openContainers cid with
  | none => s
  | some oc =>
      { s with
        openContainers := Function.update s.openContainers cid (some { oc with index := index }) }

/-- `Game::playerSeekInContainer`: a container without room divides by zero. -/
def playerSeekInContainer (cid : BitVec 8) (index : BitVec 16) : Option State :=
  match s.openContainers cid with
  | none => some s
  | some oc =>
      let container := s.container oc.container
      if container.pagination = false then some s
      else if container.capacity = 0 then none
      else if index.toNat % container.capacity.toNat ≠ 0 ∨ container.size ≤ index.toNat then
        some s
      else
        some ((s.setContainerIndex cid index).send
          [container.sendContainer cid container.hasParent index])

/-- `Game::playerUpdateContainer`. -/
def playerUpdateContainer (cid : BitVec 8) : State :=
  match s.openContainers cid with
  | none => s
  | some oc =>
      let container := s.container oc.container
      s.send [container.sendContainer cid container.hasParent (s.getContainerIndex cid)]

/-- `Player::closeContainer`. -/
def closeContainer (cid : BitVec 8) : State :=
  { s with openContainers := Function.update s.openContainers cid none }

/-- `Game::playerCloseContainer`. -/
def playerCloseContainer (cid : BitVec 8) : State :=
  (s.closeContainer cid).send [.closeContainer cid]

end State

/-! ## Runs -/

inductive Event
  | addThing (c : ContainerRef) (index : BitVec 32) (item : Object)
  | addItemBack (c : ContainerRef) (item : Object)
  | updateThing (c : ContainerRef) (index : Nat) (itemId : BitVec 16) (count : BitVec 32)
  | replaceThing (c : ContainerRef) (index : Nat) (item : Object)
  | removeThing (c : ContainerRef) (index : Nat) (count : BitVec 32)
  | showContainer (c : ContainerRef) (cid : BitVec 8)
  | playerSeekInContainer (cid : BitVec 8) (index : BitVec 16)
  | playerUpdateContainer (cid : BitVec 8)
  | playerCloseContainer (cid : BitVec 8)

/-- One event. Nothing is left of the server if what it does is undefined. -/
def step (w : TileWorld) (s : State) : Event → Option State
  | .addThing c index item => s.addThing c index item
  | .addItemBack c item => s.addItemBack c item
  | .updateThing c index itemId count => some (s.updateThing c w index itemId count)
  | .replaceThing c index item => some (s.replaceThing c index item)
  | .removeThing c index count => some (s.removeThing c w index count)
  | .showContainer c cid => some (s.showContainer c cid)
  | .playerSeekInContainer cid index => s.playerSeekInContainer cid index
  | .playerUpdateContainer cid => some (s.playerUpdateContainer cid)
  | .playerCloseContainer cid => some (s.playerCloseContainer cid)

end Infernum.OpenPages
