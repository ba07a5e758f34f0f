import Infernum.Cylinder.Heap
import Infernum.Tile.Tile

/-!
# Queries

What `Container`, `DepotLocker`, `DepotChest` and `Inbox` answer before an item is moved or
added. The other cylinders (tiles, players, and items that are cylinders but no
containers) answer as `Others` says.
-/

namespace Infernum

/-- The values of `ReturnValue` that are about items. -/
inductive ReturnValue where
  | noError | notPossible | notEnoughRoom | notMoveable | dropTwoHandedItem
  | bothHandsNeedToBeFree | canOnlyUseOneWeapon | needExchange | cannotBeDressed
  | putThisObjectInYourHand | putThisObjectInBothHands | containerNotEnoughRoom
  | notEnoughCapacity | cannotPickup | thisIsImpossible | depotIsFull | canOnlyUseOneShield
  deriving DecidableEq, Repr

def FLAG_NOLIMIT : BitVec 32 := 1
def FLAG_CHILDISOWNER : BitVec 32 := 8
def FLAG_IGNORENOTMOVEABLE : BitVec 32 := 64
def FLAG_IGNOREAUTOSTACK : BitVec 32 := 128

def INDEX_WHEREEVER : Int := -1

/-- The answer of `queryDestination`, with what it writes to its references. -/
structure Destination where
  cylinder : Cylinder
  index : Int
  toItem : Option Nat
  flags : BitVec 32

namespace Heap

variable {σ : Type}

/-- Items are taken out of cylinders, or put into others than containers; types and
classes stay. -/
structure Loosens (h h' : Heap σ) : Prop where
  parent : ∀ i, h'.parent i = h.parent i ∨ ∀ k, h'.parent i ≠ some (.item k)
  tile : h'.tile = h.tile
  id : ∀ i, (h'.object i).id = (h.object i).id
  kind : ∀ i, (h'.container i).map (·.kind) = (h.container i).map (·.kind)
  next : h'.next = h.next

theorem Loosens.refl (h : Heap σ) : h.Loosens h :=
  ⟨fun _ => .inl rfl, rfl, fun _ => rfl, fun _ => rfl, rfl⟩

end Heap

/-- How tiles, players and items that are cylinders but no containers answer, and what
they do. They set `FLAG_NOLIMIT` at most, and they put no item into a container. -/
structure Others (σ : Type) where
  queryAdd : Heap σ → Cylinder → Int → Nat → BitVec 32 → BitVec 32 → Option ReturnValue
  queryMaxCount :
    Heap σ → Cylinder → Int → Nat → BitVec 32 → BitVec 32 → Option (ReturnValue × BitVec 32)
  queryRemove : Heap σ → Cylinder → Nat → BitVec 32 → BitVec 32 → Option ReturnValue
  queryDestination :
    Heap σ → Cylinder → Int → Nat → Option Nat → BitVec 32 → Option Destination
  getThingIndex : Heap σ → Cylinder → Nat → Int
  addThing : Heap σ → Cylinder → Int → Nat → Heap σ
  updateThing : Heap σ → Cylinder → Nat → BitVec 16 → BitVec 32 → Heap σ
  removeThing : Heap σ → Cylinder → Nat → BitVec 32 → Heap σ
  queryDestination_flags : ∀ h c index item toItem flags d,
    queryDestination h c index item toItem flags = some d →
      hasBitSet FLAG_CHILDISOWNER d.flags = hasBitSet FLAG_CHILDISOWNER flags
  queryDestination_made : ∀ h c index item toItem flags d,
    queryDestination h c index item toItem flags = some d → Heap.Made h c →
      Heap.Made h d.cylinder
  addThing_loosens : ∀ h c index item, Heap.Loosens h (addThing h c index item)
  updateThing_loosens : ∀ (h : Heap σ) c item count,
    h.Loosens (updateThing h c item (h.object item).id count)
  removeThing_loosens : ∀ h c item count, Heap.Loosens h (removeThing h c item count)

/-! ## Cylinders that answer themselves and change nothing -/

namespace Others

variable {σ : Type}

theorem same_flags (_ : Heap σ) (c : Cylinder) (index : Int) (_ : Nat) (toItem : Option Nat)
    (flags : BitVec 32) (d : Destination) (hd : some ⟨c, index, toItem, flags⟩ = some d) :
    hasBitSet FLAG_CHILDISOWNER d.flags = hasBitSet FLAG_CHILDISOWNER flags := by
  obtain rfl := Option.some.inj hd
  rfl

theorem same_made (h : Heap σ) (c : Cylinder) (index : Int) (_ : Nat) (toItem : Option Nat)
    (flags : BitVec 32) (d : Destination) (hd : some ⟨c, index, toItem, flags⟩ = some d)
    (hc : Heap.Made h c) : Heap.Made h d.cylinder := by
  obtain rfl := Option.some.inj hd
  exact hc

theorem same_loosens_add (h : Heap σ) (_ : Cylinder) (_ : Int) (_ : Nat) : h.Loosens h :=
  .refl h

theorem same_loosens (h : Heap σ) (_ : Cylinder) (_ : Nat) (_ : BitVec 32) : h.Loosens h :=
  .refl h

end Others

namespace Heap

variable {σ : Type} (w : CylinderWorld) (o : Others σ) (h : Heap σ) (n : Nat)

def isInbox : Cylinder → Bool
  | .item i => (h.container i).any (·.kind == .inbox)
  | _ => false

/-- The loops of `Container::queryAdd`: the item is not above the container, and, unless
there is no limit, no `Inbox` is. -/
def checkParents (item : Nat) (checkInbox : Bool) : Nat → Option Cylinder → Option ReturnValue
  | 0, _ => none
  | _ + 1, none => some .noError
  | n + 1, some c =>
      if c = .item item then some .thisIsImpossible
      else if checkInbox && h.isInbox c then some .containerNotEnoughRoom
      else
        match h.getParent n c with
        | none => none
        | some parent => checkParents item checkInbox n parent

/-- `getItemHoldingCount` of a container, for the items that the iterator comes to. -/
def getItemHoldingCount : Nat → List Nat → Option Nat
  | 0, _ => none
  | _ + 1, [] => some 0
  | n + 1, i :: waiting =>
      let itemlist := ((h.container i).map (·.itemlist)).getD []
      (getItemHoldingCount n (waiting ++ itemlist)).map (itemlist.length + ·)

end Heap

namespace HeapContainer

variable {σ : Type} (w : CylinderWorld) (h : Heap σ) (n : Nat) (i : Nat) (c : HeapContainer)

def size : Nat := c.itemlist.length

/-- `getItemByIndex`. -/
def getItemByIndex (index : Int) : Option Nat :=
  if 0 ≤ index then c.itemlist[index.toNat]? else none

/-- `getThingIndex`. -/
def getThingIndex (item : Nat) : Int :=
  match c.itemlist.idxOf? item with
  | some k => k
  | none => -1

/-! ## `queryAdd` -/

/-- `Container::queryAdd`; `top` is what the top parent answers. -/
def containerQueryAdd (top : Cylinder → Option ReturnValue) (index : Int) (item : Nat)
    (flags : BitVec 32) : Option ReturnValue :=
  if hasBitSet FLAG_CHILDISOWNER flags then some .noError
  else if c.unlocked = false then some .notPossible
  else if h.isPickupable w item = false then some .cannotPickup
  else if item = i then some .thisIsImpossible
  else
    let noLimit := hasBitSet FLAG_NOLIMIT flags
    match h.getParent n (.item i) with
    | none => none
    | some parent =>
        match h.checkParents item (!noLimit) n parent with
        | none => none
        | some .noError =>
            if !noLimit ∧ index = INDEX_WHEREEVER ∧ c.maxSize.toNat ≤ c.size then
              some .containerNotEnoughRoom
            else
              match h.getTopParent n i with
              | none | some none => none
              | some (some topParent) =>
                  if topParent ≠ .item i then top topParent else some .noError
        | some ret => some ret

/-- The number of items that `DepotChest::queryAdd` counts. -/
def addCount (item : Nat) (count : BitVec 32) : Option (BitVec 32) :=
  let addCount : BitVec 32 :=
    if h.isStackable w item ∧ (h.getItemCount item).setWidth 32 ≠ count then 1 else 0
  match h.getTopParent n item with
  | none => none
  | some topParent =>
      if topParent ≠ some (.item i) then
        if (h.container item).isSome then
          (h.getItemHoldingCount n [item]).map fun holding => .ofNat 32 holding + 1
        else some 1
      else some addCount

/-- `DepotChest::queryAdd`. -/
def depotChestQueryAdd (maxDepotItems : BitVec 32) (top : Cylinder → Option ReturnValue)
    (index : Int) (item : Nat) (count flags : BitVec 32) : Option ReturnValue :=
  if hasBitSet FLAG_NOLIMIT flags then c.containerQueryAdd w h n i top index item flags
  else
    match addCount w h n i item count, h.getItemHoldingCount n [i] with
    | some addCount, some holding =>
        if maxDepotItems < .ofNat 32 holding + addCount then some .depotIsFull
        else c.containerQueryAdd w h n i top index item flags
    | _, _ => none

/-- `Inbox::queryAdd`. -/
def inboxQueryAdd (item : Nat) (flags : BitVec 32) : ReturnValue :=
  if hasBitSet FLAG_NOLIMIT flags = false then .containerNotEnoughRoom
  else if item = i then .thisIsImpossible
  else if h.isPickupable w item = false then .cannotPickup
  else .noError

/-- `queryAdd` of a container. -/
def queryAdd (top : Cylinder → Option ReturnValue) (index : Int) (item : Nat)
    (count flags : BitVec 32) : Option ReturnValue :=
  match c.kind with
  | .container => c.containerQueryAdd w h n i top index item flags
  | .depotLocker => some .notEnoughRoom
  | .depotChest maxDepotItems =>
      c.depotChestQueryAdd w h n i maxDepotItems top index item count flags
  | .inbox => some (inboxQueryAdd w h i item flags)

end HeapContainer

namespace Heap

variable {σ : Type} (w : CylinderWorld) (o : Others σ) (h : Heap σ) (n : Nat)

def queryAddWith (top : Cylinder → Option ReturnValue) (c : Cylinder) (index : Int) (item : Nat)
    (count flags : BitVec 32) : Option ReturnValue :=
  match c with
  | .item i =>
      match h.container i with
      | some k => k.queryAdd w h n i top index item count flags
      | none => o.queryAdd h c index item count flags
  | _ => o.queryAdd h c index item count flags

/-- `queryAdd`. The top parent is asked with `FLAG_CHILDISOWNER`, and so it does not ask
its own. -/
def queryAdd (c : Cylinder) (index : Int) (item : Nat) (count flags : BitVec 32) :
    Option ReturnValue :=
  let top := fun topParent =>
    queryAddWith w o h n (fun _ => some .noError) topParent INDEX_WHEREEVER item count
      (flags ||| FLAG_CHILDISOWNER)
  queryAddWith w o h n top c index item count flags

/-! ## `queryMaxCount` -/

/-- What an item that is there still takes. -/
def stackRoom (c : Cylinder) (item : Nat) (flags : BitVec 32) :
    List Nat → Int → Option (BitVec 32)
  | [], _ => some 0
  | containerItem :: items, slotIndex =>
      if containerItem ≠ item ∧ h.equals containerItem (some item) ∧
          h.getItemCount containerItem < 100 then
        let remainder := 100 - (h.getItemCount containerItem).setWidth 32
        match queryAdd w o h n c slotIndex item remainder flags,
          stackRoom c item flags items (slotIndex + 1) with
        | some ret, some m => some (if ret = .noError then remainder + m else m)
        | _, _ => none
      else stackRoom c item flags items slotIndex

/-- `Container::queryMaxCount`. -/
def containerQueryMaxCount (i : Nat) (c : HeapContainer) (index : Int) (item : Nat)
    (count flags : BitVec 32) : Option (ReturnValue × BitVec 32) :=
  if hasBitSet FLAG_NOLIMIT flags then some (.noError, if count = 0 then 1 else count)
  else
    let freeSlots : BitVec 32 :=
      .ofInt 32 (max (c.maxSize - .ofNat 32 c.size).toInt 0)
    if h.isStackable w item then
      let room : Option (BitVec 32) :=
        if index = INDEX_WHEREEVER then stackRoom w o h n (.item i) item flags c.itemlist 0
        else
          match c.getItemByIndex index with
          | none => some 0
          | some destItem =>
              if h.equals item (some destItem) ∧ h.getItemCount destItem < 100 then
                let remainder := 100 - (h.getItemCount destItem).setWidth 32
                (queryAdd w o h n (.item i) index item remainder flags).map fun ret =>
                  if ret = .noError then remainder else 0
              else some 0
      room.map fun m =>
        let maxQueryCount := freeSlots * 100 + m
        (if maxQueryCount < count then .containerNotEnoughRoom else .noError, maxQueryCount)
    else some (if freeSlots = 0 then .containerNotEnoughRoom else .noError, freeSlots)

def queryMaxCount (c : Cylinder) (index : Int) (item : Nat) (count flags : BitVec 32) :
    Option (ReturnValue × BitVec 32) :=
  match c with
  | .item i =>
      match h.container i with
      | some k => containerQueryMaxCount w o h n i k index item count flags
      | none => o.queryMaxCount h c index item count flags
  | _ => o.queryMaxCount h c index item count flags

/-! ## `queryRemove` -/

/-- `Container::queryRemove`. -/
def containerQueryRemove (c : HeapContainer) (item : Nat) (count flags : BitVec 32) :
    ReturnValue :=
  if c.getThingIndex item = -1 then .notPossible
  else if count = 0 ∨ (h.isStackable w item ∧ (h.getItemCount item).setWidth 32 < count) then
    .notPossible
  else if h.isMoveable w item = false ∧ hasBitSet FLAG_IGNORENOTMOVEABLE flags = false then
    .notMoveable
  else .noError

def queryRemove (c : Cylinder) (item : Nat) (count flags : BitVec 32) : Option ReturnValue :=
  match c with
  | .item i =>
      match h.container i with
      | some k => some (containerQueryRemove w h k item count flags)
      | none => o.queryRemove h c item count flags
  | _ => o.queryRemove h c item count flags

/-! ## `queryDestination` -/

/-- The first item, from a position on, that the item can be stacked with. -/
def findStack (item : Nat) : List Nat → Nat → Option (Nat × Nat)
  | [], _ => none
  | listItem :: items, k =>
      if listItem ≠ item ∧ h.equals listItem (some item) ∧ h.getItemCount listItem < 100 then
        some (k, listItem)
      else findStack item items (k + 1)

/-- `Container::queryDestination`. -/
def containerQueryDestination (i : Nat) (c : HeapContainer) (index : Int) (item : Nat)
    (toItem : Option Nat) (flags : BitVec 32) : Option Destination :=
  if c.unlocked = false then some ⟨.item i, index, none, flags⟩
  else if index = 254 then
    match h.getParent n (.item i) with
    | none => none
    | some (some (.item k)) =>
        some ⟨.item (if (h.container k).isSome then k else i), INDEX_WHEREEVER, none, flags⟩
    | some _ => some ⟨.item i, INDEX_WHEREEVER, none, flags⟩
  else
    let wherever := index = 255 ∨ c.maxSize.toInt ≤ index
    let index := if wherever then INDEX_WHEREEVER else index
    let toItem := if wherever then none else toItem
    let toItem :=
      if index ≠ INDEX_WHEREEVER then (c.getItemByIndex index).or toItem else toItem
    match (if index ≠ INDEX_WHEREEVER then toItem.filter h.isCylinder else none) with
    | some subCylinder => some ⟨.item subCylinder, INDEX_WHEREEVER, none, flags⟩
    | none =>
        if hasBitSet FLAG_IGNOREAUTOSTACK flags = false ∧ h.isStackable w item then
          match h.getParent n (.item item) with
          | none => none
          | some parent =>
              if parent = some (.item i) then some ⟨.item i, index, toItem, flags⟩
              else
                match h.findStack item c.itemlist 0 with
                | some (k, listItem) => some ⟨.item i, k, some listItem, flags⟩
                | none => some ⟨.item i, index, toItem, flags⟩
        else some ⟨.item i, index, toItem, flags⟩

def queryDestination (c : Cylinder) (index : Int) (item : Nat) (toItem : Option Nat)
    (flags : BitVec 32) : Option Destination :=
  match c with
  | .item i =>
      match h.container i with
      | some k => containerQueryDestination w h n i k index item toItem flags
      | none => o.queryDestination h c index item toItem flags
  | _ => o.queryDestination h c index item toItem flags

def getThingIndex (c : Cylinder) (item : Nat) : Int :=
  match c with
  | .item i =>
      match h.container i with
      | some k => k.getThingIndex item
      | none => o.getThingIndex h c item
  | _ => o.getThingIndex h c item

end Heap

end Infernum
