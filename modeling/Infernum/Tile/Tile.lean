import Infernum.Item.Item
import Mathlib.Data.List.Basic

/-!
# Tiles

`Tile`: the ground, the other items, the creatures and the flags of a place. Items
are known by the object they are; `object` gives each object's present values.
Parents and the messages to the clients are left out.
-/

namespace Infernum

/-! ## Item types and objects -/

/-- The fields of `ItemType` that tiles read besides. -/
structure TileItemType where
  blockSolid : Bool := false
  blockProjectile : Bool := false
  blockPathFind : Bool := false
  hasHeight : Bool := false
  isVertical : Bool := false
  isHorizontal : Bool := false
  replaceable : Bool := true
  stopTime : Bool := false
  floorChange : BitVec 8 := 0
  deriving DecidableEq, Repr

structure TileWorld extends World where
  tileItemType : BitVec 16 → TileItemType

/-- `ITEMPROPERTY`. -/
inductive ItemProperty
  | blockSolid | hasHeight | blockProjectile | blockPath | isVertical | isHorizontal | moveable
  | immovableBlockSolid | immovableBlockPath | immovableNoFieldBlockPath | noFieldBlockPath
  | supportHangable
  deriving DecidableEq, Repr

/-- An item with the class it was made with and the answers of its virtual
functions. -/
structure Object extends Item where
  cls : ItemType.Class
  canRemove : Bool := true
  canTransform : Bool := true

namespace Object

variable (w : TileWorld) (o : Object)

def itemType : ItemType := w.itemType o.id

/-- `Item::isAlwaysOnTop`. -/
def isAlwaysOnTop : Bool := (o.itemType w).alwaysOnTop

/-- `Item::hasProperty`. -/
def hasProperty (prop : ItemProperty) : Bool :=
  let it := o.itemType w
  let tt := w.tileItemType o.id
  let isMagicField := it.type == .magicField
  let immovable := !it.moveable || o.hasAttribute .uniqueId
  match prop with
  | .blockSolid => tt.blockSolid
  | .moveable => it.moveable && !o.hasAttribute .uniqueId
  | .hasHeight => tt.hasHeight
  | .blockProjectile => tt.blockProjectile
  | .blockPath => tt.blockPathFind
  | .isVertical => tt.isVertical
  | .isHorizontal => tt.isHorizontal
  | .immovableBlockSolid => tt.blockSolid && immovable
  | .immovableBlockPath => tt.blockPathFind && immovable
  | .immovableNoFieldBlockPath => !isMagicField && tt.blockPathFind && immovable
  | .noFieldBlockPath => !isMagicField && tt.blockPathFind
  | .supportHangable => tt.isHorizontal || tt.isVertical

/-- `Item::removeAttribute`. -/
def removeAttribute (a : IntAttr) : Object :=
  { o with attributes := { o.attributes with int := Function.update o.attributes.int a none } }

/-- `Item::setID`. -/
def setID (newid : BitVec 16) : Object :=
  let prevIt := w.tileItemType o.id
  let o := { o with id := newid }
  let it := w.itemType newid
  let newDuration := it.decayTime * 1000
  let o :=
    if newDuration = 0 ∧ (w.tileItemType newid).stopTime = false ∧ it.decayTo < 0 then
      (o.removeAttribute .decayState).removeAttribute .duration
    else o
  let o := o.removeAttribute .corpseOwner
  if 0 < newDuration ∧ (prevIt.stopTime = false ∨ o.hasAttribute .duration = false) then
    { o with toItem :=
        (o.toItem.setIntAttr .decayState DECAYING_FALSE).setIntAttr .duration newDuration }
  else o

/-- `Item::setSubType`. -/
def setSubType (n : BitVec 16) : Object :=
  { o with toItem := o.toItem.setSubType w.toWorld n }

/-- `Item::setDefaultSubtype`. -/
def setDefaultSubtype : Object :=
  let it := o.itemType w
  let o := { o with toItem := o.toItem.setItemCount 1 }
  if it.charges ≠ 0 then
    if it.stackable then { o with toItem := o.toItem.setItemCount (it.charges.setWidth 16) }
    else { o with toItem := o.toItem.setCharges (it.charges.setWidth 16) }
  else o

/-! What tiles ask an object for besides its type: its class and whether it has a
unique id. Neither changes with the type or the sub-type. -/

/-- Values that differ in the type and the other attributes at most. -/
def Alike (o' : Object) : Prop :=
  o'.cls = o.cls ∧ o'.hasAttribute .uniqueId = o.hasAttribute .uniqueId

theorem Alike.trans {o o' o'' : Object} (h : o.Alike o') (h' : o'.Alike o'') : o.Alike o'' :=
  ⟨h'.1.trans h.1, h'.2.trans h.2⟩

theorem alike_setIntAttr {a : IntAttr} (hne : IntAttr.uniqueId ≠ a) (n : BitVec 32) :
    o.Alike { o with toItem := o.toItem.setIntAttr a n } := by
  refine ⟨rfl, ?_⟩
  show (Function.update o.attributes.int a (some n) .uniqueId).isSome = _
  rw [Function.update_of_ne hne]
  rfl

theorem alike_removeAttribute {a : IntAttr} (hne : IntAttr.uniqueId ≠ a) :
    o.Alike (o.removeAttribute a) := by
  refine ⟨rfl, ?_⟩
  show (Function.update o.attributes.int a none .uniqueId).isSome = _
  rw [Function.update_of_ne hne]
  rfl

theorem alike_setID (newid : BitVec 16) : o.Alike (o.setID w newid) := by
  have hid : o.Alike { o with id := newid } := ⟨rfl, rfl⟩
  have hkeep : ∀ o' : Object, o'.Alike (o'.removeAttribute .corpseOwner) := fun o' =>
    o'.alike_removeAttribute (by decide)
  have hduration : ∀ (o' : Object) n, o'.Alike { o' with toItem :=
      (o'.toItem.setIntAttr .decayState DECAYING_FALSE).setIntAttr .duration n } := fun o' n =>
    (o'.alike_setIntAttr (a := .decayState) (by decide) DECAYING_FALSE).trans
      (alike_setIntAttr _ (a := .duration) (by decide) n)
  rw [setID]
  dsimp only
  split
  · -- the decay attributes are removed first
    have hdecay := (hid.trans (alike_removeAttribute _ (a := .decayState) (by decide))).trans
      (alike_removeAttribute _ (a := .duration) (by decide))
    split
    · exact (hdecay.trans (hkeep _)).trans (hduration _ _)
    · exact hdecay.trans (hkeep _)
  · split
    · exact (hid.trans (hkeep _)).trans (hduration _ _)
    · exact hid.trans (hkeep _)

theorem alike_setSubType (n : BitVec 16) :
    (o.setSubType w n).id = o.id ∧ o.Alike (o.setSubType w n) := by
  rw [setSubType, Item.setSubType]
  split
  · exact ⟨rfl, o.alike_setIntAttr (by decide) _⟩
  · split
    · exact ⟨rfl, rfl, rfl⟩
    · split
      · exact ⟨rfl, o.alike_setIntAttr (by decide) _⟩
      · exact ⟨rfl, rfl, rfl⟩

theorem alike_setDefaultSubtype :
    (o.setDefaultSubtype w).id = o.id ∧ o.Alike (o.setDefaultSubtype w) := by
  rw [setDefaultSubtype]
  dsimp only
  split
  · split
    · exact ⟨rfl, rfl, rfl⟩
    · exact ⟨rfl, alike_setIntAttr { o with toItem := o.toItem.setItemCount 1 } (by decide) _⟩
  · exact ⟨rfl, rfl, rfl⟩

end Object

/-! ## The state of a tile -/

/-- `TileItemVector`: the down items, then the top items. -/
structure TileItemVector (I : Type) where
  items : List I := []
  downItemCount : Nat := 0

namespace TileItemVector

variable {I : Type} (v : TileItemVector I)

def downItems : List I := v.items.take v.downItemCount
def topItems : List I := v.items.drop v.downItemCount
def getTopItemCount : Nat := v.items.length - v.downItemCount

end TileItemVector

inductive Thing (I C : Type)
  | item (item : I)
  | creature (creature : C)
  deriving DecidableEq

/-- `Tile`, with the objects of the server. A missing item list is an empty one. -/
structure Tile (I C : Type) where
  object : I → Object
  ground : Option I := none
  items : TileItemVector I := {}
  creatures : List C := []
  flags : BitVec 32 := 0

def TILESTATE_TELEPORT : BitVec 32 := 1 <<< 11
def TILESTATE_MAGICFIELD : BitVec 32 := 1 <<< 12
def TILESTATE_MAILBOX : BitVec 32 := 1 <<< 13
def TILESTATE_TRASHHOLDER : BitVec 32 := 1 <<< 14
def TILESTATE_BED : BitVec 32 := 1 <<< 15
def TILESTATE_DEPOT : BitVec 32 := 1 <<< 16
def TILESTATE_BLOCKSOLID : BitVec 32 := 1 <<< 17
def TILESTATE_BLOCKPATH : BitVec 32 := 1 <<< 18
def TILESTATE_IMMOVABLEBLOCKSOLID : BitVec 32 := 1 <<< 19
def TILESTATE_IMMOVABLEBLOCKPATH : BitVec 32 := 1 <<< 20
def TILESTATE_IMMOVABLENOFIELDBLOCKPATH : BitVec 32 := 1 <<< 21
def TILESTATE_NOFIELDBLOCKPATH : BitVec 32 := 1 <<< 22
def TILESTATE_SUPPORTS_HANGABLE : BitVec 32 := 1 <<< 23

/-- The seven floor-change flags, bits 0 to 6. -/
def TILESTATE_FLOORCHANGE : BitVec 32 := 0x7F

/-- `hasBitSet`. -/
def hasBitSet (flag flags : BitVec 32) : Bool := flags &&& flag != 0

namespace Tile

variable {I C : Type} [DecidableEq I] [DecidableEq C] (w : TileWorld) (t : Tile I C)

def hasFlag (flag : BitVec 32) : Bool := hasBitSet flag t.flags

/-- `setFlag`, under a condition. -/
def setIf (c : Bool) (flag flags : BitVec 32) : BitVec 32 := if c then flags ||| flag else flags

/-- `resetFlag`, under a condition. -/
def resetIf (c : Bool) (flag flags : BitVec 32) : BitVec 32 := if c then flags &&& ~~~flag else flags

/-- `hasProperty(prop)`. -/
def hasProperty (prop : ItemProperty) : Bool :=
  (match t.ground with
    | some ground => (t.object ground).hasProperty w prop
    | none => false) ||
  t.items.items.any fun item => (t.object item).hasProperty w prop

/-- `hasProperty(exclude, prop)`. -/
def hasPropertyExcept (exclude : I) (prop : ItemProperty) : Bool :=
  (match t.ground with
    | some ground => decide (exclude ≠ ground) && (t.object ground).hasProperty w prop
    | none => false) ||
  t.items.items.any fun item => decide (item ≠ exclude) && (t.object item).hasProperty w prop

/-- `setTileFlags`. -/
def setTileFlags (item : I) : Tile I C :=
  let o := t.object item
  let it := w.tileItemType o.id
  let flags := t.flags
  let flags :=
    if hasBitSet TILESTATE_FLOORCHANGE flags then flags
    else setIf (it.floorChange != 0) (it.floorChange.setWidth 32) flags
  let flags := setIf (o.hasProperty w .immovableBlockSolid) TILESTATE_IMMOVABLEBLOCKSOLID flags
  let flags := setIf (o.hasProperty w .blockPath) TILESTATE_BLOCKPATH flags
  let flags := setIf (o.hasProperty w .noFieldBlockPath) TILESTATE_NOFIELDBLOCKPATH flags
  let flags := setIf (o.hasProperty w .immovableNoFieldBlockPath)
    TILESTATE_IMMOVABLENOFIELDBLOCKPATH flags
  let flags := setIf (o.cls == .teleport) TILESTATE_TELEPORT flags
  let flags := setIf (o.cls == .magicField) TILESTATE_MAGICFIELD flags
  let flags := setIf (o.cls == .mailbox) TILESTATE_MAILBOX flags
  let flags := setIf (o.cls == .trashHolder) TILESTATE_TRASHHOLDER flags
  let flags := setIf (o.hasProperty w .blockSolid) TILESTATE_BLOCKSOLID flags
  let flags := setIf (o.cls == .bed) TILESTATE_BED flags
  let flags := setIf (o.cls == .depotLocker) TILESTATE_DEPOT flags
  let flags := setIf (o.hasProperty w .supportHangable) TILESTATE_SUPPORTS_HANGABLE flags
  { t with flags := flags }

/-- The item has a property, and no other item of the tile has it. -/
def soleProperty (item : I) (prop : ItemProperty) : Bool :=
  (t.object item).hasProperty w prop && !t.hasPropertyExcept w item prop

/-- `resetTileFlags`. -/
def resetTileFlags (item : I) : Tile I C :=
  let o := t.object item
  let it := w.tileItemType o.id
  let flags := t.flags
  let flags := resetIf (it.floorChange != 0) TILESTATE_FLOORCHANGE flags
  let flags := resetIf (t.soleProperty w item .blockSolid) TILESTATE_BLOCKSOLID flags
  let flags := resetIf (t.soleProperty w item .immovableBlockSolid)
    TILESTATE_IMMOVABLEBLOCKSOLID flags
  let flags := resetIf (t.soleProperty w item .blockPath) TILESTATE_BLOCKPATH flags
  let flags := resetIf (t.soleProperty w item .noFieldBlockPath) TILESTATE_NOFIELDBLOCKPATH flags
  let flags := resetIf (t.soleProperty w item .immovableBlockPath)
    TILESTATE_IMMOVABLEBLOCKPATH flags
  let flags := resetIf (t.soleProperty w item .immovableNoFieldBlockPath)
    TILESTATE_IMMOVABLENOFIELDBLOCKPATH flags
  let flags := resetIf (o.cls == .teleport) TILESTATE_TELEPORT flags
  let flags := resetIf (o.cls == .magicField) TILESTATE_MAGICFIELD flags
  let flags := resetIf (o.cls == .mailbox) TILESTATE_MAILBOX flags
  let flags := resetIf (o.cls == .trashHolder) TILESTATE_TRASHHOLDER flags
  let flags := resetIf (o.cls == .bed) TILESTATE_BED flags
  let flags := resetIf (o.cls == .depotLocker) TILESTATE_DEPOT flags
  let flags := resetIf (o.hasProperty w .supportHangable) TILESTATE_SUPPORTS_HANGABLE flags
  { t with flags := flags }

/-- New values for an object. -/
def setObject (item : I) (o : Object) : Tile I C :=
  { t with object := Function.update t.object item o }

/-! ## Indexes -/

/-- `getThingIndex`; `none` stands for -1. -/
def getThingIndex : Thing I C → Option Nat
  | .item item =>
      let n := if t.ground.isSome then 1 else 0
      if t.ground = some item then some 0
      else if (t.object item).isAlwaysOnTop w then
        (t.items.topItems.findIdx? (· = item)).map (n + ·)
      else
        (t.items.downItems.findIdx? (· = item)).map
          (n + t.items.getTopItemCount + t.creatures.length + ·)
  | .creature creature =>
      let n := if t.ground.isSome then 1 else 0
      (t.creatures.findIdx? (· = creature)).map (n + t.items.getTopItemCount + ·)

/-- `getThing`. -/
def getThing (index : Nat) : Option (Thing I C) :=
  match t.ground, index with
  | some ground, 0 => some (.item ground)
  | _, _ =>
      let index := if t.ground.isSome then index - 1 else index
      if index < t.items.getTopItemCount then
        (t.items.items[t.items.downItemCount + index]?).map .item
      else
        let index := index - t.items.getTopItemCount
        if index < t.creatures.length then (t.creatures[index]?).map .creature
        else
          let index := index - t.creatures.length
          if index < t.items.downItemCount then (t.items.items[index]?).map .item else none

end Tile

end Infernum
