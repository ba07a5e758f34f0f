import Infernum.Lib.ByteCodec
import Infernum.Lib.Rose
import Mathlib.Data.List.Nodup

/-!
# Items

The item table, the attributes and abilities of one item, and the item as
`Item::CreateItem` makes it. An item tree is an item with the items inside it,
in the order of `Container::itemlist`.
-/

namespace Infernum

/-- `itemgroup_t`. -/
inductive ItemGroup
  | none | ground | container | weapon | ammunition | armor | charges | teleport | magicField
  | writeable | key | splash | fluid | door | deprecated
  deriving DecidableEq, Repr

/-- `ItemTypes_t`. -/
inductive ItemTypes
  | none | depot | mailbox | trashHolder | container | door | magicField | teleport | bed | key
  | rune
  deriving DecidableEq, Repr

/-- The fields of `ItemType` that creation, decay and storage read. -/
structure ItemType where
  id : BitVec 16 := 0
  group : ItemGroup := .none
  type : ItemTypes := .none
  stackable : Bool := false
  moveable : Bool := false
  forceSerialize : Bool := false
  alwaysOnTop : Bool := false
  alwaysOnTopOrder : BitVec 8 := 0
  canWriteText : Bool := false
  charges : BitVec 32 := 0
  decayTime : BitVec 32 := 0
  decayTo : Int := -1
  deriving DecidableEq, Repr

namespace ItemType

def isGroundTile (it : ItemType) : Bool := it.group == .ground
def isContainer (it : ItemType) : Bool := it.group == .container
def isSplash (it : ItemType) : Bool := it.group == .splash
def isFluidContainer (it : ItemType) : Bool := it.group == .fluid
def isDepot (it : ItemType) : Bool := it.type == .depot
def isDoor (it : ItemType) : Bool := it.type == .door
def isBed (it : ItemType) : Bool := it.type == .bed

/-- The sub-type is a fluid. -/
def holdsFluid (it : ItemType) : Bool := it.isFluidContainer || it.isSplash

/-- The classes `Item::CreateItem` chooses from. -/
inductive Class
  | depotLocker | container | teleport | magicField | door | trashHolder | mailbox | bed | item
  deriving DecidableEq, Repr

/-- The class that `Item::CreateItem` instantiates, tested in its order. -/
def itemClass (it : ItemType) : Class :=
  if it.isDepot then .depotLocker
  else if it.isContainer then .container
  else if it.type = .teleport then .teleport
  else if it.type = .magicField then .magicField
  else if it.type = .door then .door
  else if it.type = .trashHolder then .trashHolder
  else if it.type = .mailbox then .mailbox
  else if it.type = .bed then .bed
  else .item

/-- `getContainer()` of the created item is not null. -/
def Class.isContainer : Class → Bool
  | .depotLocker => true
  | .container => true
  | _ => false

/-- The item table has the type, and `CreateItem` makes an item of it. -/
def known (it : ItemType) : Bool := it.id != 0 && it.group != .deprecated

/-- `Item::getDefaultDuration`: the product is taken in 32 bits. -/
def getDefaultDuration (it : ItemType) : BitVec 32 := it.decayTime * 1000

end ItemType

/-- What item code reads besides the item: the item table (`Item::items`), the
unique ids in use and the names in the player database. -/
structure World where
  itemType : BitVec 16 → ItemType
  /-- `Game::addUniqueItem` would succeed -/
  addUniqueItem : BitVec 16 → Bool
  /-- `IOLoginData::getNameByGuid`; the empty string for an unknown id -/
  getNameByGuid : BitVec 32 → List UInt8

/-! ## Attributes -/

/-- The integer attributes of `itemAttrTypes`. -/
inductive IntAttr
  | actionId | uniqueId | date | weight | attack | defense | extraDefense | armor | hitChance
  | shootRange | owner | duration | decayState | corpseOwner | charges | fluidType | doorId
  deriving DecidableEq, Repr

/-- The string attributes of `itemAttrTypes`. -/
inductive StrAttr
  | description | text | writer | name | article | pluralName
  deriving DecidableEq, Repr

/-- `ItemAttributes::CustomAttribute`; a double is its bit pattern. No setter
stores the blank of the variant. -/
inductive CustomAttribute
  | str (value : List UInt8)
  | int (value : BitVec 64)
  | double (bits : BitVec 64)
  | bool (value : Bool)
  deriving DecidableEq, Repr

/-- `tolower` of the C locale. -/
def toLower (b : UInt8) : UInt8 := if 65 ≤ b ∧ b ≤ 90 then b + 32 else b

/-- `toLowerCaseString`. -/
def toLowerCaseString (s : List UInt8) : List UInt8 := s.map toLower

/-- `CustomAttributeMap`: the entries in iteration order. Every setter
lower-cases the key and replaces an entry with the same key. -/
structure CustomAttributeMap where
  entries : List (List UInt8 × CustomAttribute)
  nodup : (entries.map Prod.fst).Nodup
  lower : ∀ e ∈ entries, toLowerCaseString e.1 = e.1

theorem toLower_toLower (b : UInt8) : toLower (toLower b) = toLower b := by
  unfold toLower
  split
  · rename_i h
    rw [if_neg]
    rintro ⟨_, h2⟩
    have h1 : 65 ≤ b.toNat ∧ b.toNat ≤ 90 := by
      simpa [UInt8.le_iff_toNat_le] using h
    have h3 : (b + 32).toNat ≤ 90 := by simpa [UInt8.le_iff_toNat_le] using h2
    rw [UInt8.toNat_add] at h3
    have h4 : (32 : UInt8).toNat = 32 := rfl
    omega
  · rfl

theorem toLowerCaseString_idem (s : List UInt8) :
    toLowerCaseString (toLowerCaseString s) = toLowerCaseString s := by
  simp [toLowerCaseString, toLower_toLower]

namespace CustomAttributeMap

/-- A map with no entry. -/
def empty : CustomAttributeMap := ⟨[], by simp, by simp⟩

/-- `setCustomAttribute`. -/
def set (m : CustomAttributeMap) (key : List UInt8) (value : CustomAttribute) :
    CustomAttributeMap where
  entries := m.entries.filter (fun e => e.1 ≠ toLowerCaseString key) ++
    [(toLowerCaseString key, value)]
  nodup := by
    rw [List.map_append, List.nodup_append]
    refine ⟨m.nodup.sublist (List.Sublist.map _ List.filter_sublist), by simp, ?_⟩
    intro k hk k' hk'
    obtain ⟨e, he, rfl⟩ := List.mem_map.mp hk
    have hne := (List.mem_filter.mp he).2
    simp only [List.map_cons, List.map_nil, List.mem_singleton] at hk'
    rw [hk']
    simpa using hne
  lower := by
    intro e he
    rcases List.mem_append.mp he with h | h
    · exact m.lower e (List.mem_filter.mp h).1
    · rw [List.mem_singleton] at h
      rw [h]
      exact toLowerCaseString_idem key

@[ext] theorem ext {m m' : CustomAttributeMap} (h : m.entries = m'.entries) : m = m' := by
  cases m
  cases m'
  cases h
  rfl

end CustomAttributeMap

/-- `ItemAttributes`: which attributes are there, with their values. Item code
stores and reads integers as `int32_t`. -/
@[ext] structure ItemAttributes where
  int : IntAttr → Option (BitVec 32) := fun _ => none
  str : StrAttr → Option (List UInt8) := fun _ => none
  custom : Option CustomAttributeMap := none

/-- `ItemAbilities`: the ability with code `i + 1` and bit `1 << i`. -/
abbrev ItemAbilities := Fin 53 → Option (BitVec 64)

/-- Literals stand for the ability codes. -/
instance ItemAbilities.neZero : NeZero 53 := ⟨by decide⟩

/-- One item. `serializationCount`, parents and reference counts are kept by
the code that needs them. -/
structure Item where
  id : BitVec 16
  count : BitVec 8 := 1
  attributes : ItemAttributes := {}
  abilities : ItemAbilities := fun _ => none
  /-- `Teleport::destPos` -/
  destPos : BitVec 16 × BitVec 16 × BitVec 8 := (0, 0, 0)
  /-- `BedItem::sleeperGUID` -/
  sleeperGUID : BitVec 32 := 0
  /-- `BedItem::sleepStart` -/
  sleepStart : BitVec 64 := 0

/-- `ItemDecayState_t`. -/
def DECAYING_FALSE : BitVec 32 := 0
def DECAYING_TRUE : BitVec 32 := 1
def DECAYING_PENDING : BitVec 32 := 2

namespace Item

variable (i : Item)

/-- `Item::hasAttribute`, for an integer attribute. -/
def hasAttribute (a : IntAttr) : Bool := (i.attributes.int a).isSome

/-- `Item::getIntAttr`. -/
def getIntAttr (a : IntAttr) : BitVec 32 := (i.attributes.int a).getD 0

/-- `Item::getStrAttr`. -/
def getStrAttr (a : StrAttr) : List UInt8 := (i.attributes.str a).getD []

/-- `Item::setIntAttr`. -/
def setIntAttr (a : IntAttr) (value : BitVec 32) : Item :=
  { i with attributes := { i.attributes with int := Function.update i.attributes.int a value } }

/-- `Item::setStrAttr`: an empty string is not stored. -/
def setStrAttr (a : StrAttr) (value : List UInt8) : Item :=
  if value = [] then i
  else { i with attributes := { i.attributes with str := Function.update i.attributes.str a value } }

/-- `Item::setCustomAttribute`. -/
def setCustomAttribute (key : List UInt8) (value : CustomAttribute) : Item :=
  { i with attributes := { i.attributes with
      custom := some ((i.attributes.custom.getD .empty).set key value) } }

/-- `Item::setAbilityInt`. -/
def setAbilityInt (a : Fin 53) (value : BitVec 64) : Item :=
  { i with abilities := Function.update i.abilities a value }

/-- `Item::getCharges`, `getFluidType` and `getActionId` narrow to 16 bits. -/
def getCharges : BitVec 16 := (i.getIntAttr .charges).setWidth 16
def getFluidType : BitVec 16 := (i.getIntAttr .fluidType).setWidth 16
def getActionId : BitVec 16 := (i.getIntAttr .actionId).setWidth 16

def setCharges (n : BitVec 16) : Item := i.setIntAttr .charges (n.setWidth 32)
def setFluidType (n : BitVec 16) : Item := i.setIntAttr .fluidType (n.setWidth 32)

/-- `Item::setActionId`: ids below 100 become 100. -/
def setActionId (n : BitVec 16) : Item :=
  i.setIntAttr .actionId (if n < 100 then 100 else n.setWidth 32)

/-- `Item::setUniqueId`: an id that is taken is not given twice. -/
def setUniqueId (w : World) (n : BitVec 16) : Item :=
  if i.hasAttribute .uniqueId then i
  else if w.addUniqueItem n then i.setIntAttr .uniqueId (n.setWidth 32)
  else i

/-- `Item::setItemCount` takes a `uint8_t`. -/
def setItemCount (n : BitVec 16) : Item := { i with count := n.setWidth 8 }

/-- `Item::getDecaying`: the enumeration has one byte. -/
def getDecaying : BitVec 8 := (i.getIntAttr .decayState).setWidth 8

variable (w : World)

/-- The item's type. -/
def type : ItemType := w.itemType i.id

/-- `Item::getSubType`. -/
def getSubType : BitVec 16 :=
  if (i.type w).holdsFluid then i.getFluidType
  else if (i.type w).stackable then i.count.setWidth 16
  else if (i.type w).charges ≠ 0 then i.getCharges
  else i.count.setWidth 16

/-- `Item::setSubType`. -/
def setSubType (n : BitVec 16) : Item :=
  if (i.type w).holdsFluid then i.setFluidType n
  else if (i.type w).stackable then i.setItemCount n
  else if (i.type w).charges ≠ 0 then i.setCharges n
  else i.setItemCount n

/-- `Item::setDefaultDuration`. -/
def setDefaultDuration : Item :=
  if (i.type w).getDefaultDuration ≠ 0 then i.setIntAttr .duration (i.type w).getDefaultDuration
  else i

/-- The sub-type that `Item::Item(type, count)` gives a new item. -/
def constructSubType (id : BitVec 16) (count : BitVec 16) : Item :=
  let it := w.itemType id
  let i : Item := { id := id }
  if it.holdsFluid then i.setFluidType count
  else if it.stackable then
    if count ≠ 0 then i.setItemCount count
    else if it.charges ≠ 0 then i.setItemCount (it.charges.setWidth 16)
    else i
  else if it.charges ≠ 0 then
    if count ≠ 0 then i.setCharges count else i.setCharges (it.charges.setWidth 16)
  else i

/-- `Item::Item(type, count)`. -/
def construct (id : BitVec 16) (count : BitVec 16) : Item :=
  (constructSubType w id count).setDefaultDuration w

/-- `BedItem::internalRemoveSleeper`. -/
def internalRemoveSleeper : Item :=
  { i with sleeperGUID := 0, sleepStart := 0 }.setStrAttr .description
    "Nobody is sleeping there.".toUTF8.toList

/-- The object that `CreateItem` allocates: only the plain class is given the
count. -/
def newItem (id : BitVec 16) (count : BitVec 16) : Item :=
  match (w.itemType id).itemClass with
  | .bed => (construct w id 0).internalRemoveSleeper
  | .item => construct w id (if (w.itemType id).stackable && count == 0 then 1 else count)
  | _ => construct w id 0

/-- `Item::CreateItem`. -/
def createItem (id : BitVec 16) (count : BitVec 16) : Option Item :=
  if (w.itemType id).group = .deprecated then none
  else if (w.itemType id).id ≠ 0 then some (newItem w id count)
  else none

/-- `Item::canDecay`, for an item that is not removed. -/
def canDecay : Bool :=
  !((i.type w).decayTo < 0 || (i.type w).decayTime == 0) && !i.hasAttribute .uniqueId

end Item

/-- An item with its contents (`Container::itemlist`); only a container has
any. -/
abbrev ItemTree := Lib.Rose Item

section

variable (w : World)

/-- The class of the item has a `getContainer()`. -/
def isContainer (i : Item) : Bool := (i.type w).itemClass.isContainer

theorem isContainer_congr {i j : Item} (h : i.id = j.id) : isContainer w i = isContainer w j := by
  rw [isContainer, isContainer, Item.type, Item.type, h]

/-- A tree of items as the server can hold it: every type is known, only
containers have contents, and the sizes fit their fields. -/
inductive Storable : ItemTree → Prop
  | node (i : Item) (ts : List ItemTree) (known : (i.type w).known)
      (contents : isContainer w i = false → ts = []) (size : ts.length < 2 ^ 32)
      (custom : ∀ c, i.attributes.custom = some c → c.entries.length < 2 ^ 64)
      (children : ∀ t ∈ ts, Storable t) : Storable (.node i ts)

/-- Only a container has items in it. -/
theorem isContainer_of_mem {i : Item} {ts : List ItemTree} (h : Storable w (.node i ts))
    {t : ItemTree} (ht : t ∈ ts) : isContainer w i := by
  cases h with
  | node _ _ _ hcontents _ _ _ =>
      by_contra hno
      rw [hcontents (by simpa using hno)] at ht
      exact absurd ht List.not_mem_nil

end

end Infernum
