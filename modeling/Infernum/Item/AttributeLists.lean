import Infernum.Cylinder.Equals
import Infernum.Lib.MaskList

/-!
# `ItemAttributes` and `ItemAbilities`

The two lists with a word of the bits that are there, function by function. A type is the
number that the callers pass, so that it need not be an enumerator. A reference that
`getAttr` returns is written through at once, and a null pointer is not followed.
-/

namespace Infernum

namespace CustomAttributeMap

/-- The value under a key, which is looked up in lower case. -/
def find (m : CustomAttributeMap) (key : List UInt8) : Option CustomAttribute :=
  (m.entries.find? fun e => e.1 = toLowerCaseString key).map Prod.snd

def erase (m : CustomAttributeMap) (key : List UInt8) : CustomAttributeMap where
  entries := m.entries.filter fun e => e.1 ≠ toLowerCaseString key
  nodup := m.nodup.sublist (List.filter_sublist.map Prod.fst)
  lower := fun e he => m.lower e (List.mem_of_mem_filter he)

/-- `emplace`, which leaves a key that is there as it is. -/
def emplace (m : CustomAttributeMap) (key : List UInt8) (value : CustomAttribute) :
    CustomAttributeMap :=
  if (m.find key).isSome then m else m.set key value

theorem find_erase (m : CustomAttributeMap) (key other : List UInt8) :
    (m.erase key).find other =
      if toLowerCaseString other = toLowerCaseString key then none else m.find other := by
  rw [find, erase, List.find?_filter]
  split
  · rename_i heq
    rw [heq, List.find?_eq_none.mpr]
    · rfl
    · intro e _ he
      simp at he
  · rename_i hne
    have hsame : ∀ e : List UInt8 × CustomAttribute,
        (e.1 ≠ toLowerCaseString key ∧ e.1 = toLowerCaseString other) ↔
          e.1 = toLowerCaseString other := by
      intro e
      constructor
      · exact fun h => h.2
      · exact fun he => ⟨he.trans_ne hne, he⟩
    simp only [decide_eq_true_eq, hsame]
    rw [find]

theorem toLowerCaseString_key (m : CustomAttributeMap) (key : List UInt8) :
    m.find (toLowerCaseString key) = m.find key ∧
    m.erase (toLowerCaseString key) = m.erase key ∧
    ∀ value, m.set (toLowerCaseString key) value = m.set key value := by
  refine ⟨?_, ?_, ?_⟩
  · rw [find, toLowerCaseString_idem]
    rfl
  · apply ext
    simp [erase, toLowerCaseString_idem]
  · intro value
    apply ext
    simp [set, toLowerCaseString_idem]

theorem set_erase (m : CustomAttributeMap) (key : List UInt8) (value : CustomAttribute) :
    (m.erase key).set key value = m.set key value := by
  apply ext
  simp [set, erase]

theorem emplace_of_find_eq_none {m : CustomAttributeMap} {key : List UInt8}
    (h : m.find key = none) (value : CustomAttribute) :
    m.emplace (toLowerCaseString key) value = m.set key value := by
  obtain ⟨hfind, -, hset⟩ := m.toLowerCaseString_key key
  rw [emplace, hfind, h, hset]
  rfl

theorem emplace_erase (m : CustomAttributeMap) (key : List UInt8) (value : CustomAttribute) :
    (m.erase key).emplace (toLowerCaseString key) value = m.set key value := by
  rw [emplace_of_find_eq_none _ value, set_erase]
  rw [find_erase, if_pos rfl]

theorem find_set (m : CustomAttributeMap) (key other : List UInt8) (value : CustomAttribute) :
    (m.set key value).find other =
      if toLowerCaseString other = toLowerCaseString key then some value else m.find other := by
  have herase := m.find_erase key other
  rw [find, erase] at herase
  rw [find, set, List.find?_append, Option.map_or, herase]
  split
  · rename_i heq
    simp [heq]
  · rename_i hne
    have hne : ¬ toLowerCaseString key = toLowerCaseString other := fun heq => hne heq.symm
    simp [hne]

end CustomAttributeMap

namespace AttributeLists

open Lib (MaskNode MaskList)
open Stack (AttrType)
open Equip (ItemAbilityType)

/-! ### The enumerators -/

def ITEM_ATTRIBUTE_NONE : BitVec 32 := 0
def ITEM_ATTRIBUTE_CUSTOM : BitVec 32 := 1 <<< 31
def ITEM_ABILITY_NONE : BitVec 64 := 0

/-- The number of an enumerator of `itemAttrTypes`. -/
def attrType (t : AttrType) : BitVec 32 := BitVec.twoPow 32 t.maskBit

/-- The number of an enumerator of `itemAbilityTypes`. -/
def abilityType (t : ItemAbilityType) : BitVec 64 := BitVec.twoPow 64 t.maskBit

/-- The enumerators but `ITEM_ATTRIBUTE_NONE`. -/
def AttrTypes (type : BitVec 32) : Prop := ∃ t, type = attrType t

/-- The enumerators but `ITEM_ABILITY_NONE`. -/
def AbilityTypes (type : BitVec 64) : Prop := ∃ t, type = abilityType t

theorem attrTypes_apart : MaskList.Apart AttrTypes := MaskList.apart_twoPow _

theorem abilityTypes_apart : MaskList.Apart AbilityTypes := MaskList.apart_twoPow _

theorem attrTypes_custom : AttrTypes ITEM_ATTRIBUTE_CUSTOM := ⟨.custom, rfl⟩

/-- `ItemAttributes::isIntAttrType`. -/
def isIntAttrType (type : BitVec 32) : Bool := type &&& 0xFFFE13 != 0

/-- `ItemAttributes::isStrAttrType`. -/
def isStrAttrType (type : BitVec 32) : Bool := type &&& 0x1EC != 0

/-- `ItemAttributes::isCustomAttrType`. -/
def isCustomAttrType (type : BitVec 32) : Bool := type &&& 0x80000000 != 0

/-- `ItemAbilities::isAbility`. -/
def isAbility (type : BitVec 64) : Bool := type &&& 0x1fffffffffffff != 0

/-- An enumerator is of one kind. -/
theorem AttrTypes.kind {type : BitVec 32} (h : AttrTypes type) :
    (isIntAttrType type = true ∧ isStrAttrType type = false ∧ isCustomAttrType type = false) ∨
    (isIntAttrType type = false ∧ isStrAttrType type = true ∧ isCustomAttrType type = false) ∨
    (isIntAttrType type = false ∧ isStrAttrType type = false ∧
      type = ITEM_ATTRIBUTE_CUSTOM) := by
  obtain ⟨t, rfl⟩ := h
  rcases t with a | a | _
  · left
    cases a <;> decide
  · right
    left
    cases a <;> decide
  · right
    right
    decide

theorem isAbility_abilityType (t : ItemAbilityType) : isAbility (abilityType t) = true := by
  have hall : ∀ i : Fin 53, isAbility (BitVec.twoPow 64 i) = true := by decide
  exact hall t.bit

/-! ### `ItemAttributes` -/

/-- The union of `Attribute`: all bytes zero, a number, or a pointer with what it points
to. Zero is also a number, and a null pointer. -/
inductive AttrValue where
  | zero
  | integer (integer : BitVec 64)
  | string (string : List UInt8)
  | custom (custom : CustomAttributeMap)

namespace AttrValue

/-- `value.integer`; no result where it reads a pointer. -/
def readInteger : AttrValue → Option (BitVec 64)
  | zero => some 0
  | integer i => some i
  | _ => none

/-- `*value.string`; no result for a null pointer and for what is no string. -/
def readString : AttrValue → Option (List UInt8)
  | string s => some s
  | _ => none

/-- `*value.custom`. -/
def readCustom : AttrValue → Option CustomAttributeMap
  | custom m => some m
  | _ => none

/-- `value.custom`, the pointer; no result for what is none. -/
def customPointer : AttrValue → Option (Option CustomAttributeMap)
  | zero => some none
  | custom m => some (some m)
  | _ => none

/-- What the copy constructor of `Attribute` makes of the value. A number keeps its
bytes. -/
def copy (type : BitVec 32) (value : AttrValue) : Option AttrValue :=
  if isIntAttrType type then value.readInteger.map fun _ => value
  else if isStrAttrType type then value.readString.map string
  else if isCustomAttrType type then value.readCustom.map custom
  else some zero

end AttrValue

abbrev ItemAttributes := MaskList 32 AttrValue

namespace ItemAttributes

variable (l : ItemAttributes)

def hasAttribute (type : BitVec 32) : Bool := l.has type

def getExistingAttr (type : BitVec 32) : Option (MaskNode 32 AttrValue) := l.find type

/-- `getAttr`; the reference it returns is to the first node of the type. -/
def getAttr (type : BitVec 32) : ItemAttributes := l.ref .zero type

def setIntAttr (type : BitVec 32) (value : BitVec 64) : ItemAttributes :=
  if !isIntAttrType type then l else (l.getAttr type).write type (.integer value)

def increaseIntAttr (type : BitVec 32) (value : BitVec 64) : Option ItemAttributes :=
  if !isIntAttrType type then some l
  else
    (((l.getAttr type).deref type).bind AttrValue.readInteger).map fun old =>
      (l.getAttr type).write type (.integer (old + value))

def getIntAttr (type : BitVec 32) : Option (BitVec 64) :=
  if !isIntAttrType type then some 0
  else (l.getExistingAttr type).elim (some 0) fun attr => attr.value.readInteger

def setStrAttr (type : BitVec 32) (value : List UInt8) : ItemAttributes :=
  if !isStrAttrType type then l
  else if value.isEmpty then l
  else (l.getAttr type).write type (.string value)

def getStrAttr (type : BitVec 32) : Option (List UInt8) :=
  if !isStrAttrType type then some []
  else (l.getExistingAttr type).elim (some []) fun attr => attr.value.readString

def removeAttribute (type : BitVec 32) : Option ItemAttributes := l.remove type

/-- `getCustomAttributeMap`: what `getAttr` leaves, and the pointer. -/
def getCustomAttributeMap : Option (ItemAttributes × Option CustomAttributeMap) :=
  if !l.hasAttribute ITEM_ATTRIBUTE_CUSTOM then some (l, none)
  else
    (((l.getAttr ITEM_ATTRIBUTE_CUSTOM).deref ITEM_ATTRIBUTE_CUSTOM).bind
      AttrValue.customPointer).map fun m => (l.getAttr ITEM_ATTRIBUTE_CUSTOM, m)

def getCustomAttribute (key : List UInt8) : Option (Option CustomAttribute) :=
  l.getCustomAttributeMap.map fun r => r.2.bind fun m => m.find key

/-- The list after `removeCustomAttribute`, and what it returns. -/
def removeCustomAttribute (key : List UInt8) : Option (ItemAttributes × Bool) :=
  l.getCustomAttributeMap.map fun r =>
    r.2.elim (r.1, false) fun m =>
      if (m.find key).isSome then
        (r.1.write ITEM_ATTRIBUTE_CUSTOM (.custom (m.erase key)), true)
      else (r.1, false)

def setCustomAttribute (key : List UInt8) (value : CustomAttribute) : Option ItemAttributes :=
  (if l.hasAttribute ITEM_ATTRIBUTE_CUSTOM then
      (l.removeCustomAttribute (toLowerCaseString key)).map Prod.fst
    else some ((l.getAttr ITEM_ATTRIBUTE_CUSTOM).write ITEM_ATTRIBUTE_CUSTOM
      (.custom .empty))).bind fun l' =>
    (((l'.getAttr ITEM_ATTRIBUTE_CUSTOM).deref ITEM_ATTRIBUTE_CUSTOM).bind
      AttrValue.readCustom).map fun m =>
        (l'.getAttr ITEM_ATTRIBUTE_CUSTOM).write ITEM_ATTRIBUTE_CUSTOM
          (.custom (m.emplace (toLowerCaseString key) value))

/-- The copy constructors of `ItemAttributes` and of its nodes. -/
def copy : Option ItemAttributes := MaskList.copy AttrValue.copy l

end ItemAttributes

/-! ### `ItemAbilities` -/

abbrev ItemAbilities := MaskList 64 (BitVec 64)

namespace ItemAbilities

variable (l : ItemAbilities)

def hasAbility (type : BitVec 64) : Bool := l.has type

def getExistingAbility (type : BitVec 64) : Option (MaskNode 64 (BitVec 64)) := l.find type

def getAbility (type : BitVec 64) : ItemAbilities := l.ref 0 type

def setAbilityInt (type : BitVec 64) (value : BitVec 64) : ItemAbilities :=
  (l.getAbility type).write type value

def getAbilityInt (type : BitVec 64) : BitVec 64 :=
  (l.getExistingAbility type).elim 0 fun ability => ability.value

def removeAbility (type : BitVec 64) : Option ItemAbilities := l.remove type

/-- The copy of a node that is no ability has no value to be read. -/
def copy : Option ItemAbilities :=
  MaskList.copy (fun type value => if isAbility type then some value else none) l

end ItemAbilities

/-! ### What the functions of the custom attributes do -/

section

variable {l : ItemAttributes} (h : l.Wf AttrTypes)

include h

theorem getCustomAttributeMap_eq :
    l.getCustomAttributeMap =
      (l.getExistingAttr ITEM_ATTRIBUTE_CUSTOM).elim (some (l, none)) fun attr =>
        attr.value.customPointer.map fun m => (l, m) := by
  have hsome := h.find_isSome attrTypes_custom
  rw [ItemAttributes.getCustomAttributeMap, ItemAttributes.hasAttribute, ← hsome,
    ItemAttributes.getExistingAttr]
  cases hfind : l.find ITEM_ATTRIBUTE_CUSTOM with
  | none => rfl
  | some attr =>
      have hself : l.getAttr ITEM_ATTRIBUTE_CUSTOM = l := by
        rw [ItemAttributes.getAttr, MaskList.ref_eq_self _ (by rw [hfind]; rfl)]
      rw [hself, h.deref_eq attrTypes_custom, hfind]
      rfl

/-- The map of an entry is written back without the key. -/
theorem removeCustomAttribute_eq (key : List UInt8) :
    l.removeCustomAttribute key =
      (l.getExistingAttr ITEM_ATTRIBUTE_CUSTOM).elim (some (l, false)) fun attr =>
        attr.value.customPointer.map fun p =>
          p.elim (l, false) fun m =>
            if (m.find key).isSome then
              (l.write ITEM_ATTRIBUTE_CUSTOM (.custom (m.erase key)), true)
            else (l, false) := by
  rw [ItemAttributes.removeCustomAttribute, getCustomAttributeMap_eq h]
  cases l.getExistingAttr ITEM_ATTRIBUTE_CUSTOM with
  | none => rfl
  | some attr =>
      simp only [Option.elim_some, Option.map_map]
      rfl

/-- The list is as before, or its map is. -/
theorem removeCustomAttribute_cases {key : List UInt8} {r : ItemAttributes × Bool}
    (hremove : l.removeCustomAttribute key = some r) :
    r.1 = l ∨ ∃ m, r.1 =
      (l.getAttr ITEM_ATTRIBUTE_CUSTOM).write ITEM_ATTRIBUTE_CUSTOM (.custom m) := by
  rw [removeCustomAttribute_eq h] at hremove
  cases hfind : l.getExistingAttr ITEM_ATTRIBUTE_CUSTOM with
  | none =>
      rw [hfind] at hremove
      cases hremove
      exact .inl rfl
  | some attr =>
      have hself : l.getAttr ITEM_ATTRIBUTE_CUSTOM = l := by
        rw [ItemAttributes.getExistingAttr] at hfind
        rw [ItemAttributes.getAttr, MaskList.ref_eq_self _ (by rw [hfind]; rfl)]
      rw [hfind] at hremove
      obtain ⟨p, -, rfl⟩ := Option.map_eq_some_iff.mp hremove
      rw [hself]
      cases p with
      | none => exact .inl rfl
      | some m =>
          rw [Option.elim_some]
          split
          · exact .inr ⟨m.erase key, rfl⟩
          · exact .inl rfl

/-- The second half of `setCustomAttribute`, where there is an entry. -/
theorem emplace_custom {attr : MaskNode 32 AttrValue}
    (hfind : l.find ITEM_ATTRIBUTE_CUSTOM = some attr) (key : List UInt8)
    (value : CustomAttribute) :
    ((((l.getAttr ITEM_ATTRIBUTE_CUSTOM).deref ITEM_ATTRIBUTE_CUSTOM).bind
      AttrValue.readCustom).map fun m =>
        (l.getAttr ITEM_ATTRIBUTE_CUSTOM).write ITEM_ATTRIBUTE_CUSTOM
          (.custom (m.emplace (toLowerCaseString key) value))) =
      attr.value.readCustom.map fun m =>
        l.write ITEM_ATTRIBUTE_CUSTOM (.custom (m.emplace (toLowerCaseString key) value)) := by
  have hself : l.getAttr ITEM_ATTRIBUTE_CUSTOM = l := by
    rw [ItemAttributes.getAttr, MaskList.ref_eq_self _ (by rw [hfind]; rfl)]
  rw [hself, h.deref_eq attrTypes_custom, hfind]
  rfl

/-- An entry is put into the map that is there, or into a new one. -/
theorem setCustomAttribute_eq (key : List UInt8) (value : CustomAttribute) :
    l.setCustomAttribute key value =
      ((l.getExistingAttr ITEM_ATTRIBUTE_CUSTOM).elim (some .empty) fun attr =>
        attr.value.readCustom).map fun m =>
          (l.getAttr ITEM_ATTRIBUTE_CUSTOM).write ITEM_ATTRIBUTE_CUSTOM
            (.custom (m.set key value)) := by
  have hsome := h.find_isSome attrTypes_custom
  rw [ItemAttributes.setCustomAttribute, ItemAttributes.hasAttribute, ← hsome,
    ItemAttributes.getExistingAttr]
  cases hfind : l.find ITEM_ATTRIBUTE_CUSTOM with
  | none =>
      -- a new map, into which the entry is put
      have hnew : (l.getAttr ITEM_ATTRIBUTE_CUSTOM).Wf AttrTypes :=
        h.ref attrTypes_apart attrTypes_custom _
      have hfind' : ((l.getAttr ITEM_ATTRIBUTE_CUSTOM).write ITEM_ATTRIBUTE_CUSTOM
          (.custom .empty)).find ITEM_ATTRIBUTE_CUSTOM =
            some { type := ITEM_ATTRIBUTE_CUSTOM, value := .custom .empty } := by
        rw [ItemAttributes.getAttr, h.find_write_ref attrTypes_apart attrTypes_custom _ _
          attrTypes_custom, if_pos rfl]
      rw [if_neg (by simp), Option.bind_some,
        emplace_custom (hnew.write _ _) hfind' key value]
      simp only [AttrValue.readCustom, Option.map_some, Option.elim_none, MaskList.write_write,
        CustomAttributeMap.emplace_of_find_eq_none (m := .empty) rfl value]
  | some attr =>
      have hself : l.getAttr ITEM_ATTRIBUTE_CUSTOM = l := by
        rw [ItemAttributes.getAttr, MaskList.ref_eq_self _ (by rw [hfind]; rfl)]
      rw [if_pos (by rfl), removeCustomAttribute_eq h, ItemAttributes.getExistingAttr, hfind,
        hself]
      simp only [Option.elim_some]
      cases hvalue : attr.value with
      | zero =>
          show Option.bind (some l) _ = _
          rw [Option.bind_some, emplace_custom h hfind, hvalue]
          rfl
      | integer i => rfl
      | string text => rfl
      | custom m =>
          obtain ⟨hlower, hlowerErase, -⟩ := m.toLowerCaseString_key key
          simp only [AttrValue.customPointer, AttrValue.readCustom, Option.map_some,
            Option.elim_some, hlower, hlowerErase]
          split
          · have hfind' : (l.write ITEM_ATTRIBUTE_CUSTOM (.custom (m.erase key))).find
                ITEM_ATTRIBUTE_CUSTOM = some { attr with value := .custom (m.erase key) } := by
              rw [MaskList.find_write, if_pos rfl, hfind]
              rfl
            rw [Option.bind_some, emplace_custom (h.write _ _) hfind']
            simp only [AttrValue.readCustom, Option.map_some, MaskList.write_write,
              CustomAttributeMap.emplace_erase]
          · rename_i hnone
            have hnone : m.find key = none := by simpa using hnone
            rw [Option.bind_some, emplace_custom h hfind, hvalue]
            simp only [AttrValue.readCustom, Option.map_some,
              CustomAttributeMap.emplace_of_find_eq_none hnone]

/-- Whatever the map was, its entry under the key is the one that was put in. -/
theorem getCustomAttribute_set {key : List UInt8} {value : CustomAttribute}
    {l' : ItemAttributes} (hset : l.setCustomAttribute key value = some l')
    (other : List UInt8) :
    l'.getCustomAttribute other =
      if toLowerCaseString other = toLowerCaseString key then some (some value)
      else l.getCustomAttribute other := by
  rw [setCustomAttribute_eq h] at hset
  obtain ⟨m, hm, rfl⟩ := Option.map_eq_some_iff.mp hset
  have hwf : ((l.getAttr ITEM_ATTRIBUTE_CUSTOM).write ITEM_ATTRIBUTE_CUSTOM
      (.custom (m.set key value))).Wf AttrTypes :=
    (h.ref attrTypes_apart attrTypes_custom _).write _ _
  have hbefore : l.getCustomAttribute other = some (m.find other) := by
    rw [ItemAttributes.getCustomAttribute, getCustomAttributeMap_eq h]
    cases hfind : l.getExistingAttr ITEM_ATTRIBUTE_CUSTOM with
    | none =>
        rw [hfind] at hm
        cases hm
        rfl
    | some attr =>
        rw [hfind] at hm
        cases hvalue : attr.value with
        | zero => simp [hvalue, AttrValue.readCustom] at hm
        | integer i => simp [hvalue, AttrValue.readCustom] at hm
        | string text => simp [hvalue, AttrValue.readCustom] at hm
        | custom m' =>
            simp only [Option.elim_some, hvalue, AttrValue.readCustom, Option.some.injEq] at hm
            simp [hvalue, hm, AttrValue.customPointer]
  rw [ItemAttributes.getCustomAttribute, getCustomAttributeMap_eq hwf,
    ItemAttributes.getExistingAttr, ItemAttributes.getAttr,
    h.find_write_ref attrTypes_apart attrTypes_custom _ _ attrTypes_custom, if_pos rfl, hbefore]
  simp only [Option.elim_some, AttrValue.customPointer, Option.map_some, Option.bind_some,
    CustomAttributeMap.find_set]
  split <;> rfl

end

end AttributeLists

end Infernum
