import Infernum.Cylinder.Heap
import Infernum.Equip.Overrides

/-!
# `Item::equals`

The attributes and the abilities of an item, each in an object that the item has once it
has been needed: a list with a mask. Stacks are merged where `equals` says so. It asks for
the objects that this item has and not for the other's, so an item with one of them is
equal to one with both, but not the other way round.
-/

namespace Infernum.Stack

open Lib (TagList)
open Equip (Ability AbilityList OwnAbilities ItemAbilityType)

/-! ### Attributes -/

/-- `itemAttrTypes`. -/
inductive AttrType where
  | int (type : IntAttr)
  | str (type : StrAttr)
  | custom
  deriving DecidableEq, Repr

namespace AttrType

/-- The bit that the enumerator is. -/
def maskBit : AttrType → Fin 32
  | int .actionId => 0
  | int .uniqueId => 1
  | str .description => 2
  | str .text => 3
  | int .date => 4
  | str .writer => 5
  | str .name => 6
  | str .article => 7
  | str .pluralName => 8
  | int .weight => 9
  | int .attack => 10
  | int .defense => 11
  | int .extraDefense => 12
  | int .armor => 13
  | int .hitChance => 14
  | int .shootRange => 15
  | int .owner => 16
  | int .duration => 17
  | int .decayState => 18
  | int .corpseOwner => 19
  | int .charges => 20
  | int .fluidType => 21
  | int .doorId => 22
  | custom => 31

/-- `ItemAttributes::isStrAttrType`. -/
def isStrAttrType (t : AttrType) : Bool :=
  BitVec.twoPow 32 t.maskBit &&& 0x1EC != 0

/-- The enumerators in the order of their bits. -/
def all : List AttrType :=
  [int .actionId, int .uniqueId, str .description, str .text, int .date, str .writer,
    str .name, str .article, str .pluralName, int .weight, int .attack, int .defense,
    int .extraDefense, int .armor, int .hitChance, int .shootRange, int .owner,
    int .duration, int .decayState, int .corpseOwner, int .charges, int .fluidType,
    int .doorId] ++ List.replicate 8 custom ++ [custom]

theorem getElem?_all (t : AttrType) : all[t.maskBit.val]? = some t := by
  rcases t with a | a | _
  · cases a <;> rfl
  · cases a <;> rfl
  · rfl

theorem maskBit_injective : Function.Injective maskBit := by
  intro s t h
  have hs := s.getElem?_all
  rw [h, t.getElem?_all] at hs
  exact (Option.some.inj hs).symm

@[simp] theorem isStrAttrType_int (a : IntAttr) : (int a).isStrAttrType = false := by
  cases a <;> decide

@[simp] theorem isStrAttrType_str (a : StrAttr) : (str a).isStrAttrType = true := by
  cases a <;> decide

@[simp] theorem isStrAttrType_custom : custom.isStrAttrType = false := by decide

end AttrType

/-- `ItemAttributes::Attribute`. The union holds a number, a string of its own, or the
address of the map of custom attributes. -/
inductive Attribute where
  | int (type : IntAttr) (integer : BitVec 64)
  | str (type : StrAttr) (string : List UInt8)
  | custom (address : BitVec 64)
  deriving DecidableEq, Repr

namespace Attribute

def type : Attribute → AttrType
  | int type _ => .int type
  | str type _ => .str type
  | custom _ => .custom

/-- `value.integer`, which of a map reads the address; a string is not read so. -/
def integer : Attribute → BitVec 64
  | int _ integer => integer
  | str _ _ => 0
  | custom address => address

/-- `*value.string`, of a string. -/
def string : Attribute → List UInt8
  | str _ string => string
  | _ => []

/-- The tests of `equals` on one attribute of each list. -/
def differs (attr otherAttr : Attribute) : Bool :=
  if attr.type.isStrAttrType then
    attr.type == otherAttr.type && attr.string != otherAttr.string
  else attr.type == otherAttr.type && attr.integer != otherAttr.integer

/-- A map differs from every other, and from itself it does not. -/
theorem differs_iff (x y : Attribute) : x.differs y = true ↔ x.type = y.type ∧ x ≠ y := by
  cases x <;> cases y <;> simp +contextual [differs, type, integer, string]

end Attribute

/-- The tests of `equals` on one ability of each list. -/
def abilityDiffers (ability otherAbility : Ability) : Bool :=
  ability.type == otherAbility.type && ability.integer != otherAbility.integer

theorem abilityDiffers_iff (x y : Ability) :
    abilityDiffers x y = true ↔ x.type = y.type ∧ x ≠ y := by
  cases x
  cases y
  simp +contextual [abilityDiffers]

/-! ### Items -/

/-- `ItemAttributes`: `attributes` and `attributeBits`. -/
abbrev AttributeList := TagList 32 Attribute

/-- What `equals` reads of an item. -/
structure Item where
  id : BitVec 16
  attributes : Option AttributeList
  abilities : OwnAbilities

namespace Item

variable (i : Item)

/-- The lists are as their functions keep them. -/
structure Wf : Prop where
  attributes : ∀ l ∈ i.attributes, l.Wf Attribute.type AttrType.maskBit
  abilities : i.abilities.Wf

/-- A list object of this item, and of the other one. -/
def listAgrees {w : Nat} {E : Type} (differs : E → E → Bool) :
    Option (TagList w E) → Option (TagList w E) → Bool
  | none, _ => true
  | some _, none => false
  | some l, some l' => l.agrees differs l'

/-- `Item::equals`. -/
def equals (otherItem : Option Item) : Bool :=
  match otherItem with
  | none => false
  | some otherItem =>
      if i.id ≠ otherItem.id then false
      else if i.attributes.isNone && i.abilities.isNone then
        otherItem.attributes.isNone && otherItem.abilities.isNone
      else
        listAgrees Attribute.differs i.attributes otherItem.attributes &&
          listAgrees abilityDiffers i.abilities otherItem.abilities

def getExistingAttr (t : AttrType) : Option Attribute :=
  i.attributes.bind fun l => l.find Attribute.type AttrType.maskBit t

def getExistingAbility (t : ItemAbilityType) : Option Ability :=
  i.abilities.bind fun l => l.getExistingAbility t

end Item

/-- What an attribute holds, for who follows its pointer. -/
inductive Value where
  | int (integer : BitVec 64)
  | str (string : List UInt8)
  | custom (map : CustomAttributeMap)

/-- Reading an attribute, with what the maps at the addresses are. -/
def Attribute.read (maps : BitVec 64 → CustomAttributeMap) : Attribute → Value
  | .int _ integer => .int integer
  | .str _ string => .str string
  | .custom address => .custom (maps address)

/-- Two items with the same id, the same attributes and the same abilities. -/
structure Same (maps : BitVec 64 → CustomAttributeMap) (a b : Item) : Prop where
  id : a.id = b.id
  attributes : ∀ t, (a.getExistingAttr t).map (Attribute.read maps) =
    (b.getExistingAttr t).map (Attribute.read maps)
  abilities : ∀ t, a.getExistingAbility t = b.getExistingAbility t

/-- What merging relies on: it does not matter which item is asked, and the answer is
right. -/
structure Reliable (maps : BitVec 64 → CustomAttributeMap) (a b : Item) : Prop where
  symm : a.equals (some b) = b.equals (some a)
  same : a.equals (some b) = true → Same maps a b

/-- Item `a` has one list object and `b` has both, and the one that both have agrees. -/
def OneSided (a b : Item) : Prop :=
  a.id = b.id ∧ b.attributes.isSome = true ∧ b.abilities.isSome = true ∧
    ((a.attributes.isSome = true ∧ a.abilities = none ∧
        ∀ t, a.getExistingAttr t = b.getExistingAttr t) ∨
      (a.attributes = none ∧ a.abilities.isSome = true ∧
        ∀ t, a.getExistingAbility t = b.getExistingAbility t))

/-! ### What `equals` says -/

theorem attributes_agree {a b : Item} (ha : a.Wf) (hb : b.Wf) :
    Item.listAgrees Attribute.differs a.attributes b.attributes = true ↔
      (a.attributes.isSome = true → b.attributes.isSome = true ∧
        ∀ t, a.getExistingAttr t = b.getExistingAttr t) := by
  obtain ⟨id, attributes, abilities⟩ := a
  obtain ⟨id', attributes', abilities'⟩ := b
  rcases attributes with _ | l <;> rcases attributes' with _ | l'
  · simp [Item.listAgrees]
  · simp [Item.listAgrees]
  · simp [Item.listAgrees]
  · have hagrees := TagList.agrees_iff Attribute.differs_iff AttrType.maskBit_injective
      (ha.attributes l rfl) (hb.attributes l' rfl)
    simpa [Item.listAgrees, Item.getExistingAttr] using hagrees

theorem abilities_agree {a b : Item} (ha : a.Wf) (hb : b.Wf) :
    Item.listAgrees abilityDiffers a.abilities b.abilities = true ↔
      (a.abilities.isSome = true → b.abilities.isSome = true ∧
        ∀ t, a.getExistingAbility t = b.getExistingAbility t) := by
  obtain ⟨id, attributes, abilities⟩ := a
  obtain ⟨id', attributes', abilities'⟩ := b
  rcases abilities with _ | l <;> rcases abilities' with _ | l'
  · simp [Item.listAgrees]
  · simp [Item.listAgrees]
  · simp [Item.listAgrees]
  · have hagrees := TagList.agrees_iff abilityDiffers_iff ItemAbilityType.maskBit_injective
      (ha.abilities l rfl) (hb.abilities l' rfl)
    simpa [Item.listAgrees, Item.getExistingAbility, AbilityList.getExistingAbility]
      using hagrees

/-- Each object of `a` must be there in `b` and agree; only an item without any asks for
what the other has. -/
theorem equals_iff {a b : Item} (ha : a.Wf) (hb : b.Wf) : a.equals (some b) = true ↔
    a.id = b.id ∧
    (a.attributes = none → a.abilities = none →
      b.attributes = none ∧ b.abilities = none) ∧
    (a.attributes.isSome = true → b.attributes.isSome = true ∧
      ∀ t, a.getExistingAttr t = b.getExistingAttr t) ∧
    (a.abilities.isSome = true → b.abilities.isSome = true ∧
      ∀ t, a.getExistingAbility t = b.getExistingAbility t) := by
  rw [← attributes_agree ha hb, ← abilities_agree ha hb, Item.equals]
  by_cases hid : a.id = b.id
  · rw [if_neg (by simpa using hid)]
    split
    · rename_i hnone
      obtain ⟨hattributes, habilities⟩ : a.attributes = none ∧ a.abilities = none := by
        simpa using hnone
      simp [hid, hattributes, habilities, Item.listAgrees]
    · rename_i hsome
      have hno : ¬ (a.attributes = none ∧ a.abilities = none) := by
        simpa using hsome
      rw [Bool.and_eq_true]
      tauto
  · simp [hid]

theorem getExistingAttr_of_none {a : Item} (h : a.attributes = none) (t : AttrType) :
    a.getExistingAttr t = none := by
  simp [Item.getExistingAttr, h]

theorem getExistingAbility_of_none {a : Item} (h : a.abilities = none)
    (t : ItemAbilityType) : a.getExistingAbility t = none := by
  simp [Item.getExistingAbility, h]

/-- Where `a` is not one-sided, its answer is right and `b` gives the same. -/
theorem equals_swap (maps : BitVec 64 → CustomAttributeMap) {a b : Item} (ha : a.Wf)
    (hb : b.Wf) (hno : ¬ OneSided a b) (hequals : a.equals (some b) = true) :
    b.equals (some a) = true ∧ Same maps a b := by
  obtain ⟨hid, hnone, hattributes, habilities⟩ := (equals_iff ha hb).mp hequals
  rw [equals_iff hb ha]
  cases hA : a.attributes with
  | none =>
      cases hB : a.abilities with
      | none =>
          obtain ⟨hA', hB'⟩ := hnone hA hB
          refine ⟨⟨hid.symm, fun _ _ => ⟨rfl, rfl⟩, by simp [hA'], by simp [hB']⟩, hid, ?_, ?_⟩
          · intro t
            rw [getExistingAttr_of_none hA, getExistingAttr_of_none hA']
          · intro t
            rw [getExistingAbility_of_none hB, getExistingAbility_of_none hB']
      | some m =>
          obtain ⟨hB', hagree⟩ := habilities (by simp [hB])
          have hA' : b.attributes = none := by
            by_contra hsome
            exact hno ⟨hid, Option.isSome_iff_ne_none.mpr hsome, hB',
              .inr ⟨hA, by simp [hB], hagree⟩⟩
          have hne : b.abilities ≠ none := Option.isSome_iff_ne_none.mp hB'
          refine ⟨⟨hid.symm, fun _ h => absurd h hne, by simp [hA'],
            fun _ => ⟨by simp, fun t => (hagree t).symm⟩⟩, hid, ?_, hagree⟩
          intro t
          rw [getExistingAttr_of_none hA, getExistingAttr_of_none hA']
  | some l =>
      obtain ⟨hA', hagree⟩ := hattributes (by simp [hA])
      have hne : b.attributes ≠ none := Option.isSome_iff_ne_none.mp hA'
      cases hB : a.abilities with
      | none =>
          have hB' : b.abilities = none := by
            by_contra hsome
            exact hno ⟨hid, hA', Option.isSome_iff_ne_none.mpr hsome,
              .inl ⟨by simp [hA], hB, hagree⟩⟩
          refine ⟨⟨hid.symm, fun h => absurd h hne,
            fun _ => ⟨by simp, fun t => (hagree t).symm⟩, by simp [hB']⟩, hid, ?_, ?_⟩
          · intro t
            rw [hagree]
          · intro t
            rw [getExistingAbility_of_none hB, getExistingAbility_of_none hB']
      | some m =>
          obtain ⟨hB', hagree'⟩ := habilities (by simp [hB])
          refine ⟨⟨hid.symm, fun h => absurd h hne, fun _ => ⟨by simp, fun t => (hagree t).symm⟩,
            fun _ => ⟨by simp, fun t => (hagree' t).symm⟩⟩, hid, ?_, hagree'⟩
          intro t
          rw [hagree]

/-- A one-sided item is equal to the other, which is not equal to it. -/
theorem OneSided.asymm {a b : Item} (ha : a.Wf) (hb : b.Wf) (h : OneSided a b) :
    a.equals (some b) = true ∧ b.equals (some a) = false := by
  obtain ⟨hid, hattributes, habilities, hcase⟩ := h
  rw [equals_iff ha hb, ← Bool.not_eq_true, equals_iff hb ha]
  rcases hcase with ⟨hA, hB, hagree⟩ | ⟨hA, hB, hagree⟩
  · refine ⟨⟨hid, ?_, fun _ => ⟨hattributes, hagree⟩, by simp [hB]⟩, ?_⟩
    · intro hnone
      simp [hnone] at hA
    · rintro ⟨-, -, -, hall⟩
      simpa [hB] using (hall habilities).1
  · refine ⟨⟨hid, ?_, by simp [hA], fun _ => ⟨habilities, hagree⟩⟩, ?_⟩
    · intro _ hnone
      simp [hnone] at hB
    · rintro ⟨-, -, hall, -⟩
      simpa [hA] using (hall hattributes).1

/-- `equals` can be relied on if and only if neither item is one-sided. -/
theorem equals_reliable_iff (maps : BitVec 64 → CustomAttributeMap) {a b : Item} (ha : a.Wf)
    (hb : b.Wf) : Reliable maps a b ↔ ¬ OneSided a b ∧ ¬ OneSided b a := by
  constructor
  · rintro ⟨hsymm, -⟩
    constructor
    · intro h
      obtain ⟨hab, hba⟩ := h.asymm ha hb
      simp [hab, hba] at hsymm
    · intro h
      obtain ⟨hba, hab⟩ := h.asymm hb ha
      simp [hab, hba] at hsymm
  · rintro ⟨hab, hba⟩
    refine ⟨?_, fun h => (equals_swap maps ha hb hab h).2⟩
    rw [Bool.eq_iff_iff]
    exact ⟨fun h => (equals_swap maps ha hb hab h).1, fun h => (equals_swap maps hb ha hba h).1⟩

/-! ### Nodes of the heap -/

/-- A node has the attributes and abilities of the item as functions. -/
structure Represents (n : Node) (i : Item) : Prop where
  id : n.id = i.id
  hasAttributes : n.hasAttributes = i.attributes.isSome
  hasAbilities : n.hasAbilities = i.abilities.isSome
  int : ∀ k, i.getExistingAttr (.int k) =
    (n.attributes.int k).map fun v => .int k (v.signExtend 64)
  str : ∀ k, i.getExistingAttr (.str k) = (n.attributes.str k).map (.str k)
  custom : (i.getExistingAttr .custom).isSome = n.attributes.custom.isSome
  ability : ∀ t : ItemAbilityType, (i.getExistingAbility t).map Ability.integer = n.abilities t.bit

theorem exists_bit (j : Fin 53) : ∃ t : ItemAbilityType, t.bit = j := by
  have hall : ∀ j : Fin 53, (ItemAbilityType.all[j.val]?).map ItemAbilityType.bit = some j := by
    decide
  obtain ⟨t, -, ht⟩ := Option.map_eq_some_iff.mp (hall j)
  exact ⟨t, ht⟩

theorem signExtend_int_inj {k : IntAttr} : Function.Injective fun v : BitVec 32 =>
    Attribute.int k (v.signExtend 64) := by
  intro v v' h
  exact (Equip.signExtend_inj (by decide)).mp (Attribute.int.inj h).2

theorem getExistingAbility_type {i : Item} {t : ItemAbilityType} {x : Ability}
    (h : i.getExistingAbility t = some x) : x.type = t := by
  obtain ⟨l, -, hfind⟩ := Option.bind_eq_some_iff.mp h
  rw [AbilityList.getExistingAbility, TagList.find] at hfind
  split at hfind
  · simpa using List.find?_some hfind
  · cases hfind

section

variable {n m : Node} {a b : Item} (hn : Represents n a) (hm : Represents m b)

include hn hm

theorem same_iff {sameItem : Bool}
    (hcustom : ∀ p q, a.getExistingAttr .custom = some p → b.getExistingAttr .custom = some q →
      (p = q ↔ sameItem = true)) :
    n.attributes.same sameItem m.attributes = true ↔
      ∀ t, a.getExistingAttr t = b.getExistingAttr t := by
  have hints : (ItemAttributes.ints.all fun k => n.attributes.int k == m.attributes.int k) = true ↔
      ∀ k, a.getExistingAttr (.int k) = b.getExistingAttr (.int k) := by
    simp only [List.all_eq_true, beq_iff_eq, hn.int, hm.int,
      (Option.map_injective signExtend_int_inj).eq_iff]
    exact ⟨fun h k => h k (ItemAttributes.mem_ints k), fun h k _ => h k⟩
  have hstrs : (ItemAttributes.strs.all fun k => n.attributes.str k == m.attributes.str k) = true ↔
      ∀ k, a.getExistingAttr (.str k) = b.getExistingAttr (.str k) := by
    have hinj : ∀ k, Function.Injective (Attribute.str k) := fun k _ _ h => (Attribute.str.inj h).2
    simp only [List.all_eq_true, beq_iff_eq, hn.str, hm.str,
      (Option.map_injective (hinj _)).eq_iff]
    exact ⟨fun h k => h k (ItemAttributes.mem_strs k), fun h k _ => h k⟩
  have hcustoms : (if n.attributes.custom.isSome && m.attributes.custom.isSome then sameItem
      else n.attributes.custom.isNone && m.attributes.custom.isNone) = true ↔
        a.getExistingAttr .custom = b.getExistingAttr .custom := by
    rw [← Option.not_isSome, ← Option.not_isSome, ← hn.custom, ← hm.custom]
    cases hp : a.getExistingAttr .custom with
    | none => cases hq : b.getExistingAttr .custom <;> simp
    | some p =>
        cases hq : b.getExistingAttr .custom with
        | none => simp
        | some q => simpa using (hcustom p q hp hq).symm
  rw [ItemAttributes.same, Bool.and_eq_true, Bool.and_eq_true, hints, hstrs, hcustoms]
  constructor
  · rintro ⟨⟨hint, hstr⟩, hcustom⟩ (k | k | _)
    · exact hint k
    · exact hstr k
    · exact hcustom
  · intro h
    exact ⟨⟨fun k => h _, fun k => h _⟩, h _⟩

theorem abilities_iff : (∀ j, n.abilities j = m.abilities j) ↔
    ∀ t, a.getExistingAbility t = b.getExistingAbility t := by
  constructor
  · intro h t
    have hsame := h t.bit
    rw [← hn.ability, ← hm.ability] at hsame
    cases hx : a.getExistingAbility t with
    | none =>
        rw [hx] at hsame
        exact (Option.map_eq_none_iff.mp hsame.symm).symm
    | some x =>
        rw [hx] at hsame
        obtain ⟨y, hy, hinteger⟩ := Option.map_eq_some_iff.mp hsame.symm
        have htype := (getExistingAbility_type hx).trans (getExistingAbility_type hy).symm
        rw [hy]
        cases x
        cases y
        simp_all
  · intro h j
    obtain ⟨t, rfl⟩ := exists_bit j
    rw [← hn.ability, ← hm.ability, h]

/-- `equals` of the nodes is `equals` of the lists. -/
theorem node_equals_eq (ha : a.Wf) (hb : b.Wf) {sameItem : Bool}
    (hcustom : ∀ p q, a.getExistingAttr .custom = some p → b.getExistingAttr .custom = some q →
      (p = q ↔ sameItem = true)) : n.equals sameItem m = a.equals (some b) := by
  have hattributes := same_iff hn hm hcustom
  have habilities := abilities_iff hn hm
  rw [Bool.eq_iff_iff, equals_iff ha hb, ← hattributes, ← habilities, Node.equals, hn.id, hm.id,
    hn.hasAttributes, hn.hasAbilities, hm.hasAttributes, hm.hasAbilities]
  cases hA : a.attributes <;> cases hB : a.abilities <;> simp

end

/-! ### Arrows -/

/-- The attributes of an arrow with an action id. -/
def actionId : AttributeList :=
  TagList.empty.set Attribute.type AttrType.maskBit (.int .actionId 1000)

def marked : Item := { id := 2544, attributes := some actionId, abilities := none }

/-- The same arrow, with an ability of its own. -/
def poisoned : Item where
  id := 2544
  attributes := some actionId
  abilities := OwnAbilities.setAbilityInt none .healthGain 5

theorem actionId_wf : actionId.Wf Attribute.type AttrType.maskBit :=
  TagList.Wf.set AttrType.maskBit_injective TagList.wf_empty _

theorem marked_wf : marked.Wf := by
  refine ⟨?_, OwnAbilities.wf_none⟩
  rintro _ ⟨⟩
  exact actionId_wf

theorem poisoned_wf : poisoned.Wf := by
  refine ⟨?_, (OwnAbilities.own_setAbilityInt OwnAbilities.wf_none .healthGain 5).1⟩
  rintro _ ⟨⟩
  exact actionId_wf

theorem equals_reliable_iff_arrows : Reliable (fun _ => .empty) marked poisoned ↔
    ¬ OneSided marked poisoned ∧ ¬ OneSided poisoned marked :=
  equals_reliable_iff (fun _ => .empty) marked_wf poisoned_wf

/-- The marked arrow may go on the stack of the poisoned one, not the other way round. -/
theorem equals_not_symmetric :
    marked.Wf ∧ poisoned.Wf ∧
    marked.equals (some poisoned) = true ∧ poisoned.equals (some marked) = false ∧
    marked.getExistingAbility .healthGain = none ∧
    poisoned.getExistingAbility .healthGain = some { type := .healthGain, integer := 5 } :=
  ⟨marked_wf, poisoned_wf, by decide⟩

end Infernum.Stack
