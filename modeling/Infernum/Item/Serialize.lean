import Infernum.Item.Item

/-!
# Items as bytes

`serializeAttr` and `serializeAbility` with their readers. The readers work on
any bytes, malformed ones included; what they make of the bytes the writers
produce is in `Infernum.Item.RoundTrip`.
-/

namespace Infernum

open Infernum.Lib

/-- `AttrTypes_t`: the attribute codes of the item stream that have a reader. -/
inductive AttrTypes
  | actionId | uniqueId | text | desc | teleDest | depotId | runeCharges | houseDoorId | count
  | duration | decayingState | writtenDate | writtenBy | sleeperGuid | sleepStart | charges
  | containerItems | name | article | pluralName | weight | attack | defense | extraDefense
  | armor | hitChance | shootRange | customAttributes
  deriving DecidableEq, Repr

namespace AttrTypes

/-- The byte that introduces the attribute. -/
def code : AttrTypes → UInt8
  | actionId => 4
  | uniqueId => 5
  | text => 6
  | desc => 7
  | teleDest => 8
  | depotId => 10
  | runeCharges => 12
  | houseDoorId => 14
  | count => 15
  | duration => 16
  | decayingState => 17
  | writtenDate => 18
  | writtenBy => 19
  | sleeperGuid => 20
  | sleepStart => 21
  | charges => 22
  | containerItems => 23
  | name => 24
  | article => 25
  | pluralName => 26
  | weight => 27
  | attack => 28
  | defense => 29
  | extraDefense => 30
  | armor => 31
  | hitChance => 32
  | shootRange => 33
  | customAttributes => 34

/-- The attribute with a given code. -/
def ofCode (n : Nat) : Option AttrTypes :=
  match n with
  | 4 => some actionId
  | 5 => some uniqueId
  | 6 => some text
  | 7 => some desc
  | 8 => some teleDest
  | 10 => some depotId
  | 12 => some runeCharges
  | 14 => some houseDoorId
  | 15 => some count
  | 16 => some duration
  | 17 => some decayingState
  | 18 => some writtenDate
  | 19 => some writtenBy
  | 20 => some sleeperGuid
  | 21 => some sleepStart
  | 22 => some charges
  | 23 => some containerItems
  | 24 => some name
  | 25 => some article
  | 26 => some pluralName
  | 27 => some weight
  | 28 => some attack
  | 29 => some defense
  | 30 => some extraDefense
  | 31 => some armor
  | 32 => some hitChance
  | 33 => some shootRange
  | 34 => some customAttributes
  | _ => none

@[simp] theorem ofCode_code (a : AttrTypes) : ofCode a.code.toNat = some a := by
  cases a <;> rfl

theorem code_ne_zero (a : AttrTypes) : a.code.toNat ≠ 0 := by
  cases a <;> decide

end AttrTypes

namespace CustomAttribute

/-- `CustomAttribute::serialize`: the position in the variant, then the value. -/
def serialize : CustomAttribute → List UInt8
  | str value => 1 :: encodeString value
  | int value => 2 :: encodeLE 8 value.toNat
  | double bits => 3 :: encodeLE 8 bits.toNat
  | bool value => [4, if value then 1 else 0]

/-- `CustomAttribute::unserialize`. -/
def unserialize (s : List UInt8) : Option CustomAttribute × List UInt8 :=
  match readLE 1 s with
  | (some 1, s) =>
      match readString s with
      | (some value, s) => (some (str value), s)
      | (none, s) => (none, s)
  | (some 2, s) =>
      match readLE 8 s with
      | (some n, s) => (some (int (.ofNat 64 n)), s)
      | (none, s) => (none, s)
  | (some 3, s) =>
      match readLE 8 s with
      | (some n, s) => (some (double (.ofNat 64 n)), s)
      | (none, s) => (none, s)
  | (some 4, s) =>
      match readLE 1 s with
      | (some n, s) => (some (bool (n != 0)), s)
      | (none, s) => (none, s)
  | (_, s) => (none, s)

end CustomAttribute

namespace Item

/-! ## Writers -/

/-- An attribute code and its data. -/
def writeAttr (a : AttrTypes) (data : List UInt8) : List UInt8 := a.code :: data

/-- Write an integer attribute that is present, in `n` bytes. -/
def writeIntAttr (i : Item) (a : AttrTypes) (key : IntAttr) (n : Nat) : List UInt8 :=
  if i.hasAttribute key then writeAttr a (encodeLE n (i.getIntAttr key).toNat) else []

/-- Write a string attribute that is present. -/
def writeStrAttr (i : Item) (a : AttrTypes) (key : StrAttr) : List UInt8 :=
  if (i.attributes.str key).isSome then writeAttr a (encodeString (i.getStrAttr key)) else []

/-- Write a string attribute that is not empty. -/
def writeText (i : Item) (a : AttrTypes) (key : StrAttr) : List UInt8 :=
  if i.getStrAttr key ≠ [] then writeAttr a (encodeString (i.getStrAttr key)) else []

/-- The custom attributes: their number and each key with its value. -/
def writeCustomAttributes (i : Item) : List UInt8 :=
  match i.attributes.custom with
  | none => []
  | some m => writeAttr .customAttributes (encodeLE 8 m.entries.length ++
      m.entries.flatMap fun e => encodeString e.1 ++ e.2.serialize)

/-- `Item::serializeAttr` of the base class. -/
def serializeItemAttr (w : World) (i : Item) : List UInt8 :=
  let it := i.type w
  (if it.stackable || it.holdsFluid then
    writeAttr .count (encodeLE 1 (i.getSubType w).toNat) else []) ++
  ((if i.getCharges ≠ 0 then writeAttr .charges (encodeLE 2 i.getCharges.toNat) else []) ++
  ((if it.moveable ∧ i.getActionId ≠ 0 then
    writeAttr .actionId (encodeLE 2 i.getActionId.toNat) else []) ++
  (i.writeText .text .text ++
  ((if i.getIntAttr .date ≠ 0 then
    writeAttr .writtenDate (encodeLE 4 (i.getIntAttr .date).toNat) else []) ++
  (i.writeText .writtenBy .writer ++
  (i.writeText .desc .description ++
  (i.writeIntAttr .duration .duration 4 ++
  ((if i.getDecaying = 1 ∨ i.getDecaying = 2 then
    writeAttr .decayingState (encodeLE 1 i.getDecaying.toNat) else []) ++
  (i.writeStrAttr .name .name ++
  (i.writeStrAttr .article .article ++
  (i.writeStrAttr .pluralName .pluralName ++
  (i.writeIntAttr .weight .weight 4 ++
  (i.writeIntAttr .attack .attack 4 ++
  (i.writeIntAttr .defense .defense 4 ++
  (i.writeIntAttr .extraDefense .extraDefense 4 ++
  (i.writeIntAttr .armor .armor 4 ++
  (i.writeIntAttr .hitChance .hitChance 1 ++
  (i.writeIntAttr .shootRange .shootRange 1 ++
  i.writeCustomAttributes))))))))))))))))))

/-- `Teleport::serializeAttr`, after the base class. -/
def writeDestination (i : Item) : List UInt8 :=
  writeAttr .teleDest (encodeLE 2 i.destPos.1.toNat ++
    (encodeLE 2 i.destPos.2.1.toNat ++ encodeLE 1 i.destPos.2.2.toNat))

/-- `BedItem::serializeAttr`: the start of the sleep is cut to 32 bits. -/
def writeSleeper (i : Item) : List UInt8 :=
  (if i.sleeperGUID ≠ 0 then writeAttr .sleeperGuid (encodeLE 4 i.sleeperGUID.toNat) else []) ++
  (if i.sleepStart ≠ 0 then
    writeAttr .sleepStart (encodeLE 4 (i.sleepStart.setWidth 32).toNat) else [])

/-- The virtual `serializeAttr`; a door writes nothing. -/
def serializeAttr (w : World) (i : Item) : List UInt8 :=
  match (i.type w).itemClass with
  | .door => []
  | .bed => i.writeSleeper
  | .teleport => i.serializeItemAttr w ++ i.writeDestination
  | _ => i.serializeItemAttr w

/-- `Item::serializeAbility`: code and value of each ability that is set, in the
order of the codes. Nothing marks the end. -/
def serializeAbility (i : Item) : List UInt8 :=
  (List.finRange 53).flatMap fun a =>
    match i.abilities a with
    | some value => UInt8.ofNat (a + 1) :: encodeLE 8 value.toNat
    | none => []

/-! ## Readers -/

/-- `Attr_ReadValue`; a container's `ATTR_READ_END` comes with the number of
items that follow (`serializationCount`). -/
inductive ReadValue
  | continue
  | error
  | end (serializationCount : Nat)
  deriving DecidableEq, Repr

/-- Read a number and act on it, or fail. -/
def readNumber (n : Nat) (s : List UInt8) (i : Item) (f : Nat → Item) :
    ReadValue × Item × List UInt8 :=
  match readLE n s with
  | (some v, s) => (.continue, f v, s)
  | (none, s) => (.error, i, s)

/-- Read a string and act on it, or fail. -/
def readText (s : List UInt8) (i : Item) (f : List UInt8 → Item) :
    ReadValue × Item × List UInt8 :=
  match readString s with
  | (some v, s) => (.continue, f v, s)
  | (none, s) => (.error, i, s)

/-- Data of an attribute that another class of item has. -/
def skipData (n : Nat) (s : List UInt8) (i : Item) : ReadValue × Item × List UInt8 :=
  match skip n s with
  | (true, s) => (.continue, i, s)
  | (false, s) => (.error, i, s)

/-- The loop over the custom attributes. -/
def readCustomAttributes : Nat → List UInt8 → Item → ReadValue × Item × List UInt8
  | 0, s, i => (.continue, i, s)
  | n + 1, s, i =>
      match readString s with
      | (none, s) => (.error, i, s)
      | (some key, s) =>
          match CustomAttribute.unserialize s with
          | (none, s) => (.error, i, s)
          | (some value, s) => readCustomAttributes n s (i.setCustomAttribute key value)

/-- `BedItem::readAttr` on the sleeper. -/
def setSleeper (w : World) (i : Item) (guid : BitVec 32) : Item :=
  if guid ≠ 0 ∧ w.getNameByGuid guid ≠ [] then
    { i.setStrAttr .description
        (w.getNameByGuid guid ++ " is sleeping there.".toUTF8.toList) with sleeperGUID := guid }
  else i

/-- The three numbers of a teleport's destination. -/
def readDestination (s : List UInt8) (i : Item) : ReadValue × Item × List UInt8 :=
  match readLE 2 s with
  | (none, s) => (.error, i, s)
  | (some x, s) =>
      match readLE 2 s with
      | (none, s) => (.error, { i with destPos := (.ofNat 16 x, i.destPos.2) }, s)
      | (some y, s) =>
          match readLE 1 s with
          | (none, s) => (.error, { i with destPos := (.ofNat 16 x, .ofNat 16 y, i.destPos.2.2) }, s)
          | (some z, s) =>
              (.continue, { i with destPos := (.ofNat 16 x, .ofNat 16 y, .ofNat 8 z) }, s)

/-- The virtual `readAttr`: the classes that read an attribute themselves, and
`Item::readAttr` for everything else. -/
def readAttr (w : World) (a : AttrTypes) (s : List UInt8) (i : Item) :
    ReadValue × Item × List UInt8 :=
  let itemClass := (i.type w).itemClass
  match a with
  | .count => readNumber 1 s i fun n => i.setSubType w (.ofNat 16 n)
  | .runeCharges => readNumber 1 s i fun n => i.setSubType w (.ofNat 16 n)
  | .actionId => readNumber 2 s i fun n => i.setActionId (.ofNat 16 n)
  | .uniqueId => readNumber 2 s i fun n => i.setUniqueId w (.ofNat 16 n)
  | .text => readText s i fun v => i.setStrAttr .text v
  | .writtenDate => readNumber 4 s i fun n => i.setIntAttr .date (.ofNat 32 n)
  | .writtenBy => readText s i fun v => i.setStrAttr .writer v
  | .desc => readText s i fun v => i.setStrAttr .description v
  | .charges => readNumber 2 s i fun n => i.setSubType w (.ofNat 16 n)
  | .duration => readNumber 4 s i fun n =>
      i.setIntAttr .duration (if (BitVec.ofNat 32 n).msb then 0 else .ofNat 32 n)
  | .decayingState => readNumber 1 s i fun n =>
      if n ≠ 0 then i.setIntAttr .decayState DECAYING_PENDING else i
  | .name => readText s i fun v => i.setStrAttr .name v
  | .article => readText s i fun v => i.setStrAttr .article v
  | .pluralName => readText s i fun v => i.setStrAttr .pluralName v
  | .weight => readNumber 4 s i fun n => i.setIntAttr .weight (.ofNat 32 n)
  | .attack => readNumber 4 s i fun n => i.setIntAttr .attack (.ofNat 32 n)
  | .defense => readNumber 4 s i fun n => i.setIntAttr .defense (.ofNat 32 n)
  | .extraDefense => readNumber 4 s i fun n => i.setIntAttr .extraDefense (.ofNat 32 n)
  | .armor => readNumber 4 s i fun n => i.setIntAttr .armor (.ofNat 32 n)
  | .hitChance => readNumber 1 s i fun n =>
      i.setIntAttr .hitChance ((BitVec.ofNat 8 n).signExtend 32)
  | .shootRange => readNumber 1 s i fun n => i.setIntAttr .shootRange (.ofNat 32 n)
  | .depotId => skipData 2 s i
  | .houseDoorId =>
      if itemClass = .door then readNumber 1 s i fun n => i.setIntAttr .doorId (.ofNat 32 n)
      else skipData 1 s i
  | .sleeperGuid =>
      if itemClass = .bed then readNumber 4 s i fun n => i.setSleeper w (.ofNat 32 n)
      else skipData 4 s i
  | .sleepStart =>
      if itemClass = .bed then readNumber 4 s i fun n => { i with sleepStart := .ofNat 64 n }
      else skipData 4 s i
  | .teleDest => if itemClass = .teleport then readDestination s i else skipData 5 s i
  | .containerItems =>
      -- a depot locker is a container, but goes straight to the base class
      if itemClass = .container then
        match readLE 4 s with
        | (some n, s) => (.end n, i, s)
        | (none, s) => (.error, i, s)
      else (.error, i, s)
  | .customAttributes =>
      match readLE 8 s with
      | (some n, s) => readCustomAttributes n s i
      | (none, s) => (.error, i, s)

/-! No reader makes the stream longer. -/

theorem readNumber_length_le (n : Nat) (s : List UInt8) (i : Item) (f : Nat → Item) :
    (readNumber n s i f).2.2.length ≤ s.length := by
  have h := readLE_length_le n s
  unfold readNumber
  split <;> (rename_i heq; rw [heq] at h; exact h)

theorem readText_length_le (s : List UInt8) (i : Item) (f : List UInt8 → Item) :
    (readText s i f).2.2.length ≤ s.length := by
  have h := readString_length_le s
  unfold readText
  split <;> (rename_i heq; rw [heq] at h; exact h)

theorem skipData_length_le (n : Nat) (s : List UInt8) (i : Item) :
    (skipData n s i).2.2.length ≤ s.length := by
  have h := skip_length_le n s
  unfold skipData
  split <;> (rename_i heq; rw [heq] at h; exact h)

end Item

theorem CustomAttribute.unserialize_length_le (s : List UInt8) :
    (CustomAttribute.unserialize s).2.length ≤ s.length := by
  have h1 := readLE_length_le 1 s
  unfold CustomAttribute.unserialize
  generalize readLE 1 s = r at h1
  obtain ⟨o, s1⟩ := r
  have h8 := readLE_length_le 8 s1
  have hs := readString_length_le s1
  have hb := readLE_length_le 1 s1
  simp only at h1
  split <;> rename_i heq <;> simp only [Prod.mk.injEq] at heq <;> obtain ⟨_, rfl⟩ := heq
  · split <;> (rename_i h; rw [h] at hs; exact le_trans hs h1)
  · split <;> (rename_i h; rw [h] at h8; exact le_trans h8 h1)
  · split <;> (rename_i h; rw [h] at h8; exact le_trans h8 h1)
  · split <;> (rename_i h; rw [h] at hb; exact le_trans hb h1)
  · exact h1

namespace Item

theorem readCustomAttributes_length_le (n : Nat) (s : List UInt8) (i : Item) :
    (readCustomAttributes n s i).2.2.length ≤ s.length := by
  induction n generalizing s i with
  | zero => exact le_refl _
  | succ n ih =>
      have hkey := readString_length_le s
      unfold readCustomAttributes
      split
      · rename_i h
        rw [h] at hkey
        exact hkey
      · rename_i s1 h
        rw [h] at hkey
        have hvalue := CustomAttribute.unserialize_length_le s1
        split
        · rename_i h'
          rw [h'] at hvalue
          exact le_trans hvalue hkey
        · rename_i h'
          rw [h'] at hvalue
          exact le_trans (ih _ _) (le_trans hvalue hkey)

theorem readDestination_length_le (s : List UInt8) (i : Item) :
    (readDestination s i).2.2.length ≤ s.length := by
  have hx := readLE_length_le 2 s
  unfold readDestination
  split
  · rename_i h
    rw [h] at hx
    exact hx
  · rename_i s1 h
    rw [h] at hx
    have hy := readLE_length_le 2 s1
    split
    · rename_i h'
      rw [h'] at hy
      exact le_trans hy hx
    · rename_i s2 h'
      rw [h'] at hy
      have hz := readLE_length_le 1 s2
      split <;> (rename_i h''; rw [h''] at hz; exact le_trans hz (le_trans hy hx))

theorem readAttr_length_le (w : World) (a : AttrTypes) (s : List UInt8) (i : Item) :
    (readAttr w a s i).2.2.length ≤ s.length := by
  unfold readAttr
  cases a with
  | containerItems =>
      have h4 := readLE_length_le 4 s
      dsimp only
      split
      · split <;> (rename_i h; rw [h] at h4; exact h4)
      · exact le_refl _
  | customAttributes =>
      have h8 := readLE_length_le 8 s
      dsimp only
      split
      · rename_i h
        rw [h] at h8
        exact le_trans (readCustomAttributes_length_le _ _ _) h8
      · rename_i h
        rw [h] at h8
        exact h8
  | teleDest =>
      dsimp only
      split
      · exact readDestination_length_le _ _
      · exact skipData_length_le _ _ _
  | houseDoorId | sleeperGuid | sleepStart =>
      dsimp only
      split
      · exact readNumber_length_le _ _ _ _
      · exact skipData_length_le _ _ _
  | depotId => exact skipData_length_le _ _ _
  | text | writtenBy | desc | name | article | pluralName => exact readText_length_le _ _ _
  | _ => exact readNumber_length_le _ _ _ _

/-- What `unserializeAttr` leaves: the result, the item, the number of items
that follow and the rest of the stream. -/
structure Unserialized where
  ok : Bool
  item : Item
  serializationCount : Nat
  rest : List UInt8

/-- `Item::unserializeAttr`. -/
def unserializeAttr (w : World) (s : List UInt8) (i : Item) : Unserialized :=
  match s with
  | [] => ⟨true, i, 0, []⟩
  | code :: s =>
      if code.toNat = 0 then ⟨true, i, 0, s⟩
      else
        match AttrTypes.ofCode code.toNat with
        | none => ⟨false, i, 0, s⟩
        | some a =>
            let r := readAttr w a s i
            match r.1 with
            | .error => ⟨false, r.2.1, 0, r.2.2⟩
            | .end n => ⟨true, r.2.1, n, r.2.2⟩
            | .continue => unserializeAttr w r.2.2 r.2.1
termination_by s.length
decreasing_by
  have := readAttr_length_le w a s i
  simp only [List.length_cons]
  omega

/-- `Item::unserializeAbility`: it reads until a zero byte or the end. -/
def unserializeAbility (s : List UInt8) (i : Item) : Item × List UInt8 :=
  match s with
  | [] => (i, [])
  | code :: s =>
      if code.toNat = 0 then (i, s)
      else if h : code.toNat - 1 < 53 then
        let r := readLE 8 s
        match r.1 with
        | some value =>
            unserializeAbility r.2 (i.setAbilityInt ⟨code.toNat - 1, h⟩ (.ofNat 64 value))
        | none => (i, r.2)
      else (i, s)
termination_by s.length
decreasing_by
  have := readLE_length_le 8 s
  simp only [List.length_cons]
  omega

end Item

end Infernum
