import Infernum.Item.Reload

/-!
# One item and its own bytes

`unserializeAttr` on a newly created item, given what `serializeAttr` wrote for
an item of the same id and the byte that ends the attributes. The stream is
always read to its end; `Recovered` says for which items the sub-type and the
attributes come back.
-/

namespace Infernum

open Infernum.Lib

namespace Item

variable (w : World)

/-- The attributes that the format leaves out: who owns an item and what it is
known by, and the action id of what cannot be moved. -/
def leftOut (i : Item) : IntAttr → Bool
  | .uniqueId => true
  | .owner => true
  | .corpseOwner => true
  | .actionId => !(i.type w).moveable
  | _ => false

/-- The item without the attributes that are left out. -/
def withoutLeftOut (i : Item) : Item :=
  { i with attributes := { i.attributes with
      int := fun k => if leftOut w i k then none else i.attributes.int k } }

/-- What runs is to be started again once it is read. -/
def readBackDecayState (v : BitVec 32) : BitVec 32 :=
  if v = DECAYING_TRUE then DECAYING_PENDING else v

/-- An item that has the sub-type and the attributes of another one, what is
left out apart, with its decay to be started. -/
structure ReadBack (r i : Item) : Prop where
  subType : r.getSubType w = i.getSubType w
  int : ∀ k, k ≠ .decayState → leftOut w i k = false →
    r.attributes.int k = i.attributes.int k
  decayState : r.attributes.int .decayState =
    (i.attributes.int .decayState).map readBackDecayState
  str : ∀ k, r.attributes.str k = i.attributes.str k
  custom : r.attributes.custom = i.attributes.custom

/-- The values that fit the format. -/
structure KeptValues (i : Item) : Prop where
  attributes : Kept w (i.withoutLeftOut w)
  decayState : ∀ v, i.attributes.int .decayState = some v →
    v = DECAYING_TRUE ∨ v = DECAYING_PENDING

/-- The items whose sub-type and attributes come back: a door has those of a
new door, a bed those of a new bed with its sleeper, anything else has values
that fit. -/
def Recovered (i fresh : Item) : Prop :=
  match (i.type w).itemClass with
  | .door => ReadBack w fresh i
  | .bed => ReadBack w (restoreSleeper w i fresh) i
  | _ => KeptValues w i

variable {w}

/-! ## What is left out is not written -/

theorem getSubType_withoutLeftOut (i : Item) :
    (i.withoutLeftOut w).getSubType w = i.getSubType w :=
  getSubType_eq rfl rfl rfl fun _ _ => rfl

theorem savedActionId_withoutLeftOut (i : Item) :
    (i.withoutLeftOut w).savedActionId w = i.savedActionId w := by
  have htype : (i.withoutLeftOut w).type w = i.type w := rfl
  unfold savedActionId
  rw [htype]
  cases hmove : (i.type w).moveable with
  | false => simp
  | true =>
      have hint : (i.withoutLeftOut w).attributes.int .actionId = i.attributes.int .actionId := by
        simp [withoutLeftOut, leftOut, hmove]
      simp only [getActionId, getIntAttr, hint]
      rfl

/-- The item writes the same with and without what is left out. -/
theorem restored_withoutLeftOut (i m : Item) :
    restored w (i.withoutLeftOut w) m = restored w i m := by
  have hsub : restoreSubType w (i.withoutLeftOut w) m = restoreSubType w i m := by
    unfold restoreSubType
    rw [getSubType_withoutLeftOut]
    rfl
  unfold restored
  rw [hsub, savedActionId_withoutLeftOut]
  rfl

theorem savedDecayState_eq_iff (i : Item) :
    i.savedDecayState = (i.attributes.int .decayState).map readBackDecayState ↔
      ∀ v, i.attributes.int .decayState = some v → v = DECAYING_TRUE ∨ v = DECAYING_PENDING := by
  unfold savedDecayState getDecaying getIntAttr
  cases hv : i.attributes.int .decayState with
  | none => simp
  | some v =>
      simp only [Option.getD_some, Option.map_some, Option.some.injEq]
      constructor
      · rintro h u rfl
        by_cases htrue : v = DECAYING_TRUE
        · exact .inl htrue
        · right
          rw [readBackDecayState, if_neg htrue] at h
          split at h
          · exact (Option.some.inj h).symm
          · simp at h
      · intro h
        rcases h v rfl with rfl | rfl
        · rfl
        · rfl

/-! ## Which items come back -/

/-- A new item that has read the attributes, compared with what was written. -/
theorem readBack_iff_sameAttributes (i : Item) (c : BitVec 16) :
    ReadBack w (restored w i (construct w i.id c)) i ↔
      SameAttributes w (restored w i (construct w i.id c)) (i.withoutLeftOut w) ∧
      i.savedDecayState = (i.attributes.int .decayState).map readBackDecayState := by
  have hdecay : (restored w i (construct w i.id c)).attributes.int .decayState =
      i.savedDecayState := by
    rw [restored_construct_int w i c (by decide) (by decide)]
    simp [restoredInt]
  -- what is left out is not there in an item that was read
  have hnone : ∀ k, leftOut w i k = true →
      (restored w i (construct w i.id c)).attributes.int k = none := by
    intro k hk
    cases k with
    | uniqueId | owner | corpseOwner => exact restored_unsaved w i c _ (by simp [unsavedAttrs])
    | actionId =>
        rw [restored_construct_int w i c (by decide) (by decide)]
        have hmove : (i.type w).moveable = false := by simpa [leftOut] using hk
        simp [restoredInt, savedActionId, hmove]
    | date | weight | attack | defense | extraDefense | armor | hitChance | shootRange
    | duration | decayState | charges | fluidType | doorId => simp [leftOut] at hk
  constructor
  · intro h
    have hint : ∀ k, k ≠ .decayState → (restored w i (construct w i.id c)).attributes.int k =
        (i.withoutLeftOut w).attributes.int k := by
      intro k hk
      change _ = if leftOut w i k then none else i.attributes.int k
      cases hleft : leftOut w i k with
      | true => exact hnone k hleft
      | false => exact h.int k hk hleft
    refine ⟨⟨⟨hint _ (by simp), hint _ (by simp), ?_⟩, hint, h.str, h.custom⟩, ?_⟩
    · rw [getSubType_withoutLeftOut]
      exact h.subType
    · rw [← hdecay]
      exact h.decayState
  · rintro ⟨hsame, hstate⟩
    refine ⟨?_, fun k hk hleft => ?_, hdecay.trans hstate, hsame.str, hsame.custom⟩
    · rw [hsame.subType.2.2, getSubType_withoutLeftOut]
    · rw [hsame.int k hk]
      change (if leftOut w i k then none else i.attributes.int k) = _
      rw [hleft]
      rfl

theorem readBack_restored_iff (i : Item) (c : BitVec 16)
    (hc : c = 0 ∨ c = i.getSubType w ∨ (i.type w).stackable) :
    ReadBack w (restored w i (construct w i.id c)) i ↔ KeptValues w i := by
  have hkept : SameAttributes w (restored w i (construct w i.id c)) (i.withoutLeftOut w) ↔
      Kept w (i.withoutLeftOut w) := by
    have h := restored_same_iff w (i.withoutLeftOut w) c (by
      rw [getSubType_withoutLeftOut]
      exact hc)
    rw [restored_withoutLeftOut] at h
    exact h
  rw [readBack_iff_sameAttributes, hkept, savedDecayState_eq_iff]
  exact ⟨fun h => ⟨h.1, h.2⟩, fun h => ⟨h.attributes, h.decayState⟩⟩

theorem readBack_reload_iff (i : Item) (count : BitVec 16)
    (hcount : count = 0 ∨ count = i.getSubType w) :
    ReadBack w (reload w i (newItem w i.id count)) i ↔ Recovered w i (newItem w i.id count) := by
  by_cases hbed : (i.type w).itemClass = .bed
  · simp only [reload, Recovered, hbed]
  obtain ⟨c, hor, hc⟩ := newItem_eq w i.id count hbed
  have hc' : c = 0 ∨ c = i.getSubType w ∨ (i.type w).stackable := by
    rcases hor with h | h | h
    · exact .inl h
    · rw [h]
      exact hcount.imp_right .inl
    · exact .inr (.inr h)
  have hrestored := readBack_restored_iff i c hc'
  rw [hc]
  cases hclass : (i.type w).itemClass with
  | bed => exact absurd hclass hbed
  | door => simp only [reload, Recovered, hclass]
  | teleport =>
      simp only [reload, Recovered, hclass]
      -- the destination is no attribute
      exact Iff.trans ⟨fun h => ⟨h.subType, h.int, h.decayState, h.str, h.custom⟩,
        fun h => ⟨h.subType, h.int, h.decayState, h.str, h.custom⟩⟩ hrestored
  | depotLocker | container | magicField | trashHolder | mailbox | item =>
      simp only [reload, Recovered, hclass]
      exact hrestored

/-- A new item takes the bytes of any item of its id, reads them to their end,
and comes out with the sub-type and the attributes exactly if the item is
`Recovered`. -/
theorem unserializeAttr_own_bytes (w : World) (i fresh : Item) (count : BitVec 16)
    (hfresh : createItem w i.id count = some fresh)
    (hcount : count = 0 ∨ count = i.getSubType w)
    (hsize : ∀ c, i.attributes.custom = some c → c.entries.length < 2 ^ 64) :
    let r := unserializeAttr w (i.serializeAttr w ++ [0]) fresh
    r.ok = true ∧ r.rest = [] ∧ r.serializationCount = 0 ∧ r.item.id = i.id ∧
      (ReadBack w r.item i ↔ Recovered w i fresh) := by
  obtain rfl := (known_of_createItem hfresh).2
  obtain ⟨hid, _⟩ := newItem_rest w i.id count
  have hrun : unserializeAttr w (i.serializeAttr w ++ [0]) (newItem w i.id count) =
      ⟨true, reload w i (newItem w i.id count), 0, []⟩ := by
    rw [unserializeAttr_serializeAttr w i _ [0] hid hsize, unserializeAttr_zero]
  intro r
  have hr : r = ⟨true, reload w i (newItem w i.id count), 0, []⟩ := hrun
  rw [hr]
  exact ⟨rfl, rfl, rfl, (reload_rest w i _).1.trans hid, readBack_reload_iff i count hcount⟩

/-- An item table with a door and a bow. -/
def porchWorld : World where
  itemType id :=
    if id = 1219 then { id := 1219, type := .door }
    else if id = 2456 then { id := 2456, group := .weapon, moveable := true }
    else {}
  addUniqueItem _ := false
  getNameByGuid _ := []

/-- A bow with an action id and a value of a script, as one key. -/
def enchantedBow : Item :=
  { id := 2456, attributes :=
    { int := fun k => if k = .actionId then some 1000 else none
      custom := some (CustomAttributeMap.empty.set [107] (.int 7)) } }

theorem unserializeAttr_own_bytes_bow :
    let fresh := newItem porchWorld 2456 0
    let r := unserializeAttr porchWorld (enchantedBow.serializeAttr porchWorld ++ [0]) fresh
    r.ok = true ∧ r.rest = [] ∧ r.serializationCount = 0 ∧ r.item.id = 2456 ∧
      (ReadBack porchWorld r.item enchantedBow ↔ Recovered porchWorld enchantedBow fresh) :=
  unserializeAttr_own_bytes porchWorld enchantedBow _ 0 rfl (.inl rfl) (by
    intro c hc
    cases hc
    decide)

/-- The stream is read to its end and the item comes back. -/
def OwnBytesReadBack (w : World) (i : Item) : Prop :=
  let r := unserializeAttr w (i.serializeAttr w ++ [0]) (newItem w i.id 0)
  r.ok = true ∧ r.rest = [] ∧ r.serializationCount = 0 ∧ ReadBack w r.item i

/-- A door with a description. -/
def signedDoor : Item :=
  { id := 1219, attributes := { str := fun k => if k = .description then some [65] else none } }

/-- A bow with a hit chance that a signed byte does not hold. -/
def luckyBow : Item :=
  { id := 2456, attributes := { int := fun k => if k = .hitChance then some 200 else none } }

/-- A door does not come back with its description, nor the bow with its hit
chance. -/
theorem signedDoor_luckyBow_lost :
    ¬OwnBytesReadBack porchWorld signedDoor ∧ ¬OwnBytesReadBack porchWorld luckyBow := by
  constructor
  · rintro ⟨-, -, -, hback⟩
    have hbytes : signedDoor.serializeAttr porchWorld ++ [0] = 0 :: [] := rfl
    rw [hbytes, unserializeAttr_zero] at hback
    -- nothing was read: the door is still a new one
    have hdesc := hback.str .description
    cases hdesc
  · rintro ⟨-, -, -, hback⟩
    have hnocustom : ∀ c, luckyBow.attributes.custom = some c → c.entries.length < 2 ^ 64 := by
      intro c hc
      cases hc
    rw [unserializeAttr_serializeAttr porchWorld luckyBow (newItem porchWorld luckyBow.id 0) [0]
        rfl hnocustom,
      unserializeAttr_zero] at hback
    have hchance := hback.int .hitChance (by simp) rfl
    have hread : some ((BitVec.setWidth 8 200#32).signExtend 32) = some 200#32 := hchance
    exact absurd hread (by decide)

end Item

end Infernum
