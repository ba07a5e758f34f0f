import Infernum.Item.RoundTrip

/-!
# Which items survive being stored

`reload` is what reading an item's own bytes makes of a newly created item.
`Kept` lists, attribute by attribute, the values that come back unchanged, and
`reload_same_iff` shows that the list is exact. The decay state is apart:
loading turns a decaying item into one that is to be started, and what happens
then depends on the store.
-/

namespace Infernum

open Infernum.Lib

namespace Item

/-! ## Fields of the restored item -/

section

variable (m : Item)

@[simp] theorem setStrAttr_int (k : StrAttr) (v : List UInt8) :
    (m.setStrAttr k v).attributes.int = m.attributes.int := (setStrAttr_other m k v).1
@[simp] theorem setStrAttr_custom (k : StrAttr) (v : List UInt8) :
    (m.setStrAttr k v).attributes.custom = m.attributes.custom := (setStrAttr_other m k v).2.1
@[simp] theorem setStrAttr_count (k : StrAttr) (v : List UInt8) :
    (m.setStrAttr k v).count = m.count := (setStrAttr_other m k v).2.2.1
@[simp] theorem setStrAttr_abilities (k : StrAttr) (v : List UInt8) :
    (m.setStrAttr k v).abilities = m.abilities := (setStrAttr_other m k v).2.2.2

@[simp] theorem putInt_str (k : IntAttr) (v : Option (BitVec 32)) :
    (m.putInt k v).attributes.str = m.attributes.str := (putInt_other m k v).1
@[simp] theorem putInt_custom (k : IntAttr) (v : Option (BitVec 32)) :
    (m.putInt k v).attributes.custom = m.attributes.custom := (putInt_other m k v).2.1
@[simp] theorem putInt_count (k : IntAttr) (v : Option (BitVec 32)) :
    (m.putInt k v).count = m.count := (putInt_other m k v).2.2.1
@[simp] theorem putInt_abilities (k : IntAttr) (v : Option (BitVec 32)) :
    (m.putInt k v).abilities = m.abilities := (putInt_other m k v).2.2.2

theorem putCustom_other (c : Option CustomAttributeMap) :
    (m.putCustom c).attributes.int = m.attributes.int ∧
    (m.putCustom c).attributes.str = m.attributes.str ∧
    (m.putCustom c).count = m.count ∧ (m.putCustom c).abilities = m.abilities ∧
    (m.putCustom c).id = m.id := by
  cases c with
  | none => exact ⟨rfl, rfl, rfl, rfl, rfl⟩
  | some c => exact foldl_setCustomAttribute_other (clipEntries c.entries) m

@[simp] theorem putCustom_int (c : Option CustomAttributeMap) :
    (m.putCustom c).attributes.int = m.attributes.int := (putCustom_other m c).1
@[simp] theorem putCustom_str (c : Option CustomAttributeMap) :
    (m.putCustom c).attributes.str = m.attributes.str := (putCustom_other m c).2.1
@[simp] theorem putCustom_count (c : Option CustomAttributeMap) :
    (m.putCustom c).count = m.count := (putCustom_other m c).2.2.1
@[simp] theorem putCustom_abilities (c : Option CustomAttributeMap) :
    (m.putCustom c).abilities = m.abilities := (putCustom_other m c).2.2.2.1
@[simp] theorem putCustom_id (c : Option CustomAttributeMap) :
    (m.putCustom c).id = m.id := (putCustom_other m c).2.2.2.2

end

/-- A sub-type is stored in the count, the charges or the fluid type. -/
theorem setSubType_cases (w : World) (m : Item) (n : BitVec 16) :
    (m.setSubType w n).attributes.str = m.attributes.str ∧
    (m.setSubType w n).attributes.custom = m.attributes.custom ∧
    (m.setSubType w n).abilities = m.abilities ∧
    ∀ k, k ≠ .charges → k ≠ .fluidType →
      (m.setSubType w n).attributes.int k = m.attributes.int k := by
  have hint : ∀ key v, (key = IntAttr.charges ∨ key = .fluidType) → ∀ k, k ≠ .charges →
      k ≠ .fluidType → (m.setIntAttr key v).attributes.int k = m.attributes.int k := by
    intro key v hkey k h1 h2
    have hne : k ≠ key := by
      rcases hkey with rfl | rfl
      · exact h1
      · exact h2
    simp [setIntAttr, hne]
  unfold setSubType
  split
  · exact ⟨rfl, rfl, rfl, hint .fluidType _ (.inr rfl)⟩
  · split
    · exact ⟨rfl, rfl, rfl, fun _ _ _ => rfl⟩
    · split
      · exact ⟨rfl, rfl, rfl, hint .charges _ (.inl rfl)⟩
      · exact ⟨rfl, rfl, rfl, fun _ _ _ => rfl⟩

theorem restoreSubType_cases (w : World) (i m : Item) :
    (restoreSubType w i m).id = m.id ∧
    (restoreSubType w i m).attributes.str = m.attributes.str ∧
    (restoreSubType w i m).attributes.custom = m.attributes.custom ∧
    (restoreSubType w i m).abilities = m.abilities ∧
    ∀ k, k ≠ .charges → k ≠ .fluidType →
      (restoreSubType w i m).attributes.int k = m.attributes.int k := by
  have step : ∀ (c : Prop) [Decidable c] (m : Item) (n : BitVec 16),
      (if c then m.setSubType w n else m).id = m.id ∧
      (if c then m.setSubType w n else m).attributes.str = m.attributes.str ∧
      (if c then m.setSubType w n else m).attributes.custom = m.attributes.custom ∧
      (if c then m.setSubType w n else m).abilities = m.abilities ∧
      ∀ k, k ≠ .charges → k ≠ .fluidType →
        (if c then m.setSubType w n else m).attributes.int k = m.attributes.int k := by
    intro c _ m n
    split
    · exact ⟨setSubType_id w m n, setSubType_cases w m n⟩
    · exact ⟨rfl, rfl, rfl, rfl, fun _ _ _ => rfl⟩
  obtain ⟨h1, h2, h3, h4, h5⟩ := step ((i.type w).stackable || (i.type w).holdsFluid) m
    (((i.getSubType w).setWidth 8).setWidth 16)
  obtain ⟨g1, g2, g3, g4, g5⟩ := step (i.getCharges ≠ 0)
    (if (i.type w).stackable || (i.type w).holdsFluid then
      m.setSubType w (((i.getSubType w).setWidth 8).setWidth 16) else m) i.getCharges
  exact ⟨g1.trans h1, g2.trans h2, g3.trans h3, g4.trans h4,
    fun k hk hk' => (g5 k hk hk').trans (h5 k hk hk')⟩

/-- The integer attributes that the stream gives back. -/
def restoredInt (w : World) (i : Item) : IntAttr → Option (BitVec 32)
  | .actionId => i.savedActionId w
  | .date => i.savedDate
  | .duration => (i.attributes.int .duration).map clipDuration
  | .decayState => i.savedDecayState
  | .weight => i.attributes.int .weight
  | .attack => i.attributes.int .attack
  | .defense => i.attributes.int .defense
  | .extraDefense => i.attributes.int .extraDefense
  | .armor => i.attributes.int .armor
  | .hitChance => (i.attributes.int .hitChance).map fun v => (v.setWidth 8).signExtend 32
  | .shootRange => (i.attributes.int .shootRange).map fun v => (v.setWidth 8).setWidth 32
  | _ => none

theorem restored_int (w : World) (i m : Item) (k : IntAttr) :
    (restored w i m).attributes.int k =
      (restoredInt w i k).or ((restoreSubType w i m).attributes.int k) := by
  cases k <;> simp [restored, restoredInt, putInt_int]

theorem restored_str (w : World) (i m : Item) (k : StrAttr) :
    (restored w i m).attributes.str k =
      if clipString (i.getStrAttr k) ≠ [] then some (clipString (i.getStrAttr k))
      else m.attributes.str k := by
  have hsub := (restoreSubType_cases w i m).2.1
  cases k <;> simp [restored, setStrAttr_str, hsub]

theorem putCustom_congr (c : Option CustomAttributeMap) {m m' : Item}
    (h : m.attributes.custom = m'.attributes.custom) :
    (m.putCustom c).attributes.custom = (m'.putCustom c).attributes.custom := by
  cases c with
  | none => exact h
  | some c => exact foldl_setCustomAttribute_congr (clipEntries c.entries) h

theorem restored_rest (w : World) (i m : Item) :
    (restored w i m).id = m.id ∧ (restored w i m).abilities = m.abilities ∧
    (restored w i m).count = (restoreSubType w i m).count ∧
    (restored w i m).attributes.custom = (m.putCustom i.attributes.custom).attributes.custom := by
  obtain ⟨hid, _, hcustom, habil, _⟩ := restoreSubType_cases w i m
  refine ⟨?_, ?_, ?_, ?_⟩
  · simp [restored, hid]
  · simp [restored, habil]
  · simp [restored]
  · apply putCustom_congr
    simp [hcustom]

/-! ## Fields of a new item -/

theorem createItem_known {w : World} {id : BitVec 16} (h : (w.itemType id).known)
    (count : BitVec 16) : createItem w id count = some (newItem w id count) := by
  simp only [ItemType.known, Bool.and_eq_true, bne_iff_ne] at h
  rw [createItem, if_neg h.2, if_pos h.1]

/-- What `CreateItem` makes. -/
theorem known_of_createItem {w : World} {id count : BitVec 16} {i : Item}
    (h : createItem w id count = some i) :
    (w.itemType id).known = true ∧ i = newItem w id count := by
  rw [createItem] at h
  split at h
  · cases h
  · rename_i hgroup
    split at h
    · rename_i hid
      refine ⟨?_, (Option.some.inj h).symm⟩
      rw [ItemType.known, Bool.and_eq_true, bne_iff_ne, bne_iff_ne]
      exact ⟨hid, hgroup⟩
    · cases h

theorem constructSubType_rest (w : World) (id count : BitVec 16) :
    (constructSubType w id count).id = id ∧
    (constructSubType w id count).attributes.str = (fun _ => none) ∧
    (constructSubType w id count).attributes.custom = none ∧
    (constructSubType w id count).abilities = (fun _ => none) := by
  unfold constructSubType
  dsimp only
  repeat' split
  all_goals exact ⟨rfl, rfl, rfl, rfl⟩

theorem constructSubType_int (w : World) (id count : BitVec 16) (k : IntAttr) :
    (constructSubType w id count).attributes.int k =
      match k with
      | .fluidType => if (w.itemType id).holdsFluid then some (count.setWidth 32) else none
      | .charges =>
          if (w.itemType id).holdsFluid ∨ (w.itemType id).stackable ∨
              (w.itemType id).charges = 0 then none
          else
            some ((if count ≠ 0 then count else (w.itemType id).charges.setWidth 16).setWidth 32)
      | _ => none := by
  unfold constructSubType
  by_cases hf : (w.itemType id).holdsFluid
  · cases k <;> simp [hf, setFluidType, setIntAttr]
  · by_cases hs : (w.itemType id).stackable
    · by_cases hc : count = 0#16 <;> by_cases hcharges : (w.itemType id).charges = 0#32 <;>
        cases k <;> simp [hf, hs, hc, hcharges, setItemCount]
    · by_cases hcharges : (w.itemType id).charges = 0#32
      · cases k <;> simp [hf, hs, hcharges]
      · by_cases hc : count = 0#16 <;>
          cases k <;> simp [hf, hs, hc, hcharges, setCharges, setIntAttr]

theorem setDefaultDuration_eq (w : World) (m : Item) :
    m.setDefaultDuration w = m.putInt .duration
      (if (m.type w).getDefaultDuration ≠ 0 then some (m.type w).getDefaultDuration else none) := by
  unfold setDefaultDuration
  split
  · rfl
  · rfl

/-- The duration of a new item of the type. -/
def defaultDuration (it : ItemType) : Option (BitVec 32) :=
  if it.getDefaultDuration ≠ 0 then some it.getDefaultDuration else none

theorem construct_int (w : World) (id count : BitVec 16) (k : IntAttr) :
    (construct w id count).attributes.int k =
      if k = .duration then defaultDuration (w.itemType id)
      else (constructSubType w id count).attributes.int k := by
  have hid := (constructSubType_rest w id count).1
  rw [construct, setDefaultDuration_eq, putInt_int]
  by_cases hk : k = .duration
  · subst hk
    rw [if_pos rfl, if_pos rfl, constructSubType_int, Option.or_none, type, hid]
    rfl
  · rw [if_neg hk, if_neg hk]

theorem construct_rest (w : World) (id count : BitVec 16) :
    (construct w id count).id = id ∧ (construct w id count).attributes.str = (fun _ => none) ∧
    (construct w id count).attributes.custom = none ∧
    (construct w id count).abilities = (fun _ => none) ∧
    (construct w id count).count = (constructSubType w id count).count := by
  obtain ⟨h1, h2, h3, h4⟩ := constructSubType_rest w id count
  rw [construct, setDefaultDuration_eq, putInt_id, putInt_str, putInt_custom, putInt_abilities,
    putInt_count]
  exact ⟨h1, h2, h3, h4, rfl⟩

/-- A new item of a class that takes its attributes from the stream is
constructed with the given count or with none. -/
theorem newItem_eq (w : World) (id count : BitVec 16)
    (hclass : (w.itemType id).itemClass ≠ .bed) :
    ∃ c, (c = 0 ∨ c = count ∨ (w.itemType id).stackable) ∧
      newItem w id count = construct w id c := by
  unfold newItem
  split
  · contradiction
  · split
    · rename_i hs
      simp only [Bool.and_eq_true] at hs
      exact ⟨1, .inr (.inr hs.1), rfl⟩
    · exact ⟨count, .inr (.inl rfl), rfl⟩
  · exact ⟨0, .inl rfl, rfl⟩

theorem newItem_rest (w : World) (id count : BitVec 16) :
    (newItem w id count).id = id ∧ (newItem w id count).abilities = fun _ => none := by
  by_cases hbed : (w.itemType id).itemClass = .bed
  · unfold newItem
    rw [hbed]
    obtain ⟨hid, _, _, habil, _⟩ := construct_rest w id 0
    exact ⟨(setStrAttr_id _ _ _).trans hid, (setStrAttr_abilities _ _ _).trans habil⟩
  · obtain ⟨c, _, hc⟩ := newItem_eq w id count hbed
    obtain ⟨hid, _, _, habil, _⟩ := construct_rest w id c
    rw [hc]
    exact ⟨hid, habil⟩

/-- The count of a new stack. -/
theorem count_newItem {w : World} {id count : BitVec 16}
    (hstackable : (w.itemType id).stackable = true)
    (hclass : (w.itemType id).itemClass = .item) (hfluid : (w.itemType id).holdsFluid = false) :
    (newItem w id count).count = (if count = 0 then 1 else count).setWidth 8 := by
  have hcount : newItem w id count = construct w id (if count = 0 then 1 else count) := by
    unfold newItem
    rw [hclass]
    simp only [hstackable, Bool.true_and, beq_iff_eq]
  have hne : (if count = 0 then 1 else count) ≠ 0#16 := by
    split
    · decide
    · assumption
  have hconstruct : ∀ n : BitVec 16, n ≠ 0 →
      constructSubType w id n = setItemCount { id := id } n := by
    intro n hn
    unfold constructSubType
    simp only [hfluid, hstackable, hn, Bool.false_eq_true, if_false, if_true, ne_eq,
      not_false_eq_true]
  rw [hcount, (construct_rest w id _).2.2.2.2, hconstruct _ hne]
  rfl

/-! ## The sub-type -/

/-- The sub-type fields that a stored item gets back: a fluid of one byte; no
charges except on a type that has them; one piece of what does not stack. -/
def KeptSubType (w : World) (i : Item) : Prop :=
  if (i.type w).holdsFluid then
    i.attributes.int .charges = none ∧
      ∃ v, i.attributes.int .fluidType = some v ∧ v.toNat < 256
  else if (i.type w).stackable then
    i.attributes.int .charges = none ∧ i.attributes.int .fluidType = none
  else if (i.type w).charges = 0 then
    i.attributes.int .charges = none ∧ i.attributes.int .fluidType = none ∧ i.count = 1
  else
    i.attributes.int .fluidType = none ∧ ∃ v, i.attributes.int .charges = some v ∧
      v.toNat < 65536 ∧ (v ≠ 0 ∨ (i.type w).charges.setWidth 16 = 0)

/-- Two items whose sub-type fields agree. -/
def SameSubType (w : World) (r i : Item) : Prop :=
  r.attributes.int .charges = i.attributes.int .charges ∧
  r.attributes.int .fluidType = i.attributes.int .fluidType ∧
  r.getSubType w = i.getSubType w

theorem narrow_eq_iff (n : Nat) (hn : n ≤ 32) (v : BitVec 32) :
    (v.setWidth n).setWidth 32 = v ↔ v.toNat < 2 ^ n := by
  rw [← BitVec.toNat_inj, BitVec.toNat_setWidth, BitVec.toNat_setWidth]
  have hle : 2 ^ n ≤ 2 ^ 32 := Nat.pow_le_pow_right (by omega) hn
  have hmod : v.toNat % 2 ^ n % 2 ^ 32 = v.toNat % 2 ^ n :=
    Nat.mod_eq_of_lt (lt_of_lt_of_le (Nat.mod_lt _ (Nat.two_pow_pos n)) hle)
  rw [hmod]
  constructor
  · intro h
    rw [← h]
    exact Nat.mod_lt _ (Nat.two_pow_pos n)
  · intro h
    exact Nat.mod_eq_of_lt h

/-- Charges that are narrow and zero are not there, or there with value zero. -/
theorem getCharges_eq_zero_of_none {i : Item} (h : i.attributes.int .charges = none) :
    i.getCharges = 0 := by
  simp [getCharges, getIntAttr, h]

theorem type_eq {w : World} {m i : Item} (hid : m.id = i.id) : m.type w = i.type w := by
  rw [type, type, hid]

theorem getSubType_eq {w : World} {r i : Item} (hid : r.id = i.id)
    (hcharges : r.attributes.int .charges = i.attributes.int .charges)
    (hfluid : r.attributes.int .fluidType = i.attributes.int .fluidType)
    (hcount : ¬(i.type w).holdsFluid → ((i.type w).stackable ∨ (i.type w).charges = 0) →
      r.count = i.count) : r.getSubType w = i.getSubType w := by
  unfold getSubType getFluidType getCharges getIntAttr
  rw [type_eq hid, hcharges, hfluid]
  split
  · rfl
  · rename_i hf
    split
    · rename_i hs
      rw [hcount hf (.inl hs)]
    · split
      · rfl
      · rename_i hc
        rw [hcount hf (.inr (not_not.mp hc))]

/-- The two writes of the sub-type, once it is known what `setSubType` does. -/
theorem restoreSubType_eq {w : World} {i m : Item} (hid : m.id = i.id)
    (set : Item → BitVec 16 → Item)
    (hset : ∀ m' : Item, m'.id = i.id → ∀ n, m'.setSubType w n = set m' n) :
    restoreSubType w i m =
      let m1 := if (i.type w).stackable || (i.type w).holdsFluid then
        set m (((i.getSubType w).setWidth 8).setWidth 16) else m
      if i.getCharges ≠ 0 then set m1 i.getCharges else m1 := by
  have hid1 : (if (i.type w).stackable || (i.type w).holdsFluid then
      m.setSubType w (((i.getSubType w).setWidth 8).setWidth 16) else m).id = i.id := by
    split
    · rw [setSubType_id, hid]
    · exact hid
  unfold restoreSubType
  dsimp only
  rw [hset _ hid1, hset m hid]

section

variable {w : World} {i m : Item} (hid : m.id = i.id)
include hid

theorem restoreSubType_fluid (hf : (i.type w).holdsFluid)
    (hcharges : m.attributes.int .charges = none) :
    SameSubType w (restoreSubType w i m) i ↔ KeptSubType w i := by
  have hr := restoreSubType_eq hid setFluidType fun m' hm' n => by
    rw [setSubType, type_eq hm', if_pos hf]
  have hrid := (restoreSubType_cases w i m).1
  have hsub : i.getSubType w = i.getFluidType := by rw [getSubType, if_pos hf]
  rw [KeptSubType, if_pos hf]
  simp only [hf, Bool.or_true, if_true, hsub] at hr
  constructor
  · rintro ⟨h1, h2, _⟩
    have hnone : i.attributes.int .charges = none := by
      rw [← h1, hr]
      split <;> simpa [setFluidType, setIntAttr] using hcharges
    rw [hr, getCharges_eq_zero_of_none hnone] at h2
    refine ⟨hnone, (((i.getFluidType.setWidth 8).setWidth 16).setWidth 32), ?_, ?_⟩
    · rw [← h2]
      simp [setFluidType, setIntAttr]
    · simp
      omega
  · rintro ⟨hnone, v, hv, hlt⟩
    have hnarrow : ((i.getFluidType.setWidth 8).setWidth 16).setWidth 32 = v := by
      apply BitVec.eq_of_toNat_eq
      simp only [getFluidType, getIntAttr, hv, Option.getD_some, BitVec.toNat_setWidth]
      omega
    rw [getCharges_eq_zero_of_none hnone] at hr
    have h1 : (restoreSubType w i m).attributes.int .charges = i.attributes.int .charges := by
      rw [hr, hnone]
      simpa [setFluidType, setIntAttr] using hcharges
    have h2 : (restoreSubType w i m).attributes.int .fluidType = i.attributes.int .fluidType := by
      rw [hr, hv, ← hnarrow]
      simp [setFluidType, setIntAttr]
    exact ⟨h1, h2, getSubType_eq (hrid.trans hid) h1 h2 fun hno => absurd hf hno⟩

/-- Where `setSubType` sets the count, the two writes leave the attributes alone. -/
theorem restoreSubType_int
    (hset : ∀ m' : Item, m'.id = i.id → ∀ n, m'.setSubType w n = m'.setItemCount n) :
    (restoreSubType w i m).attributes.int = m.attributes.int := by
  rw [restoreSubType_eq hid setItemCount hset]
  dsimp only
  split <;> split <;> rfl

theorem restoreSubType_stackable (hf : ¬(i.type w).holdsFluid) (hs : (i.type w).stackable)
    (hcharges : m.attributes.int .charges = none)
    (hfluid : m.attributes.int .fluidType = none) :
    SameSubType w (restoreSubType w i m) i ↔ KeptSubType w i := by
  have hset : ∀ m' : Item, m'.id = i.id → ∀ n, m'.setSubType w n = m'.setItemCount n := by
    intro m' hm' n
    rw [setSubType, type_eq hm', if_neg hf, if_pos hs]
  have hr := restoreSubType_eq hid setItemCount hset
  have hint := restoreSubType_int hid hset
  have hrid := (restoreSubType_cases w i m).1
  have hsub : i.getSubType w = i.count.setWidth 16 := by rw [getSubType, if_neg hf, if_pos hs]
  rw [KeptSubType, if_neg hf, if_pos hs]
  simp only [hs, Bool.true_or, if_true, hsub] at hr
  constructor
  · rintro ⟨h1, h2, _⟩
    rw [hint] at h1 h2
    exact ⟨h1.symm.trans hcharges, h2.symm.trans hfluid⟩
  · rintro ⟨hnone, hnone'⟩
    rw [getCharges_eq_zero_of_none hnone] at hr
    have h1 : (restoreSubType w i m).attributes.int .charges = i.attributes.int .charges := by
      rw [hint, hcharges, hnone]
    have h2 : (restoreSubType w i m).attributes.int .fluidType = i.attributes.int .fluidType := by
      rw [hint, hfluid, hnone']
    refine ⟨h1, h2, getSubType_eq (hrid.trans hid) h1 h2 fun _ _ => ?_⟩
    rw [hr]
    apply BitVec.eq_of_toNat_eq
    simp [setItemCount]

theorem restoreSubType_plain (hf : ¬(i.type w).holdsFluid) (hs : ¬(i.type w).stackable)
    (hc : (i.type w).charges = 0) (hcharges : m.attributes.int .charges = none)
    (hfluid : m.attributes.int .fluidType = none) (hcount : m.count = 1) :
    SameSubType w (restoreSubType w i m) i ↔ KeptSubType w i := by
  have hset : ∀ m' : Item, m'.id = i.id → ∀ n, m'.setSubType w n = m'.setItemCount n := by
    intro m' hm' n
    rw [setSubType, type_eq hm', if_neg hf, if_neg hs, if_neg (not_not.mpr hc)]
  have hr := restoreSubType_eq hid setItemCount hset
  have hint := restoreSubType_int hid hset
  have hrid := (restoreSubType_cases w i m).1
  have hsub : ∀ m' : Item, m'.id = i.id → m'.getSubType w = m'.count.setWidth 16 := by
    intro m' hm'
    rw [getSubType, type_eq hm', if_neg hf, if_neg hs, if_neg (not_not.mpr hc)]
  rw [KeptSubType, if_neg hf, if_neg hs, if_pos hc]
  simp only [hs, hf, Bool.or_self, Bool.false_eq_true, if_false] at hr
  constructor
  · rintro ⟨h1, h2, h3⟩
    rw [hint] at h1 h2
    have hnone : i.attributes.int .charges = none := h1.symm.trans hcharges
    rw [getCharges_eq_zero_of_none hnone] at hr
    refine ⟨hnone, h2.symm.trans hfluid, ?_⟩
    rw [hsub _ (hrid.trans hid), hsub i rfl, hr] at h3
    apply BitVec.eq_of_toNat_eq
    have h4 := congrArg BitVec.toNat h3
    simp [hcount] at h4
    simp
    omega
  · rintro ⟨hnone, hnone', hone⟩
    rw [getCharges_eq_zero_of_none hnone] at hr
    have h1 : (restoreSubType w i m).attributes.int .charges = i.attributes.int .charges := by
      rw [hint, hcharges, hnone]
    have h2 : (restoreSubType w i m).attributes.int .fluidType = i.attributes.int .fluidType := by
      rw [hint, hfluid, hnone']
    refine ⟨h1, h2, getSubType_eq (hrid.trans hid) h1 h2 fun _ _ => ?_⟩
    rw [hr, hone]
    exact hcount

theorem restoreSubType_charges (hf : ¬(i.type w).holdsFluid) (hs : ¬(i.type w).stackable)
    (hc : (i.type w).charges ≠ 0)
    (hcharges : i.getCharges = 0 → m.attributes.int .charges =
      some (((i.type w).charges.setWidth 16).setWidth 32))
    (hfluid : m.attributes.int .fluidType = none) :
    SameSubType w (restoreSubType w i m) i ↔ KeptSubType w i := by
  have hset : ∀ m' : Item, m'.id = i.id → ∀ n, m'.setSubType w n = m'.setCharges n := by
    intro m' hm' n
    rw [setSubType, type_eq hm', if_neg hf, if_neg hs, if_pos hc]
  have hr := restoreSubType_eq hid setCharges hset
  have hrid := (restoreSubType_cases w i m).1
  simp only [hs, hf, Bool.or_self, Bool.false_eq_true, if_false] at hr
  have hrfluid : (restoreSubType w i m).attributes.int .fluidType = none := by
    rw [hr]
    split <;> simpa [setCharges, setIntAttr] using hfluid
  have hrcharges : (restoreSubType w i m).attributes.int .charges = some
      (if i.getCharges ≠ 0 then i.getCharges.setWidth 32
        else ((i.type w).charges.setWidth 16).setWidth 32) := by
    rw [hr]
    split
    · simp [setCharges, setIntAttr]
    · rename_i h
      exact hcharges (not_not.mp h)
  rw [KeptSubType, if_neg hf, if_neg hs, if_neg hc]
  constructor
  · rintro ⟨h1, h2, _⟩
    refine ⟨h2.symm.trans hrfluid, _, h1.symm.trans hrcharges, ?_⟩
    have hval : i.getCharges = (if i.getCharges ≠ 0 then i.getCharges.setWidth 32
        else ((i.type w).charges.setWidth 16).setWidth 32).setWidth 16 := by
      rw [hrcharges] at h1
      conv_lhs => rw [getCharges, getIntAttr, ← h1]
      rfl
    split
    · rename_i hne
      refine ⟨by simp; omega, .inl fun hzero => hne ?_⟩
      rw [if_pos hne, hzero] at hval
      rw [hval]
      rfl
    · rename_i hzero
      rw [if_neg hzero] at hval
      refine ⟨by simp; omega, .inr ?_⟩
      rw [not_not.mp hzero] at hval
      apply BitVec.eq_of_toNat_eq
      have := congrArg BitVec.toNat hval
      simp at this ⊢
      omega
  · rintro ⟨hnone, v, hv, hlt, hpos⟩
    have hnarrow : (v.setWidth 16).setWidth 32 = v := (narrow_eq_iff 16 (by omega) v).mpr hlt
    have hget : i.getCharges = v.setWidth 16 := by
      rw [getCharges, getIntAttr, hv]
      rfl
    have h1 : (restoreSubType w i m).attributes.int .charges = i.attributes.int .charges := by
      rw [hrcharges, hv, hget]
      split
      · rw [hnarrow]
      · rename_i hzero
        rw [not_not] at hzero
        have hvz : v = 0 := by rw [← hnarrow, hzero]; rfl
        rcases hpos with h | h
        · exact absurd hvz h
        · rw [h, hvz]
          rfl
    have h2 : (restoreSubType w i m).attributes.int .fluidType = i.attributes.int .fluidType := by
      rw [hrfluid, hnone]
    exact ⟨h1, h2, getSubType_eq (hrid.trans hid) h1 h2 fun _ hor =>
      hor.elim (fun h => absurd h hs) (fun h => absurd h hc)⟩

end

/-- The sub-type of a new item, after the stored one has been read into it. -/
theorem restoreSubType_same_iff (w : World) (i : Item) (c : BitVec 16)
    (hc : c = 0 ∨ c = i.getSubType w ∨ (i.type w).stackable) :
    SameSubType w (restoreSubType w i (construct w i.id c)) i ↔ KeptSubType w i := by
  obtain ⟨hid, _, _, _, hcount⟩ := construct_rest w i.id c
  have hcharges := construct_int w i.id c .charges
  have hfluid := construct_int w i.id c .fluidType
  rw [if_neg (by simp), constructSubType_int] at hcharges hfluid
  dsimp only at hcharges hfluid
  by_cases hf : (i.type w).holdsFluid
  · exact restoreSubType_fluid hid hf (hcharges.trans (if_pos (.inl hf)))
  have hfluid' : (construct w i.id c).attributes.int .fluidType = none := hfluid.trans (if_neg hf)
  by_cases hs : (i.type w).stackable
  · exact restoreSubType_stackable hid hf hs (hcharges.trans (if_pos (.inr (.inl hs)))) hfluid'
  by_cases hz : (i.type w).charges = 0
  · refine restoreSubType_plain hid hf hs hz (hcharges.trans (if_pos (.inr (.inr hz)))) hfluid' ?_
    rw [hcount, constructSubType]
    rw [type] at hf hs hz
    simp only [hf, hs, hz, ne_eq, not_true_eq_false, Bool.false_eq_true, if_false]
  · refine restoreSubType_charges hid hf hs hz (fun hget => ?_) hfluid'
    have hno : ¬((w.itemType i.id).holdsFluid ∨ (w.itemType i.id).stackable ∨
        (w.itemType i.id).charges = 0) := by
      rintro (h | h | h)
      · exact hf h
      · exact hs h
      · exact hz h
    -- the item has no charges, so it was created with the default of its type
    have hc0 : c = 0 := by
      rcases hc with h | h | h
      · exact h
      · rw [h, getSubType, if_neg hf, if_neg hs, if_pos hz, hget]
      · exact absurd h hs
    rw [hcharges, if_neg hno, hc0, if_neg (not_not.mpr rfl)]
    rfl

/-! ## All attributes -/

/-- The attributes that are never stored. -/
def unsavedAttrs : List IntAttr := [.uniqueId, .owner, .corpseOwner, .doorId]

/-- The stored attributes have values that come back. -/
structure KeptWritten (w : World) (i : Item) : Prop where
  subType : KeptSubType w i
  /-- action ids are 100 and up, and stored for moveable items only -/
  actionId : ∀ v, i.attributes.int .actionId = some v →
    (i.type w).moveable ∧ 100 ≤ v.toNat ∧ v.toNat < 65536
  date : i.attributes.int .date ≠ some 0
  duration : match i.attributes.int .duration with
    | some v => v.msb = false
    | none => defaultDuration (i.type w) = none
  hitChance : ∀ v, i.attributes.int .hitChance = some v → (v.setWidth 8).signExtend 32 = v
  shootRange : ∀ v, i.attributes.int .shootRange = some v → v.toNat < 256
  str : ∀ k v, i.attributes.str k = some v → v ≠ [] ∧ v.length ≤ 65535
  custom : ∀ c, i.attributes.custom = some c →
    c.entries ≠ [] ∧ ∀ e ∈ c.entries, e.1.length ≤ 65535 ∧ CustomAttribute.Fits e.2

/-- All attributes of the item come back: there are none that are not stored. -/
structure Kept (w : World) (i : Item) : Prop extends KeptWritten w i where
  unsaved : ∀ k ∈ unsavedAttrs, i.attributes.int k = none

/-- Items that agree in sub-type and the stored attributes, the decay state
apart. -/
structure SameWritten (w : World) (r i : Item) : Prop where
  subType : SameSubType w r i
  int : ∀ k, k ≠ .decayState → k ∉ unsavedAttrs → r.attributes.int k = i.attributes.int k
  str : ∀ k, r.attributes.str k = i.attributes.str k
  custom : r.attributes.custom = i.attributes.custom

/-- Items that agree in sub-type and attributes, the decay state apart. -/
structure SameAttributes (w : World) (r i : Item) : Prop where
  subType : SameSubType w r i
  int : ∀ k, k ≠ .decayState → r.attributes.int k = i.attributes.int k
  str : ∀ k, r.attributes.str k = i.attributes.str k
  custom : r.attributes.custom = i.attributes.custom

/-- Custom attributes come back exactly if there are some and all of them are
short enough. -/
theorem putCustom_eq_iff (i m : Item) (hm : m.attributes.custom = none) :
    (m.putCustom i.attributes.custom).attributes.custom = i.attributes.custom ↔
      ∀ c, i.attributes.custom = some c →
        c.entries ≠ [] ∧ ∀ e ∈ c.entries, e.1.length ≤ 65535 ∧ CustomAttribute.Fits e.2 := by
  cases hc : i.attributes.custom with
  | none => simp [putCustom, hm]
  | some c =>
      constructor
      · intro h c' hc'
        obtain rfl := Option.some.inj hc'
        refine ⟨fun hnil => ?_, ?_⟩
        · simp [putCustom, hnil, clipEntries, hm] at h
        · refine foldl_setCustomAttribute_forall
            (fun e => e.1.length ≤ 65535 ∧ CustomAttribute.Fits e.2) (clipEntries c.entries) m
            (fun e he => ?_) (by simp [hm]) c h
          obtain ⟨e', _, rfl⟩ := List.mem_map.mp he
          refine ⟨?_, CustomAttribute.fits_clip e'.2⟩
          change ((clipString e'.1).map toLower).length ≤ 65535
          rw [List.length_map, clipString]
          split
          · simp
          · omega
      · intro h
        obtain ⟨hne, hfits⟩ := h c rfl
        have hclip : clipEntries c.entries = c.entries := by
          rw [clipEntries]
          conv_rhs => rw [← List.map_id c.entries]
          refine List.map_congr_left fun e he => ?_
          rw [clipString_eq_self.mpr (hfits e he).1, CustomAttribute.clip_eq_self (hfits e he).2]
          rfl
        -- the first entry makes the map, the others are appended to it
        obtain ⟨e, rest, hentries⟩ := List.exists_cons_of_ne_nil hne
        have hfirst : (CustomAttributeMap.empty.set e.1 e.2).entries = [e] := by
          have hkey := c.lower e (by rw [hentries]; simp)
          simp [CustomAttributeMap.set, CustomAttributeMap.empty, hkey]
        obtain ⟨c', hc', hall⟩ := foldl_setCustomAttribute_fresh rest
          (m.setCustomAttribute e.1 e.2) (CustomAttributeMap.empty.set e.1 e.2)
          (by simp [setCustomAttribute, hm])
          (by rw [hfirst, List.singleton_append, ← hentries]; exact c.nodup)
          (fun x hx => c.lower x (by rw [hentries]; simp [hx]))
        rw [putCustom, hclip, hentries, List.foldl_cons, hc']
        congr 1
        apply CustomAttributeMap.ext
        rw [hall, hfirst, hentries, List.singleton_append]

theorem restored_sameSubType_iff (w : World) (i m : Item) :
    SameSubType w (restored w i m) i ↔ SameSubType w (restoreSubType w i m) i := by
  obtain ⟨hid, _, hcount, _⟩ := restored_rest w i m
  have hcharges : (restored w i m).attributes.int .charges =
      (restoreSubType w i m).attributes.int .charges := restored_int w i m .charges
  have hfluid : (restored w i m).attributes.int .fluidType =
      (restoreSubType w i m).attributes.int .fluidType := restored_int w i m .fluidType
  have hsub : (restored w i m).getSubType w = (restoreSubType w i m).getSubType w :=
    getSubType_eq (hid.trans (restoreSubType_cases w i m).1.symm) hcharges hfluid
      fun _ _ => hcount
  rw [SameSubType, SameSubType, hcharges, hfluid, hsub]

/-- An integer attribute of a new item after the stored ones have been read,
the sub-type and the duration apart. -/
theorem restored_construct_int (w : World) (i : Item) (c : BitVec 16) {k : IntAttr}
    (hk : k ≠ .charges) (hk' : k ≠ .fluidType) :
    (restored w i (construct w i.id c)).attributes.int k =
      (restoredInt w i k).or (if k = .duration then defaultDuration (i.type w) else none) := by
  rw [restored_int, (restoreSubType_cases w i (construct w i.id c)).2.2.2.2 k hk hk',
    construct_int]
  congr 1
  split
  · rfl
  · rw [constructSubType_int]
    cases k <;> first | rfl | contradiction

theorem savedActionId_eq_iff (w : World) (i : Item) :
    i.savedActionId w = i.attributes.int .actionId ↔
      ∀ v, i.attributes.int .actionId = some v →
        (i.type w).moveable ∧ 100 ≤ v.toNat ∧ v.toNat < 65536 := by
  unfold savedActionId getActionId getIntAttr
  cases hv : i.attributes.int .actionId with
  | none => simp
  | some v =>
      simp only [Option.getD_some, Option.some.injEq]
      have hlow : (v.setWidth 16).toNat = v.toNat % 65536 := BitVec.toNat_setWidth 16 v
      have hlt : v.setWidth 16 < 100 ↔ v.toNat % 65536 < 100 := by
        rw [BitVec.lt_def, hlow]
        rfl
      have hzero : v.setWidth 16 = 0 ↔ v.toNat % 65536 = 0 := by
        rw [← BitVec.toNat_inj, hlow]
        rfl
      constructor
      · rintro h u rfl
        split at h
        · rename_i hmove
          refine ⟨hmove.1, ?_⟩
          rw [Option.some.injEq] at h
          split at h
          · rw [← h]
            decide
          · rename_i hge
            rw [hlt] at hge
            have := (narrow_eq_iff 16 (by omega) v).mp h
            omega
        · simp at h
      · intro h
        obtain ⟨hmove, hge, hub⟩ := h v rfl
        rw [if_pos ⟨hmove, by rw [ne_eq, hzero]; omega⟩, if_neg (by rw [hlt]; omega),
          (narrow_eq_iff 16 (by omega) v).mpr hub]

theorem savedDate_eq_iff (i : Item) :
    i.savedDate = i.attributes.int .date ↔ i.attributes.int .date ≠ some 0 := by
  unfold savedDate getIntAttr
  cases hv : i.attributes.int .date with
  | none => simp
  | some v => by_cases hz : v = 0 <;> simp [hz]

theorem savedDuration_eq_iff (it : ItemType) (d : Option (BitVec 32)) :
    (d.map clipDuration).or (defaultDuration it) = d ↔
      match d with
      | some v => v.msb = false
      | none => defaultDuration it = none := by
  cases d with
  | none => simp
  | some v =>
      simp only [Option.map_some, Option.some_or, Option.some.injEq, clipDuration]
      cases hm : v.msb with
      | false => simp
      | true =>
          have hne : v ≠ 0 := by
            rintro rfl
            simp at hm
          simpa using Ne.symm hne

theorem map_eq_self_iff {f : BitVec 32 → BitVec 32} (d : Option (BitVec 32)) :
    d.map f = d ↔ ∀ v, d = some v → f v = v := by
  cases d with
  | none => simp
  | some v => simp

theorem restored_str_iff (w : World) (i m : Item) (hm : m.attributes.str = fun _ => none) :
    (∀ k, (restored w i m).attributes.str k = i.attributes.str k) ↔
      ∀ k v, i.attributes.str k = some v → v ≠ [] ∧ v.length ≤ 65535 := by
  refine forall_congr' fun k => ?_
  rw [restored_str, hm, getStrAttr]
  cases hv : i.attributes.str k with
  | none => simp [clipString]
  | some v =>
      rw [Option.getD_some]
      constructor
      · rintro h u ⟨⟩
        split at h
        · rename_i hne
          rw [Option.some.injEq] at h
          rw [h] at hne
          exact ⟨hne, clipString_eq_self.mp h⟩
        · simp at h
      · intro h
        obtain ⟨hne, hlen⟩ := h v rfl
        rw [clipString_eq_self.mpr hlen, if_pos hne]

/-- `KeptWritten` is exact for the items whose class stores attributes. -/
theorem restored_written_iff (w : World) (i : Item) (c : BitVec 16)
    (hc : c = 0 ∨ c = i.getSubType w ∨ (i.type w).stackable) :
    SameWritten w (restored w i (construct w i.id c)) i ↔ KeptWritten w i := by
  obtain ⟨_, hstr, hcustom, _, _⟩ := construct_rest w i.id c
  have hsub := (restored_sameSubType_iff w i (construct w i.id c)).trans
    (restoreSubType_same_iff w i c hc)
  have hint := @restored_construct_int w i c
  have hcust := putCustom_eq_iff i (construct w i.id c) hcustom
  rw [← (restored_rest w i (construct w i.id c)).2.2.2] at hcust
  constructor
  · intro h
    have hk : ∀ k, k ≠ .decayState → k ∉ unsavedAttrs → k ≠ .charges → k ≠ .fluidType →
        (restoredInt w i k).or (if k = .duration then defaultDuration (i.type w) else none) =
          i.attributes.int k := fun k h0 h1 h2 h3 => (hint h2 h3).symm.trans (h.int k h0 h1)
    refine ⟨hsub.mp h.subType, (savedActionId_eq_iff w i).mp ?_, (savedDate_eq_iff i).mp ?_,
      (savedDuration_eq_iff (i.type w) _).mp ?_, (map_eq_self_iff _).mp ?_, ?_,
      (restored_str_iff w i _ hstr).mp h.str, hcust.mp h.custom⟩
    · simpa [restoredInt, unsavedAttrs] using hk .actionId
    · simpa [restoredInt, unsavedAttrs] using hk .date
    · simpa [restoredInt, unsavedAttrs] using hk .duration
    · simpa [restoredInt, unsavedAttrs] using hk .hitChance
    · have hshoot := hk .shootRange (by simp) (by simp [unsavedAttrs]) (by simp) (by simp)
      simp only [restoredInt, reduceCtorEq, if_false, Option.or_none] at hshoot
      intro v hv
      exact (narrow_eq_iff 8 (by omega) v).mp ((map_eq_self_iff _).mp hshoot v hv)
  · intro h
    refine ⟨hsub.mpr h.subType, fun k hdecay hsaved => ?_, (restored_str_iff w i _ hstr).mpr h.str,
      hcust.mpr h.custom⟩
    by_cases h2 : k = .charges
    · subst h2
      exact (hsub.mpr h.subType).1
    by_cases h3 : k = .fluidType
    · subst h3
      exact (hsub.mpr h.subType).2.1
    rw [hint h2 h3]
    cases k with
    | actionId => simpa [restoredInt] using (savedActionId_eq_iff w i).mpr h.actionId
    | date => simpa [restoredInt] using (savedDate_eq_iff i).mpr h.date
    | duration => simpa [restoredInt] using (savedDuration_eq_iff (i.type w) _).mpr h.duration
    | hitChance => simpa [restoredInt] using (map_eq_self_iff _).mpr h.hitChance
    | shootRange =>
        simp only [restoredInt, reduceCtorEq, if_false, Option.or_none]
        exact (map_eq_self_iff _).mpr fun v hv =>
          (narrow_eq_iff 8 (by omega) v).mpr (h.shootRange v hv)
    | uniqueId | owner | corpseOwner | doorId => exact absurd (by simp [unsavedAttrs]) hsaved
    | weight | attack | defense | extraDefense | armor => simp [restoredInt]
    | decayState => exact absurd rfl hdecay
    | charges => exact absurd rfl h2
    | fluidType => exact absurd rfl h3

/-- What is not stored is not there in a restored item. -/
theorem restored_unsaved (w : World) (i : Item) (c : BitVec 16) (k : IntAttr)
    (hk : k ∈ unsavedAttrs) : (restored w i (construct w i.id c)).attributes.int k = none := by
  simp only [unsavedAttrs, List.mem_cons, List.not_mem_nil, or_false] at hk
  rcases hk with rfl | rfl | rfl | rfl <;>
    exact restored_construct_int w i c (by decide) (by decide)

/-- `Kept` is exact for the items whose class stores attributes. -/
theorem restored_same_iff (w : World) (i : Item) (c : BitVec 16)
    (hc : c = 0 ∨ c = i.getSubType w ∨ (i.type w).stackable) :
    SameAttributes w (restored w i (construct w i.id c)) i ↔ Kept w i := by
  have hwritten := restored_written_iff w i c hc
  constructor
  · intro h
    refine ⟨hwritten.mp ⟨h.subType, fun k hk _ => h.int k hk, h.str, h.custom⟩, fun k hk => ?_⟩
    have hne : k ≠ .decayState := by
      rintro rfl
      exact absurd hk (by decide)
    rw [← h.int k hne, restored_unsaved w i c k hk]
  · intro h
    obtain ⟨hsub, hint, hstr, hcustom⟩ := hwritten.mpr h.toKeptWritten
    refine ⟨hsub, fun k hk => ?_, hstr, hcustom⟩
    by_cases hmem : k ∈ unsavedAttrs
    · rw [restored_unsaved w i c k hmem, h.unsaved k hmem]
    · exact hint k hk hmem

/-! ## Every class -/

/-- `BedItem::readAttr` on what `BedItem::serializeAttr` wrote. -/
def restoreSleeper (w : World) (i m : Item) : Item :=
  let m := if i.sleeperGUID ≠ 0 then m.setSleeper w i.sleeperGUID else m
  if i.sleepStart ≠ 0 then { m with sleepStart := (i.sleepStart.setWidth 32).setWidth 64 } else m

/-- What `unserializeAttr` makes of `m` on the bytes of `i`. -/
def reload (w : World) (i m : Item) : Item :=
  match (i.type w).itemClass with
  | .door => m
  | .bed => restoreSleeper w i m
  | .teleport => { restored w i m with destPos := i.destPos }
  | _ => restored w i m

/-- Reading attributes keeps the id and the abilities. -/
theorem reload_rest (w : World) (i m : Item) :
    (reload w i m).id = m.id ∧ (reload w i m).abilities = m.abilities := by
  obtain ⟨hid, habil, _⟩ := restored_rest w i m
  unfold reload
  split
  · exact ⟨rfl, rfl⟩
  · unfold restoreSleeper setSleeper
    repeat' split
    all_goals first
      | exact ⟨rfl, rfl⟩
      | exact ⟨setStrAttr_id _ _ _, setStrAttr_abilities _ _ _⟩
  · exact ⟨hid, habil⟩
  · exact ⟨hid, habil⟩

theorem unserializeAttr_writeSleeper (w : World) (i m : Item) (rest : List UInt8)
    (hbed : (m.type w).itemClass = .bed) :
    unserializeAttr w (i.writeSleeper ++ rest) m =
      unserializeAttr w rest (restoreSleeper w i m) := by
  have hguid : readAttr w .sleeperGuid (encodeLE 4 i.sleeperGUID.toNat ++
      ((if i.sleepStart ≠ 0 then
        writeAttr .sleepStart (encodeLE 4 (i.sleepStart.setWidth 32).toNat) else []) ++ rest)) m =
      (.continue, m.setSleeper w i.sleeperGUID, (if i.sleepStart ≠ 0 then
        writeAttr .sleepStart (encodeLE 4 (i.sleepStart.setWidth 32).toNat) else []) ++ rest) := by
    simp [readAttr, readNumber, ofNat_mod_32, hbed]
  have hstart : ∀ m' : Item, (m'.type w).itemClass = .bed →
      readAttr w .sleepStart (encodeLE 4 (i.sleepStart.setWidth 32).toNat ++ rest) m' =
        (.continue, { m' with sleepStart := (i.sleepStart.setWidth 32).setWidth 64 }, rest) := by
    intro m' hm'
    have hval : BitVec.ofNat 64 (i.sleepStart.toNat % 2 ^ 32 % 256 ^ 4) =
        (i.sleepStart.setWidth 32).setWidth 64 := by
      apply BitVec.eq_of_toNat_eq
      simp
    simp only [readAttr, readNumber, hm', if_true, readLE_encodeLE, BitVec.toNat_setWidth, hval]
  have hid : ∀ g, (m.setSleeper w g).id = m.id := by
    intro g
    unfold setSleeper
    split
    · exact setStrAttr_id m .description _
    · rfl
  unfold writeSleeper restoreSleeper
  rw [List.append_assoc, unserializeAttr_optional w hguid]
  refine (unserializeAttr_optional w (hstart _ ?_)).trans rfl
  split
  · rw [type_eq (hid _)]
    exact hbed
  · exact hbed

theorem unserializeAttr_writeDestination (w : World) (i m : Item) (rest : List UInt8)
    (hclass : (m.type w).itemClass = .teleport) :
    unserializeAttr w (i.writeDestination ++ rest) m =
      unserializeAttr w rest { m with destPos := i.destPos } := by
  unfold writeDestination
  apply unserializeAttr_write
  simp [readAttr, readDestination, hclass, ofNat_mod_16, ofNat_mod_8]

/-- Reading an item's own bytes into an item of the same type. -/
theorem unserializeAttr_serializeAttr (w : World) (i m : Item) (rest : List UInt8)
    (hid : m.id = i.id)
    (hsize : ∀ c, i.attributes.custom = some c → c.entries.length < 2 ^ 64) :
    unserializeAttr w (i.serializeAttr w ++ rest) m = unserializeAttr w rest (reload w i m) := by
  have hrid := (restored_rest w i m).1
  unfold serializeAttr reload
  cases hclass : (i.type w).itemClass with
  | door => rfl
  | bed =>
      refine unserializeAttr_writeSleeper w i m rest ?_
      rw [type_eq hid, hclass]
  | teleport =>
      rw [List.append_assoc, unserializeAttr_serializeItemAttr w i m _ hsize]
      refine unserializeAttr_writeDestination w i _ rest ?_
      rw [type_eq (hrid.trans hid), hclass]
  | depotLocker | container | magicField | trashHolder | mailbox | item =>
      exact unserializeAttr_serializeItemAttr w i m rest hsize

/-! ## Abilities -/

/-- The bytes of the abilities from a list of codes. -/
def abilityBytes (i : Item) (codes : List (Fin 53)) : List UInt8 :=
  codes.flatMap fun a =>
    match i.abilities a with
    | some value => UInt8.ofNat (a + 1) :: encodeLE 8 value.toNat
    | none => []

theorem unserializeAbility_abilityBytes (i m : Item) (codes : List (Fin 53))
    (rest : List UInt8) :
    unserializeAbility (i.abilityBytes codes ++ rest) m =
      unserializeAbility rest (codes.foldl (fun m a =>
        match i.abilities a with
        | some value => m.setAbilityInt a value
        | none => m) m) := by
  induction codes generalizing m with
  | nil => rfl
  | cons a codes ih =>
      rw [abilityBytes, List.flatMap_cons, List.append_assoc, List.foldl_cons, ← ih]
      cases hv : i.abilities a with
      | none => rfl
      | some value =>
          have hcode : (UInt8.ofNat (a + 1)).toNat = a + 1 := by
            have := a.isLt
            simp
            omega
          rw [List.cons_append, unserializeAbility, hcode, if_neg (by omega),
            dif_pos (by have := a.isLt; omega)]
          simp only [readLE_encodeLE, Nat.add_sub_cancel, Fin.eta]
          rw [show value.toNat % 256 ^ 8 = value.toNat from Nat.mod_eq_of_lt value.isLt,
            BitVec.ofNat_toNat, BitVec.setWidth_eq]
          rfl

/-- A run over some codes sets the abilities that the item has, and leaves the others. -/
theorem foldl_setAbilityInt (i m : Item) (codes : List (Fin 53)) (a : Fin 53) :
    let after := codes.foldl (fun m a => (i.abilities a).elim m (m.setAbilityInt a)) m
    after.abilities a = m.abilities a ∧ a ∉ codes ∨
      after.abilities a = (i.abilities a).or (m.abilities a) := by
  intro after
  induction codes generalizing m with
  | nil => exact .inl ⟨rfl, List.not_mem_nil⟩
  | cons b codes ih =>
      have hstep : ((i.abilities b).elim m (m.setAbilityInt b)).abilities a =
          if a = b then (i.abilities a).or (m.abilities a) else m.abilities a := by
        by_cases hab : a = b
        · subst hab
          cases hv : i.abilities a with
          | none => simp
          | some value => simp [setAbilityInt]
        · cases hv : i.abilities b with
          | none => simp [hab]
          | some value => simp [setAbilityInt, hab]
      rcases ih ((i.abilities b).elim m (m.setAbilityInt b)) with ⟨hsame, hnot⟩ | hset
      · rw [hstep] at hsame
        by_cases hab : a = b
        · rw [if_pos hab] at hsame
          exact .inr hsame
        · rw [if_neg hab] at hsame
          exact .inl ⟨hsame, by simp [hab, hnot]⟩
      · refine .inr (hset.trans ?_)
        rw [hstep]
        cases i.abilities a <;> simp

/-- Setting abilities touches nothing else. -/
theorem unserializeAbility_other (s : List UInt8) (m : Item) :
    ∃ abilities, (unserializeAbility s m).1 = { m with abilities := abilities } := by
  induction s, m using unserializeAbility.induct with
  | case1 m => exact ⟨m.abilities, by rw [unserializeAbility]⟩
  | case2 m code s h => exact ⟨m.abilities, by rw [unserializeAbility, if_pos h]⟩
  | case3 m code s h h53 r value hr ih =>
      obtain ⟨abilities, heq⟩ := ih
      refine ⟨abilities, ?_⟩
      rw [unserializeAbility, if_neg h, dif_pos h53]
      simp only [r] at hr heq
      simp only [hr, heq]
      rfl
  | case4 m code s h h53 r hr =>
      refine ⟨m.abilities, ?_⟩
      rw [unserializeAbility, if_neg h, dif_pos h53]
      simp only [r] at hr
      simp only [hr]
  | case5 m code s h h53 =>
      exact ⟨m.abilities, by rw [unserializeAbility, if_neg h, dif_neg h53]⟩

/-- An item without abilities that reads the abilities of one item alone has
exactly these. -/
theorem unserializeAbility_serializeAbility (i m : Item) (hm : m.abilities = fun _ => none) :
    unserializeAbility i.serializeAbility m = ({ m with abilities := i.abilities }, []) := by
  have hbytes := unserializeAbility_abilityBytes i m (List.finRange 53) []
  rw [List.append_nil] at hbytes
  have hlast : ∀ m', unserializeAbility [] m' = (m', []) := fun m' => by rw [unserializeAbility]
  change unserializeAbility (i.abilityBytes (List.finRange 53)) m = _
  obtain ⟨abilities, heq⟩ := unserializeAbility_other (i.abilityBytes (List.finRange 53)) m
  rw [hbytes, hlast] at heq ⊢
  have hfun : abilities = i.abilities := by
    funext a
    have hfold := foldl_setAbilityInt i m (List.finRange 53) a
    have ha : _ = abilities a := congrFun (congrArg Item.abilities heq) a
    have hread : abilities a = (i.abilities a).or (m.abilities a) := by
      refine ha.symm.trans (Eq.trans ?_ (hfold.resolve_left fun h => h.2 (List.mem_finRange a)))
      refine congrArg (fun f => (List.foldl f m (List.finRange 53)).abilities a) ?_
      funext m b
      cases i.abilities b with
      | none => rfl
      | some value => rfl
    rw [hread, hm, Option.or_none]
  rw [hfun] at heq
  exact Prod.ext heq rfl

/-! ## Items that differ in their abilities only -/

/-- The item with other abilities. -/
def setAbilities (m : Item) (abilities : ItemAbilities) : Item := { m with abilities := abilities }

section

variable (m : Item) (abilities : ItemAbilities)

theorem setAbilities_setStrAttr (k : StrAttr) (v : List UInt8) :
    (m.setAbilities abilities).setStrAttr k v = (m.setStrAttr k v).setAbilities abilities := by
  unfold setStrAttr
  split
  · rfl
  · rfl

theorem setAbilities_putInt (k : IntAttr) (v : Option (BitVec 32)) :
    (m.setAbilities abilities).putInt k v = (m.putInt k v).setAbilities abilities := by
  cases v with
  | none => rfl
  | some v => rfl

theorem setAbilities_putCustom (c : Option CustomAttributeMap) :
    (m.setAbilities abilities).putCustom c = (m.putCustom c).setAbilities abilities := by
  cases c with
  | none => rfl
  | some c =>
      simp only [putCustom]
      generalize clipEntries c.entries = entries
      induction entries generalizing m with
      | nil => rfl
      | cons e entries ih => exact ih (m.setCustomAttribute e.1 e.2)

theorem setAbilities_setSubType (w : World) (n : BitVec 16) :
    (m.setAbilities abilities).setSubType w n = (m.setSubType w n).setAbilities abilities := by
  have htype : (m.setAbilities abilities).type w = m.type w := rfl
  unfold setSubType
  rw [htype]
  repeat' split
  all_goals rfl

theorem setAbilities_restored (w : World) (i : Item) :
    restored w i (m.setAbilities abilities) = (restored w i m).setAbilities abilities := by
  have hsub : restoreSubType w i (m.setAbilities abilities) =
      (restoreSubType w i m).setAbilities abilities := by
    unfold restoreSubType
    dsimp only
    repeat' split
    all_goals simp only [setAbilities_setSubType]
  unfold restored
  simp only [hsub, setAbilities_setStrAttr, setAbilities_putInt, setAbilities_putCustom]

theorem setAbilities_reload (w : World) (i : Item) :
    reload w i (m.setAbilities abilities) = (reload w i m).setAbilities abilities := by
  have hrestored := setAbilities_restored m abilities w i
  unfold reload
  split
  · rfl
  · unfold restoreSleeper setSleeper
    simp only [setAbilities_setStrAttr]
    repeat' split
    all_goals rfl
  · rw [hrestored]
    rfl
  · exact hrestored

end

end Item

end Infernum
