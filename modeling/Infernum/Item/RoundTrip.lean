import Infernum.Item.Serialize

/-!
# What a reader makes of a written item

`restored` says, attribute by attribute, what `unserializeAttr` does to an item
when it reads what `serializeAttr` wrote for another one. Both stores of the
server, the house tiles and the player tables, are read through it.
-/

namespace Infernum

open Infernum.Lib

namespace Item

/-! ## Field lemmas -/

@[simp] theorem setStrAttr_id (m : Item) (k : StrAttr) (v : List UInt8) :
    (m.setStrAttr k v).id = m.id := by
  unfold setStrAttr
  split <;> rfl

theorem setStrAttr_str (m : Item) (k k' : StrAttr) (v : List UInt8) :
    (m.setStrAttr k v).attributes.str k' =
      if k' = k ∧ v ≠ [] then some v else m.attributes.str k' := by
  unfold setStrAttr
  by_cases hv : v = []
  · simp [hv]
  · simp [hv, Function.update_apply]

theorem setStrAttr_other (m : Item) (k : StrAttr) (v : List UInt8) :
    (m.setStrAttr k v).attributes.int = m.attributes.int ∧
    (m.setStrAttr k v).attributes.custom = m.attributes.custom ∧
    (m.setStrAttr k v).count = m.count ∧ (m.setStrAttr k v).abilities = m.abilities := by
  unfold setStrAttr
  split
  · exact ⟨rfl, rfl, rfl, rfl⟩
  · exact ⟨rfl, rfl, rfl, rfl⟩

@[simp] theorem setSubType_id (w : World) (m : Item) (n : BitVec 16) :
    (m.setSubType w n).id = m.id := by
  unfold setSubType
  split
  · rfl
  · split
    · rfl
    · split <;> rfl

/-- Store an integer attribute if there is a value for it. -/
def putInt (m : Item) (k : IntAttr) (v : Option (BitVec 32)) : Item :=
  match v with
  | some v => m.setIntAttr k v
  | none => m

theorem putInt_int (m : Item) (k k' : IntAttr) (v : Option (BitVec 32)) :
    (m.putInt k v).attributes.int k' =
      if k' = k then v.or (m.attributes.int k') else m.attributes.int k' := by
  cases v with
  | none => simp [putInt]
  | some v => simp [putInt, setIntAttr, Function.update_apply]

@[simp] theorem putInt_id (m : Item) (k : IntAttr) (v : Option (BitVec 32)) :
    (m.putInt k v).id = m.id := by
  cases v <;> rfl

theorem putInt_other (m : Item) (k : IntAttr) (v : Option (BitVec 32)) :
    (m.putInt k v).attributes.str = m.attributes.str ∧
    (m.putInt k v).attributes.custom = m.attributes.custom ∧
    (m.putInt k v).count = m.count ∧ (m.putInt k v).abilities = m.abilities := by
  cases v with
  | none => exact ⟨rfl, rfl, rfl, rfl⟩
  | some v => exact ⟨rfl, rfl, rfl, rfl⟩

/-! ## One attribute -/

variable (w : World)

theorem unserializeAttr_nil (m : Item) : unserializeAttr w [] m = ⟨true, m, 0, []⟩ := by
  rw [unserializeAttr]

/-- The end marker of an item. -/
theorem unserializeAttr_zero (rest : List UInt8) (m : Item) :
    unserializeAttr w (0 :: rest) m = ⟨true, m, 0, rest⟩ := by
  rw [unserializeAttr]
  simp

/-- An attribute that its reader takes back whole is read, and the loop goes
on behind it. -/
theorem unserializeAttr_write {a : AttrTypes} {data rest : List UInt8} {m m' : Item}
    (hread : readAttr w a (data ++ rest) m = (.continue, m', rest)) :
    unserializeAttr w (writeAttr a data ++ rest) m = unserializeAttr w rest m' := by
  rw [writeAttr, List.cons_append, unserializeAttr, if_neg a.code_ne_zero]
  simp only [AttrTypes.ofCode_code, hread]

/-- The same for an attribute that is written under a condition. -/
theorem unserializeAttr_optional {a : AttrTypes} {data rest : List UInt8} {m m' : Item}
    {c : Prop} [Decidable c]
    (hread : readAttr w a (data ++ rest) m = (.continue, m', rest)) :
    unserializeAttr w ((if c then writeAttr a data else []) ++ rest) m =
      unserializeAttr w rest (if c then m' else m) := by
  split
  · exact unserializeAttr_write w hread
  · rfl

/-- An integer attribute in a field that is wide enough to be read by `f`. -/
theorem unserializeAttr_writeIntAttr {a : AttrTypes} {key : IntAttr} {n : Nat}
    {f : BitVec 32 → BitVec 32} {i m : Item} {rest : List UInt8}
    (hread : ∀ v : BitVec 32, readAttr w a (encodeLE n v.toNat ++ rest) m =
      (.continue, m.setIntAttr key (f v), rest)) :
    unserializeAttr w (i.writeIntAttr a key n ++ rest) m =
      unserializeAttr w rest (m.putInt key ((i.attributes.int key).map f)) := by
  unfold writeIntAttr
  rw [unserializeAttr_optional w (hread _)]
  cases h : i.attributes.int key with
  | none => simp [hasAttribute, h, putInt]
  | some v => simp [hasAttribute, h, putInt, getIntAttr]

/-- An integer attribute in a field of its own width. -/
theorem unserializeAttr_writeInt32 {a : AttrTypes} {key : IntAttr} {i m : Item}
    {rest : List UInt8}
    (hread : ∀ v : BitVec 32, readAttr w a (encodeLE 4 v.toNat ++ rest) m =
      (.continue, m.setIntAttr key v, rest)) :
    unserializeAttr w (i.writeIntAttr a key 4 ++ rest) m =
      unserializeAttr w rest (m.putInt key (i.attributes.int key)) := by
  rw [unserializeAttr_writeIntAttr w (f := fun v => v) hread, Option.map_id_fun']
  rfl

/-- A string attribute; a string that is not there is empty, and an empty
string is not stored. -/
theorem unserializeAttr_writeText {a : AttrTypes} {key : StrAttr} {i m : Item}
    {rest : List UInt8}
    (hread : ∀ v : List UInt8, readAttr w a (encodeString v ++ rest) m =
      (.continue, m.setStrAttr key (clipString v), rest)) :
    unserializeAttr w (i.writeText a key ++ rest) m =
      unserializeAttr w rest (m.setStrAttr key (clipString (i.getStrAttr key))) := by
  unfold writeText
  rw [unserializeAttr_optional w (hread _)]
  split
  · rfl
  · rename_i hempty
    rw [not_not] at hempty
    rw [hempty]
    rfl

theorem unserializeAttr_writeStrAttr {a : AttrTypes} {key : StrAttr} {i m : Item}
    {rest : List UInt8}
    (hread : ∀ v : List UInt8, readAttr w a (encodeString v ++ rest) m =
      (.continue, m.setStrAttr key (clipString v), rest)) :
    unserializeAttr w (i.writeStrAttr a key ++ rest) m =
      unserializeAttr w rest (m.setStrAttr key (clipString (i.getStrAttr key))) := by
  unfold writeStrAttr
  rw [unserializeAttr_optional w (hread _)]
  split
  · rfl
  · rename_i habsent
    have hempty : i.getStrAttr key = [] := by
      rw [Bool.not_eq_true, Option.isSome_eq_false_iff, Option.isNone_iff_eq_none] at habsent
      rw [getStrAttr, habsent]
      rfl
    rw [hempty]
    rfl

end Item

/-! ## Custom attributes -/

/-- Numbers survive a field of their own width. -/
theorem ofNat_mod_64 (x : BitVec 64) : BitVec.ofNat 64 (x.toNat % 18446744073709551616) = x := by
  rw [Nat.mod_eq_of_lt x.isLt, BitVec.ofNat_toNat, BitVec.setWidth_eq]

theorem ofNat_mod_32 (x : BitVec 32) : BitVec.ofNat 32 (x.toNat % 4294967296) = x := by
  rw [Nat.mod_eq_of_lt x.isLt, BitVec.ofNat_toNat, BitVec.setWidth_eq]

theorem ofNat_mod_16 (x : BitVec 16) : BitVec.ofNat 16 (x.toNat % 65536) = x := by
  rw [Nat.mod_eq_of_lt x.isLt, BitVec.ofNat_toNat, BitVec.setWidth_eq]

/-- One byte of a number, read into a wider one. -/
theorem ofNat_mod_8 {n : Nat} (m : Nat) (x : BitVec n) :
    BitVec.ofNat m (x.toNat % 256) = (x.setWidth 8).setWidth m := by
  apply BitVec.eq_of_toNat_eq
  simp

/-- What is read back of a custom value: a long string is lost. -/
def CustomAttribute.clip : CustomAttribute → CustomAttribute
  | .str value => .str (clipString value)
  | v => v

/-- What the bytes of an item hold of a custom value. -/
def CustomAttribute.Fits : CustomAttribute → Prop
  | .str value => value.length ≤ 65535
  | _ => True

theorem CustomAttribute.fits_clip (v : CustomAttribute) : CustomAttribute.Fits v.clip := by
  cases v with
  | str value =>
      change (clipString value).length ≤ 65535
      unfold clipString
      split
      · simp
      · omega
  | _ => trivial

theorem CustomAttribute.clip_eq_self {v : CustomAttribute} (h : CustomAttribute.Fits v) :
    v.clip = v := by
  cases v with
  | str value => rw [CustomAttribute.clip, clipString_eq_self.mpr h]
  | _ => rfl

@[simp] theorem CustomAttribute.unserialize_serialize (v : CustomAttribute) (rest : List UInt8) :
    CustomAttribute.unserialize (v.serialize ++ rest) = (some v.clip, rest) := by
  cases v with
  | str value => simp [serialize, unserialize, readLE_one_cons, clip]
  | int value => simp [serialize, unserialize, readLE_one_cons, clip, ofNat_mod_64]
  | double bits => simp [serialize, unserialize, readLE_one_cons, clip, ofNat_mod_64]
  | bool value => cases value <;> simp [serialize, unserialize, readLE_one_cons, clip]

namespace Item

/-- The entries of a map as they are read back. -/
def clipEntries (entries : List (List UInt8 × CustomAttribute)) :
    List (List UInt8 × CustomAttribute) :=
  entries.map fun e => (clipString e.1, e.2.clip)

/-- Store the custom attributes that are read back, if there were any. -/
def putCustom (m : Item) : Option CustomAttributeMap → Item
  | some c => (clipEntries c.entries).foldl (fun m e => m.setCustomAttribute e.1 e.2) m
  | none => m

theorem readCustomAttributes_write (entries : List (List UInt8 × CustomAttribute))
    (rest : List UInt8) (m : Item) :
    readCustomAttributes entries.length
      ((entries.flatMap fun e => encodeString e.1 ++ e.2.serialize) ++ rest) m =
      (.continue, (clipEntries entries).foldl (fun m e => m.setCustomAttribute e.1 e.2) m,
        rest) := by
  induction entries generalizing m with
  | nil => rfl
  | cons e entries ih =>
      rw [List.length_cons, List.flatMap_cons, readCustomAttributes]
      simp only [List.append_assoc, readString_encodeString,
        CustomAttribute.unserialize_serialize]
      exact ih _

/-- Setting custom attributes touches nothing else. -/
theorem foldl_setCustomAttribute_other (entries : List (List UInt8 × CustomAttribute))
    (m : Item) :
    let m' := entries.foldl (fun m e => m.setCustomAttribute e.1 e.2) m
    m'.attributes.int = m.attributes.int ∧ m'.attributes.str = m.attributes.str ∧
    m'.count = m.count ∧ m'.abilities = m.abilities ∧ m'.id = m.id := by
  induction entries generalizing m with
  | nil => exact ⟨rfl, rfl, rfl, rfl, rfl⟩
  | cons e entries ih => exact ih (m.setCustomAttribute e.1 e.2)

/-- The custom attributes that result depend on those before only. -/
theorem foldl_setCustomAttribute_congr (entries : List (List UInt8 × CustomAttribute))
    {m m' : Item} (h : m.attributes.custom = m'.attributes.custom) :
    (entries.foldl (fun m e => m.setCustomAttribute e.1 e.2) m).attributes.custom =
      (entries.foldl (fun m e => m.setCustomAttribute e.1 e.2) m').attributes.custom := by
  induction entries generalizing m m' with
  | nil => exact h
  | cons e entries ih => exact ih (by simp only [setCustomAttribute, h])

/-- New keys in lower case are appended as they come. -/
theorem foldl_setCustomAttribute_fresh (entries : List (List UInt8 × CustomAttribute))
    (m : Item) (c : CustomAttributeMap) (hm : m.attributes.custom = some c)
    (hnodup : ((c.entries ++ entries).map Prod.fst).Nodup)
    (hlower : ∀ e ∈ entries, toLowerCaseString e.1 = e.1) :
    ∃ c', (entries.foldl (fun m e => m.setCustomAttribute e.1 e.2) m).attributes.custom =
      some c' ∧ c'.entries = c.entries ++ entries := by
  induction entries generalizing m c with
  | nil => exact ⟨c, hm, by simp⟩
  | cons e entries ih =>
      have hkey := hlower e (by simp)
      have hnew : (c.set e.1 e.2).entries = c.entries ++ [e] := by
        have hother : c.entries.filter (fun x => x.1 ≠ e.1) = c.entries := by
          rw [List.filter_eq_self]
          intro x hx
          simp only [List.map_append, List.map_cons, List.nodup_append] at hnodup
          have := hnodup.2.2 x.1 (List.mem_map.mpr ⟨x, hx, rfl⟩) e.1 (by simp)
          simpa using this
        rw [CustomAttributeMap.set]
        simp only [hkey, hother]
      obtain ⟨c', hc', hentries⟩ := ih (m.setCustomAttribute e.1 e.2) (c.set e.1 e.2)
        (by simp [setCustomAttribute, hm])
        (by rw [hnew, List.append_assoc]; exact hnodup)
        (fun x hx => hlower x (by simp [hx]))
      refine ⟨c', hc', ?_⟩
      rw [hentries, hnew, List.append_assoc]
      rfl

/-- Every entry that is set came from the list, its key in lower case. -/
theorem foldl_setCustomAttribute_forall (P : List UInt8 × CustomAttribute → Prop)
    (entries : List (List UInt8 × CustomAttribute)) (m : Item)
    (hentries : ∀ e ∈ entries, P (toLowerCaseString e.1, e.2))
    (hm : ∀ c, m.attributes.custom = some c → ∀ e ∈ c.entries, P e) :
    ∀ c, (entries.foldl (fun m e => m.setCustomAttribute e.1 e.2) m).attributes.custom = some c →
      ∀ e ∈ c.entries, P e := by
  induction entries generalizing m with
  | nil => exact hm
  | cons e entries ih =>
      refine ih (m.setCustomAttribute e.1 e.2) (fun x hx => hentries x (by simp [hx])) ?_
      intro c hc x hx
      simp only [setCustomAttribute, Option.some.injEq] at hc
      rw [← hc, CustomAttributeMap.set] at hx
      rcases List.mem_append.mp hx with h | h
      · cases hcustom : m.attributes.custom with
        | none => simp [hcustom, CustomAttributeMap.empty] at h
        | some c0 =>
            rw [hcustom] at h
            exact hm c0 hcustom x (List.mem_filter.mp h).1
      · rw [List.mem_singleton] at h
        rw [h]
        exact hentries e (by simp)

/-! ## All attributes -/

/-- What comes back of the action id: ids below 100 are raised, and only a
moveable item's id is written. -/
def savedActionId (w : World) (i : Item) : Option (BitVec 32) :=
  if (i.type w).moveable ∧ i.getActionId ≠ 0 then
    some (if i.getActionId < 100 then 100 else i.getActionId.setWidth 32)
  else none

/-- What comes back of the date of writing: zero is not written. -/
def savedDate (i : Item) : Option (BitVec 32) :=
  if i.getIntAttr .date ≠ 0 then some (i.getIntAttr .date) else none

/-- What comes back of the decay state: an item that decays is to be started. -/
def savedDecayState (i : Item) : Option (BitVec 32) :=
  if i.getDecaying = 1 ∨ i.getDecaying = 2 then some DECAYING_PENDING else none

/-- A duration below zero comes back as zero. -/
def clipDuration (v : BitVec 32) : BitVec 32 := if v.msb then 0 else v

/-- The first two attributes, which both go through `setSubType`. -/
def restoreSubType (w : World) (i m : Item) : Item :=
  let m :=
    if (i.type w).stackable || (i.type w).holdsFluid then
      m.setSubType w (((i.getSubType w).setWidth 8).setWidth 16)
    else m
  if i.getCharges ≠ 0 then m.setSubType w i.getCharges else m

/-- What reading the attributes of `i` does to `m`, in the order of the stream. -/
def restored (w : World) (i m : Item) : Item :=
  (restoreSubType w i m).putInt .actionId (i.savedActionId w)
    |>.setStrAttr .text (clipString (i.getStrAttr .text))
    |>.putInt .date i.savedDate
    |>.setStrAttr .writer (clipString (i.getStrAttr .writer))
    |>.setStrAttr .description (clipString (i.getStrAttr .description))
    |>.putInt .duration ((i.attributes.int .duration).map clipDuration)
    |>.putInt .decayState i.savedDecayState
    |>.setStrAttr .name (clipString (i.getStrAttr .name))
    |>.setStrAttr .article (clipString (i.getStrAttr .article))
    |>.setStrAttr .pluralName (clipString (i.getStrAttr .pluralName))
    |>.putInt .weight (i.attributes.int .weight)
    |>.putInt .attack (i.attributes.int .attack)
    |>.putInt .defense (i.attributes.int .defense)
    |>.putInt .extraDefense (i.attributes.int .extraDefense)
    |>.putInt .armor (i.attributes.int .armor)
    |>.putInt .hitChance ((i.attributes.int .hitChance).map fun v =>
        (v.setWidth 8).signExtend 32)
    |>.putInt .shootRange ((i.attributes.int .shootRange).map fun v =>
        (v.setWidth 8).setWidth 32)
    |>.putCustom i.attributes.custom

/-! Each reader on the data of its writer. -/

section

variable (w : World) (rest : List UInt8) (m : Item)

example : readAttr w .count [] m = (.error, m, []) := by
  simp [readAttr, readNumber, readLE]

theorem readAttr_count (v : BitVec 16) :
    readAttr w .count (encodeLE 1 v.toNat ++ rest) m =
      (.continue, m.setSubType w ((v.setWidth 8).setWidth 16), rest) := by
  simp [readAttr, readNumber, ofNat_mod_8]

theorem readAttr_charges (v : BitVec 16) :
    readAttr w .charges (encodeLE 2 v.toNat ++ rest) m =
      (.continue, m.setSubType w v, rest) := by
  simp [readAttr, readNumber, ofNat_mod_16]

theorem readAttr_actionId (v : BitVec 16) :
    readAttr w .actionId (encodeLE 2 v.toNat ++ rest) m =
      (.continue, m.setIntAttr .actionId (if v < 100 then 100 else v.setWidth 32), rest) := by
  simp [readAttr, readNumber, ofNat_mod_16, setActionId]

theorem readAttr_date (v : BitVec 32) :
    readAttr w .writtenDate (encodeLE 4 v.toNat ++ rest) m =
      (.continue, m.setIntAttr .date v, rest) := by
  simp [readAttr, readNumber, ofNat_mod_32]

theorem readAttr_duration (v : BitVec 32) :
    readAttr w .duration (encodeLE 4 v.toNat ++ rest) m =
      (.continue, m.setIntAttr .duration (clipDuration v), rest) := by
  simp [readAttr, readNumber, ofNat_mod_32, clipDuration]

theorem readAttr_decayingState (v : BitVec 8) (hv : v ≠ 0) :
    readAttr w .decayingState (encodeLE 1 v.toNat ++ rest) m =
      (.continue, m.setIntAttr .decayState DECAYING_PENDING, rest) := by
  have hpos : v.toNat ≠ 0 := fun h => hv (BitVec.eq_of_toNat_eq h)
  have hmod : v.toNat % 256 = v.toNat := Nat.mod_eq_of_lt v.isLt
  simp [readAttr, readNumber, hmod, hpos]

/-- The plain four-byte attributes. -/
theorem readAttr_int32 (a : AttrTypes) (key : IntAttr)
    (ha : (a, key) ∈ [(AttrTypes.weight, IntAttr.weight), (.attack, .attack),
      (.defense, .defense), (.extraDefense, .extraDefense), (.armor, .armor)]) (v : BitVec 32) :
    readAttr w a (encodeLE 4 v.toNat ++ rest) m =
      (.continue, m.setIntAttr key v, rest) := by
  simp only [List.mem_cons, Prod.mk.injEq, List.not_mem_nil, or_false] at ha
  rcases ha with ⟨rfl, rfl⟩ | ⟨rfl, rfl⟩ | ⟨rfl, rfl⟩ | ⟨rfl, rfl⟩ | ⟨rfl, rfl⟩ <;>
    simp [readAttr, readNumber, ofNat_mod_32]

theorem readAttr_hitChance (v : BitVec 32) :
    readAttr w .hitChance (encodeLE 1 v.toNat ++ rest) m =
      (.continue, m.setIntAttr .hitChance ((v.setWidth 8).signExtend 32), rest) := by
  simp [readAttr, readNumber, ofNat_mod_8]

theorem readAttr_shootRange (v : BitVec 32) :
    readAttr w .shootRange (encodeLE 1 v.toNat ++ rest) m =
      (.continue, m.setIntAttr .shootRange ((v.setWidth 8).setWidth 32), rest) := by
  simp [readAttr, readNumber, ofNat_mod_8]

/-- The string attributes. -/
theorem readAttr_text (a : AttrTypes) (key : StrAttr)
    (ha : (a, key) ∈ [(AttrTypes.text, StrAttr.text), (.writtenBy, .writer),
      (.desc, .description), (.name, .name), (.article, .article), (.pluralName, .pluralName)])
    (v : List UInt8) :
    readAttr w a (encodeString v ++ rest) m =
      (.continue, m.setStrAttr key (clipString v), rest) := by
  simp only [List.mem_cons, Prod.mk.injEq, List.not_mem_nil, or_false] at ha
  rcases ha with ⟨rfl, rfl⟩ | ⟨rfl, rfl⟩ | ⟨rfl, rfl⟩ | ⟨rfl, rfl⟩ | ⟨rfl, rfl⟩ | ⟨rfl, rfl⟩ <;>
    simp [readAttr, readText]

end

variable (w : World)

theorem unserializeAttr_writeCustomAttributes (i m : Item) (rest : List UInt8)
    (hsize : ∀ c, i.attributes.custom = some c → c.entries.length < 2 ^ 64) :
    unserializeAttr w (i.writeCustomAttributes ++ rest) m =
      unserializeAttr w rest (m.putCustom i.attributes.custom) := by
  unfold writeCustomAttributes putCustom
  cases h : i.attributes.custom with
  | none => rfl
  | some c =>
      apply unserializeAttr_write
      have hlen : c.entries.length % 256 ^ 8 = c.entries.length :=
        Nat.mod_eq_of_lt (hsize c h)
      simp only [readAttr, List.append_assoc, readLE_encodeLE, hlen]
      exact readCustomAttributes_write c.entries rest m

theorem ite_setIntAttr (c : Prop) [Decidable c] (m : Item) (k : IntAttr) (v : BitVec 32) :
    (if c then m.setIntAttr k v else m) = m.putInt k (if c then some v else none) := by
  split
  · rfl
  · rfl

theorem unserializeAttr_writeDecayState (i m : Item) (rest : List UInt8) :
    unserializeAttr w ((if i.getDecaying = 1 ∨ i.getDecaying = 2 then
        writeAttr .decayingState (encodeLE 1 i.getDecaying.toNat) else []) ++ rest) m =
      unserializeAttr w rest (m.putInt .decayState i.savedDecayState) := by
  unfold savedDecayState
  split
  · rename_i h
    have hne : i.getDecaying ≠ 0 := by
      rcases h with h | h <;> rw [h] <;> decide
    exact unserializeAttr_write w (readAttr_decayingState w rest m _ hne)
  · rfl

/-- Reading what `Item::serializeAttr` wrote. -/
theorem unserializeAttr_serializeItemAttr (i m : Item) (rest : List UInt8)
    (hsize : ∀ c, i.attributes.custom = some c → c.entries.length < 2 ^ 64) :
    unserializeAttr w (i.serializeItemAttr w ++ rest) m =
      unserializeAttr w rest (restored w i m) := by
  simp only [serializeItemAttr, List.append_assoc]
  rw [unserializeAttr_optional w (readAttr_count w _ _ _),
    unserializeAttr_optional w (readAttr_charges w _ _ _),
    unserializeAttr_optional w (readAttr_actionId w _ _ _), ite_setIntAttr,
    unserializeAttr_writeText w (readAttr_text w _ _ .text .text (by simp)),
    unserializeAttr_optional w (readAttr_date w _ _ _), ite_setIntAttr,
    unserializeAttr_writeText w (readAttr_text w _ _ .writtenBy .writer (by simp)),
    unserializeAttr_writeText w (readAttr_text w _ _ .desc .description (by simp)),
    unserializeAttr_writeIntAttr w (readAttr_duration w _ _),
    unserializeAttr_writeDecayState w,
    unserializeAttr_writeStrAttr w (readAttr_text w _ _ .name .name (by simp)),
    unserializeAttr_writeStrAttr w (readAttr_text w _ _ .article .article (by simp)),
    unserializeAttr_writeStrAttr w (readAttr_text w _ _ .pluralName .pluralName (by simp)),
    unserializeAttr_writeInt32 w (readAttr_int32 w _ _ .weight .weight (by simp)),
    unserializeAttr_writeInt32 w (readAttr_int32 w _ _ .attack .attack (by simp)),
    unserializeAttr_writeInt32 w (readAttr_int32 w _ _ .defense .defense (by simp)),
    unserializeAttr_writeInt32 w (readAttr_int32 w _ _ .extraDefense .extraDefense (by simp)),
    unserializeAttr_writeInt32 w (readAttr_int32 w _ _ .armor .armor (by simp)),
    unserializeAttr_writeIntAttr w (readAttr_hitChance w _ _),
    unserializeAttr_writeIntAttr w (readAttr_shootRange w _ _),
    unserializeAttr_writeCustomAttributes w i _ rest hsize]
  rfl

end Item

end Infernum
