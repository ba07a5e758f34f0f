import Infernum.Item.AttributeLists
import Infernum.Lib.TransitionSystem

/-!
# Runs of `ItemAttributes` and `ItemAbilities`

Over every run the word and the list say the same of each enumerator, and a setter changes
its own type only. The string setter takes no empty string, and only the callers of the
ability setter see to it that it is not asked for `ITEM_ABILITY_NONE` or for two abilities
at once.
-/

namespace Infernum.AttributeLists

open Lib (MaskNode MaskList TSys)
open Stack (AttrType)
open Equip (ItemAbilityType)

/-! ### Operations -/

inductive AttrOp where
  | getAttr (type : BitVec 32)
  | setIntAttr (type : BitVec 32) (value : BitVec 64)
  | increaseIntAttr (type : BitVec 32) (value : BitVec 64)
  | setStrAttr (type : BitVec 32) (value : List UInt8)
  | setCustomAttribute (key : List UInt8) (value : CustomAttribute)
  | removeCustomAttribute (key : List UInt8)
  | removeAttribute (type : BitVec 32)
  | copy

namespace AttrOp

def apply (l : ItemAttributes) : AttrOp → Option ItemAttributes
  | getAttr type => some (l.getAttr type)
  | setIntAttr type value => some (l.setIntAttr type value)
  | increaseIntAttr type value => l.increaseIntAttr type value
  | setStrAttr type value => some (l.setStrAttr type value)
  | setCustomAttribute key value => l.setCustomAttribute key value
  | removeCustomAttribute key => (l.removeCustomAttribute key).map Prod.fst
  | removeAttribute type => l.removeAttribute type
  | copy => l.copy

/-- The types are enumerators. That for none is asked for where it is looked at first. -/
def Named : AttrOp → Prop
  | getAttr type => AttrTypes type
  | setIntAttr type _ => type = ITEM_ATTRIBUTE_NONE ∨ AttrTypes type
  | increaseIntAttr type _ => type = ITEM_ATTRIBUTE_NONE ∨ AttrTypes type
  | setStrAttr type _ => type = ITEM_ATTRIBUTE_NONE ∨ AttrTypes type
  | removeAttribute type => type = ITEM_ATTRIBUTE_NONE ∨ AttrTypes type
  | _ => True

/-- What other classes can call: `getAttr` is private. -/
def Public : AttrOp → Prop
  | getAttr _ => False
  | _ => True

end AttrOp

/-- The runs of an `ItemAttributes`, from the empty one. -/
def attrRuns : TSys ItemAttributes AttrOp where
  init l := l = MaskList.empty
  step l op l' := op.apply l = some l'

inductive AbilityOp where
  | getAbility (type : BitVec 64)
  | setAbilityInt (type : BitVec 64) (value : BitVec 64)
  | removeAbility (type : BitVec 64)
  | copy

namespace AbilityOp

def apply (l : ItemAbilities) : AbilityOp → Option ItemAbilities
  | getAbility type => some (l.getAbility type)
  | setAbilityInt type value => some (l.setAbilityInt type value)
  | removeAbility type => l.removeAbility type
  | copy => l.copy

/-- The types are enumerators, and a node is made for none but an ability. -/
def Named : AbilityOp → Prop
  | getAbility type => AbilityTypes type
  | setAbilityInt type _ => AbilityTypes type
  | removeAbility type => type = ITEM_ABILITY_NONE ∨ AbilityTypes type
  | copy => True

end AbilityOp

/-- The runs of an `ItemAbilities`, from the empty one. -/
def abilityRuns : TSys ItemAbilities AbilityOp where
  init l := l = MaskList.empty
  step l op l' := op.apply l = some l'

/-! ### What holds over the runs -/

/-- The word has the bits of an enumerator exactly when one node is of that type, and no
second one ever is. -/
def InStep {w : Nat} {V : Type} (T : BitVec w → Prop) (l : MaskList w V) : Prop :=
  ∀ type, type = 0 ∨ T type → (l.has type = true ↔ l.count type = 1) ∧ l.count type ≤ 1

/-- The nodes of the other enumerators are as before. -/
def OthersKept {w : Nat} {V : Type} (T : BitVec w → Prop) (type : BitVec w)
    (l l' : MaskList w V) : Prop :=
  ∀ other, other = 0 ∨ T other → other ≠ type → l'.find other = l.find other

/-- Distinct enumerators have distinct bits, and none loses its bits in the word. -/
def DistinctBits {w : Nat} {κ : Type} (type : κ → BitVec w) : Prop :=
  (∀ t, type t ≠ 0) ∧ ∀ s t, s ≠ t → type s &&& type t = 0

/-- Only an integer is ever left at zero, so that no null pointer is followed. -/
def NoNull (l : ItemAttributes) : Prop :=
  ∀ n ∈ l.nodes, n.value = .zero → isIntAttrType n.type = true

/-- A getter returns what the setter was given, and the other types keep their values. -/
structure AttrSets (l : ItemAttributes) : Prop where
  int : ∀ type, AttrTypes type → isIntAttrType type = true → ∀ value,
    (l.setIntAttr type value).getIntAttr type = some value ∧
    OthersKept AttrTypes type l (l.setIntAttr type value)
  increase : ∀ type, AttrTypes type → isIntAttrType type = true → ∀ value,
    ∃ old l', l.getIntAttr type = some old ∧ l.increaseIntAttr type value = some l' ∧
      l'.getIntAttr type = some (old + value) ∧ OthersKept AttrTypes type l l'
  str : ∀ type, AttrTypes type → isStrAttrType type = true → ∀ value, value ≠ [] →
    (l.setStrAttr type value).getStrAttr type = some value ∧
    OthersKept AttrTypes type l (l.setStrAttr type value)
  custom : NoNull l → ∀ key value, ∃ l', l.setCustomAttribute key value = some l' ∧
    (∀ other, l'.getCustomAttribute other =
      if toLowerCaseString other = toLowerCaseString key then some (some value)
      else l.getCustomAttribute other) ∧
    OthersKept AttrTypes ITEM_ATTRIBUTE_CUSTOM l l'
  /-- What is no integer is not set to one, nor what is no string to a string, and no
  string to the empty one. -/
  refused : ∀ type, (isIntAttrType type = false → ∀ value,
      l.setIntAttr type value = l ∧ l.increaseIntAttr type value = some l) ∧
    ∀ value, isStrAttrType type = false ∨ value = [] → l.setStrAttr type value = l
  remove : ∀ type, type = ITEM_ATTRIBUTE_NONE ∨ AttrTypes type →
    ∃ l', l.removeAttribute type = some l' ∧ l'.hasAttribute type = false ∧
      OthersKept AttrTypes type l l'
  copy : (NoNull l → l.copy = some l) ∧ ∀ l', l.copy = some l' → l' = l

structure AbilitySets (l : ItemAbilities) : Prop where
  set : ∀ type, AbilityTypes type → ∀ value,
    (l.setAbilityInt type value).getAbilityInt type = value ∧
    OthersKept AbilityTypes type l (l.setAbilityInt type value)
  remove : ∀ type, type = ITEM_ABILITY_NONE ∨ AbilityTypes type →
    ∃ l', l.removeAbility type = some l' ∧ l'.hasAbility type = false ∧
      OthersKept AbilityTypes type l l'
  copy : l.copy = some l

section

variable {w : Nat} {V : Type} {T : BitVec w → Prop} {l : MaskList w V} {type : BitVec w}
  (hT : MaskList.Apart T) (h : l.Wf T)

include hT h

theorem inStep : InStep T l := by
  rintro t (rfl | ht)
  · have hnone : l.count 0#w = 0 := by
      rw [MaskList.count, List.count_eq_zero]
      intro hmem
      obtain ⟨n, hn, hzero⟩ := List.mem_map.mp hmem
      exact hT.ne_zero n.type (h.type n hn) hzero
    simp [hnone]
  · rw [h.count_eq ht]
    cases l.has t <;> simp

theorem othersKept_write_ref (ht : T type) (init value : V) :
    OthersKept T type l ((l.ref init type).write type value) := by
  rintro other (rfl | hother) hne
  · simp
  · rw [h.find_write_ref hT ht init value hother, if_neg hne]

theorem remove_spec (ht : type = 0 ∨ T type) :
    ∃ l', l.remove type = some l' ∧ l'.has type = false ∧ OthersKept T type l l' := by
  rcases ht with rfl | ht
  · exact ⟨l, by simp [MaskList.remove], l.has_zero, fun _ _ _ => rfl⟩
  · obtain ⟨l', hremove, -, hhas, hothers⟩ := h.remove hT ht
    refine ⟨l', hremove, hhas, ?_⟩
    rintro other (rfl | hother) hne
    · simp
    · exact hothers other hother hne

end

/-! ### The invariant of an `ItemAttributes` -/

/-- The list and its word fit, and so do the values and the types. -/
structure Kept (P : BitVec 32 → AttrValue → Prop) (l : ItemAttributes) : Prop where
  list : l.Wf AttrTypes
  value : ∀ n ∈ l.nodes, P n.type n.value

/-- The values that the setters write. -/
structure Admits (P : BitVec 32 → AttrValue → Prop) : Prop where
  integer : ∀ type, AttrTypes type → isIntAttrType type = true → ∀ i, P type (.integer i)
  string : ∀ type, AttrTypes type → isStrAttrType type = true → ∀ text, P type (.string text)
  custom : ∀ m, P ITEM_ATTRIBUTE_CUSTOM (.custom m)

/-- The kind of a value is that of its type; a pointer may be null. -/
structure Fits (type : BitVec 32) (value : AttrValue) : Prop where
  integer : isIntAttrType type = true → value.readInteger.isSome = true
  custom : type = ITEM_ATTRIBUTE_CUSTOM → value.customPointer.isSome = true
  string : isStrAttrType type = true → value = .zero ∨ value.readString.isSome = true

theorem Fits.zero (type : BitVec 32) : Fits type .zero where
  integer _ := rfl
  custom _ := rfl
  string _ := .inl rfl

theorem fits_admits : Admits Fits where
  integer type htype hint i := by
    rcases htype.kind with ⟨-, hstr, hcustom⟩ | ⟨hno, -, -⟩ | ⟨hno, -, -⟩
    · refine ⟨fun _ => rfl, ?_, by simp [hstr]⟩
      rintro rfl
      simp [isCustomAttrType, ITEM_ATTRIBUTE_CUSTOM] at hcustom
    · simp [hint] at hno
    · simp [hint] at hno
  string type htype hstr text := by
    rcases htype.kind with ⟨-, hno, -⟩ | ⟨hint, -, hcustom⟩ | ⟨-, hno, -⟩
    · simp [hstr] at hno
    · refine ⟨by simp [hint], ?_, fun _ => .inr rfl⟩
      rintro rfl
      simp [isCustomAttrType, ITEM_ATTRIBUTE_CUSTOM] at hcustom
    · simp [hstr] at hno
  custom m := by
    refine ⟨?_, fun _ => rfl, ?_⟩
    · intro hint
      simp [isIntAttrType, ITEM_ATTRIBUTE_CUSTOM] at hint
    · intro hstr
      simp [isStrAttrType, ITEM_ATTRIBUTE_CUSTOM] at hstr

theorem AttrTypes.of_isInt {type : BitVec 32} (h : type = ITEM_ATTRIBUTE_NONE ∨ AttrTypes type)
    (hint : isIntAttrType type = true) : AttrTypes type := by
  rcases h with rfl | h
  · cases hint
  · exact h

theorem AttrTypes.of_isStr {type : BitVec 32} (h : type = ITEM_ATTRIBUTE_NONE ∨ AttrTypes type)
    (hstr : isStrAttrType type = true) : AttrTypes type := by
  rcases h with rfl | h
  · cases hstr
  · exact h

/-- A value is copied as it is or not at all. -/
theorem AttrValue.eq_of_copy {type : BitVec 32} (htype : AttrTypes type)
    {value value' : AttrValue} (hcopy : value.copy type = some value') : value' = value := by
  rcases htype.kind with ⟨hint, -, -⟩ | ⟨hint, hstr, -⟩ | ⟨hint, hstr, rfl⟩
  · rw [AttrValue.copy, if_pos hint] at hcopy
    obtain ⟨-, -, rfl⟩ := Option.map_eq_some_iff.mp hcopy
    rfl
  · rw [AttrValue.copy, hint, hstr] at hcopy
    cases value with
    | string text =>
        cases hcopy
        rfl
    | zero => cases hcopy
    | integer i => cases hcopy
    | custom m => cases hcopy
  · rw [AttrValue.copy, hint, hstr] at hcopy
    cases value with
    | custom m =>
        cases hcopy
        rfl
    | zero => cases hcopy
    | integer i => cases hcopy
    | string text => cases hcopy

theorem AttrValue.copy_of_fits {type : BitVec 32} (htype : AttrTypes type) {value : AttrValue}
    (hfits : Fits type value) (hnull : value = .zero → isIntAttrType type = true) :
    value.copy type = some value := by
  rcases htype.kind with ⟨hint, -, -⟩ | ⟨hint, hstr, -⟩ | ⟨hint, hstr, rfl⟩
  · rw [AttrValue.copy, if_pos hint]
    obtain ⟨i, hi⟩ := Option.isSome_iff_exists.mp (hfits.integer hint)
    rw [hi]
    rfl
  · rw [AttrValue.copy, hint, hstr]
    cases value with
    | string text => rfl
    | zero => simp [hint] at hnull
    | integer i => simpa [AttrValue.readString] using hfits.string hstr
    | custom m => simpa [AttrValue.readString] using hfits.string hstr
  · rw [AttrValue.copy, hint, hstr]
    cases value with
    | custom m => rfl
    | zero => simp [hint] at hnull
    | integer i => simpa [AttrValue.customPointer] using hfits.custom rfl
    | string text => simpa [AttrValue.customPointer] using hfits.custom rfl

section

variable {P : BitVec 32 → AttrValue → Prop} {l l' : ItemAttributes} {type : BitVec 32}

theorem Kept.put (h : Kept P l) (htype : AttrTypes type) {value : AttrValue}
    (hvalue : P type value) : Kept P ((l.getAttr type).write type value) := by
  refine ⟨(h.list.ref attrTypes_apart htype _).write _ _, ?_⟩
  intro n hn
  rcases MaskList.mem_write_ref hn with hn | rfl
  · exact h.value n hn
  · exact hvalue

theorem Kept.getAttr (h : Kept P l) (htype : AttrTypes type) (hzero : P type .zero) :
    Kept P (l.getAttr type) := by
  refine ⟨h.list.ref attrTypes_apart htype _, ?_⟩
  intro n hn
  rw [ItemAttributes.getAttr, MaskList.ref] at hn
  split at hn
  · exact h.value n hn
  · rcases List.mem_cons.mp hn with rfl | hn
    · exact hzero
    · exact h.value n hn

theorem Kept.remove (h : Kept P l) (htype : type = ITEM_ATTRIBUTE_NONE ∨ AttrTypes type)
    (hremove : l.removeAttribute type = some l') : Kept P l' := by
  refine ⟨?_, fun n hn => h.value n (MaskList.mem_of_remove hremove hn)⟩
  rcases htype with rfl | htype
  · have hself : l' = l := by
      simp only [ItemAttributes.removeAttribute, MaskList.remove, ITEM_ATTRIBUTE_NONE,
        BitVec.ofNat_eq_ofNat, MaskList.has_zero] at hremove
      exact (Option.some.inj hremove).symm
    rw [hself]
    exact h.list
  · obtain ⟨l₂, hl₂, hwf, -⟩ := h.list.remove attrTypes_apart htype
    rw [ItemAttributes.removeAttribute, hl₂] at hremove
    cases hremove
    exact hwf

theorem Kept.eq_of_copy (h : Kept P l) (hcopy : l.copy = some l') : l' = l :=
  MaskList.eq_of_copy_eq_some
    (fun n hn _ hv => AttrValue.eq_of_copy (h.list.type n hn) hv) hcopy

/-- One operation at enumerators. -/
theorem Kept.apply (hP : Admits P) (h : Kept P l) {op : AttrOp} (hnamed : op.Named)
    (hzero : ∀ t, op = .getAttr t → AttrTypes t → P t .zero) (happly : op.apply l = some l') :
    Kept P l' := by
  cases op with
  | getAttr t =>
      cases happly
      exact h.getAttr hnamed (hzero t rfl hnamed)
  | setIntAttr t value =>
      cases happly
      rw [ItemAttributes.setIntAttr]
      split
      · exact h
      · rename_i hint
        have hint : isIntAttrType t = true := by simpa using hint
        have ht := AttrTypes.of_isInt hnamed hint
        exact h.put ht (hP.integer t ht hint value)
  | increaseIntAttr t value =>
      rw [AttrOp.apply, ItemAttributes.increaseIntAttr] at happly
      split at happly
      · cases happly
        exact h
      · rename_i hint
        have hint : isIntAttrType t = true := by simpa using hint
        have ht := AttrTypes.of_isInt hnamed hint
        obtain ⟨old, -, rfl⟩ := Option.map_eq_some_iff.mp happly
        exact h.put ht (hP.integer t ht hint _)
  | setStrAttr t value =>
      cases happly
      rw [ItemAttributes.setStrAttr]
      split
      · exact h
      · rename_i hstr
        have hstr : isStrAttrType t = true := by simpa using hstr
        split
        · exact h
        · have ht := AttrTypes.of_isStr hnamed hstr
          exact h.put ht (hP.string t ht hstr value)
  | setCustomAttribute key value =>
      rw [AttrOp.apply, setCustomAttribute_eq h.list] at happly
      obtain ⟨m, -, rfl⟩ := Option.map_eq_some_iff.mp happly
      exact h.put attrTypes_custom (hP.custom _)
  | removeCustomAttribute key =>
      rw [AttrOp.apply] at happly
      obtain ⟨r, hr, rfl⟩ := Option.map_eq_some_iff.mp happly
      rcases removeCustomAttribute_cases h.list hr with heq | ⟨m, heq⟩
      · rw [heq]
        exact h
      · rw [heq]
        exact h.put attrTypes_custom (hP.custom m)
  | removeAttribute t => exact h.remove hnamed happly
  | copy =>
      rw [h.eq_of_copy happly]
      exact h

end

theorem fits_of_reach {l : ItemAttributes} (hreach : attrRuns.Reach (fun _ op => op.Named) l) :
    Kept Fits l := by
  apply TSys.Inductive.invariant (P := Kept Fits) ?_ hreach
  constructor
  · rintro _ rfl
    exact ⟨MaskList.wf_empty, fun n hn => absurd hn List.not_mem_nil⟩
  · intro l op l' h hnamed hstep
    exact h.apply fits_admits hnamed (fun t _ _ => Fits.zero t) hstep

/-- Without a bare `getAttr`, only an integer is ever zero. -/
theorem noNull_of_reach {l : ItemAttributes}
    (hreach : attrRuns.Reach (fun _ op => op.Named ∧ op.Public) l) : NoNull l := by
  have hkept : Kept (fun type value => value = .zero → isIntAttrType type = true) l := by
    apply TSys.Inductive.invariant ?_ hreach
    constructor
    · rintro _ rfl
      exact ⟨MaskList.wf_empty, fun n hn => absurd hn List.not_mem_nil⟩
    · intro l op l' h hop hstep
      refine h.apply ⟨?_, ?_, ?_⟩ hop.1 ?_ hstep
      · intro type _ _ i hzero
        cases hzero
      · intro type _ _ text hzero
        cases hzero
      · intro m hzero
        cases hzero
      · rintro t rfl _ _
        exact absurd hop.2 id
  exact hkept.value

/-! ### Getting what was set -/

theorem getIntAttr_put {l : ItemAttributes} (h : l.Wf AttrTypes) {type : BitVec 32}
    (htype : AttrTypes type) (hint : isIntAttrType type = true) (value : BitVec 64) :
    ItemAttributes.getIntAttr ((l.getAttr type).write type (.integer value)) type =
      some value := by
  rw [ItemAttributes.getIntAttr, ItemAttributes.getExistingAttr, ItemAttributes.getAttr,
    h.find_write_ref attrTypes_apart htype _ _ htype, if_pos rfl, hint]
  rfl

theorem getStrAttr_put {l : ItemAttributes} (h : l.Wf AttrTypes) {type : BitVec 32}
    (htype : AttrTypes type) (hstr : isStrAttrType type = true) (value : List UInt8) :
    ItemAttributes.getStrAttr ((l.getAttr type).write type (.string value)) type =
      some value := by
  rw [ItemAttributes.getStrAttr, ItemAttributes.getExistingAttr, ItemAttributes.getAttr,
    h.find_write_ref attrTypes_apart htype _ _ htype, if_pos rfl, hstr]
  rfl

/-- The number that `increaseIntAttr` adds to is the one that `getIntAttr` reads. -/
theorem deref_getAttr {l : ItemAttributes} (h : Kept Fits l) {type : BitVec 32}
    (htype : AttrTypes type) (hint : isIntAttrType type = true) :
    ∃ old, l.getIntAttr type = some old ∧
      ((l.getAttr type).deref type).bind AttrValue.readInteger = some old := by
  rw [ItemAttributes.getIntAttr, hint, ItemAttributes.getExistingAttr, ItemAttributes.getAttr,
    h.list.deref_ref attrTypes_apart htype]
  cases hfind : l.find type with
  | none => exact ⟨0, rfl, rfl⟩
  | some attr =>
      have hfits := h.value attr (MaskList.mem_of_find hfind)
      rw [MaskList.type_of_find hfind] at hfits
      obtain ⟨old, hold⟩ := Option.isSome_iff_exists.mp (hfits.integer hint)
      exact ⟨old, hold, hold⟩

theorem Kept.setCustomAttribute {l : ItemAttributes} (h : Kept Fits l) (hnull : NoNull l)
    (key : List UInt8) (value : CustomAttribute) :
    ∃ l', l.setCustomAttribute key value = some l' ∧
      OthersKept AttrTypes ITEM_ATTRIBUTE_CUSTOM l l' := by
  obtain ⟨m, hm⟩ : ∃ m, ((l.getExistingAttr ITEM_ATTRIBUTE_CUSTOM).elim (some .empty)
      fun attr => attr.value.readCustom) = some m := by
    cases hfind : l.getExistingAttr ITEM_ATTRIBUTE_CUSTOM with
    | none => exact ⟨.empty, rfl⟩
    | some attr =>
        rw [ItemAttributes.getExistingAttr] at hfind
        have hmem := MaskList.mem_of_find hfind
        have htype := MaskList.type_of_find hfind
        have hpointer := (h.value attr hmem).custom htype
        rw [Option.elim_some]
        cases hvalue : attr.value with
        | zero =>
            have hint := hnull attr hmem hvalue
            rw [htype] at hint
            cases hint
        | integer i => simp [hvalue, AttrValue.customPointer] at hpointer
        | string text => simp [hvalue, AttrValue.customPointer] at hpointer
        | custom m => exact ⟨m, rfl⟩
  refine ⟨_, by rw [setCustomAttribute_eq h.list, hm]; rfl, ?_⟩
  exact othersKept_write_ref attrTypes_apart h.list attrTypes_custom _ _

theorem Kept.attrSets {l : ItemAttributes} (h : Kept Fits l) : AttrSets l where
  int type htype hint value := by
    rw [ItemAttributes.setIntAttr, if_neg (by simp [hint])]
    exact ⟨getIntAttr_put h.list htype hint value,
      othersKept_write_ref attrTypes_apart h.list htype _ _⟩
  increase type htype hint value := by
    obtain ⟨old, hget, hderef⟩ := deref_getAttr h htype hint
    refine ⟨old, (l.getAttr type).write type (.integer (old + value)), hget, ?_,
      getIntAttr_put h.list htype hint _, othersKept_write_ref attrTypes_apart h.list htype _ _⟩
    rw [ItemAttributes.increaseIntAttr, if_neg (by simp [hint]), hderef]
    rfl
  str type htype hstr value hne := by
    rw [ItemAttributes.setStrAttr, if_neg (by simp [hstr]), if_neg (by simpa using hne)]
    exact ⟨getStrAttr_put h.list htype hstr value,
      othersKept_write_ref attrTypes_apart h.list htype _ _⟩
  custom hnull key value := by
    obtain ⟨l', hset, hothers⟩ := h.setCustomAttribute hnull key value
    exact ⟨l', hset, getCustomAttribute_set h.list hset, hothers⟩
  refused type := by
    refine ⟨?_, ?_⟩
    · intro hint value
      rw [ItemAttributes.setIntAttr, ItemAttributes.increaseIntAttr, hint]
      exact ⟨rfl, rfl⟩
    · rintro value (hstr | rfl)
      · rw [ItemAttributes.setStrAttr, hstr]
        rfl
      · rw [ItemAttributes.setStrAttr]
        split <;> rfl
  remove type htype := remove_spec attrTypes_apart h.list htype
  copy := by
    refine ⟨?_, fun l' => h.eq_of_copy⟩
    intro hnull
    apply MaskList.copy_eq_self
    intro n hn
    exact AttrValue.copy_of_fits (h.list.type n hn) (h.value n hn) (hnull n hn)

/-! ### The invariant of an `ItemAbilities` -/

theorem ability_copy {l : ItemAbilities} (h : l.Wf AbilityTypes) : l.copy = some l := by
  apply MaskList.copy_eq_self
  intro n hn
  obtain ⟨t, ht⟩ := h.type n hn
  rw [ht, isAbility_abilityType, if_pos rfl]

theorem wf_step {l l' : ItemAbilities} (h : l.Wf AbilityTypes) {op : AbilityOp}
    (hnamed : op.Named) (hstep : op.apply l = some l') : l'.Wf AbilityTypes := by
  cases op with
  | getAbility type =>
      cases hstep
      exact h.ref abilityTypes_apart hnamed _
  | setAbilityInt type value =>
      cases hstep
      exact (h.ref abilityTypes_apart hnamed _).write _ _
  | removeAbility type =>
      have hstep : l.remove type = some l' := hstep
      rcases hnamed with rfl | htype
      · simp only [MaskList.remove, ITEM_ABILITY_NONE, BitVec.ofNat_eq_ofNat,
          MaskList.has_zero] at hstep
        cases hstep
        exact h
      · obtain ⟨l₂, hl₂, hwf, -⟩ := h.remove abilityTypes_apart htype
        rw [hl₂] at hstep
        cases hstep
        exact hwf
  | copy =>
      have hstep : ItemAbilities.copy l = some l' := hstep
      rw [ability_copy h] at hstep
      cases hstep
      exact h

theorem wf_of_reach {l : ItemAbilities}
    (hreach : abilityRuns.Reach (fun _ op => op.Named) l) : l.Wf AbilityTypes := by
  apply TSys.Inductive.invariant (P := MaskList.Wf AbilityTypes) ?_ hreach
  constructor
  · rintro _ rfl
    exact MaskList.wf_empty
  · intro l op l' h hnamed hstep
    exact wf_step h hnamed hstep

theorem abilitySets {l : ItemAbilities} (h : l.Wf AbilityTypes) : AbilitySets l where
  set type htype value := by
    refine ⟨?_, othersKept_write_ref abilityTypes_apart h htype _ _⟩
    rw [ItemAbilities.getAbilityInt, ItemAbilities.getExistingAbility,
      ItemAbilities.setAbilityInt, ItemAbilities.getAbility,
      h.find_write_ref abilityTypes_apart htype _ _ htype, if_pos rfl]
    rfl
  remove type htype := remove_spec abilityTypes_apart h htype
  copy := ability_copy h

/-! ### Both lists -/

theorem distinctBits {w : Nat} {κ : Type} {bit : κ → Fin w} (hbit : Function.Injective bit) :
    DistinctBits fun t => BitVec.twoPow w (bit t) := by
  have hapart := MaskList.apart_twoPow bit
  refine ⟨fun t => hapart.ne_zero _ ⟨t, rfl⟩, ?_⟩
  intro s t hne
  refine hapart.and_eq_zero _ _ ⟨s, rfl⟩ ⟨t, rfl⟩ ?_
  intro heq
  exact hne (hbit (MaskList.twoPow_inj heq))

/-- In every run the word and the list are in step, and every setter sets its type only.
No null pointer is there as long as `getAttr` is not called from outside. -/
theorem lists_in_step :
    (∀ l, attrRuns.Reach (fun _ op => op.Named) l → InStep AttrTypes l ∧ AttrSets l) ∧
    (∀ l, attrRuns.Reach (fun _ op => op.Named ∧ op.Public) l → NoNull l) ∧
    (∀ l, abilityRuns.Reach (fun _ op => op.Named) l →
      InStep AbilityTypes l ∧ AbilitySets l) ∧
    DistinctBits attrType ∧ DistinctBits abilityType := by
  refine ⟨?_, fun l => noNull_of_reach, ?_, distinctBits AttrType.maskBit_injective,
    distinctBits ItemAbilityType.maskBit_injective⟩
  · intro l hreach
    have hkept := fits_of_reach hreach
    exact ⟨inStep attrTypes_apart hkept.list, hkept.attrSets⟩
  · intro l hreach
    have hwf := wf_of_reach hreach
    exact ⟨inStep abilityTypes_apart hwf, abilitySets hwf⟩

/-- An item with a text. -/
def letter : ItemAttributes := ItemAttributes.setStrAttr .empty (attrType (.str .text)) [72, 105]

theorem lists_in_step_letter : InStep AttrTypes letter ∧ AttrSets letter := by
  have hstep : attrRuns.step MaskList.empty
      (.setStrAttr (attrType (.str .text)) [72, 105]) letter := by
    show some letter = some letter
    rfl
  have hnamed : (AttrOp.setStrAttr (attrType (.str .text)) [72, 105]).Named :=
    .inr ⟨.str .text, rfl⟩
  exact lists_in_step.1 letter (.next (.start rfl) hnamed hstep)

/-- The text stays when it is set to the empty one. A node for `ITEM_ABILITY_NONE` has no
bit, and is not found again; one for two abilities at once has the bits of both and is the
node of neither. -/
theorem letter_keeps_text :
    letter.setStrAttr (attrType (.str .text)) [] = letter ∧
    letter.getStrAttr (attrType (.str .text)) = some [72, 105] ∧
    (ItemAbilities.setAbilityInt .empty ITEM_ABILITY_NONE 5).count ITEM_ABILITY_NONE = 1 ∧
    (ItemAbilities.setAbilityInt .empty ITEM_ABILITY_NONE 5).hasAbility
      ITEM_ABILITY_NONE = false ∧
    (ItemAbilities.setAbilityInt .empty ITEM_ABILITY_NONE 5).getAbilityInt
      ITEM_ABILITY_NONE = 0 ∧
    (ItemAbilities.setAbilityInt .empty 3 5).hasAbility (abilityType .healthGain) = true ∧
    (ItemAbilities.setAbilityInt .empty 3 5).count (abilityType .healthGain) = 0 := by
  refine ⟨rfl, ?_⟩
  decide

end Infernum.AttributeLists
