import Infernum.Tile.Runs

/-!
# The flags of a tile

What `setTileFlags` and `resetTileFlags` do to each flag, and what every edit comes
to: an item taken off, an item put on, and the flags that are reset for the one and
set for the other.
-/

namespace Infernum.Tile

variable {I C : Type} [DecidableEq I] (w : TileWorld)

/-- The flags that follow from the items, the floor changes apart. -/
inductive TileFlag
  | teleport | magicField | mailbox | trashHolder | bed | depot | supportsHangable
  | blockSolid | blockPath | immovableBlockSolid | immovableNoFieldBlockPath | noFieldBlockPath
  deriving DecidableEq, Repr

namespace TileFlag

def bit : TileFlag → Nat
  | .teleport => 11
  | .magicField => 12
  | .mailbox => 13
  | .trashHolder => 14
  | .bed => 15
  | .depot => 16
  | .blockSolid => 17
  | .blockPath => 18
  | .immovableBlockSolid => 19
  | .immovableNoFieldBlockPath => 21
  | .noFieldBlockPath => 22
  | .supportsHangable => 23

def flag (f : TileFlag) : BitVec 32 := 1 <<< f.bit

/-- An item has what the flag stands for. -/
def holds (f : TileFlag) (o : Object) : Bool :=
  match f with
  | .teleport => o.cls == .teleport
  | .magicField => o.cls == .magicField
  | .mailbox => o.cls == .mailbox
  | .trashHolder => o.cls == .trashHolder
  | .bed => o.cls == .bed
  | .depot => o.cls == .depotLocker
  | .supportsHangable => o.hasProperty w .supportHangable
  | .blockSolid => o.hasProperty w .blockSolid
  | .blockPath => o.hasProperty w .blockPath
  | .immovableBlockSolid => o.hasProperty w .immovableBlockSolid
  | .immovableNoFieldBlockPath => o.hasProperty w .immovableNoFieldBlockPath
  | .noFieldBlockPath => o.hasProperty w .noFieldBlockPath

/-- The property that `resetTileFlags` looks for in the other items before it resets
the flag; the other flags are reset in any case. -/
def counted : TileFlag → Option ItemProperty
  | .blockSolid => some .blockSolid
  | .blockPath => some .blockPath
  | .immovableBlockSolid => some .immovableBlockSolid
  | .immovableNoFieldBlockPath => some .immovableNoFieldBlockPath
  | .noFieldBlockPath => some .noFieldBlockPath
  | _ => none

theorem bit_lt (f : TileFlag) : f.bit < 32 := by
  cases f <;> decide

theorem holds_of_counted {f : TileFlag} {prop : ItemProperty} (h : f.counted = some prop)
    (o : Object) : f.holds w o = o.hasProperty w prop := by
  cases f <;> cases h <;> rfl

end TileFlag

/-! ## Single flags -/

theorem getLsbD_flag {k j : Nat} (hj : j < 32) :
    (1 <<< k : BitVec 32).getLsbD j = decide (j = k) := by
  have hpow : (1 <<< k : BitVec 32) = BitVec.twoPow 32 k := (BitVec.twoPow_eq 32 k).symm
  rw [hpow, BitVec.getLsbD_twoPow]
  by_cases hjk : j = k
  · subst hjk
    rw [decide_eq_true hj, Bool.true_and]
  · rw [decide_eq_false hjk, decide_eq_false (Ne.symm hjk), Bool.and_false]

theorem hasBitSet_eq (k : Nat) (hk : k < 32) (flags : BitVec 32) :
    hasBitSet (1 <<< k) flags = flags.getLsbD k := by
  have hpow : (1 <<< k : BitVec 32) = BitVec.twoPow 32 k := (BitVec.twoPow_eq 32 k).symm
  have hbit := getLsbD_flag (k := k) hk
  rw [decide_eq_true rfl] at hbit
  rw [hasBitSet, hpow, BitVec.and_twoPow, ← hpow]
  cases flags.getLsbD k with
  | false => rfl
  | true =>
      rw [if_pos rfl, bne_iff_ne]
      intro hzero
      have hzero' : (1 <<< k : BitVec 32).getLsbD k = false :=
        hzero ▸ BitVec.getLsbD_zero
      rw [hbit] at hzero'
      cases hzero'

theorem getLsbD_setIf (c : Bool) {k j : Nat} (hj : j < 32) (flags : BitVec 32) :
    (setIf c (1 <<< k) flags).getLsbD j = (flags.getLsbD j || (c && decide (j = k))) := by
  rw [setIf]
  cases c with
  | false => exact (Bool.or_false _).symm
  | true => rw [if_pos rfl, BitVec.getLsbD_or, getLsbD_flag hj, Bool.true_and]

theorem getLsbD_resetIf (c : Bool) {k j : Nat} (hj : j < 32) (flags : BitVec 32) :
    (resetIf c (1 <<< k) flags).getLsbD j = (flags.getLsbD j && !(c && decide (j = k))) := by
  rw [resetIf]
  cases c with
  | false => exact (Bool.and_true _).symm
  | true =>
      rw [if_pos rfl, BitVec.getLsbD_and, BitVec.getLsbD_not, getLsbD_flag hj, decide_eq_true hj,
        Bool.true_and, Bool.true_and]

theorem getLsbD_floorChange (j : Nat) : TILESTATE_FLOORCHANGE.getLsbD j = decide (j < 7) := by
  rw [BitVec.getLsbD, show TILESTATE_FLOORCHANGE.toNat = 2 ^ 7 - 1 from rfl,
    Nat.testBit_two_pow_sub_one]

theorem getLsbD_setIf_floorChange (c : Bool) (floorChange : BitVec 8) {j : Nat} (hj : 8 ≤ j)
    (flags : BitVec 32) :
    (setIf c (floorChange.setWidth 32) flags).getLsbD j = flags.getLsbD j := by
  have hzero : (floorChange.setWidth 32).getLsbD j = false := by
    rw [BitVec.getLsbD_setWidth, BitVec.getLsbD_of_ge floorChange j hj, Bool.and_false]
  rw [setIf]
  split
  · rw [BitVec.getLsbD_or, hzero, Bool.or_false]
  · rfl

theorem getLsbD_resetIf_floorChange (c : Bool) {j : Nat} (hj : 8 ≤ j) (hj' : j < 32)
    (flags : BitVec 32) :
    (resetIf c TILESTATE_FLOORCHANGE flags).getLsbD j = flags.getLsbD j := by
  have hzero : TILESTATE_FLOORCHANGE.getLsbD j = false := by
    rw [getLsbD_floorChange]
    exact decide_eq_false (by omega)
  rw [resetIf]
  split
  · rw [BitVec.getLsbD_and, BitVec.getLsbD_not, hzero, decide_eq_true hj']
    exact Bool.and_true _
  · rfl

namespace TileFlag

theorem le_bit (f : TileFlag) : 8 ≤ f.bit := by
  cases f <;> decide

omit [DecidableEq I] in
theorem hasFlag_eq (f : TileFlag) (t : Tile I C) : t.hasFlag f.flag = t.flags.getLsbD f.bit :=
  hasBitSet_eq f.bit f.bit_lt t.flags

omit [DecidableEq I] in
/-- `setTileFlags` sets the flags of the item. -/
theorem hasFlag_setTileFlags (f : TileFlag) (t : Tile I C) (item : I) :
    (t.setTileFlags w item).hasFlag f.flag =
      (t.hasFlag f.flag || f.holds w (t.object item)) := by
  have hfloor : ∀ flags : BitVec 32, (if hasBitSet TILESTATE_FLOORCHANGE flags then flags
      else setIf ((w.tileItemType (t.object item).id).floorChange != 0)
        ((w.tileItemType (t.object item).id).floorChange.setWidth 32) flags).getLsbD f.bit =
      flags.getLsbD f.bit := by
    intro flags
    split
    · rfl
    · exact getLsbD_setIf_floorChange _ _ f.le_bit flags
  rw [hasFlag_eq, hasFlag_eq]
  show BitVec.getLsbD (setIf _ _ _) f.bit = _
  simp only [TILESTATE_TELEPORT, TILESTATE_MAGICFIELD, TILESTATE_MAILBOX, TILESTATE_TRASHHOLDER,
    TILESTATE_BED, TILESTATE_DEPOT, TILESTATE_BLOCKSOLID, TILESTATE_BLOCKPATH,
    TILESTATE_IMMOVABLEBLOCKSOLID, TILESTATE_IMMOVABLENOFIELDBLOCKPATH, TILESTATE_NOFIELDBLOCKPATH,
    TILESTATE_SUPPORTS_HANGABLE, getLsbD_setIf _ f.bit_lt, hfloor]
  cases f <;> simp [bit, holds]

/-- Whether `resetTileFlags` resets the flag for an item. -/
def resets (f : TileFlag) (t : Tile I C) (item : I) : Bool :=
  match f.counted with
  | some prop => t.soleProperty w item prop
  | none => f.holds w (t.object item)

theorem hasFlag_resetTileFlags (f : TileFlag) (t : Tile I C) (item : I) :
    (t.resetTileFlags w item).hasFlag f.flag = (t.hasFlag f.flag && !f.resets w t item) := by
  rw [hasFlag_eq, hasFlag_eq]
  show BitVec.getLsbD (resetIf _ _ _) f.bit = _
  simp only [TILESTATE_TELEPORT, TILESTATE_MAGICFIELD, TILESTATE_MAILBOX, TILESTATE_TRASHHOLDER,
    TILESTATE_BED, TILESTATE_DEPOT, TILESTATE_BLOCKSOLID, TILESTATE_BLOCKPATH,
    TILESTATE_IMMOVABLEBLOCKSOLID, TILESTATE_IMMOVABLEBLOCKPATH,
    TILESTATE_IMMOVABLENOFIELDBLOCKPATH, TILESTATE_NOFIELDBLOCKPATH,
    TILESTATE_SUPPORTS_HANGABLE, getLsbD_resetIf _ f.bit_lt,
    getLsbD_resetIf_floorChange _ f.le_bit f.bit_lt]
  cases f <;> simp [bit, holds, resets, counted]

end TileFlag

/-! ## What an edit takes off and puts on -/

/-- A predicate on objects that depends on the type, the class and the unique id. -/
def Intrinsic (p : Object → Bool) : Prop :=
  ∀ o o' : Object, o.id = o'.id → o.Alike o' → p o = p o'

theorem TileFlag.intrinsic (f : TileFlag) : Intrinsic (f.holds w) := by
  intro o o' hid halike
  have hitemType : o'.itemType w = o.itemType w := by rw [Object.itemType, Object.itemType, hid]
  cases f <;> simp only [holds, Object.hasProperty, hitemType, hid, halike.1, halike.2]

/-- Some item on the tile. -/
def Holds (p : Object → Bool) (t : Tile I C) : Prop := ∃ i, t.OnTile i ∧ p (t.object i) = true

namespace Edit

/-- The item that is taken off, or gets a new type. -/
def old (t : Tile I C) : Edit I C → Option I
  | .setGround _ => t.ground
  | .removeGround => t.ground
  | .eraseTop item => some item
  | .eraseDown item => some item
  | .replaceAt k _ => t.items.items[k]?
  | .update item _ => some item
  | _ => none

/-- The item that is put on, or got a new type. -/
def new (t : Tile I C) : Edit I C → Option I
  | .setGround item => some item
  | .insertTop _ item => some item
  | .insertDown item => some item
  | .replaceAt k item => (t.items.items[k]?).map fun _ => item
  | .update item _ => some item
  | _ => none

/-- The objects after an edit. -/
def objects (t : Tile I C) : Edit I C → I → Object
  | .update item o => Function.update t.object item o
  | .setObject item o => Function.update t.object item o
  | _ => t.object

variable (p : Object → Bool) (t : Tile I C) (e : Edit I C)

def OldHolds : Prop := ∃ i, e.old t = some i ∧ p (t.object i) = true

/-- An item that stays. -/
def RestHolds : Prop := ∃ i, t.OnTile i ∧ e.old t ≠ some i ∧ p (t.object i) = true

def NewHolds : Prop := ∃ i, e.new t = some i ∧ p (e.objects t i) = true

end Edit

section Change

variable {t : Tile I C} {e : Edit I C}

omit [DecidableEq I] in
theorem mem_set_iff {items : List I} (hnodup : items.Nodup) {k : Nat} {old : I}
    (hk : items[k]? = some old) (item i : I) :
    i ∈ items.set k item ↔ (i ∈ items ∧ i ≠ old) ∨ i = item := by
  induction items generalizing k with
  | nil => cases hk
  | cons i' items ih =>
      obtain ⟨hnew, hnodup⟩ := List.nodup_cons.mp hnodup
      cases k with
      | zero =>
          obtain rfl : i' = old := Option.some.inj hk
          rw [List.set_cons_zero, List.mem_cons, List.mem_cons, or_comm, or_and_right]
          refine or_congr_left ⟨fun hi => .inr ⟨hi, fun heq => hnew (heq ▸ hi)⟩, ?_⟩
          rintro (⟨heq, hne⟩ | ⟨hi, _⟩)
          · exact absurd heq hne
          · exact hi
      | succ k =>
          have hold : old ∈ items := List.mem_of_getElem? hk
          rw [List.set_cons_succ, List.mem_cons, List.mem_cons, ih hnodup hk, or_and_right, or_assoc]
          refine or_congr_left' fun _ => ⟨fun heq => ⟨heq, ?_⟩, fun h => h.1⟩
          rintro rfl
          exact hnew (heq ▸ hold)

omit [DecidableEq I] in
theorem old_onTile (hvalid : e.Valid w t) {i : I} (hi : e.old t = some i) : t.OnTile i := by
  cases e with
  | setGround item => exact .inl hi
  | removeGround => exact .inl hi
  | eraseTop item => exact .inr (Option.some.inj hi ▸ mem_of_mem_topItems hvalid)
  | eraseDown item => exact .inr (Option.some.inj hi ▸ mem_of_mem_downItems hvalid)
  | replaceAt k item => exact .inr (List.mem_of_getElem? hi)
  | update item o => exact Option.some.inj hi ▸ hvalid.1
  | insertTop strict item => cases hi
  | insertDown item => cases hi
  | setObject item o => cases hi
  | setCreatures creatures => cases hi

omit [DecidableEq I] in
/-- Before an edit. -/
theorem holds_iff (p : Object → Bool) (hvalid : e.Valid w t) :
    t.Holds p ↔ e.OldHolds p t ∨ e.RestHolds p t := by
  constructor
  · rintro ⟨i, hi, hp⟩
    by_cases hold : e.old t = some i
    · exact .inl ⟨i, hold, hp⟩
    · exact .inr ⟨i, hi, hold, hp⟩
  · rintro (⟨i, hi, hp⟩ | ⟨i, hi, _, hp⟩)
    · exact ⟨i, old_onTile w hvalid hi, hp⟩
    · exact ⟨i, hi, hp⟩

/-- An item off the vector. -/
theorem onTile_erase (hproper : t.Proper) {item : I} (hitem : item ∈ t.items.items) (i : I) :
    t.ground = some i ∨ i ∈ t.items.items.erase item ↔ t.OnTile i ∧ some item ≠ some i := by
  rw [hproper.nodup.mem_erase_iff, OnTile, or_and_right]
  refine or_congr ⟨fun hi => ⟨hi, ?_⟩, fun h => h.1⟩ ?_
  · intro heq
    exact hproper.ground i hi (Option.some.inj heq ▸ hitem)
  · rw [and_comm]
    exact and_congr_right fun _ => ⟨fun hne heq => hne (Option.some.inj heq).symm,
      fun hne heq => hne (congrArg some heq.symm)⟩

/-- The items after an edit. -/
theorem apply_onTile_iff (hproper : t.Proper) (hvalid : e.Valid w t) (i : I) :
    (t.apply w e).OnTile i ↔ (t.OnTile i ∧ e.old t ≠ some i) ∨ e.new t = some i := by
  have hsame : t.OnTile i ↔ (t.OnTile i ∧ (none : Option I) ≠ some i) ∨ (none : Option I) = some i :=
    ⟨fun h => .inl ⟨h, nofun⟩, fun h => h.elim (fun h => h.1) nofun⟩
  have hadd : ∀ item, i = item ∨ t.OnTile i ↔
      (t.OnTile i ∧ (none : Option I) ≠ some i) ∨ some item = some i := by
    intro item
    rw [or_comm, Option.some.injEq, eq_comm]
    exact or_congr_left ⟨fun h => ⟨h, nofun⟩, fun h => h.1⟩
  have hgroundOff : i ∈ t.items.items ↔ t.OnTile i ∧ t.ground ≠ some i := by
    refine ⟨fun hi => ⟨.inr hi, fun hg => hproper.ground i hg hi⟩, fun h => ?_⟩
    exact h.1.resolve_left h.2
  cases e with
  | setGround item =>
      obtain ⟨hground, hitems, _⟩ := t.apply_setGround w item
      rw [OnTile, hground, hitems, hgroundOff, or_comm]
      rfl
  | removeGround =>
      obtain ⟨hground, hitems, _⟩ := t.apply_removeGround w
      rw [OnTile, hground, hitems, hgroundOff]
      exact ⟨fun h => h.elim nofun .inl, fun h => h.elim .inr nofun⟩
  | insertTop strict item =>
      refine Iff.trans ?_ (hadd item)
      show t.ground = some i ∨ i ∈ (t.insertTop _ item).items.items ↔ _
      rw [(t.insertTop_perm _ item).mem_iff, List.mem_cons, or_left_comm]
      rfl
  | insertDown item =>
      refine Iff.trans ?_ (hadd item)
      show t.ground = some i ∨ i ∈ item :: t.items.items ↔ _
      rw [List.mem_cons, or_left_comm]
      rfl
  | eraseTop item =>
      show t.ground = some i ∨ i ∈ (t.eraseTop item).items.items ↔ _
      rw [hproper.eraseTop_items hvalid, onTile_erase hproper (mem_of_mem_topItems hvalid)]
      exact ⟨.inl, fun h => h.elim id nofun⟩
  | eraseDown item =>
      show t.ground = some i ∨ i ∈ (t.eraseDown item).items.items ↔ _
      rw [t.eraseDown_items hvalid, onTile_erase hproper (mem_of_mem_downItems hvalid)]
      exact ⟨.inl, fun h => h.elim id nofun⟩
  | replaceAt k item =>
      show (t.replaceAt w k item).ground = some i ∨ i ∈ (t.replaceAt w k item).items.items ↔
        (t.OnTile i ∧ t.items.items[k]? ≠ some i) ∨ (t.items.items[k]?).map (fun _ => item) = some i
      rw [replaceAt_ground, replaceAt_items]
      cases hold : t.items.items[k]? with
      | none =>
          rw [List.set_eq_of_length_le (List.getElem?_eq_none_iff.mp hold)]
          exact hsame
      | some old =>
          have hmem : old ∈ t.items.items := List.mem_of_getElem? hold
          show t.ground = some i ∨ i ∈ t.items.items.set k item ↔
            (t.OnTile i ∧ some old ≠ some i) ∨ some item = some i
          rw [mem_set_iff hproper.nodup hold, ← onTile_erase hproper hmem,
            hproper.nodup.mem_erase_iff, or_assoc, and_comm, Option.some.injEq, eq_comm (a := i)]
  | update item o =>
      show t.OnTile i ↔ (t.OnTile i ∧ some item ≠ some i) ∨ some item = some i
      constructor
      · intro hi
        by_cases heq : some item = some i
        · exact .inr heq
        · exact .inl ⟨hi, heq⟩
      · rintro (h | heq)
        · exact h.1
        · exact Option.some.inj heq ▸ hvalid.1
  | setObject item o => exact hsame
  | setCreatures creatures => exact hsame

theorem apply_object (t : Tile I C) (e : Edit I C) : (t.apply w e).object = e.objects t := by
  cases e with
  | setGround item => exact (t.apply_setGround w item).2.2
  | removeGround => exact (t.apply_removeGround w).2.2
  | replaceAt k item => exact t.replaceAt_object w k item
  | insertTop strict item => rfl
  | insertDown item => rfl
  | eraseTop item => rfl
  | eraseDown item => rfl
  | update item o => rfl
  | setObject item o => rfl
  | setCreatures creatures => rfl

/-- An item that stays keeps its values, as far as they matter. -/
theorem objects_of_rest {p : Object → Bool} (hp : Intrinsic p) (hvalid : e.Valid w t) {i : I}
    (hi : t.OnTile i) (hold : e.old t ≠ some i) : p (e.objects t i) = p (t.object i) := by
  cases e with
  | update item o =>
      have hne : i ≠ item := fun heq => hold (congrArg some heq.symm)
      show p (Function.update t.object item o i) = _
      rw [Function.update_of_ne hne]
  | setObject item o =>
      show p (Function.update t.object item o i) = _
      rw [Function.update_apply]
      split
      case isFalse => rfl
      case isTrue heq =>
        subst heq
        rcases hvalid with hoff | ⟨hid, halike⟩
        · exact absurd hi hoff
        · exact (hp _ _ hid halike).symm
  | setGround item => rfl
  | removeGround => rfl
  | replaceAt k item => rfl
  | insertTop strict item => rfl
  | insertDown item => rfl
  | eraseTop item => rfl
  | eraseDown item => rfl
  | setCreatures creatures => rfl

/-- After an edit. -/
theorem holds_apply_iff {p : Object → Bool} (hp : Intrinsic p) (hproper : t.Proper)
    (hvalid : e.Valid w t) : (t.apply w e).Holds p ↔ e.RestHolds p t ∨ e.NewHolds p t := by
  rw [Holds, apply_object]
  constructor
  · rintro ⟨i, hi, hpi⟩
    by_cases hnew : e.new t = some i
    · exact .inr ⟨i, hnew, hpi⟩
    · obtain ⟨hon, hold⟩ := ((apply_onTile_iff w hproper hvalid i).mp hi).resolve_right hnew
      exact .inl ⟨i, hon, hold, objects_of_rest w hp hvalid hon hold ▸ hpi⟩
  · rintro (⟨i, hon, hold, hpi⟩ | ⟨i, hnew, hpi⟩)
    · refine ⟨i, (apply_onTile_iff w hproper hvalid i).mpr (.inl ⟨hon, hold⟩), ?_⟩
      rw [objects_of_rest w hp hvalid hon hold]
      exact hpi
    · exact ⟨i, (apply_onTile_iff w hproper hvalid i).mpr (.inr hnew), hpi⟩

/-! What an edit does to the flags: they are reset for the old item, when the item is
off and the new one may be on already, and set for the new one. -/

def resetFor (t : Tile I C) : Option I → Tile I C
  | none => t
  | some i => t.resetTileFlags w i

def setFor (t : Tile I C) : Option I → Tile I C
  | none => t
  | some i => t.setTileFlags w i

/-- The tile at the time of the reset. -/
structure Amid (t : Tile I C) (e : Edit I C) (t' : Tile I C) : Prop where
  flags : t'.flags = t.flags
  object : t'.object = t.object
  rest : ∀ i, t.OnTile i → e.old t ≠ some i → t'.OnTile i
  other : ∀ i, t'.OnTile i → e.old t ≠ some i →
    t.OnTile i ∨ (e.new t = some i ∧ e.objects t i = t.object i)

theorem apply_flags (hproper : t.Proper) (hvalid : e.Valid w t) :
    ∃ t', Amid t e t' ∧ (t.apply w e).flags =
      (setFor w { t'.resetFor w (e.old t) with object := e.objects t } (e.new t)).flags := by
  have hsame : ∀ t' : Tile I C, t'.flags = t.flags → t'.object = t.object → e.old t = none →
      (∀ i, t'.OnTile i ↔ t.OnTile i) → Amid t e t' := fun t' hflags hobject hold hon =>
    ⟨hflags, hobject, fun i hi _ => (hon i).mpr hi, fun i hi _ => .inl ((hon i).mp hi)⟩
  cases e with
  | setGround item =>
      refine ⟨{ t with ground := some item }, ⟨rfl, rfl, ?_, ?_⟩, ?_⟩
      · intro i hi hne
        exact .inr (hi.resolve_left hne)
      · intro i hi _
        rcases hi with hi | hi
        · exact .inr ⟨hi, rfl⟩
        · exact .inl (.inr hi)
      · rw [apply, Edit.old]
        cases t.ground <;> rfl
  | removeGround =>
      refine ⟨{ t with ground := none }, ⟨rfl, rfl, ?_, ?_⟩, ?_⟩
      · intro i hi hne
        exact .inr (hi.resolve_left hne)
      · exact fun i hi _ => .inl (.inr (hi.resolve_left (by simp)))
      · rw [apply, Edit.old]
        cases t.ground <;> rfl
  | eraseTop item =>
      have hon := onTile_erase hproper (mem_of_mem_topItems hvalid)
      rw [← hproper.eraseTop_items hvalid] at hon
      exact ⟨t.eraseTop item, ⟨rfl, rfl, fun i hi hne => (hon i).mpr ⟨hi, hne⟩,
        fun i hi _ => .inl ((hon i).mp hi).1⟩, rfl⟩
  | eraseDown item =>
      have hon := onTile_erase hproper (mem_of_mem_downItems hvalid)
      rw [← t.eraseDown_items hvalid] at hon
      exact ⟨t.eraseDown item, ⟨rfl, rfl, fun i hi hne => (hon i).mpr ⟨hi, hne⟩,
        fun i hi _ => .inl ((hon i).mp hi).1⟩, rfl⟩
  | replaceAt k item =>
      rw [apply, replaceAt, Edit.old, Edit.new]
      cases hk : t.items.items[k]? with
      | none => exact ⟨t, hsame t rfl rfl hk fun i => .rfl, rfl⟩
      | some old =>
          have hmem := mem_set_iff hproper.nodup hk item
          refine ⟨t.setAt k item, ⟨rfl, rfl, ?_, ?_⟩, rfl⟩
          · intro i hi hne
            rw [Edit.old, hk] at hne
            rcases hi with hi | hi
            · exact .inl hi
            · exact .inr ((hmem i).mpr (.inl ⟨hi, fun heq => hne (congrArg some heq.symm)⟩))
          · intro i hi _
            rcases hi with hi | hi
            · exact .inl (.inl hi)
            · rcases (hmem i).mp hi with ⟨hi, _⟩ | rfl
              · exact .inl (.inr hi)
              · exact .inr ⟨by rw [Edit.new, hk]; rfl, rfl⟩
  | update item o => exact ⟨t, ⟨rfl, rfl, fun _ hi _ => hi, fun _ hi _ => .inl hi⟩, rfl⟩
  | insertTop strict item => exact ⟨t, hsame t rfl rfl rfl fun i => .rfl, rfl⟩
  | insertDown item => exact ⟨t, hsame t rfl rfl rfl fun i => .rfl, rfl⟩
  | setObject item o => exact ⟨t, hsame t rfl rfl rfl fun i => .rfl, rfl⟩
  | setCreatures creatures => exact ⟨t, hsame t rfl rfl rfl fun i => .rfl, rfl⟩

end Change

/-! ## What an edit does to a flag -/

omit [DecidableEq I] in
theorem hasProperty_iff (t : Tile I C) (prop : ItemProperty) :
    t.hasProperty w prop = true ↔ t.Holds (Object.hasProperty w · prop) := by
  rw [hasProperty, Bool.or_eq_true, List.any_eq_true]
  constructor
  · rintro (hground | ⟨i, hi, hp⟩)
    · cases hg : t.ground with
      | none =>
          rw [hg] at hground
          cases hground
      | some ground =>
          rw [hg] at hground
          exact ⟨ground, .inl hg, hground⟩
    · exact ⟨i, .inr hi, hp⟩
  · rintro ⟨i, hg | hi, hp⟩
    · left
      rw [hg]
      exact hp
    · exact .inr ⟨i, hi, hp⟩

theorem hasPropertyExcept_iff (t : Tile I C) (exclude : I) (prop : ItemProperty) :
    t.hasPropertyExcept w exclude prop = true ↔
      ∃ i, t.OnTile i ∧ i ≠ exclude ∧ (t.object i).hasProperty w prop = true := by
  rw [hasPropertyExcept, Bool.or_eq_true, List.any_eq_true]
  constructor
  · rintro (hground | ⟨i, hi, hp⟩)
    · cases hg : t.ground with
      | none =>
          rw [hg] at hground
          cases hground
      | some ground =>
          rw [hg, Bool.and_eq_true, decide_eq_true_eq] at hground
          exact ⟨ground, .inl hg, hground.1.symm, hground.2⟩
    · rw [Bool.and_eq_true, decide_eq_true_eq] at hp
      exact ⟨i, .inr hi, hp⟩
  · rintro ⟨i, hg | hi, hne, hp⟩
    · left
      rw [hg]
      show (decide (exclude ≠ i) && (t.object i).hasProperty w prop) = true
      rw [decide_eq_true hne.symm, hp]
      rfl
    · refine .inr ⟨i, hi, ?_⟩
      rw [decide_eq_true hne, hp]
      rfl

namespace TileFlag

theorem resets_iff (f : TileFlag) (t : Tile I C) (item : I) :
    f.resets w t item = true ↔ f.holds w (t.object item) = true ∧
      (f.counted.isSome = true →
        ¬∃ i, t.OnTile i ∧ i ≠ item ∧ f.holds w (t.object i) = true) := by
  rw [resets]
  cases hcounted : f.counted with
  | none => exact ⟨fun h => ⟨h, nofun⟩, fun h => h.1⟩
  | some prop =>
      simp only [holds_of_counted w hcounted]
      rw [soleProperty, Bool.and_eq_true, Bool.not_eq_true', ← Bool.not_eq_true,
        hasPropertyExcept_iff]
      exact ⟨fun h => ⟨h.1, fun _ => h.2⟩, fun h => ⟨h.1, h.2 rfl⟩⟩

variable {t : Tile I C} {e : Edit I C}

/-- What an edit does to a flag: it is reset for the old item, unless it is counted
and another item has it, and set for the new one. -/
theorem hasFlag_apply_iff (f : TileFlag) (hproper : t.Proper) (hvalid : e.Valid w t) :
    (t.apply w e).hasFlag f.flag = true ↔
      (t.hasFlag f.flag = true ∧ ¬(e.OldHolds (f.holds w) t ∧
        (f.counted.isSome = true → ¬e.RestHolds (f.holds w) t))) ∨
      e.NewHolds (f.holds w) t := by
  obtain ⟨t', hamid, hflags⟩ := apply_flags w hproper hvalid
  -- the new item
  have hset : (t.apply w e).hasFlag f.flag = true ↔
      (t'.resetFor w (e.old t)).hasFlag f.flag = true ∨ e.NewHolds (f.holds w) t := by
    rw [hasFlag, hflags, Edit.NewHolds]
    cases e.new t with
    | none => exact (or_iff_left nofun).symm
    | some item =>
        show (Tile.setTileFlags w { t'.resetFor w (e.old t) with object := e.objects t }
          item).hasFlag f.flag = true ↔ _
        rw [hasFlag_setTileFlags, Bool.or_eq_true]
        refine or_congr .rfl ⟨fun h => ⟨item, rfl, h⟩, ?_⟩
        rintro ⟨i, hi, hp⟩
        exact Option.some.inj hi ▸ hp
  rw [hset]
  refine or_congr_left' fun hnew => ?_
  -- the old item, where the new one does not have the flag
  have hother : ∀ item, e.old t = some item → ((∃ i, t'.OnTile i ∧ i ≠ item ∧
      f.holds w (t'.object i) = true) ↔ e.RestHolds (f.holds w) t) := by
    intro item hold
    rw [Edit.RestHolds, hamid.object]
    constructor
    · rintro ⟨i, hi, hne, hp⟩
      have hne' : e.old t ≠ some i := fun heq => hne (Option.some.inj (heq.symm.trans hold))
      rcases hamid.other i hi hne' with hi | ⟨hi, hobject⟩
      · exact ⟨i, hi, hne', hp⟩
      · exact absurd ⟨i, hi, hobject ▸ hp⟩ hnew
    · rintro ⟨i, hi, hne, hp⟩
      exact ⟨i, hamid.rest i hi hne, fun heq => hne (heq ▸ hold), hp⟩
  rw [Edit.OldHolds]
  cases hold : e.old t with
  | none =>
      rw [resetFor, hasFlag, hamid.flags]
      exact ⟨fun h => ⟨h, fun ⟨⟨i, hi, _⟩, _⟩ => nomatch hi⟩, fun h => h.1⟩
  | some item =>
      rw [resetFor, hasFlag_resetTileFlags, Bool.and_eq_true, Bool.not_eq_true', ← Bool.not_eq_true,
        resets_iff, hother item hold, hamid.object, hasFlag, hamid.flags, hasFlag]
      refine and_congr_right fun _ => not_congr (and_congr_left fun _ => ?_)
      exact ⟨fun hp => ⟨item, rfl, hp⟩, fun ⟨i, hi, hp⟩ => Option.some.inj hi ▸ hp⟩

end TileFlag

/-! ## What an edit does to the floor-change flags -/

/-- An item has one of the seven floor changes. -/
def changesFloor (j : Nat) (o : Object) : Bool := (w.tileItemType o.id).floorChange.getLsbD j

/-- The check of `setTileFlags` and `resetTileFlags`. -/
def floorChanges (o : Object) : Bool := (w.tileItemType o.id).floorChange != 0

theorem changesFloor_intrinsic (j : Nat) : Intrinsic (changesFloor w j) := by
  intro o o' hid _
  rw [changesFloor, changesFloor, hid]

theorem floorChanges_of_changesFloor {j : Nat} {o : Object} (h : changesFloor w j o = true) :
    floorChanges w o = true := by
  rw [floorChanges, bne_iff_ne]
  intro hzero
  rw [changesFloor, hzero] at h
  exact absurd h (by simp)

omit [DecidableEq I] in
theorem hasFlag_floorChange_iff (t : Tile I C) :
    t.hasFlag TILESTATE_FLOORCHANGE = true ↔ ∃ j < 7, t.flags.getLsbD j = true := by
  rw [hasFlag, hasBitSet, bne_iff_ne]
  constructor
  · intro hne
    by_contra hnone
    refine hne (BitVec.eq_of_getLsbD_eq fun j _ => ?_)
    rw [BitVec.getLsbD_and, getLsbD_floorChange]
    by_cases hj : j < 7
    · have hbit : t.flags.getLsbD j = false :=
        Bool.eq_false_iff.mpr fun h => hnone ⟨j, hj, h⟩
      rw [hbit, Bool.false_and]
      exact BitVec.getLsbD_zero.symm
    · rw [decide_eq_false hj, Bool.and_false]
      exact BitVec.getLsbD_zero.symm
  · rintro ⟨j, hj, hbit⟩ hzero
    have h := congrArg (fun v => BitVec.getLsbD v j) hzero
    change (t.flags &&& TILESTATE_FLOORCHANGE).getLsbD j = BitVec.getLsbD 0 j at h
    rw [BitVec.getLsbD_and, getLsbD_floorChange, hbit, decide_eq_true hj] at h
    exact absurd h (by simp)

omit [DecidableEq I] in
theorem getLsbD_setTileFlags {j : Nat} (hj : j < 7) (t : Tile I C) (item : I) :
    (t.setTileFlags w item).flags.getLsbD j =
      (t.flags.getLsbD j ||
        (!t.hasFlag TILESTATE_FLOORCHANGE && changesFloor w j (t.object item))) := by
  have hj' : j < 32 := by omega
  have hother : ∀ k, 8 ≤ k → decide (j = k) = false := fun k hk => decide_eq_false (by omega)
  have hwidth : ∀ fc : BitVec 8, (fc.setWidth 32).getLsbD j = fc.getLsbD j := fun fc => by
    rw [BitVec.getLsbD_setWidth, decide_eq_true hj', Bool.true_and]
  have hfloor : (if hasBitSet TILESTATE_FLOORCHANGE t.flags then t.flags
      else setIf ((w.tileItemType (t.object item).id).floorChange != 0)
        ((w.tileItemType (t.object item).id).floorChange.setWidth 32) t.flags).getLsbD j =
      (t.flags.getLsbD j ||
        (!t.hasFlag TILESTATE_FLOORCHANGE && changesFloor w j (t.object item))) := by
    rw [hasFlag, changesFloor]
    cases hasBitSet TILESTATE_FLOORCHANGE t.flags with
    | true => exact (Bool.or_false _).symm
    | false =>
        rw [if_neg nofun, setIf]
        by_cases hzero : (w.tileItemType (t.object item).id).floorChange = 0
        · rw [hzero]
          simp
        · rw [if_pos (bne_iff_ne.mpr hzero), BitVec.getLsbD_or, hwidth]
          rfl
  rw [← hfloor]
  show BitVec.getLsbD (setIf _ _ _) j = _
  simp only [TILESTATE_TELEPORT, TILESTATE_MAGICFIELD, TILESTATE_MAILBOX, TILESTATE_TRASHHOLDER,
    TILESTATE_BED, TILESTATE_DEPOT, TILESTATE_BLOCKSOLID, TILESTATE_BLOCKPATH,
    TILESTATE_IMMOVABLEBLOCKSOLID, TILESTATE_IMMOVABLENOFIELDBLOCKPATH, TILESTATE_NOFIELDBLOCKPATH,
    TILESTATE_SUPPORTS_HANGABLE, getLsbD_setIf _ hj']
  simp [hother]

theorem getLsbD_resetTileFlags {j : Nat} (hj : j < 7) (t : Tile I C) (item : I) :
    (t.resetTileFlags w item).flags.getLsbD j =
      (t.flags.getLsbD j && !floorChanges w (t.object item)) := by
  have hj' : j < 32 := by omega
  have hother : ∀ k, 8 ≤ k → decide (j = k) = false := fun k hk => decide_eq_false (by omega)
  have hfloor : ∀ c, (resetIf c TILESTATE_FLOORCHANGE t.flags).getLsbD j =
      (t.flags.getLsbD j && !c) := by
    intro c
    rw [resetIf]
    cases c with
    | false => exact (Bool.and_true _).symm
    | true =>
        rw [if_pos rfl, BitVec.getLsbD_and, BitVec.getLsbD_not, getLsbD_floorChange,
          decide_eq_true hj, decide_eq_true hj']
        rfl
  rw [floorChanges, ← hfloor]
  show BitVec.getLsbD (resetIf _ _ _) j = _
  simp only [TILESTATE_TELEPORT, TILESTATE_MAGICFIELD, TILESTATE_MAILBOX, TILESTATE_TRASHHOLDER,
    TILESTATE_BED, TILESTATE_DEPOT, TILESTATE_BLOCKSOLID, TILESTATE_BLOCKPATH,
    TILESTATE_IMMOVABLEBLOCKSOLID, TILESTATE_IMMOVABLEBLOCKPATH,
    TILESTATE_IMMOVABLENOFIELDBLOCKPATH, TILESTATE_NOFIELDBLOCKPATH,
    TILESTATE_SUPPORTS_HANGABLE, getLsbD_resetIf _ hj']
  simp [hother]

/-- What an edit does to the floor-change flags: all are reset for an old item with a
floor change, and those of the new one are set if there are none. -/
theorem floorChange_apply_iff {t : Tile I C} {e : Edit I C} (hproper : t.Proper)
    (hvalid : e.Valid w t) {j : Nat} (hj : j < 7) :
    (t.apply w e).flags.getLsbD j = true ↔
      (t.flags.getLsbD j = true ∧ ¬e.OldHolds (floorChanges w) t) ∨
      ((∀ k < 7, ¬(t.flags.getLsbD k = true ∧ ¬e.OldHolds (floorChanges w) t)) ∧
        e.NewHolds (changesFloor w j) t) := by
  obtain ⟨t', hamid, hflags⟩ := apply_flags w hproper hvalid
  -- the old item
  have hreset : ∀ k < 7, (t'.resetFor w (e.old t)).flags.getLsbD k = true ↔
      t.flags.getLsbD k = true ∧ ¬e.OldHolds (floorChanges w) t := by
    intro k hk
    rw [Edit.OldHolds]
    cases e.old t with
    | none =>
        rw [resetFor, hamid.flags]
        exact ⟨fun h => ⟨h, fun ⟨i, hi, _⟩ => nomatch hi⟩, fun h => h.1⟩
    | some item =>
        rw [resetFor, getLsbD_resetTileFlags w hk, Bool.and_eq_true, Bool.not_eq_true',
          ← Bool.not_eq_true, hamid.flags, hamid.object]
        refine and_congr_right fun _ => not_congr ⟨fun hp => ⟨item, rfl, hp⟩, ?_⟩
        exact fun ⟨i, hi, hp⟩ => Option.some.inj hi ▸ hp
  -- the new item
  rw [hflags, ← hreset j hj, Edit.NewHolds]
  cases e.new t with
  | none => exact (or_iff_left fun h => nomatch h.2.choose_spec.1).symm
  | some item =>
      show (Tile.setTileFlags w { t'.resetFor w (e.old t) with object := e.objects t }
        item).flags.getLsbD j = true ↔ _
      rw [getLsbD_setTileFlags w hj, Bool.or_eq_true, Bool.and_eq_true, Bool.not_eq_true',
        ← Bool.not_eq_true, hasFlag_floorChange_iff]
      refine or_congr .rfl (and_congr ?_ ⟨fun hp => ⟨item, rfl, hp⟩, ?_⟩)
      · constructor
        · exact fun hnone k hk h => hnone ⟨k, hk, (hreset k hk).mpr h⟩
        · exact fun hall ⟨k, hk, h⟩ => hall k hk ((hreset k hk).mp h)
      · exact fun ⟨i, hi, hp⟩ => Option.some.inj hi ▸ hp

end Infernum.Tile
