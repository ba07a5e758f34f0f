import Mathlib.Data.List.Nodup
import Mathlib.Data.List.Perm.Basic
import Mathlib.Logic.Function.Basic
import Mathlib.Tactic.Common

/-!
# Lists of tagged entries with a mask

Entries in a singly linked list, each with a key, and a mask with one bit for each key
that is there. The mask is asked first and the list searched for what it promises. As a
map the two are one: `find` reads it, `set` updates an entry and `remove` takes one out.
-/

namespace Infernum.Lib

structure TagList (w : Nat) (E : Type*) where
  entries : List E
  bits : BitVec w

namespace TagList

variable {w : Nat} {E κ : Type*} [DecidableEq κ]

def empty : TagList w E := { entries := [], bits := 0 }

/-- The first entry with the key becomes `e`. -/
def assign (key : E → κ) (e : E) : List E → List E
  | [] => []
  | e' :: rest => if key e' = key e then e :: rest else e' :: assign key e rest

variable (key : E → κ) (bit : κ → Fin w)

omit [DecidableEq κ] in
/-- The bit of the key is in the mask. -/
def has (t : TagList w E) (k : κ) : Bool := BitVec.twoPow w (bit k) &&& t.bits != 0

/-- The entry with the key, if the mask has it. -/
def find (t : TagList w E) (k : κ) : Option E :=
  if t.has bit k then t.entries.find? fun e => key e = k else none

/-- Overwrite the entry with the key of `e`, or put `e` in front and its bit in the mask. -/
def set (t : TagList w E) (e : E) : TagList w E :=
  match t.find key bit (key e) with
  | some _ => { t with entries := assign key e t.entries }
  | none =>
      { entries := e :: t.entries, bits := t.bits ||| BitVec.twoPow w (bit (key e)) }

/-- Take the first entry with the key out, and its bit. No result where the front of an
empty list would be read. -/
def remove (t : TagList w E) (k : κ) : Option (TagList w E) :=
  if !t.has bit k then some t
  else if t.entries.isEmpty then none
  else
    some
      { entries := t.entries.eraseP fun e => key e = k
        bits := t.bits &&& ~~~ BitVec.twoPow w (bit k) }

/-- No key is there twice, and the mask has the bits of those that are. -/
structure Wf (t : TagList w E) : Prop where
  nodup : (t.entries.map key).Nodup
  bits : ∀ i : Fin w, t.bits.getLsbD i = true ↔ ∃ e ∈ t.entries, bit (key e) = i

variable {key bit}

omit [DecidableEq κ] in
theorem has_eq (t : TagList w E) (k : κ) : t.has bit k = t.bits.getLsbD (bit k) := by
  have htwo : ¬ BitVec.twoPow w (bit k) = 0#w := by
    intro h
    have hbit := congrArg (fun v => v.getLsbD (bit k)) h
    simp at hbit
  rw [has, BitVec.and_comm, BitVec.and_twoPow]
  cases t.bits.getLsbD (bit k) <;> simp [htwo]

omit [DecidableEq κ] in
theorem wf_empty : (empty : TagList w E).Wf key bit := by
  constructor <;> simp [empty]

@[simp] theorem find_empty (k : κ) : (empty : TagList w E).find key bit k = none := by
  rw [find]
  split <;> rfl

section

variable {t : TagList w E} (hbit : Function.Injective bit) (h : t.Wf key bit)

include hbit h

omit [DecidableEq κ] in
theorem Wf.has_iff (k : κ) : t.has bit k = true ↔ ∃ e ∈ t.entries, key e = k := by
  rw [has_eq, h.bits]
  constructor
  · rintro ⟨e, he, heq⟩
    exact ⟨e, he, hbit heq⟩
  · rintro ⟨e, he, rfl⟩
    exact ⟨e, he, rfl⟩

/-- The look-up finds the entry that is there. -/
theorem Wf.find_eq_some_iff (k : κ) (e : E) :
    t.find key bit k = some e ↔ e ∈ t.entries ∧ key e = k := by
  rw [find]
  constructor
  · intro hfind
    split at hfind
    · exact ⟨List.mem_of_find?_eq_some hfind, by simpa using List.find?_some hfind⟩
    · cases hfind
  · rintro ⟨he, rfl⟩
    rw [if_pos ((h.has_iff hbit _).mpr ⟨e, he, rfl⟩)]
    obtain ⟨found, hfound⟩ : ∃ found, t.entries.find? (fun e' => key e' = key e) = some found :=
      Option.isSome_iff_exists.mp (List.find?_isSome.mpr ⟨e, he, by simp⟩)
    have hkey : key found = key e := by simpa using List.find?_some hfound
    rw [hfound, List.inj_on_of_nodup_map h.nodup (List.mem_of_find?_eq_some hfound) he hkey]

theorem Wf.find_isSome_iff (k : κ) :
    (t.find key bit k).isSome = true ↔ ∃ e ∈ t.entries, key e = k := by
  rw [Option.isSome_iff_exists]
  constructor
  · rintro ⟨e, he⟩
    exact ⟨e, (h.find_eq_some_iff hbit k e).mp he⟩
  · rintro ⟨e, he⟩
    exact ⟨e, (h.find_eq_some_iff hbit k e).mpr he⟩

theorem Wf.find_eq_none_iff (k : κ) :
    t.find key bit k = none ↔ ∀ e ∈ t.entries, key e ≠ k := by
  rw [← Option.not_isSome_iff_eq_none, h.find_isSome_iff hbit]
  simp

end

/-! ### `set` -/

theorem map_key_assign (e : E) (l : List E) : (assign key e l).map key = l.map key := by
  induction l with
  | nil => rfl
  | cons e' rest ih =>
      rw [assign]
      split
      · rename_i heq
        simp [heq]
      · simp [ih]

/-- Of a list without repeated keys it is the only entry that changes. -/
theorem mem_assign {e : E} {l : List E} (hnodup : (l.map key).Nodup)
    (hmem : ∃ e' ∈ l, key e' = key e) (x : E) :
    x ∈ assign key e l ↔ x = e ∨ (x ∈ l ∧ key x ≠ key e) := by
  induction l with
  | nil => simp at hmem
  | cons e' rest ih =>
      rw [List.map_cons, List.nodup_cons] at hnodup
      rw [assign]
      split
      · rename_i heq
        have hrest : ∀ y ∈ rest, key y ≠ key e := by
          intro y hy hkey
          exact hnodup.1 (heq ▸ hkey ▸ List.mem_map_of_mem hy)
        constructor
        · intro hx
          rcases List.mem_cons.mp hx with rfl | hx
          · exact .inl rfl
          · exact .inr ⟨List.mem_cons_of_mem _ hx, hrest x hx⟩
        · rintro (rfl | ⟨hx, hkey⟩)
          · exact List.mem_cons_self
          · rcases List.mem_cons.mp hx with rfl | hx
            · exact absurd heq hkey
            · exact List.mem_cons_of_mem _ hx
      · rename_i hne
        have hmem' : ∃ e'' ∈ rest, key e'' = key e := by
          obtain ⟨e'', he'', hkey⟩ := hmem
          rcases List.mem_cons.mp he'' with rfl | he''
          · exact absurd hkey hne
          · exact ⟨e'', he'', hkey⟩
        rw [List.mem_cons, ih hnodup.2 hmem', List.mem_cons]
        constructor
        · rintro (rfl | rfl | ⟨hx, hkey⟩)
          · exact .inr ⟨.inl rfl, hne⟩
          · exact .inl rfl
          · exact .inr ⟨.inr hx, hkey⟩
        · rintro (rfl | ⟨rfl | hx, hkey⟩)
          · exact .inr (.inl rfl)
          · exact .inl rfl
          · exact .inr (.inr ⟨hx, hkey⟩)

/-- Of a list without repeated keys, erasing a key leaves the other entries. -/
theorem mem_eraseP_key {l : List E} (hnodup : (l.map key).Nodup) (k : κ) (x : E) :
    x ∈ l.eraseP (fun e => key e = k) ↔ x ∈ l ∧ key x ≠ k := by
  by_cases hx : key x = k
  · simp only [hx, ne_eq, not_true_eq_false, and_false, iff_false]
    intro hmem
    have hx' : decide (key x = k) = true := by simpa using hx
    obtain ⟨e, before, after, -, he, heq, hrest⟩ :=
      List.exists_of_eraseP (p := fun e => decide (key e = k)) (List.mem_of_mem_eraseP hmem) hx'
    have he : key e = k := by simpa using he
    rw [hrest] at hmem
    rw [heq, List.map_append, List.map_cons] at hnodup
    have hperm : (before.map key ++ key e :: after.map key).Perm
        (key e :: (before ++ after).map key) := by
      rw [List.map_append]
      exact List.perm_middle
    have hfresh := (List.nodup_cons.mp (hperm.nodup_iff.mp hnodup)).1
    exact hfresh (he.trans hx.symm ▸ List.mem_map_of_mem hmem)
  · rw [List.mem_eraseP_of_neg (by simpa using hx)]
    simp [hx]

section

variable {t : TagList w E} (hbit : Function.Injective bit) (h : t.Wf key bit)

include hbit h

/-- Whether or not there was an entry with its key, `e` is there now and the others are. -/
theorem Wf.mem_set (e x : E) :
    x ∈ (t.set key bit e).entries ↔ x = e ∨ (x ∈ t.entries ∧ key x ≠ key e) := by
  rw [set]
  split
  · rename_i old hfind
    obtain ⟨hold, hkey⟩ := (h.find_eq_some_iff hbit _ _).mp hfind
    exact mem_assign h.nodup ⟨old, hold, hkey⟩ x
  · rename_i hfind
    have hfresh := (h.find_eq_none_iff hbit _).mp hfind
    rw [List.mem_cons]
    constructor
    · rintro (rfl | hx)
      · exact .inl rfl
      · exact .inr ⟨hx, hfresh x hx⟩
    · rintro (rfl | ⟨hx, -⟩)
      · exact .inl rfl
      · exact .inr hx

theorem Wf.set (e : E) : (t.set key bit e).Wf key bit := by
  rw [TagList.set]
  split
  · constructor
    · rw [map_key_assign]
      exact h.nodup
    · intro i
      have hkeys : ∀ l : List E, (∃ e' ∈ l, bit (key e') = i) ↔ i ∈ (l.map key).map bit := by
        simp
      rw [hkeys, map_key_assign, ← hkeys]
      exact h.bits i
  · rename_i hfind
    have hfresh := (h.find_eq_none_iff hbit _).mp hfind
    constructor
    · rw [List.map_cons, List.nodup_cons]
      refine ⟨?_, h.nodup⟩
      intro hmem
      obtain ⟨e', he', hkey⟩ := List.mem_map.mp hmem
      exact hfresh e' he' hkey
    · intro i
      have hnew : (BitVec.twoPow w (bit (key e))).getLsbD i = decide (bit (key e) = i) := by
        simp [Fin.ext_iff, eq_comm]
      rw [BitVec.getLsbD_or, hnew, Bool.or_eq_true, h.bits i]
      simp [or_comm]

theorem Wf.find_set (e : E) (k : κ) :
    (t.set key bit e).find key bit k = if k = key e then some e else t.find key bit k := by
  have hset := h.set hbit e
  split
  · rename_i heq
    exact (hset.find_eq_some_iff hbit _ _).mpr ⟨(h.mem_set hbit e e).mpr (.inl rfl), heq.symm⟩
  · rename_i hne
    apply Option.ext
    intro x
    rw [hset.find_eq_some_iff hbit, h.find_eq_some_iff hbit, h.mem_set hbit]
    constructor
    · rintro ⟨rfl | ⟨hx, -⟩, rfl⟩
      · exact absurd rfl hne
      · exact ⟨hx, rfl⟩
    · rintro ⟨hx, rfl⟩
      exact ⟨.inr ⟨hx, hne⟩, rfl⟩

/-! ### `remove` -/

/-- What is removed is gone, and the rest is not touched. -/
theorem Wf.remove (k : κ) : ∃ t', t.remove key bit k = some t' ∧ t'.Wf key bit ∧
    ∀ j, t'.find key bit j = if j = k then none else t.find key bit j := by
  rw [TagList.remove]
  by_cases hhas : t.has bit k = true
  · obtain ⟨e, he, hkey⟩ := (h.has_iff hbit k).mp hhas
    have hne : t.entries.isEmpty = false := by
      simp [List.ne_nil_of_mem he]
    have hmem := mem_eraseP_key h.nodup k
    have hwf : TagList.Wf key bit
        { entries := t.entries.eraseP (fun e => decide (key e = k))
          bits := t.bits &&& ~~~ BitVec.twoPow w (bit k) } := by
      constructor
      · exact h.nodup.sublist (List.eraseP_sublist.map key)
      · intro i
        have hold : (BitVec.twoPow w (bit k)).getLsbD i = decide (bit k = i) := by
          simp [Fin.ext_iff, eq_comm]
        rw [BitVec.getLsbD_and, BitVec.getLsbD_not, hold, Bool.and_eq_true, h.bits i]
        simp only [hmem]
        constructor
        · rintro ⟨⟨x, hx, rfl⟩, hi⟩
          refine ⟨x, ⟨hx, ?_⟩, rfl⟩
          rintro rfl
          simp at hi
        · rintro ⟨x, ⟨hx, hkeyx⟩, rfl⟩
          refine ⟨⟨x, hx, rfl⟩, ?_⟩
          have hbits : bit k ≠ bit (key x) := fun heq => hkeyx (hbit heq).symm
          simp [hbits]
    refine ⟨_, by simp [hhas, hne], hwf, ?_⟩
    intro j
    split
    · rename_i heq
      rw [hwf.find_eq_none_iff hbit]
      intro x hx
      rw [heq]
      exact ((hmem x).mp hx).2
    · rename_i hne
      apply Option.ext
      intro x
      rw [hwf.find_eq_some_iff hbit, h.find_eq_some_iff hbit, hmem]
      constructor
      · rintro ⟨⟨hx, -⟩, rfl⟩
        exact ⟨hx, rfl⟩
      · rintro ⟨hx, rfl⟩
        exact ⟨⟨hx, hne⟩, rfl⟩
  · refine ⟨t, by simp [hhas], h, ?_⟩
    intro j
    split
    · rename_i heq
      rw [heq, find, if_neg hhas]
    · rfl

end

/-! ### Comparing two lists -/

/-- The masks are equal, and no entry differs from the one of the other list. -/
def agrees (differs : E → E → Bool) (t t' : TagList w E) : Bool :=
  t.bits == t'.bits && t.entries.all fun e => t'.entries.all fun e' => !differs e e'

/-- In whatever order the entries are, two lists agree if they are the same map. -/
theorem agrees_iff {differs : E → E → Bool} {t t' : TagList w E}
    (hdiffers : ∀ e e', differs e e' = true ↔ key e = key e' ∧ e ≠ e')
    (hbit : Function.Injective bit) (h : t.Wf key bit) (h' : t'.Wf key bit) :
    t.agrees differs t' = true ↔ ∀ k, t.find key bit k = t'.find key bit k := by
  have hkeys : t.bits = t'.bits ↔
      ∀ k, (t.find key bit k).isSome = true ↔ (t'.find key bit k).isSome = true := by
    constructor
    · intro heq k
      rw [h.find_isSome_iff hbit, h'.find_isSome_iff hbit, ← h.has_iff hbit,
        ← h'.has_iff hbit, has_eq, has_eq, heq]
    · intro heq
      apply BitVec.eq_of_getLsbD_eq
      intro i hi
      rw [Bool.eq_iff_iff, h.bits ⟨i, hi⟩, h'.bits ⟨i, hi⟩]
      constructor
      · rintro ⟨e, he, hkey⟩
        obtain ⟨e', he', hkey'⟩ := (h'.find_isSome_iff hbit _).mp
          ((heq (key e)).mp ((h.find_isSome_iff hbit _).mpr ⟨e, he, rfl⟩))
        exact ⟨e', he', hkey' ▸ hkey⟩
      · rintro ⟨e, he, hkey⟩
        obtain ⟨e', he', hkey'⟩ := (h.find_isSome_iff hbit _).mp
          ((heq (key e)).mpr ((h'.find_isSome_iff hbit _).mpr ⟨e, he, rfl⟩))
        exact ⟨e', he', hkey' ▸ hkey⟩
  have hscan : (t.entries.all fun e => t'.entries.all fun e' => !differs e e') = true ↔
      ∀ e ∈ t.entries, ∀ e' ∈ t'.entries, key e = key e' → e = e' := by
    have hno : ∀ e e', differs e e' = false ↔ (key e = key e' → e = e') := by
      intro e e'
      rw [← Bool.not_eq_true, hdiffers]
      simp
    simp [hno]
  rw [agrees, Bool.and_eq_true, beq_iff_eq, hkeys, hscan]
  constructor
  · rintro ⟨hsome, hsame⟩ k
    cases hfind : t.find key bit k with
    | none =>
        have hnone := hsome k
        rw [hfind] at hnone
        exact (by simpa using hnone : t'.find key bit k = none).symm
    | some e =>
        obtain ⟨e', hfind'⟩ := Option.isSome_iff_exists.mp ((hsome k).mp (by simp [hfind]))
        obtain ⟨he, hkey⟩ := (h.find_eq_some_iff hbit k e).mp hfind
        obtain ⟨he', hkey'⟩ := (h'.find_eq_some_iff hbit k e').mp hfind'
        rw [hfind', hsame e he e' he' (hkey.trans hkey'.symm)]
  · intro heq
    refine ⟨fun k => by rw [heq k], ?_⟩
    intro e he e' he' hkey
    have hfind := (h.find_eq_some_iff hbit (key e) e).mpr ⟨he, rfl⟩
    rw [heq, (h'.find_eq_some_iff hbit (key e) e').mpr ⟨he', hkey.symm⟩] at hfind
    exact (Option.some.inj hfind).symm

end TagList

end Infernum.Lib
