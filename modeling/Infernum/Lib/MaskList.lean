import Infernum.Lib.TagList
import Mathlib.Data.List.Nodup
import Mathlib.Tactic.Common

/-!
# Linked lists whose nodes have a mask for a type

A forward list of nodes and a word with the bits of the types that are there. The word is
asked first, and the list searched for what it promises. A type is any mask: what keeps
the two in step is that the types in use are not zero and have no bit in common. Nodes are
taken out with a pointer to the one before.
-/

namespace Infernum.Lib

structure MaskNode (w : Nat) (V : Type*) where
  type : BitVec w
  value : V
  deriving DecidableEq, Repr

structure MaskList (w : Nat) (V : Type*) where
  nodes : List (MaskNode w V)
  bits : BitVec w
  deriving DecidableEq, Repr

namespace MaskList

variable {w : Nat} {V : Type*}

def empty : MaskList w V := { nodes := [], bits := 0 }

/-- Some bit of the type is in the word. -/
def has (l : MaskList w V) (type : BitVec w) : Bool := type &&& l.bits != 0

/-- The first node of the type, if the word promises one. -/
def find (l : MaskList w V) (type : BitVec w) : Option (MaskNode w V) :=
  if l.has type then l.nodes.find? fun n => n.type = type else none

/-- Make sure that there is a node of the type, one with `init` in front if none is found.
The reference that the caller gets is to the first node of the type. -/
def ref (l : MaskList w V) (init : V) (type : BitVec w) : MaskList w V :=
  if (l.find type).isSome then l
  else { nodes := { type := type, value := init } :: l.nodes, bits := l.bits ||| type }

/-- The first node of the type gets a value. -/
def assign (type : BitVec w) (value : V) : List (MaskNode w V) → List (MaskNode w V)
  | [] => []
  | n :: rest =>
      if n.type = type then { n with value := value } :: rest else n :: assign type value rest

/-- Write through a reference. -/
def write (l : MaskList w V) (type : BitVec w) (value : V) : MaskList w V :=
  { l with nodes := assign type value l.nodes }

/-- Read through a reference. -/
def deref (l : MaskList w V) (type : BitVec w) : Option V :=
  (l.nodes.find? fun n => n.type = type).map MaskNode.value

/-- The loop of the removal, with the pointer to the previous node on `prev`: the first of
the nodes after it that has the type is erased. -/
def eraseAfter (type : BitVec w) (prev : MaskNode w V) :
    List (MaskNode w V) → List (MaskNode w V)
  | [] => [prev]
  | n :: rest => if n.type = type then prev :: rest else prev :: eraseAfter type n rest

/-- The list without its first node of the type. No result where the front of an empty
list is read. -/
def eraseFirst (type : BitVec w) : List (MaskNode w V) → Option (List (MaskNode w V))
  | [] => none
  | front :: rest => if front.type = type then some rest else some (eraseAfter type front rest)

/-- Take the node of the type out, and the bits of the type. -/
def remove (l : MaskList w V) (type : BitVec w) : Option (MaskList w V) :=
  if l.has type then
    (eraseFirst type l.nodes).map fun nodes => { nodes := nodes, bits := l.bits &&& ~~~ type }
  else some l

/-- A copy of every node with a copy of its value, and of the word. -/
def copy (copyValue : BitVec w → V → Option V) (l : MaskList w V) : Option (MaskList w V) :=
  (l.nodes.mapM fun n =>
    (copyValue n.type n.value).map fun value => { n with value := value }).map
      fun nodes => { l with nodes := nodes }

/-- How many nodes of the type there are. -/
def count (l : MaskList w V) (type : BitVec w) : Nat := (l.nodes.map MaskNode.type).count type

/-! ### Types without common bits -/

/-- The types in use are not zero and no two have a bit in common. -/
structure Apart (T : BitVec w → Prop) : Prop where
  ne_zero : ∀ t, T t → t ≠ 0
  and_eq_zero : ∀ s t, T s → T t → s ≠ t → s &&& t = 0

/-- One bit each is enough. -/
theorem apart_twoPow {κ : Type*} (bit : κ → Fin w) :
    Apart fun type => ∃ k, type = BitVec.twoPow w (bit k) := by
  have hself : ∀ k, (BitVec.twoPow w (bit k)).getLsbD (bit k) = true := by
    intro k
    simp
  constructor
  · rintro _ ⟨k, rfl⟩ hzero
    have hset := hself k
    rw [hzero] at hset
    simp at hset
  · rintro _ _ ⟨j, rfl⟩ ⟨k, rfl⟩ hne
    have hbits : ¬ (bit k).val = (bit j).val := by
      intro heq
      exact hne (by rw [Fin.ext heq])
    simp [BitVec.and_twoPow, hbits]

theorem twoPow_inj {i j : Fin w} (h : BitVec.twoPow w i = BitVec.twoPow w j) : i = j := by
  have hset : (BitVec.twoPow w j).getLsbD i = true := by
    rw [← h]
    simp
  exact Fin.ext (by simpa [eq_comm] using hset)

/-- The bits of a type are in the word exactly when one node has the type. -/
structure Wf (T : BitVec w → Prop) (l : MaskList w V) : Prop where
  type : ∀ n ∈ l.nodes, T n.type
  nodup : (l.nodes.map MaskNode.type).Nodup
  has : ∀ t, T t → (l.has t = true ↔ t ∈ l.nodes.map MaskNode.type)

variable {T : BitVec w → Prop} {l : MaskList w V} {s t : BitVec w}

theorem wf_empty : (empty : MaskList w V).Wf T := by
  constructor <;> simp [empty, MaskList.has]

@[simp] theorem has_zero (l : MaskList w V) : l.has 0#w = false := by
  simp [has]

@[simp] theorem find_zero (l : MaskList w V) : l.find 0#w = none := by
  simp [find]

@[simp] theorem has_write (l : MaskList w V) (t : BitVec w) (v : V) (s : BitVec w) :
    (l.write t v).has s = l.has s := rfl

/-- The number of nodes of a type, by its bits. -/
theorem Wf.count_eq (h : l.Wf T) (ht : T t) : l.count t = if l.has t then 1 else 0 := by
  rw [count]
  split
  · rename_i hhas
    exact List.count_eq_one_of_mem h.nodup ((h.has t ht).mp hhas)
  · rename_i hhas
    exact List.count_eq_zero.mpr fun hmem => hhas ((h.has t ht).mpr hmem)

theorem find?_eq_none_iff (nodes : List (MaskNode w V)) :
    (nodes.find? fun n => n.type = t) = none ↔ t ∉ nodes.map MaskNode.type := by
  rw [List.find?_eq_none]
  constructor
  · intro hnone hmem
    obtain ⟨n, hn, rfl⟩ := List.mem_map.mp hmem
    exact hnone n hn (by simp)
  · intro hmem n hn heq
    exact hmem (List.mem_map.mpr ⟨n, hn, by simpa using heq⟩)

/-- For a type in use the word can be trusted. -/
theorem Wf.find_eq (h : l.Wf T) (ht : T t) :
    l.find t = l.nodes.find? fun n => n.type = t := by
  rw [find]
  split
  · rfl
  · rename_i hhas
    exact ((find?_eq_none_iff l.nodes).mpr fun hmem => hhas ((h.has t ht).mpr hmem)).symm

theorem Wf.find_isSome (h : l.Wf T) (ht : T t) : (l.find t).isSome = l.has t := by
  rw [h.find_eq ht, Bool.eq_iff_iff, h.has t ht, ← Option.ne_none_iff_isSome, ne_eq,
    find?_eq_none_iff, not_not]

theorem Wf.deref_eq (h : l.Wf T) (ht : T t) : l.deref t = (l.find t).map MaskNode.value := by
  rw [deref, h.find_eq ht]

/-! ### A reference -/

theorem Wf.ref (hT : Apart T) (h : l.Wf T) (ht : T t) (init : V) : (l.ref init t).Wf T := by
  rw [MaskList.ref]
  split
  · exact h
  · rename_i hfind
    have hhas : l.has t = false := by
      rw [← h.find_isSome ht]
      simpa using hfind
    have hfresh : t ∉ l.nodes.map MaskNode.type := by
      intro hmem
      simp [(h.has t ht).mpr hmem] at hhas
    constructor
    · intro n hn
      rcases List.mem_cons.mp hn with rfl | hn
      · exact ht
      · exact h.type n hn
    · rw [List.map_cons, List.nodup_cons]
      exact ⟨hfresh, h.nodup⟩
    · intro s hs
      rw [List.map_cons, List.mem_cons, ← h.has s hs, MaskList.has, MaskList.has,
        BitVec.and_or_distrib_left]
      by_cases hst : s = t
      · -- the new bits are those of the type itself, which is not zero
        have hne : ¬ t = 0#w := hT.ne_zero t ht
        simp [hst, BitVec.or_eq_zero_iff, hne]
      · simp [hst, hT.and_eq_zero s t hs ht hst]

theorem Wf.has_ref (hT : Apart T) (h : l.Wf T) (ht : T t) (init : V) :
    (l.ref init t).has t = true := by
  rw [(h.ref hT ht init).has t ht, MaskList.ref]
  split
  · rename_i hfind
    rw [h.find_isSome ht] at hfind
    exact (h.has t ht).mp hfind
  · exact List.mem_cons_self

/-- What was not there has the first value now, and nothing else is different. -/
theorem Wf.find_ref (hT : Apart T) (h : l.Wf T) (ht : T t) (init : V) (hs : T s) :
    (l.ref init t).find s =
      if s = t then some ((l.find t).getD { type := t, value := init }) else l.find s := by
  have hwf := h.ref hT ht init
  rw [hwf.find_eq hs, MaskList.ref]
  split
  · rename_i hfind
    rw [← h.find_eq hs]
    split
    · rename_i heq
      obtain ⟨n, hn⟩ := Option.isSome_iff_exists.mp hfind
      rw [heq, hn]
      rfl
    · rfl
  · rename_i hfind
    have hnone : l.find t = none := by simpa using hfind
    rw [List.find?_cons, hnone]
    split
    · rename_i heq
      have heq : t = s := by simpa using heq
      rw [if_pos heq.symm]
      rfl
    · rename_i hne
      have hne : ¬ s = t := fun heq => by simp [heq] at hne
      rw [if_neg hne, h.find_eq hs]

/-! ### Writing -/

@[simp] theorem map_type_assign (t : BitVec w) (v : V) (nodes : List (MaskNode w V)) :
    (assign t v nodes).map MaskNode.type = nodes.map MaskNode.type := by
  induction nodes with
  | nil => rfl
  | cons n rest ih =>
      rw [assign]
      split
      · rfl
      · simp [ih]

theorem find?_assign (v : V) (nodes : List (MaskNode w V)) :
    ((assign t v nodes).find? fun n => n.type = s) =
      if s = t then (nodes.find? fun n => n.type = t).map fun n => { n with value := v }
      else nodes.find? fun n => n.type = s := by
  induction nodes with
  | nil => simp [assign]
  | cons n rest ih =>
      rw [assign]
      by_cases hn : n.type = t
      · rw [if_pos hn]
        by_cases hst : s = t
        · simp [hst, hn]
        · have hne : ¬ n.type = s := fun heq => hst (heq.symm.trans hn)
          simp [hst, hne]
      · rw [if_neg hn]
        by_cases hns : n.type = s
        · have hst : ¬ s = t := fun heq => hn (hns.trans heq)
          simp [hns, hst]
        · rw [List.find?_cons_of_neg (by simpa using hns), ih]
          simp [hn, hns]

theorem Wf.write (h : l.Wf T) (t : BitVec w) (v : V) : (l.write t v).Wf T := by
  constructor
  · intro n hn
    have hmem : n.type ∈ (l.write t v).nodes.map MaskNode.type := List.mem_map_of_mem hn
    rw [MaskList.write, map_type_assign] at hmem
    obtain ⟨n', hn', heq⟩ := List.mem_map.mp hmem
    exact heq ▸ h.type n' hn'
  · rw [MaskList.write, map_type_assign]
    exact h.nodup
  · intro s hs
    rw [has_write, h.has s hs, MaskList.write, map_type_assign]

theorem find_write (l : MaskList w V) (t : BitVec w) (v : V) (s : BitVec w) :
    (l.write t v).find s =
      if s = t then (l.find t).map fun n => { n with value := v } else l.find s := by
  rw [find, has_write, MaskList.write, find?_assign]
  by_cases hst : s = t
  · rw [if_pos hst, if_pos hst, hst, find]
    split <;> rfl
  · rw [if_neg hst, if_neg hst, find]

theorem type_of_find {n : MaskNode w V} (h : l.find t = some n) : n.type = t := by
  rw [find] at h
  split at h
  · simpa using List.find?_some h
  · cases h

theorem mem_of_find {n : MaskNode w V} (h : l.find t = some n) : n ∈ l.nodes := by
  rw [find] at h
  split at h
  · exact List.mem_of_find?_eq_some h
  · cases h

/-- Setting a value through a reference. -/
theorem Wf.find_write_ref (hT : Apart T) (h : l.Wf T) (ht : T t) (init v : V) (hs : T s) :
    ((l.ref init t).write t v).find s =
      if s = t then some { type := t, value := v } else l.find s := by
  rw [find_write, h.find_ref hT ht init ht, if_pos rfl]
  split
  · cases hfind : l.find t with
    | none => rfl
    | some n => simp [type_of_find hfind]
  · rename_i hst
    rw [h.find_ref hT ht init hs, if_neg hst]

theorem ref_eq_self (init : V) (h : (l.find t).isSome = true) : l.ref init t = l := by
  rw [ref, if_pos h]

theorem Wf.deref_ref (hT : Apart T) (h : l.Wf T) (ht : T t) (init : V) :
    (l.ref init t).deref t = some (((l.find t).map MaskNode.value).getD init) := by
  rw [(h.ref hT ht init).deref_eq ht, h.find_ref hT ht init ht, if_pos rfl]
  cases l.find t <;> rfl

theorem write_write (l : MaskList w V) (t : BitVec w) (v v' : V) :
    (l.write t v).write t v' = l.write t v' := by
  have hassign : ∀ nodes : List (MaskNode w V),
      assign t v' (assign t v nodes) = assign t v' nodes := by
    intro nodes
    induction nodes with
    | nil => rfl
    | cons n rest ih =>
        rw [assign, assign]
        split
        · rename_i hn
          rw [assign, if_pos hn]
        · rename_i hn
          rw [assign, if_neg hn, ih]
  simp only [write, hassign]

/-- Which nodes there are after setting a value through a reference. -/
theorem mem_write_ref {init v : V} {n : MaskNode w V}
    (hn : n ∈ ((l.ref init t).write t v).nodes) :
    n ∈ l.nodes ∨ n = { type := t, value := v } := by
  have hassign : ∀ nodes : List (MaskNode w V), n ∈ assign t v nodes →
      n ∈ nodes ∨ n = { type := t, value := v } := by
    intro nodes hmem
    induction nodes with
    | nil => cases hmem
    | cons n' rest ih =>
        rw [assign] at hmem
        split at hmem
        · rename_i heq
          rcases List.mem_cons.mp hmem with rfl | hmem
          · exact .inr (by rw [heq])
          · exact .inl (List.mem_cons_of_mem n' hmem)
        · rcases List.mem_cons.mp hmem with rfl | hmem
          · exact .inl List.mem_cons_self
          · exact (ih hmem).imp_left (List.mem_cons_of_mem n')
  rw [write, ref] at hn
  split at hn
  · exact hassign l.nodes hn
  · rw [assign, if_pos rfl] at hn
    rcases List.mem_cons.mp hn with rfl | hn
    · exact .inr rfl
    · exact .inl hn

/-! ### Removal -/

/-- With the pointer to the previous node, the first of a list is erased as it should be. -/
theorem eraseAfter_eq {prev : MaskNode w V} (hprev : prev.type ≠ t)
    (rest : List (MaskNode w V)) :
    eraseAfter t prev rest = (prev :: rest).eraseP fun n => n.type = t := by
  induction rest generalizing prev with
  | nil => simp [eraseAfter, hprev]
  | cons n rest ih =>
      rw [eraseAfter, List.eraseP_cons_of_neg (by simpa using hprev)]
      split
      · rename_i hn
        rw [List.eraseP_cons_of_pos (by simpa using hn)]
      · rename_i hn
        rw [ih hn]

theorem eraseFirst_eq {nodes : List (MaskNode w V)} (hne : nodes ≠ []) :
    eraseFirst t nodes = some (nodes.eraseP fun n => n.type = t) := by
  cases nodes with
  | nil => exact absurd rfl hne
  | cons front rest =>
      rw [eraseFirst]
      split
      · rename_i hfront
        rw [List.eraseP_cons_of_pos (by simpa using hfront)]
      · rename_i hfront
        rw [eraseAfter_eq hfront]

theorem map_type_eraseP (nodes : List (MaskNode w V)) :
    (nodes.eraseP fun n => n.type = t).map MaskNode.type = (nodes.map MaskNode.type).erase t := by
  induction nodes with
  | nil => rfl
  | cons n rest ih =>
      by_cases hn : n.type = t
      · simp [hn]
      · rw [List.eraseP_cons_of_neg (by simpa using hn), List.map_cons, List.map_cons,
          List.erase_cons_tail (by simpa using hn), ih]

theorem find?_eraseP (hst : s ≠ t) (nodes : List (MaskNode w V)) :
    ((nodes.eraseP fun n => n.type = t).find? fun n => n.type = s) =
      nodes.find? fun n => n.type = s := by
  induction nodes with
  | nil => rfl
  | cons n rest ih =>
      by_cases hn : n.type = t
      · have hne : ¬ n.type = s := fun heq => hst (heq.symm.trans hn)
        rw [List.eraseP_cons_of_pos (by simpa using hn),
          List.find?_cons_of_neg (by simpa using hne)]
      · rw [List.eraseP_cons_of_neg (by simpa using hn), List.find?_cons, List.find?_cons, ih]

/-- The bits of the other types survive. -/
theorem and_and_not (hst : s &&& t = 0) (bits : BitVec w) :
    s &&& (bits &&& ~~~ t) = s &&& bits := by
  apply BitVec.eq_of_getLsbD_eq
  intro i hi
  have hbit : (s &&& t).getLsbD i = false := by simp [hst]
  rw [BitVec.getLsbD_and] at hbit
  simp only [BitVec.getLsbD_and, BitVec.getLsbD_not, hi, decide_true, Bool.true_and]
  cases hs : s.getLsbD i
  · simp
  · rw [hs, Bool.true_and] at hbit
    simp [hbit]

/-- What is removed is gone, bits and node, and the rest is not touched. -/
theorem Wf.remove (hT : Apart T) (h : l.Wf T) (ht : T t) :
    ∃ l', l.remove t = some l' ∧ l'.Wf T ∧ l'.has t = false ∧
      ∀ s, T s → s ≠ t → l'.find s = l.find s := by
  rw [MaskList.remove]
  cases hhas : l.has t with
  | false => exact ⟨l, rfl, h, hhas, fun _ _ _ => rfl⟩
  | true =>
      have hmem := (h.has t ht).mp hhas
      have hne : l.nodes ≠ [] := by
        rintro hnil
        simp [hnil] at hmem
      have hself : MaskList.has
          { nodes := l.nodes.eraseP fun n => decide (n.type = t), bits := l.bits &&& ~~~ t }
          t = false := by
        rw [MaskList.has, BitVec.and_comm l.bits, ← BitVec.and_assoc, BitVec.and_not_self]
        simp
      have hwf : Wf T
          { nodes := l.nodes.eraseP fun n => decide (n.type = t), bits := l.bits &&& ~~~ t } := by
        constructor
        · exact fun n hn => h.type n (List.mem_of_mem_eraseP hn)
        · rw [map_type_eraseP]
          exact h.nodup.erase t
        · intro s hs
          rw [map_type_eraseP, h.nodup.mem_erase_iff]
          by_cases hst : s = t
          · rw [hst, hself]
            simp
          · rw [MaskList.has, and_and_not (hT.and_eq_zero s t hs ht hst), ← h.has s hs]
            simp [hst, MaskList.has]
      refine ⟨_, by rw [if_pos rfl, eraseFirst_eq hne]; rfl, hwf, hself, ?_⟩
      intro s hs hst
      rw [hwf.find_eq hs, h.find_eq hs, find?_eraseP hst]

theorem mem_of_remove {l' : MaskList w V} (h : l.remove t = some l') {n : MaskNode w V}
    (hn : n ∈ l'.nodes) : n ∈ l.nodes := by
  rw [remove] at h
  split at h
  · obtain ⟨nodes, hnodes, rfl⟩ := Option.map_eq_some_iff.mp h
    have hne : l.nodes ≠ [] := by
      rintro hnil
      simp [hnil, eraseFirst] at hnodes
    rw [eraseFirst_eq hne] at hnodes
    cases hnodes
    exact List.mem_of_mem_eraseP hn
  · cases h
    exact hn

/-! ### Copies -/

theorem mapM_eq_some_self {α : Type*} {f : α → Option α} {xs : List α}
    (hf : ∀ x ∈ xs, f x = some x) : xs.mapM f = some xs := by
  induction xs with
  | nil => rfl
  | cons x xs ih =>
      rw [List.mapM_cons, hf x List.mem_cons_self,
        ih fun y hy => hf y (List.mem_cons_of_mem x hy)]
      rfl

/-- A copy is the same list where each value is copied as it is. -/
theorem copy_eq_self {copyValue : BitVec w → V → Option V}
    (hcopy : ∀ n ∈ l.nodes, copyValue n.type n.value = some n.value) :
    l.copy copyValue = some l := by
  rw [copy, mapM_eq_some_self]
  · rfl
  · intro n hn
    rw [hcopy n hn]
    rfl

theorem eq_of_mapM_eq_some {α : Type*} {f : α → Option α} {xs ys : List α}
    (hf : ∀ x ∈ xs, ∀ y, f x = some y → y = x) (h : xs.mapM f = some ys) : ys = xs := by
  induction xs generalizing ys with
  | nil =>
      cases h
      rfl
  | cons x xs ih =>
      rw [List.mapM_cons] at h
      obtain ⟨y, hy, hrest⟩ := Option.bind_eq_some_iff.mp h
      obtain ⟨zs, hzs, hys⟩ := Option.bind_eq_some_iff.mp hrest
      cases hys
      rw [hf x List.mem_cons_self y hy,
        ih (fun x' hx' => hf x' (List.mem_cons_of_mem x hx')) hzs]

/-- Where a value is copied as it is or not at all, so is the list. -/
theorem eq_of_copy_eq_some {copyValue : BitVec w → V → Option V} {l' : MaskList w V}
    (hcopy : ∀ n ∈ l.nodes, ∀ v, copyValue n.type n.value = some v → v = n.value)
    (h : l.copy copyValue = some l') : l' = l := by
  obtain ⟨nodes, hnodes, rfl⟩ := Option.map_eq_some_iff.mp h
  rw [eq_of_mapM_eq_some (fun n hn n' hn' => ?_) hnodes]
  obtain ⟨v, hv, rfl⟩ := Option.map_eq_some_iff.mp hn'
  rw [hcopy n hn v hv]

end MaskList

end Infernum.Lib
