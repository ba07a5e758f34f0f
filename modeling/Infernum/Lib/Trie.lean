import Mathlib.Data.List.Induction
import Mathlib.Data.List.Nodup
import Mathlib.Data.Set.Basic

/-!
# Tries

A trie is a tree of keyed children with a mark at every node. It stands for the
set of words that lead from the root to a marked node. In a *pruned* trie every
branch ends in a mark, so that a node is reached by a word exactly if some word
of the set begins with it.
-/

namespace Infernum.Lib

namespace Assoc

variable {κ β : Type*} [DecidableEq κ]

/-- The value under a key. -/
def get (k : κ) : List (κ × β) → Option β
  | [] => none
  | (k', b) :: es => if k' = k then some b else get k es

/-- Put a value under a key, in place of the one that is there. -/
def set (k : κ) (b : β) : List (κ × β) → List (κ × β)
  | [] => [(k, b)]
  | (k', b') :: es => if k' = k then (k, b) :: es else (k', b') :: set k b es

/-- Take a key out. -/
def erase (k : κ) (es : List (κ × β)) : List (κ × β) := es.filter fun e => e.1 ≠ k

example (k : κ) (b : β) : get k (set k b []) = some b := by
  rw [set, get, if_pos rfl]

theorem get_set (k k' : κ) (b : β) (es : List (κ × β)) :
    get k' (set k b es) = if k' = k then some b else get k' es := by
  induction es with
  | nil => simp only [set, get, eq_comm]
  | cons e es ih =>
      obtain ⟨j, c⟩ := e
      simp only [set]
      split
      · next hj =>
          subst hj
          simp only [get, eq_comm (a := k') (b := j)]
          split <;> rfl
      · next hj =>
          simp only [get, ih]
          split
          · next hk =>
              subst hk
              rw [if_neg hj]
          · rfl

theorem set_set (k : κ) (b b' : β) (es : List (κ × β)) : set k b' (set k b es) = set k b' es := by
  induction es with
  | nil => simp [set]
  | cons e es ih =>
      simp only [set]
      split
      · simp [set]
      · next hj => simp only [set, if_neg hj, ih]

theorem get_erase (k k' : κ) (es : List (κ × β)) :
    get k' (erase k es) = if k' = k then none else get k' es := by
  induction es with
  | nil => simp [erase, get]
  | cons e es ih =>
      obtain ⟨j, c⟩ := e
      rw [erase] at ih ⊢
      by_cases hj : j = k
      · subst hj
        simp only [ne_eq, not_true_eq_false, decide_false, Bool.false_eq_true,
          not_false_eq_true, List.filter_cons_of_neg, ih, get]
        split
        · rfl
        · next hk => rw [if_neg (Ne.symm hk)]
      · simp only [ne_eq, hj, not_false_eq_true, decide_true, List.filter_cons_of_pos, get, ih]
        split
        · next hk =>
            subst hk
            rw [if_neg hj]
        · rfl

theorem mem_of_get {k : κ} {b : β} {es : List (κ × β)} (h : get k es = some b) :
    (k, b) ∈ es := by
  induction es with
  | nil => cases h
  | cons e es ih =>
      obtain ⟨j, c⟩ := e
      simp only [get] at h
      split at h
      · next hj =>
          cases h
          rw [hj]
          exact List.mem_cons_self
      · exact List.mem_cons_of_mem _ (ih h)

theorem get_of_mem {k : κ} {b : β} {es : List (κ × β)} (hkeys : (es.map Prod.fst).Nodup)
    (h : (k, b) ∈ es) : get k es = some b := by
  induction es with
  | nil => cases h
  | cons e es ih =>
      obtain ⟨j, c⟩ := e
      obtain ⟨hj, hes⟩ := List.nodup_cons.mp hkeys
      simp only [get]
      rcases List.mem_cons.mp h with heq | hmem
      · cases heq
        rw [if_pos rfl]
      · have hne : j ≠ k := by
          rintro rfl
          exact hj (List.mem_map.mpr ⟨_, hmem, rfl⟩)
        rw [if_neg hne]
        exact ih hes hmem

theorem mem_set {k : κ} {b : β} {es : List (κ × β)} {e : κ × β} (h : e ∈ set k b es) :
    e = (k, b) ∨ e ∈ es := by
  induction es with
  | nil => exact .inl (List.mem_singleton.mp h)
  | cons e' es ih =>
      obtain ⟨j, c⟩ := e'
      simp only [set] at h
      split at h
      · rcases List.mem_cons.mp h with heq | hmem
        · exact .inl heq
        · exact .inr (List.mem_cons_of_mem _ hmem)
      · rcases List.mem_cons.mp h with heq | hmem
        · exact .inr (heq ▸ List.mem_cons_self)
        · exact (ih hmem).imp_right (List.mem_cons_of_mem _)

theorem nodup_set {k : κ} {b : β} {es : List (κ × β)} (hkeys : (es.map Prod.fst).Nodup) :
    ((set k b es).map Prod.fst).Nodup := by
  induction es with
  | nil => exact List.nodup_singleton k
  | cons e es ih =>
      obtain ⟨j, c⟩ := e
      obtain ⟨hj, hes⟩ := List.nodup_cons.mp hkeys
      simp only [set]
      split
      · next hk =>
          subst hk
          exact hkeys
      · next hk =>
          refine List.nodup_cons.mpr ⟨fun hmem => ?_, ih hes⟩
          obtain ⟨e, he, hfst⟩ := List.mem_map.mp hmem
          rcases mem_set he with heq | hold
          · rw [heq] at hfst
            exact hk hfst.symm
          · exact hj (hfst ▸ List.mem_map_of_mem (f := Prod.fst) hold)

theorem nodup_erase {k : κ} {es : List (κ × β)} (hkeys : (es.map Prod.fst).Nodup) :
    ((erase k es).map Prod.fst).Nodup :=
  hkeys.sublist (List.filter_sublist.map _)

theorem set_ne_nil (k : κ) (b : β) (es : List (κ × β)) : set k b es ≠ [] := by
  cases es with
  | nil => exact List.cons_ne_nil _ _
  | cons e es =>
      rw [set]
      split <;> exact List.cons_ne_nil _ _

end Assoc

/-- A mark and the tries below it, each under its key. -/
inductive Trie (κ : Type*)
  | node (mark : Bool) (children : List (κ × Trie κ))

namespace Trie

variable {κ : Type*}

def mark : Trie κ → Bool
  | node m _ => m

def children : Trie κ → List (κ × Trie κ)
  | node _ cs => cs

@[simp] theorem mark_node (m : Bool) (cs : List (κ × Trie κ)) : (node m cs).mark = m := rfl
@[simp] theorem children_node (m : Bool) (cs : List (κ × Trie κ)) :
    (node m cs).children = cs := rfl

/-- Every branch below the root ends in a mark, and no key is used twice at one
node. -/
inductive Pruned : Trie κ → Prop
  | node {m : Bool} {cs : List (κ × Trie κ)} (hkeys : (cs.map Prod.fst).Nodup)
      (hbelow : ∀ e ∈ cs, Pruned e.2)
      (hleaf : ∀ e ∈ cs, e.2.children = [] → e.2.mark = true) : Pruned (node m cs)

theorem pruned_leaf (m : Bool) : (node m [] : Trie κ).Pruned :=
  .node List.nodup_nil (fun _ h => absurd h List.not_mem_nil) fun _ h => absurd h List.not_mem_nil

theorem Pruned.keys {t : Trie κ} (h : t.Pruned) : (t.children.map Prod.fst).Nodup := by
  cases h with
  | node hkeys _ _ => exact hkeys

def setMark (t : Trie κ) (m : Bool) : Trie κ := node m t.children

@[simp] theorem mark_setMark (t : Trie κ) (m : Bool) : (t.setMark m).mark = m := rfl
@[simp] theorem children_setMark (t : Trie κ) (m : Bool) :
    (t.setMark m).children = t.children := rfl

theorem Pruned.setMark {t : Trie κ} (h : t.Pruned) (m : Bool) : (t.setMark m).Pruned := by
  cases h with
  | node hkeys hbelow hleaf => exact .node hkeys hbelow hleaf

variable [DecidableEq κ]

/-- The trie under a key. -/
def child (t : Trie κ) (k : κ) : Option (Trie κ) := Assoc.get k t.children

def setChild (t : Trie κ) (k : κ) (s : Trie κ) : Trie κ := node t.mark (Assoc.set k s t.children)
def eraseChild (t : Trie κ) (k : κ) : Trie κ := node t.mark (Assoc.erase k t.children)

/-- The node that a word leads to. -/
def descend : Trie κ → List κ → Option (Trie κ)
  | t, [] => some t
  | t, k :: w => (t.child k).bind fun s => descend s w

/-- The words that lead to a mark. -/
def words (t : Trie κ) : Set (List κ) := {w | ∃ s, t.descend w = some s ∧ s.mark = true}

@[simp] theorem mark_setChild (t : Trie κ) (k : κ) (s : Trie κ) :
    (t.setChild k s).mark = t.mark := rfl
@[simp] theorem mark_eraseChild (t : Trie κ) (k : κ) : (t.eraseChild k).mark = t.mark := rfl
@[simp] theorem child_setMark (t : Trie κ) (m : Bool) (k : κ) :
    (t.setMark m).child k = t.child k := rfl

theorem child_setChild (t : Trie κ) (k k' : κ) (s : Trie κ) :
    (t.setChild k s).child k' = if k' = k then some s else t.child k' :=
  Assoc.get_set k k' s t.children

theorem setChild_setChild (t : Trie κ) (k : κ) (s s' : Trie κ) :
    (t.setChild k s).setChild k s' = t.setChild k s' :=
  congrArg (node t.mark) (Assoc.set_set k s s' t.children)

theorem children_setChild_ne_nil (t : Trie κ) (k : κ) (s : Trie κ) :
    (t.setChild k s).children ≠ [] :=
  Assoc.set_ne_nil k s t.children

theorem child_eraseChild (t : Trie κ) (k k' : κ) :
    (t.eraseChild k).child k' = if k' = k then none else t.child k' :=
  Assoc.get_erase k k' t.children

@[simp] theorem child_leaf (m : Bool) (k : κ) : (node m []).child k = none := rfl

theorem child_eq_none_of_leaf {t : Trie κ} (h : t.children = []) (k : κ) : t.child k = none := by
  rw [child, h, Assoc.get]

@[simp] theorem descend_nil (t : Trie κ) : t.descend [] = some t := by
  rw [descend]

theorem descend_cons (t : Trie κ) (k : κ) (w : List κ) :
    t.descend (k :: w) = (t.child k).bind fun s => s.descend w := by
  rw [descend]

theorem descend_append (t : Trie κ) (v w : List κ) :
    t.descend (v ++ w) = (t.descend v).bind fun s => s.descend w := by
  induction v generalizing t with
  | nil => rw [List.nil_append, descend_nil, Option.bind_some]
  | cons k v ih =>
      rw [List.cons_append, descend_cons, descend_cons, Option.bind_assoc]
      exact congrArg _ (funext fun s => ih s)

@[simp] theorem nil_mem_words (t : Trie κ) : [] ∈ t.words ↔ t.mark = true := by
  simp [words]

theorem cons_mem_words (t : Trie κ) (k : κ) (w : List κ) :
    k :: w ∈ t.words ↔ ∃ s, t.child k = some s ∧ w ∈ s.words := by
  simp only [words, Set.mem_ofPred_eq, descend_cons, Option.bind_eq_some_iff]
  constructor
  · rintro ⟨s', ⟨s, hs, hdesc⟩, hmark⟩
    exact ⟨s, hs, s', hdesc, hmark⟩
  · rintro ⟨s, hs, s', hdesc, hmark⟩
    exact ⟨s', ⟨s, hs, hdesc⟩, hmark⟩

theorem append_mem_words (t : Trie κ) (v w : List κ) :
    v ++ w ∈ t.words ↔ ∃ s, t.descend v = some s ∧ w ∈ s.words := by
  simp only [words, Set.mem_ofPred_eq, descend_append, Option.bind_eq_some_iff]
  constructor
  · rintro ⟨s', ⟨s, hs, hdesc⟩, hmark⟩
    exact ⟨s, hs, s', hdesc, hmark⟩
  · rintro ⟨s, hs, s', hdesc, hmark⟩
    exact ⟨s', ⟨s, hs, hdesc⟩, hmark⟩

/-- The words of a trie after one of its children was replaced. -/
theorem cons_mem_words_setChild (t s : Trie κ) (k k' : κ) (w : List κ) :
    k' :: w ∈ (t.setChild k s).words ↔ if k' = k then w ∈ s.words else k' :: w ∈ t.words := by
  rw [cons_mem_words, child_setChild]
  split
  · simp
  · rw [cons_mem_words]

theorem cons_mem_words_eraseChild (t : Trie κ) (k k' : κ) (w : List κ) :
    k' :: w ∈ (t.eraseChild k).words ↔ k' ≠ k ∧ k' :: w ∈ t.words := by
  rw [cons_mem_words, child_eraseChild]
  split
  · next heq => simp [heq]
  · next hne => simp [hne, cons_mem_words]

/-! ## Pruned tries -/

variable {t s : Trie κ} {k : κ}

theorem Pruned.child (h : t.Pruned) (hs : t.child k = some s) :
    s.Pruned ∧ (s.children = [] → s.mark = true) := by
  have hmem := Assoc.mem_of_get hs
  cases h with
  | node _ hbelow hleaf => exact ⟨hbelow _ hmem, hleaf _ hmem⟩

theorem Pruned.setChild (h : t.Pruned) (hs : s.Pruned) (hleaf : s.children = [] → s.mark = true) :
    (t.setChild k s).Pruned := by
  cases h with
  | node hkeys hbelow hold =>
      refine .node (Assoc.nodup_set hkeys) ?_ ?_
      · intro e he
        rcases Assoc.mem_set he with heq | hmem
        · exact heq ▸ hs
        · exact hbelow e hmem
      · intro e he
        rcases Assoc.mem_set he with heq | hmem
        · exact heq ▸ hleaf
        · exact hold e hmem

theorem Pruned.eraseChild (h : t.Pruned) : (t.eraseChild k).Pruned := by
  cases h with
  | node hkeys hbelow hold =>
      exact .node (Assoc.nodup_erase hkeys) (fun e he => hbelow e (List.mem_filter.mp he).1)
        fun e he => hold e (List.mem_filter.mp he).1

theorem Pruned.descend {v : List κ} (h : t.Pruned) (hs : t.descend v = some s) : s.Pruned := by
  induction v generalizing t with
  | nil =>
      rw [descend_nil] at hs
      exact Option.some.inj hs ▸ h
  | cons k v ih =>
      rw [descend_cons] at hs
      obtain ⟨c, hc, hdesc⟩ := Option.bind_eq_some_iff.mp hs
      exact ih (h.child hc).1 hdesc

/-- A leaf below the root is marked. -/
theorem Pruned.mark_of_leaf {v : List κ} (h : t.Pruned) (hs : t.descend v = some s) (hv : v ≠ [])
    (hleaf : s.children = []) : s.mark = true := by
  cases v using List.reverseRecOn with
  | nil => exact absurd rfl hv
  | append_singleton v k _ =>
      rw [descend_append] at hs
      obtain ⟨p, hp, hlast⟩ := Option.bind_eq_some_iff.mp hs
      rw [descend_cons] at hlast
      obtain ⟨c, hc, hnil⟩ := Option.bind_eq_some_iff.mp hlast
      rw [descend_nil] at hnil
      obtain rfl := Option.some.inj hnil
      exact ((h.descend hp).child hc).2 hleaf

/-- A node of a pruned trie leads to a mark, itself or one below it. -/
theorem Pruned.exists_word (h : t.Pruned) (hleaf : t.children = [] → t.mark = true) :
    ∃ w, w ∈ t.words := by
  induction h with
  | @node m cs hkeys _ hends ih =>
      cases cs with
      | nil => exact ⟨[], (nil_mem_words _).mpr (hleaf rfl)⟩
      | cons e es =>
          obtain ⟨w, hw⟩ := ih e List.mem_cons_self (hends e List.mem_cons_self)
          refine ⟨e.1 :: w, (cons_mem_words _ _ _).mpr ⟨e.2, ?_, hw⟩⟩
          exact Assoc.get_of_mem hkeys List.mem_cons_self

end Trie

end Infernum.Lib
