import Infernum.Wildcard.WildcardTree

/-!
# Looking names up

After any history of insertions and removals the tree represents the set of the
names present, and a search answers how many of them begin with the query.
-/

namespace Infernum.Wildcard

open Lib Lib.Trie

/-- The bytes of a name, at least one. -/
abbrev Name := {str : List UInt8 // str ≠ []}

inductive Edit where
  | insert (name : Name)
  | remove (name : Name)

/-- The tree after a history. -/
def run (es : List Edit) : WildcardTreeNode :=
  es.foldl (fun n e => match e with
    | .insert name => n.insert name
    | .remove name => n.remove name) WildcardTreeNode.root

/-- The names present after a history. -/
def present (es : List Edit) : Set (List UInt8) :=
  es.foldl (fun names e => match e with
    | .insert name => insert name.1 names
    | .remove name => names \ {name.1}) ∅

/-- The tree is pruned and holds these names, and its searches count them. -/
structure Represents (n : WildcardTreeNode) (names : Set (List UInt8)) : Prop where
  /-- The breakpoints are the names. -/
  breakpoints : ∀ str : List UInt8,
    (∃ s, n.descend str = some s ∧ WildcardTreeNode.breakpoint s = true) ↔ str ∈ names
  /-- No branch is dead. -/
  leaves : ∀ (str : Name) (s : WildcardTreeNode), n.descend str = some s → s.children = [] →
    WildcardTreeNode.breakpoint s = true
  noError : ∀ (query : Name) (result : List UInt8),
    (n.findOne query result).1 = .noError ↔ ∃! name, name ∈ names ∧ query <+: name
  /-- The name found is the one that begins with the query. -/
  result : ∀ (query : Name) (result : List UInt8), (n.findOne query result).1 = .noError →
    (n.findOne query result).2 ∈ names ∧ query <+: (n.findOne query result).2
  ambiguous : ∀ (query : Name) (result : List UInt8),
    (n.findOne query result).1 = .nameIsTooAmbiguous ↔
      ∃ name ∈ names, ∃ name' ∈ names, name ≠ name' ∧ query <+: name ∧ query <+: name'
  notOnline : ∀ (query : Name) (result : List UInt8),
    (n.findOne query result).1 = .playerWithThisNameIsNotOnline ↔
      ∀ name ∈ names, ¬query <+: name

/-- What a walk down the only children of a node finds out about its words. -/
inductive Followed (words : Set (List UInt8)) (query : List UInt8) :
    ReturnValue × List UInt8 → Prop
  | one {w result : List UInt8} (hmem : w ∈ words) (hone : ∀ v ∈ words, v = w)
      (hresult : result = query ++ w) : Followed words query (.noError, result)
  | more {v w result : List UInt8} (hv : v ∈ words) (hw : w ∈ words) (hne : v ≠ w) :
      Followed words query (.nameIsTooAmbiguous, result)

namespace WildcardTreeNode

theorem cons_mem_words_singleton {m : Bool} {ch k : UInt8} {child : WildcardTreeNode}
    {w : List UInt8} : k :: w ∈ (node m [(ch, child)] : WildcardTreeNode).words ↔
      k = ch ∧ w ∈ child.words := by
  rw [cons_mem_words, Trie.child, children_node, Assoc.get, Assoc.get]
  split
  · next hk => simp [hk]
  · next hk => simp [Ne.symm hk]

theorem followed_follow {s : WildcardTreeNode} (query : List UInt8) (h : s.Pruned)
    (hleaf : s.children = [] → s.mark = true) : Followed s.words query (follow s query) := by
  induction s, query using follow.induct with
  | case1 m query =>
      rw [follow]
      refine .one ((nil_mem_words _).mpr (hleaf rfl)) (fun v hv => ?_) (List.append_nil _).symm
      cases v with
      | nil => rfl
      | cons k v =>
          obtain ⟨s, hs, _⟩ := (cons_mem_words _ _ _).mp hv
          cases hs
  | case2 ch child query =>
      obtain ⟨hpruned, hbelow⟩ := h.child (k := ch) (s := child) (if_pos rfl)
      obtain ⟨w, hw⟩ := hpruned.exists_word hbelow
      rw [follow, if_pos rfl]
      exact .more ((nil_mem_words _).mpr rfl) (cons_mem_words_singleton.mpr ⟨rfl, hw⟩)
        (List.cons_ne_nil _ _).symm
  | case3 m ch child query hm ih =>
      obtain ⟨hpruned, hbelow⟩ := h.child (k := ch) (s := child) (if_pos rfl)
      rw [follow, if_neg hm]
      generalize hanswer : follow child (query ++ [ch]) = answer
      have hchild := ih hpruned hbelow
      rw [hanswer] at hchild
      cases hchild with
      | one hmem hone hresult =>
          refine .one (cons_mem_words_singleton.mpr ⟨rfl, hmem⟩) (fun v hv => ?_)
            (hresult.trans (List.append_assoc _ _ _))
          cases v with
          | nil => exact absurd ((nil_mem_words _).mp hv) hm
          | cons k v =>
              obtain ⟨hk, hv⟩ := cons_mem_words_singleton.mp hv
              rw [hk, hone v hv]
      | more hv hw hne =>
          refine .more (cons_mem_words_singleton.mpr ⟨rfl, hv⟩)
            (cons_mem_words_singleton.mpr ⟨rfl, hw⟩) fun heq => hne (List.cons.inj heq).2
  | case4 m e e' es query =>
      rw [follow]
      -- two children: two names that part here
      have hword : ∀ f ∈ e :: e' :: es, ∃ w, f.1 :: w ∈ (node m (e :: e' :: es)).words := by
        intro f hf
        have hchild : (node m (e :: e' :: es)).child f.1 = some f.2 := Assoc.get_of_mem h.keys hf
        obtain ⟨hpruned, hbelow⟩ := h.child hchild
        obtain ⟨w, hw⟩ := hpruned.exists_word hbelow
        exact ⟨w, (cons_mem_words _ _ _).mpr ⟨f.2, hchild, hw⟩⟩
      obtain ⟨v, hv⟩ := hword e List.mem_cons_self
      obtain ⟨w, hw⟩ := hword e' (List.mem_cons_of_mem _ List.mem_cons_self)
      refine .more hv hw fun heq => ?_
      have hkeys := (List.nodup_cons.mp h.keys).1
      exact hkeys ((List.cons.inj heq).1 ▸ List.mem_cons_self)

end WildcardTreeNode

open WildcardTreeNode

/-- What a search finds out about the names. -/
inductive Found (names : Set (List UInt8)) (query : List UInt8) : ReturnValue × List UInt8 → Prop
  | none {result : List UInt8} (hnone : ∀ name ∈ names, ¬query <+: name) :
      Found names query (.playerWithThisNameIsNotOnline, result)
  | one {name : List UInt8} (hmem : name ∈ names) (hquery : query <+: name)
      (hone : ∀ name' ∈ names, query <+: name' → name' = name) :
      Found names query (.noError, name)
  | more {name name' result : List UInt8} (hmem : name ∈ names) (hmem' : name' ∈ names)
      (hne : name ≠ name') (hquery : query <+: name) (hquery' : query <+: name') :
      Found names query (.nameIsTooAmbiguous, result)

theorem found_findOne {n : WildcardTreeNode} (h : n.Pruned) {query : List UInt8}
    (hquery : query ≠ []) (result : List UInt8) :
    Found n.words query (n.findOne query result) := by
  rw [findOne]
  cases hs : n.descend query with
  | none =>
      refine .none fun name hname hprefix => ?_
      obtain ⟨w, rfl⟩ := hprefix
      obtain ⟨s, hfound, _⟩ := (append_mem_words _ _ _).mp hname
      rw [hs] at hfound
      cases hfound
  | some s =>
      have hwords : ∀ w, query ++ w ∈ n.words ↔ w ∈ s.words := by
        intro w
        rw [append_mem_words, hs]
        simp
      have hfollowed := followed_follow query (h.descend hs) (h.mark_of_leaf hs hquery)
      show Found n.words query (follow s query)
      generalize follow s query = answer at hfollowed
      cases hfollowed with
      | one hmem hone hresult =>
          rw [hresult]
          refine .one ((hwords _).mpr hmem) (List.prefix_append _ _) fun name' hname' hprefix => ?_
          obtain ⟨v, rfl⟩ := hprefix
          rw [hone v ((hwords v).mp hname')]
      | more hv hw hne =>
          exact .more ((hwords _).mpr hv) ((hwords _).mpr hw)
            (fun heq => hne (List.append_cancel_left heq)) (List.prefix_append _ _)
            (List.prefix_append _ _)

theorem represents_words {n : WildcardTreeNode} (h : n.Pruned) : Represents n n.words where
  breakpoints str := Iff.rfl
  leaves str s hs hleaf := h.mark_of_leaf hs str.2 hleaf
  noError query result := by
    have hfound := found_findOne h query.2 result
    generalize n.findOne query result = answer at hfound
    cases hfound with
    | none hnone =>
        refine ⟨nofun, ?_⟩
        rintro ⟨name, ⟨hmem, hquery⟩, _⟩
        exact absurd hquery (hnone name hmem)
    | one hmem hquery hone => exact ⟨fun _ => ⟨_, ⟨hmem, hquery⟩, fun y hy => hone y hy.1 hy.2⟩,
        fun _ => rfl⟩
    | more hmem hmem' hne hquery hquery' =>
        refine ⟨nofun, fun hone => ?_⟩
        exact absurd (hone.unique ⟨hmem, hquery⟩ ⟨hmem', hquery'⟩) hne
  result query result := by
    have hfound := found_findOne h query.2 result
    generalize n.findOne query result = answer at hfound
    cases hfound with
    | none _ => exact nofun
    | one hmem hquery _ => exact fun _ => ⟨hmem, hquery⟩
    | more _ _ _ _ _ => exact nofun
  ambiguous query result := by
    have hfound := found_findOne h query.2 result
    generalize n.findOne query result = answer at hfound
    cases hfound with
    | none hnone =>
        refine ⟨nofun, ?_⟩
        rintro ⟨name, hmem, _, _, _, hquery, _⟩
        exact absurd hquery (hnone name hmem)
    | one hmem hquery hone =>
        refine ⟨nofun, ?_⟩
        rintro ⟨v, hv, w, hw, hne, hvq, hwq⟩
        exact absurd ((hone v hv hvq).trans (hone w hw hwq).symm) hne
    | more hmem hmem' hne hquery hquery' =>
        exact ⟨fun _ => ⟨_, hmem, _, hmem', hne, hquery, hquery'⟩, fun _ => rfl⟩
  notOnline query result := by
    have hfound := found_findOne h query.2 result
    generalize n.findOne query result = answer at hfound
    cases hfound with
    | none hnone => exact ⟨fun _ => hnone, fun _ => rfl⟩
    | one hmem hquery _ => exact ⟨nofun, fun hnone => absurd hquery (hnone _ hmem)⟩
    | more hmem _ _ hquery _ => exact ⟨nofun, fun hnone => absurd hquery (hnone _ hmem)⟩

theorem words_root : root.words = ∅ := by
  ext w
  cases w with
  | nil => simp [root]
  | cons k w => simp [root, cons_mem_words]

/-- After any history the tree is pruned and holds the names present. -/
theorem run_spec (es : List Edit) : (run es).Pruned ∧ (run es).words = present es := by
  induction es using List.reverseRecOn with
  | nil => exact ⟨pruned_leaf false, words_root⟩
  | append_singleton es e ih =>
      obtain ⟨hpruned, hwords⟩ := ih
      simp only [run, present, List.foldl_append, List.foldl_cons, List.foldl_nil] at hwords ⊢
      cases e with
      | insert name =>
          refine ⟨pruned_insert hpruned name.2, ?_⟩
          ext w
          rw [mem_words_insert name.2, ← hwords, Set.mem_insert_iff]
      | remove name =>
          refine ⟨pruned_remove hpruned, ?_⟩
          ext w
          rw [mem_words_remove, ← hwords, Set.mem_sdiff, Set.mem_singleton_iff]

/-- The tree represents the names present, whatever was inserted and removed. -/
theorem represents_present (es : List Edit) : Represents (run es) (present es) := by
  obtain ⟨hpruned, hwords⟩ := run_spec es
  rw [← hwords]
  exact represents_words hpruned

end Infernum.Wildcard

/-!
## Players found by the beginning of their name

`addPlayer` and `removePlayer` keep the lower-case names of the players on-line both
in a map and in the wildcard tree; `getPlayerByNameWildcard` looks a name that ends in
`~` up in the tree and the name found in the map.
-/

namespace Infernum.Wildcard

open Lib Lib.Trie

/-- `tolower` on a byte. -/
def toLower (ch : UInt8) : UInt8 := if 65 ≤ ch ∧ ch ≤ 90 then ch + 32 else ch

def asLowerCaseString (str : List UInt8) : List UInt8 := str.map toLower

/-- The names of the players on-line, of the state of `Game`. -/
structure OnlineNames where
  mappedPlayerNames : List UInt8 → Option Nat
  wildcardTree : WildcardTreeNode

namespace OnlineNames

def empty : OnlineNames := ⟨fun _ => none, .root⟩

def addPlayer (g : OnlineNames) (name : Name) (player : Nat) : OnlineNames :=
  let lowercase_name := asLowerCaseString name
  { mappedPlayerNames := Function.update g.mappedPlayerNames lowercase_name (some player)
    wildcardTree := g.wildcardTree.insert lowercase_name }

def removePlayer (g : OnlineNames) (name : Name) : OnlineNames :=
  let lowercase_name := asLowerCaseString name
  { mappedPlayerNames := Function.update g.mappedPlayerNames lowercase_name none
    wildcardTree := g.wildcardTree.remove lowercase_name }

def getPlayerByName (g : OnlineNames) (s : List UInt8) : Option Nat :=
  if s = [] then none else g.mappedPlayerNames (asLowerCaseString s)

/-- The tree holds the names of the map, all of them in lower case. -/
structure Agree (g : OnlineNames) : Prop where
  pruned : g.wildcardTree.Pruned
  words : ∀ name, name ∈ g.wildcardTree.words ↔ (g.mappedPlayerNames name).isSome = true
  lower : ∀ name ∈ g.wildcardTree.words, name ≠ [] ∧ asLowerCaseString name = name

inductive Reached : OnlineNames → Prop
  | empty : Reached empty
  | addPlayer {g : OnlineNames} (name : Name) (player : Nat) (h : Reached g) :
      Reached (g.addPlayer name player)
  | removePlayer {g : OnlineNames} (name : Name) (h : Reached g) : Reached (g.removePlayer name)

theorem toLower_toLower (ch : UInt8) : toLower (toLower ch) = toLower ch := by
  by_cases hupper : 65 ≤ ch ∧ ch ≤ 90
  · have hlower : ¬(65 ≤ ch + 32 ∧ ch + 32 ≤ 90) := by
      simp only [UInt8.le_iff_toNat_le, UInt8.toNat_add, UInt8.reduceToNat] at hupper ⊢
      omega
    rw [toLower, toLower, if_pos hupper, if_neg hlower]
  · rw [toLower, toLower, if_neg hupper, if_neg hupper]

theorem asLowerCaseString_asLowerCaseString (str : List UInt8) :
    asLowerCaseString (asLowerCaseString str) = asLowerCaseString str := by
  simp [asLowerCaseString, toLower_toLower]

end OnlineNames

end Infernum.Wildcard
