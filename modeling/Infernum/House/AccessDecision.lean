import Infernum.House.AccessPatterns

/-!
# Who is in the list

The expressions with `!` are asked first, then the others, then the names. But an
expression is left out if it is, character for character, the regular expression that an
earlier one was rewritten to: `a.?` behind `a?`.
-/

namespace Infernum.House.Access

open Lib.Regex
open Wildcard (asLowerCaseString)

/-! ## What the text says -/

/-- The lines of the text that are expressions. -/
def expressions (text : List UInt8) : List (List UInt8) :=
  (AccessList.entries text).filterMap fun
    | .expression e => some e
    | _ => none

/-- The name fits an expression behind a `!`. -/
def Denied (wild : UInt8 → Bool) (es : List (List UInt8)) (name : List UInt8) : Prop :=
  ∃ e, bang :: e ∈ es ∧ Stands wild e name

/-- The name fits an expression without a `!` in front. -/
def Allowed (wild : UInt8 → Bool) (es : List (List UInt8)) (name : List UInt8) : Prop :=
  ∃ e ∈ es, e.head? ≠ some bang ∧ Stands wild e name

/-- The players that an entry puts into the list. -/
def playersOf (d : Directory) : Entry → Finset Nat
  | .player name =>
    match d.online.getPlayerByName name with
    | some guid => {guid}
    | none => if d.getGuidByName name ≠ 0 then {d.getGuidByName name} else ∅
  | _ => ∅

/-- The players that a line of the text names. -/
def named (d : Directory) (line : List UInt8) : Finset Nat :=
  match parseLine line with
  | some e => playersOf d e
  | none => ∅

/-- A line of the text names the player, or grants its rank. -/
def Listed (d : Directory) (text : List UInt8) (player : Player) : Prop :=
  (∃ line ∈ getlines text, player.guid ∈ named d line) ∨
    ∃ rank, player.guildRank = some rank ∧
      ∃ line ∈ getlines text, rank.id ∈ AccessList.granted d line

/-- Whether the player has access, as the text is meant. -/
def Permitted (d : Directory) (text : List UInt8) (player : Player) : Prop :=
  let name := asLowerCaseString player.name
  ¬Denied (fun _ => true) (expressions text) name ∧
    (Allowed (fun _ => true) (expressions text) name ∨ Listed d text player)

/-! ## The expressions that are kept -/

/-- The de-duplication compares an expression with what the earlier ones were rewritten
to. -/
def keepStep (kept : List (List UInt8)) (e : List UInt8) : List (List UInt8) :=
  if e ∈ kept.map AccessList.rewritten then kept else kept ++ [e]

/-- The expressions of the text that become regular expressions: the kept ones but for a
lone `!`. -/
def compiled (text : List UInt8) : List (List UInt8) :=
  ((expressions text).foldl keepStep []).filter (· ≠ [bang])

/-- The regular expressions made from expressions. -/
def regExs (kept : List (List UInt8)) : List (List (Piece UInt8) × Bool) :=
  ((kept.filter (·.head? = some bang)).reverse.map fun e => (e.tail.map piece, false)) ++
    (kept.filter (·.head? ≠ some bang)).map fun e => (e.map piece, true)

theorem mem_expressions {text e : List UInt8} :
    e ∈ expressions text ↔ Entry.expression e ∈ AccessList.entries text := by
  rw [expressions, List.mem_filterMap]
  constructor
  · rintro ⟨entry, hmem, heq⟩
    cases entry with
    | expression e' =>
      cases heq
      exact hmem
    | _ => cases heq
  · intro hmem
    exact ⟨_, hmem, rfl⟩

/-- An expression holds a character, else it would be none. -/
theorem ne_nil_of_mem_expressions {text e : List UInt8} (h : e ∈ expressions text) :
    e ≠ [] := by
  obtain ⟨line, _, hline⟩ := List.mem_filterMap.mp (mem_expressions.mp h)
  rintro rfl
  unfold parseLine at hline
  dsimp only at hline
  split at hline
  · cases hline
  · split at hline
    · split at hline <;> cases hline
    · split at hline
      · next hspecial =>
        rw [Entry.expression.inj (Option.some.inj hline)] at hspecial
        simp at hspecial
      · cases hline

theorem keepStep_subset {es kept : List (List UInt8)} {e : List UInt8}
    (h : e ∈ es.foldl keepStep kept) : e ∈ kept ∨ e ∈ es := by
  induction es generalizing kept with
  | nil => exact .inl h
  | cons e' es ih =>
    rcases ih h with hk | hes
    · rw [keepStep] at hk
      split at hk
      · exact .inl hk
      · rcases List.mem_append.mp hk with hk | hlast
        · exact .inl hk
        · exact .inr (by simp [List.mem_singleton.mp hlast])
    · exact .inr (List.mem_cons_of_mem _ hes)

theorem compiled_subset {text e : List UInt8} (h : e ∈ compiled text) :
    e ∈ expressions text :=
  (keepStep_subset (List.mem_filter.mp h).1).resolve_left List.not_mem_nil

namespace AccessList

/-- What `addExpression` does to the list. -/
theorem addExpression_eq (a : AccessList) {e : List UInt8} (hne : e ≠ []) :
    a.addExpression e =
      if e ∈ a.expressionList then a
      else
        { a with
          expressionList := a.expressionList ++ [rewritten e]
          regExList :=
            if e = [bang] then a.regExList
            else if e.head? = some bang then (e.tail.map piece, false) :: a.regExList
            else a.regExList ++ [(e.map piece, true)] } := by
  unfold addExpression
  split
  · rfl
  · obtain ⟨c, e, rfl⟩ := List.exists_cons_of_ne_nil hne
    have hregex := regex_rewritten (c :: e)
    have htail := regex_rewritten e
    rw [rewritten_eq]
    by_cases hbang : c = bang
    · subst hbang
      have hfirst : rewrittenChar bang = [bang] := by decide
      rw [List.flatMap_cons, hfirst]
      cases e with
      | nil => simp
      | cons c' e =>
        -- what is behind the `!` is rewritten to something
        obtain ⟨b, bs, hbs⟩ : ∃ b bs, (c' :: e).flatMap rewrittenChar = b :: bs := by
          have hchar : rewrittenChar c' ≠ [] := by
            unfold rewrittenChar
            split_ifs <;> simp
          obtain ⟨b, bs, hb⟩ := List.exists_cons_of_ne_nil hchar
          exact ⟨b, bs ++ e.flatMap rewrittenChar, by rw [List.flatMap_cons, hb]; rfl⟩
        rw [hbs] at htail
        simp [hbs, htail]
    · -- no other character is rewritten to one that begins with `!`
      obtain ⟨b, bs, hbs, hb⟩ : ∃ b bs, (c :: e).flatMap rewrittenChar = b :: bs ∧
          b ≠ bang := by
        have hbs : backslash ≠ bang ∧ dot ≠ bang := by decide
        rw [List.flatMap_cons]
        unfold rewrittenChar
        split_ifs
        · exact ⟨_, _, rfl, hbs.1⟩
        · exact ⟨_, _, rfl, hbs.2⟩
        · exact ⟨_, _, rfl, hbs.2⟩
        · exact ⟨_, _, rfl, hbang⟩
      rw [hbs] at hregex ⊢
      simp [hb, hbang, hregex]

end AccessList

theorem regExs_append (kept : List (List UInt8)) (e : List UInt8) :
    regExs (kept ++ [e]) =
      if e.head? = some bang then (e.tail.map piece, false) :: regExs kept
      else regExs kept ++ [(e.map piece, true)] := by
  by_cases hbang : e.head? = some bang
  · simp [regExs, hbang]
  · simp [regExs, hbang]

/-- What the list holds when these expressions are kept. -/
structure Holds (a : AccessList) (kept : List (List UInt8)) : Prop where
  expressionList : a.expressionList = kept.map AccessList.rewritten
  regExList : a.regExList = regExs (kept.filter (· ≠ [bang]))

theorem Holds.addExpression {a : AccessList} {kept : List (List UInt8)} (h : Holds a kept)
    {e : List UInt8} (hne : e ≠ []) : Holds (a.addExpression e) (keepStep kept e) := by
  rw [AccessList.addExpression_eq a hne, keepStep, h.expressionList]
  split
  · exact h
  · refine ⟨by simp, ?_⟩
    dsimp only
    rw [h.regExList, List.filter_append]
    by_cases hlone : e = [bang]
    · simp [hlone]
    · rw [if_neg hlone, List.filter_cons_of_pos (by simpa using hlone), List.filter_nil,
        regExs_append]

theorem Holds.of_fields {a b : AccessList} {kept : List (List UInt8)} (h : Holds a kept)
    (hexp : b.expressionList = a.expressionList) (hreg : b.regExList = a.regExList) :
    Holds b kept :=
  ⟨hexp.trans h.expressionList, hreg.trans h.regExList⟩

theorem Holds.addEntry {a : AccessList} {kept : List (List UInt8)} (h : Holds a kept)
    (d : Directory) {e : Entry} (hother : ∀ expression, e ≠ .expression expression) :
    Holds (a.addEntry d e) kept := by
  cases e with
  | guild name =>
    rw [AccessList.addEntry, AccessList.addGuild]
    split
    · next guild _ =>
      -- the loop only inserts ranks
      suffices hloop : ∀ (ranks : List GuildRank) (b : AccessList), Holds b kept →
          Holds (ranks.foldl (fun b rank =>
            { b with guildRankList := insert rank.id b.guildRankList }) b) kept from
        hloop guild.ranks a h
      intro ranks
      induction ranks with
      | nil => exact fun b hb => hb
      | cons rank ranks ih => exact fun b hb => ih _ (hb.of_fields rfl rfl)
    · exact h
  | guildRank name rankName =>
    rw [AccessList.addEntry, AccessList.addGuildRank]
    split
    · split
      · exact h.of_fields rfl rfl
      · exact h
    · exact h
  | expression expression => exact absurd rfl (hother expression)
  | player name =>
    rw [AccessList.addEntry, AccessList.addPlayer]
    split
    · exact h.of_fields rfl rfl
    · dsimp only
      split
      · exact h.of_fields rfl rfl
      · exact h

theorem holds_parseList (d : Directory) (text : List UInt8) :
    Holds (AccessList.parseList d text) ((expressions text).foldl keepStep []) := by
  have hrun : ∀ (es : List Entry) (a : AccessList) (kept : List (List UInt8)), Holds a kept →
      (∀ e, Entry.expression e ∈ es → e ≠ []) →
      Holds (es.foldl (AccessList.addEntry d) a)
        ((es.filterMap fun
          | .expression e => some e
          | _ => none).foldl keepStep kept) := by
    intro es
    induction es with
    | nil => exact fun a kept h _ => h
    | cons e es ih =>
      intro a kept h hne
      have hrest : ∀ e, Entry.expression e ∈ es → e ≠ [] :=
        fun e he => hne e (List.mem_cons_of_mem _ he)
      cases e with
      | expression e => exact ih _ _ (h.addExpression (hne e (by simp))) hrest
      | guild name => exact ih _ _ (h.addEntry d (by simp)) hrest
      | guildRank name rankName => exact ih _ _ (h.addEntry d (by simp)) hrest
      | player name => exact ih _ _ (h.addEntry d (by simp)) hrest
  exact hrun _ _ _ ⟨rfl, rfl⟩ fun e he => ne_nil_of_mem_expressions (mem_expressions.mpr he)

/-! ## The decision -/

theorem playerList_parseList (d : Directory) (text : List UInt8) :
    (AccessList.parseList d text).playerList = (getlines text).toFinset.biUnion (named d) := by
  have hadd : ∀ (a : AccessList) (e : Entry),
      (a.addEntry d e).playerList = a.playerList ∪ playersOf d e := by
    intro a e
    cases e with
    | guild name =>
      simp only [AccessList.addEntry, AccessList.addGuild, playersOf, Finset.union_empty]
      split
      · next guild _ =>
        induction guild.ranks generalizing a with
        | nil => rfl
        | cons rank ranks ih => exact ih { a with guildRankList := insert rank.id a.guildRankList }
      · rfl
    | guildRank name rankName =>
      simp only [AccessList.addEntry, AccessList.addGuildRank, playersOf, Finset.union_empty]
      split
      · split <;> rfl
      · rfl
    | expression e =>
      simp only [AccessList.addEntry, playersOf, Finset.union_empty]
      by_cases hne : e = []
      · subst hne
        rw [AccessList.addExpression]
        split <;> rfl
      · rw [AccessList.addExpression_eq a hne]
        split <;> rfl
    | player name =>
      simp only [AccessList.addEntry, AccessList.addPlayer, playersOf]
      cases d.online.getPlayerByName name with
      | some guid => simp
      | none =>
        dsimp only
        split <;> simp
  rw [AccessList.field_parseList hadd text, Finset.empty_union]
  rfl

/-- The first entry that matches decides: those that deny are in front. -/
theorem find_verdict {α : Type} {l₁ l₂ : List (α × Bool)} (h₁ : ∀ it ∈ l₁, it.2 = false)
    (h₂ : ∀ it ∈ l₂, it.2 = true) (p : α × Bool → Bool) (x : Bool) :
    (((l₁ ++ l₂).find? p).map (·.2)).getD x = true ↔
      (¬∃ it ∈ l₁, p it = true) ∧ ((∃ it ∈ l₂, p it = true) ∨ x = true) := by
  rw [List.find?_append]
  cases hfind₁ : l₁.find? p with
  | some it =>
    have hmem := List.mem_of_find?_eq_some hfind₁
    have hp := List.find?_some hfind₁
    simp only [Option.some_or, Option.map_some, Option.getD_some, h₁ it hmem]
    exact iff_of_false (by simp) fun h => h.1 ⟨it, hmem, hp⟩
  | none =>
    have hnone : ¬∃ it ∈ l₁, p it = true := by
      rintro ⟨it, hmem, hp⟩
      exact List.find?_eq_none.mp hfind₁ it hmem hp
    rw [Option.none_or]
    cases hfind₂ : l₂.find? p with
    | some it =>
      have hmem := List.mem_of_find?_eq_some hfind₂
      simp only [Option.map_some, Option.getD_some, h₂ it hmem, true_iff]
      exact ⟨hnone, .inl ⟨it, hmem, List.find?_some hfind₂⟩⟩
    | none =>
      have hnone₂ : ¬∃ it ∈ l₂, p it = true := by
        rintro ⟨it, hmem, hp⟩
        exact List.find?_eq_none.mp hfind₂ it hmem hp
      simp only [Option.map_none, Option.getD_none, hnone, hnone₂, not_false_eq_true, true_and,
        false_or]

theorem matchWhole_pieces {e name : List UInt8} :
    matchWhole (e.map piece) name = true ↔ Stands notLineTerminator e name :=
  matchWhole_iff.trans matches_pieces

theorem denies_iff {kept : List (List UInt8)} {name : List UInt8} :
    (∃ it ∈ (kept.filter (·.head? = some bang)).reverse.map
        fun e => ((e.tail.map piece, false) : List (Piece UInt8) × Bool),
      matchWhole it.1 name = true) ↔ Denied notLineTerminator kept name := by
  simp only [List.mem_map, List.mem_reverse, List.mem_filter, decide_eq_true_eq]
  constructor
  · rintro ⟨it, ⟨e, ⟨hmem, hhead⟩, rfl⟩, hmatch⟩
    obtain ⟨tail, rfl⟩ : ∃ tail, e = bang :: tail := List.head?_eq_some_iff.mp hhead
    exact ⟨tail, hmem, matchWhole_pieces.mp hmatch⟩
  · rintro ⟨e, hmem, hstands⟩
    exact ⟨_, ⟨bang :: e, ⟨hmem, rfl⟩, rfl⟩, matchWhole_pieces.mpr hstands⟩

theorem allows_iff {kept : List (List UInt8)} {name : List UInt8} :
    (∃ it ∈ (kept.filter (·.head? ≠ some bang)).map
        fun e => ((e.map piece, true) : List (Piece UInt8) × Bool),
      matchWhole it.1 name = true) ↔ Allowed notLineTerminator kept name := by
  simp only [List.mem_map, List.mem_filter, decide_eq_true_eq]
  constructor
  · rintro ⟨it, ⟨e, ⟨hmem, hhead⟩, rfl⟩, hmatch⟩
    exact ⟨e, hmem, hhead, matchWhole_pieces.mp hmatch⟩
  · rintro ⟨e, hmem, hhead, hstands⟩
    exact ⟨_, ⟨e, ⟨hmem, hhead⟩, rfl⟩, matchWhole_pieces.mpr hstands⟩

/-- The list decides as the text is meant to, but with the compiled expressions only, and
with wildcards that stand for no line terminator. -/
theorem isInList_iff (d : Directory) (text : List UInt8) (player : Player) :
    (AccessList.parseList d text).isInList player = true ↔
      ¬Denied notLineTerminator (compiled text) (asLowerCaseString player.name) ∧
        (Allowed notLineTerminator (compiled text) (asLowerCaseString player.name) ∨
          Listed d text player) := by
  have hregex : (AccessList.parseList d text).regExList = regExs (compiled text) :=
    (holds_parseList d text).regExList
  have hform : ∀ (a : AccessList), a.isInList player =
      ((a.regExList.find? fun it => matchWhole it.1 (asLowerCaseString player.name)).map
        (·.2)).getD (if player.guid ∈ a.playerList then true
          else player.guildRank.elim false fun rank => decide (rank.id ∈ a.guildRankList)) := by
    intro a
    unfold AccessList.isInList
    dsimp only
    cases a.regExList.find? _ with
    | some it => rfl
    | none => cases player.guildRank <;> rfl
  have hlisted : (if player.guid ∈ (AccessList.parseList d text).playerList then true
      else player.guildRank.elim false fun rank =>
        decide (rank.id ∈ (AccessList.parseList d text).guildRankList)) = true ↔
      Listed d text player := by
    rw [playerList_parseList, AccessList.guildRankList_parseList, Listed]
    cases player.guildRank with
    | none => simp
    | some rank => simp
  rw [hform, hregex, regExs, find_verdict, denies_iff, allows_iff, hlisted]
  · intro it hit
    obtain ⟨e, _, rfl⟩ := List.mem_map.mp hit
    rfl
  · intro it hit
    obtain ⟨e, _, rfl⟩ := List.mem_map.mp hit
    rfl

/-- The expressions that became regular expressions speak for those that did not. -/
structure KeptDecide (d : Directory) (text : List UInt8) (player : Player) : Prop where
  denied : Denied (fun _ => true) (expressions text) (asLowerCaseString player.name) →
    Denied notLineTerminator (compiled text) (asLowerCaseString player.name) ∨
      ¬(Allowed notLineTerminator (compiled text) (asLowerCaseString player.name) ∨
        Listed d text player)
  allowed : ¬Denied (fun _ => true) (expressions text) (asLowerCaseString player.name) →
    Allowed (fun _ => true) (expressions text) (asLowerCaseString player.name) →
    Allowed notLineTerminator (compiled text) (asLowerCaseString player.name) ∨
      Listed d text player

/-- `isInList` follows the text exactly if the compiled expressions speak for all. -/
theorem isInList_exact (d : Directory) (text : List UInt8) (player : Player) :
    ((AccessList.parseList d text).isInList player = true ↔ Permitted d text player) ↔
      KeptDecide d text player := by
  have hdenied : Denied notLineTerminator (compiled text) (asLowerCaseString player.name) →
      Denied (fun _ => true) (expressions text) (asLowerCaseString player.name) := by
    rintro ⟨e, hmem, hstands⟩
    exact ⟨e, compiled_subset hmem, hstands.mono fun _ _ => rfl⟩
  have hallowed : Allowed notLineTerminator (compiled text) (asLowerCaseString player.name) →
      Allowed (fun _ => true) (expressions text) (asLowerCaseString player.name) := by
    rintro ⟨e, hmem, hhead, hstands⟩
    exact ⟨e, compiled_subset hmem, hhead, hstands.mono fun _ _ => rfl⟩
  rw [isInList_iff, Permitted]
  constructor
  · intro h
    refine ⟨fun hd => ?_, fun hd ha => ?_⟩
    · by_contra hnot
      rw [not_or, not_not] at hnot
      exact (h.mp hnot).1 hd
    · by_contra hnot
      exact hnot (h.mpr ⟨hd, .inl ha⟩).2
  · intro h
    constructor
    · rintro ⟨hnd, ha⟩
      refine ⟨fun hd => ?_, ha.imp hallowed id⟩
      rcases h.denied hd with hk | hk
      · exact hnd hk
      · exact hk ha
    · rintro ⟨hnd, ha⟩
      refine ⟨fun hk => hnd (hdenied hk), ?_⟩
      rcases ha with ha | hl
      · exact h.allowed hnd ha
      · exact .inr hl

/-! ## Lists without dots -/

/-- What is rewritten to a text without dots and backslashes was not changed. -/
theorem rewritten_plain {e e' : List UInt8} (h : AccessList.rewritten e = e')
    (hdot : dot ∉ e') (hbackslash : backslash ∉ e') : e = e' := by
  rw [rewritten_eq] at h
  subst h
  induction e with
  | nil => rfl
  | cons c e ih =>
    rw [List.flatMap_cons, List.mem_append, not_or] at hdot hbackslash
    have hc : rewrittenChar c = [c] := by
      unfold rewrittenChar at hdot hbackslash ⊢
      by_cases hmeta : c ∈ metachars
      · simp [hmeta] at hbackslash
      · by_cases hstar : c = star
        · rw [hstar] at hdot
          exact absurd hdot.1 (by decide)
        · by_cases hquest : c = quest
          · rw [hquest] at hdot
            exact absurd hdot.1 (by decide)
          · rw [if_neg hmeta, if_neg hstar, if_neg hquest]
    rw [List.flatMap_cons, hc, ← ih hdot.2 hbackslash.2]
    rfl

theorem keepStep_kept {kept es : List (List UInt8)} {e : List UInt8} (h : e ∈ kept) :
    e ∈ es.foldl keepStep kept := by
  induction es generalizing kept with
  | nil => exact h
  | cons e' es ih =>
    refine ih ?_
    rw [keepStep]
    split
    · exact h
    · exact List.mem_append_left _ h

/-- Without dots and backslashes nothing is left out but repetitions. -/
theorem keepStep_plain {kept es : List (List UInt8)} {e : List UInt8}
    (hdot : dot ∉ e) (hbackslash : backslash ∉ e) (h : e ∈ es) :
    e ∈ es.foldl keepStep kept := by
  induction es generalizing kept with
  | nil => cases h
  | cons e' es ih =>
    rcases List.mem_cons.mp h with rfl | h
    · rw [List.foldl_cons]
      refine keepStep_kept ?_
      rw [keepStep]
      split
      · next hmem =>
        obtain ⟨e', hmem', heq⟩ := List.mem_map.mp hmem
        exact rewritten_plain heq hdot hbackslash ▸ hmem'
      · exact List.mem_append_right _ (List.mem_singleton.mpr rfl)
    · exact ih h

theorem Stands.of_forall {wild wild' : UInt8 → Bool} {e s : List UInt8} (h : Stands wild e s)
    (hs : ∀ c ∈ s, wild' c = true) : Stands wild' e s := by
  induction h with
  | nil => exact .nil
  | star hu _ ih =>
    exact .star (fun c hc => hs c (List.mem_append_left _ hc))
      (ih fun c hc => hs c (List.mem_append_right _ hc))
  | skip _ ih => exact .skip (ih hs)
  | one _ _ ih => exact .one (hs _ (by simp)) (ih fun c hc => hs c (by simp [hc]))
  | char hstar hquest _ ih => exact .char hstar hquest (ih fun c hc => hs c (by simp [hc]))

/-- A list whose expressions have no dots and no backslashes is followed for every player
with a name, as long as the name has no line terminators. -/
theorem isInList_plain (d : Directory) {text : List UInt8} {player : Player}
    (hplain : ∀ e ∈ expressions text, dot ∉ e ∧ backslash ∉ e) (hname : player.name ≠ [])
    (hline : ∀ c ∈ asLowerCaseString player.name, notLineTerminator c = true) :
    (AccessList.parseList d text).isInList player = true ↔ Permitted d text player := by
  have hcompiled : ∀ e ∈ expressions text, e ≠ [bang] → e ∈ compiled text := by
    intro e he hlone
    refine List.mem_filter.mpr ⟨?_, by simpa using hlone⟩
    exact keepStep_plain (hplain e he).1 (hplain e he).2 he
  refine (isInList_exact d text player).mpr ⟨?_, ?_⟩
  · rintro ⟨e, hmem, hstands⟩
    refine .inl ⟨e, hcompiled _ hmem ?_, hstands.of_forall hline⟩
    -- a lone `!` is for the player without a name
    intro hlone
    rw [(List.cons.inj hlone).2] at hstands
    generalize hlower : asLowerCaseString player.name = name at hstands
    cases hstands
    exact hname (List.map_eq_nil_iff.mp hlower)
  · rintro _ ⟨e, hmem, hhead, hstands⟩
    refine .inl ⟨e, hcompiled e hmem ?_, hhead, hstands.of_forall hline⟩
    rintro rfl
    exact hhead rfl

/-- The lines `a?` and `a.?`. -/
def text_a_dot : List UInt8 := ['a', '?', '\n', 'a', '.', '?'].map Char.toUInt8

/-- The player `a.x`. -/
def player_a_x : Player where
  name := ['a', '.', 'x'].map Char.toUInt8
  noNul := by decide
  guid := 1
  guildRank := none

/-- `a.x` fits `a.?`, but `a.?` is what `a?` was rewritten to. -/
theorem expression_left_out :
    ¬∀ d text player,
      (AccessList.parseList d text).isInList player = true ↔ Permitted d text player := by
  intro h
  have hpermitted : Permitted twoGuilds text_a_dot player_a_x := by
    have hexp : expressions text_a_dot =
        [['a', '?'].map Char.toUInt8, ['a', '.', '?'].map Char.toUInt8] := by decide
    refine ⟨?_, .inl ⟨['a', '.', '?'].map Char.toUInt8, by rw [hexp]; simp, by decide, ?_⟩⟩
    · rintro ⟨e, hmem, _⟩
      rw [hexp] at hmem
      rcases List.mem_cons.mp hmem with heq | hmem
      · exact absurd (List.cons.inj heq).1 (by decide)
      · exact absurd (List.cons.inj (List.mem_singleton.mp hmem)).1 (by decide)
    · exact .char (by decide) (by decide) (.char (by decide) (by decide) (.one rfl .nil))
  exact absurd ((h twoGuilds text_a_dot player_a_x).mpr hpermitted) (by decide)

end Infernum.House.Access
