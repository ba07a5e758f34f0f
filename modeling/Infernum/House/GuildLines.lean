import Infernum.House.AccessList
import Mathlib.Data.Finset.Union

/-!
# Guild lines

`@G` grants every rank of the guild `G`. For `L@R` the guild's name is cut off one
character before the `@`: the guild that is looked up is never `L`.
-/

namespace Infernum.House.Access

open Wildcard (asLowerCaseString toLower)

namespace AccessList

/-! ## What a line grants -/

/-- The ranks that an entry puts into the list. -/
def ranksOf (d : Directory) : Entry → Finset Nat
  | .guild name =>
    match d.getGuildByName name with
    | some guild => (guild.ranks.map (·.id)).toFinset
    | none => ∅
  | .guildRank name rankName =>
    match d.getGuildByName name with
    | some guild =>
      match guild.getRankByName rankName with
      | some rank => {rank.id}
      | none => ∅
    | none => ∅
  | _ => ∅

theorem guildRankList_ranks (a : AccessList) (ranks : List GuildRank) :
    (ranks.foldl (fun a rank => { a with guildRankList := insert rank.id a.guildRankList })
      a).guildRankList = a.guildRankList ∪ (ranks.map (·.id)).toFinset := by
  induction ranks generalizing a with
  | nil => simp
  | cons rank ranks ih =>
    rw [List.foldl_cons, ih]
    simp [Finset.insert_union, Finset.union_insert]

theorem guildRankList_addExpression (a : AccessList) (expression : List UInt8) :
    (a.addExpression expression).guildRankList = a.guildRankList := by
  unfold addExpression
  split
  · rfl
  · dsimp only
    split
    · rfl
    · split
      · split
        · rfl
        · split <;> rfl
      · split <;> rfl

theorem guildRankList_addPlayer (d : Directory) (a : AccessList) (name : List UInt8) :
    (a.addPlayer d name).guildRankList = a.guildRankList := by
  unfold addPlayer
  split
  · rfl
  · dsimp only
    split <;> rfl

theorem guildRankList_addEntry (d : Directory) (a : AccessList) (e : Entry) :
    (a.addEntry d e).guildRankList = a.guildRankList ∪ ranksOf d e := by
  cases e with
  | guild name =>
    simp only [addEntry, addGuild, ranksOf]
    cases d.getGuildByName name with
    | none => simp
    | some guild => exact guildRankList_ranks a guild.ranks
  | guildRank name rankName =>
    simp only [addEntry, addGuildRank, ranksOf]
    cases d.getGuildByName name with
    | none => simp
    | some guild =>
      cases hrank : guild.getRankByName rankName with
      | none => simp [hrank]
      | some rank => simp [hrank]
  | expression expression =>
    simp [addEntry, ranksOf, guildRankList_addExpression]
  | player name =>
    simp [addEntry, ranksOf, guildRankList_addPlayer]

/-- The ranks that a line of the text puts into the list. -/
def granted (d : Directory) (line : List UInt8) : Finset Nat :=
  match parseLine line with
  | some e => ranksOf d e
  | none => ∅

/-- What every entry adds to a set of the list is in the end the union over the lines. -/
theorem field_parseList {d : Directory} {field : AccessList → Finset Nat}
    {added : Entry → Finset Nat}
    (hadd : ∀ a e, field (a.addEntry d e) = field a ∪ added e) (text : List UInt8) :
    field (parseList d text) = field ⟨text, ∅, ∅, [], []⟩ ∪
      (getlines text).toFinset.biUnion fun line =>
        match parseLine line with
        | some e => added e
        | none => ∅ := by
  have hfold : ∀ (lines : List (List UInt8)) (a : AccessList),
      field ((lines.filterMap parseLine).foldl (addEntry d) a) =
        field a ∪ lines.toFinset.biUnion fun line =>
          match parseLine line with
          | some e => added e
          | none => ∅ := by
    intro lines
    induction lines with
    | nil => simp
    | cons line lines ih =>
      intro a
      rw [List.toFinset_cons, Finset.biUnion_insert, ← Finset.union_assoc]
      cases hline : parseLine line with
      | none => simp [hline, ih]
      | some e => simp [hline, ih, hadd]
  exact hfold (getlines text) _

theorem guildRankList_parseList (d : Directory) (text : List UInt8) :
    (parseList d text).guildRankList = (getlines text).toFinset.biUnion (granted d) := by
  rw [field_parseList (guildRankList_addEntry d) text, Finset.empty_union]
  rfl

end AccessList

open AccessList

/-! ## Guild lines -/

/-- The name whose guild an entry looks up. -/
def Entry.lookedUp : Entry → Option (List UInt8)
  | .guild name => some name
  | .guildRank name _ => some name
  | _ => none

/-- The line grants what it names: with a guild's name before the `@` that guild is looked
up, and its rank named behind the `@` is granted; with nothing before the `@` it is the
guild named behind it, with all its ranks. Case does not count in the names. -/
structure GrantsNamed (d : Directory) (line L R : List UInt8) : Prop where
  lookedUp : (parseLine line).bind Entry.lookedUp =
    some (asLowerCaseString (if L = [] then R else L))
  granted : granted d line =
    if L = [] then
      match d.getGuildByName R with
      | some guild => (guild.ranks.map (·.id)).toFinset
      | none => ∅
    else
      match d.getGuildByName L with
      | some guild =>
        match guild.getRankByName (asLowerCaseString R) with
        | some rank => {rank.id}
        | none => ∅
      | none => ∅

/-- Lower-casing makes no `@` and takes none away. -/
theorem toLower_eq_at {c : UInt8} : Wildcard.toLower c = at_sign ↔ c = at_sign := by
  have hat : at_sign.toNat = 64 := rfl
  unfold Wildcard.toLower
  split
  · next hupper =>
    simp only [UInt8.le_iff_toNat_le, UInt8.reduceToNat] at hupper
    simp only [← UInt8.toNat_inj, UInt8.toNat_add, UInt8.reduceToNat, hat]
    omega
  · rfl

theorem idxOf_at {L R : List UInt8} (hL : at_sign ∉ L) :
    (asLowerCaseString (L ++ at_sign :: R)).idxOf at_sign = L.length := by
  have hnot : at_sign ∉ asLowerCaseString L := by
    intro hmem
    obtain ⟨c, hc, heq⟩ := List.mem_map.mp hmem
    exact hL (toLower_eq_at.mp heq ▸ hc)
  have hsplit : asLowerCaseString (L ++ at_sign :: R) =
      asLowerCaseString L ++ at_sign :: asLowerCaseString R := by
    simp only [asLowerCaseString, List.map_append, List.map_cons]
    rfl
  rw [hsplit, List.idxOf_append_of_notMem hnot, List.idxOf_cons_self, Nat.add_zero]
  exact List.length_map _

/-- A guild line is a comment, names a guild, or names a rank of the guild whose name ends
one character before the `@`. -/
theorem parseLine_guild {line L R : List UInt8} (htrim : trimmed line = L ++ at_sign :: R)
    (hL : at_sign ∉ L) (hlen : (trimmed line).length ≤ 100) :
    parseLine line =
      if L.head? = some '#'.toUInt8 then none
      else if L = [] then some (.guild (asLowerCaseString R))
      else some (.guildRank (asLowerCaseString L.dropLast) (asLowerCaseString R)) := by
  have hidx := idxOf_at (R := R) hL
  have hlength : (asLowerCaseString (L ++ at_sign :: R)).length = L.length + R.length + 1 := by
    simp [asLowerCaseString]
    omega
  rw [htrim] at hlen
  unfold parseLine
  simp only [htrim, hidx, hlength]
  rw [if_pos (show L.length < L.length + R.length + 1 by omega)]
  cases L with
  | nil =>
    rw [if_neg (by
      rintro (h | h | h)
      · cases h
      · exact absurd (Option.some.inj h) (by decide)
      · exact absurd h (by omega))]
    simp [asLowerCaseString]
  | cons c L =>
    by_cases hcomment : c = '#'.toUInt8
    · rw [if_pos (.inr (.inl (by simp [hcomment]))), if_pos (by simp [hcomment])]
    · rw [if_neg (by
        rintro (h | h | h)
        · cases h
        · exact hcomment (Option.some.inj h)
        · exact absurd h (by omega)), List.head?_cons,
        if_neg (fun h => hcomment (Option.some.inj h)), if_neg (by simp), if_neg (by simp)]
      -- `substr(0, at_pos - 1)` stops one short of the `@`
      have hname : (asLowerCaseString (c :: L ++ at_sign :: R)).take ((c :: L).length - 1) =
          asLowerCaseString (c :: L).dropLast := by
        rw [asLowerCaseString, ← List.map_take, List.take_append_of_le_length (by simp),
          ← List.dropLast_eq_take]
        rfl
      have hrank : (asLowerCaseString (c :: L ++ at_sign :: R)).drop ((c :: L).length + 1) =
          asLowerCaseString R := by
        rw [asLowerCaseString, ← List.map_drop, List.drop_append]
        simp [asLowerCaseString]
      rw [hname, hrank]

theorem length_asLowerCaseString (str : List UInt8) :
    (asLowerCaseString str).length = str.length :=
  List.length_map _

theorem getGuildByName_lower {d : Directory}
    (hcase : ∀ name, d.getGuildIdByName (asLowerCaseString name) = d.getGuildIdByName name)
    (name : List UInt8) : d.getGuildByName (asLowerCaseString name) = d.getGuildByName name := by
  rw [Directory.getGuildByName, Directory.getGuildByName, hcase]

/-- With a database that looks names up without regard to case: the ranks in the list are
those that its lines grant. A guild line grants what it names exactly if it begins with
the `@`; any other that is no comment grants what it would name without the last character
before the `@`. -/
theorem guildLines_exact {d : Directory}
    (hcase : ∀ name, d.getGuildIdByName (asLowerCaseString name) = d.getGuildIdByName name)
    (text : List UInt8) :
    (parseList d text).guildRankList = (getlines text).toFinset.biUnion (granted d) ∧
    ∀ line L R, trimmed line = L ++ at_sign :: R → at_sign ∉ L → at_sign ∉ R → R ≠ [] →
      (trimmed line).length ≤ 100 →
      (GrantsNamed d line L R ↔ L = []) ∧
      (L ≠ [] → L.head? ≠ some '#'.toUInt8 →
        granted d line =
          ranksOf d (.guildRank (asLowerCaseString L.dropLast) (asLowerCaseString R))) := by
  refine ⟨guildRankList_parseList d text, ?_⟩
  intro line L R htrim hL _ _ hlen
  have hparse := parseLine_guild htrim hL hlen
  refine ⟨⟨?_, ?_⟩, ?_⟩
  · -- the name that is looked up is too short, if one is looked up at all
    intro h
    by_contra hne
    have hlooked := h.lookedUp
    rw [hparse, if_neg hne, if_neg hne] at hlooked
    split at hlooked
    · cases hlooked
    · have hlength := congrArg List.length (Option.some.inj hlooked)
      rw [length_asLowerCaseString, length_asLowerCaseString, List.length_dropLast] at hlength
      have hpos := List.length_pos_of_ne_nil hne
      omega
  · rintro rfl
    rw [List.head?_nil, if_neg (by simp), if_pos rfl] at hparse
    refine ⟨by rw [hparse, if_pos rfl]; rfl, ?_⟩
    rw [if_pos rfl, granted, hparse]
    show ranksOf d (.guild (asLowerCaseString R)) = _
    rw [ranksOf, getGuildByName_lower hcase]
  · intro hne hcomment
    rw [if_neg hcomment, if_neg hne] at hparse
    rw [granted, hparse]

/-- Two guilds `a` and `ab`, each with a rank `r`. -/
def twoGuilds : Directory where
  online := .empty
  getGuidByName _ := 0
  getGuildIdByName name :=
    if asLowerCaseString name = ['a'.toUInt8] then 1
    else if asLowerCaseString name = ['a'.toUInt8, 'b'.toUInt8] then 2
    else 0
  getGuild _ := none
  loadGuild id :=
    if id = 1 then some ⟨[⟨10, ['r'.toUInt8]⟩]⟩
    else if id = 2 then some ⟨[⟨20, ['r'.toUInt8]⟩]⟩
    else none

theorem twoGuilds_case (name : List UInt8) :
    twoGuilds.getGuildIdByName (asLowerCaseString name) = twoGuilds.getGuildIdByName name := by
  simp only [twoGuilds, Wildcard.OnlineNames.asLowerCaseString_asLowerCaseString]

/-- The line `ab@r`. -/
def line_ab_r : List UInt8 := ['a', 'b', '@', 'r'].map Char.toUInt8

theorem guildLines_exact_ab_r :
    (parseList twoGuilds line_ab_r).guildRankList =
      (getlines line_ab_r).toFinset.biUnion (granted twoGuilds) ∧
    (GrantsNamed twoGuilds line_ab_r ['a'.toUInt8, 'b'.toUInt8] ['r'.toUInt8] ↔
      ['a'.toUInt8, 'b'.toUInt8] = []) ∧
    granted twoGuilds line_ab_r = ranksOf twoGuilds (.guildRank ['a'.toUInt8] ['r'.toUInt8]) :=
  have h := guildLines_exact twoGuilds_case line_ab_r
  have hline := h.2 line_ab_r ['a'.toUInt8, 'b'.toUInt8] ['r'.toUInt8] (by decide) (by decide)
    (by decide) (by decide) (by decide)
  ⟨h.1, hline.1, hline.2 (by decide) (by decide)⟩

/-- `ab@r` grants the rank `r` of the guild `a`. -/
theorem guildLine_other_guild :
    ¬∀ (d : Directory),
      (∀ name, d.getGuildIdByName (asLowerCaseString name) = d.getGuildIdByName name) →
      ∀ line L R, trimmed line = L ++ at_sign :: R → at_sign ∉ L → at_sign ∉ R → R ≠ [] →
        (trimmed line).length ≤ 100 → GrantsNamed d line L R := by
  intro h
  have hline := h twoGuilds twoGuilds_case line_ab_r ['a'.toUInt8, 'b'.toUInt8] ['r'.toUInt8]
    (by decide) (by decide) (by decide) (by decide) (by decide)
  have hgranted : granted twoGuilds line_ab_r = {10} := by decide
  have hnamed := hgranted.symm.trans hline.granted
  exact absurd hnamed (by decide)

end Infernum.House.Access
