import Infernum.Wildcard.Lookup
import Mathlib.Data.List.Basic
import Mathlib.Algebra.Order.Ring.Nat

/-!
# The spell that an utterance casts

`Spells::getInstantSpell` takes the longest registered words with which an utterance begins,
and looks only then whether they end there or a parameter follows. So a spell whose words
end inside a word of the utterance hides the shorter ones.
-/

namespace Infernum.Spells

open Wildcard (asLowerCaseString)

/-- What is read of an `InstantSpell`. The words are an attribute of the spell's node, and no
byte of such a text is zero. -/
structure InstantSpell where
  words : List UInt8
  hasParam : Bool
  noNul : 0 ∉ words

/-! ## `getInstantSpell` -/

/-- `strncasecmp(a.c_str(), b.c_str(), n) == 0`: a zero byte ends a text. -/
def strncasecmp : List UInt8 → List UInt8 → Nat → Bool
  | _, _, 0 => true
  | a, b, n + 1 =>
      let c := a.headD 0
      if Wildcard.toLower c = Wildcard.toLower (b.headD 0) then c = 0 || strncasecmp a.tail b.tail n
      else false

/-- The loop over `instants`, which is left at words as long as the utterance. -/
def longestLoop (words : List UInt8) : List InstantSpell → Option InstantSpell →
    Option InstantSpell
  | [], result => result
  | it :: instants, result =>
      if strncasecmp it.words words it.words.length then
        if result.all (·.words.length < it.words.length) then
          if words.length = it.words.length then some it
          else longestLoop words instants (some it)
        else longestLoop words instants result
      else longestLoop words instants result

def space : UInt8 := 32

/-- What is done with the result of the loop. -/
def checkParam (words : List UInt8) (result : InstantSpell) : Option InstantSpell :=
  if result.words.length < words.length then
    if !result.hasParam then none
    else
      let spellLen := result.words.length
      let paramLen := words.length - spellLen
      if paramLen < 2 ∨ words[spellLen]? ≠ some space then none else some result
  else some result

/-- `Spells::getInstantSpell`; the spells are in the order of the map. -/
def getInstantSpell (instants : List InstantSpell) (words : List UInt8) : Option InstantSpell :=
  (longestLoop words instants none).bind (checkParam words)

/-! ## Whole words -/

namespace InstantSpell

variable (spell : InstantSpell) (words : List UInt8)

/-- The utterance begins with the words, wherever these end. -/
def Begins : Prop :=
  ∃ text rest, words = text ++ rest ∧ asLowerCaseString text = asLowerCaseString spell.words

/-- The utterance is the words, or the words, a space and a parameter. -/
def Matches : Prop :=
  asLowerCaseString words = asLowerCaseString spell.words ∨
    (spell.hasParam = true ∧ ∃ text param, words = text ++ space :: param ∧ param ≠ [] ∧
      asLowerCaseString text = asLowerCaseString spell.words)

end InstantSpell

/-- A spell is the one with the longest words that match, and there is one unless none
matches. -/
def IsLongestMatch (instants : List InstantSpell) (words : List UInt8)
    (result : Option InstantSpell) : Prop :=
  (∀ spell, result = some spell → spell ∈ instants ∧ spell.Matches words ∧
    ∀ other ∈ instants, other.Matches words → other.words.length ≤ spell.words.length) ∧
  (result = none ↔ ∀ spell ∈ instants, ¬spell.Matches words)

/-- The first of the longest spells with whose words the utterance begins. -/
def LongestBeginning (instants : List InstantSpell) (words : List UInt8)
    (spell : InstantSpell) : Prop :=
  ∃ before after, instants = before ++ spell :: after ∧ spell.Begins words ∧
    (∀ other ∈ before, other.Begins words → other.words.length < spell.words.length) ∧
    ∀ other ∈ after, other.Begins words → other.words.length ≤ spell.words.length

variable {instants : List InstantSpell} {words : List UInt8} {spell : InstantSpell}

theorem toLower_eq_zero {c : UInt8} : Wildcard.toLower c = 0 ↔ c = 0 := by
  unfold Wildcard.toLower
  split
  · next hupper =>
    simp only [UInt8.le_iff_toNat_le, UInt8.reduceToNat] at hupper
    simp only [← UInt8.toNat_inj, UInt8.toNat_add, UInt8.reduceToNat]
    omega
  · rfl

theorem length_eq_of_lower {a b : List UInt8} (h : asLowerCaseString a = asLowerCaseString b) :
    a.length = b.length := by
  have hlength := congrArg List.length h
  simpa [asLowerCaseString] using hlength

/-- With the length of words without zero bytes, `strncasecmp` says whether the utterance
begins with them. -/
theorem strncasecmp_iff {a b : List UInt8} (ha : 0 ∉ a) :
    strncasecmp a b a.length = true ↔
      ∃ text rest, b = text ++ rest ∧ asLowerCaseString text = asLowerCaseString a := by
  induction a generalizing b with
  | nil => exact iff_of_true rfl ⟨[], b, rfl, rfl⟩
  | cons c a ih =>
      obtain ⟨hc, ha⟩ := not_or.mp (mt List.mem_cons.mpr ha)
      have hzero : (c = 0) = False := eq_false (Ne.symm hc)
      rw [List.length_cons, strncasecmp]
      simp only [List.headD_cons, List.tail_cons, hzero, decide_false, Bool.false_or]
      cases b with
      | nil =>
          have hne : ¬Wildcard.toLower c = Wildcard.toLower 0 := fun heq => Ne.symm hc (toLower_eq_zero.mp heq)
          rw [List.headD_nil, if_neg hne]
          refine iff_of_false Bool.false_ne_true ?_
          rintro ⟨text, rest, hnil, hlower⟩
          obtain ⟨rfl, rfl⟩ := List.append_eq_nil_iff.mp hnil.symm
          cases hlower
      | cons d b =>
          rw [List.headD_cons, List.tail_cons]
          by_cases hsame : Wildcard.toLower c = Wildcard.toLower d
          · rw [if_pos hsame, ih ha]
            constructor
            · rintro ⟨text, rest, rfl, hlower⟩
              refine ⟨d :: text, rest, rfl, ?_⟩
              rw [asLowerCaseString, List.map_cons, ← hsame]
              exact congrArg _ hlower
            · rintro ⟨text, rest, hb, hlower⟩
              cases text with
              | nil => cases hlower
              | cons e text =>
                  obtain ⟨rfl, rfl⟩ := List.cons.inj hb
                  exact ⟨text, rest, rfl, (List.cons.inj hlower).2⟩
          · rw [if_neg hsame]
            refine iff_of_false Bool.false_ne_true ?_
            rintro ⟨text, rest, hb, hlower⟩
            cases text with
            | nil => cases hlower
            | cons e text =>
                obtain ⟨rfl, rfl⟩ := List.cons.inj hb
                exact hsame (List.cons.inj hlower).1.symm

theorem InstantSpell.begins_iff :
    strncasecmp spell.words words spell.words.length = true ↔ spell.Begins words :=
  strncasecmp_iff spell.noNul

theorem InstantSpell.Begins.length_le (h : spell.Begins words) :
    spell.words.length ≤ words.length := by
  obtain ⟨text, rest, rfl, hlower⟩ := h
  rw [← length_eq_of_lower hlower, List.length_append]
  exact Nat.le_add_right ..

theorem InstantSpell.Matches.begins (h : spell.Matches words) : spell.Begins words := by
  rcases h with hwhole | ⟨-, text, param, rfl, -, hlower⟩
  · exact ⟨words, [], (List.append_nil words).symm, hwhole⟩
  · exact ⟨text, space :: param, rfl, hlower⟩

/-! ## The loop -/

/-- A spell in front that is shorter, or with which the utterance does not begin. -/
theorem LongestBeginning.cons (h : LongestBeginning instants words spell) {it : InstantSpell}
    (hit : it.Begins words → it.words.length < spell.words.length) :
    LongestBeginning (it :: instants) words spell := by
  obtain ⟨before, after, rfl, hspell, hbefore, hafter⟩ := h
  refine ⟨it :: before, after, rfl, hspell, ?_, hafter⟩
  intro other hmem hother
  rcases List.mem_cons.mp hmem with rfl | hmem
  · exact hit hother
  · exact hbefore other hmem hother

/-- The loop goes on with what it has, or ends with the first of the longest spells that are
longer. -/
theorem longestLoop_cases (words : List UInt8) (instants : List InstantSpell)
    (result : Option InstantSpell) :
    (longestLoop words instants result = result ∧ ∀ other ∈ instants, other.Begins words →
      ∃ r, result = some r ∧ other.words.length ≤ r.words.length) ∨
    ∃ spell, longestLoop words instants result = some spell ∧
      LongestBeginning instants words spell ∧
      ∀ r, result = some r → r.words.length < spell.words.length := by
  induction instants generalizing result with
  | nil => exact .inl ⟨rfl, by simp⟩
  | cons it instants ih =>
      rw [longestLoop]
      by_cases hbegins : strncasecmp it.words words it.words.length = true
      · rw [if_pos hbegins]
        rw [InstantSpell.begins_iff] at hbegins
        by_cases hlonger : (result.all (·.words.length < it.words.length)) = true
        · rw [if_pos hlonger]
          have hresult : ∀ r, result = some r → r.words.length < it.words.length := by
            rintro r rfl
            simpa using hlonger
          by_cases hwhole : words.length = it.words.length
          · -- nothing longer can come
            rw [if_pos hwhole]
            refine .inr ⟨it, rfl, ⟨[], instants, rfl, hbegins, by simp, ?_⟩, hresult⟩
            intro other _ hother
            exact hwhole ▸ hother.length_le
          · rw [if_neg hwhole]
            right
            rcases ih (some it) with ⟨heq, hall⟩ | ⟨spell, heq, hlongest, hless⟩
            · refine ⟨it, heq, ⟨[], instants, rfl, hbegins, by simp, ?_⟩, hresult⟩
              intro other hmem hother
              obtain ⟨r, hr, hle⟩ := hall other hmem hother
              obtain rfl := Option.some.inj hr
              exact hle
            · have hit := hless it rfl
              exact ⟨spell, heq, hlongest.cons fun _ => hit, fun r hr => (hresult r hr).trans hit⟩
        · rw [if_neg hlonger]
          obtain ⟨r, rfl, hle⟩ : ∃ r, result = some r ∧ it.words.length ≤ r.words.length := by
            cases result with
            | none => simp at hlonger
            | some r => exact ⟨r, rfl, by simpa using hlonger⟩
          rcases ih (some r) with ⟨heq, hall⟩ | ⟨spell, heq, hlongest, hless⟩
          · refine .inl ⟨heq, fun other hmem hother => ?_⟩
            rcases List.mem_cons.mp hmem with rfl | hmem
            · exact ⟨r, rfl, hle⟩
            · exact hall other hmem hother
          · exact .inr ⟨spell, heq, hlongest.cons fun _ => hle.trans_lt (hless r rfl), hless⟩
      · rw [if_neg hbegins]
        rw [InstantSpell.begins_iff] at hbegins
        rcases ih result with ⟨heq, hall⟩ | ⟨spell, heq, hlongest, hless⟩
        · refine .inl ⟨heq, fun other hmem hother => ?_⟩
          rcases List.mem_cons.mp hmem with rfl | hmem
          · exact absurd hother hbegins
          · exact hall other hmem hother
        · exact .inr ⟨spell, heq, hlongest.cons fun hother => absurd hother hbegins, hless⟩

/-- There is one such spell at most. -/
theorem LongestBeginning.unique {spell' : InstantSpell} (h : LongestBeginning instants words spell)
    (h' : LongestBeginning instants words spell') : spell = spell' := by
  have hone : ∀ {a b : InstantSpell}, LongestBeginning instants words a →
      LongestBeginning instants words b → a.words.length < b.words.length → False := by
    rintro a b ⟨before, after, rfl, ha, hbefore, hafter⟩ ⟨before', after', heq, hb, -, -⟩ hlt
    have hmem : b ∈ before ++ a :: after := by
      rw [heq]
      simp
    rcases List.mem_append.mp hmem with hmem | hmem
    · exact absurd (hbefore b hmem hb) (by omega)
    · rcases List.mem_cons.mp hmem with rfl | hmem
      · exact absurd hlt (lt_irrefl _)
      · exact absurd (hafter b hmem hb) (by omega)
  have hlength : spell.words.length = spell'.words.length := by
    rcases Nat.lt_trichotomy spell.words.length spell'.words.length with hlt | heq | hlt
    · exact (hone h h' hlt).elim
    · exact heq
    · exact (hone h' h hlt).elim
  obtain ⟨before, after, rfl, hspell, hbefore, hafter⟩ := h
  obtain ⟨before', after', heq, hspell', hbefore', hafter'⟩ := h'
  -- of two that are equally long the first is meant
  rcases List.append_eq_append_iff.mp heq with ⟨between, hb, hsplit⟩ | ⟨between, hb, hsplit⟩
  · cases between with
    | nil => exact (List.cons.inj hsplit).1
    | cons c between =>
        obtain ⟨rfl, -⟩ := List.cons.inj hsplit
        have hmem : spell ∈ before' := by simp [hb]
        exact absurd (hbefore' spell hmem hspell) (by omega)
  · cases between with
    | nil => exact (List.cons.inj hsplit).1.symm
    | cons c between =>
        obtain ⟨rfl, -⟩ := List.cons.inj hsplit
        have hmem : spell' ∈ before := by simp [hb]
        exact absurd (hbefore spell' hmem hspell') (by omega)

/-! ## The rules for what follows -/

theorem InstantSpell.matches_append {text rest : List UInt8}
    (hlower : asLowerCaseString text = asLowerCaseString spell.words) :
    spell.Matches (text ++ rest) ↔
      rest = [] ∨ (spell.hasParam = true ∧ ∃ param, rest = space :: param ∧ param ≠ []) := by
  have hlength := length_eq_of_lower hlower
  constructor
  · rintro (hwhole | ⟨hparam, text', param, heq, hne, hlower'⟩)
    · left
      have hwhole := length_eq_of_lower hwhole
      rw [List.length_append] at hwhole
      exact List.length_eq_zero_iff.mp (by omega)
    · have hlength' := length_eq_of_lower hlower'
      obtain ⟨-, rfl⟩ := List.append_inj heq (hlength.trans hlength'.symm)
      exact .inr ⟨hparam, param, rfl, hne⟩
  · rintro (rfl | ⟨hparam, param, rfl, hne⟩)
    · left
      rw [List.append_nil, hlower]
    · exact .inr ⟨hparam, text, param, rfl, hne, hlower⟩

/-- The rules for what follows the words are those of a match. -/
theorem checkParam_eq (h : spell.Begins words) :
    (spell.Matches words ∧ checkParam words spell = some spell) ∨
      (¬spell.Matches words ∧ checkParam words spell = none) := by
  obtain ⟨text, rest, rfl, hlower⟩ := h
  have hlength := length_eq_of_lower hlower
  have hnext : (text ++ rest)[spell.words.length]? = rest.head? := by
    rw [← hlength, List.getElem?_append_right (le_refl _), Nat.sub_self, List.head?_eq_getElem?]
  rw [InstantSpell.matches_append hlower, checkParam, List.length_append, hlength]
  dsimp only
  rw [hnext, Nat.add_sub_cancel_left]
  cases rest with
  | nil => exact .inl ⟨.inl rfl, if_neg (by simp)⟩
  | cons c param =>
      rw [if_pos (by simp)]
      cases hparam : spell.hasParam with
      | false => exact .inr ⟨by simp, rfl⟩
      | true =>
          by_cases hspace : c = space
          · cases param with
            | nil => exact .inr ⟨by simp, by simp⟩
            | cons d param => exact .inl ⟨by simp [hspace], by simp [hspace]⟩
          · exact .inr ⟨by simp [hspace], by simp [hspace]⟩

/-- `getInstantSpell` finds the longest spell that matches, just if the longest spell whose
words begin the utterance matches, or none does. -/
theorem getInstantSpell_iff (instants : List InstantSpell) (words : List UInt8) :
    IsLongestMatch instants words (getInstantSpell instants words) ↔
      (∃ spell, LongestBeginning instants words spell ∧ spell.Matches words) ∨
        ∀ spell ∈ instants, ¬spell.Matches words := by
  rw [getInstantSpell]
  rcases longestLoop_cases words instants none with
    ⟨heq, hall⟩ | ⟨spell, heq, hlongest, -⟩
  · have hnone : ∀ spell ∈ instants, ¬spell.Matches words := by
      intro spell hmem hmatches
      obtain ⟨r, hr, -⟩ := hall spell hmem hmatches.begins
      cases hr
    rw [heq]
    refine iff_of_true ⟨by simp, iff_of_true rfl hnone⟩ (.inr hnone)
  · rw [heq, Option.bind_some]
    have hmem : spell ∈ instants := by
      obtain ⟨before, after, rfl, -⟩ := hlongest
      simp
    have hle : ∀ other ∈ instants, other.Matches words →
        other.words.length ≤ spell.words.length := by
      obtain ⟨before, after, rfl, -, hbefore, hafter⟩ := hlongest
      intro other hother hmatches
      rcases List.mem_append.mp hother with hother | hother
      · exact (hbefore other hother hmatches.begins).le
      · rcases List.mem_cons.mp hother with rfl | hother
        · exact le_refl _
        · exact hafter other hother hmatches.begins
    obtain ⟨-, -, -, hbegins, -⟩ := id hlongest
    rcases checkParam_eq hbegins with ⟨hmatches, hcheck⟩ | ⟨hnot, hcheck⟩
    · rw [hcheck]
      refine iff_of_true ⟨fun found hfound => ?_, ?_⟩ (.inl ⟨spell, hlongest, hmatches⟩)
      · obtain rfl := Option.some.inj hfound
        exact ⟨hmem, hmatches, hle⟩
      · exact iff_of_false (by simp) fun hnone => hnone spell hmem hmatches
    · rw [hcheck]
      constructor
      · exact fun h => .inr (h.2.mp rfl)
      · rintro (⟨other, hother, hmatches⟩ | hnone)
        · exact absurd (hlongest.unique hother ▸ hmatches) hnot
        · exact ⟨by simp, iff_of_true rfl hnone⟩

/-! ### A spell that hides another -/

/-- `exura sio`, with a parameter. -/
def healFriend : InstantSpell where
  words := "exura sio".toUTF8.toList
  hasParam := true
  noNul := by decide +kernel

/-- `exura sio mas`, without one. -/
def healFriends : InstantSpell where
  words := "exura sio mas".toUTF8.toList
  hasParam := false
  noNul := by decide +kernel

theorem healFriend_matches : healFriend.Matches "exura sio master".toUTF8.toList :=
  .inr ⟨rfl, "exura sio".toUTF8.toList, "master".toUTF8.toList, by decide +kernel,
    by decide +kernel, rfl⟩

/-- With a parameter that begins with `mas`, the utterance finds nothing. -/
theorem healFriend_hidden : ∃ words,
    getInstantSpell [healFriend, healFriends] words = none ∧ healFriend.Matches words ∧
      ¬IsLongestMatch [healFriend, healFriends] words
        (getInstantSpell [healFriend, healFriends] words) := by
  have hnone : getInstantSpell [healFriend, healFriends] "exura sio master".toUTF8.toList = none := by
    decide +kernel
  refine ⟨_, hnone, healFriend_matches, fun h => ?_⟩
  exact h.2.mp hnone healFriend (by simp) healFriend_matches

end Infernum.Spells
