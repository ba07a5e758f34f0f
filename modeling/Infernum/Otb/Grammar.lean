import Infernum.Lib.Nested
import Infernum.Otb.Loader

/-!
# Node files

What a file of nodes is: a tree whose nodes are written as start mark, type,
properties, children and end mark, where an escape mark takes the byte behind
it for a plain one. `render` writes such a tree and `place` says where in the
file its nodes come to lie. Bytes may also stand behind an end mark; they
belong to no node.
-/

namespace Infernum.Otb

open Lib Lib.Nested

/-- A byte of the properties as it stands in the file. -/
inductive Raw
  | plain (byte : UInt8) (below : byte < ESCAPE)
  | escaped (byte : UInt8)

namespace Raw

def bytes : Raw → List UInt8
  | plain byte _ => [byte]
  | escaped byte => [ESCAPE, byte]

/-- The byte that is meant. -/
def value : Raw → UInt8
  | plain byte _ => byte
  | escaped byte => byte

/-- Only marks are escaped. -/
def ofByte (byte : UInt8) : Raw :=
  if below : byte < ESCAPE then .plain byte below else .escaped byte

@[simp] theorem value_ofByte (byte : UInt8) : (ofByte byte).value = byte := by
  unfold ofByte
  split
  · rfl
  · rfl

end Raw

/-- The properties as they stand in the file. -/
def propBytes (props : List Raw) : List UInt8 :=
  props.flatMap Raw.bytes

@[simp] theorem propBytes_nil : propBytes [] = [] := rfl

theorem propBytes_eq_nil {props : List Raw} : propBytes props = [] ↔ props = [] := by
  cases props with
  | nil => exact iff_of_true rfl rfl
  | cons p ps => cases p <;> simp [propBytes, Raw.bytes]

/-- A file of nodes, what stands behind the end marks included. -/
abbrev NodeFile := Doc UInt8 Raw

mutual

/-- The bytes of a node and of what stands behind it. -/
def render : NodeFile → List UInt8
  | .node l ts =>
      START :: l.label :: (propBytes l.body ++ (renderList ts ++ END :: propBytes l.gap))

/-- `render` of a list of nodes. -/
def renderList : List NodeFile → List UInt8
  | [] => []
  | t :: ts => render t ++ renderList ts

end

mutual

/-- The tree of a node that begins at position `o`. -/
def place (o : Nat) : NodeFile → Tree
  | .node l ts =>
      .node
        { type := l.label
          propsBegin := o + 2
          propsEnd := some (o + 2 + (propBytes l.body).length) }
        (placeList (o + 2 + (propBytes l.body).length) ts)

/-- `place` of a list of nodes, one behind the other. -/
def placeList (o : Nat) : List NodeFile → List Tree
  | [] => []
  | t :: ts => place o t :: placeList (o + (render t).length) ts

end

theorem placeList_append (o : Nat) (ts us : List NodeFile) :
    placeList o (ts ++ us) = placeList o ts ++ placeList (o + (renderList ts).length) us := by
  induction ts generalizing o with
  | nil => rfl
  | cons t ts ih =>
      rw [List.cons_append, placeList, placeList, ih, renderList, List.length_append,
        List.cons_append, Nat.add_assoc]

/-- What stands behind a node does not move it. -/
theorem place_addGap (o : Nat) (r : Raw) (d : NodeFile) : place o (addGap r d) = place o d := by
  cases d with
  | node l ts => rfl

/-- The bytes of one letter of the word of a file. -/
def tokenBytes : Token UInt8 Raw → List UInt8
  | .start type => [START, type]
  | .stop => [END]
  | .text r => r.bytes

theorem flatMap_text (rs : List Raw) :
    (rs.map Token.text).flatMap tokenBytes = propBytes rs := by
  induction rs with
  | nil => rfl
  | cons r rs ih => rw [List.map_cons, List.flatMap_cons, ih]; rfl

private theorem renderList_of_forall {ts : List NodeFile}
    (h : ∀ t ∈ ts, render t = (tokens t).flatMap tokenBytes) :
    renderList ts = (tokensList ts).flatMap tokenBytes := by
  induction ts with
  | nil => rfl
  | cons t ts ih =>
      rw [renderList, tokensList, List.flatMap_append, h t List.mem_cons_self,
        ih fun u hu => h u (List.mem_cons_of_mem _ hu)]

/-- The bytes of a file are those of its word. -/
theorem render_eq (d : NodeFile) : render d = (tokens d).flatMap tokenBytes := by
  induction d using Rose.induct with
  | step l ts ih =>
      rw [render, tokens, renderList_of_forall ih, List.flatMap_cons, List.flatMap_append,
        List.flatMap_append, List.flatMap_cons, flatMap_text, flatMap_text]
      rfl

theorem renderList_eq (ts : List NodeFile) :
    renderList ts = (tokensList ts).flatMap tokenBytes :=
  renderList_of_forall fun t _ => render_eq t

/-- Every byte string is a word of letters, except that it may be cut off
behind a start mark or an escape mark. -/
theorem exists_letters (bytes : List UInt8) :
    ∃ ws : List (Token UInt8 Raw), ∃ cut ∈ [[], [START], [ESCAPE]],
      bytes = ws.flatMap tokenBytes ++ cut := by
  induction hlen : bytes.length using Nat.strongRecOn generalizing bytes with
  | ind n ih =>
      match bytes, hlen with
      | [], _ => exact ⟨[], [], by simp, rfl⟩
      | b :: rest, hlen =>
          rw [List.length_cons] at hlen
          by_cases hmark : b = START ∨ b = ESCAPE
          · -- The mark and the byte behind it are one letter.
            match rest, hlen with
            | [], _ => exact ⟨[], [b], by rcases hmark with rfl | rfl <;> simp, rfl⟩
            | c :: rest, hlen =>
                rw [List.length_cons] at hlen
                obtain ⟨ws, cut, hcut, heq⟩ := ih rest.length (by omega) rest rfl
                rcases hmark with rfl | rfl
                · exact ⟨.start c :: ws, cut, hcut, by rw [heq]; rfl⟩
                · exact ⟨.text (.escaped c) :: ws, cut, hcut, by rw [heq]; rfl⟩
          · obtain ⟨ws, cut, hcut, heq⟩ := ih rest.length (by omega) rest rfl
            by_cases hend : b = END
            · exact ⟨.stop :: ws, cut, hcut, by rw [heq, hend]; rfl⟩
            · have hbelow : b < ESCAPE := by
                unfold START ESCAPE END at *
                grind
              exact ⟨.text (.plain b hbelow) :: ws, cut, hcut, by rw [heq]; rfl⟩

end Infernum.Otb

/-!
## The loader reads nested words

The loop of `parseTree` follows the reader of nested words: after every letter
its stack is that of the reader, with the positions at which the levels lie in
the file. So the loop ends well exactly on the bytes of a tree.
-/

namespace Infernum.Otb

open Lib Lib.Nested

section

variable {loader : Loader} {contents : List UInt8}

theorem deref_of_drop {it : Nat} {byte : UInt8} {rest : List UInt8}
    (h : contents.drop it = byte :: rest) : deref contents it = .ok byte := by
  have hget : contents[it]? = some byte := by
    rw [← List.head?_drop, h, List.head?_cons]
  rw [deref, hget]

theorem drop_succ_of_drop {it : Nat} {byte : UInt8} {rest : List UInt8}
    (h : contents.drop it = byte :: rest) : contents.drop (it + 1) = rest := by
  rw [← List.drop_drop, h, List.drop_one, List.tail_cons]

theorem lt_length_of_drop {it : Nat} {byte : UInt8} {rest : List UInt8}
    (h : contents.drop it = byte :: rest) : it < contents.length := by
  rcases Nat.lt_or_ge it contents.length with hlt | hge
  · exact hlt
  · rw [List.drop_eq_nil_of_le hge] at h
    cases h

/-- The number of bytes of a word. -/
def wordLength (ws : List (Token UInt8 Raw)) : Nat :=
  (ws.flatMap tokenBytes).length

@[simp] theorem wordLength_append (ws vs : List (Token UInt8 Raw)) :
    wordLength (ws ++ vs) = wordLength ws + wordLength vs := by
  rw [wordLength, List.flatMap_append, List.length_append]
  rfl

theorem wordLength_singleton (w : Token UInt8 Raw) : wordLength [w] = (tokenBytes w).length := by
  rw [wordLength, List.flatMap_singleton]

theorem wordLength_frame (f : Frame UInt8 Raw) :
    wordLength f.word = 2 + (propBytes f.body).length + (renderList f.kids.reverse).length := by
  rw [wordLength, Frame.word, List.flatMap_cons, List.flatMap_append, flatMap_text,
    ← renderList_eq, List.length_append, List.length_append]
  exact (Nat.add_assoc _ _ _).symm

/-- The stack's entry of a level that begins at `o` and has a child open. -/
def heldAt (o : Nat) (f : Frame UInt8 Raw) : Open :=
  { node :=
      { type := f.label
        propsBegin := o + 2
        propsEnd := some (o + 2 + (propBytes f.body).length) }
    children := placeList (o + 2 + (propBytes f.body).length) f.kids.reverse }

/-- The stack's entry of the innermost level: its properties have no end
before its first child. -/
def topAt (o : Nat) (f : Frame UInt8 Raw) : Open :=
  match f.kids with
  | [] => Open.fresh f.label (o + 2)
  | _ :: _ => heldAt o f

/-- The entries of the levels around the innermost one. -/
def heldStack : List (Frame UInt8 Raw) → List Open
  | [] => []
  | f :: below => heldAt (identifierSize + wordLength (wordOf below)) f :: heldStack below

/-- The state of the loop that corresponds to the reader's. -/
def stateOf : Reader UInt8 Raw → Parse
  | .inside top below =>
      { it := identifierSize + wordLength (wordOf (top :: below))
        parseStack :=
          topAt (identifierSize + wordLength (wordOf below)) top :: heldStack below
        root := none }
  | .outside d =>
      { it := identifierSize + wordLength (tokens d)
        parseStack := []
        root := some (place identifierSize d) }

theorem stateOf_it (r : Reader UInt8 Raw) :
    (stateOf r).it = identifierSize + wordLength r.word := by
  cases r with
  | inside top below => rfl
  | outside d => rfl

/-- The first child or the end mark sets the end of the properties. -/
theorem endProps_topAt (o : Nat) (f : Frame UInt8 Raw) :
    (topAt o f).endProps (o + wordLength f.word) = heldAt o f := by
  obtain ⟨a, body, kids⟩ := f
  cases kids with
  | nil =>
      rw [wordLength_frame, topAt, heldAt, Open.endProps]
      simp only [Open.fresh, List.isEmpty_nil, if_true, List.reverse_nil, renderList, placeList,
        List.length_nil, Nat.add_zero, Nat.add_assoc]
  | cons k ks =>
      have hne : (heldAt o { label := a, body := body, kids := k :: ks }).children.isEmpty
          = false := by
        rw [heldAt, List.reverse_cons, placeList_append, placeList]
        simp
      rw [topAt, Open.endProps, hne]
      rfl

theorem topAt_addText (o : Nat) (r : Raw) (f : Frame UInt8 Raw) :
    topAt o (f.addText r) = topAt o f := by
  obtain ⟨a, body, kids⟩ := f
  cases kids with
  | nil => rfl
  | cons k ks =>
      simp only [Frame.addText, topAt, heldAt, List.reverse_cons, placeList_append, placeList,
        place_addGap]

theorem tree_heldAt (o : Nat) (f : Frame UInt8 Raw) : (heldAt o f).tree = place o f.close := by
  rw [Frame.close, place]
  rfl

/-- The top leaves the stack as a child of the level under it. -/
theorem pop_heldAt (d : NodeFile) (below : List (Frame UInt8 Raw)) :
    Parse.pop (identifierSize + wordLength (wordOf below ++ tokens d))
        (place (identifierSize + wordLength (wordOf below)) d) (heldStack below) =
      stateOf (leave d below) := by
  cases below with
  | nil => rw [wordOf, List.nil_append]; rfl
  | cons f below =>
      have hword : wordOf (f :: below) ++ tokens d = wordOf (f.push d :: below) := by
        rw [wordOf, wordOf, Frame.word_push, List.append_assoc]
      have hpos : identifierSize + wordLength (wordOf (f :: below)) =
          identifierSize + wordLength (wordOf below) + 2 + (propBytes f.body).length +
            (renderList f.kids.reverse).length := by
        rw [wordOf, wordLength_append, wordLength_frame]
        omega
      -- The child lies behind the level's own children.
      rw [heldStack, Parse.pop, hword, leave, stateOf, hpos, topAt, Frame.push, heldAt, heldAt]
      simp only [List.reverse_cons, placeList_append, placeList]

theorem stateOf_inside_it (top : Frame UInt8 Raw) (below : List (Frame UInt8 Raw)) :
    (stateOf (.inside top below)).it =
      identifierSize + wordLength (wordOf below) + wordLength top.word := by
  rw [stateOf_it, Reader.word, wordOf, wordLength_append, Nat.add_assoc]

/-- At the position of the loop the innermost level becomes one with a fixed
end of its properties. -/
theorem endProps_top (top : Frame UInt8 Raw) (below : List (Frame UInt8 Raw)) :
    (topAt (identifierSize + wordLength (wordOf below)) top).endProps
        (stateOf (.inside top below)).it =
      heldAt (identifierSize + wordLength (wordOf below)) top := by
  rw [stateOf_inside_it]
  exact endProps_topAt _ top

/-- The reader's answer, as the loop gives it. -/
def answer : Option (Reader UInt8 Raw) → Except Fault Parse
  | some r => .ok (stateOf r)
  | none => .error .invalidOTBFormat

theorem parseStart_letter {r : Reader UInt8 Raw} {type : UInt8} {rest : List UInt8}
    (hnext : contents.drop ((stateOf r).it + 1) = type :: rest) :
    parseStart contents (stateOf r) = answer (absorb r (.start type)) := by
  cases r with
  | outside d => rfl
  | inside top below =>
      have hlt := lt_length_of_drop hnext
      have hheld := endProps_top top below
      have hword : identifierSize + wordLength (wordOf (.fresh type :: top :: below)) =
          (stateOf (.inside top below)).it + 1 + 1 := by
        rw [stateOf_it, wordOf, wordLength_append]
        rfl
      have hstate : stateOf (.inside (.fresh type) (top :: below)) =
          { it := (stateOf (.inside top below)).it + 1 + 1
            parseStack :=
              Open.fresh type ((stateOf (.inside top below)).it + 1 + 1) ::
                (topAt (identifierSize + wordLength (wordOf below)) top).endProps
                  (stateOf (.inside top below)).it ::
                heldStack below
            root := none } := by
        rw [hheld, stateOf, hword]
        rfl
      rw [absorb, answer, hstate, parseStart]
      show (if _ then _ else _) = _
      rw [if_neg (by omega), deref_of_drop hnext]
      rfl

theorem parseEnd_letter (r : Reader UInt8 Raw) :
    parseEnd (stateOf r) = answer (absorb r .stop) := by
  cases r with
  | outside d => rfl
  | inside top below =>
      have hit : (stateOf (.inside top below)).it + 1 =
          identifierSize + wordLength (wordOf below ++ tokens top.close) := by
        rw [Frame.tokens_close, stateOf_it, Reader.word, wordOf, wordLength_append,
          wordLength_append, wordLength_append]
        rfl
      rw [absorb, answer, ← pop_heldAt, ← hit, ← tree_heldAt, ← endProps_top]
      rfl

/-- Text moves the loop on, and nothing else. -/
theorem stateOf_text (r : Reader UInt8 Raw) (raw : Raw) :
    answer (absorb r (.text raw)) =
      .ok { stateOf r with it := (stateOf r).it + raw.bytes.length } := by
  have hraw : wordLength [Token.text raw] = raw.bytes.length := wordLength_singleton _
  cases r with
  | inside top below =>
      rw [absorb, answer, stateOf, topAt_addText, wordOf, Frame.word_addText, ← List.append_assoc,
        wordLength_append, hraw, ← Nat.add_assoc]
      rfl
  | outside d =>
      rw [absorb, answer, stateOf, place_addGap, tokens_addGap, wordLength_append, hraw,
        ← Nat.add_assoc]
      rfl

/-- What the loop does on one letter is what the reader does. -/
theorem parseByte_letter {r : Reader UInt8 Raw} {w : Token UInt8 Raw} {rest : List UInt8}
    (h : contents.drop (stateOf r).it = tokenBytes w ++ rest) :
    parseByte contents (stateOf r) = answer (absorb r w) := by
  cases w with
  | start type =>
      rw [parseByte, deref_of_drop h]
      exact parseStart_letter (drop_succ_of_drop h)
  | stop =>
      rw [parseByte, deref_of_drop h]
      exact parseEnd_letter r
  | text raw =>
      rw [stateOf_text]
      cases raw with
      | plain byte below =>
          have hmarks : byte ≠ START ∧ byte ≠ END ∧ byte ≠ ESCAPE := by
            unfold START END ESCAPE at *
            grind
          rw [parseByte, deref_of_drop h]
          show (if _ then _ else _) = _
          rw [if_neg hmarks.1, if_neg hmarks.2.1, if_neg hmarks.2.2]
          rfl
      | escaped byte =>
          have hlt := lt_length_of_drop (drop_succ_of_drop h)
          rw [parseByte, deref_of_drop h]
          show parseEscape contents (stateOf r) = _
          rw [parseEscape, if_neg (by omega)]
          rfl

theorem stateOf_absorb_it {r r' : Reader UInt8 Raw} {w : Token UInt8 Raw}
    (h : absorb r w = some r') : (stateOf r').it = (stateOf r).it + (tokenBytes w).length := by
  rw [stateOf_it, stateOf_it, absorb_word h, wordLength_append, wordLength_singleton,
    Nat.add_assoc]

/-- A file cut off behind a mark is not read further. -/
theorem parseByte_cut {r : Reader UInt8 Raw} {mark : UInt8} (hmark : mark = START ∨ mark = ESCAPE)
    (h : contents.drop (stateOf r).it = [mark]) :
    parseByte contents (stateOf r) = .error .invalidOTBFormat := by
  have hlast : (stateOf r).it + 1 = contents.length := by
    have hlt := lt_length_of_drop h
    have hlen := congrArg List.length h
    rw [List.length_drop, List.length_singleton] at hlen
    omega
  rw [parseByte, deref_of_drop h]
  rcases hmark with rfl | rfl
  · show parseStart contents (stateOf r) = _
    rw [parseStart]
    split
    · rfl
    · rw [if_pos hlast]
  · show parseEscape contents (stateOf r) = _
    rw [parseEscape, if_pos hlast]

theorem tokenBytes_ne_nil (w : Token UInt8 Raw) : tokenBytes w ≠ [] := by
  cases w with
  | start type => exact List.cons_ne_nil _ _
  | stop => exact List.cons_ne_nil _ _
  | text raw => cases raw <;> exact List.cons_ne_nil _ _

theorem not_at_end_of_drop {it : Nat} {w : Token UInt8 Raw} {rest : List UInt8}
    (h : contents.drop it = tokenBytes w ++ rest) : it ≠ contents.length := by
  intro hend
  rw [hend, List.drop_length] at h
  exact tokenBytes_ne_nil w (List.append_eq_nil_iff.mp h.symm).1

/-- The whole loop on a word: what the reader does. A word that is cut off
behind a mark is refused. -/
theorem parseLoop_word (ws : List (Token UInt8 Raw)) {cut : List UInt8}
    (hcut : cut ∈ [[], [START], [ESCAPE]]) (turns : Nat) (r : Reader UInt8 Raw)
    (h : contents.drop (stateOf r).it = ws.flatMap tokenBytes ++ cut)
    (hit : (stateOf r).it ≤ contents.length) (hturns : ws.length + cut.length < turns) :
    parseLoop contents turns (stateOf r) =
      if cut = [] then answer (read r ws) else .error .invalidOTBFormat := by
  induction ws generalizing turns r with
  | nil =>
      obtain ⟨turns, rfl⟩ : ∃ k, turns = k + 1 := ⟨turns - 1, by omega⟩
      rw [List.flatMap_nil, List.nil_append] at h
      by_cases hnil : cut = []
      · have hend : (stateOf r).it = contents.length := by
          have hlen := congrArg List.length h
          rw [hnil, List.length_drop, List.length_nil] at hlen
          omega
        rw [if_pos hnil, parseLoop, if_pos hend]
        rfl
      · have hmark : ∃ mark, (mark = START ∨ mark = ESCAPE) ∧ cut = [mark] := by
          simp only [List.mem_cons, List.not_mem_nil, or_false] at hcut
          rcases hcut with hc | hc | hc
          · exact absurd hc hnil
          · exact ⟨START, .inl rfl, hc⟩
          · exact ⟨ESCAPE, .inr rfl, hc⟩
        obtain ⟨mark, hmark, rfl⟩ := hmark
        have hlt := lt_length_of_drop h
        rw [if_neg hnil, parseLoop, if_neg (by omega), parseByte_cut hmark h]
        rfl
  | cons w ws ih =>
      obtain ⟨turns, rfl⟩ : ∃ k, turns = k + 1 := ⟨turns - 1, by omega⟩
      rw [List.flatMap_cons, List.append_assoc] at h
      rw [parseLoop, if_neg (not_at_end_of_drop h), parseByte_letter h, read_cons]
      cases hr : absorb r w with
      | none =>
          rw [Option.bind_none]
          split <;> rfl
      | some r' =>
          have hmoved := stateOf_absorb_it hr
          have hdrop : contents.drop (stateOf r').it = ws.flatMap tokenBytes ++ cut := by
            rw [hmoved, ← List.drop_drop, h, List.drop_left]
          have hle : (stateOf r').it ≤ contents.length := by
            have hlen := congrArg List.length h
            rw [List.length_drop, List.length_append] at hlen
            omega
          rw [List.length_cons] at hturns
          exact ih turns r' hdrop hle (by omega)

end

end Infernum.Otb
