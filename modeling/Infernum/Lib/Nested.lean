import Infernum.Lib.Rose

/-!
# Nested words

A word of start marks, stop marks and text, the documents such a word can
spell, and a reader with an explicit stack of open levels. The reader ends
outside of all levels exactly on the words of documents, and it ends with the
document of the word.
-/

namespace Infernum.Lib.Nested

variable {α β : Type*}

/-- A letter of a nested word. -/
inductive Token (α β : Type*)
  | start (label : α)
  | stop
  | text (b : β)

/-- What one level of a document holds besides its children: the label of its
start mark, the text before the first child, and the text behind its stop
mark up to the next mark. -/
structure Segment (α β : Type*) where
  label : α
  body : List β
  gap : List β

abbrev Doc (α β : Type*) := Rose (Segment α β)

mutual

/-- The word of a document. -/
def tokens : Doc α β → List (Token α β)
  | .node l ts =>
      .start l.label :: (l.body.map .text ++ (tokensList ts ++ .stop :: l.gap.map .text))

/-- `tokens` of a list of documents. -/
def tokensList : List (Doc α β) → List (Token α β)
  | [] => []
  | t :: ts => tokens t ++ tokensList ts

end

@[simp] theorem tokensList_append (ts us : List (Doc α β)) :
    tokensList (ts ++ us) = tokensList ts ++ tokensList us := by
  induction ts with
  | nil => rfl
  | cons t ts ih => rw [List.cons_append, tokensList, tokensList, ih, List.append_assoc]

/-- A document has no text behind its stop marks. -/
def WellNested (d : Doc α β) : Prop :=
  ∀ l ∈ d.flatten, l.gap = []

/-- The document with one more piece of text behind it. -/
def addGap (b : β) : Doc α β → Doc α β
  | .node l ts => .node { l with gap := l.gap ++ [b] } ts

theorem tokens_addGap (b : β) (d : Doc α β) : tokens (addGap b d) = tokens d ++ [.text b] := by
  cases d with
  | node l ts => simp [addGap, tokens]

/-- An open level: its label, its text so far and its closed children, the
latest one first. -/
structure Frame (α β : Type*) where
  label : α
  body : List β
  kids : List (Doc α β)

namespace Frame

/-- A level just opened. -/
def fresh (a : α) : Frame α β := { label := a, body := [], kids := [] }

/-- A piece of text goes behind the latest child, or to the level itself if
there is none. -/
def addText (b : β) (f : Frame α β) : Frame α β :=
  match f.kids with
  | [] => { f with body := f.body ++ [b] }
  | k :: ks => { f with kids := addGap b k :: ks }

/-- One more closed child. -/
def push (d : Doc α β) (f : Frame α β) : Frame α β := { f with kids := d :: f.kids }

/-- The level once its stop mark is read. -/
def close (f : Frame α β) : Doc α β :=
  .node { label := f.label, body := f.body, gap := [] } f.kids.reverse

/-- The part of the word that the level has taken. -/
def word (f : Frame α β) : List (Token α β) :=
  .start f.label :: (f.body.map .text ++ tokensList f.kids.reverse)

theorem word_addText (b : β) (f : Frame α β) : (f.addText b).word = f.word ++ [.text b] := by
  obtain ⟨a, body, kids⟩ := f
  cases kids with
  | nil => simp [addText, word, tokensList]
  | cons k ks => simp [addText, word, tokensList, tokens_addGap]

theorem word_push (d : Doc α β) (f : Frame α β) : (f.push d).word = f.word ++ tokens d := by
  simp [push, word, tokensList]

theorem tokens_close (f : Frame α β) : tokens f.close = f.word ++ [.stop] := by
  simp [close, word, tokens]

end Frame

/-- Where the reader stands: inside of a level, with the levels around it, or
behind the stop mark of the document. -/
inductive Reader (α β : Type*)
  | inside (top : Frame α β) (below : List (Frame α β))
  | outside (doc : Doc α β)

/-- A level is left: its document becomes a child of the level around it. -/
def leave (d : Doc α β) : List (Frame α β) → Reader α β
  | [] => .outside d
  | f :: below => .inside (f.push d) below

/-- One letter is read. Behind the document there is only text. -/
def absorb : Reader α β → Token α β → Option (Reader α β)
  | .inside top below, .start a => some (.inside (.fresh a) (top :: below))
  | .inside top below, .stop => some (leave top.close below)
  | .inside top below, .text b => some (.inside (top.addText b) below)
  | .outside d, .text b => some (.outside (addGap b d))
  | .outside _, .start _ => none
  | .outside _, .stop => none

/-- All letters are read. -/
def read (r : Reader α β) (ws : List (Token α β)) : Option (Reader α β) :=
  ws.foldlM absorb r

theorem read_cons (r : Reader α β) (w : Token α β) (ws : List (Token α β)) :
    read r (w :: ws) = (absorb r w).bind fun r' => read r' ws := rfl

theorem read_append (r : Reader α β) (ws vs : List (Token α β)) :
    read r (ws ++ vs) = (read r ws).bind fun r' => read r' vs := by
  induction ws generalizing r with
  | nil => rfl
  | cons w ws ih =>
      rw [List.cons_append, read_cons, read_cons]
      cases absorb r w with
      | none => rfl
      | some r' => exact ih r'

/-- The words of a list of open levels, the innermost level last. -/
def wordOf : List (Frame α β) → List (Token α β)
  | [] => []
  | f :: below => wordOf below ++ f.word

/-- What the reader has read. -/
def Reader.word : Reader α β → List (Token α β)
  | .inside top below => wordOf (top :: below)
  | .outside d => tokens d

theorem leave_word (d : Doc α β) (below : List (Frame α β)) :
    (leave d below).word = wordOf below ++ tokens d := by
  cases below with
  | nil => rfl
  | cons f below => simp [leave, Reader.word, wordOf, Frame.word_push]

theorem absorb_word {r r' : Reader α β} {w : Token α β} (h : absorb r w = some r') :
    r'.word = r.word ++ [w] := by
  cases r with
  | inside top below =>
      cases w with
      | start a =>
          cases h
          simp [Reader.word, wordOf, Frame.word, Frame.fresh, tokensList]
      | stop =>
          cases h
          rw [leave_word, Frame.tokens_close, Reader.word, wordOf, List.append_assoc]
      | text b =>
          cases h
          rw [Reader.word, Reader.word, wordOf, wordOf, Frame.word_addText, List.append_assoc]
  | outside d =>
      cases w with
      | start a => cases h
      | stop => cases h
      | text b =>
          cases h
          exact tokens_addGap b d

/-- The reader's levels always spell what it has read. -/
theorem read_word {r r' : Reader α β} {ws : List (Token α β)} (h : read r ws = some r') :
    r'.word = r.word ++ ws := by
  induction ws generalizing r with
  | nil =>
      cases h
      rw [List.append_nil]
  | cons w ws ih =>
      rw [read_cons] at h
      obtain ⟨mid, hmid, hrest⟩ := Option.bind_eq_some_iff.mp h
      rw [ih hrest, absorb_word hmid, List.append_assoc, List.singleton_append]

/-- A run of text, where one letter of it only makes a text longer that the
reader holds. -/
private theorem read_texts {h : List β → Reader α β}
    (hone : ∀ pre b, absorb (h pre) (.text b) = some (h (pre ++ [b])))
    (pre bs : List β) : read (h pre) (bs.map .text) = some (h (pre ++ bs)) := by
  induction bs generalizing pre with
  | nil =>
      rw [List.append_nil]
      rfl
  | cons b bs ih =>
      rw [List.map_cons, read_cons, hone, Option.bind_some, ih, List.append_assoc,
        List.singleton_append]

/-- Text read inside of a level without children goes to its body. -/
theorem read_body (a : α) (pre bs : List β) (below : List (Frame α β)) :
    read (.inside { label := a, body := pre, kids := [] } below) (bs.map .text) =
      some (.inside { label := a, body := pre ++ bs, kids := [] } below) :=
  read_texts (h := fun body => .inside { label := a, body := body, kids := [] } below)
    (fun _ _ => rfl) pre bs

/-- Text read right behind a child goes behind that child. -/
theorem read_gap (a : α) (body pre bs : List β) (ts : List (Doc α β))
    (below : List (Frame α β)) :
    read (leave (.node { label := a, body := body, gap := pre } ts) below) (bs.map .text) =
      some (leave (.node { label := a, body := body, gap := pre ++ bs } ts) below) := by
  refine read_texts
    (h := fun gap => leave (.node { label := a, body := body, gap := gap } ts) below) ?_ pre bs
  intro gap b
  cases below with
  | nil => rfl
  | cons f below => rfl

/-- From its start mark on, a level with the given children read so far. -/
private theorem read_kids (ts : List (Doc α β))
    (hts : ∀ t ∈ ts, ∀ (f : Frame α β) (below : List (Frame α β)),
      read (.inside f below) (tokens t) = some (.inside (f.push t) below))
    (f : Frame α β) (below : List (Frame α β)) :
    read (.inside f below) (tokensList ts) =
      some (.inside { f with kids := ts.reverse ++ f.kids } below) := by
  induction ts generalizing f with
  | nil => rfl
  | cons t ts ih =>
      rw [tokensList, read_append, hts t List.mem_cons_self, Option.bind_some,
        ih (fun u hu => hts u (List.mem_cons_of_mem _ hu))]
      simp [Frame.push]

/-- Behind the start mark of a document the reader leaves with the document. -/
private theorem read_rest (l : Segment α β) (ts : List (Doc α β))
    (hts : ∀ t ∈ ts, ∀ (f : Frame α β) (below : List (Frame α β)),
      read (.inside f below) (tokens t) = some (.inside (f.push t) below))
    (below : List (Frame α β)) :
    read (.inside (.fresh l.label) below)
        (l.body.map .text ++ (tokensList ts ++ .stop :: l.gap.map .text)) =
      some (leave (.node l ts) below) := by
  rw [read_append, Frame.fresh, read_body, Option.bind_some, read_append, read_kids ts hts,
    Option.bind_some, read_cons, absorb, Option.bind_some, Frame.close]
  rw [List.reverse_append, List.reverse_reverse, List.reverse_nil, List.nil_append, read_gap]
  simp

/-- A document read inside of a level becomes its latest child. -/
theorem read_tokens (d : Doc α β) (f : Frame α β) (below : List (Frame α β)) :
    read (.inside f below) (tokens d) = some (.inside (f.push d) below) := by
  induction d using Rose.induct generalizing f below with
  | step l ts ih =>
      rw [tokens, read_cons, absorb, Option.bind_some]
      exact read_rest l ts (fun t ht f below => ih t ht f below) (f :: below)

/-- Behind a start mark the reader comes to the end of a document exactly if
the word from that mark on is the document's. -/
theorem read_outside_iff (a : α) (ws : List (Token α β)) (d : Doc α β) :
    read (.inside (.fresh a) []) ws = some (.outside d) ↔ tokens d = .start a :: ws := by
  constructor
  · intro h
    exact read_word h
  · intro h
    cases d with
    | node l ts =>
        rw [tokens, List.cons.injEq, Token.start.injEq] at h
        obtain ⟨hlabel, hrest⟩ := h
        rw [← hrest, ← hlabel]
        exact read_rest l ts (fun t _ f below => read_tokens t f below) []

end Infernum.Lib.Nested
