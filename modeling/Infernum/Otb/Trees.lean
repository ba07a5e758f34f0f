import Infernum.Otb.Grammar

/-!
# Which files are loaded

`parseTree` succeeds exactly on the bytes of a tree, with that tree's nodes
and property ranges; `getProps` gives the properties without their escapes; no
read leaves the file; and a tree that is written with its marks escaped comes
back as it was. What is accepted beyond well-nested trees are bytes behind an
end mark.
-/

namespace Infernum.Otb

open Lib Lib.Nested

section

variable {loader : Loader}

theorem length_le_wordLength (ws : List (Token UInt8 Raw)) : ws.length ≤ wordLength ws := by
  induction ws with
  | nil => exact Nat.zero_le _
  | cons w ws ih =>
      have hpos : 0 < (tokenBytes w).length := List.length_pos_iff.mpr (tokenBytes_ne_nil w)
      rw [← List.singleton_append, wordLength_append, wordLength_singleton, List.length_append,
        List.length_singleton]
      omega

/-- The tree of a reader that has left the root. -/
def treeOf : Option (Reader UInt8 Raw) → Except Fault Tree
  | some (.outside d) => .ok (place identifierSize d)
  | _ => .error .invalidOTBFormat

theorem result_answer (r : Option (Reader UInt8 Raw)) :
    (answer r >>= Parse.result) = treeOf r := by
  cases r with
  | none => rfl
  | some r =>
      cases r with
      | inside top below => rfl
      | outside d => rfl

/-- The constructor has left room for a start mark and a type. -/
theorem exists_drop (loader : Loader) :
    ∃ mark type rest, loader.fileContents.drop identifierSize = mark :: type :: rest := by
  have hlong := loader.long
  have hlen : 4 ≤ (loader.fileContents.drop identifierSize).length := by
    rw [List.length_drop]
    unfold minimalSize identifierSize at *
    omega
  match loader.fileContents.drop identifierSize, hlen with
  | mark :: type :: rest, _ => exact ⟨mark, type, rest, rfl⟩

/-- Behind a start mark the loader does what the reader does on the letters. -/
theorem parseTree_word {type : UInt8} {rest : List UInt8} {ws : List (Token UInt8 Raw)}
    {cut : List UInt8} (hcut : cut ∈ [[], [START], [ESCAPE]])
    (hdrop : loader.fileContents.drop identifierSize = START :: type :: rest)
    (hrest : rest = ws.flatMap tokenBytes ++ cut) :
    loader.parseTree =
      if cut = [] then treeOf (read (.inside (.fresh type) []) ws)
      else .error .invalidOTBFormat := by
  have hnext := drop_succ_of_drop hdrop
  have hbody := drop_succ_of_drop hnext
  have hstart : identifierSize + 1 + 1 = (stateOf (.inside (.fresh type) [])).it := rfl
  have hlt := lt_length_of_drop hnext
  have hlen := congrArg List.length hbody
  rw [List.length_drop, hrest, List.length_append] at hlen
  have hwords := length_le_wordLength ws
  rw [wordLength] at hwords
  rw [hstart, hrest] at hbody
  have hloop := parseLoop_word ws hcut loader.fileContents.length _ hbody (by omega) (by omega)
  rw [Loader.parseTree, deref_of_drop hdrop]
  show (do
    let type ← deref loader.fileContents (identifierSize + 1)
    let s ← parseLoop loader.fileContents loader.fileContents.length
      { it := identifierSize + 1 + 1
        parseStack := [Open.fresh type (identifierSize + 1 + 1)], root := none }
    s.result) = _
  rw [deref_of_drop hnext]
  show (parseLoop loader.fileContents loader.fileContents.length
    (stateOf (.inside (.fresh type) [])) >>= Parse.result) = _
  rw [hloop]
  split
  · exact result_answer _
  · rfl

theorem parseTree_of_not_start {mark : UInt8} {rest : List UInt8} (hmark : mark ≠ START)
    (hdrop : loader.fileContents.drop identifierSize = mark :: rest) :
    loader.parseTree = .error .invalidOTBFormat := by
  rw [Loader.parseTree, deref_of_drop hdrop]
  show (if _ then _ else _) = _
  rw [if_pos hmark]

/-- The bytes of a tree are loaded as that tree. -/
theorem parseTree_of_render {d : NodeFile}
    (hdrop : loader.fileContents.drop identifierSize = render d) :
    loader.parseTree = .ok (place identifierSize d) := by
  cases d with
  | node l ts =>
      have hword : tokens (.node l ts) = .start l.label :: (tokens (.node l ts)).tail := by
        rw [tokens, List.tail_cons]
      have hread := (read_outside_iff l.label (tokens (.node l ts)).tail (.node l ts)).mpr hword
      rw [render_eq, hword, List.flatMap_cons] at hdrop
      rw [parseTree_word (List.mem_cons_self) hdrop (List.append_nil _).symm, if_pos rfl, hread]
      rfl

/-- Whatever else the file holds, the loader throws, or it has found a tree. -/
theorem parseTree_cases (loader : Loader) :
    (∃ d, loader.fileContents.drop identifierSize = render d ∧
      loader.parseTree = .ok (place identifierSize d)) ∨
    loader.parseTree = .error .invalidOTBFormat := by
  obtain ⟨mark, type, rest, hdrop⟩ := exists_drop loader
  by_cases hmark : mark = START
  · subst hmark
    obtain ⟨ws, cut, hcut, hrest⟩ := exists_letters rest
    have hparse := parseTree_word hcut hdrop hrest
    by_cases hnil : cut = []
    · rw [if_pos hnil] at hparse
      cases hr : read (.inside (.fresh type) []) ws with
      | none =>
          rw [hr] at hparse
          exact .inr hparse
      | some r =>
          rw [hr] at hparse
          cases r with
          | inside top below => exact .inr hparse
          | outside d =>
              refine .inl ⟨d, ?_, hparse⟩
              rw [hdrop, hrest, hnil, render_eq, (read_outside_iff type ws d).mp hr,
                List.append_nil]
              rfl
    · rw [if_neg hnil] at hparse
      exact .inr hparse
  · exact .inr (parseTree_of_not_start hmark hdrop)

/-- The loader succeeds exactly on the bytes of trees. -/
theorem parseTree_ok_iff (loader : Loader) (tree : Tree) :
    loader.parseTree = .ok tree ↔
      ∃ d, loader.fileContents.drop identifierSize = render d ∧
        tree = place identifierSize d := by
  constructor
  · intro h
    rcases parseTree_cases loader with ⟨d, hdrop, hok⟩ | herr
    · rw [h] at hok
      exact ⟨d, hdrop, Except.ok.inj hok⟩
    · rw [h] at herr
      cases herr
  · rintro ⟨d, hdrop, rfl⟩
    exact parseTree_of_render hdrop

theorem parseTree_fault {fault : Fault} (h : loader.parseTree = .error fault) :
    fault = .invalidOTBFormat := by
  rcases parseTree_cases loader with ⟨d, -, hok⟩ | herr
  · rw [h] at hok
    cases hok
  · rw [h] at herr
    exact Except.error.inj herr

/-- What `getProps` gives for the properties of a node. -/
def propsOf (body : List Raw) : Option (List UInt8) :=
  match body with
  | [] => none
  | _ :: _ => some (body.map Raw.value)

/-- Leaving out the escape marks gives the bytes that are meant. -/
theorem copyUnescaped_propBytes (body : List Raw) :
    copyUnescaped false (propBytes body) = body.map Raw.value := by
  induction body with
  | nil => rfl
  | cons r body ih =>
      rw [propBytes, List.flatMap_cons, List.map_cons, ← ih]
      cases r with
      | plain byte below =>
          have hne : (byte == ESCAPE) = false := by
            unfold ESCAPE at *
            grind
          rw [Raw.bytes, List.singleton_append, copyUnescaped, hne]
          rfl
      | escaped byte =>
          rw [Raw.bytes, List.cons_append, List.singleton_append, copyUnescaped, copyUnescaped]
          simp [Raw.value, propBytes]

/-- The range of a node's properties holds them. -/
theorem getProps_range {o : Nat} {type : UInt8} {body : List Raw} {rest : List UInt8}
    (hdrop : loader.fileContents.drop o = propBytes body ++ rest)
    (ho : o ≤ loader.fileContents.length) :
    loader.getProps
        { type := type, propsBegin := o, propsEnd := some (o + (propBytes body).length) } =
      .ok (propsOf body) := by
  have hlen := congrArg List.length hdrop
  rw [List.length_drop, List.length_append] at hlen
  cases body with
  | nil => rw [Loader.getProps]; exact if_pos rfl
  | cons r body =>
      have hpos : 0 < (propBytes (r :: body)).length :=
        List.length_pos_iff.mpr fun hnil => List.cons_ne_nil _ _ (propBytes_eq_nil.mp hnil)
      rw [Loader.getProps]
      show (if o = o + (propBytes (r :: body)).length then _ else
        bytesBetween loader.fileContents o (o + (propBytes (r :: body)).length) >>= _) = _
      rw [if_neg (by omega), bytesBetween, if_pos (by omega), hdrop,
        show o + (propBytes (r :: body)).length - o = (propBytes (r :: body)).length by omega,
        List.take_left]
      show Except.ok (some (copyUnescaped false _)) = _
      rw [copyUnescaped_propBytes]
      rfl

/-- Every node of a placed tree gives its own properties. -/
theorem getProps_place (d : NodeFile) {o : Nat} {rest : List UInt8}
    (hdrop : loader.fileContents.drop o = render d ++ rest) :
    (place o d).map (fun node => (node.type, loader.getProps node)) =
      d.map fun l => (l.label, .ok (propsOf l.body)) := by
  induction d using Rose.induct generalizing o rest with
  | step l ts ih =>
      have hlist : ∀ (us : List NodeFile) (o : Nat) (rest : List UInt8), (∀ u ∈ us, u ∈ ts) →
          loader.fileContents.drop o = renderList us ++ rest →
          (placeList o us).map (Rose.map fun node => (node.type, loader.getProps node)) =
            us.map (Rose.map fun l => (l.label, .ok (propsOf l.body))) := by
        intro us
        induction us with
        | nil => intro o rest _ _; rfl
        | cons u us ihus =>
            intro o rest hmem hdrop
            rw [renderList, List.append_assoc] at hdrop
            have hnext : loader.fileContents.drop (o + (render u).length) =
                renderList us ++ rest := by
              rw [← List.drop_drop, hdrop, List.drop_left]
            rw [placeList, List.map_cons, List.map_cons, ih u (hmem u List.mem_cons_self) hdrop,
              ihus _ _ (fun v hv => hmem v (List.mem_cons_of_mem _ hv)) hnext]
      rw [render] at hdrop
      simp only [List.cons_append, List.append_assoc] at hdrop
      have htype := drop_succ_of_drop hdrop
      have hprops := drop_succ_of_drop htype
      have hlt := lt_length_of_drop htype
      have hkids : loader.fileContents.drop (o + 2 + (propBytes l.body).length) =
          renderList ts ++ (END :: (propBytes l.gap ++ rest)) := by
        rw [← List.drop_drop, hprops, List.drop_left]
      rw [place, Rose.map_node, Rose.map_node, getProps_range hprops (by omega),
        hlist ts _ _ (fun _ hu => hu) hkids]

/-- What a tree says: the type and the property bytes of every node. -/
abbrev Content := Rose (UInt8 × List UInt8)

/-- A tree written to a file: its marks escaped, nothing behind end marks. -/
def encode (content : Content) : List UInt8 :=
  render (content.map fun c => { label := c.1, body := c.2.map Raw.ofByte, gap := [] })

/-- What a caller gets for a node of the tree: `false` if it has no properties. -/
def readBack (bytes : List UInt8) : Option (List UInt8) :=
  if bytes = [] then none else some bytes

theorem propsOf_ofByte (bytes : List UInt8) :
    propsOf (bytes.map Raw.ofByte) = readBack bytes := by
  cases bytes with
  | nil => rfl
  | cons b bytes => simp [propsOf, readBack, List.map_map, Function.comp_def]

/-- A tree that is written and loaded comes back, each node with its type and
its properties. -/
theorem getProps_encode {content : Content}
    (hdrop : loader.fileContents.drop identifierSize = encode content) :
    ∃ tree, loader.parseTree = .ok tree ∧
      tree.map (fun node => (node.type, loader.getProps node)) =
        content.map fun c => (c.1, .ok (readBack c.2)) := by
  have hrest : loader.fileContents.drop identifierSize = encode content ++ [] := by
    rw [List.append_nil, hdrop]
  refine ⟨_, parseTree_of_render hdrop, ?_⟩
  rw [getProps_place _ hrest, Rose.map_map]
  simp only [propsOf_ofByte]

/-- The constructor passes every file of its identifier that is long enough. -/
theorem ofFile_of_long {acceptedIdentifier : Identifier} {bytes : List UInt8}
    (long : minimalSize < (acceptedIdentifier.toList ++ bytes).length) :
    Loader.ofFile (acceptedIdentifier.toList ++ bytes) acceptedIdentifier =
      .ok { fileContents := acceptedIdentifier.toList ++ bytes, long := long } := by
  have hid : (acceptedIdentifier.toList ++ bytes).take identifierSize =
      acceptedIdentifier.toList := by
    rw [identifierSize, List.take_left' (Vector.length_toList)]
  rw [Loader.ofFile, dif_pos long]
  exact if_neg fun h => h.1 hid

end

/-- The loader accepts exactly the trees, where bytes may stand behind an end
mark, with the tree's nodes and ranges; it throws on every other file, without
a read outside of it; `getProps` gives every node of the tree its unescaped
properties, or nothing if it has none; and a tree written to a file comes back
from there. -/
theorem node_files_loaded :
    (∀ (loader : Loader) (tree : Tree), loader.parseTree = .ok tree ↔
      ∃ file : NodeFile, loader.fileContents.drop identifierSize = render file ∧
        tree = place identifierSize file) ∧
    (∀ (loader : Loader) (fault : Fault), loader.parseTree = .error fault →
      fault = .invalidOTBFormat) ∧
    (∀ (loader : Loader) (file : NodeFile),
      loader.fileContents.drop identifierSize = render file →
        (place identifierSize file).map (fun node => (node.type, loader.getProps node)) =
          file.map fun l => (l.label, .ok (propsOf l.body))) ∧
    ∀ (acceptedIdentifier : Identifier) (content : Content),
      minimalSize < (acceptedIdentifier.toList ++ encode content).length →
        ∃ loader, Loader.ofFile (acceptedIdentifier.toList ++ encode content)
            acceptedIdentifier = .ok loader ∧
          ∃ tree, loader.parseTree = .ok tree ∧
            tree.map (fun node => (node.type, loader.getProps node)) =
              content.map fun c => (c.1, .ok (readBack c.2)) := by
  refine ⟨parseTree_ok_iff, fun loader fault h => parseTree_fault h, ?_, ?_⟩
  · intro loader file hdrop
    have hrest : loader.fileContents.drop identifierSize = render file ++ [] := by
      rw [List.append_nil, hdrop]
    exact getProps_place file hrest
  · intro acceptedIdentifier content long
    refine ⟨_, ofFile_of_long long, getProps_encode ?_⟩
    exact List.drop_left' Vector.length_toList

/-- A root with a mark among its properties and an empty child. -/
def markedContent : Content :=
  .node (1, [END, 7]) [.node (2, []) []]

theorem marked_content_comes_back :
    ∃ loader, Loader.ofFile (wildcard.toList ++ encode markedContent) wildcard = .ok loader ∧
      ∃ tree, loader.parseTree = .ok tree ∧
        tree.map (fun node => (node.type, loader.getProps node)) =
          .node (1, .ok (some [END, 7])) [.node (2, .ok none) []] :=
  node_files_loaded.2.2.2 wildcard markedContent (by decide)

/-- A well-nested file ends with an end mark. -/
theorem getLast?_render {file : NodeFile} (h : WellNested file) :
    (render file).getLast? = some END := by
  cases file with
  | node l ts =>
      have hgap : l.gap = [] := h l (Rose.label_mem_flatten _)
      have hsplit : render (.node l ts) =
          (START :: l.label :: (propBytes l.body ++ renderList ts)) ++ [END] := by
        rw [render, hgap]
        simp
      rw [hsplit, List.getLast?_concat]

/-- A root without properties and a byte behind its end mark. -/
def trailingByte : Loader :=
  { fileContents := [0, 0, 0, 0, START, 0, END, 5], long := by decide }

/-- The file with a byte behind the root is accepted, although it is no
well-nested tree. -/
theorem trailing_byte_accepted :
    ¬ ∀ loader : Loader, (∃ tree, loader.parseTree = .ok tree) ↔
      ∃ file : NodeFile, WellNested file ∧
        loader.fileContents.drop identifierSize = render file := by
  intro h
  have hfile : trailingByte.fileContents.drop identifierSize =
      render (.node { label := 0, body := [], gap := [.plain 5 (by decide)] } []) := rfl
  obtain ⟨file, hnested, hdrop⟩ := (h trailingByte).mp ⟨_, parseTree_of_render hfile⟩
  have hlast := getLast?_render hnested
  rw [← hdrop] at hlast
  revert hlast
  decide

end Infernum.Otb
