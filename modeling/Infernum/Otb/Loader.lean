import Infernum.Lib.Rose

/-!
# The node file loader

`OTB::Loader`: a file of nested nodes is held in memory and read once from
front to back. The tree holds no properties, only where they lie in the file,
and `getProps` takes them out later. Positions in the file stand for the
iterators of the source.
-/

namespace Infernum.Otb

open Lib

def ESCAPE : UInt8 := 0xFD
def START : UInt8 := 0xFE
def END : UInt8 := 0xFF

/-- How a call ends badly: the exception of the source, or an access outside
of the file, which the source would make unnoticed. `endless` is the loop of
the model without steps left. -/
inductive Fault
  | invalidOTBFormat
  | pastEnd
  | endless
  deriving DecidableEq, Repr

abbrev Identifier := Vector UInt8 4

def wildcard : Identifier := #v[0, 0, 0, 0]

/-- `sizeof(Identifier)`. -/
def identifierSize : Nat := 4

/-- An identifier, a start mark, a type and an end mark. -/
def minimalSize : Nat := identifierSize + 1 + 1 + 1

/-- A loader whose constructor has let the file pass. -/
structure Loader where
  fileContents : List UInt8
  long : minimalSize < fileContents.length

/-- The constructor. -/
def Loader.ofFile (fileContents : List UInt8) (acceptedIdentifier : Identifier) :
    Except Fault Loader :=
  if long : minimalSize < fileContents.length then
    let fileIdentifier := fileContents.take identifierSize
    if fileIdentifier ≠ acceptedIdentifier.toList ∧ fileIdentifier ≠ wildcard.toList then
      .error .invalidOTBFormat
    else
      .ok { fileContents := fileContents, long := long }
  else
    .error .invalidOTBFormat

/-- What a node says of itself. `propsEnd` is not set before the first child
or the end mark is seen. -/
structure Node where
  type : UInt8
  propsBegin : Nat
  propsEnd : Option Nat
  deriving DecidableEq, Repr

/-- A node with its children. -/
abbrev Tree := Rose Node

/-- A node on `parseStack` and those of its children that have left it. -/
structure Open where
  node : Node
  children : List Tree

/-- A node just put on the stack. -/
def Open.fresh (type : UInt8) (propsBegin : Nat) : Open :=
  { node := { type := type, propsBegin := propsBegin, propsEnd := none }, children := [] }

/-- `if (currentNode.children.empty()) currentNode.propsEnd = it`. -/
def Open.endProps (currentNode : Open) (it : Nat) : Open :=
  if currentNode.children.isEmpty then
    { currentNode with node := { currentNode.node with propsEnd := some it } }
  else
    currentNode

def Open.tree (currentNode : Open) : Tree :=
  .node currentNode.node currentNode.children

/-- The loop of `parseTree`: the stack, its top first, and the root once it
has left the stack. A node on the stack is the latest child of the one under
it. -/
structure Parse where
  it : Nat
  parseStack : List Open
  root : Option Tree

/-- `parseStack.pop()`, with `it` behind the end mark. -/
def Parse.pop (it : Nat) (tree : Tree) : List Open → Parse
  | [] => { it := it, parseStack := [], root := some tree }
  | parent :: below =>
      { it := it
        parseStack := { parent with children := parent.children ++ [tree] } :: below
        root := none }

/-- `*it`. -/
def deref (contents : List UInt8) (it : Nat) : Except Fault UInt8 :=
  match contents[it]? with
  | some byte => .ok byte
  | none => .error .pastEnd

/-- The loop's body at a start mark: the type is read, and a node begins
behind it. -/
def parseStart (contents : List UInt8) (s : Parse) : Except Fault Parse :=
  match s.parseStack with
  | [] => .error .invalidOTBFormat
  | currentNode :: below =>
      if s.it + 1 = contents.length then
        .error .invalidOTBFormat
      else do
        let type ← deref contents (s.it + 1)
        return { s with
          it := s.it + 1 + 1
          parseStack := Open.fresh type (s.it + 1 + 1) :: currentNode.endProps s.it :: below }

/-- The loop's body at an end mark. -/
def parseEnd (s : Parse) : Except Fault Parse :=
  match s.parseStack with
  | [] => .error .invalidOTBFormat
  | currentNode :: below =>
      .ok (Parse.pop (s.it + 1) (currentNode.endProps s.it).tree below)

/-- The loop's body at an escape mark: the byte behind it is stepped over. -/
def parseEscape (contents : List UInt8) (s : Parse) : Except Fault Parse :=
  if s.it + 1 = contents.length then
    .error .invalidOTBFormat
  else
    .ok { s with it := s.it + 1 + 1 }

/-- One turn of the loop, its `++it` included. -/
def parseByte (contents : List UInt8) (s : Parse) : Except Fault Parse := do
  let byte ← deref contents s.it
  if byte = START then
    parseStart contents s
  else if byte = END then
    parseEnd s
  else if byte = ESCAPE then
    parseEscape contents s
  else
    return { s with it := s.it + 1 }

/-- The loop, for a number of turns. -/
def parseLoop (contents : List UInt8) : Nat → Parse → Except Fault Parse
  | 0, _ => .error .endless
  | turns + 1, s =>
      if s.it = contents.length then
        .ok s
      else
        parseByte contents s >>= parseLoop contents turns

/-- The root is complete when the stack is empty. -/
def Parse.result (s : Parse) : Except Fault Tree :=
  match s.parseStack, s.root with
  | [], some root => .ok root
  | _, _ => .error .invalidOTBFormat

def Loader.parseTree (loader : Loader) : Except Fault Tree := do
  let contents := loader.fileContents
  let byte ← deref contents identifierSize
  if byte ≠ START then
    .error .invalidOTBFormat
  else
    let type ← deref contents (identifierSize + 1)
    let propsBegin := identifierSize + 1 + 1
    let s ← parseLoop contents contents.length
      { it := propsBegin, parseStack := [Open.fresh type propsBegin], root := none }
    s.result

/-- The bytes from `first` up to `last`. -/
def bytesBetween (contents : List UInt8) (first last : Nat) : Except Fault (List UInt8) :=
  if first ≤ last ∧ last ≤ contents.length then
    .ok ((contents.drop first).take (last - first))
  else
    .error .pastEnd

/-- The `copy_if` of `getProps`: an escape mark is left out unless it is
escaped itself. -/
def copyUnescaped : Bool → List UInt8 → List UInt8
  | _, [] => []
  | lastEscaped, byte :: rest =>
      if byte == ESCAPE && !lastEscaped then
        copyUnescaped true rest
      else
        byte :: copyUnescaped false rest

/-- The properties of a node; nothing if there are none. -/
def Loader.getProps (loader : Loader) (node : Node) : Except Fault (Option (List UInt8)) :=
  match node.propsEnd with
  | none => .error .pastEnd
  | some propsEnd =>
      if node.propsBegin = propsEnd then
        .ok none
      else do
        let bytes ← bytesBetween loader.fileContents node.propsBegin propsEnd
        return some (copyUnescaped false bytes)

end Infernum.Otb
