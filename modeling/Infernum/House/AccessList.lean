import Infernum.Lib.Regex
import Infernum.Wildcard.Lookup
import Mathlib.Data.Finset.Basic
import Mathlib.Data.List.DropRight

/-!
# Access lists of houses

The list of sub-owners or guests of a house is a text. Every line of it names a player, a
guild, a rank of a guild or, with `!`, `*` and `?`, an expression for names, which becomes
a regular expression.
-/

namespace Infernum.House.Access

open Lib.Regex (Quantifier Piece matchWhole)
open Wildcard (asLowerCaseString)

scoped instance lawfulBEq_bytes : LawfulBEq (List UInt8) := inferInstance

def bang : UInt8 := '!'.toUInt8
def star : UInt8 := '*'.toUInt8
def quest : UInt8 := '?'.toUInt8
def dot : UInt8 := '.'.toUInt8
def backslash : UInt8 := '\\'.toUInt8
def at_sign : UInt8 := '@'.toUInt8
def space : UInt8 := ' '.toUInt8
def tab : UInt8 := '\t'.toUInt8
def newline : UInt8 := '\n'.toUInt8

/-! ## Strings -/

/-- The lines that repeated calls of `getline` read. -/
def getlines : List UInt8 → List (List UInt8)
  | [] => []
  | c :: rest =>
    if c = newline then [] :: getlines rest
    else
      match getlines rest with
      | [] => [[c]]
      | line :: lines => (c :: line) :: lines

def trim_right (source : List UInt8) (t : UInt8) : List UInt8 := source.rdropWhile (· == t)

def trim_left (source : List UInt8) (t : UInt8) : List UInt8 := source.dropWhile (· == t)

def trimString (str : List UInt8) : List UInt8 := trim_left (trim_right str space) space

/-- The search of `replaceString`, with `skip` characters of the last place that was found
still to pass. -/
def replaceFrom (sought replacement : List UInt8) : Nat → List UInt8 → List UInt8
  | _, [] => []
  | skip + 1, _ :: rest => replaceFrom sought replacement skip rest
  | 0, c :: rest =>
    if sought.isPrefixOf (c :: rest) then
      replacement ++ replaceFrom sought replacement (sought.length - 1) rest
    else c :: replaceFrom sought replacement 0 rest

/-- `replaceString`, from left to right and on behind every replacement. -/
def replaceString (str sought replacement : List UInt8) : List UInt8 :=
  replaceFrom sought replacement 0 str

/-! ## Regular expressions -/

def metachars : List UInt8 :=
  ['.', '[', '\x7b', '\x7d', '(', ')', '\\', '+', '|', '^', '$'].map Char.toUInt8

/-- `.` of a regular expression: no line terminator. -/
def notLineTerminator (c : UInt8) : Bool := c ≠ newline && c ≠ '\r'.toUInt8

/-- The quantifier at the front of what follows an atom. -/
def quantifier : List UInt8 → Quantifier
  | [] => .once
  | c :: _ => if c = star then .star else if c = quest then .optional else .once

/-- The constructor of `std::regex` on what `addExpression` can give it: atoms that are a
character, an escaped character or `.`, each with at most one quantifier. `none` is an
exception, or syntax that is not in that part. A `]` alone stands for itself. -/
def regexFrom (quantifiable : Bool) : List UInt8 → Option (List (Piece UInt8))
  | [] => some []
  | c :: rest =>
    if c = star ∨ c = quest then
      -- the atom before has taken it
      if quantifiable then regexFrom false rest else none
    else if c = backslash then
      match rest with
      | [] => none
      | d :: rest =>
        if d ∈ metachars then (⟨(· == d), quantifier rest⟩ :: ·) <$> regexFrom true rest
        else none
    else if c = dot then (⟨notLineTerminator, quantifier rest⟩ :: ·) <$> regexFrom true rest
    else if c ∈ metachars then none
    else (⟨(· == c), quantifier rest⟩ :: ·) <$> regexFrom true rest

def regex (str : List UInt8) : Option (List (Piece UInt8)) := regexFrom false str

/-! ## The list -/

structure GuildRank where
  id : Nat
  name : List UInt8
deriving DecidableEq, Repr

structure Guild where
  ranks : List GuildRank
deriving DecidableEq, Repr

def Guild.getRankByName (guild : Guild) (name : List UInt8) : Option GuildRank :=
  guild.ranks.find? (·.name = name)

/-- What the game and the database know of players and guilds. A player is given by its
GUID. -/
structure Directory where
  online : Wildcard.OnlineNames
  getGuidByName : List UInt8 → Nat
  getGuildIdByName : List UInt8 → Nat
  getGuild : Nat → Option Guild
  loadGuild : Nat → Option Guild

def Directory.getGuildByName (d : Directory) (name : List UInt8) : Option Guild :=
  let guildId := d.getGuildIdByName name
  if guildId = 0 then none
  else (d.getGuild guildId).or (d.loadGuild guildId)

structure AccessList where
  list : List UInt8
  playerList : Finset Nat
  guildRankList : Finset Nat
  expressionList : List (List UInt8)
  regExList : List (List (Piece UInt8) × Bool)

namespace AccessList

def addPlayer (d : Directory) (a : AccessList) (name : List UInt8) : AccessList :=
  match d.online.getPlayerByName name with
  | some guid => { a with playerList := insert guid a.playerList }
  | none =>
    let guid := d.getGuidByName name
    if guid ≠ 0 then { a with playerList := insert guid a.playerList } else a

def addGuild (d : Directory) (a : AccessList) (name : List UInt8) : AccessList :=
  match d.getGuildByName name with
  | some guild =>
    guild.ranks.foldl (fun a rank => { a with guildRankList := insert rank.id a.guildRankList }) a
  | none => a

def addGuildRank (d : Directory) (a : AccessList) (name rankName : List UInt8) : AccessList :=
  match d.getGuildByName name with
  | some guild =>
    match guild.getRankByName rankName with
    | some rank => { a with guildRankList := insert rank.id a.guildRankList }
    | none => a
  | none => a

/-- The text that is compiled: `outExp`. -/
def rewritten (expression : List UInt8) : List UInt8 :=
  let outExp := expression.flatMap fun c => if c ∈ metachars then [backslash, c] else [c]
  let outExp := replaceString outExp [star] [dot, star]
  replaceString outExp [quest] [dot, quest]

def addExpression (a : AccessList) (expression : List UInt8) : AccessList :=
  if expression ∈ a.expressionList then a
  else
    let outExp := rewritten expression
    match outExp with
    | [] => a
    | c :: tail =>
      let a := { a with expressionList := a.expressionList ++ [outExp] }
      if c = bang then
        match tail with
        | [] => a
        | _ :: _ =>
          match regex tail with
          | some r => { a with regExList := (r, false) :: a.regExList }
          | none => a
      else
        match regex outExp with
        | some r => { a with regExList := a.regExList ++ [(r, true)] }
        | none => a

end AccessList

/-- What a line of the list asks for: the call that `parseList` makes. -/
inductive Entry
  | guild (name : List UInt8)
  | guildRank (name rankName : List UInt8)
  | expression (expression : List UInt8)
  | player (name : List UInt8)
deriving DecidableEq, Repr

def trimmed (line : List UInt8) : List UInt8 :=
  trimString (trim_right (trim_left (trimString line) tab) tab)

/-- One turn of the loop of `parseList`, up to the call. -/
def parseLine (line : List UInt8) : Option Entry :=
  let line := trimmed line
  if line = [] ∨ line.head? = some '#'.toUInt8 ∨ line.length > 100 then none
  else
    let line := asLowerCaseString line
    let at_pos := line.idxOf at_sign
    if at_pos < line.length then
      if at_pos = 0 then some (.guild (line.drop 1))
      else some (.guildRank (line.take (at_pos - 1)) (line.drop (at_pos + 1)))
    else if bang ∈ line ∨ star ∈ line ∨ quest ∈ line then some (.expression line)
    else some (.player line)

namespace AccessList

def addEntry (d : Directory) (a : AccessList) : Entry → AccessList
  | .guild name => a.addGuild d name
  | .guildRank name rankName => a.addGuildRank d name rankName
  | .expression expression => a.addExpression expression
  | .player name => a.addPlayer d name

def entries (list : List UInt8) : List Entry := (getlines list).filterMap parseLine

def parseList (d : Directory) (list : List UInt8) : AccessList :=
  (entries list).foldl (addEntry d) ⟨list, ∅, ∅, [], []⟩

end AccessList

/-- What `isInList` reads of a player. The name is a C string of the database. -/
structure Player where
  name : List UInt8
  noNul : 0 ∉ name
  guid : Nat
  guildRank : Option GuildRank

/-- The first regular expression that matches decides; else whether the player or its rank
is in the list. -/
def AccessList.isInList (a : AccessList) (player : Player) : Bool :=
  let name := asLowerCaseString player.name
  match a.regExList.find? fun it => matchWhole it.1 name with
  | some it => it.2
  | none =>
    if player.guid ∈ a.playerList then true
    else
      match player.guildRank with
      | some rank => rank.id ∈ a.guildRankList
      | none => false

end Infernum.House.Access
