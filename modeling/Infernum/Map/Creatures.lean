import Infernum.Map.Registered
import Infernum.Lib.TransitionSystem
import Infernum.Tile.Tile

/-!
# Creatures on tiles

`placeCreature`, `moveCreature` and `removeCreature` with the creature lists of
the tiles. A creature on the map is in three places at once: the list of its
tile, the lists of the tile's leaf, and its own pointer to the tile.
-/

namespace Infernum

open Lib

def TILESTATE_FLOORCHANGE_DOWN : BitVec 32 := 1 <<< 0
def TILESTATE_FLOORCHANGE_NORTH : BitVec 32 := 1 <<< 1
def TILESTATE_FLOORCHANGE_SOUTH : BitVec 32 := 1 <<< 2
def TILESTATE_FLOORCHANGE_EAST : BitVec 32 := 1 <<< 3
def TILESTATE_FLOORCHANGE_WEST : BitVec 32 := 1 <<< 4
def TILESTATE_FLOORCHANGE_SOUTH_ALT : BitVec 32 := 1 <<< 5
def TILESTATE_FLOORCHANGE_EAST_ALT : BitVec 32 := 1 <<< 6
def TILESTATE_PROTECTIONZONE : BitVec 32 := 1 <<< 7

/-- The answers of `Tile::queryAdd` that `placeCreature` tells apart. -/
inductive AddAnswer
  | noError | playerIsNotInvited | refused
  deriving DecidableEq, Repr

/-- The flags with which `placeCreature` asks. -/
inductive AddFlags
  | ignoreBlockItem | none
  deriving DecidableEq, Repr

/-- What the map is asked while a creature is placed. -/
structure Answers (C : Type) where
  /-- the flags of the tile at a place -/
  flags : Position → BitVec 32
  queryAdd : Position → C → AddFlags → AddAnswer
  isSightClear : Position → Position → Bool
  /-- the entry of the house that the tile belongs to and the temple of the
  player, for a player who is not invited to the house -/
  notInvited : Position → C → Option (Position × Position)

/-- `Tile::nullptr_tile`, which is not on the map. -/
def nullptrTile : Position := ⟨0xFFFF, 0xFFFF, 0xFF⟩

/-- The map with the creature lists of the tiles. -/
structure Populated (C : Type) where
  map : Map C := {}
  /-- `TileCreatures` -/
  creatures : Position → List C := fun _ => []

namespace Populated

variable {C : Type} [DecidableEq C] (isPlayer : C → Bool) (s : Populated C)

/-! ## Where a creature comes to -/

/-- `Map::getTile`: the place, if it has a tile. -/
def getTile (pos : Position) : Option Position := if s.map.hasTile pos then some pos else none

/-- A shift of a coordinate under a flag of a tile. -/
def shiftIf (flags flag : BitVec 32) (delta : BitVec 16) : BitVec 16 :=
  if hasBitSet flag flags then delta else 0

/-- `Tile::queryDestination`. -/
def tileDestination (a : Answers C) (pos : Position) : Position :=
  let flags := a.flags pos
  let destTile :=
    if hasBitSet TILESTATE_FLOORCHANGE_DOWN flags then
      let dz := pos.z + 1
      let southDown : Position := ⟨pos.x, pos.y - 1, dz⟩
      let eastDown : Position := ⟨pos.x - 1, pos.y, dz⟩
      let down : Position := ⟨pos.x, pos.y, dz⟩
      if s.map.hasTile southDown ∧
          hasBitSet TILESTATE_FLOORCHANGE_SOUTH_ALT (a.flags southDown) then
        s.getTile ⟨pos.x, pos.y - 2, dz⟩
      else if s.map.hasTile eastDown ∧
          hasBitSet TILESTATE_FLOORCHANGE_EAST_ALT (a.flags eastDown) then
        s.getTile ⟨pos.x - 2, pos.y, dz⟩
      else if s.map.hasTile down then
        let f := a.flags down
        let dy := pos.y + shiftIf f TILESTATE_FLOORCHANGE_NORTH 1 -
          shiftIf f TILESTATE_FLOORCHANGE_SOUTH 1 - shiftIf f TILESTATE_FLOORCHANGE_SOUTH_ALT 2
        let dx := pos.x - shiftIf f TILESTATE_FLOORCHANGE_EAST 1 -
          shiftIf f TILESTATE_FLOORCHANGE_EAST_ALT 2 + shiftIf f TILESTATE_FLOORCHANGE_WEST 1
        s.getTile ⟨dx, dy, dz⟩
      else none
    else if hasBitSet TILESTATE_FLOORCHANGE flags then
      let dy := pos.y - shiftIf flags TILESTATE_FLOORCHANGE_NORTH 1 +
        shiftIf flags TILESTATE_FLOORCHANGE_SOUTH 1 +
        shiftIf flags TILESTATE_FLOORCHANGE_SOUTH_ALT 2
      let dx := pos.x + shiftIf flags TILESTATE_FLOORCHANGE_EAST 1 -
        shiftIf flags TILESTATE_FLOORCHANGE_WEST 1 +
        shiftIf flags TILESTATE_FLOORCHANGE_EAST_ALT 2
      s.getTile ⟨dx, dy, pos.z - 1⟩
    else none
  destTile.getD pos

/-- `queryDestination`: a house sends those who are not invited to its entry, or
to their temple. -/
def queryDestination (a : Answers C) (pos : Position) (c : C) : Position :=
  match a.notInvited pos c with
  | some (entryPos, templePos) =>
      match s.getTile entryPos with
      | some destTile => destTile
      | none => (s.getTile templePos).getD nullptrTile
  | none => s.tileDestination a pos

/-- The places around the centre that are tried, before they are shuffled. -/
def extendedRelList : List (Int × Int) :=
  [(0, -2), (-1, -1), (0, -1), (1, -1), (-2, 0), (-1, 0), (1, 0), (2, 0), (-1, 1), (0, 1), (1, 1),
    (0, 2)]

def normalRelList : List (Int × Int) :=
  [(-1, -1), (0, -1), (1, -1), (-1, 0), (1, 0), (-1, 1), (0, 1), (1, 1)]

/-- An order that the shuffles of `placeCreature` can give. -/
def Shuffled (extendedPos : Bool) (relList : List (Int × Int)) : Prop :=
  if extendedPos then
    (relList.take 4).Perm (extendedRelList.take 4) ∧
      (relList.drop 4).Perm (extendedRelList.drop 4)
  else relList.Perm normalRelList

def tryPos (centerPos : Position) (rel : Int × Int) : Position :=
  ⟨centerPos.x + .ofInt 16 rel.1, centerPos.y + .ofInt 16 rel.2, centerPos.z⟩

/-- The tile that `placeCreature` chooses. -/
def chooseTile (a : Answers C) (centerPos : Position) (c : C) (extendedPos forceLogin : Bool)
    (relList : List (Int × Int)) : Option Position :=
  let hasTile := s.map.hasTile centerPos
  let placeInPZ := hasTile && hasBitSet TILESTATE_PROTECTIONZONE (a.flags centerPos)
  let ret := a.queryAdd centerPos c .ignoreBlockItem
  if hasTile && (forceLogin || ret == .noError || ret == .playerIsNotInvited) then some centerPos
  else
    (relList.find? fun rel =>
      let pos := tryPos centerPos rel
      s.map.hasTile pos &&
        !(placeInPZ && !hasBitSet TILESTATE_PROTECTIONZONE (a.flags pos)) &&
        a.queryAdd pos c .none == .noError &&
        (!extendedPos || a.isSightClear centerPos pos)).map (tryPos centerPos)

/-! ## Operations -/

/-- `Map::setTile`: the creatures of a tile that is there already stay. -/
def setTile (pos : Position) : Populated C := { s with map := s.map.setTile pos }

/-- `Tile::internalAddThing` and the registration in the leaf of the tile. There
is no result where the leaf is a null pointer. -/
def addTo (dest : Position) (c : C) : Option (Populated C) :=
  match s.map.getQTNode dest with
  | none => none
  | some _ => some
      { map := s.map.placeCreature isPlayer dest c
        creatures := Function.update s.creatures dest (c :: s.creatures dest) }

/-- `Game::internalPlaceCreature`, with `Map::placeCreature`. -/
def placeCreature (a : Answers C) (centerPos : Position) (c : C) (extendedPos forceLogin : Bool)
    (relList : List (Int × Int)) : Option (Populated C) :=
  if s.map.parent c ≠ none then some s
  else
    match s.chooseTile a centerPos c extendedPos forceLogin relList with
    | none => some s
    | some tile => s.addTo isPlayer (s.queryDestination a tile c) c

/-- `Map::moveCreature`, for a creature on the map. -/
def moveCreature (newPos : Position) (c : C) : Option (Populated C) :=
  match s.map.parent c with
  | none => none
  | some oldPos =>
      match s.map.getQTNode newPos with
      | none => none
      | some _ =>
          let creatures := Function.update s.creatures oldPos ((s.creatures oldPos).erase c)
          some
            { map := s.map.moveCreature isPlayer oldPos newPos c
              creatures := Function.update creatures newPos (c :: creatures newPos) }

/-- `Game::removeCreature`, with `Tile::removeCreature`. -/
def removeCreature (c : C) : Populated C :=
  match s.map.parent c with
  | none => s
  | some pos =>
      { map := s.map.removeCreature isPlayer pos c
        creatures := Function.update s.creatures pos ((s.creatures pos).erase c) }

/-- What changes the map. -/
inductive Op (C : Type) where
  | setTile (pos : Position)
  | placeCreature (a : Answers C) (centerPos : Position) (c : C) (extendedPos forceLogin : Bool)
      (relList : List (Int × Int))
  | moveCreature (newPos : Position) (c : C)
  | removeCreature (c : C)

def run : Op C → Option (Populated C)
  | .setTile pos => some (s.setTile pos)
  | .placeCreature a centerPos c extendedPos forceLogin relList =>
      s.placeCreature isPlayer a centerPos c extendedPos forceLogin relList
  | .moveCreature newPos c => s.moveCreature isPlayer newPos c
  | .removeCreature c => some (s.removeCreature isPlayer c)

/-- Any order of operations on a map that has no tiles at first. -/
def system : TSys (Populated C) (Op C) where
  init s := s = {}
  step s op s' := s.run isPlayer op = some s'

/-! ## The assertions -/

/-- The assertions of `QTreeLeafNode::removeCreature`. -/
def CanRemove (leaf : QTreeLeafNode C) (c : C) : Prop :=
  c ∈ leaf.creature_list ∧ (isPlayer c = true → c ∈ leaf.player_list)

/-- The assertions that an operation comes to. -/
def Asserts : Op C → Prop
  | .moveCreature newPos c => ∀ oldPos leaf, s.map.parent c = some oldPos →
      s.map.getQTNode oldPos = some leaf → s.map.getQTNode newPos ≠ some leaf →
      CanRemove isPlayer (s.map.leaves leaf) c
  | .removeCreature c => ∀ pos leaf, s.map.parent c = some pos →
      s.map.getQTNode pos = some leaf → CanRemove isPlayer (s.map.leaves leaf) c
  | _ => True

/-! ## The three places agree -/

/-- The leaves and the tiles have the creatures where their pointers say. -/
structure Consistent : Prop where
  registered : s.map.Registered isPlayer
  tile : ∀ c pos, c ∈ s.creatures pos ↔ s.map.parent c = some pos
  nodup : ∀ pos, (s.creatures pos).Nodup

variable {isPlayer} {s}

omit [DecidableEq C] in
theorem Consistent.empty : ({} : Populated C).Consistent isPlayer := by
  refine ⟨.empty, ?_, fun _ => .nil⟩
  intro c pos
  constructor
  · intro hc
    cases hc
  · intro hc
    cases hc

omit [DecidableEq C] in
theorem Consistent.setTile (h : s.Consistent isPlayer) (pos : Position) :
    (s.setTile pos).Consistent isPlayer := by
  have hparent : (s.map.setTile pos).parent = s.map.parent := by
    rw [Map.setTile]
    split
    · rfl
    · dsimp only
      split <;> rfl
  refine ⟨h.registered.setTile pos, ?_, h.nodup⟩
  intro c p
  show c ∈ s.creatures p ↔ (s.map.setTile pos).parent c = some p
  rw [hparent]
  exact h.tile c p

theorem addTo_of_leaf {dest : Position} {leaf : Nat} (hleaf : s.map.getQTNode dest = some leaf)
    (c : C) : s.addTo isPlayer dest c = some
      { map := s.map.placeCreature isPlayer dest c
        creatures := Function.update s.creatures dest (c :: s.creatures dest) } := by
  unfold Populated.addTo
  rw [hleaf]

/-- A creature that has no tile is added to one. -/
theorem Consistent.addTo (h : s.Consistent isPlayer) {dest : Position} {c : C} {s' : Populated C}
    (hc : s.map.parent c = none) (hs' : s.addTo isPlayer dest c = some s') :
    s'.Consistent isPlayer := by
  unfold Populated.addTo at hs'
  split at hs'
  · cases hs'
  next leaf hleaf =>
  obtain rfl := Option.some.inj hs'
  have hnot : ∀ p, c ∉ s.creatures p := by
    intro p hmem
    rw [h.tile, hc] at hmem
    cases hmem
  refine ⟨h.registered.register hleaf hc, ?_, ?_⟩
  · intro c' p
    show c' ∈ Function.update s.creatures dest (c :: s.creatures dest) p ↔
      Function.update s.map.parent c (some dest) c' = some p
    rw [Function.update_apply, Function.update_apply]
    by_cases hp : p = dest
    · subst hp
      rw [if_pos rfl, List.mem_cons, h.tile]
      by_cases hcc : c' = c
      · simp [hcc]
      · simp [hcc]
    · rw [if_neg hp, h.tile]
      by_cases hcc : c' = c
      · subst hcc
        rw [if_pos rfl, hc]
        constructor
        · intro hnone
          cases hnone
        · intro heq
          exact absurd (Option.some.inj heq).symm hp
      · rw [if_neg hcc]
  · intro p
    show (Function.update s.creatures dest (c :: s.creatures dest) p).Nodup
    rw [Function.update_apply]
    split
    · exact List.nodup_cons.mpr ⟨hnot dest, h.nodup dest⟩
    · exact h.nodup p

variable (isPlayer) (s) in
/-- A creature taken off its tile and its leaf. -/
def takenOff (pos : Position) (c : C) : Populated C where
  map := { s.map.removeFromLeaf isPlayer pos c with
    parent := Function.update s.map.parent c none }
  creatures := Function.update s.creatures pos ((s.creatures pos).erase c)

theorem Consistent.takenOff (h : s.Consistent isPlayer) {pos : Position} {c : C}
    (hc : s.map.parent c = some pos) : (s.takenOff isPlayer pos c).Consistent isPlayer := by
  refine ⟨h.registered.unregister hc, ?_, ?_⟩
  · intro c' p
    show c' ∈ Function.update s.creatures pos ((s.creatures pos).erase c) p ↔
      Function.update s.map.parent c none c' = some p
    rw [Function.update_apply, Function.update_apply]
    by_cases hcc : c' = c
    · subst hcc
      rw [if_pos rfl]
      refine ⟨fun hmem => ?_, fun hnone => by cases hnone⟩
      split at hmem
      · exact absurd hmem (h.nodup pos).not_mem_erase
      · next hp =>
        rw [h.tile, hc] at hmem
        exact absurd (Option.some.inj hmem).symm hp
    · rw [if_neg hcc, ← h.tile]
      split
      · next hp =>
        subst hp
        exact List.mem_erase_of_ne hcc
      · rfl
  · intro p
    show (Function.update s.creatures pos ((s.creatures pos).erase c) p).Nodup
    rw [Function.update_apply]
    split
    · exact (h.nodup pos).erase c
    · exact h.nodup p

omit [DecidableEq C] in
/-- The caches play no part. -/
theorem Consistent.clear (h : s.Consistent isPlayer) :
    ({ s with map := s.map.clearSpectatorCache } : Populated C).Consistent isPlayer :=
  ⟨h.registered.congr rfl rfl rfl rfl, h.tile, h.nodup⟩

theorem Consistent.moveCreature (h : s.Consistent isPlayer) {newPos : Position} {c : C}
    {s' : Populated C} (hs' : s.moveCreature isPlayer newPos c = some s') :
    s'.Consistent isPlayer := by
  unfold Populated.moveCreature at hs'
  split at hs'
  · cases hs'
  next oldPos hc =>
  split at hs'
  · cases hs'
  next leaf hleaf =>
  obtain rfl := Option.some.inj hs'
  have hoff := h.takenOff hc
  have hnone : (s.takenOff isPlayer oldPos c).map.parent c = none := Function.update_self ..
  have hnew : (s.takenOff isPlayer oldPos c).map.getQTNode newPos = some leaf := hleaf
  rw [Map.moveCreature_eq]
  split
  case isTrue hsame =>
    -- the lists of the leaf stay as they are, the rest is as for a new creature
    have hadd := hoff.addTo hnone (addTo_of_leaf hnew c)
    refine ⟨h.registered.moveWithin hc hsame, ?_, hadd.nodup⟩
    intro c' p
    have htile := hadd.tile c' p
    have hparent : Function.update (Function.update s.map.parent c none) c (some newPos) =
        Function.update s.map.parent c (some newPos) := Function.update_idem ..
    change _ ↔ Function.update (Function.update s.map.parent c none) c (some newPos) c' = some p
      at htile
    rw [hparent] at htile
    exact htile
  case isFalse =>
    exact hoff.addTo hnone (addTo_of_leaf hnew c)

theorem Consistent.removeCreature (h : s.Consistent isPlayer) (c : C) :
    (s.removeCreature isPlayer c).Consistent isPlayer := by
  unfold Populated.removeCreature
  split
  · exact h
  next pos hc =>
  rw [Map.removeCreature_eq]
  exact (h.takenOff hc).clear

theorem Consistent.run (h : s.Consistent isPlayer) {op : Op C} {s' : Populated C}
    (hs' : s.run isPlayer op = some s') : s'.Consistent isPlayer := by
  cases op with
  | setTile pos =>
    obtain rfl := Option.some.inj hs'
    exact h.setTile pos
  | placeCreature a centerPos c extendedPos forceLogin relList =>
    change s.placeCreature isPlayer a centerPos c extendedPos forceLogin relList = some s' at hs'
    unfold Populated.placeCreature at hs'
    split at hs'
    · obtain rfl := Option.some.inj hs'
      exact h
    next hc =>
    split at hs'
    · obtain rfl := Option.some.inj hs'
      exact h
    · exact h.addTo (not_not.mp hc) hs'
  | moveCreature newPos c => exact h.moveCreature hs'
  | removeCreature c =>
    obtain rfl := Option.some.inj hs'
    exact h.removeCreature c

/-- The creatures stay consistent in every run. -/
theorem consistent_of_reach (hreach : (system isPlayer).Reachable s) : s.Consistent isPlayer := by
  have ind : (system isPlayer).Inductive (fun _ _ => True) fun s => s.Consistent isPlayer := by
    refine ⟨?_, ?_⟩
    · rintro s rfl
      exact .empty
    · intro s op s' h _ hstep
      exact h.run hstep
  exact ind.invariant hreach

omit [DecidableEq C] in
/-- A leaf in which a creature is registered can remove it. -/
theorem Consistent.canRemove (h : s.Consistent isPlayer) {c : C} {pos : Position} {leaf : Nat}
    (hc : s.map.parent c = some pos) (hleaf : s.map.getQTNode pos = some leaf) :
    CanRemove isPlayer (s.map.leaves leaf) c := by
  have hmem : c ∈ (s.map.leaves leaf).creature_list :=
    (h.registered.registered c leaf).mpr ⟨pos, hc, hleaf⟩
  refine ⟨hmem, fun hplayer => ?_⟩
  exact (h.registered.players leaf).mem_iff.mpr (List.mem_filter.mpr ⟨hmem, hplayer⟩)

/-- On every reachable map, a creature is once in the list of the tile that is its
parent, and in no other; once in the creature list of the leaf of that tile and in
no other; once in the player list of that leaf if it is a player, and otherwise in
none; and no assertion fails. -/
theorem registered_once (hreach : (system isPlayer).Reachable s) :
    (∀ c pos, (s.creatures pos).count c = if s.map.parent c = some pos then 1 else 0) ∧
    (∀ c pos, s.map.parent c = some pos → ∃ leaf, s.map.getQTNode pos = some leaf ∧
      ∀ n, (s.map.leaves n).creature_list.count c = (if n = leaf then 1 else 0) ∧
        (s.map.leaves n).player_list.count c =
          (if n = leaf ∧ isPlayer c = true then 1 else 0)) ∧
    (∀ c n, s.map.parent c = none → c ∉ (s.map.leaves n).creature_list ∧
      c ∉ (s.map.leaves n).player_list) ∧
    ∀ op, s.Asserts isPlayer op := by
  have h := consistent_of_reach hreach
  have hplayers : ∀ c n, c ∈ (s.map.leaves n).player_list ↔
      c ∈ (s.map.leaves n).creature_list ∧ isPlayer c = true := by
    intro c n
    rw [(h.registered.players n).mem_iff, List.mem_filter]
  refine ⟨?_, ?_, ?_, ?_⟩
  · intro c pos
    rw [(h.nodup pos).count]
    exact if_congr (h.tile c pos) rfl rfl
  · intro c pos hc
    obtain ⟨leaf, hleaf⟩ := h.registered.located c pos hc
    refine ⟨leaf, hleaf, fun n => ?_⟩
    have hmem : c ∈ (s.map.leaves n).creature_list ↔ n = leaf := by
      rw [h.registered.registered]
      constructor
      · rintro ⟨p, hp, hn⟩
        rw [hc] at hp
        rw [← Option.some.inj hp, hleaf] at hn
        exact (Option.some.inj hn).symm
      · rintro rfl
        exact ⟨pos, hc, hleaf⟩
    have hnodup : (s.map.leaves n).player_list.Nodup :=
      (h.registered.players n).nodup_iff.mpr ((h.registered.nodup n).filter _)
    rw [(h.registered.nodup n).count, hnodup.count]
    refine ⟨if_congr hmem rfl rfl, if_congr ?_ rfl rfl⟩
    rw [hplayers, hmem]
  · intro c n hc
    have hnot : c ∉ (s.map.leaves n).creature_list := by
      rw [h.registered.registered]
      rintro ⟨p, hp, _⟩
      rw [hc] at hp
      cases hp
    refine ⟨hnot, ?_⟩
    rw [hplayers]
    exact fun hmem => hnot hmem.1
  · intro op
    cases op with
    | setTile pos => trivial
    | placeCreature a centerPos c extendedPos forceLogin relList => trivial
    | moveCreature newPos c => exact fun oldPos leaf hc hleaf _ => h.canRemove hc hleaf
    | removeCreature c => exact fun pos leaf hc hleaf => h.canRemove hc hleaf

/-! ## A walk between two leaves -/

/-- Tiles that answer every question with yes. -/
def openAnswers : Answers Unit := ⟨fun _ => 0, fun _ _ _ => .noError, fun _ _ => true, fun _ _ => none⟩

def step (s : Populated Unit) (op : Op Unit) : Populated Unit := (s.run (fun _ => true) op).getD s

theorem reach_step {s : Populated Unit} (hreach : (system fun _ : Unit => true).Reachable s)
    (op : Op Unit) (hsome : (s.run (fun _ => true) op).isSome = true) :
    (system fun _ : Unit => true).Reachable (step s op) := by
  obtain ⟨s', hs'⟩ := Option.isSome_iff_exists.mp hsome
  rw [step, hs']
  exact .next hreach trivial hs'

/-- Two tiles in neighbouring leaves. -/
def yard : Populated Unit := step (step {} (.setTile ⟨103, 100, 7⟩)) (.setTile ⟨104, 100, 7⟩)

def visited : Populated Unit :=
  step yard (.placeCreature openAnswers ⟨103, 100, 7⟩ () false false normalRelList)

def walked : Populated Unit := step visited (.moveCreature ⟨104, 100, 7⟩ ())

theorem reach_walked : (system fun _ : Unit => true).Reachable walked := by
  have hempty : (system fun _ : Unit => true).Reachable ({} : Populated Unit) := .start rfl
  have hyard : (system fun _ : Unit => true).Reachable yard :=
    reach_step (reach_step hempty (.setTile ⟨103, 100, 7⟩) rfl) (.setTile ⟨104, 100, 7⟩) rfl
  have hvisited : (system fun _ : Unit => true).Reachable visited := reach_step hyard _ rfl
  exact reach_step hvisited _ rfl

theorem registered_once_walked :
    walked.map.parent () = some ⟨104, 100, 7⟩ ∧
      (walked.creatures ⟨104, 100, 7⟩).count () = 1 ∧
      ∃ leaf, walked.map.getQTNode ⟨104, 100, 7⟩ = some leaf ∧
        (walked.map.leaves leaf).player_list.count () = 1 := by
  have hparent : walked.map.parent () = some ⟨104, 100, 7⟩ := rfl
  obtain ⟨htile, hleaf, _⟩ := registered_once reach_walked
  obtain ⟨leaf, hnode, hcount⟩ := hleaf () _ hparent
  refine ⟨hparent, ?_, leaf, hnode, ?_⟩
  · rw [htile, if_pos hparent]
  · rw [(hcount leaf).2, if_pos ⟨rfl, rfl⟩]

end Populated

end Infernum
