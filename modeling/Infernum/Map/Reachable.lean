import Infernum.Lib.TransitionSystem
import Infernum.Map.Registered

/-!
# Maps over whole runs

Tiles are set, creatures are placed, moved and removed, and spectators are looked
up, in any order. Each operation keeps the leaves linked and the creatures
registered.
-/

namespace Infernum

open Lib

variable {C : Type} [DecidableEq C] {isPlayer : C → Bool}

namespace Map

omit [DecidableEq C] in
/-- The caches play no part in it. -/
theorem WellFormed.congr {m m' : Map C} (h : m.WellFormed isPlayer) (hroot : m'.root = m.root)
    (hleaves : m'.leaves = m.leaves) (hsize : m'.size = m.size) (htile : m'.hasTile = m.hasTile)
    (hparent : m'.parent = m.parent) : m'.WellFormed isPlayer := by
  cases m
  cases m'
  subst hroot hleaves hsize htile hparent
  exact ⟨h.linked, h.fresh, h.tile, h.placed, h.registered, h.players, h.nodup⟩

omit [DecidableEq C] in
theorem WellFormed.toRegistered {m : Map C} (h : m.WellFormed isPlayer) :
    m.Registered isPlayer :=
  ⟨h.linked, h.fresh, fun c pos hpos => (h.tile pos (h.placed c pos hpos)).2, h.registered,
    h.players, h.nodup⟩

omit [DecidableEq C] in
/-- A map without tiles. -/
theorem WellFormed.empty : ({} : Map C).WellFormed isPlayer := by
  have hreg : ({} : Map C).Registered isPlayer := .empty
  refine ⟨hreg.linked, hreg.fresh, ?_, ?_, hreg.registered, hreg.players, hreg.nodup⟩
  · intro pos hpos
    cases hpos
  · intro c pos hpos
    cases hpos

/-! ## Tiles -/

omit [DecidableEq C] in
/-- A tile that is set, or was there, has a leaf. -/
theorem WellFormed.setTile {m : Map C} (h : m.WellFormed isPlayer) (pos : Position) :
    (m.setTile pos).WellFormed isPlayer := by
  have hreg := h.toRegistered.setTile pos
  by_cases hz : MAP_MAX_LAYERS ≤ pos.z.toNat
  · rw [Map.setTile, if_pos hz]
    exact h
  have hroot : (m.setTile pos).root =
      createLeaf m.size 15 m.root (pos.x.setWidth 32) (pos.y.setWidth 32) := by
    rw [Map.setTile, if_neg hz]
    dsimp only
    split <;> rfl
  have htile : (m.setTile pos).hasTile = Function.update m.hasTile pos true := by
    rw [Map.setTile, if_neg hz]
    dsimp only
    split <;> rfl
  have hparent : (m.setTile pos).parent = m.parent := by
    rw [Map.setTile, if_neg hz]
    dsimp only
    split <;> rfl
  refine ⟨hreg.linked, hreg.fresh, ?_, ?_, hreg.registered, hreg.players, hreg.nodup⟩
  · intro p hp
    rw [htile, Function.update_apply] at hp
    show _ ∧ ∃ n, getLeaf (m.setTile pos).root _ _ = some n
    rw [hroot, getLeaf_createLeaf h.linked.uniform h.linked.isNode]
    split at hp
    case isTrue heq =>
      subst heq
      exact ⟨Nat.lt_of_not_le hz, _, if_pos ⟨rfl, rfl⟩⟩
    case isFalse =>
      obtain ⟨hlayer, n, hn⟩ := h.tile p hp
      refine ⟨hlayer, ?_⟩
      split
      · exact ⟨_, rfl⟩
      · exact ⟨n, hn⟩
  · intro c p hp
    rw [hparent] at hp
    rw [htile, Function.update_apply]
    split
    · rfl
    · exact h.placed c p hp

/-! ## Creatures -/

/-- A creature that is not on the map is put on a tile. -/
theorem WellFormed.register {m : Map C} (h : m.WellFormed isPlayer) {pos : Position} {c : C}
    (htile : m.hasTile pos = true) (hc : m.parent c = none) :
    ((m.addThing pos c).addCreature isPlayer pos c).WellFormed isPlayer := by
  obtain ⟨_, leaf, hleaf⟩ := h.tile pos htile
  have hreg := h.toRegistered.register hleaf hc
  refine ⟨hreg.linked, hreg.fresh, h.tile, ?_, hreg.registered, hreg.players, hreg.nodup⟩
  intro c' p hp
  change Function.update m.parent c (some pos) c' = some p at hp
  rw [Function.update_apply] at hp
  split at hp
  · exact Option.some.inj hp ▸ htile
  · exact h.placed c' p hp

/-- A creature on the map is taken off. -/
theorem WellFormed.unregister {m : Map C} (h : m.WellFormed isPlayer) {pos : Position} {c : C}
    (hc : m.parent c = some pos) :
    ({ m.removeFromLeaf isPlayer pos c with
        parent := Function.update m.parent c none } : Map C).WellFormed isPlayer := by
  have hreg := h.toRegistered.unregister hc
  refine ⟨hreg.linked, hreg.fresh, h.tile, ?_, hreg.registered, hreg.players, hreg.nodup⟩
  intro c' p hp
  change Function.update m.parent c none c' = some p at hp
  rw [Function.update_apply] at hp
  split at hp
  · cases hp
  · exact h.placed c' p hp

/-- A creature changes its tile within a leaf. -/
theorem WellFormed.moveWithin {m : Map C} (h : m.WellFormed isPlayer) {oldPos newPos : Position}
    {c : C} (htile : m.hasTile newPos = true) (hc : m.parent c = some oldPos)
    (hleaf : m.getQTNode oldPos = m.getQTNode newPos) :
    (m.addThing newPos c).WellFormed isPlayer := by
  have hreg := h.toRegistered.moveWithin hc hleaf
  refine ⟨hreg.linked, hreg.fresh, h.tile, ?_, hreg.registered, hreg.players, hreg.nodup⟩
  intro c' p hp
  change Function.update m.parent c (some newPos) c' = some p at hp
  rw [Function.update_apply] at hp
  split at hp
  · exact Option.some.inj hp ▸ htile
  · exact h.placed c' p hp

/-! ## Runs -/

/-- What changes the map, or its caches. -/
inductive Op (C : Type) where
  | setTile (pos : Position)
  | placeCreature (dest : Position) (c : C)
  | moveCreature (oldPos newPos : Position) (c : C)
  | removeCreature (pos : Position) (c : C)
  | getSpectators (spectators : Finset C) (centerPos : Position) (q : Query)
  | clearSpectatorCache

/-- When an operation is called: a creature that is placed is not on the map yet,
one that is moved or removed is, and tiles exist. -/
def Allows (m : Map C) : Op C → Prop
  | .placeCreature dest c => m.hasTile dest = true ∧ m.parent c = none
  | .moveCreature oldPos newPos c => m.parent c = some oldPos ∧ m.hasTile newPos = true
  | .removeCreature pos c => m.parent c = some pos
  | _ => True

variable (isPlayer) in
def run (m : Map C) : Op C → Map C
  | .setTile pos => m.setTile pos
  | .placeCreature dest c => m.placeCreature isPlayer dest c
  | .moveCreature oldPos newPos c => m.moveCreature isPlayer oldPos newPos c
  | .removeCreature pos c => m.removeCreature isPlayer pos c
  | .getSpectators spectators centerPos q => (m.getSpectators isPlayer spectators centerPos q).2
  | .clearSpectatorCache => m.clearSpectatorCache

theorem run_wellFormed {m : Map C} (h : m.WellFormed isPlayer) (op : Op C) (hallows : m.Allows op) :
    (m.run isPlayer op).WellFormed isPlayer := by
  cases op with
  | setTile pos => exact h.setTile pos
  | placeCreature dest c => exact h.register hallows.1 hallows.2
  | moveCreature oldPos newPos c =>
      rw [run, moveCreature_eq]
      split
      case isTrue hleaf => exact h.moveWithin hallows.2 hallows.1 hleaf
      case isFalse =>
        exact (h.unregister hallows.1).register hallows.2 (Function.update_self ..)
  | removeCreature pos c =>
      rw [run, removeCreature_eq]
      exact (h.unregister hallows).congr rfl rfl rfl rfl rfl
  | getSpectators spectators centerPos q =>
      obtain ⟨cache, players, heq⟩ :=
        m.getSpectators_snd isPlayer spectators centerPos q
      rw [run, heq]
      exact h.congr rfl rfl rfl rfl rfl
  | clearSpectatorCache => exact h.congr rfl rfl rfl rfl rfl

variable (isPlayer) in
/-- Any order of operations on a map that has no tiles at first. -/
def system : TSys (Map C) (Op C) where
  init m := m = {}
  step m op m' := m.Allows op ∧ m' = m.run isPlayer op

theorem Reach.run {G : Map C → Op C → Prop} {m : Map C} (hreach : (system isPlayer).Reach G m)
    (op : Op C) (hguard : G m op) (hallows : m.Allows op) :
    (system isPlayer).Reach G (m.run isPlayer op) :=
  .next hreach hguard ⟨hallows, rfl⟩

/-- The leaves stay linked and the creatures registered, in every run. -/
theorem wellFormed_of_reach {G : Map C → Op C → Prop} {m : Map C}
    (hreach : (system isPlayer).Reach G m) : m.WellFormed isPlayer := by
  have ind : (system isPlayer).Inductive G fun m => m.WellFormed isPlayer := by
    refine ⟨?_, ?_⟩
    · rintro m rfl
      exact .empty
    · rintro m op m' h _ ⟨hallows, rfl⟩
      exact run_wellFormed h op hallows
  exact ind.invariant hreach

/-! ## The search is exact -/

/-- A map with one tile and a creature on it. -/
def lonely (isPlayer : C → Bool) (pos : Position) (c : C) : Map C :=
  (({} : Map C).run isPlayer (.setTile pos)).run isPlayer (.placeCreature pos c)

theorem lonely_reachable {pos : Position} (hz : pos.z.toNat < MAP_MAX_LAYERS) (c : C) :
    (system isPlayer).Reachable (lonely isPlayer pos c) := by
  have hempty : (system isPlayer).Reachable {} := .start rfl
  have hsame : ({} : Map C).setTile pos = _ := if_neg (Nat.not_le.mpr hz)
  refine Reach.run (Reach.run hempty (.setTile pos) trivial trivial) (.placeCreature pos c)
    trivial ⟨?_, ?_⟩
  · show (({} : Map C).setTile pos).hasTile pos = true
    rw [hsame]
    exact Function.update_self ..
  · show (({} : Map C).setTile pos).parent c = none
    rw [hsame]
    dsimp only
    split <;> rfl

theorem lonely_parent (pos : Position) (c : C) :
    (lonely isPlayer pos c).parent c = some pos :=
  Function.update_self ..

/-- The arguments of a search: 32-bit numbers, with which the additions do not
overflow. -/
structure Ranges.Valid (centerPos : Position) (r : Ranges) : Prop where
  minRangeX : -2147483648 ≤ r.minRangeX
  minRangeY : -2147483648 ≤ r.minRangeY
  maxRangeX : centerPos.getX + r.maxRangeX ≤ 2147483647
  maxRangeY : centerPos.getY + r.maxRangeY ≤ 2147483647
  minRangeZ : 0 ≤ r.minRangeZ
  maxRangeZ : r.maxRangeZ ≤ 15

variable (isPlayer) in
/-- If a corner does not fit, a creature at the border of the map is not found. -/
theorem exists_missed {centerPos : Position} {r : Ranges} (hvalid : r.Valid centerPos)
    (hfits : ¬Fits centerPos r) {pos : Position} (hz : pos.z.toNat < MAP_MAX_LAYERS)
    (hin : InRanges centerPos r pos) (c : C) :
    ∃ pos' : Position, pos'.z.toNat < MAP_MAX_LAYERS ∧ InRanges centerPos r pos' ∧
      c ∉ (lonely isPlayer pos' c).getSpectatorsInternal ∅ centerPos r false := by
  obtain ⟨hminX, hminY, hmaxX, hmaxY, hminZ, hmaxZ⟩ := hvalid
  obtain ⟨⟨hzlow, hzhigh⟩, ⟨hxlow, hxhigh⟩, hylow, hyhigh⟩ := hin
  have hx : (0 : Int) ≤ pos.getX ∧ pos.getX ≤ 65535 :=
    ⟨Int.natCast_nonneg _, Int.ofNat_le.mpr (Nat.le_of_lt_succ pos.x.isLt)⟩
  have hy : (0 : Int) ≤ pos.getY ∧ pos.getY ≤ 65535 :=
    ⟨Int.natCast_nonneg _, Int.ofNat_le.mpr (Nat.le_of_lt_succ pos.y.isLt)⟩
  have hpz : (0 : Int) ≤ pos.getZ := Int.natCast_nonneg _
  have hcx : (0 : Int) ≤ centerPos.getX := Int.natCast_nonneg _
  have hcy : (0 : Int) ≤ centerPos.getY := Int.natCast_nonneg _
  have hcz : (0 : Int) ≤ centerPos.getZ ∧ centerPos.getZ ≤ 255 :=
    ⟨Int.natCast_nonneg _, Int.ofNat_le.mpr (Nat.le_of_lt_succ centerPos.z.isLt)⟩
  -- the creature is in a column or a row that the loops do not come to
  have hmissed : ∀ pos' : Position, pos'.z.toNat < MAP_MAX_LAYERS →
      ¬(Visited (clampCoord (centerPos.getX + r.minRangeX + (centerPos.getZ - r.maxRangeZ)))
          (clampCoord (centerPos.getX + r.maxRangeX + (centerPos.getZ - r.minRangeZ))) pos'.x ∧
        Visited (clampCoord (centerPos.getY + r.minRangeY + (centerPos.getZ - r.maxRangeZ)))
          (clampCoord (centerPos.getY + r.maxRangeY + (centerPos.getZ - r.minRangeZ))) pos'.y) →
      c ∉ (lonely isPlayer pos' c).getSpectatorsInternal ∅ centerPos r false := by
    intro pos' hz' hnot hmem
    obtain ⟨⟨pos'', hparent, hcolumn, hrow, _⟩, _⟩ :=
      (wellFormed_of_reach (lonely_reachable hz' c)).column_of_mem hmem
    rw [lonely_parent] at hparent
    obtain rfl := Option.some.inj hparent
    exact hnot ⟨hcolumn, hrow⟩
  have hzero : ∀ y z, Position.getX ⟨0, y, z⟩ = 0 := fun _ _ => rfl
  have hlast : ∀ y z, Position.getX ⟨0xFFFF, y, z⟩ = 65535 := fun _ _ => rfl
  have hzero' : ∀ x z, Position.getY ⟨x, 0, z⟩ = 0 := fun _ _ => rfl
  have hlast' : ∀ x z, Position.getY ⟨x, 0xFFFF, z⟩ = 65535 := fun _ _ => rfl
  rw [Fits, not_and_or, not_and_or, not_and_or, not_le, not_le, not_le, not_le] at hfits
  rcases hfits with (hwest | heast) | (hnorth | hsouth)
  · refine ⟨⟨0, pos.y, pos.z⟩, hz, ⟨⟨hzlow, hzhigh⟩, ?_, hylow, hyhigh⟩, hmissed _ hz ?_⟩
    · rw [hzero]
      change _ + (centerPos.getZ - pos.getZ) ≤ _ ∧ _ ≤ _ + (centerPos.getZ - pos.getZ)
      omega
    · rw [clampCoord_of_low hwest (by omega)]
      exact fun h => not_visited_zero (clampCoord_le_last _) h.1
  · refine ⟨⟨0xFFFF, pos.y, pos.z⟩, hz, ⟨⟨hzlow, hzhigh⟩, ?_, hylow, hyhigh⟩, hmissed _ hz ?_⟩
    · rw [hlast]
      change _ + (centerPos.getZ - pos.getZ) ≤ _ ∧ _ ≤ _ + (centerPos.getZ - pos.getZ)
      omega
    · rw [clampCoord_of_high heast (by omega)]
      exact fun h => not_visited_last _ h.1
  · refine ⟨⟨pos.x, 0, pos.z⟩, hz, ⟨⟨hzlow, hzhigh⟩, ⟨hxlow, hxhigh⟩, ?_⟩, hmissed _ hz ?_⟩
    · rw [hzero']
      change _ + (centerPos.getZ - pos.getZ) ≤ _ ∧ _ ≤ _ + (centerPos.getZ - pos.getZ)
      omega
    · rw [clampCoord_of_low hnorth (by omega)]
      exact fun h => not_visited_zero (clampCoord_le_last _) h.2
  · refine ⟨⟨pos.x, 0xFFFF, pos.z⟩, hz, ⟨⟨hzlow, hzhigh⟩, ⟨hxlow, hxhigh⟩, ?_⟩, hmissed _ hz ?_⟩
    · rw [hlast']
      change _ + (centerPos.getZ - pos.getZ) ≤ _ ∧ _ ≤ _ + (centerPos.getZ - pos.getZ)
      omega
    · rw [clampCoord_of_high hsouth (by omega)]
      exact fun h => not_visited_last _ h.2

/-- What `getSpectatorsInternal` adds is exactly the creatures in the ranges, the
players if only they are asked for, on every map if the corners fit in 32 bits. If
they do not, there is a map where a creature is missed, unless no place of any map
lies in the ranges. -/
theorem getSpectatorsInternal_exact_iff [Inhabited C] {centerPos : Position} {r : Ranges}
    (hvalid : r.Valid centerPos) :
    (∀ m, (system isPlayer).Reachable m → ∀ spectators onlyPlayers c,
        (c ∈ m.getSpectatorsInternal spectators centerPos r onlyPlayers ↔
          c ∈ spectators ∨ ((∃ pos, m.parent c = some pos ∧ InRanges centerPos r pos) ∧
            (onlyPlayers = true → isPlayer c = true)))) ↔
      Fits centerPos r ∨
        ∀ pos : Position, pos.z.toNat < MAP_MAX_LAYERS → ¬InRanges centerPos r pos := by
  constructor
  · intro hexact
    by_contra hcond
    rw [not_or, not_forall] at hcond
    obtain ⟨hfits, pos, hpos⟩ := hcond
    rw [Classical.not_imp, not_not] at hpos
    obtain ⟨pos', hz, hin, hmissed⟩ :=
      exists_missed isPlayer hvalid hfits hpos.1 hpos.2 default
    exact hmissed ((hexact _ (lonely_reachable hz default) ∅ false default).mpr
      (.inr ⟨⟨pos', lonely_parent pos' default, hin⟩, nofun⟩))
  · rintro (hfits | hnone) m hreach spectators onlyPlayers c
    · exact (wellFormed_of_reach hreach).mem_getSpectatorsInternal_iff hfits ..
    · have hwf := wellFormed_of_reach hreach
      rw [hwf.mem_getSpectatorsInternal]
      refine or_congr Iff.rfl ⟨hwf.seen_of_mem, ?_⟩
      rintro ⟨⟨pos, hparent, hin⟩, _⟩
      exact absurd hin (hnone pos (hwf.tile pos (hwf.placed c pos hparent)).1)

/-- A yard with a player in it. -/
def yardPos : Position := ⟨100, 100, 7⟩

def yard : Map Unit := lonely (fun _ => true) yardPos ()

theorem yard_reachable : (system fun _ : Unit => true).Reachable yard :=
  lonely_reachable (by decide) ()

/-- A search with a short range in the yard. -/
theorem getSpectatorsInternal_exact_iff_yard :
    Ranges.Valid yardPos ⟨-1, 1, -1, 1, 0, 7⟩ ∧
      ((∀ m, (system fun _ : Unit => true).Reachable m → ∀ spectators onlyPlayers c,
          (c ∈ m.getSpectatorsInternal spectators yardPos ⟨-1, 1, -1, 1, 0, 7⟩ onlyPlayers ↔
            c ∈ spectators ∨
              ((∃ pos, m.parent c = some pos ∧ InRanges yardPos ⟨-1, 1, -1, 1, 0, 7⟩ pos) ∧
                (onlyPlayers = true → true = true)))) ↔
        Fits yardPos ⟨-1, 1, -1, 1, 0, 7⟩ ∨
          ∀ pos : Position, pos.z.toNat < MAP_MAX_LAYERS →
            ¬InRanges yardPos ⟨-1, 1, -1, 1, 0, 7⟩ pos) :=
  have hvalid : Ranges.Valid yardPos ⟨-1, 1, -1, 1, 0, 7⟩ := by
    constructor <;> decide
  ⟨hvalid, getSpectatorsInternal_exact_iff hvalid⟩

/-- A range of nearly 2^31: the eastern corner becomes negative as a 32-bit number,
and no leaf is visited. -/
theorem getSpectatorsInternal_wraps :
    (system fun _ : Unit => true).Reachable yard ∧
      yard.parent () = some yardPos ∧ InRanges yardPos ⟨-1, 2147483547, -1, 1, 0, 7⟩ yardPos ∧
      () ∉ yard.getSpectatorsInternal ∅ yardPos ⟨-1, 2147483547, -1, 1, 0, 7⟩ false :=
  ⟨yard_reachable, by decide, by decide, by decide⟩

end Map

end Infernum
