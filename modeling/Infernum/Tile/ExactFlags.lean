import Infernum.Tile.Flags

/-!
# Which flags are exact

`resetTileFlags` looks for a property in the other items before it resets one of the
five blocking flags: these are exact in every run. It resets the other flags in any
case: these are exact in runs that take no item off while another one has the same
feature.
-/

namespace Infernum.Tile

open Lib

variable {I C : Type} [DecidableEq I] (w : TileWorld)

/-! ## The start -/

section Start

variable [DecidableEq C]

theorem flags_init {t : Tile I C} (hinit : (system w).init t) {k : Nat} (hk : k < 32)
    (hzones : ZONES.getLsbD k = false) : t.flags.getLsbD k = false := by
  have hbit := congrArg (fun v => BitVec.getLsbD v k) hinit.2.2.2
  change (t.flags &&& ~~~ZONES).getLsbD k = BitVec.getLsbD 0 k at hbit
  rw [BitVec.getLsbD_and, BitVec.getLsbD_not, hzones, decide_eq_true hk] at hbit
  rw [← Bool.and_true (t.flags.getLsbD k)]
  exact hbit.trans BitVec.getLsbD_zero

theorem hasFlag_init {t : Tile I C} (hinit : (system w).init t) (f : TileFlag) :
    t.hasFlag f.flag = false := by
  rw [TileFlag.hasFlag_eq]
  refine flags_init w hinit f.bit_lt ?_
  cases f <;> decide

theorem holds_init {t : Tile I C} (hinit : (system w).init t) (p : Object → Bool) : ¬t.Holds p := by
  rintro ⟨i, hg | hi, _⟩
  · rw [hinit.1] at hg
    cases hg
  · rw [hinit.2.1] at hi
    cases hi

end Start

/-! ## The blocking flags -/

/-- The counted flags. -/
def BlockingFlags (t : Tile I C) : Prop :=
  ∀ f : TileFlag, f.counted.isSome = true → (t.hasFlag f.flag = true ↔ t.Holds (f.holds w))

/-- Every edit keeps them. -/
theorem BlockingFlags.apply {t : Tile I C} {e : Edit I C} (hproper : t.Proper)
    (hvalid : e.Valid w t) (h : t.BlockingFlags w) : (t.apply w e).BlockingFlags w := by
  intro f hcounted
  have hbefore : t.hasFlag f.flag = true ↔ e.OldHolds (f.holds w) t ∨ e.RestHolds (f.holds w) t :=
    (h f hcounted).trans (holds_iff w _ hvalid)
  have hflag := TileFlag.hasFlag_apply_iff w f hproper hvalid
  rw [holds_apply_iff w (f.intrinsic w) hproper hvalid, hflag, hbefore]
  refine or_congr_left ⟨fun ⟨hflag, hkept⟩ => ?_, fun hrest => ⟨.inr hrest, fun h => h.2 hcounted hrest⟩⟩
  rcases hflag with hold | hrest
  · -- the flag is reset unless another item has it
    by_contra hrest
    exact hkept ⟨hold, fun _ => hrest⟩
  · exact hrest

section Runs

variable [DecidableEq C]

theorem blockingFlags_of_reachable {t : Tile I C} (hreach : (system w).Reachable t) :
    t.BlockingFlags w := by
  have hguard : ∀ (t : Tile I C) edits, All w (fun _ _ => True) t edits := by
    intro t edits
    induction edits generalizing t with
    | nil => trivial
    | cons e edits ih => exact ⟨trivial, ih _⟩
  refine (preserved w (P := BlockingFlags w) (G := fun _ _ => True) ?_ ?_
    (hreach.mono fun t op _ => hguard t _)).2
  · intro t hinit f _
    rw [hasFlag_init w hinit f]
    exact ⟨nofun, fun h => absurd h (holds_init w hinit _)⟩
  · exact fun t e hproper hvalid _ h => h.apply w hproper hvalid

/-- A blocking flag is set iff `hasProperty` holds for the items on the tile. -/
theorem hasFlag_eq_hasProperty {t : Tile I C} (hreach : (system w).Reachable t) :
    t.hasFlag TILESTATE_BLOCKSOLID = t.hasProperty w .blockSolid ∧
      t.hasFlag TILESTATE_IMMOVABLEBLOCKSOLID = t.hasProperty w .immovableBlockSolid ∧
      t.hasFlag TILESTATE_BLOCKPATH = t.hasProperty w .blockPath ∧
      t.hasFlag TILESTATE_NOFIELDBLOCKPATH = t.hasProperty w .noFieldBlockPath ∧
      t.hasFlag TILESTATE_IMMOVABLENOFIELDBLOCKPATH =
        t.hasProperty w .immovableNoFieldBlockPath := by
  have hexact : ∀ f : TileFlag, ∀ prop, f.counted = some prop →
      t.hasFlag f.flag = t.hasProperty w prop := by
    intro f prop hcounted
    have hflag := blockingFlags_of_reachable w hreach f (hcounted ▸ rfl)
    have hholds : f.holds w = (Object.hasProperty w · prop) :=
      funext (TileFlag.holds_of_counted w hcounted)
    rw [hholds, ← hasProperty_iff] at hflag
    exact Bool.eq_iff_iff.mpr hflag
  exact ⟨hexact .blockSolid _ rfl, hexact .immovableBlockSolid _ rfl, hexact .blockPath _ rfl,
    hexact .noFieldBlockPath _ rfl, hexact .immovableNoFieldBlockPath _ rfl⟩

end Runs

/-- Item type 1 blocks, type 2 is a teleport. -/
def blockWorld : TileWorld where
  itemType _ := {}
  addUniqueItem _ := true
  getNameByGuid _ := []
  tileItemType id := { blockSolid := id == 1 }

/-- An empty tile; the items 0 and 1 are stones, the others are teleports. -/
def emptyTile : Tile Nat Nat where
  object i := if i < 2 then { id := 1, cls := .item } else { id := 2, cls := .teleport }

theorem emptyTile_init : (system blockWorld).init emptyTile :=
  ⟨rfl, rfl, rfl, by decide⟩

theorem emptyTile_off (i : Nat) : ¬emptyTile.OnTile i :=
  fun h => h.elim nofun List.not_mem_nil

theorem hasFlag_eq_hasProperty_stone :
    let t := emptyTile.run blockWorld (.addThing (.item 0))
    (system blockWorld).Reachable t ∧ t.hasFlag TILESTATE_BLOCKSOLID = true ∧
      (t.hasFlag TILESTATE_BLOCKSOLID = t.hasProperty blockWorld .blockSolid ∧
        t.hasFlag TILESTATE_IMMOVABLEBLOCKSOLID = t.hasProperty blockWorld .immovableBlockSolid ∧
        t.hasFlag TILESTATE_BLOCKPATH = t.hasProperty blockWorld .blockPath ∧
        t.hasFlag TILESTATE_NOFIELDBLOCKPATH = t.hasProperty blockWorld .noFieldBlockPath ∧
        t.hasFlag TILESTATE_IMMOVABLENOFIELDBLOCKPATH =
          t.hasProperty blockWorld .immovableNoFieldBlockPath) :=
  have hreach : (system blockWorld).Reachable (emptyTile.run blockWorld (.addThing (.item 0))) :=
    reach_run blockWorld (.start emptyTile_init) (.addThing (.item 0)) trivial (emptyTile_off 0)
  ⟨hreach, by decide, hasFlag_eq_hasProperty blockWorld hreach⟩

/-! ## The features -/

/-- The other flags, and the floor changes. -/
structure FeatureFlags (t : Tile I C) : Prop where
  feature : ∀ f : TileFlag, f.counted = none → (t.hasFlag f.flag = true ↔ t.Holds (f.holds w))
  floorChange : ∀ j < 7, (t.flags.getLsbD j = true ↔ t.Holds (changesFloor w j))

/-- An edit keeps them if no item that stays has a feature of the old one, unless the
new one has it too, and if floor changes that stay and that come do not differ. -/
structure KeepsFeatures (t : Tile I C) (e : Edit I C) : Prop where
  feature : ∀ f : TileFlag, f.counted = none →
    e.OldHolds (f.holds w) t → e.RestHolds (f.holds w) t → e.NewHolds (f.holds w) t
  off : ∀ j < 7, e.OldHolds (floorChanges w) t → e.RestHolds (changesFloor w j) t →
    e.NewHolds (changesFloor w j) t
  on : ∀ j < 7, ∀ k < 7, ¬e.OldHolds (floorChanges w) t → e.RestHolds (changesFloor w k) t →
    e.NewHolds (changesFloor w j) t → e.RestHolds (changesFloor w j) t

/-- An edit keeps the flags exact iff it meets the condition. -/
theorem featureFlags_apply_iff {t : Tile I C} {e : Edit I C} (hproper : t.Proper)
    (hvalid : e.Valid w t) (h : t.FeatureFlags w) :
    (t.apply w e).FeatureFlags w ↔ KeepsFeatures w t e := by
  have hfeature : ∀ f : TileFlag, f.counted = none →
      (((t.apply w e).hasFlag f.flag = true ↔ (t.apply w e).Holds (f.holds w)) ↔
        (e.OldHolds (f.holds w) t → e.RestHolds (f.holds w) t → e.NewHolds (f.holds w) t)) := by
    intro f hcounted
    have hreset : ¬(e.OldHolds (f.holds w) t ∧ (f.counted.isSome = true →
        ¬e.RestHolds (f.holds w) t)) ↔ ¬e.OldHolds (f.holds w) t :=
      not_congr (and_iff_left fun h => by rw [hcounted] at h; cases h)
    rw [holds_apply_iff w (f.intrinsic w) hproper hvalid, TileFlag.hasFlag_apply_iff w f hproper hvalid,
      h.feature f hcounted, holds_iff w _ hvalid, hreset]
    tauto
  have hfloor : ∀ j < 7, (((t.apply w e).flags.getLsbD j = true ↔
      (t.apply w e).Holds (changesFloor w j)) ↔
        (e.OldHolds (floorChanges w) t → e.RestHolds (changesFloor w j) t →
          e.NewHolds (changesFloor w j) t) ∧
        ∀ k < 7, ¬e.OldHolds (floorChanges w) t → e.RestHolds (changesFloor w k) t →
          e.NewHolds (changesFloor w j) t → e.RestHolds (changesFloor w j) t) := by
    intro j hj
    -- what stays after the reset
    have hkept : ∀ k < 7, t.flags.getLsbD k = true ∧ ¬e.OldHolds (floorChanges w) t ↔
        e.RestHolds (changesFloor w k) t ∧ ¬e.OldHolds (floorChanges w) t := by
      intro k hk
      rw [h.floorChange k hk, holds_iff w _ hvalid]
      refine and_congr_left fun hnot => or_iff_right ?_
      exact fun ⟨i, hi, hp⟩ => hnot ⟨i, hi, floorChanges_of_changesFloor w hp⟩
    have hall : (∀ k < 7, ¬(t.flags.getLsbD k = true ∧ ¬e.OldHolds (floorChanges w) t)) ↔
        ∀ k < 7, ¬(e.RestHolds (changesFloor w k) t ∧ ¬e.OldHolds (floorChanges w) t) :=
      forall₂_congr fun k hk => not_congr (hkept k hk)
    rw [holds_apply_iff w (changesFloor_intrinsic w j) hproper hvalid,
      floorChange_apply_iff w hproper hvalid hj, hkept j hj, hall]
    by_cases hold : e.OldHolds (floorChanges w) t
    · simp only [hold, not_true_eq_false, and_false, false_or, not_false_eq_true, implies_true,
        true_and, false_implies, and_true, true_implies]
      tauto
    · simp only [hold, not_false_eq_true, and_true, false_implies, true_and, true_implies]
      constructor
      · intro hiff k hk hrest hnew
        rcases hiff.mpr (.inr hnew) with h | h
        · exact h
        · exact absurd hrest (h.1 k hk)
      · intro hon
        refine or_congr_right' fun hrest => ⟨fun h => h.2, fun hnew => ⟨?_, hnew⟩⟩
        exact fun k hk hrestk => hrest (hon k hk hrestk hnew)
  constructor
  · intro h'
    exact ⟨fun f hcounted => (hfeature f hcounted).mp (h'.feature f hcounted),
      fun j hj => ((hfloor j hj).mp (h'.floorChange j hj)).1,
      fun j hj => ((hfloor j hj).mp (h'.floorChange j hj)).2⟩
  · intro hkeeps
    exact ⟨fun f hcounted => (hfeature f hcounted).mpr (hkeeps.feature f hcounted),
      fun j hj => (hfloor j hj).mpr ⟨hkeeps.off j hj, hkeeps.on j hj⟩⟩

section Runs

variable [DecidableEq C]

theorem featureFlags_init {t : Tile I C} (hinit : (system w).init t) : t.FeatureFlags w := by
  refine ⟨fun f _ => ?_, fun j hj => ?_⟩
  · rw [hasFlag_init w hinit f]
    exact ⟨nofun, fun h => absurd h (holds_init w hinit _)⟩
  · have hzones : ∀ j < 7, ZONES.getLsbD j = false := by decide
    rw [flags_init w hinit (by omega) (hzones j hj)]
    exact ⟨nofun, fun h => absurd h (holds_init w hinit _)⟩

/-- In a run whose edits meet the condition, a feature's flag is set iff an item on the
tile has the feature. -/
theorem hasFlag_iff_holds {t : Tile I C}
    (hreach : (system w).Reach (fun t op => All w (KeepsFeatures w) t (t.edits w op)) t) :
    (t.hasFlag TILESTATE_TELEPORT = true ↔ t.Holds (·.cls == .teleport)) ∧
      (t.hasFlag TILESTATE_MAGICFIELD = true ↔ t.Holds (·.cls == .magicField)) ∧
      (t.hasFlag TILESTATE_MAILBOX = true ↔ t.Holds (·.cls == .mailbox)) ∧
      (t.hasFlag TILESTATE_TRASHHOLDER = true ↔ t.Holds (·.cls == .trashHolder)) ∧
      (t.hasFlag TILESTATE_BED = true ↔ t.Holds (·.cls == .bed)) ∧
      (t.hasFlag TILESTATE_DEPOT = true ↔ t.Holds (·.cls == .depotLocker)) ∧
      (t.hasFlag TILESTATE_SUPPORTS_HANGABLE = true ↔
        t.Holds (Object.hasProperty w · .supportHangable)) ∧
      ∀ j < 7, (t.flags.getLsbD j = true ↔
        t.Holds fun o => (w.tileItemType o.id).floorChange.getLsbD j) := by
  have hflags : t.FeatureFlags w :=
    (preserved w (P := FeatureFlags w) (fun t => featureFlags_init w) (fun t e hproper hvalid hkeeps h =>
      (featureFlags_apply_iff w hproper hvalid h).mpr hkeeps) hreach).2
  exact ⟨hflags.feature .teleport rfl, hflags.feature .magicField rfl, hflags.feature .mailbox rfl,
    hflags.feature .trashHolder rfl, hflags.feature .bed rfl, hflags.feature .depot rfl,
    hflags.feature .supportsHangable rfl, hflags.floorChange⟩

end Runs

/-- A tile with one teleport. -/
def oneTeleport : Tile Nat Nat := emptyTile.run blockWorld (.addThing (.item 2))

theorem hasFlag_iff_holds_oneTeleport :
    (system blockWorld).Reach (fun t op => All blockWorld (KeepsFeatures blockWorld) t
      (t.edits blockWorld op)) oneTeleport ∧ oneTeleport.hasFlag TILESTATE_TELEPORT = true ∧
    ((oneTeleport.hasFlag TILESTATE_TELEPORT = true ↔ oneTeleport.Holds (·.cls == .teleport)) ∧
      (oneTeleport.hasFlag TILESTATE_MAGICFIELD = true ↔ oneTeleport.Holds (·.cls == .magicField)) ∧
      (oneTeleport.hasFlag TILESTATE_MAILBOX = true ↔ oneTeleport.Holds (·.cls == .mailbox)) ∧
      (oneTeleport.hasFlag TILESTATE_TRASHHOLDER = true ↔
        oneTeleport.Holds (·.cls == .trashHolder)) ∧
      (oneTeleport.hasFlag TILESTATE_BED = true ↔ oneTeleport.Holds (·.cls == .bed)) ∧
      (oneTeleport.hasFlag TILESTATE_DEPOT = true ↔ oneTeleport.Holds (·.cls == .depotLocker)) ∧
      (oneTeleport.hasFlag TILESTATE_SUPPORTS_HANGABLE = true ↔
        oneTeleport.Holds (Object.hasProperty blockWorld · .supportHangable)) ∧
      ∀ j < 7, (oneTeleport.flags.getLsbD j = true ↔
        oneTeleport.Holds fun o => (blockWorld.tileItemType o.id).floorChange.getLsbD j)) := by
  have hkeeps : KeepsFeatures blockWorld emptyTile (.insertDown 2) :=
    ⟨fun _ _ _ ⟨i, hi, _⟩ => absurd hi (emptyTile_off i),
      fun _ _ _ ⟨i, hi, _⟩ => absurd hi (emptyTile_off i),
      fun _ _ _ _ _ ⟨i, hi, _⟩ => absurd hi (emptyTile_off i)⟩
  have hreach : (system blockWorld).Reach (fun t op => All blockWorld (KeepsFeatures blockWorld) t
      (t.edits blockWorld op)) oneTeleport :=
    reach_run blockWorld (.start emptyTile_init) (.addThing (.item 2)) ⟨hkeeps, trivial⟩
      (emptyTile_off 2)
  exact ⟨hreach, by decide, hasFlag_iff_holds blockWorld hreach⟩

/-- Of two teleports one is removed: the other is still there, but the flag is reset. -/
theorem hasFlag_otherTeleport :
    let t := (oneTeleport.run blockWorld (.addThing (.item 3))).run blockWorld
      (.removeThing (.item 2) 1)
    (system blockWorld).Reachable t ∧ t.items.items = [3] ∧ (t.object 3).cls = .teleport ∧
      t.hasFlag TILESTATE_TELEPORT = false := by
  have hone : (system blockWorld).Reachable oneTeleport :=
    reach_run blockWorld (.start emptyTile_init) (.addThing (.item 2)) trivial (emptyTile_off 2)
  have hoff : ¬oneTeleport.OnTile 3 := by
    rintro (h | h)
    · cases h
    · exact absurd h (by decide)
  have htwo := reach_run blockWorld hone (.addThing (.item 3)) trivial hoff
  exact ⟨reach_run blockWorld htwo (.removeThing (.item 2) 1) trivial trivial, by decide, by decide,
    by decide⟩

end Infernum.Tile
