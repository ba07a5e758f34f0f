import Infernum.Map.Reachable

/-!
# The caches of spectators

An entry of a cache has every creature that a search with the viewport would find
at its place, in every run. It has no other creature if no entry is stored for a
caller whose set had other creatures in it.
-/

namespace Infernum

open Lib

variable {C : Type} [DecidableEq C] {isPlayer : C → Bool}

namespace Map

/-- The ranges of the searches that are cached. -/
abbrev viewport (centerPos : Position) : Ranges :=
  ({ multifloor := true } : Query).ranges centerPos

theorem ranges_of_cacheable {q : Query} {centerPos : Position}
    (h : q.cacheable centerPos = true) : q.ranges centerPos = viewport centerPos := by
  simp only [Query.cacheable, Bool.and_eq_true, beq_iff_eq] at h
  obtain ⟨⟨⟨⟨h1, h2⟩, h3⟩, h4⟩, h5⟩ := h
  have hz : (q.ranges centerPos).minRangeZ = (viewport centerPos).minRangeZ ∧
      (q.ranges centerPos).maxRangeZ = (viewport centerPos).maxRangeZ := by
    simp only [Query.ranges, h5, and_self]
  show Ranges.mk _ _ _ _ _ _ = Ranges.mk _ _ _ _ _ _
  exact congr (congr (congr (congr (congr (congrArg Ranges.mk h1) h2) h3) h4) hz.1) hz.2

theorem floorRange_bounds (centerPos : Position) :
    0 ≤ (floorRange centerPos true).1 ∧ (floorRange centerPos true).2 ≤ 15 := by
  have hlayers : MAP_MAX_LAYERS = 16 := rfl
  rw [floorRange, if_pos rfl, hlayers]
  split_ifs
  · show 0 ≤ max _ _ ∧ min _ _ ≤ _
    omega
  · show (0 : Int) ≤ 0 ∧ (8 : Int) ≤ 15
    omega
  · show (0 : Int) ≤ 0 ∧ (9 : Int) ≤ 15
    omega
  · show (0 : Int) ≤ 0 ∧ (7 : Int) ≤ 15
    omega

theorem fits_viewport {centerPos : Position} (hz : centerPos.z.toNat < MAP_MAX_LAYERS) :
    Fits centerPos (viewport centerPos) := by
  have hx := centerPos.x.isLt
  have hy := centerPos.y.isLt
  have hlayers : MAP_MAX_LAYERS = 16 := rfl
  have hfloors : 0 ≤ (viewport centerPos).minRangeZ ∧ (viewport centerPos).maxRangeZ ≤ 15 :=
    floorRange_bounds centerPos
  have hX : (viewport centerPos).minRangeX = -11 ∧ (viewport centerPos).maxRangeX = 11 := ⟨rfl, rfl⟩
  have hY : (viewport centerPos).minRangeY = -11 ∧ (viewport centerPos).maxRangeY = 11 := ⟨rfl, rfl⟩
  rw [hlayers] at hz
  simp only [Fits, Position.getX, Position.getY, Position.getZ]
  omega

/-- The result of a call if there were no caches. -/
def uncached (m : Map C) (spectators : Finset C) (centerPos : Position) (q : Query) : Finset C :=
  if MAP_MAX_LAYERS ≤ centerPos.z.toNat then spectators
  else m.getSpectatorsInternal spectators centerPos (q.ranges centerPos) q.onlyPlayers

variable (isPlayer) in
/-- A call that stores its result. -/
def Stores (m : Map C) (centerPos : Position) (q : Query) : Prop :=
  centerPos.z.toNat < MAP_MAX_LAYERS ∧ q.cacheable centerPos = true ∧
    m.cached isPlayer centerPos q.onlyPlayers = none

/-- Every entry has a property, of the map, the place and whether only players
were asked for. -/
structure Entries (P : Position → Bool → Finset C → Prop) (m : Map C) : Prop where
  all : ∀ pos s, m.spectatorCache pos = some s → P pos false s
  players : ∀ pos s, m.playersSpectatorCache pos = some s → P pos true s

omit [DecidableEq C] in
theorem entries_empty {P : Position → Bool → Finset C → Prop} {m : Map C}
    (hall : m.spectatorCache = fun _ => none) (hplayers : m.playersSpectatorCache = fun _ => none) :
    Entries P m := by
  refine ⟨?_, ?_⟩
  · intro pos s hs
    rw [hall] at hs
    cases hs
  · intro pos s hs
    rw [hplayers] at hs
    cases hs

/-! ## Calls -/

variable (m : Map C) (spectators : Finset C) (centerPos : Position) (q : Query)

/-- The answer to a call that does not store: the caches', or no cache plays a
part. -/
theorem getSpectators_of_not_stores (h : ¬Stores isPlayer m centerPos q) :
    (m.getSpectators isPlayer spectators centerPos q).2 = m ∧
      ((m.getSpectators isPlayer spectators centerPos q).1 = m.uncached spectators centerPos q ∨
        ∃ s, centerPos.z.toNat < MAP_MAX_LAYERS ∧ q.cacheable centerPos = true ∧
          m.cached isPlayer centerPos q.onlyPlayers = some s ∧
          (m.getSpectators isPlayer spectators centerPos q).1 = spectators ∪ s) := by
  rw [getSpectators, uncached]
  by_cases hz : MAP_MAX_LAYERS ≤ centerPos.z.toNat
  · rw [if_pos hz, if_pos hz]
    exact ⟨rfl, .inl rfl⟩
  · rw [if_neg hz, if_neg hz]
    dsimp only
    by_cases hcache : q.cacheable centerPos = true
    · rw [if_pos hcache]
      cases hs : m.cached isPlayer centerPos q.onlyPlayers with
      | none => exact absurd ⟨Nat.lt_of_not_le hz, hcache, hs⟩ h
      | some s => exact ⟨rfl, .inr ⟨s, Nat.lt_of_not_le hz, hcache, rfl, rfl⟩⟩
    · rw [if_neg hcache]
      dsimp only
      rw [if_neg hcache]
      exact ⟨rfl, .inl rfl⟩

/-- A call that stores answers as without caches, and stores its answer. -/
theorem getSpectators_of_stores (h : Stores isPlayer m centerPos q) :
    m.getSpectators isPlayer spectators centerPos q =
      (m.uncached spectators centerPos q,
        if q.onlyPlayers then
          { m with
            playersSpectatorCache := Function.update m.playersSpectatorCache centerPos
              (some (m.uncached spectators centerPos q)) }
        else
          { m with
            spectatorCache := Function.update m.spectatorCache centerPos
              (some (m.uncached spectators centerPos q)) }) := by
  obtain ⟨hz, hcache, hnone⟩ := h
  have hlayer : ¬MAP_MAX_LAYERS ≤ centerPos.z.toNat := Nat.not_le.mpr hz
  rw [getSpectators, uncached, if_neg hlayer, if_neg hlayer]
  dsimp only
  rw [if_pos hcache, hnone]
  dsimp only
  rw [if_pos hcache]
  split <;> rfl

omit [DecidableEq C] in
/-- An entry after another one was stored. -/
theorem of_update_eq_some {cache : SpectatorCache C} {centerPos pos : Position} {s t : Finset C}
    (h : Function.update cache centerPos (some t) pos = some s) :
    (pos = centerPos ∧ s = t) ∨ cache pos = some s := by
  rw [Function.update_apply] at h
  split at h
  case isTrue heq => exact .inl ⟨heq, (Option.some.inj h).symm⟩
  case isFalse => exact .inr h

/-- What is known of the entries is known again after an operation, if it only
depends on where the creatures are and holds for what a call stores. -/
theorem Entries.run {P : Map C → Position → Bool → Finset C → Prop}
    (hP : ∀ m m', m'.parent = m.parent → P m = P m') {m : Map C} (h : Entries (P m) m) (op : Op C)
    (hstore : ∀ spectators centerPos q, op = .getSpectators spectators centerPos q →
      Stores isPlayer m centerPos q →
      P m centerPos q.onlyPlayers (m.uncached spectators centerPos q)) :
    Entries (P (m.run isPlayer op)) (m.run isPlayer op) := by
  cases op with
  | setTile pos =>
      have hkeep : (m.setTile pos).parent = m.parent ∧
          (m.setTile pos).spectatorCache = m.spectatorCache ∧
          (m.setTile pos).playersSpectatorCache = m.playersSpectatorCache := by
        rw [setTile]
        split
        · exact ⟨rfl, rfl, rfl⟩
        · dsimp only
          split <;> exact ⟨rfl, rfl, rfl⟩
      show Entries (P (m.setTile pos)) (m.setTile pos)
      rw [← hP m (m.setTile pos) hkeep.1]
      exact ⟨hkeep.2.1 ▸ h.all, hkeep.2.2 ▸ h.players⟩
  | placeCreature dest c => exact entries_empty rfl rfl
  | moveCreature oldPos newPos c =>
      rw [Map.run, moveCreature_eq]
      split
      · exact entries_empty rfl rfl
      · exact entries_empty rfl rfl
  | removeCreature pos c =>
      rw [Map.run, removeCreature_eq]
      exact entries_empty rfl rfl
  | clearSpectatorCache => exact entries_empty rfl rfl
  | getSpectators spectators centerPos q =>
      show Entries (P (m.getSpectators isPlayer spectators centerPos q).2) _
      by_cases hstores : Stores isPlayer m centerPos q
      · have hnew := hstore spectators centerPos q rfl hstores
        rw [Map.run, getSpectators_of_stores m spectators centerPos q hstores]
        dsimp only
        split
        case isTrue hplayers =>
          rw [hplayers] at hnew
          rw [← hP m { m with
            playersSpectatorCache := Function.update m.playersSpectatorCache centerPos
              (some (m.uncached spectators centerPos q)) } rfl]
          refine ⟨h.all, fun pos s hs => ?_⟩
          rcases of_update_eq_some hs with ⟨rfl, rfl⟩ | hold
          · exact hnew
          · exact h.players pos s hold
        case isFalse hplayers =>
          rw [Bool.eq_false_iff.mpr hplayers] at hnew
          rw [← hP m { m with
            spectatorCache := Function.update m.spectatorCache centerPos
              (some (m.uncached spectators centerPos q)) } rfl]
          refine ⟨fun pos s hs => ?_, h.players⟩
          rcases of_update_eq_some hs with ⟨rfl, rfl⟩ | hold
          · exact hnew
          · exact h.all pos s hold
      · rw [Map.run, (getSpectators_of_not_stores m spectators centerPos q hstores).1]
        exact h

/-! ## Complete entries -/

variable (isPlayer) in
/-- Every creature that is to be found is in the entry. -/
def Complete (m : Map C) (pos : Position) (onlyPlayers : Bool) (s : Finset C) : Prop :=
  ∀ c, m.Seen isPlayer pos (viewport pos) onlyPlayers c → c ∈ s

variable (isPlayer) in
/-- Every creature in the entry is to be found. -/
def Sound (m : Map C) (pos : Position) (onlyPlayers : Bool) (s : Finset C) : Prop :=
  ∀ c ∈ s, m.Seen isPlayer pos (viewport pos) onlyPlayers c

omit [DecidableEq C] in
theorem seen_congr {m m' : Map C} (h : m'.parent = m.parent) :
    m.Seen isPlayer = m'.Seen isPlayer := by
  funext centerPos r onlyPlayers c
  rw [Seen, Seen, h]

theorem WellFormed.mem_uncached_iff {m : Map C} (h : m.WellFormed isPlayer) {centerPos : Position}
    {q : Query} (hz : centerPos.z.toNat < MAP_MAX_LAYERS) (hcache : q.cacheable centerPos = true)
    (spectators : Finset C) (c : C) :
    c ∈ m.uncached spectators centerPos q ↔
      c ∈ spectators ∨ m.Seen isPlayer centerPos (viewport centerPos) q.onlyPlayers c := by
  rw [uncached, if_neg (Nat.not_le.mpr hz), ranges_of_cacheable hcache]
  exact h.mem_getSpectatorsInternal_iff (fits_viewport hz) spectators q.onlyPlayers c

/-- Entries are complete in every run, whatever the callers' sets are. -/
theorem complete_of_reach {G : Map C → Op C → Prop} {m : Map C}
    (hreach : (system isPlayer).Reach G m) : Entries (Complete isPlayer m) m := by
  have ind : (system isPlayer).Inductive G fun m =>
      m.WellFormed isPlayer ∧ Entries (Complete isPlayer m) m := by
    refine ⟨?_, ?_⟩
    · rintro m rfl
      exact ⟨.empty, entries_empty rfl rfl⟩
    · rintro m op m' ⟨hwf, hentries⟩ _ ⟨hallows, rfl⟩
      refine ⟨run_wellFormed hwf op hallows, hentries.run ?_ op ?_⟩
      · intro m m' hparent
        unfold Complete
        rw [seen_congr hparent]
      · intro spectators centerPos q _ hstores c hc
        exact (hwf.mem_uncached_iff hstores.1 hstores.2.1 spectators c).mpr (.inr hc)
  exact (ind.invariant hreach).2

variable (isPlayer) in
/-- What a call stores was to be found: the caller's set has no other creatures. -/
def Clean (m : Map C) : Op C → Prop
  | .getSpectators spectators centerPos q =>
      Stores isPlayer m centerPos q →
        ∀ c ∈ spectators, m.Seen isPlayer centerPos (q.ranges centerPos) q.onlyPlayers c
  | _ => True

/-- Entries are sound in a run whose calls are clean. -/
theorem sound_of_reach {m : Map C} (hreach : (system isPlayer).Reach (Clean isPlayer) m) :
    Entries (Sound isPlayer m) m := by
  have ind : (system isPlayer).Inductive (Clean isPlayer) fun m =>
      m.WellFormed isPlayer ∧ Entries (Sound isPlayer m) m := by
    refine ⟨?_, ?_⟩
    · rintro m rfl
      exact ⟨.empty, entries_empty rfl rfl⟩
    · rintro m op m' ⟨hwf, hentries⟩ hclean ⟨hallows, rfl⟩
      refine ⟨run_wellFormed hwf op hallows, hentries.run ?_ op ?_⟩
      · intro m m' hparent
        unfold Sound
        rw [seen_congr hparent]
      · intro spectators centerPos q hop hstores c hc
        subst hop
        rcases (hwf.mem_uncached_iff hstores.1 hstores.2.1 spectators c).mp hc with hmem | hseen
        · rw [← ranges_of_cacheable hstores.2.1]
          exact hclean hstores c hmem
        · exact hseen
  exact (ind.invariant hreach).2

omit [DecidableEq C] in
/-- What the caches answer, from what is known of their entries. -/
theorem Entries.mem_cached {m : Map C} {pos : Position} {onlyPlayers : Bool} {s : Finset C}
    (hs : m.cached isPlayer pos onlyPlayers = some s) :
    (Entries (Complete isPlayer m) m → Complete isPlayer m pos onlyPlayers s) ∧
      (Entries (Sound isPlayer m) m → Sound isPlayer m pos onlyPlayers s) := by
  cases onlyPlayers with
  | false => exact ⟨fun h => h.all pos s hs, fun h => h.all pos s hs⟩
  | true =>
      rw [cached, if_pos rfl] at hs
      cases hplayers : m.playersSpectatorCache pos with
      | some s' =>
          rw [hplayers] at hs
          obtain rfl := Option.some.inj hs
          exact ⟨fun h => h.players pos s' hplayers, fun h => h.players pos s' hplayers⟩
      | none =>
          -- the players of the other cache's entry
          rw [hplayers] at hs
          obtain ⟨s', hall, rfl⟩ := Option.map_eq_some_iff.mp hs
          constructor
          · intro h c hc
            rw [Finset.mem_filter]
            exact ⟨h.all pos s' hall c ⟨hc.1, nofun⟩, hc.2 rfl⟩
          · intro h c hc
            rw [Finset.mem_filter] at hc
            exact ⟨(h.all pos s' hall c hc.1).1, fun _ => hc.2⟩

/-- The caches are transparent as long as no call stores creatures that were in its
caller's set and are not to be found. -/
theorem getSpectators_eq_uncached {m : Map C} (hreach : (system isPlayer).Reach (Clean isPlayer) m)
    (spectators : Finset C) (centerPos : Position) (q : Query) :
    (m.getSpectators isPlayer spectators centerPos q).1 = m.uncached spectators centerPos q := by
  by_cases hstores : Stores isPlayer m centerPos q
  · rw [getSpectators_of_stores m spectators centerPos q hstores]
  · rcases (getSpectators_of_not_stores m spectators centerPos q hstores).2 with
      heq | ⟨s, hz, hcache, hs, heq⟩
    · exact heq
    · rw [heq]
      have hcomplete := (Entries.mem_cached hs).1 (complete_of_reach hreach)
      have hsound := (Entries.mem_cached hs).2 (sound_of_reach hreach)
      ext c
      rw [(wellFormed_of_reach hreach).mem_uncached_iff hz hcache, Finset.mem_union]
      exact or_congr Iff.rfl ⟨hsound c, hcomplete c⟩

/-- A call without a set of its own, in the yard. -/
theorem getSpectators_eq_uncached_yard :
    (yard.getSpectators (fun _ => true) ∅ yardPos { multifloor := true }).1 =
      yard.uncached ∅ yardPos { multifloor := true } := by
  have hstart : (system fun _ : Unit => true).Reach (Clean fun _ => true) {} := .start rfl
  have htile := Reach.run hstart (.setTile yardPos) trivial trivial
  have hplaced := Reach.run htile (.placeCreature yardPos ()) trivial ⟨by decide, rfl⟩
  exact getSpectators_eq_uncached hplaced ∅ yardPos { multifloor := true }

/-- Two creatures far from each other, after the spectators of the first one's place
were added to a set with the second one. -/
def farPos : Position := ⟨200, 100, 7⟩

def pollute : List (Op Bool) :=
  [.setTile yardPos, .setTile farPos, .placeCreature yardPos false, .placeCreature farPos true,
    .getSpectators {true} yardPos { multifloor := true }]

def polluted : Map Bool := pollute.foldl (fun m op => m.run (fun _ => true) op) {}

theorem polluted_reachable : (system fun _ : Bool => true).Reachable polluted := by
  have h : (system fun _ : Bool => true).Reachable {} := .start rfl
  have h := Reach.run h (.setTile yardPos) trivial trivial
  have h := Reach.run h (.setTile farPos) trivial trivial
  have h := Reach.run h (.placeCreature yardPos false) trivial ⟨by decide, rfl⟩
  have h := Reach.run h (.placeCreature farPos true) trivial ⟨by decide, rfl⟩
  exact Reach.run h (.getSpectators {true} yardPos { multifloor := true }) trivial trivial

/-- The next call at that place adds the creature that is far away. -/
theorem getSpectators_polluted :
    (system fun _ : Bool => true).Reachable polluted ∧
      (polluted.getSpectators (fun _ => true) ∅ yardPos { multifloor := true }).1 = {true, false} ∧
      polluted.uncached ∅ yardPos { multifloor := true } = {false} :=
  ⟨polluted_reachable, by decide, by decide⟩

/-! ## Viewers -/

/-- `ProtocolGame::canSee`: whether a client shows a place; `player` is the place of
its player. -/
def canSee (player : Option Position) (x y z : Int) : Bool :=
  match player with
  | none => false
  | some myPos =>
      if myPos.z.toNat ≤ 7 ∧ z > 7 then false
      else if ¬myPos.z.toNat ≤ 7 ∧ 8 ≤ myPos.z.toNat ∧ (myPos.getZ - z).natAbs > 2 then false
      else
        let offsetz := myPos.getZ - z
        decide (x ≥ myPos.getX - 8 + offsetz ∧ x ≤ myPos.getX + 9 + offsetz ∧
          y ≥ myPos.getY - 6 + offsetz ∧ y ≤ myPos.getY + 7 + offsetz)

/-- The floors around a place are those from which it may be seen. -/
theorem floorRange_of_canSee {p q : Position} (hp : p.z.toNat < MAP_MAX_LAYERS)
    (habove : p.z.toNat ≤ 7 → q.z.toNat ≤ 7)
    (hunder : 8 ≤ p.z.toNat → (p.getZ - q.getZ).natAbs ≤ 2) :
    (floorRange q true).1 ≤ p.getZ ∧ p.getZ ≤ (floorRange q true).2 := by
  have hlayers : MAP_MAX_LAYERS = 16 := rfl
  rw [hlayers] at hp
  have hpz : p.getZ = p.z.toNat := rfl
  have hqz : q.getZ = q.z.toNat := rfl
  rw [floorRange, if_pos rfl, hlayers]
  split_ifs
  · show max _ _ ≤ _ ∧ _ ≤ min _ _
    omega
  · show (0 : Int) ≤ _ ∧ _ ≤ (8 : Int)
    omega
  · show (0 : Int) ≤ _ ∧ _ ≤ (9 : Int)
    omega
  · show (0 : Int) ≤ _ ∧ _ ≤ (7 : Int)
    omega

/-- Who sees a place is in the viewport around that place. -/
theorem inRanges_of_canSee {p q : Position} (hp : p.z.toNat < MAP_MAX_LAYERS)
    (h : canSee (some p) q.getX q.getY q.getZ = true) : InRanges q (viewport q) p := by
  simp only [canSee] at h
  split at h
  · cases h
  case isFalse habove =>
  split at h
  · cases h
  case isFalse hunder =>
  have hwindow := of_decide_eq_true h
  have hqz : q.getZ = q.z.toNat := rfl
  have hX : (viewport q).minRangeX = -11 ∧ (viewport q).maxRangeX = 11 := ⟨rfl, rfl⟩
  have hY : (viewport q).minRangeY = -11 ∧ (viewport q).maxRangeY = 11 := ⟨rfl, rfl⟩
  have hfloors : (viewport q).minRangeZ ≤ p.getZ ∧ p.getZ ≤ (viewport q).maxRangeZ :=
    floorRange_of_canSee hp (by omega) (by omega)
  -- the window of a client is smaller than the viewport
  refine ⟨hfloors, ?_, ?_⟩
  · omega
  · omega

/-- A player whose client shows a place is among the spectators of that place. -/
theorem mem_getSpectators_of_canSee {m : Map C} (hreach : (system isPlayer).Reachable m) {player : C}
    (hplayer : isPlayer player = true) {q : Position} (hq : q.z.toNat < MAP_MAX_LAYERS)
    (hsee : canSee (m.parent player) q.getX q.getY q.getZ = true) (spectators : Finset C)
    (onlyPlayers : Bool) :
    player ∈ (m.getSpectators isPlayer spectators q
      { multifloor := true, onlyPlayers := onlyPlayers }).1 := by
  have hwf := wellFormed_of_reach hreach
  obtain ⟨p, hp⟩ : ∃ p, m.parent player = some p := by
    cases hparent : m.parent player with
    | none =>
        rw [hparent] at hsee
        cases hsee
    | some p => exact ⟨p, rfl⟩
  rw [hp] at hsee
  have hlayer := (hwf.tile p (hwf.placed player p hp)).1
  have hseen : m.Seen isPlayer q (viewport q) onlyPlayers player :=
    ⟨⟨p, hp, inRanges_of_canSee hlayer hsee⟩, fun _ => hplayer⟩
  have hcacheable : ({ multifloor := true, onlyPlayers := onlyPlayers } : Query).cacheable q = true :=
    rfl
  have huncached := (hwf.mem_uncached_iff hq hcacheable spectators player).mpr (.inr hseen)
  by_cases hstores : Stores isPlayer m q { multifloor := true, onlyPlayers := onlyPlayers }
  · rw [getSpectators_of_stores m spectators q _ hstores]
    exact huncached
  · rcases (getSpectators_of_not_stores m spectators q _ hstores).2 with
      heq | ⟨s, _, _, hs, heq⟩
    · rw [heq]
      exact huncached
    · -- the entry was complete when it was stored
      rw [heq, Finset.mem_union]
      exact .inr ((Entries.mem_cached hs).1 (complete_of_reach hreach) player hseen)

/-- The player in the yard sees the place east of it. -/
theorem mem_getSpectators_of_canSee_yard :
    () ∈ (yard.getSpectators (fun _ => true) ∅ ⟨101, 100, 7⟩
      { multifloor := true, onlyPlayers := true }).1 :=
  mem_getSpectators_of_canSee yard_reachable rfl (by decide) (by decide) ∅ true

end Map

end Infernum
