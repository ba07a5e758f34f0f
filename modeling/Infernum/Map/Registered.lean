import Infernum.Map.Spectators

/-!
# Creatures in their leaves

A creature on the map is registered in the leaf of its place. Setting a tile,
putting a creature on, taking one off and moving one keep this.
-/

namespace Infernum

open Lib

variable {C : Type} [DecidableEq C] {isPlayer : C → Bool}

namespace QTreeLeafNode

/-- `removeCreature` takes one creature out of a list. -/
theorem swapRemove_perm {c : C} {list : List C} (hc : c ∈ list) :
    (swapRemove c list).Perm (list.erase c) := by
  obtain ⟨as, bs, rfl, has⟩ := List.eq_append_cons_of_mem hc
  have hindex : (as ++ c :: bs).idxOf c = as.length := by
    rw [List.idxOf_append_of_notMem has, List.idxOf_cons_self, Nat.add_zero]
  have hset : ∀ back, (as ++ c :: bs).set as.length back = as ++ back :: bs := fun back => by
    rw [List.set_append_right _ _ (Nat.le_refl _), Nat.sub_self, List.set_cons_zero]
  rw [List.erase_append_right _ has, List.erase_cons_head]
  cases bs using List.reverseRecOn with
  | nil =>
      -- the creature is the last one itself
      have hlast : (as ++ [c]).getLast? = some c := List.getLast?_concat ..
      rw [swapRemove, hlast]
      show (((as ++ [c]).set ((as ++ [c]).idxOf c) c).dropLast).Perm _
      rw [hindex, hset, List.dropLast_concat, List.append_nil]
  | append_singleton bs back =>
      have hlast : (as ++ c :: (bs ++ [back])).getLast? = some back := by
        rw [← List.cons_append, ← List.append_assoc, List.getLast?_concat]
      rw [swapRemove, hlast]
      show (((as ++ c :: (bs ++ [back])).set
        ((as ++ c :: (bs ++ [back])).idxOf c) back).dropLast).Perm _
      rw [hindex, hset, ← List.cons_append, ← List.append_assoc, List.dropLast_concat]
      exact (List.perm_append_singleton back bs).symm.append_left as

end QTreeLeafNode

/-- The registered creatures are those with a place, each in the leaf of its
place. -/
structure Map.Registered (isPlayer : C → Bool) (m : Map C) : Prop where
  linked : Map.Linked m.root m.leaves m.size
  fresh : ∀ n, m.size ≤ n → m.leaves n = {}
  located : ∀ c pos, m.parent c = some pos → ∃ n, m.getQTNode pos = some n
  registered : ∀ c n, c ∈ (m.leaves n).creature_list ↔
    ∃ pos, m.parent c = some pos ∧ m.getQTNode pos = some n
  players : ∀ n, (m.leaves n).player_list.Perm ((m.leaves n).creature_list.filter isPlayer)
  nodup : ∀ n, (m.leaves n).creature_list.Nodup

namespace Map

omit [DecidableEq C] in
/-- The caches and the tiles play no part in it. -/
theorem Registered.congr {m m' : Map C} (h : m.Registered isPlayer) (hroot : m'.root = m.root)
    (hleaves : m'.leaves = m.leaves) (hsize : m'.size = m.size)
    (hparent : m'.parent = m.parent) : m'.Registered isPlayer := by
  cases m
  cases m'
  subst hroot hleaves hsize hparent
  exact ⟨h.linked, h.fresh, h.located, h.registered, h.players, h.nodup⟩

omit [DecidableEq C] in
/-- A map without tiles. -/
theorem Registered.empty : ({} : Map C).Registered isPlayer := by
  refine ⟨linked_empty _, fun _ _ => rfl, ?_, ?_, fun _ => .nil, fun _ => .nil⟩
  · intro c pos hpos
    cases hpos
  · intro c n
    constructor
    · intro hc
      cases hc
    · rintro ⟨pos, hpos, _⟩
      cases hpos

/-! ## Tiles -/

omit [DecidableEq C] in
/-- A new leaf has no creatures, and the other leaves keep theirs. -/
theorem Registered.setTile_of_none {m : Map C} (h : m.Registered isPlayer) {pos : Position}
    (hnone : m.getQTNode pos = none) :
    ({ m with
        root := createLeaf m.size 15 m.root (pos.x.setWidth 32) (pos.y.setWidth 32)
        leaves := linkLeaf (createLeaf m.size 15 m.root (pos.x.setWidth 32) (pos.y.setWidth 32))
          m.size (pos.x.setWidth 32) (pos.y.setWidth 32) m.leaves
        size := m.size + 1
        hasTile := Function.update m.hasTile pos true } : Map C).Registered isPlayer := by
  have hget := h.linked.createLeaf_of_none hnone
  -- a place that had a leaf keeps it
  have hold : ∀ p n, m.getQTNode p = some n →
      getLeaf (createLeaf m.size 15 m.root (pos.x.setWidth 32) (pos.y.setWidth 32))
        (p.x.setWidth 32) (p.y.setWidth 32) = some n := by
    intro p n hn
    rw [hget]
    split
    case isTrue hsame =>
      change getLeaf _ _ _ = _ at hn
      rw [getLeaf_congr h.linked.uniform hsame] at hn
      cases hnone.symm.trans hn
    case isFalse => exact hn
  have hlists : ∀ {β : Type} (g : QTreeLeafNode C → β), (∀ l k, g { l with leafS := k } = g l) →
      (∀ l k, g { l with leafE := k } = g l) → ∀ n,
      g (linkLeaf (createLeaf m.size 15 m.root (pos.x.setWidth 32) (pos.y.setWidth 32))
          m.size (pos.x.setWidth 32) (pos.y.setWidth 32) m.leaves n) = g (m.leaves n) :=
    fun g hS hE n => linkLeaf_frame _ _ _ _ _ g hS hE n
  have hlinked := h.linked.of_none hnone (h.fresh _ (Nat.le_refl _))
  refine ⟨hlinked, ?_, ?_, ?_, ?_, ?_⟩
  · intro n hn
    have hlt : ∀ x y, getLeaf (createLeaf m.size 15 m.root (pos.x.setWidth 32)
        (pos.y.setWidth 32)) x y ≠ some n := by
      intro x y hsome
      have hlt := hlinked.numbered x y n hsome
      exact absurd hlt (Nat.not_lt.mpr hn)
    have hsize : m.size + 1 ≤ n := hn
    show linkLeaf _ _ _ _ _ n = _
    rw [linkLeaf_of_ne _ _ _ _ _ (by omega) (hlt _ _) (hlt _ _)]
    exact h.fresh n (by omega)
  · intro c p hp
    obtain ⟨n, hn⟩ := h.located c p hp
    exact ⟨n, hold p n hn⟩
  · intro c n
    show c ∈ (linkLeaf _ _ _ _ _ n).creature_list ↔ ∃ p, m.parent c = some p ∧ getLeaf _ _ _ = _
    rw [hlists (·.creature_list) (fun _ _ => rfl) (fun _ _ => rfl), h.registered]
    refine exists_congr fun p => and_congr_right fun hp => ?_
    obtain ⟨k, hk⟩ := h.located c p hp
    rw [hold p k hk, hk]
  · intro n
    show (linkLeaf _ _ _ _ _ n).player_list.Perm ((linkLeaf _ _ _ _ _ n).creature_list.filter _)
    rw [hlists (·.creature_list) (fun _ _ => rfl) (fun _ _ => rfl),
      hlists (·.player_list) (fun _ _ => rfl) (fun _ _ => rfl)]
    exact h.players n
  · intro n
    show (linkLeaf _ _ _ _ _ n).creature_list.Nodup
    rw [hlists (·.creature_list) (fun _ _ => rfl) (fun _ _ => rfl)]
    exact h.nodup n

omit [DecidableEq C] in
/-- A tile in a leaf that exists. -/
theorem Registered.setTile_of_some {m : Map C} (h : m.Registered isPlayer) {pos : Position}
    {n : Nat} (hn : m.getQTNode pos = some n) :
    ({ m with
        root := createLeaf m.size 15 m.root (pos.x.setWidth 32) (pos.y.setWidth 32)
        hasTile := Function.update m.hasTile pos true } : Map C).Registered isPlayer := by
  have hget : ∀ x y, getLeaf (createLeaf m.size 15 m.root (pos.x.setWidth 32)
      (pos.y.setWidth 32)) x y = getLeaf m.root x y := h.linked.createLeaf_of_some hn
  refine ⟨h.linked.of_some hn, h.fresh, ?_, ?_, h.players, h.nodup⟩
  · intro c p hp
    show ∃ k, getLeaf _ _ _ = some k
    rw [hget]
    exact h.located c p hp
  · intro c k
    show _ ↔ ∃ p, m.parent c = some p ∧ getLeaf _ _ _ = some k
    simp only [hget]
    exact h.registered c k

omit [DecidableEq C] in
theorem Registered.setTile {m : Map C} (h : m.Registered isPlayer) (pos : Position) :
    (m.setTile pos).Registered isPlayer := by
  by_cases hz : MAP_MAX_LAYERS ≤ pos.z.toNat
  · rw [Map.setTile, if_pos hz]
    exact h
  · have hlt := Nat.not_le.mp hz
    cases hleaf : m.getQTNode pos with
    | none =>
        have hupdate : Function.update m.leaves m.size {} = m.leaves := by
          rw [← h.fresh m.size (Nat.le_refl _), Function.update_eq_self]
        rw [Map.setTile_of_none h.linked hlt hleaf, hupdate]
        exact h.setTile_of_none hleaf
    | some n =>
        rw [Map.setTile_of_some h.linked hlt hleaf]
        exact h.setTile_of_some hleaf

/-! ## Creatures -/

/-- A creature that is not on the map is put on a tile in a leaf. -/
theorem Registered.register {m : Map C} (h : m.Registered isPlayer) {pos : Position} {c : C}
    {leaf : Nat} (hleaf : m.getQTNode pos = some leaf) (hc : m.parent c = none) :
    ((m.addThing pos c).addCreature isPlayer pos c).Registered isPlayer := by
  have hnot : ∀ n, c ∉ (m.leaves n).creature_list := by
    intro n hmem
    obtain ⟨p, hp, _⟩ := (h.registered c n).mp hmem
    rw [hc] at hp
    cases hp
  have hleaves : ((m.addThing pos c).addCreature isPlayer pos c).leaves =
      modifyLeaf (some leaf) (QTreeLeafNode.addCreature isPlayer c) m.leaves :=
    congrArg (modifyLeaf · (QTreeLeafNode.addCreature isPlayer c) m.leaves) hleaf
  refine ⟨?_, ?_, ?_, ?_, ?_, ?_⟩
  · rw [hleaves]
    exact h.linked.modifyLeaf _ (fun _ => rfl) (fun _ => rfl)
  · intro n hn
    have hlt := h.linked.numbered _ _ _ hleaf
    rw [hleaves, modifyLeaf_apply, if_neg]
    · exact h.fresh n hn
    · intro heq
      obtain rfl := Option.some.inj heq
      exact absurd hlt (Nat.not_lt.mpr hn)
  · intro c' p hp
    change Function.update m.parent c (some pos) c' = some p at hp
    rw [Function.update_apply] at hp
    split at hp
    · exact Option.some.inj hp ▸ ⟨leaf, hleaf⟩
    · exact h.located c' p hp
  · intro c' n
    rw [hleaves, modifyLeaf_apply]
    show _ ↔ ∃ p, Function.update m.parent c (some pos) c' = some p ∧ m.getQTNode p = some n
    rw [Function.update_apply]
    by_cases heq : c' = c
    · subst heq
      rw [if_pos rfl]
      split
      case isTrue hsome =>
        have hself : c' ∈ (m.leaves n).creature_list ++ [c'] := by simp
        exact ⟨fun _ => ⟨pos, rfl, hleaf.trans hsome⟩, fun _ => hself⟩
      case isFalse hother =>
        refine ⟨fun hmem => absurd hmem (hnot n), ?_⟩
        rintro ⟨p, hp, hp'⟩
        rw [← Option.some.inj hp, hleaf] at hp'
        exact absurd hp' hother
    · rw [if_neg heq, ← h.registered]
      split
      · show c' ∈ (m.leaves n).creature_list ++ [c] ↔ _
        simp [heq]
      · rfl
  · intro n
    rw [hleaves, modifyLeaf_apply]
    split
    · show (if isPlayer c = true then (m.leaves n).player_list ++ [c]
        else (m.leaves n).player_list).Perm (((m.leaves n).creature_list ++ [c]).filter isPlayer)
      rw [List.filter_append]
      by_cases hplayer : isPlayer c = true
      · rw [if_pos hplayer, List.filter_singleton, hplayer]
        exact (h.players n).append_right [c]
      · have hfalse : isPlayer c = false := Bool.eq_false_iff.mpr hplayer
        rw [if_neg hplayer, List.filter_singleton, hfalse, cond_false, List.append_nil]
        exact h.players n
    · exact h.players n
  · intro n
    rw [hleaves, modifyLeaf_apply]
    split
    · exact List.nodup_append.mpr ⟨h.nodup n, List.nodup_singleton c, fun a ha b hb => by
        rw [List.mem_singleton.mp hb]
        rintro rfl
        exact hnot n ha⟩
    · exact h.nodup n

/-- What is left in a leaf when a creature is taken out. -/
theorem Registered.perm_removeCreature {m : Map C} (h : m.Registered isPlayer) {c : C} {n : Nat}
    (hc : c ∈ (m.leaves n).creature_list) :
    ((m.leaves n).removeCreature isPlayer c).creature_list.Perm
        ((m.leaves n).creature_list.erase c) ∧
      ((m.leaves n).removeCreature isPlayer c).player_list.Perm
        (((m.leaves n).creature_list.erase c).filter isPlayer) := by
  refine ⟨QTreeLeafNode.swapRemove_perm hc, ?_⟩
  show (if isPlayer c = true then QTreeLeafNode.swapRemove c (m.leaves n).player_list
    else (m.leaves n).player_list).Perm _
  rw [(h.nodup n).erase_eq_filter, List.filter_filter]
  split
  case isTrue hplayer =>
    have hmem : c ∈ (m.leaves n).player_list := (h.players n).mem_iff.mpr (List.mem_filter.mpr ⟨hc, hplayer⟩)
    have hnodup : (m.leaves n).player_list.Nodup :=
      ((h.players n).nodup_iff).mpr ((h.nodup n).filter _)
    refine (QTreeLeafNode.swapRemove_perm hmem).trans ?_
    rw [hnodup.erase_eq_filter]
    refine ((h.players n).filter _).trans ?_
    rw [List.filter_filter]
    simp only [Bool.and_comm]
    exact .refl _
  case isFalse hplayer =>
    -- the creature is not in the list of players
    refine (h.players n).trans (.of_eq (List.filter_congr fun c' _ => ?_))
    by_cases heq : c' = c
    · subst heq
      simp [hplayer]
    · simp [heq]

/-- A creature on the map is taken off. -/
theorem Registered.unregister {m : Map C} (h : m.Registered isPlayer) {pos : Position} {c : C}
    (hc : m.parent c = some pos) :
    ({ m.removeFromLeaf isPlayer pos c with
        parent := Function.update m.parent c none } : Map C).Registered isPlayer := by
  obtain ⟨leaf, hleaf⟩ := h.located c pos hc
  have hmem : c ∈ (m.leaves leaf).creature_list := (h.registered c leaf).mpr ⟨pos, hc, hleaf⟩
  have hleaves : (m.removeFromLeaf isPlayer pos c).leaves =
      modifyLeaf (some leaf) (QTreeLeafNode.removeCreature isPlayer c) m.leaves :=
    congrArg (modifyLeaf · (QTreeLeafNode.removeCreature isPlayer c) m.leaves) hleaf
  refine ⟨?_, ?_, ?_, ?_, ?_, ?_⟩
  · rw [hleaves]
    exact h.linked.modifyLeaf _ (fun _ => rfl) (fun _ => rfl)
  · intro n hn
    have hlt := h.linked.numbered _ _ _ hleaf
    show (m.removeFromLeaf isPlayer pos c).leaves n = _
    rw [hleaves, modifyLeaf_apply, if_neg]
    · exact h.fresh n hn
    · intro heq
      obtain rfl := Option.some.inj heq
      exact absurd hlt (Nat.not_lt.mpr hn)
  · intro c' p hp
    change Function.update m.parent c none c' = some p at hp
    rw [Function.update_apply] at hp
    split at hp
    · cases hp
    · exact h.located c' p hp
  · intro c' n
    show c' ∈ ((m.removeFromLeaf isPlayer pos c).leaves n).creature_list ↔
      ∃ p, Function.update m.parent c none c' = some p ∧ m.getQTNode p = some n
    rw [hleaves, modifyLeaf_apply, Function.update_apply]
    split
    case isTrue hsome =>
      obtain rfl := Option.some.inj hsome
      rw [(h.perm_removeCreature hmem).1.mem_iff, (h.nodup leaf).mem_erase_iff, h.registered]
      by_cases heq : c' = c
      · simp [heq]
      · simp [heq]
    case isFalse hother =>
      by_cases heq : c' = c
      · subst heq
        rw [if_pos rfl, h.registered]
        constructor
        · rintro ⟨p, hp, hp'⟩
          rw [hc] at hp
          rw [← Option.some.inj hp, hleaf] at hp'
          exact absurd hp' hother
        · rintro ⟨p, hp, _⟩
          cases hp
      · rw [if_neg heq]
        exact h.registered c' n
  · intro n
    show ((m.removeFromLeaf isPlayer pos c).leaves n).player_list.Perm
      (((m.removeFromLeaf isPlayer pos c).leaves n).creature_list.filter _)
    rw [hleaves, modifyLeaf_apply]
    split
    case isTrue hsome =>
      obtain rfl := Option.some.inj hsome
      have hperm := h.perm_removeCreature hmem
      exact hperm.2.trans (hperm.1.filter _).symm
    case isFalse => exact h.players n
  · intro n
    show ((m.removeFromLeaf isPlayer pos c).leaves n).creature_list.Nodup
    rw [hleaves, modifyLeaf_apply]
    split
    case isTrue hsome =>
      obtain rfl := Option.some.inj hsome
      exact (h.perm_removeCreature hmem).1.nodup_iff.mpr ((h.nodup leaf).erase c)
    case isFalse => exact h.nodup n

/-- A creature changes its tile within a leaf. -/
theorem Registered.moveWithin {m : Map C} (h : m.Registered isPlayer) {oldPos newPos : Position}
    {c : C} (hc : m.parent c = some oldPos)
    (hleaf : m.getQTNode oldPos = m.getQTNode newPos) :
    (m.addThing newPos c).Registered isPlayer := by
  refine ⟨h.linked, h.fresh, ?_, ?_, h.players, h.nodup⟩
  · intro c' p hp
    change Function.update m.parent c (some newPos) c' = some p at hp
    rw [Function.update_apply] at hp
    split at hp
    · obtain ⟨leaf, hold⟩ := h.located c oldPos hc
      exact Option.some.inj hp ▸ ⟨leaf, hleaf.symm.trans hold⟩
    · exact h.located c' p hp
  · intro c' n
    show c' ∈ (m.leaves n).creature_list ↔
      ∃ p, Function.update m.parent c (some newPos) c' = some p ∧ m.getQTNode p = some n
    rw [Function.update_apply, h.registered]
    by_cases heq : c' = c
    · subst heq
      rw [if_pos rfl, hc]
      constructor
      · rintro ⟨p, hp, hp'⟩
        obtain rfl := Option.some.inj hp
        exact ⟨newPos, rfl, hleaf ▸ hp'⟩
      · rintro ⟨p, hp, hp'⟩
        obtain rfl := Option.some.inj hp
        exact ⟨oldPos, rfl, hleaf ▸ hp'⟩
    · rw [if_neg heq]

variable (isPlayer) in
/-- Looking up spectators changes nothing but the caches. -/
theorem getSpectators_snd (m : Map C) (spectators : Finset C) (centerPos : Position) (q : Query) :
    ∃ cache players, (m.getSpectators isPlayer spectators centerPos q).2 =
      { m with spectatorCache := cache, playersSpectatorCache := players } := by
  rw [getSpectators]
  split
  · exact ⟨_, _, rfl⟩
  · dsimp only
    split
    · exact ⟨_, _, rfl⟩
    · split
      · split
        · exact ⟨_, _, rfl⟩
        · exact ⟨_, _, rfl⟩
      · exact ⟨_, _, rfl⟩

/-- A move takes a creature off and puts it on again, if it changes its leaf. -/
theorem moveCreature_eq (m : Map C) (oldPos newPos : Position) (c : C) :
    m.moveCreature isPlayer oldPos newPos c =
      if m.getQTNode oldPos = m.getQTNode newPos then m.addThing newPos c
      else
        (({ m.removeFromLeaf isPlayer oldPos c with
          parent := Function.update m.parent c none } : Map C).addThing newPos c).addCreature
            isPlayer newPos c := by
  obtain ⟨cache, players, heq⟩ :=
    m.getSpectators_snd isPlayer ∅ oldPos { multifloor := true }
  rw [moveCreature]
  -- the two look-ups change the caches, which are cleared
  rcases hfirst : m.getSpectators isPlayer ∅ oldPos { multifloor := true } with ⟨spectators, m₁⟩
  rw [hfirst] at heq
  obtain rfl : m₁ = _ := heq
  dsimp only
  rcases hsecond : ({ m with spectatorCache := cache, playersSpectatorCache := players } :
    Map C).getSpectators isPlayer spectators newPos { multifloor := true } with ⟨spectators', m₂⟩
  obtain ⟨cache', players', heq'⟩ := ({ m with
    spectatorCache := cache, playersSpectatorCache := players } : Map C).getSpectators_snd
      isPlayer spectators newPos { multifloor := true }
  rw [hsecond] at heq'
  obtain rfl : m₂ = _ := heq'
  show ((if m.getQTNode oldPos ≠ m.getQTNode newPos then
    (m.clearSpectatorCache.removeFromLeaf isPlayer oldPos c).addCreature isPlayer newPos c
    else m.clearSpectatorCache) : Map C).addThing newPos c = _
  by_cases hleaf : m.getQTNode oldPos = m.getQTNode newPos
  · rw [if_pos hleaf, if_neg fun hne => hne hleaf]
    rfl
  · rw [if_neg hleaf, if_pos hleaf]
    show Map.mk _ _ _ _ (Function.update m.parent c (some newPos)) _ _ =
      Map.mk _ _ _ _ (Function.update (Function.update m.parent c none) c (some newPos)) _ _
    rw [Function.update_idem]
    rfl

theorem removeCreature_eq (m : Map C) (pos : Position) (c : C) :
    m.removeCreature isPlayer pos c =
      ({ m.removeFromLeaf isPlayer pos c with
        parent := Function.update m.parent c none } : Map C).clearSpectatorCache := by
  obtain ⟨cache, players, heq⟩ :=
    m.getSpectators_snd isPlayer ∅ pos { multifloor := true }
  rw [removeCreature]
  rcases hfirst : m.getSpectators isPlayer ∅ pos { multifloor := true } with ⟨spectators, m₁⟩
  rw [hfirst] at heq
  obtain rfl : m₁ = _ := heq
  rfl

end Map

end Infernum
