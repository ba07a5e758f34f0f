import Infernum.Map.Map

/-!
# The links between leaves

The links of a leaf go to the leaves that the tree has south and east of it. The
coordinates wrap around at the border of the map, in the tree and in the links.
-/

namespace Infernum

open Lib Lib.QuadTree

/-- Two places belong to one leaf. -/
def SameLeaf (x y x' y' : BitVec 32) : Prop :=
  leafCoord x' = leafCoord x ∧ leafCoord y' = leafCoord y

instance (x y x' y' : BitVec 32) : Decidable (SameLeaf x y x' y') :=
  inferInstanceAs (Decidable (_ ∧ _))

/-- The next column of leaves. -/
theorem leafCoord_add_eight (x : BitVec 32) : leafCoord (x + 8) = (leafCoord x + 1) % 8192 := by
  have hadd : (x + 8).toNat = (x.toNat + 8) % 4294967296 := by
    rw [BitVec.toNat_add]
    rfl
  rw [leafCoord, leafCoord, hadd]
  omega

theorem leafCoord_lt (x : BitVec 32) : leafCoord x < 8192 := by
  rw [leafCoord]
  omega

/-- A column is east of another one if that is west of it. -/
theorem leafCoord_add_eight_eq_iff (x x' : BitVec 32) :
    leafCoord (x' + 8) = leafCoord x ↔ leafCoord x' = leafCoord (x - 8) := by
  have hx := leafCoord_add_eight (x - 8)
  have hcancel : x - 8 + 8 = x := BitVec.sub_add_cancel x 8
  rw [hcancel] at hx
  have hx' := leafCoord_add_eight x'
  have hlt := leafCoord_lt x'
  have hlt' := leafCoord_lt (x - 8)
  omega

theorem leafCoord_add_eight_ne (x : BitVec 32) : leafCoord (x + 8) ≠ leafCoord x := by
  have hx := leafCoord_add_eight x
  have hlt := leafCoord_lt x
  omega

theorem leafCoord_sub_eight_ne (x : BitVec 32) : leafCoord (x - 8) ≠ leafCoord x := by
  intro h
  exact leafCoord_add_eight_ne x ((leafCoord_add_eight_eq_iff x x).mpr h.symm)

/-! ## Look-ups in the tree -/

section Tree

variable {t : QuadTree Nat} (h : Uniform 13 t)

include h

theorem getLeaf_congr {x y x' y' : BitVec 32} (hsame : SameLeaf x y x' y') :
    getLeaf t x' y' = getLeaf t x y := by
  rw [getLeaf_eq_find h, getLeaf_eq_find h, (leafPath_eq_iff_coord x' y' x y).mpr hsame]

/-- The leaves after `createLeaf`: one for the coordinates, the others as before. -/
theorem getLeaf_createLeaf (ht : t.IsNode) (newLeaf : Nat) (x y x' y' : BitVec 32) :
    getLeaf (createLeaf newLeaf 15 t x y) x' y' =
      if SameLeaf x y x' y' then some ((getLeaf t x y).getD newLeaf) else getLeaf t x' y' := by
  have hinsert : createLeaf newLeaf 15 t x y = t.insert newLeaf (leafPath 13 x y) :=
    createLeaf_eq_insert newLeaf 12 h ht x y
  rw [hinsert, getLeaf_eq_find (h.insert newLeaf (leafPath_length 13 x y)),
    find_insert h newLeaf (leafPath_length 13 x y) (leafPath_length 13 x' y'),
    getLeaf_eq_find h, getLeaf_eq_find h]
  refine if_congr ?_ rfl rfl
  exact leafPath_eq_iff_coord x' y' x y

theorem uniform_createLeaf (ht : t.IsNode) (newLeaf : Nat) (x y : BitVec 32) :
    Uniform 13 (createLeaf newLeaf 15 t x y) := by
  rw [show createLeaf newLeaf 15 t x y = t.insert newLeaf (leafPath 13 x y) from
    createLeaf_eq_insert newLeaf 12 h ht x y]
  exact h.insert newLeaf (leafPath_length 13 x y)

theorem isNode_createLeaf (ht : t.IsNode) (newLeaf : Nat) (x y : BitVec 32) :
    (createLeaf newLeaf 15 t x y).IsNode := by
  rw [show createLeaf newLeaf 15 t x y = t.insert newLeaf (leafPath 13 x y) from
    createLeaf_eq_insert newLeaf 12 h ht x y]
  exact (insert_cons_of_isNode ht newLeaf _ _).symm ▸ isNode_setChild ht _ _

end Tree

namespace Map

variable {C : Type}

/-- The tree has the leaves at its bottom, each under one number, and the links
are those of the tree. -/
structure Linked (root : QuadTree Nat) (leaves : Nat → QTreeLeafNode C) (size : Nat) : Prop where
  uniform : Uniform 13 root
  isNode : root.IsNode
  numbered : ∀ x y n, getLeaf root x y = some n → n < size
  distinct : ∀ x y x' y' n, getLeaf root x y = some n → getLeaf root x' y' = some n →
    SameLeaf x y x' y'
  south : ∀ x y n, getLeaf root x y = some n → (leaves n).leafS = getLeaf root x (y + 8)
  east : ∀ x y n, getLeaf root x y = some n → (leaves n).leafE = getLeaf root (x + 8) y

/-- A map without tiles. -/
theorem linked_empty (leaves : Nat → QTreeLeafNode C) : Linked .empty leaves 0 := by
  have hnone : ∀ x y, getLeaf (.empty : QuadTree Nat) x y = none := fun x y => by
    rw [getLeaf_eq_find (uniform_empty 12), find_empty]
  refine ⟨uniform_empty 12, isNode_empty, ?_, ?_, ?_, ?_⟩
  · intro x y n hn
    rw [hnone] at hn
    cases hn
  · intro x y x' y' n hn
    rw [hnone] at hn
    cases hn
  · intro x y n hn
    rw [hnone] at hn
    cases hn
  · intro x y n hn
    rw [hnone] at hn
    cases hn

/-! ## Changed leaves -/

theorem modifyLeaf_apply (k : Option Nat) (f : QTreeLeafNode C → QTreeLeafNode C)
    (leaves : Nat → QTreeLeafNode C) (n : Nat) :
    modifyLeaf k f leaves n = if k = some n then f (leaves n) else leaves n := by
  cases k with
  | none => rfl
  | some k =>
      rw [modifyLeaf, Function.update_apply]
      by_cases hk : n = k
      · rw [if_pos hk, if_pos (congrArg some hk.symm), hk]
      · rw [if_neg hk, if_neg fun h => hk (Option.some.inj h).symm]

/-- What a change of a leaf leaves alone. -/
theorem modifyLeaf_frame {β : Type*} (g : QTreeLeafNode C → β) (k : Option Nat)
    {f : QTreeLeafNode C → QTreeLeafNode C} (hf : ∀ l, g (f l) = g l)
    (leaves : Nat → QTreeLeafNode C) (n : Nat) : g (modifyLeaf k f leaves n) = g (leaves n) := by
  rw [modifyLeaf_apply]
  split
  · exact hf _
  · rfl

/-- A new southern link leaves the eastern ones alone. -/
theorem leafE_modifyLeaf_leafS (k v : Option Nat) (leaves : Nat → QTreeLeafNode C) (n : Nat) :
    (modifyLeaf k (fun l => { l with leafS := v }) leaves n).leafE = (leaves n).leafE :=
  modifyLeaf_frame (f := fun l => { l with leafS := v }) (·.leafE) k (fun _ => rfl) leaves n

theorem leafS_modifyLeaf_leafE (k v : Option Nat) (leaves : Nat → QTreeLeafNode C) (n : Nat) :
    (modifyLeaf k (fun l => { l with leafE := v }) leaves n).leafS = (leaves n).leafS :=
  modifyLeaf_frame (f := fun l => { l with leafE := v }) (·.leafS) k (fun _ => rfl) leaves n

/-- The links are left as they are. -/
theorem Linked.modifyLeaf {root : QuadTree Nat} {leaves : Nat → QTreeLeafNode C} {size : Nat}
    (h : Linked root leaves size) (k : Option Nat) {f : QTreeLeafNode C → QTreeLeafNode C}
    (hS : ∀ l, (f l).leafS = l.leafS) (hE : ∀ l, (f l).leafE = l.leafE) :
    Linked root (modifyLeaf k f leaves) size := by
  refine ⟨h.uniform, h.isNode, h.numbered, h.distinct, ?_, ?_⟩
  · intro x y n hn
    rw [modifyLeaf_frame (·.leafS) k hS]
    exact h.south x y n hn
  · intro x y n hn
    rw [modifyLeaf_frame (·.leafE) k hE]
    exact h.east x y n hn

section LinkLeaf

variable (root : QuadTree Nat) (leaf : Nat) (x y : BitVec 32) (leaves : Nat → QTreeLeafNode C)

/-- Linking changes nothing but the links. -/
theorem linkLeaf_frame {β : Type*} (g : QTreeLeafNode C → β)
    (hS : ∀ l k, g { l with leafS := k } = g l) (hE : ∀ l k, g { l with leafE := k } = g l)
    (n : Nat) : g (linkLeaf root leaf x y leaves n) = g (leaves n) := by
  rw [linkLeaf]
  split <;> split <;>
    simp only [modifyLeaf_frame g _ (fun l => hS l _), modifyLeaf_frame g _ (fun l => hE l _)]

/-- The eastern links: the new leaf has the one east of it, and the one west of it
has the new leaf. -/
theorem linkLeaf_leafE (hnew : (leaves leaf).leafE = none)
    (hwest : getLeaf root (x - 8) y ≠ some leaf) (n : Nat) :
    (linkLeaf root leaf x y leaves n).leafE =
      if n = leaf then getLeaf root (x + 8) y
      else if getLeaf root (x - 8) y = some n then some leaf
      else (leaves n).leafE := by
  rw [linkLeaf]
  set north := modifyLeaf (getLeaf root x (y - 8)) (fun l => { l with leafS := some leaf }) leaves
    with hn
  set west := modifyLeaf (getLeaf root (x - 8) y) (fun l => { l with leafE := some leaf }) north
    with hw
  set south := if (getLeaf root x (y + 8)).isSome then
    modifyLeaf (some leaf) (fun l => { l with leafS := getLeaf root x (y + 8) }) west else west
    with hs
  have hnorthE : ∀ n, (north n).leafE = (leaves n).leafE :=
    leafE_modifyLeaf_leafS _ _ leaves
  have hwestE : ∀ n, (west n).leafE =
      if getLeaf root (x - 8) y = some n then some leaf else (leaves n).leafE := fun n => by
    rw [hw, modifyLeaf_apply]
    split
    · rfl
    · exact hnorthE n
  have hsouthE : ∀ n, (south n).leafE = (west n).leafE := fun n => by
    rw [hs]
    split
    · exact leafE_modifyLeaf_leafS _ _ west n
    · rfl
  show (ite _ _ south n).leafE = _
  by_cases heast : (getLeaf root (x + 8) y).isSome
  · rw [if_pos heast, modifyLeaf_apply]
    by_cases hleaf : n = leaf
    · rw [if_pos (congrArg some hleaf.symm), if_pos hleaf]
    · rw [if_neg fun h => hleaf (Option.some.inj h).symm, if_neg hleaf, hsouthE, hwestE]
  · rw [if_neg heast, hsouthE, hwestE]
    by_cases hleaf : n = leaf
    · -- the new leaf has no link yet
      rw [if_pos hleaf, hleaf, if_neg hwest, hnew]
      exact (Option.not_isSome_iff_eq_none.mp heast).symm
    · rw [if_neg hleaf]

/-- The southern links. -/
theorem linkLeaf_leafS (hnew : (leaves leaf).leafS = none)
    (hnorth : getLeaf root x (y - 8) ≠ some leaf) (n : Nat) :
    (linkLeaf root leaf x y leaves n).leafS =
      if n = leaf then getLeaf root x (y + 8)
      else if getLeaf root x (y - 8) = some n then some leaf
      else (leaves n).leafS := by
  rw [linkLeaf]
  set north := modifyLeaf (getLeaf root x (y - 8)) (fun l => { l with leafS := some leaf }) leaves
    with hn
  set west := modifyLeaf (getLeaf root (x - 8) y) (fun l => { l with leafE := some leaf }) north
    with hw
  set south := if (getLeaf root x (y + 8)).isSome then
    modifyLeaf (some leaf) (fun l => { l with leafS := getLeaf root x (y + 8) }) west else west
    with hs
  have hwestS : ∀ n, (west n).leafS =
      if getLeaf root x (y - 8) = some n then some leaf else (leaves n).leafS := fun n => by
    rw [hw, leafS_modifyLeaf_leafE, hn, modifyLeaf_apply]
    split <;> rfl
  have heastS : ∀ n, (ite (getLeaf root (x + 8) y).isSome
      (modifyLeaf (some leaf) (fun l => { l with leafE := getLeaf root (x + 8) y }) south)
      south n).leafS = (south n).leafS := fun n => by
    split
    · exact leafS_modifyLeaf_leafE _ _ south n
    · rfl
  rw [show (ite _ _ south n).leafS = _ from heastS n, hs]
  by_cases hsouth : (getLeaf root x (y + 8)).isSome
  · rw [if_pos hsouth, modifyLeaf_apply]
    by_cases hleaf : n = leaf
    · rw [if_pos (congrArg some hleaf.symm), if_pos hleaf]
    · rw [if_neg fun h => hleaf (Option.some.inj h).symm, if_neg hleaf, hwestS]
  · rw [if_neg hsouth, hwestS]
    by_cases hleaf : n = leaf
    · rw [if_pos hleaf, hleaf, if_neg hnorth, hnew]
      exact (Option.not_isSome_iff_eq_none.mp hsouth).symm
    · rw [if_neg hleaf]

/-- The other leaves keep their links. -/
theorem linkLeaf_of_ne {n : Nat} (hn : n ≠ leaf) (hwest : getLeaf root (x - 8) y ≠ some n)
    (hnorth : getLeaf root x (y - 8) ≠ some n) : linkLeaf root leaf x y leaves n = leaves n := by
  have hkeep : ∀ k f, k ≠ some n → ∀ l : Nat → QTreeLeafNode C, modifyLeaf k f l n = l n := by
    intro k f hk l
    rw [modifyLeaf_apply, if_neg hk]
  have hleaf : some leaf ≠ some n := fun h => hn (Option.some.inj h).symm
  rw [linkLeaf]
  split <;> split <;> simp only [hkeep _ _ hleaf, hkeep _ _ hwest, hkeep _ _ hnorth]

end LinkLeaf

/-! ## New tiles -/

section NewLeaf

variable {root : QuadTree Nat} {leaves : Nat → QTreeLeafNode C} {size : Nat}
  (h : Linked root leaves size)

include h

/-- A place in a leaf that exists: nothing is found that was not there before. -/
theorem Linked.createLeaf_of_some {x y : BitVec 32} {n : Nat} (hn : getLeaf root x y = some n)
    (x' y' : BitVec 32) :
    getLeaf (createLeaf size 15 root x y) x' y' = getLeaf root x' y' := by
  rw [getLeaf_createLeaf h.uniform h.isNode]
  split
  case isTrue hsame => rw [getLeaf_congr h.uniform hsame, hn, Option.getD_some]
  case isFalse => rfl

theorem Linked.of_some {x y : BitVec 32} {n : Nat} (hn : getLeaf root x y = some n) :
    Linked (createLeaf size 15 root x y) leaves size := by
  refine ⟨uniform_createLeaf h.uniform h.isNode .., isNode_createLeaf h.uniform h.isNode ..,
    ?_, ?_, ?_, ?_⟩
  · intro x' y' k hk
    rw [h.createLeaf_of_some hn] at hk
    exact h.numbered _ _ _ hk
  · intro x' y' x'' y'' k hk hk'
    rw [h.createLeaf_of_some hn] at hk hk'
    exact h.distinct _ _ _ _ _ hk hk'
  · intro x' y' k hk
    rw [h.createLeaf_of_some hn] at hk ⊢
    exact h.south _ _ _ hk
  · intro x' y' k hk
    rw [h.createLeaf_of_some hn] at hk ⊢
    exact h.east _ _ _ hk

/-- A place in a leaf that is made. -/
theorem Linked.createLeaf_of_none {x y : BitVec 32} (hnone : getLeaf root x y = none)
    (x' y' : BitVec 32) :
    getLeaf (createLeaf size 15 root x y) x' y' =
      if SameLeaf x y x' y' then some size else getLeaf root x' y' := by
  rw [getLeaf_createLeaf h.uniform h.isNode, hnone, Option.getD_none]

theorem Linked.of_none {x y : BitVec 32} (hnone : getLeaf root x y = none)
    (hnew : leaves size = {}) :
    Linked (createLeaf size 15 root x y)
      (linkLeaf (createLeaf size 15 root x y) size x y leaves) (size + 1) := by
  have hget := h.createLeaf_of_none hnone
  have hold : ∀ x' y' n, getLeaf root x' y' = some n → n ≠ size := fun x' y' n hn heq => by
    have hlt := h.numbered _ _ _ hn
    omega
  -- what is found is the new leaf or an old one
  have hcases : ∀ x' y' n, getLeaf (createLeaf size 15 root x y) x' y' = some n →
      (SameLeaf x y x' y' ∧ n = size) ∨ (¬SameLeaf x y x' y' ∧ getLeaf root x' y' = some n) := by
    intro x' y' n hn
    rw [hget] at hn
    split at hn
    case isTrue hsame => exact .inl ⟨hsame, (Option.some.inj hn).symm⟩
    case isFalse hsame => exact .inr ⟨hsame, hn⟩
  have huniform := uniform_createLeaf h.uniform h.isNode size x y
  -- an old leaf is where it was
  have hfind : ∀ a b x' y' n, getLeaf root x' y' = some n →
      getLeaf (createLeaf size 15 root x y) x' y' = some n →
      (getLeaf (createLeaf size 15 root x y) a b = some n ↔ SameLeaf a b x' y') := by
    intro a b x' y' n hroot hn
    constructor
    · intro hsome
      rcases hcases _ _ _ hsome with ⟨_, heq⟩ | ⟨_, hroot'⟩
      · exact absurd heq (hold _ _ _ hroot)
      · have hsame := h.distinct _ _ _ _ _ hroot' hroot
        exact ⟨hsame.1, hsame.2⟩
    · intro hsame
      rw [← hn]
      exact getLeaf_congr huniform ⟨hsame.1.symm, hsame.2.symm⟩
  have hwest : getLeaf (createLeaf size 15 root x y) (x - 8) y ≠ some size := by
    intro hsome
    rcases hcases _ _ _ hsome with ⟨hsame, _⟩ | ⟨_, hroot⟩
    · exact leafCoord_sub_eight_ne x hsame.1
    · exact hold _ _ _ hroot rfl
  have hnorth : getLeaf (createLeaf size 15 root x y) x (y - 8) ≠ some size := by
    intro hsome
    rcases hcases _ _ _ hsome with ⟨hsame, _⟩ | ⟨_, hroot⟩
    · exact leafCoord_sub_eight_ne y hsame.2
    · exact hold _ _ _ hroot rfl
  refine ⟨huniform, isNode_createLeaf h.uniform h.isNode .., ?_, ?_, ?_, ?_⟩
  · intro x' y' n hn
    rcases hcases _ _ _ hn with ⟨_, rfl⟩ | ⟨_, hroot⟩
    · omega
    · have hlt := h.numbered _ _ _ hroot
      omega
  · intro x' y' x'' y'' n hn hn'
    rcases hcases _ _ _ hn with ⟨hsame, rfl⟩ | ⟨_, hroot⟩
    · rcases hcases _ _ _ hn' with ⟨hsame', _⟩ | ⟨_, hroot'⟩
      · exact ⟨hsame'.1.trans hsame.1.symm, hsame'.2.trans hsame.2.symm⟩
      · exact absurd rfl (hold _ _ _ hroot')
    · rcases hcases _ _ _ hn' with ⟨_, rfl⟩ | ⟨_, hroot'⟩
      · exact absurd rfl (hold _ _ _ hroot)
      · exact h.distinct _ _ _ _ _ hroot hroot'
  · intro x' y' n hn
    rw [linkLeaf_leafS _ _ _ _ _ (by rw [hnew]) hnorth]
    rcases hcases _ _ _ hn with ⟨hsame, rfl⟩ | ⟨hother, hroot⟩
    · rw [if_pos rfl]
      refine getLeaf_congr huniform ⟨hsame.1.symm, ?_⟩
      rw [leafCoord_add_eight, leafCoord_add_eight, hsame.2]
    · rw [if_neg (hold _ _ _ hroot)]
      -- the new leaf is south of `n` if `n` is north of it
      have hiff : getLeaf (createLeaf size 15 root x y) x (y - 8) = some n ↔
          SameLeaf x y x' (y' + 8) :=
        (hfind _ _ _ _ n hroot hn).trans (and_congr_right' (leafCoord_add_eight_eq_iff y y').symm)
      rw [hget x' (y' + 8)]
      by_cases hsame : SameLeaf x y x' (y' + 8)
      · rw [if_pos hsame, if_pos (hiff.mpr hsame)]
      · rw [if_neg hsame, if_neg fun hsome => hsame (hiff.mp hsome), h.south _ _ _ hroot]
  · intro x' y' n hn
    rw [linkLeaf_leafE _ _ _ _ _ (by rw [hnew]) hwest]
    rcases hcases _ _ _ hn with ⟨hsame, rfl⟩ | ⟨hother, hroot⟩
    · rw [if_pos rfl]
      refine getLeaf_congr huniform ⟨?_, hsame.2.symm⟩
      rw [leafCoord_add_eight, leafCoord_add_eight, hsame.1]
    · rw [if_neg (hold _ _ _ hroot)]
      -- the new leaf is east of `n` if `n` is west of it
      have hiff : getLeaf (createLeaf size 15 root x y) (x - 8) y = some n ↔
          SameLeaf x y (x' + 8) y' :=
        (hfind _ _ _ _ n hroot hn).trans (and_congr_left' (leafCoord_add_eight_eq_iff x x').symm)
      rw [hget (x' + 8) y']
      by_cases hsame : SameLeaf x y (x' + 8) y'
      · rw [if_pos hsame, if_pos (hiff.mpr hsame)]
      · rw [if_neg hsame, if_neg fun hsome => hsame (hiff.mp hsome), h.east _ _ _ hroot]

/-- The leaf with the next number may be anything. -/
theorem Linked.update_size (l : QTreeLeafNode C) :
    Linked root (Function.update leaves size l) size := by
  have hold : ∀ x y n, getLeaf root x y = some n → Function.update leaves size l n = leaves n := by
    intro x y n hn
    have hlt := h.numbered x y n hn
    exact Function.update_of_ne (by omega) _ _
  refine ⟨h.uniform, h.isNode, h.numbered, h.distinct, ?_, ?_⟩
  · intro x y n hn
    rw [hold x y n hn]
    exact h.south x y n hn
  · intro x y n hn
    rw [hold x y n hn]
    exact h.east x y n hn

end NewLeaf

/-- `setTile` for a place in a leaf that exists. -/
theorem setTile_of_some {m : Map C} (h : Linked m.root m.leaves m.size) {pos : Position}
    (hz : pos.z.toNat < MAP_MAX_LAYERS) {n : Nat} (hn : m.getQTNode pos = some n) :
    m.setTile pos =
      { m with
        root := createLeaf m.size 15 m.root (pos.x.setWidth 32) (pos.y.setWidth 32)
        hasTile := Function.update m.hasTile pos true } := by
  have hold : getLeaf (createLeaf m.size 15 m.root (pos.x.setWidth 32) (pos.y.setWidth 32))
      (pos.x.setWidth 32) (pos.y.setWidth 32) ≠ some m.size := by
    rw [h.createLeaf_of_some hn]
    intro hsize
    exact Nat.lt_irrefl _ (h.numbered _ _ _ hsize)
  rw [setTile, if_neg (Nat.not_le.mpr hz)]
  dsimp only
  rw [if_neg hold]

/-- `setTile` for a place in a leaf that is made. -/
theorem setTile_of_none {m : Map C} (h : Linked m.root m.leaves m.size) {pos : Position}
    (hz : pos.z.toNat < MAP_MAX_LAYERS) (hnone : m.getQTNode pos = none) :
    m.setTile pos =
      { m with
        root := createLeaf m.size 15 m.root (pos.x.setWidth 32) (pos.y.setWidth 32)
        leaves := linkLeaf (createLeaf m.size 15 m.root (pos.x.setWidth 32) (pos.y.setWidth 32))
          m.size (pos.x.setWidth 32) (pos.y.setWidth 32) (Function.update m.leaves m.size {})
        size := m.size + 1
        hasTile := Function.update m.hasTile pos true } := by
  have hnew : getLeaf (createLeaf m.size 15 m.root (pos.x.setWidth 32) (pos.y.setWidth 32))
      (pos.x.setWidth 32) (pos.y.setWidth 32) = some m.size := by
    rw [h.createLeaf_of_none hnone, if_pos ⟨rfl, rfl⟩]
  rw [setTile, if_neg (Nat.not_le.mpr hz)]
  dsimp only
  rw [if_pos hnew]

/-- A tile is stored: the links stay those of the tree. -/
theorem Linked.setTile {m : Map C} (h : Linked m.root m.leaves m.size) (pos : Position) :
    Linked (m.setTile pos).root (m.setTile pos).leaves (m.setTile pos).size := by
  by_cases hz : MAP_MAX_LAYERS ≤ pos.z.toNat
  · rw [Map.setTile, if_pos hz]
    exact h
  · have hlt := Nat.not_le.mp hz
    cases hleaf : m.getQTNode pos with
    | none =>
        rw [setTile_of_none h hlt hleaf]
        exact (h.update_size {}).of_none hleaf (Function.update_self ..)
    | some n =>
        rw [setTile_of_some h hlt hleaf]
        exact h.of_some hleaf

end Map

end Infernum
