import Infernum.Condition.Account

/-!
# What can happen to the list of conditions

Whatever is done with conditions is a sequence of moves: a condition starts and
comes into the list, is applied again in its place, or leaves the list and ends;
a condition is put off for the scheduler or comes back from it; and nothing else
that counts. Every invariant is one about moves.
-/

namespace Infernum

open Equip (Skill SpecialSkill Stat Var)
open Condition

namespace Creature

/-- What the conditions in the list contribute to a variable. -/
def booked (s : Creature) (v : Var) : BitVec 32 :=
  (s.conditions.map fun r => contribution s.isPlayer (s.condition r) v).sum

/-- What a variable has that nobody accounts for. -/
def unbooked (s : Creature) (v : Var) : BitVec 32 := s.player.vars v - s.others v - s.booked v

/-- The conditions that wait for the scheduler. -/
def pending (s : Creature) : List Nat :=
  s.tasks.filterMap fun task =>
    match task with
    | .forceAddCondition r => some r
    | .forceRemoveCondition _ => none

/-- The list, the history of calls and the flag. -/
structure View where
  conditions : List Nat
  calls : List Call
  defenseCalls : List DefenseCall
  canUseDefense : Bool

def view (s : Creature) : View := ⟨s.conditions, s.calls, s.defenseCalls, s.canUseDefense⟩

/-- An object that is neither in the list nor waiting, and has not started. -/
structure Fresh (s : Creature) (r : Nat) : Prop where
  allocated : r < s.next
  loose : r ∉ s.conditions ++ s.pending
  unstarted : .started r ∉ s.calls

/-- What conditions that start, change or end leave alone. -/
structure Frame where
  isPlayer : Bool
  next : Nat
  others : Var → BitVec 32
  pending : List Nat
  inventory : Equip.Slot → Option Nat
  inventoryAbilities : Equip.Slot → Bool
  mounts : List Mount
  currentMount : BitVec 8
  isMounted : Bool

def frame (s : Creature) : Frame :=
  ⟨s.isPlayer, s.next, s.others, s.pending, s.player.inventory, s.player.inventoryAbilities,
    s.mounts, s.currentMount, s.isMounted⟩

/-- What no move changes of the equipment and the mount. -/
structure Gear (s s' : Creature) : Prop where
  inventory : s'.player.inventory = s.player.inventory
  inventoryAbilities : s'.player.inventoryAbilities = s.player.inventoryAbilities
  mounts : s'.mounts = s.mounts
  currentMount : s'.currentMount = s.currentMount

/-- The speed that the player loses by dismounting. -/
def dismountSpeed (s : Creature) : BitVec 32 :=
  match s.getMountByID s.currentMount with
  | some mount => if 0 < mount.speed.toInt then mount.speed else 0
  | none => 0

/-- The player stays mounted or not, or dismounts. -/
def Rode (s s' : Creature) : Prop :=
  s'.isMounted = s.isMounted ∧ s'.others = s.others ∨
    s.isMounted = true ∧ s'.isMounted = false ∧
      s'.others = Function.update s.others .speed (s.others .speed - s.dismountSpeed)

/-- What every move keeps. -/
structure Kept (s s' : Creature) : Prop where
  isPlayer : s'.isPlayer = s.isPlayer
  next : s.next ≤ s'.next
  unbooked : ∀ v, s'.unbooked v = s.unbooked v
  objects : ∀ r < s.next, (s'.condition r).key = (s.condition r).key ∧
    (s'.condition r).Fits = (s.condition r).Fits
  gear : Gear s s'
  riding : Rode s s'

/-- A move. The objects that start or are put off are among those that are allowed. -/
inductive Move (allowed : Nat → ConditionType → Prop) (s s' : Creature) : Prop
  | quiet (kept : Kept s s') (view : s'.view = s.view) (pending : s'.pending = s.pending)
      (defends : ∀ r < s.next, (s'.condition r).defends = (s.condition r).defends)
  /-- a condition is put off -/
  | defer (r : Nat) (kept : Kept s s') (view : s'.view = s.view)
      (pending : s'.pending = s.pending ++ [r])
      (defends : ∀ r < s.next, (s'.condition r).defends = (s.condition r).defends)
      (fresh : s.Fresh r) (fits : (s.condition r).Fits = true)
      (allow : allowed r (s.condition r).conditionType)
  /-- a condition that was put off comes back -/
  | resume (r : Nat) (kept : Kept s s') (view : s'.view = s.view)
      (pending : s.pending.Perm (r :: s'.pending))
      (defends : ∀ r < s.next, (s'.condition r).defends = (s.condition r).defends)
  /-- a condition starts and comes into the list -/
  | start (r : Nat) (kept : Kept s s')
      (view : s'.view =
        { conditions := s.conditions ++ [r]
          calls := s.calls ++ [.started r]
          defenseCalls := match (s.condition r).defends with
            | some disables => s.defenseCalls ++ [.started disables (s.othersDisable r)]
            | none => s.defenseCalls
          canUseDefense := match (s.condition r).defends with
            | some disables => !disables
            | none => s.canUseDefense })
      (pending : s'.pending = s.pending)
      (defends : ∀ r < s.next, (s'.condition r).defends = (s.condition r).defends)
      (fresh : s.Fresh r) (allow : allowed r (s.condition r).conditionType)
      (free : ∀ r' ∈ s.conditions, (s.condition r').key ≠ (s.condition r).key)
  /-- a condition in the list ends, is changed and is applied again -/
  | reapply (r : Nat) (disabled disables : Bool) (kept : Kept s s')
      (view : s'.view =
        { conditions := s.conditions
          calls := s.calls ++ [.ended r] ++ [.reapplied r]
          defenseCalls := s.defenseCalls ++ [.changed disabled disables (s.othersDisable r)] ++
            [.ended disabled (s.othersDisable r)]
          canUseDefense := if disabled then true else s.canUseDefense })
      (pending : s'.pending = s.pending)
      (before : (s.condition r).defends = some disabled)
      (after : (s'.condition r).defends = some disables)
      (defends : ∀ r' < s.next, r' ≠ r → (s'.condition r').defends = (s.condition r').defends)
      (mem : r ∈ s.conditions)
  /-- a condition leaves the list and ends -/
  | erase (r : Nat) (kept : Kept s s')
      (view : s'.view =
        { conditions := s.conditions.erase r
          calls := s.calls ++ [.ended r]
          defenseCalls := match (s.condition r).defends with
            | some disables => s.defenseCalls ++ [.ended disables (s.othersDisable r)]
            | none => s.defenseCalls
          canUseDefense := if (s.condition r).defends = some true then true else s.canUseDefense })
      (pending : s'.pending = s.pending)
      (defends : ∀ r < s.next, (s'.condition r).defends = (s.condition r).defends)
      (mem : r ∈ s.conditions)

/-- A sequence of moves. -/
abbrev Moves (allowed : Nat → ConditionType → Prop) : Creature → Creature → Prop :=
  Relation.ReflTransGen (Move allowed)

/-- What makes the moves possible: every object has one place at most, and every
condition in the list a key of its own. -/
structure Inv (s : Creature) : Prop where
  apart : (s.conditions ++ s.pending).Nodup
  allocated : ∀ r ∈ s.conditions ++ s.pending, r < s.next
  unique : ∀ r ∈ s.conditions, ∀ r' ∈ s.conditions,
    (s.condition r).key = (s.condition r').key → r = r'
  unstarted : ∀ r ∈ s.pending, .started r ∉ s.calls
  logged : ∀ r, .started r ∈ s.calls → r < s.next
  fits : ∀ r ∈ s.pending, (s.condition r).Fits = true

/-! ## The invariant -/

theorem Inv.nodup {s : Creature} (h : s.Inv) : s.conditions.Nodup :=
  (List.nodup_append.mp h.apart).1

theorem Inv.lt {s : Creature} (h : s.Inv) {r : Nat} (hr : r ∈ s.conditions) : r < s.next :=
  h.allocated r (List.mem_append_left _ hr)

theorem view_eq {s' : Creature} {v : View} (h : s'.view = v) :
    s'.conditions = v.conditions ∧ s'.calls = v.calls ∧ s'.defenseCalls = v.defenseCalls ∧
      s'.canUseDefense = v.canUseDefense := by
  subst h
  exact ⟨rfl, rfl, rfl, rfl⟩

section Step

variable {allowed : Nat → ConditionType → Prop} {s s' : Creature}

/-- The keys of the conditions in the list are still told apart. -/
theorem Inv.unique_kept (h : s.Inv) (hkept : Kept s s') : ∀ r ∈ s.conditions,
    ∀ r' ∈ s.conditions, (s'.condition r).key = (s'.condition r').key → r = r' := by
  intro r hr r' hr' hkey
  rw [(hkept.objects r (h.lt hr)).1, (hkept.objects r' (h.lt hr')).1] at hkey
  exact h.unique r hr r' hr' hkey

theorem Inv.fits_kept (h : s.Inv) (hkept : Kept s s') {r : Nat} (hr : r ∈ s.pending) :
    (s'.condition r).Fits = true := by
  rw [(hkept.objects r (h.allocated r (List.mem_append_right _ hr))).2]
  exact h.fits r hr

/-- A new object gets a place that no other has. -/
theorem Inv.place_fresh (h : s.Inv) (hkept : Kept s s') {r : Nat} (hfresh : s.Fresh r)
    (hperm : (s'.conditions ++ s'.pending).Perm (r :: (s.conditions ++ s.pending))) :
    (s'.conditions ++ s'.pending).Nodup ∧ ∀ r' ∈ s'.conditions ++ s'.pending, r' < s'.next := by
  refine ⟨?_, ?_⟩
  · rw [hperm.nodup_iff]
    exact List.nodup_cons.mpr ⟨hfresh.loose, h.apart⟩
  · intro r' hr'
    refine Nat.lt_of_lt_of_le ?_ hkept.next
    rcases List.mem_cons.mp (hperm.subset hr') with rfl | hr'
    · exact hfresh.allocated
    · exact h.allocated r' hr'

/-- Objects that have their places keep them. -/
theorem Inv.of_places (h : s.Inv) (hkept : Kept s s') (hsub : s'.conditions.Sublist s.conditions)
    (hpending : s'.pending = s.pending) (hcalls : ∀ r, .started r ∈ s'.calls → .started r ∈ s.calls) :
    s'.Inv := by
  have hplaces : (s'.conditions ++ s'.pending).Sublist (s.conditions ++ s.pending) := by
    rw [hpending]
    exact hsub.append_right _
  refine ⟨h.apart.sublist hplaces, ?_, ?_, ?_, ?_, ?_⟩
  · intro r hr
    exact Nat.lt_of_lt_of_le (h.allocated r (hplaces.subset hr)) hkept.next
  · intro r hr r' hr'
    exact h.unique_kept hkept r (hsub.subset hr) r' (hsub.subset hr')
  · intro r hr hstarted
    rw [hpending] at hr
    exact h.unstarted r hr (hcalls r hstarted)
  · intro r hr
    exact Nat.lt_of_lt_of_le (h.logged r (hcalls r hr)) hkept.next
  · intro r hr
    rw [hpending] at hr
    exact h.fits_kept hkept hr

/-- A move keeps the invariant. -/
theorem Move.inv (hmove : Move allowed s s') (h : s.Inv) : s'.Inv := by
  cases hmove with
  | quiet kept view pending defends =>
      obtain ⟨hconditions, hcalls, _⟩ := view_eq view
      refine h.of_places kept ?_ pending ?_
      · rw [hconditions]
        exact .refl _
      · rw [hcalls]
        exact fun _ => id
  | defer r kept view pending defends fresh fits allow =>
      obtain ⟨hconditions, hcalls, _⟩ := view_eq view
      have hperm : (s'.conditions ++ s'.pending).Perm (r :: (s.conditions ++ s.pending)) := by
        rw [hconditions, pending, ← List.append_assoc]
        exact List.perm_append_singleton _ _
      obtain ⟨hapart, hallocated⟩ := h.place_fresh kept fresh hperm
      refine ⟨hapart, hallocated, ?_, ?_, ?_, ?_⟩
      · rw [hconditions]
        exact h.unique_kept kept
      · intro r' hr'
        rw [hcalls]
        rw [pending] at hr'
        rcases List.mem_append.mp hr' with hr' | hr'
        · exact h.unstarted r' hr'
        · rw [List.mem_singleton.mp hr']
          exact fresh.unstarted
      · intro r' hr'
        rw [hcalls] at hr'
        exact Nat.lt_of_lt_of_le (h.logged r' hr') kept.next
      · intro r' hr'
        rw [pending] at hr'
        rcases List.mem_append.mp hr' with hr' | hr'
        · exact h.fits_kept kept hr'
        · rw [List.mem_singleton.mp hr', (kept.objects r fresh.allocated).2]
          exact fits
  | resume r kept view pending defends =>
      obtain ⟨hconditions, hcalls, _⟩ := view_eq view
      have hsub : ∀ r' ∈ s'.pending, r' ∈ s.pending := fun r' hr' =>
        pending.mem_iff.mpr (List.mem_cons_of_mem r hr')
      refine ⟨?_, ?_, ?_, ?_, ?_, ?_⟩
      · have hperm : (s.conditions ++ s.pending).Perm (r :: (s'.conditions ++ s'.pending)) := by
          rw [hconditions]
          exact (pending.append_left _).trans List.perm_middle
        exact (List.nodup_cons.mp (hperm.nodup_iff.mp h.apart)).2
      · intro r' hr'
        refine Nat.lt_of_lt_of_le (h.allocated r' ?_) kept.next
        rw [hconditions] at hr'
        rcases List.mem_append.mp hr' with hr' | hr'
        · exact List.mem_append_left _ hr'
        · exact List.mem_append_right _ (hsub r' hr')
      · rw [hconditions]
        exact h.unique_kept kept
      · intro r' hr'
        rw [hcalls]
        exact h.unstarted r' (hsub r' hr')
      · intro r' hr'
        rw [hcalls] at hr'
        exact Nat.lt_of_lt_of_le (h.logged r' hr') kept.next
      · intro r' hr'
        exact h.fits_kept kept (hsub r' hr')
  | start r kept view pending defends fresh allow free =>
      obtain ⟨hconditions, hcalls, _⟩ := view_eq view
      have hperm : (s'.conditions ++ s'.pending).Perm (r :: (s.conditions ++ s.pending)) := by
        rw [hconditions, pending, List.append_assoc]
        exact List.perm_middle
      obtain ⟨hapart, hallocated⟩ := h.place_fresh kept fresh hperm
      refine ⟨hapart, hallocated, ?_, ?_, ?_, ?_⟩
      · intro r1 h1 r2 h2 hkey
        rw [hconditions] at h1 h2
        -- nothing in the list has the key of the new one
        rcases List.mem_append.mp h1 with h1 | h1 <;> rcases List.mem_append.mp h2 with h2 | h2
        · exact h.unique_kept kept r1 h1 r2 h2 hkey
        · rw [List.mem_singleton.mp h2, (kept.objects r1 (h.lt h1)).1,
            (kept.objects r fresh.allocated).1] at hkey
          exact absurd hkey (free r1 h1)
        · rw [List.mem_singleton.mp h1, (kept.objects r2 (h.lt h2)).1,
            (kept.objects r fresh.allocated).1] at hkey
          exact absurd hkey.symm (free r2 h2)
        · rw [List.mem_singleton.mp h1, List.mem_singleton.mp h2]
      · intro r' hr' hstarted
        rw [pending] at hr'
        rw [hcalls] at hstarted
        rcases List.mem_append.mp hstarted with hstarted | hstarted
        · exact h.unstarted r' hr' hstarted
        · rw [Call.started.inj (List.mem_singleton.mp hstarted)] at hr'
          exact fresh.loose (List.mem_append_right _ hr')
      · intro r' hr'
        rw [hcalls] at hr'
        refine Nat.lt_of_lt_of_le ?_ kept.next
        rcases List.mem_append.mp hr' with hr' | hr'
        · exact h.logged r' hr'
        · rw [Call.started.inj (List.mem_singleton.mp hr')]
          exact fresh.allocated
      · intro r' hr'
        rw [pending] at hr'
        exact h.fits_kept kept hr'
  | reapply r disabled disables kept view pending before after defends mem =>
      obtain ⟨hconditions, hcalls, _⟩ := view_eq view
      refine h.of_places kept ?_ pending ?_
      · rw [hconditions]
      · intro r' hr'
        rw [hcalls] at hr'
        simpa using hr'
  | erase r kept view pending defends mem =>
      obtain ⟨hconditions, hcalls, _⟩ := view_eq view
      refine h.of_places kept ?_ pending ?_
      · rw [hconditions]
        exact List.erase_sublist
      · intro r' hr'
        rw [hcalls] at hr'
        simpa using hr'

/-- A sequence of moves keeps the invariant. -/
theorem Moves.inv (hmoves : Moves allowed s s') (h : s.Inv) : s'.Inv := by
  induction hmoves with
  | refl => exact h
  | tail _ hmove ih => exact hmove.inv ih

theorem Move.kept (hmove : Move allowed s s') : Kept s s' := by
  cases hmove with
  | quiet kept => exact kept
  | defer r kept => exact kept
  | resume r kept => exact kept
  | start r kept => exact kept
  | reapply r _ _ kept => exact kept
  | erase r kept => exact kept

theorem gear_of_frame (h : s'.frame = s.frame) : Gear s s' :=
  ⟨congrArg Frame.inventory h, congrArg Frame.inventoryAbilities h, congrArg Frame.mounts h,
    congrArg Frame.currentMount h⟩

theorem rode_of_frame (h : s'.frame = s.frame) : Rode s s' :=
  .inl ⟨congrArg Frame.isMounted h, congrArg Frame.others h⟩

theorem Gear.dismountSpeed (h : Gear s s') : s'.dismountSpeed = s.dismountSpeed := by
  unfold Creature.dismountSpeed getMountByID
  rw [h.mounts, h.currentMount]

theorem Rode.trans {s'' : Creature} (h : Rode s s') (h' : Rode s' s'') (hgear : Gear s s') :
    Rode s s'' := by
  rcases h with ⟨hmounted, hothers⟩ | ⟨hmounted, hdismounted, hothers⟩
  · rcases h' with ⟨hmounted', hothers'⟩ | ⟨hmounted', hdismounted', hothers'⟩
    · exact .inl ⟨hmounted'.trans hmounted, hothers'.trans hothers⟩
    · rw [hothers, hgear.dismountSpeed] at hothers'
      exact .inr ⟨hmounted ▸ hmounted', hdismounted', hothers'⟩
  · rcases h' with ⟨hmounted', hothers'⟩ | ⟨hmounted', _⟩
    · exact .inr ⟨hmounted, hmounted'.trans hdismounted, hothers'.trans hothers⟩
    · rw [hdismounted] at hmounted'
      cases hmounted'

theorem kept_of_frame (h : s'.frame = s.frame) (hunbooked : ∀ v, s'.unbooked v = s.unbooked v)
    (hobjects : ∀ r < s.next, (s'.condition r).key = (s.condition r).key ∧
      (s'.condition r).Fits = (s.condition r).Fits) : Kept s s' :=
  ⟨congrArg Frame.isPlayer h, Nat.le_of_eq (congrArg Frame.next h).symm, hunbooked, hobjects,
    gear_of_frame h, rode_of_frame h⟩

theorem Kept.refl (s : Creature) : Kept s s :=
  kept_of_frame rfl (fun _ => rfl) fun _ _ => ⟨rfl, rfl⟩

theorem Kept.trans {s'' : Creature} (h : Kept s s') (h' : Kept s' s'') : Kept s s'' := by
  refine ⟨h'.isPlayer.trans h.isPlayer, h.next.trans h'.next,
    fun v => (h'.unbooked v).trans (h.unbooked v), fun r hr => ?_,
    ⟨h'.gear.inventory.trans h.gear.inventory,
      h'.gear.inventoryAbilities.trans h.gear.inventoryAbilities,
      h'.gear.mounts.trans h.gear.mounts, h'.gear.currentMount.trans h.gear.currentMount⟩,
    h.riding.trans h'.riding h.gear⟩
  obtain ⟨hkey, hfits⟩ := h.objects r hr
  obtain ⟨hkey', hfits'⟩ := h'.objects r (Nat.lt_of_lt_of_le hr h.next)
  exact ⟨hkey'.trans hkey, hfits'.trans hfits⟩

theorem Moves.kept (hmoves : Moves allowed s s') : Kept s s' := by
  induction hmoves with
  | refl => exact .refl s
  | tail _ hmove ih => exact ih.trans hmove.kept

theorem Move.mono {allowed' : Nat → ConditionType → Prop}
    (hallowed : ∀ r type, allowed r type → allowed' r type) (hmove : Move allowed s s') :
    Move allowed' s s' := by
  cases hmove with
  | quiet kept view pending defends => exact .quiet kept view pending defends
  | defer r kept view pending defends fresh fits allow =>
      exact .defer r kept view pending defends fresh fits (hallowed _ _ allow)
  | resume r kept view pending defends => exact .resume r kept view pending defends
  | start r kept view pending defends fresh allow free =>
      exact .start r kept view pending defends fresh (hallowed _ _ allow) free
  | reapply r disabled disables kept view pending before after defends mem =>
      exact .reapply r disabled disables kept view pending before after defends mem
  | erase r kept view pending defends mem => exact .erase r kept view pending defends mem

theorem Moves.mono {allowed' : Nat → ConditionType → Prop}
    (hallowed : ∀ r type, allowed r type → allowed' r type) (hmoves : Moves allowed s s') :
    Moves allowed' s s' := by
  induction hmoves with
  | refl => exact .refl
  | tail _ hmove ih => exact ih.tail (hmove.mono hallowed)

/-- An object that must not move stays fresh. -/
theorem Move.fresh (hmove : Move allowed s s') {r : Nat} (h : s.Fresh r)
    (hr : ∀ type, ¬allowed r type) : s'.Fresh r := by
  have hlt := Nat.lt_of_lt_of_le h.allocated hmove.kept.next
  obtain ⟨_, hloose, hunstarted⟩ := h
  have hc : r ∉ s.conditions := fun hmem => hloose (List.mem_append_left _ hmem)
  have hp : r ∉ s.pending := fun hmem => hloose (List.mem_append_right _ hmem)
  cases hmove with
  | quiet kept view pending defends =>
      obtain ⟨hconditions, hcalls, _⟩ := view_eq view
      exact ⟨hlt, by rw [hconditions, pending]; exact hloose, by rw [hcalls]; exact hunstarted⟩
  | defer r' kept view pending defends fresh fits allow =>
      obtain ⟨hconditions, hcalls, _⟩ := view_eq view
      have hne : r ≠ r' := by
        rintro rfl
        exact hr _ allow
      refine ⟨hlt, ?_, ?_⟩
      · rw [hconditions, pending]
        simp only [List.mem_append, List.mem_singleton, not_or]
        exact ⟨hc, hp, hne⟩
      · rw [hcalls]
        exact hunstarted
  | resume r' kept view pending defends =>
      obtain ⟨hconditions, hcalls, _⟩ := view_eq view
      refine ⟨hlt, ?_, ?_⟩
      · rw [hconditions, List.mem_append]
        exact fun h => h.elim hc fun h => hp (pending.mem_iff.mpr (List.mem_cons_of_mem r' h))
      · rw [hcalls]
        exact hunstarted
  | start r' kept view pending defends fresh allow free =>
      obtain ⟨hconditions, hcalls, _⟩ := view_eq view
      have hne : r ≠ r' := by
        rintro rfl
        exact hr _ allow
      refine ⟨hlt, ?_, ?_⟩
      · rw [hconditions, pending]
        simp only [List.mem_append, List.mem_singleton, not_or]
        exact ⟨⟨hc, hne⟩, hp⟩
      · rw [hcalls]
        simp only [List.mem_append, List.mem_singleton, not_or]
        exact ⟨hunstarted, fun h => hne (Call.started.inj h)⟩
  | reapply r' disabled disables kept view pending before after defends mem =>
      obtain ⟨hconditions, hcalls, _⟩ := view_eq view
      refine ⟨hlt, ?_, ?_⟩
      · rw [hconditions, pending]
        exact hloose
      · rw [hcalls]
        simpa using hunstarted
  | erase r' kept view pending defends mem =>
      obtain ⟨hconditions, hcalls, _⟩ := view_eq view
      refine ⟨hlt, ?_, ?_⟩
      · rw [hconditions, pending, List.mem_append]
        exact fun h => h.elim (fun h => hc (List.mem_of_mem_erase h)) hp
      · rw [hcalls]
        simpa using hunstarted

theorem Moves.fresh (hmoves : Moves allowed s s') {r : Nat} (h : s.Fresh r)
    (hr : ∀ type, ¬allowed r type) : s'.Fresh r := by
  induction hmoves with
  | refl => exact h
  | tail _ hmove ih => exact hmove.fresh ih hr

/-- A key of a type that nothing new has stays free. -/
theorem Move.free (hmove : Move allowed s s') (hinv : s.Inv)
    {key : ConditionType × ConditionId × BitVec 32}
    (h : ∀ r ∈ s.conditions, (s.condition r).key ≠ key) (hkey : ∀ r, ¬allowed r key.1) :
    ∀ r ∈ s'.conditions, (s'.condition r).key ≠ key := by
  have hkeep : ∀ r ∈ s.conditions, (s'.condition r).key ≠ key := by
    intro r hr
    rw [(hmove.kept.objects r (hinv.lt hr)).1]
    exact h r hr
  cases hmove with
  | quiet kept view pending defends =>
      rw [(view_eq view).1]
      exact hkeep
  | defer r kept view pending defends fresh fits allow =>
      rw [(view_eq view).1]
      exact hkeep
  | resume r kept view pending defends =>
      rw [(view_eq view).1]
      exact hkeep
  | start r kept view pending defends fresh allow free =>
      rw [(view_eq view).1]
      intro r' hr'
      rcases List.mem_append.mp hr' with hr' | hr'
      · exact hkeep r' hr'
      · rw [List.mem_singleton.mp hr', (kept.objects r fresh.allocated).1]
        rintro rfl
        exact hkey r allow
  | reapply r disabled disables kept view pending before after defends mem =>
      rw [(view_eq view).1]
      exact hkeep
  | erase r kept view pending defends mem =>
      rw [(view_eq view).1]
      exact fun r' hr' => hkeep r' (List.mem_of_mem_erase hr')

theorem Moves.free (hmoves : Moves allowed s s') (hinv : s.Inv)
    {key : ConditionType × ConditionId × BitVec 32}
    (h : ∀ r ∈ s.conditions, (s.condition r).key ≠ key) (hkey : ∀ r, ¬allowed r key.1) :
    ∀ r ∈ s'.conditions, (s'.condition r).key ≠ key := by
  induction hmoves with
  | refl => exact h
  | tail hmoves hmove ih => exact hmove.free (Moves.inv hmoves hinv) ih hkey

end Step

end Creature

end Infernum
