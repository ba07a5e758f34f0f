import Infernum.Equip.Balance

/-!
# Runs of equipping and de-equipping

In every run whose calls of `updateAbilityConditions` are balanced, equipment
adds to the player what the ability-enabled slots were given, and nothing when
there is none. A ring that changes its type when it is put on and taken off
shows that other runs do not have the property.
-/

namespace Infernum.Equip

open Lib (held)

variable {w : World} {A : Account w} {s s' : State} {pending : List Worn} {slot : Slot}

/-- The guard: whatever the operation calls, the calls of
`updateAbilityConditions` are balanced. -/
def StaysBalanced (w : World) (s : State) (op : Op) : Prop :=
  ∀ fuel s', apply w fuel s op = some s' → AllBalanced w s'

/-- An empty slot is not enabled. -/
theorem Account.Inv.ne_of_empty (hinv : A.Inv s pending none) (hempty : s.player.inventory slot = none)
    {slot' : Slot} (hon : s.isItemAbilityEnabled slot' = true) : slot' ≠ slot := by
  rintro rfl
  obtain ⟨item, hslot, _⟩ := hinv.wears slot' hon (by simp)
  rw [hempty] at hslot
  exact absurd hslot (by simp)

/-- An operation keeps the invariant. -/
theorem apply_inv {fuel : Nat} {op : Op} (h : apply w fuel s op = some s')
    (hb : A.AllBalanced s') (hinv : A.Inv s pending none) : A.Inv s' pending none := by
  have hsound := exec_sound A fuel
  cases op with
  | newItem i =>
    cases h
    exact (hinv.alloc i).setElsewhere true fun _ => Nat.lt_succ_self _
  | putOn item slot =>
    unfold apply at h
    dsimp only at h
    split at h
    next hpos =>
      obtain ⟨hlt, hno, hempty⟩ := hpos
      have hmoved : A.Inv (s.setElsewhere item false) pending none :=
        hinv.setElsewhere false (by simp)
      refine postAddNotification_inv hsound h hb ?_
      refine hmoved.fill (getThingIndex_eq_none hno) hlt slot fun slot' hon _ => ⟨?_, by simp⟩
      exact hinv.ne_of_empty hempty hon
    next => exact absurd h (by simp)
  | takeOff slot kept =>
    unfold apply at h
    dsimp only at h
    split at h
    · exact absurd h (by simp)
    next item hslot =>
    have hlt := hinv.allocated slot item hslot
    have hclear : A.Inv ((s.setInventory slot none).setElsewhere item kept) pending (some slot) :=
      (hinv.clear slot).setElsewhere kept fun _ => hlt
    exact (postRemoveNotification_inv hsound h hb hclear (hinv.event hslot)).1
  | shift slot toSlot =>
    unfold apply at h
    dsimp only at h
    split at h
    · exact absurd h (by simp)
    next item hslot =>
    split at h
    next hempty =>
      split at h
      · exact absurd h (by simp)
      next s1 hrem =>
      have hb1 := (postAddNotification_extends (fun _ _ _ _ => exec_extends) h).balanced hb
      have hmove : A.Inv ((s.setInventory slot none).setInventory toSlot (some item)) pending
          (some slot) := by
        refine (hinv.clear slot).fill (fun slot' hslot' => ?_) (hinv.allocated slot item hslot)
          toSlot fun slot' hon hne => ⟨hinv.ne_of_empty hempty hon, hne⟩
        by_cases hs : slot' = slot
        · subst hs
          simp [State.setInventory] at hslot'
        · have hold : s.player.inventory slot' = some item := by
            simpa [State.setInventory, hs] using hslot'
          exact hs (hinv.apart slot' slot item hold hslot)
      have hinv1 := (postRemoveNotification_inv hsound hrem hb1 hmove (hinv.event hslot)).1
      exact postAddNotification_inv hsound h hb hinv1
    next => exact absurd h (by simp)
  | equip slot =>
    unfold apply at h
    dsimp only at h
    split at h
    · exact absurd h (by simp)
    · exact postAddNotification_inv hsound h hb hinv
  | deEquip slot =>
    unfold apply at h
    dsimp only at h
    split at h
    · exact absurd h (by simp)
    next item hslot =>
    exact (postRemoveNotification_inv hsound h hb (hinv.weaken _) (hinv.event hslot)).1
  | transformItem item newId => exact hsound.inv_fst h hb hinv
  | decay item => exact internalDecayItem_inv hsound h hb hinv
  | setLevel level => cases h; exact hinv.congr rfl rfl rfl rfl rfl rfl rfl rfl
  | setMagLevel magLevel => cases h; exact hinv.congr rfl rfl rfl rfl rfl rfl rfl rfl
  | setHealthMax healthMax => cases h; exact hinv.congr rfl rfl rfl rfl rfl rfl rfl rfl
  | setManaMax manaMax => cases h; exact hinv.congr rfl rfl rfl rfl rfl rfl rfl rfl
  | setVocation vocationId => cases h; exact hinv.congr rfl rfl rfl rfl rfl rfl rfl rfl

/-- The invariant of balanced runs. -/
theorem inv_inductive (w : World) : (system w).Inductive (StaysBalanced w)
    fun s => (Account.full w).Inv s [] none ∧ AllBalanced w s where
  init s hs := by
    have hledger : Ledger w s [] := by
      refine ⟨fun v => ?_, fun slot b hon => ?_, fun b hb => ?_⟩
      · have hoff : ∀ slot, s.player.inventoryAbilities slot = false := hs.enabled
        rw [hs.vars v, Lib.held_eq_zero hoff]
        simp
      · rw [hs.enabled slot] at hon
        exact absurd hon (by simp)
      · rw [hs.suppressions] at hb
        simp at hb
    refine ⟨⟨hledger, hs.apart, hs.allocated, hs.elsewhere, fun slot hon => ?_⟩, fun u hu => ?_⟩
    · rw [hs.enabled slot] at hon
      exact absurd hon (by simp)
    · rw [hs.updates] at hu
      exact absurd hu List.not_mem_nil
  step s op s' hinv hguard hstep := by
    obtain ⟨fuel, happly⟩ := hstep
    have hb := hguard fuel s' happly
    exact ⟨apply_inv (A := Account.full w) happly hb hinv.1, hb⟩

/-- In every state of a balanced run: each de-equip took away the amounts that
the slot was enabled with, every variable is the sum of what the enabled slots
were given and zero when there is none, and a condition is suppressed exactly
when an item in an enabled slot suppresses it. -/
theorem equipment_balanced (h : (system w).Reach (StaysBalanced w) s) :
    (∀ u ∈ s.updates, u.equip = false → ∀ v, u.now.bonus w v = u.worn.bonus w v) ∧
    (∀ v, s.player.vars v =
      held s.player.inventoryAbilities s.added fun it => it.bonus w v) ∧
    ((∀ slot, s.isItemAbilityEnabled slot = false) → ∀ v, s.player.vars v = 0) ∧
    ∀ b, s.player.conditionSuppressions.getLsbD b = true ↔
      ∃ slot item, s.isItemAbilityEnabled slot = true ∧ s.player.inventory slot = some item ∧
        (s.worth w item).suppressions.getLsbD b = true := by
  obtain ⟨hinv, hb⟩ := (inv_inductive w).invariant h
  have hvars : ∀ v, s.player.vars v =
      held s.player.inventoryAbilities s.added fun it => it.bonus w v := by
    intro v
    rw [hinv.straight.vars v]
    simp
  -- the item of an enabled slot suppresses what the slot was enabled with
  have hworn : ∀ slot, s.isItemAbilityEnabled slot = true →
      ∃ item, s.player.inventory slot = some item ∧
        (s.worth w item).suppressions = (s.added slot).suppressions := by
    intro slot hon
    obtain ⟨item, hslot, hval, _⟩ := hinv.wears slot hon (by simp)
    refine ⟨item, hslot, ?_⟩
    unfold Worn.suppressions State.worth
    rw [hval]
  refine ⟨fun u hu hde v => (hb u hu).bonus hde v, hvars, fun hoff v => ?_, fun b => ⟨?_, ?_⟩⟩
  · have hoff' : ∀ slot, s.player.inventoryAbilities slot = false := hoff
    rw [hvars v, Lib.held_eq_zero hoff']
  · intro hset
    rcases hinv.straight.source b hset with ⟨slot, hon, hbit⟩ | ⟨it, hit, _⟩
    · obtain ⟨item, hslot, hsup⟩ := hworn slot hon
      exact ⟨slot, item, hon, hslot, by rw [hsup]; exact hbit⟩
    · exact absurd hit List.not_mem_nil
  · rintro ⟨slot, item, hon, hslot, hbit⟩
    obtain ⟨item', hslot', hsup⟩ := hworn slot hon
    rw [hslot] at hslot'
    rw [Option.some.inj hslot', hsup] at hbit
    exact hinv.straight.suppressed slot b hon hbit

/-! ## Boots that stay what they are -/

/-- Boots of haste, which give speed, with events for the feet. -/
def bootsWorld : World where
  itemType id := if id = 2195 then { id := 2195 } else {}
  addUniqueItem _ := true
  getNameByGuid _ := []
  abilities id := if id = 2195 then some { speed := 80 } else none
  stopTime _ := false
  transformEquipTo _ := 0
  transformDeEquipTo _ := 0
  equipEvent id slot := if id = 2195 ∧ slot = .feet then some {} else none
  deEquipEvent id slot := id = 2195 ∧ slot = .feet
  percentOfInt base value := BitVec.ofInt 32 ((base.toInt * value.toInt).tdiv 100)
  percentOfUInt base value := BitVec.ofInt 32 ((base.toNat * value.toInt).tdiv 100)

/-- A player with nothing. -/
def nothing : State where
  player := {}
  item _ := { id := 0 }
  elsewhere _ := false
  next := 0
  added _ := ⟨fun _ => 0, 0, 0, 0, 0⟩
  updates := []

theorem start_nothing : Start nothing where
  enabled _ := rfl
  vars _ := rfl
  suppressions := rfl
  apart _ _ _ h := absurd h (by simp [nothing])
  allocated _ _ h := absurd h (by simp [nothing])
  elsewhere _ h := absurd h (by simp [nothing])
  updates := rfl

/-- The state after an operation that has a result. -/
def after (w : World) (s : State) (op : Op) : State := (apply w 6 s op).getD s

def bootsBought : State := after bootsWorld nothing (.newItem { id := 2195 })
def bootsOn : State := after bootsWorld bootsBought (.putOn 0 .feet)
def bootsRicher : State := after bootsWorld bootsOn (.setHealthMax 2000)
def bootsOff : State := after bootsWorld bootsRicher (.takeOff .feet true)

/-- Boots put on and taken off with another maximum health. -/
theorem reach_bootsOff : (system bootsWorld).Reach (StaysBalanced bootsWorld) bootsOff := by
  have hon : AllBalanced bootsWorld bootsOn := by
    intro u hu
    rw [List.mem_singleton.mp hu]
    exact ⟨rfl, rfl⟩
  have hoff : AllBalanced bootsWorld bootsOff := by
    intro u hu
    rcases List.mem_cons.mp hu with rfl | hu
    · refine ⟨rfl, ?_, fun slot hon => ?_⟩
      · refine ⟨fun _ => rfl, fun _ => rfl, rfl, fun _ => rfl, fun _ _ _ => rfl,
          fun _ _ _ => rfl, fun s type htype hne => ?_, rfl, rfl⟩
        -- boots have no percentages
        cases s <;> cases htype <;> exact absurd rfl hne
      · cases slot <;> exact absurd hon (by decide)
    · exact hon u hu
  have hbought : (system bootsWorld).Reach (StaysBalanced bootsWorld) bootsBought := by
    refine .next (a := .newItem { id := 2195 }) (.start start_nothing) ?_ ⟨6, rfl⟩
    intro fuel s' h
    cases h
    exact fun u hu => absurd hu List.not_mem_nil
  have hput : (system bootsWorld).Reach (StaysBalanced bootsWorld) bootsOn := by
    refine .next (a := .putOn 0 .feet) hbought ?_ ⟨6, rfl⟩
    intro fuel s' h
    cases fuel with
    | zero =>
      have hnone : apply bootsWorld 0 bootsBought (.putOn 0 .feet) = none := rfl
      rw [hnone] at h
      cases h
    | succ fuel =>
      have heq : some bootsOn = some s' := h
      rw [← Option.some.inj heq]
      exact hon
  have hricher : (system bootsWorld).Reach (StaysBalanced bootsWorld) bootsRicher := by
    refine .next (a := .setHealthMax 2000) hput ?_ ⟨6, rfl⟩
    intro fuel s' h
    cases h
    exact hon
  refine .next (a := .takeOff .feet true) hricher ?_ ⟨6, rfl⟩
  intro fuel s' h
  cases fuel with
  | zero =>
    have hnone : apply bootsWorld 0 bootsRicher (.takeOff .feet true) = none := rfl
    rw [hnone] at h
    cases h
  | succ fuel =>
    have heq : some bootsOff = some s' := h
    rw [← Option.some.inj heq]
    exact hoff

theorem equipment_balanced_bootsOff :
    bootsOn.player.vars .speed = 80 ∧ bootsOff.player.vars .speed = 0 :=
  ⟨by decide, (equipment_balanced reach_bootsOff).2.2.1 (fun slot => by cases slot <;> decide)
    .speed⟩

/-! ## A helmet with a flexible skill -/

/-- The steel helmet, which gives two levels of whatever skill the vocation
fights with, and events for the head. -/
def helmetWorld : World where
  itemType id := if id = 2457 then { id := 2457, moveable := true } else {}
  addUniqueItem _ := true
  getNameByGuid _ := []
  abilities id := if id = 2457 then some { flexSkill := 2 } else none
  stopTime _ := false
  transformEquipTo _ := 0
  transformDeEquipTo _ := 0
  equipEvent id slot := if id = 2457 ∧ slot = .head then some {} else none
  deEquipEvent id _ := id = 2457
  percentOfInt base value := BitVec.ofInt 32 ((base.toInt * value.toInt).tdiv 100)
  percentOfUInt base value := BitVec.ofInt 32 ((base.toNat * value.toInt).tdiv 100)

def helmetBought : State := after helmetWorld nothing (.newItem { id := 2457 })
def helmetOn : State := after helmetWorld helmetBought (.putOn 0 .head)
def vocationChosen : State := after helmetWorld helmetOn (.setVocation 4)
def helmetOff : State := after helmetWorld vocationChosen (.takeOff .head true)

/-- Put on without a vocation, the helmet gives nothing; taken off by a
sharpshooter, it costs two levels of distance fighting. -/
theorem helmet_takes_more :
    ¬ ∀ s, (system helmetWorld).Reachable s →
      (∀ slot, s.isItemAbilityEnabled slot = false) → ∀ v, s.player.vars v = 0 := by
  intro hclaim
  have hreach : (system helmetWorld).Reachable helmetOff :=
    .next (a := .takeOff .head true) (.next (a := .setVocation 4) (.next (a := .putOn 0 .head)
      (.next (a := .newItem { id := 2457 }) (.start start_nothing) trivial ⟨6, rfl⟩)
      trivial ⟨6, rfl⟩) trivial ⟨6, rfl⟩) trivial ⟨6, rfl⟩
  have hzero := hclaim helmetOff hreach (fun slot => by cases slot <;> decide) (.skill .distance)
  have htaken : helmetOff.player.vars (.skill .distance) = -2 := by decide
  rw [htaken] at hzero
  exact absurd hzero (by decide)

end Infernum.Equip
