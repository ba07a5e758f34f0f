import Infernum.Equip.Equip
import Infernum.Lib.Holdings
import Mathlib.Data.BitVec
import Mathlib.Algebra.BigOperators.Group.List.Basic
import Mathlib.Tactic.Abel

/-!
# The equipment's account

What the ability-enabled slots added is booked per slot; between the moment a
slot is disabled and the moment its amounts are taken back they are pending.
Every variable is the sum of both, and every suppressed condition belongs to
one of them.
-/

namespace Infernum.Equip

open Lib (held)

variable {w : World}

/-! ## Amounts -/

theorem addVars_apply (vars : Var → BitVec 32) (ms : List (Var × BitVec 32)) (v : Var) :
    State.addVars vars ms v = vars v + ((ms.filter fun m => m.1 = v).map Prod.snd).sum := by
  induction ms generalizing vars with
  | nil => simp [State.addVars]
  | cons m ms ih =>
    show State.addVars (Function.update vars m.1 (vars m.1 + m.2)) ms v = _
    rw [ih]
    by_cases hm : m.1 = v
    · subst hm
      simp [add_assoc]
    · rw [Function.update_of_ne (Ne.symm hm), List.filter_cons_of_neg (by simpa using hm)]

namespace Worn

/-- Narrowing commutes with the sign. -/
theorem signed_false (value : BitVec 64) : signed false value = -signed true value := by
  simp only [signed, Bool.false_eq_true, if_false, if_true]
  exact BitVec.setWidth_neg_of_le (by omega)

/-- De-equipping makes the changes of equipping with the other sign. -/
theorem modifiers_false (it : Worn) :
    it.modifiers w false = (it.modifiers w true).map fun m => (m.1, -m.2) := by
  have hskill : it.skillModifiers false = (it.skillModifiers true).map fun m => (m.1, -m.2) := by
    unfold skillModifiers
    rw [List.map_filterMap]
    congr 1
    funext s
    split <;> simp [signed_false]
  have hspecial : it.specialSkillModifiers false =
      (it.specialSkillModifiers true).map fun m => (m.1, -m.2) := by
    unfold specialSkillModifiers
    rw [List.map_filterMap]
    congr 1
    funext s
    split <;> simp [signed_false]
  have hflex : it.flexModifiers false = (it.flexModifiers true).map fun m => (m.1, -m.2) := by
    unfold flexModifiers
    split
    · simp [signed_false]
    · rfl
  have hstat : it.statModifiers false = (it.statModifiers true).map fun m => (m.1, -m.2) := by
    unfold statModifiers
    rw [List.map_filterMap]
    congr 1
    funext s
    cases statToAbility s with
    | none => rfl
    | some type => dsimp only; split <;> simp [signed_false]
  have hpercent : it.percentModifiers w false =
      (it.percentModifiers w true).map fun m => (m.1, -m.2) := by
    unfold percentModifiers
    rw [List.map_filterMap]
    congr 1
    funext s
    cases statToAbilityPercent s with
    | none => rfl
    | some type => dsimp only; split <;> simp
  have hspeed : it.speedModifiers false = (it.speedModifiers true).map fun m => (m.1, -m.2) := by
    unfold speedModifiers
    dsimp only
    split <;> simp
  simp only [modifiers, List.map_append, hskill, hspecial, hflex, hstat, hpercent, hspeed]

/-- Equipping adds the bonus. -/
theorem addVars_true (it : Worn) (vars : Var → BitVec 32) (v : Var) :
    State.addVars vars (it.modifiers w true) v = vars v + it.bonus w v :=
  addVars_apply vars _ v

/-- De-equipping takes it away. -/
theorem addVars_false (it : Worn) (vars : Var → BitVec 32) (v : Var) :
    State.addVars vars (it.modifiers w false) v = vars v - it.bonus w v := by
  have hsum : (((it.modifiers w false).filter fun m => m.1 = v).map Prod.snd).sum =
      -it.bonus w v := by
    rw [modifiers_false, bonus, List.sum_neg, List.filter_map, List.map_map, List.map_map]
    rfl
  rw [addVars_apply, hsum, sub_eq_add_neg]

/-- Two readings of an item give the same amounts: the abilities agree, and so
do the base values that they are applied to. -/
structure Agrees (w : World) (now worn : Worn) : Prop where
  skills : ∀ s, now.value (skillToAbility s) = worn.value (skillToAbility s)
  specialSkills : ∀ s,
    now.value (specialSkillToAbility s) = worn.value (specialSkillToAbility s)
  flexSkill : now.value .flexSkill = worn.value .flexSkill
  /-- the vocation only counts for an item with a flexible skill -/
  vocation : 0 < (worn.value .flexSkill).toInt →
    flexVars now.vocationId = flexVars worn.vocationId
  stats : ∀ s type, statToAbility s = some type → now.value type = worn.value type
  percents : ∀ s type, statToAbilityPercent s = some type →
    now.value type = worn.value type
  /-- the percentage of the base value now and then -/
  changes : ∀ s type, statToAbilityPercent s = some type → worn.value type ≠ 0 →
    now.percentChange w s (worn.value type) = worn.percentChange w s (worn.value type)
  speed : now.value .speed = worn.value .speed
  suppressions : now.suppressions = worn.suppressions

theorem Agrees.modifiers {now worn : Worn} (h : Agrees w now worn) :
    now.modifiers w true = worn.modifiers w true := by
  have hskill : now.skillModifiers true = worn.skillModifiers true := by
    simp only [skillModifiers, h.skills]
  have hspecial : now.specialSkillModifiers true = worn.specialSkillModifiers true := by
    simp only [specialSkillModifiers, h.specialSkills]
  have hflex : now.flexModifiers true = worn.flexModifiers true := by
    unfold flexModifiers
    rw [h.flexSkill]
    split
    · next hpos => rw [h.vocation hpos]
    · rfl
  have hstat : now.statModifiers true = worn.statModifiers true := by
    unfold statModifiers
    congr 1
    funext s
    cases hs : statToAbility s with
    | none => rfl
    | some type => simp only [h.stats s type hs]
  have hpercent : now.percentModifiers w true = worn.percentModifiers w true := by
    unfold percentModifiers
    congr 1
    funext s
    cases hs : statToAbilityPercent s with
    | none => rfl
    | some type =>
      simp only [h.percents s type hs]
      split
      · rfl
      · next hne => rw [h.changes s type hs hne]
  have hspeed : now.speedModifiers true = worn.speedModifiers true := by
    simp only [speedModifiers, h.speed]
  simp only [Worn.modifiers, hskill, hspecial, hflex, hstat, hpercent, hspeed]

theorem Agrees.bonus {now worn : Worn} (h : Agrees w now worn) (v : Var) :
    now.bonus w v = worn.bonus w v := by
  rw [Worn.bonus, h.modifiers, Worn.bonus]

end Worn

/-! ## The account -/

/-- A variable is what it was based on, what the ability-enabled slots were given, and
the removals under way. -/
def Booked (w : World) (v : Var) (base : BitVec 32) (s : State) (pending : List Worn) : Prop :=
  s.player.vars v = base +
    (held s.player.inventoryAbilities s.added (fun it => it.bonus w v) +
      (pending.map fun it => it.bonus w v).sum)

namespace Booked

variable {v : Var} {base : BitVec 32} {s : State} {pending : List Worn} {item : Nat} {slot : Slot}

/-- Equipping books the amount on the slot. -/
theorem equip (h : Booked w v base s pending) (hoff : s.isItemAbilityEnabled slot = false)
    (worn : Worn) : Booked w v base (s.updateAbilityConditions w item slot true worn) pending := by
  show State.addVars s.player.vars ((s.worth w item).modifiers w true) v =
    base + (held (Function.update s.player.inventoryAbilities slot true)
      (Function.update s.added slot (s.worth w item)) _ + _)
  have hoff' : s.player.inventoryAbilities slot = false := hoff
  rw [Worn.addVars_true, show s.player.vars v = _ from h, Lib.held_fill hoff']
  abel

/-- Disabling a slot leaves its amount pending. -/
theorem disable (h : Booked w v base s pending) (hon : s.isItemAbilityEnabled slot = true) :
    Booked w v base (s.setItemAbility slot false) (s.added slot :: pending) := by
  show s.player.vars v =
    base + (held (Function.update s.player.inventoryAbilities slot false) s.added _ + _)
  have hon' : s.player.inventoryAbilities slot = true := hon
  rw [show s.player.vars v = _ from h, Lib.held_empty hon', List.map_cons, List.sum_cons]
  abel

/-- De-equipping settles what was pending, when the item is worth what it was. -/
theorem takeBack {worn : Worn} (h : Booked w v base s (worn :: pending))
    (hoff : s.isItemAbilityEnabled slot = false)
    (hbonus : (s.worth w item).bonus w v = worn.bonus w v) :
    Booked w v base (s.updateAbilityConditions w item slot false worn) pending := by
  have habil : Function.update s.player.inventoryAbilities slot false =
      s.player.inventoryAbilities := by
    conv_lhs => rw [← show s.player.inventoryAbilities slot = false from hoff]
    exact Function.update_eq_self _ _
  show State.addVars s.player.vars ((s.worth w item).modifiers w false) v =
    base + (held (Function.update s.player.inventoryAbilities slot false) s.added _ + _)
  rw [Worn.addVars_false, show s.player.vars v = _ from h, habil, hbonus, List.map_cons,
    List.sum_cons]
  abel

end Booked

/-- The state's variables and suppressed conditions are those of the
ability-enabled slots and of the removals under way. -/
structure Ledger (w : World) (s : State) (pending : List Worn) : Prop where
  vars : ∀ v, s.player.vars v =
    held s.player.inventoryAbilities s.added (fun it => it.bonus w v) +
      (pending.map fun it => it.bonus w v).sum
  suppressed : ∀ slot b, s.isItemAbilityEnabled slot = true →
    (s.added slot).suppressions.getLsbD b = true →
    s.player.conditionSuppressions.getLsbD b = true
  source : ∀ b, s.player.conditionSuppressions.getLsbD b = true →
    (∃ slot, s.isItemAbilityEnabled slot = true ∧
      (s.added slot).suppressions.getLsbD b = true) ∨
    ∃ it ∈ pending, it.suppressions.getLsbD b = true

namespace Ledger

variable {s : State} {pending : List Worn} {item : Nat} {slot : Slot}

theorem booked (h : Ledger w s pending) (v : Var) : Booked w v 0 s pending :=
  (h.vars v).trans (zero_add _).symm

/-- The account reads only these fields. -/
theorem congr {s' : State} (h : Ledger w s pending)
    (hvars : s'.player.vars = s.player.vars)
    (hcond : s'.player.conditionSuppressions = s.player.conditionSuppressions)
    (habil : s'.player.inventoryAbilities = s.player.inventoryAbilities)
    (hadded : s'.added = s.added) : Ledger w s' pending where
  vars v := by
    rw [hvars, habil, hadded]
    exact h.vars v
  suppressed slot b := by
    show s'.player.inventoryAbilities slot = true → _
    rw [habil, hcond, hadded]
    exact h.suppressed slot b
  source b := by
    show s'.player.conditionSuppressions.getLsbD b = true →
      (∃ slot, s'.player.inventoryAbilities slot = true ∧ _) ∨ _
    rw [habil, hcond, hadded]
    exact h.source b

/-- Equipping books the amounts on the slot. -/
theorem equip (h : Ledger w s pending) (hoff : s.isItemAbilityEnabled slot = false)
    (worn : Worn) : Ledger w (s.updateAbilityConditions w item slot true worn) pending where
  vars v := ((h.booked v).equip hoff worn).trans (zero_add _)
  suppressed slot' b hon hb := by
    show (s.player.conditionSuppressions ||| (s.worth w item).suppressions).getLsbD b = true
    rw [BitVec.getLsbD_or, Bool.or_eq_true]
    by_cases hs : slot' = slot
    · subst hs
      right
      simpa [State.updateAbilityConditions] using hb
    · left
      refine h.suppressed slot' b ?_ ?_
      · simpa [State.updateAbilityConditions, State.isItemAbilityEnabled, State.setItemAbility,
          hs] using hon
      · simpa [State.updateAbilityConditions, hs] using hb
  source b hb := by
    have hor : (s.player.conditionSuppressions ||| (s.worth w item).suppressions).getLsbD b =
      true := hb
    rw [BitVec.getLsbD_or, Bool.or_eq_true] at hor
    rcases hor with hold | hnew
    · rcases h.source b hold with ⟨slot', hon, hb'⟩ | hpend
      · have hne : slot' ≠ slot := by
          rintro rfl
          rw [hoff] at hon
          exact Bool.false_ne_true hon
        left
        refine ⟨slot', ?_, ?_⟩
        · simpa [State.updateAbilityConditions, State.isItemAbilityEnabled,
            State.setItemAbility, hne] using hon
        · simpa [State.updateAbilityConditions, hne] using hb'
      · exact .inr hpend
    · left
      refine ⟨slot, ?_, ?_⟩
      · simp [State.updateAbilityConditions, State.isItemAbilityEnabled, State.setItemAbility]
      · simpa [State.updateAbilityConditions] using hnew

/-- Disabling a slot leaves its amounts pending. -/
theorem disable (h : Ledger w s pending) (hon : s.isItemAbilityEnabled slot = true) :
    Ledger w (s.setItemAbility slot false) (s.added slot :: pending) where
  vars v := ((h.booked v).disable hon).trans (zero_add _)
  suppressed slot' b hon' hb := by
    refine h.suppressed slot' b ?_ hb
    by_cases hs : slot' = slot
    · rw [hs]
      exact hon
    · simpa [State.isItemAbilityEnabled, State.setItemAbility, hs] using hon'
  source b hb := by
    rcases h.source b hb with ⟨slot', hon', hb'⟩ | ⟨it, hit, hb'⟩
    · by_cases hs : slot' = slot
      · subst hs
        exact .inr ⟨_, List.mem_cons_self, hb'⟩
      · left
        refine ⟨slot', ?_, hb'⟩
        simpa [State.isItemAbilityEnabled, State.setItemAbility, hs] using hon'
    · exact .inr ⟨it, List.mem_cons_of_mem _ hit, hb'⟩

/-- De-equipping settles what was pending, when the item is worth what it was
and no other slot suppresses the same conditions. -/
theorem takeBack {worn : Worn} (h : Ledger w s (worn :: pending))
    (hoff : s.isItemAbilityEnabled slot = false) (hagree : (s.worth w item).Agrees w worn)
    (hothers : ∀ slot', s.isItemAbilityEnabled slot' = true →
      (s.worth w item).suppressions &&& (s.added slot').suppressions = 0) :
    Ledger w (s.updateAbilityConditions w item slot false worn) pending := by
  have habil : Function.update s.player.inventoryAbilities slot false =
      s.player.inventoryAbilities := by
    conv_lhs => rw [← show s.player.inventoryAbilities slot = false from hoff]
    exact Function.update_eq_self _ _
  have hafter : ∀ b, ((s.updateAbilityConditions w item slot false
      worn).player.conditionSuppressions).getLsbD b = true ↔
      s.player.conditionSuppressions.getLsbD b = true ∧
        worn.suppressions.getLsbD b = false := by
    intro b
    show (s.player.conditionSuppressions &&& ~~~(s.worth w item).suppressions).getLsbD b = true ↔ _
    rw [BitVec.getLsbD_and, BitVec.getLsbD_not, hagree.suppressions]
    constructor
    · intro hb
      simp only [Bool.and_eq_true, decide_eq_true_eq, Bool.not_eq_true'] at hb
      exact ⟨hb.1, hb.2.2⟩
    · rintro ⟨hb, hnot⟩
      rw [hb, hnot, decide_eq_true (BitVec.lt_of_getLsbD hb)]
      rfl
  refine ⟨fun v => ?_, fun slot' b hon hb => ?_, fun b hb => ?_⟩
  · exact ((h.booked v).takeBack hoff (hagree.bonus v)).trans (zero_add _)
  · have hon' : s.isItemAbilityEnabled slot' = true := by
      have : Function.update s.player.inventoryAbilities slot false slot' = true := hon
      rwa [habil] at this
    rw [hafter]
    refine ⟨h.suppressed slot' b hon' hb, ?_⟩
    -- a bit of another enabled slot is not among those of the item
    have hzero := congrArg (fun x => BitVec.getLsbD x b) (hothers slot' hon')
    simp only [BitVec.getLsbD_and] at hzero
    rw [show (s.added slot').suppressions.getLsbD b = true from hb, Bool.and_true,
      hagree.suppressions] at hzero
    exact hzero.trans BitVec.getLsbD_zero
  · rw [hafter] at hb
    rcases h.source b hb.1 with ⟨slot', hon, hb'⟩ | ⟨it, hit, hb'⟩
    · refine .inl ⟨slot', ?_, hb'⟩
      show Function.update s.player.inventoryAbilities slot false slot' = true
      rw [habil]
      exact hon
    · rcases List.mem_cons.mp hit with rfl | hit
      · rw [hb.2] at hb'
        exact absurd hb' Bool.false_ne_true
      · exact .inr ⟨it, hit, hb'⟩

end Ledger

/-! ## Balanced calls -/

/-- A call of `updateAbilityConditions` keeps the account straight. Equipping:
the item lies in the slot, and its type has a de-equip event to undo it.
De-equipping: the slot has not been enabled again meanwhile, the item is worth
what it was when the slot was enabled, and no item in another ability-enabled
slot suppresses one of its conditions. -/
def Update.Balanced (w : World) (u : Update) : Prop :=
  if u.equip then u.inSlot = true ∧ u.deEquipEvent = true
  else u.enabled u.slot = false ∧ u.now.Agrees w u.worn ∧
    ∀ slot, u.enabled slot = true → u.now.suppressions &&& (u.added slot).suppressions = 0

/-- A balanced de-equip takes away what the slot was given. -/
theorem Update.Balanced.bonus {u : Update} (h : u.Balanced w) (hu : u.equip = false) (v : Var) :
    u.now.bonus w v = u.worn.bonus w v := by
  rw [Update.Balanced, hu, if_neg (by simp)] at h
  exact h.2.1.bonus v

end Infernum.Equip
