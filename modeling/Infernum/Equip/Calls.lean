import Infernum.Equip.Equip
import Mathlib.Data.List.Infix

/-!
# What any call leaves alone

Whatever calls are made inside one another, the history only grows, and a slot
is only emptied or given a new item: no call puts an item that was there before
into a slot.
-/

namespace Infernum.Equip

variable {w : World}

/-- The change from one state to a later one that every call keeps to. -/
structure Extends (s s' : State) : Prop where
  updates : s.updates <:+ s'.updates
  next : s.next ≤ s'.next
  inventory : ∀ slot item, s'.player.inventory slot = some item →
    s.player.inventory slot = some item ∨ s.next ≤ item

namespace Extends

theorem refl (s : State) : Extends s s where
  updates := List.suffix_refl _
  next := Nat.le_refl _
  inventory _ _ h := .inl h

theorem trans {s s' s'' : State} (h : Extends s s') (h' : Extends s' s'') : Extends s s'' where
  updates := h.updates.trans h'.updates
  next := Nat.le_trans h.next h'.next
  inventory slot item hslot := by
    rcases h'.inventory slot item hslot with hold | hnew
    · exact h.inventory slot item hold
    · have hnext := h.next
      right
      omega

/-- Nothing that the change is about is touched. -/
theorem of_eq {s s' : State} (hupd : s'.updates = s.updates) (hnext : s'.next = s.next)
    (hinv : s'.player.inventory = s.player.inventory) : Extends s s' where
  updates := by rw [hupd]
  next := by rw [hnext]
  inventory slot item h := by
    rw [hinv] at h
    exact .inl h

variable (s : State) (item : Nat) (slot : Slot)

theorem setItem (i : Item) : Extends s (s.setItem item i) := of_eq rfl rfl rfl

theorem setElsewhere (b : Bool) : Extends s (s.setElsewhere item b) := of_eq rfl rfl rfl

theorem setItemAbility (b : Bool) : Extends s (s.setItemAbility slot b) := of_eq rfl rfl rfl

theorem updateAbilityConditions (equip : Bool) (worn : Worn) :
    Extends s (s.updateAbilityConditions w item slot equip worn) where
  updates := List.suffix_cons _ _
  next := Nat.le_refl _
  inventory _ _ h := .inl h

theorem removeThing (place : Option Slot) : Extends s (removeThing s place item) := by
  cases place with
  | none => exact setElsewhere s item false
  | some slot =>
    refine ⟨List.suffix_refl _, Nat.le_refl _, ?_⟩
    intro slot' item' h
    left
    by_cases hs : slot' = slot
    · subst hs
      simp [Equip.removeThing, State.setInventory] at h
    · simpa [Equip.removeThing, State.setInventory, hs] using h

theorem addThing (place : Option Slot) : Extends s (addThing s place item) := by
  cases place with
  | none => exact setElsewhere s item true
  | some slot => exact refl s

theorem updateThing (itemId count : BitVec 16) : Extends s (updateThing w s item itemId count) := by
  unfold Equip.updateThing
  split
  · exact refl s
  · exact setItem s item _

/-- A new item is made and takes a place. -/
theorem replaceThing (place : Option Slot) (i : Item) :
    Extends s (replaceThing (s.alloc i).1 place (s.alloc i).2) := by
  cases place with
  | none => exact ⟨List.suffix_refl _, Nat.le_succ _, fun _ _ h => .inl h⟩
  | some slot =>
    refine ⟨List.suffix_refl _, Nat.le_succ _, ?_⟩
    intro slot' item' h
    by_cases hs : slot' = slot
    · subst hs
      right
      have heq : some s.next = some item' := by
        simpa [Equip.replaceThing, State.setInventory, State.alloc] using h
      rw [Option.some.inj heq]
    · left
      simpa [Equip.replaceThing, State.setInventory, State.alloc, hs] using h

end Extends

section Bodies

/-! Each function keeps to it when the calls it makes do. -/

variable {call : Calls}
  (hcall : ∀ s c s' r, call s c = some (s', r) → Extends s s')
  {s s' : State} {r : Option Nat} {item : Nat} {slot : Slot}

include hcall

theorem call_extends {c : Call} (h : (call s c).map Prod.fst = some s') : Extends s s' := by
  cases hc : call s c with
  | none => simp [hc] at h
  | some x =>
    obtain ⟨s1, r1⟩ := x
    rw [hc] at h
    cases h
    exact hcall _ _ _ _ hc

theorem postAddNotification_extends {place : Option Slot}
    (h : postAddNotification call s place item = some s') : Extends s s' := by
  cases place with
  | none => cases h; exact .refl _
  | some slot => exact call_extends hcall h

theorem postRemoveNotification_extends {place : Option Slot}
    (h : postRemoveNotification call s place item = some s') : Extends s s' := by
  cases place with
  | none => cases h; exact .refl _
  | some slot => exact call_extends hcall h

theorem equipItem_extends {e : MoveEvent} (h : equipItem w call s e item slot = some s') :
    Extends s s' := by
  unfold equipItem at h
  split at h
  · cases h; exact .refl _
  split at h
  · cases h; exact .refl _
  dsimp only at h
  split at h
  · split at h
    · exact absurd h (by simp)
    next s2 newItem htrans =>
    -- with or without an update before the item is transformed
    have hfirst : Extends s s2 := by
      refine Extends.trans ?_ (hcall _ _ _ _ htrans)
      split
      · exact .updateAbilityConditions _ _ _ _ _
      · exact .refl _
    exact hfirst.trans (call_extends hcall h)
  · cases h
    exact .updateAbilityConditions _ _ _ _ _

theorem deEquipItem_extends (h : deEquipItem w call s item slot = some s') : Extends s s' := by
  unfold deEquipItem at h
  split at h
  · cases h; exact .refl _
  dsimp only at h
  rw [Option.map_eq_some_iff] at h
  obtain ⟨s2, hs2, rfl⟩ := h
  refine Extends.trans ?_ (.updateAbilityConditions _ _ _ _ _)
  refine (Extends.setItemAbility s slot false).trans ?_
  split at hs2
  · split at hs2
    · exact absurd hs2 (by simp)
    next s3 r3 htrans => exact (hcall _ _ _ _ htrans).trans (call_extends hcall hs2)
  · cases hs2
    exact .refl _

theorem onPlayerEquip_extends (h : onPlayerEquip w call s item slot = some s') :
    Extends s s' := by
  unfold onPlayerEquip at h
  split at h
  · cases h; exact .refl _
  · exact equipItem_extends hcall h

theorem onPlayerDeEquip_extends (h : onPlayerDeEquip w call s item slot = some s') :
    Extends s s' := by
  unfold onPlayerDeEquip at h
  split at h
  · exact deEquipItem_extends hcall h
  · cases h; exact .refl _

theorem transformByMoving_extends {place : Option Slot} {newId : BitVec 16}
    (h : transformByMoving w call s place item newId = some (s', r)) : Extends s s' := by
  unfold transformByMoving at h
  split at h
  · exact absurd h (by simp)
  next s1 hrem =>
  have h1 : Extends s s1 :=
    (Extends.removeThing s item place).trans (postRemoveNotification_extends hcall hrem)
  have h2 : Extends s (addThing (s1.setItem item (setID w (s1.item item) newId)) place item) :=
    (h1.trans (.setItem s1 item _)).trans (.addThing _ item place)
  dsimp only at h
  split at h
  · cases h; exact h2
  · rw [Option.map_eq_some_iff] at h
    obtain ⟨s3, hadd, heq⟩ := h
    cases heq
    exact h2.trans (postAddNotification_extends hcall hadd)

theorem transformInPlace_extends {place : Option Slot} {curId newId : BitVec 16}
    (h : transformInPlace w call s place item curId newId = some (s', r)) : Extends s s' := by
  unfold transformInPlace at h
  dsimp only at h
  split at h
  · exact absurd h (by simp)
  next s1 hrem =>
  rw [Option.map_eq_some_iff] at h
  obtain ⟨s4, hadd, heq⟩ := h
  cases heq
  refine (postRemoveNotification_extends hcall hrem).trans ?_
  refine Extends.trans ?_ (postAddNotification_extends hcall hadd)
  refine Extends.trans ?_ (.updateThing _ _ _ _)
  split
  · exact .setItem _ _ _
  · exact .refl _

theorem transformByReplacing_extends {place : Option Slot} {newId : BitVec 16}
    (h : transformByReplacing w call s place item newId = some (s', r)) : Extends s s' := by
  unfold transformByReplacing at h
  split at h
  · cases h; exact .refl _
  next i _ =>
  dsimp only at h
  split at h
  · exact absurd h (by simp)
  next s2 hadd =>
  rw [Option.map_eq_some_iff] at h
  obtain ⟨s3, hrem, heq⟩ := h
  cases heq
  refine (Extends.replaceThing s place i).trans ?_
  refine (postAddNotification_extends hcall hadd).trans ?_
  exact (Extends.setElsewhere s2 item false).trans (postRemoveNotification_extends hcall hrem)

theorem transformItem_extends {newId : BitVec 16}
    (h : transformItem w call s item newId = some (s', r)) : Extends s s' := by
  unfold transformItem at h
  dsimp only at h
  split at h
  · cases h; exact .refl _
  split at h
  · cases h; exact .refl _
  split at h
  · cases h; exact .refl _
  split at h
  · exact transformByMoving_extends hcall h
  split at h
  · exact transformInPlace_extends hcall h
  · exact transformByReplacing_extends hcall h

theorem internalRemoveItem_extends (h : internalRemoveItem call s item = some s') :
    Extends s s' := by
  unfold internalRemoveItem at h
  split at h
  · cases h; exact .refl _
  split at h
  · cases h; exact .refl _
  · exact (Extends.removeThing s item _).trans (postRemoveNotification_extends hcall h)

theorem internalDecayItem_extends (h : internalDecayItem w call s item = some s') :
    Extends s s' := by
  unfold internalDecayItem at h
  dsimp only at h
  split at h
  · split at h
    · exact absurd h (by simp)
    next s1 newItem htrans => exact (hcall _ _ _ _ htrans).trans (call_extends hcall h)
  · exact call_extends hcall h

theorem startDecay_extends {item : Option Nat} (h : startDecay w call s item = some s') :
    Extends s s' := by
  unfold startDecay at h
  split at h
  · cases h; exact .refl _
  dsimp only at h
  split at h
  · cases h; exact .refl _
  split at h
  · cases h; exact .refl _
  split at h
  · cases h; exact .setItem _ _ _
  · exact internalDecayItem_extends hcall h

theorem body_extends {c : Call} (h : body w call s c = some (s', r)) : Extends s s' := by
  cases c with
  | onPlayerEquip item slot =>
    obtain ⟨s1, h1, heq⟩ := Option.map_eq_some_iff.mp h
    cases heq
    exact onPlayerEquip_extends hcall h1
  | onPlayerDeEquip item slot =>
    obtain ⟨s1, h1, heq⟩ := Option.map_eq_some_iff.mp h
    cases heq
    exact onPlayerDeEquip_extends hcall h1
  | transformItem item newId => exact transformItem_extends hcall h
  | startDecay item =>
    obtain ⟨s1, h1, heq⟩ := Option.map_eq_some_iff.mp h
    cases heq
    exact startDecay_extends hcall h1
  | internalRemoveItem item =>
    obtain ⟨s1, h1, heq⟩ := Option.map_eq_some_iff.mp h
    cases heq
    exact internalRemoveItem_extends hcall h1

end Bodies

/-- Every call, however deep, extends the state. -/
theorem exec_extends {fuel : Nat} {s s' : State} {c : Call} {r : Option Nat}
    (h : exec w fuel s c = some (s', r)) : Extends s s' := by
  induction fuel generalizing s s' c r with
  | zero => exact absurd h (by simp [exec])
  | succ fuel ih => exact body_extends (fun _ _ _ _ h' => ih h') h

/-! ## Calls that do nothing -/

/-- Equipping in an enabled slot does nothing. -/
theorem exec_onPlayerEquip_enabled {fuel : Nat} {s s' : State} {item : Nat} {slot : Slot}
    {r : Option Nat} (h : exec w fuel s (.onPlayerEquip item slot) = some (s', r))
    (hon : s.isItemAbilityEnabled slot = true) : s' = s := by
  cases fuel with
  | zero => exact absurd h (by simp [exec])
  | succ fuel =>
    obtain ⟨s1, h1, heq⟩ := Option.map_eq_some_iff.mp h
    cases heq
    unfold onPlayerEquip at h1
    split at h1
    · exact (Option.some.inj h1).symm
    · rw [equipItem, if_pos hon] at h1
      exact (Option.some.inj h1).symm

/-- De-equipping an item whose type has no such event does nothing. -/
theorem exec_onPlayerDeEquip_noEvent {fuel : Nat} {s s' : State} {item : Nat} {slot : Slot}
    {r : Option Nat} (h : exec w fuel s (.onPlayerDeEquip item slot) = some (s', r))
    (hno : w.deEquipEvent (s.item item).id slot = false) : s' = s := by
  cases fuel with
  | zero => exact absurd h (by simp [exec])
  | succ fuel =>
    obtain ⟨s1, h1, heq⟩ := Option.map_eq_some_iff.mp h
    cases heq
    rw [onPlayerDeEquip, hno, if_neg Bool.false_ne_true] at h1
    exact (Option.some.inj h1).symm

end Infernum.Equip
