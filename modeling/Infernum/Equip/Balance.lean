import Infernum.Equip.Ledger
import Infernum.Equip.Calls

/-!
# Equipment is taken back as it was given

In a run whose calls of `updateAbilityConditions` are balanced, an account of
the equipment stays straight, and the item a slot was enabled for stays in it.
What is balanced depends on what the account is about.
-/

namespace Infernum.Equip

open Lib (held)

variable {w : World} {s s' : State} {pending : List Worn} {item : Nat} {slot : Slot}

/-- What a call of `updateAbilityConditions` records. -/
def State.update (w : World) (s : State) (item : Nat) (slot : Slot) (equip : Bool) (worn : Worn) :
    Update where
  equip := equip
  slot := slot
  now := s.worth w item
  worn := worn
  inSlot := s.player.inventory slot == some item
  deEquipEvent := w.deEquipEvent (s.item item).id slot
  enabled := s.player.inventoryAbilities
  added := s.added

/-- An account of what equipment has added, with the amounts of removals under way,
and the calls of `updateAbilityConditions` that keep it straight. -/
structure Account (w : World) where
  balanced : Update → Prop
  straight : State → List Worn → Prop
  equipped : ∀ {u}, balanced u → u.equip = true → u.inSlot = true ∧ u.deEquipEvent = true
  congr : ∀ {s s' pending}, straight s pending → s'.player.vars = s.player.vars →
    s'.player.conditionSuppressions = s.player.conditionSuppressions →
    s'.player.inventoryAbilities = s.player.inventoryAbilities → s'.added = s.added →
    straight s' pending
  equip : ∀ {s pending item slot}, straight s pending → s.isItemAbilityEnabled slot = false →
    ∀ worn, straight (s.updateAbilityConditions w item slot true worn) pending
  disable : ∀ {s pending slot}, straight s pending → s.isItemAbilityEnabled slot = true →
    straight (s.setItemAbility slot false) (s.added slot :: pending)
  takeBack : ∀ {s pending item slot worn}, straight s (worn :: pending) →
    balanced (s.update w item slot false worn) →
    straight (s.updateAbilityConditions w item slot false worn) pending

variable {A : Account w}

/-- Every call recorded so far is balanced. -/
def Account.AllBalanced (A : Account w) (s : State) : Prop := ∀ u ∈ s.updates, A.balanced u

theorem Extends.balanced (h : Extends s s') (hb : A.AllBalanced s') : A.AllBalanced s :=
  fun u hu => hb u (h.updates.subset hu)

/-- The slot holds an item that is worth, in its abilities, what the slot was
enabled for, and that can be de-equipped. -/
def Wears (w : World) (s : State) (slot : Slot) : Prop :=
  ∃ item, s.player.inventory slot = some item ∧
    getAbilityValue w (s.item item) = (s.added slot).value ∧
    w.deEquipEvent (s.item item).id slot = true

/-- The invariant while a slot may be out of step with its item. -/
structure Account.Inv (A : Account w) (s : State) (pending : List Worn) (out : Option Slot) :
    Prop where
  straight : A.straight s pending
  apart : ∀ slot slot' item, s.player.inventory slot = some item →
    s.player.inventory slot' = some item → slot = slot'
  allocated : ∀ slot item, s.player.inventory slot = some item → item < s.next
  elsewhere : ∀ item, s.elsewhere item = true → item < s.next
  wears : ∀ slot, s.isItemAbilityEnabled slot = true → out ≠ some slot → Wears w s slot

namespace Account.Inv

theorem weaken (h : A.Inv s pending none) (out : Option Slot) : A.Inv s pending out :=
  ⟨h.straight, h.apart, h.allocated, h.elsewhere, fun slot hon _ => h.wears slot hon (by simp)⟩

/-- The invariant does not read the player's base values. -/
theorem congr {out : Option Slot} (h : A.Inv s pending out)
    (hvars : s'.player.vars = s.player.vars)
    (hcond : s'.player.conditionSuppressions = s.player.conditionSuppressions)
    (habil : s'.player.inventoryAbilities = s.player.inventoryAbilities)
    (hslots : s'.player.inventory = s.player.inventory) (hadded : s'.added = s.added)
    (hitem : s'.item = s.item) (hels : s'.elsewhere = s.elsewhere) (hnext : s'.next = s.next) :
    A.Inv s' pending out where
  straight := A.congr h.straight hvars hcond habil hadded
  apart := by
    rw [hslots]
    exact h.apart
  allocated := by
    rw [hslots, hnext]
    exact h.allocated
  elsewhere := by
    rw [hels, hnext]
    exact h.elsewhere
  wears slot := by
    unfold State.isItemAbilityEnabled Wears
    rw [habil, hslots, hadded, hitem]
    exact h.wears slot

/-- A slot that is not enabled is not out of step. -/
theorem close (h : A.Inv s pending (some slot)) (hoff : s.isItemAbilityEnabled slot = false) :
    A.Inv s pending none := by
  refine ⟨h.straight, h.apart, h.allocated, h.elsewhere, fun slot' hon _ => h.wears slot' hon ?_⟩
  intro heq
  rw [Option.some.inj heq, hon] at hoff
  exact absurd hoff (by simp)

/-- The item of an enabled slot has a de-equip event. -/
theorem event (h : A.Inv s pending none) (hslot : s.player.inventory slot = some item)
    (hon : s.isItemAbilityEnabled slot = true) : w.deEquipEvent (s.item item).id slot = true := by
  obtain ⟨item', hslot', _, hev⟩ := h.wears slot hon (by simp)
  rw [hslot] at hslot'
  rw [Option.some.inj hslot']
  exact hev

/-- An item that lies in no enabled slot may change. -/
theorem setItem {out : Option Slot} (h : A.Inv s pending out)
    (hout : ∀ slot, s.isItemAbilityEnabled slot = true → s.player.inventory slot ≠ some item)
    (i : Item) : A.Inv (s.setItem item i) pending out := by
  refine ⟨A.congr h.straight rfl rfl rfl rfl, h.apart, h.allocated, h.elsewhere, fun slot hon hne => ?_⟩
  obtain ⟨item', hslot, hval, hev⟩ := h.wears slot hon hne
  have hitem : item' ≠ item := by
    rintro rfl
    exact hout slot hon hslot
  refine ⟨item', hslot, ?_, ?_⟩
  · show getAbilityValue w (Function.update s.item item i item') = _
    rw [Function.update_of_ne hitem]
    exact hval
  · show w.deEquipEvent (Function.update s.item item i item').id slot = true
    rw [Function.update_of_ne hitem]
    exact hev

theorem updateThing {out : Option Slot} (h : A.Inv s pending out)
    (hout : ∀ slot, s.isItemAbilityEnabled slot = true → s.player.inventory slot ≠ some item)
    (itemId count : BitVec 16) : A.Inv (updateThing w s item itemId count) pending out := by
  unfold Equip.updateThing
  split
  · exact h
  · exact h.setItem hout _

/-- So may one whose abilities stay. -/
theorem setItem_same {out : Option Slot} (h : A.Inv s pending out) {i : Item}
    (hid : i.id = (s.item item).id) (habil : i.abilities = (s.item item).abilities) :
    A.Inv (s.setItem item i) pending out := by
  refine ⟨A.congr h.straight rfl rfl rfl rfl, h.apart, h.allocated, h.elsewhere, fun slot hon hne => ?_⟩
  obtain ⟨item', hslot, hval, hev⟩ := h.wears slot hon hne
  refine ⟨item', hslot, ?_, ?_⟩
  · show getAbilityValue w (Function.update s.item item i item') = (s.added slot).value
    by_cases hitem : item' = item
    · subst hitem
      rw [Function.update_self, ← hval]
      funext type
      simp only [getAbilityValue, hid, habil]
    · rw [Function.update_of_ne hitem]
      exact hval
  · show w.deEquipEvent (Function.update s.item item i item').id slot = true
    by_cases hitem : item' = item
    · subst hitem
      rw [Function.update_self, hid]
      exact hev
    · rw [Function.update_of_ne hitem]
      exact hev

theorem setElsewhere {out : Option Slot} (h : A.Inv s pending out) (b : Bool)
    (hitem : b = true → item < s.next) : A.Inv (s.setElsewhere item b) pending out := by
  refine ⟨A.congr h.straight rfl rfl rfl rfl, h.apart, h.allocated, fun item' hels => ?_, h.wears⟩
  by_cases hi : item' = item
  · subst hi
    exact hitem (by simpa [State.setElsewhere] using hels)
  · exact h.elsewhere item' (by simpa [State.setElsewhere, hi] using hels)

/-- A slot is emptied. -/
theorem clear (h : A.Inv s pending none) (slot : Slot) :
    A.Inv (s.setInventory slot none) pending (some slot) := by
  have hold : ∀ slot' item, (s.setInventory slot none).player.inventory slot' = some item →
      s.player.inventory slot' = some item := by
    intro slot' item hslot
    by_cases hs : slot' = slot
    · subst hs
      simp [State.setInventory] at hslot
    · simpa [State.setInventory, hs] using hslot
  refine ⟨A.congr h.straight rfl rfl rfl rfl, ?_, ?_, h.elsewhere, ?_⟩
  · intro slot₁ slot₂ item h₁ h₂
    exact h.apart slot₁ slot₂ item (hold _ _ h₁) (hold _ _ h₂)
  · intro slot' item hslot
    exact h.allocated slot' item (hold _ _ hslot)
  · intro slot' hon hne
    have hs : slot' ≠ slot := fun heq => hne (by rw [heq])
    obtain ⟨item, hslot, hval, hev⟩ := h.wears slot' hon (by simp)
    refine ⟨item, ?_, hval, hev⟩
    simpa [State.setInventory, hs] using hslot

/-- A slot is given an item that lies in no slot. -/
theorem fill {out out' : Option Slot} (h : A.Inv s pending out)
    (hnew : ∀ slot, s.player.inventory slot ≠ some item) (hitem : item < s.next) (slot : Slot)
    (hout : ∀ slot', s.isItemAbilityEnabled slot' = true → out' ≠ some slot' →
      slot' ≠ slot ∧ out ≠ some slot') :
    A.Inv (s.setInventory slot (some item)) pending out' := by
  have hold : ∀ slot' item', (s.setInventory slot (some item)).player.inventory slot' = some item' →
      slot' = slot ∧ item' = item ∨ slot' ≠ slot ∧ s.player.inventory slot' = some item' := by
    intro slot' item' hslot
    by_cases hs : slot' = slot
    · subst hs
      have heq : some item = some item' := by simpa [State.setInventory] using hslot
      exact .inl ⟨rfl, (Option.some.inj heq).symm⟩
    · exact .inr ⟨hs, by simpa [State.setInventory, hs] using hslot⟩
  refine ⟨A.congr h.straight rfl rfl rfl rfl, ?_, ?_, h.elsewhere, ?_⟩
  · intro slot₁ slot₂ item' h₁ h₂
    rcases hold _ _ h₁ with ⟨hs₁, hi₁⟩ | ⟨hs₁, hi₁⟩
    · rcases hold _ _ h₂ with ⟨hs₂, _⟩ | ⟨_, hi₂⟩
      · rw [hs₁, hs₂]
      · rw [hi₁] at hi₂
        exact absurd hi₂ (hnew slot₂)
    · rcases hold _ _ h₂ with ⟨_, hi₂⟩ | ⟨_, hi₂⟩
      · rw [hi₂] at hi₁
        exact absurd hi₁ (hnew slot₁)
      · exact h.apart slot₁ slot₂ item' hi₁ hi₂
  · intro slot' item' hslot
    rcases hold _ _ hslot with ⟨_, rfl⟩ | ⟨_, hi⟩
    · exact hitem
    · exact h.allocated slot' item' hi
  · intro slot' hon hne
    obtain ⟨hs, hne'⟩ := hout slot' hon hne
    obtain ⟨item', hslot, hval, hev⟩ := h.wears slot' hon hne'
    refine ⟨item', ?_, hval, hev⟩
    simpa [State.setInventory, hs] using hslot

/-- A new item changes nothing for the slots. -/
theorem alloc (h : A.Inv s pending none) (i : Item) : A.Inv (s.alloc i).1 pending none := by
  refine ⟨A.congr h.straight rfl rfl rfl rfl, h.apart, ?_, ?_, ?_⟩
  · intro slot item hslot
    have hlt := h.allocated slot item hslot
    show item < s.next + 1
    omega
  · intro item hels
    show item < s.next + 1
    by_cases hi : item = s.next
    · omega
    · have hold : s.elsewhere item = true := by simpa [State.alloc, hi] using hels
      have hlt := h.elsewhere item hold
      omega
  · intro slot hon _
    obtain ⟨item, hslot, hval, hev⟩ := h.wears slot hon (by simp)
    have hne : item ≠ s.next := by
      have hlt := h.allocated slot item hslot
      omega
    refine ⟨item, hslot, ?_, ?_⟩
    · show getAbilityValue w (Function.update s.item s.next i item) = _
      rw [Function.update_of_ne hne]
      exact hval
    · show w.deEquipEvent (Function.update s.item s.next i item).id slot = true
      rw [Function.update_of_ne hne]
      exact hev

/-- Equipping the item of a slot that is not enabled. -/
theorem equip (h : A.Inv s pending none) (hoff : s.isItemAbilityEnabled slot = false)
    (hslot : s.player.inventory slot = some item)
    (hev : w.deEquipEvent (s.item item).id slot = true) (worn : Worn) :
    A.Inv (s.updateAbilityConditions w item slot true worn) pending none := by
  refine ⟨A.equip h.straight hoff worn, h.apart, h.allocated, h.elsewhere, fun slot' hon _ => ?_⟩
  by_cases hs : slot' = slot
  · subst hs
    refine ⟨item, hslot, ?_, hev⟩
    simp [State.updateAbilityConditions, State.setItemAbility, State.worth]
  · have hon' : s.isItemAbilityEnabled slot' = true := by
      simpa [State.updateAbilityConditions, State.isItemAbilityEnabled, State.setItemAbility,
        hs] using hon
    obtain ⟨item', hslot', hval, hev'⟩ := h.wears slot' hon' (by simp)
    refine ⟨item', hslot', ?_, hev'⟩
    simpa [State.updateAbilityConditions, State.setItemAbility, hs] using hval

/-- Disabling a slot: its amounts are pending. -/
theorem disable (h : A.Inv s pending (some slot)) (hon : s.isItemAbilityEnabled slot = true) :
    A.Inv (s.setItemAbility slot false) (s.added slot :: pending) none := by
  refine ⟨A.disable h.straight hon, h.apart, h.allocated, h.elsewhere, fun slot' hon' _ => ?_⟩
  have hs : slot' ≠ slot := by
    rintro rfl
    simp [State.isItemAbilityEnabled, State.setItemAbility] at hon'
  have hold : s.isItemAbilityEnabled slot' = true := by
    simpa [State.isItemAbilityEnabled, State.setItemAbility, hs] using hon'
  exact h.wears slot' hold fun heq => hs (Option.some.inj heq).symm

/-- De-equipping settles what is pending. -/
theorem takeBack {worn : Worn} (h : A.Inv s (worn :: pending) none)
    (hb : A.balanced (s.update w item slot false worn)) :
    A.Inv (s.updateAbilityConditions w item slot false worn) pending none := by
  refine ⟨A.takeBack h.straight hb, h.apart, h.allocated, h.elsewhere, fun slot' hon _ => ?_⟩
  refine h.wears slot' ?_ (by simp)
  by_cases hs : slot' = slot
  · subst hs
    simp [State.updateAbilityConditions, State.isItemAbilityEnabled,
      State.setItemAbility] at hon
  · simpa [State.updateAbilityConditions, State.isItemAbilityEnabled, State.setItemAbility,
      hs] using hon

end Account.Inv

/-! ## Every call keeps the invariant -/

/-- What a call may assume: de-equipping is also called for a slot that the item
has just left. -/
def Account.Pre (A : Account w) (pending : List Worn) (s : State) : Call → Prop
  | .onPlayerDeEquip item slot => A.Inv s pending (some slot) ∧
      (s.isItemAbilityEnabled slot = true → w.deEquipEvent (s.item item).id slot = true)
  | _ => A.Inv s pending none

/-- What it ensures. -/
def Account.Post (A : Account w) (pending : List Worn) (s' : State) : Call → Prop
  | .onPlayerDeEquip _ slot => A.Inv s' pending none ∧ s'.isItemAbilityEnabled slot = false
  | _ => A.Inv s' pending none

/-- The calls a function makes are calls of this development: they extend the
state, keep the invariant when what they record is balanced, and skip what
`exec` skips. -/
structure Account.Sound (A : Account w) (call : Calls) : Prop where
  step : ∀ s c s' r, call s c = some (s', r) → Extends s s'
  inv : ∀ pending s c s' r, call s c = some (s', r) → A.AllBalanced s' →
    A.Pre pending s c → A.Post pending s' c
  enabled : ∀ s item slot s' r, call s (.onPlayerEquip item slot) = some (s', r) →
    s.isItemAbilityEnabled slot = true → s' = s
  noEvent : ∀ s item slot s' r, call s (.onPlayerDeEquip item slot) = some (s', r) →
    w.deEquipEvent (s.item item).id slot = false → s' = s

section Bodies

variable {call : Calls} (hcall : A.Sound call) {r : Option Nat}

include hcall

theorem Account.Sound.inv_fst {c : Call} (h : (call s c).map Prod.fst = some s') (hb : A.AllBalanced s')
    (hpre : A.Pre pending s c) : A.Post pending s' c := by
  rw [Option.map_eq_some_iff] at h
  obtain ⟨⟨s1, r1⟩, hc, rfl⟩ := h
  exact hcall.inv _ _ _ _ _ hc hb hpre

theorem postAddNotification_inv {place : Option Slot}
    (h : postAddNotification call s place item = some s') (hb : A.AllBalanced s')
    (hinv : A.Inv s pending none) : A.Inv s' pending none := by
  cases place with
  | none => cases h; exact hinv
  | some slot => exact hcall.inv_fst h hb hinv

/-- De-equipping the item of a slot. -/
theorem postRemoveNotification_inv (h : postRemoveNotification call s (some slot) item = some s')
    (hb : A.AllBalanced s') (hinv : A.Inv s pending (some slot))
    (hev : s.isItemAbilityEnabled slot = true → w.deEquipEvent (s.item item).id slot = true) :
    A.Inv s' pending none ∧ s'.isItemAbilityEnabled slot = false :=
  hcall.inv_fst h hb ⟨hinv, hev⟩

theorem equipItem_inv {e : MoveEvent} (h : equipItem w call s e item slot = some s')
    (hb : A.AllBalanced s') (hinv : A.Inv s pending none) : A.Inv s' pending none := by
  unfold equipItem at h
  split at h
  · cases h; exact hinv
  next hoff =>
  have hoff : s.isItemAbilityEnabled slot = false := by simpa using hoff
  split at h
  · cases h; exact hinv
  -- an equip that is recorded finds the item in the slot
  have hupd : A.AllBalanced (s.updateAbilityConditions w item slot true (s.worth w item)) →
      A.Inv (s.updateAbilityConditions w item slot true (s.worth w item)) pending none := by
    intro hb
    have hu := A.equipped (hb (s.update w item slot true (s.worth w item)) List.mem_cons_self) rfl
    exact hinv.equip hoff (by simpa [State.update] using hu.1) hu.2 _
  dsimp only at h
  split at h
  · split at h
    · exact absurd h (by simp)
    next s2 newItem htrans =>
    have hb2 : A.AllBalanced s2 := (call_extends hcall.step h).balanced hb
    have hb1 := (hcall.step _ _ _ _ htrans).balanced hb2
    have hinv2 : A.Inv s2 pending none := by
      refine hcall.inv _ _ _ _ _ htrans hb2 ?_
      show A.Inv _ pending none
      split at hb1 <;> rename_i hsome
      · rw [if_pos hsome]
        exact hupd hb1
      · rw [if_neg hsome]
        exact hinv
    exact hcall.inv_fst h hb hinv2
  · cases h
    exact hupd hb

/-- The removal runs with the slot disabled, and what the slot had is pending
until the last step. -/
theorem deEquipItem_inv (h : deEquipItem w call s item slot = some s') (hb : A.AllBalanced s')
    (hinv : A.Inv s pending (some slot)) :
    A.Inv s' pending none ∧ s'.isItemAbilityEnabled slot = false := by
  unfold deEquipItem at h
  split at h
  · next hoff =>
    have hoff : s.isItemAbilityEnabled slot = false := by simpa using hoff
    cases h
    exact ⟨hinv.close hoff, hoff⟩
  next hon =>
  have hon : s.isItemAbilityEnabled slot = true := by simpa using hon
  dsimp only at h
  rw [Option.map_eq_some_iff] at h
  obtain ⟨s2, hs2, rfl⟩ := h
  have hb2 : A.AllBalanced s2 :=
    (Extends.updateAbilityConditions s2 item slot false _).balanced hb
  have hinv1 := hinv.disable hon
  have hinv2 : A.Inv s2 (s.added slot :: pending) none := by
    split at hs2
    · split at hs2
      · exact absurd hs2 (by simp)
      next s3 r3 htrans =>
      have hb3 := (call_extends hcall.step hs2).balanced hb2
      exact hcall.inv_fst hs2 hb2 (hcall.inv _ _ _ _ _ htrans hb3 hinv1)
    · cases hs2
      exact hinv1
  refine ⟨hinv2.takeBack (hb (s2.update w item slot false (s.added slot)) List.mem_cons_self), ?_⟩
  simp [State.updateAbilityConditions, State.isItemAbilityEnabled, State.setItemAbility]

theorem onPlayerEquip_inv (h : onPlayerEquip w call s item slot = some s')
    (hb : A.AllBalanced s') (hinv : A.Inv s pending none) : A.Inv s' pending none := by
  unfold onPlayerEquip at h
  split at h
  · cases h; exact hinv
  · exact equipItem_inv hcall h hb hinv

theorem onPlayerDeEquip_inv (h : onPlayerDeEquip w call s item slot = some s')
    (hb : A.AllBalanced s') (hinv : A.Inv s pending (some slot))
    (hev : s.isItemAbilityEnabled slot = true → w.deEquipEvent (s.item item).id slot = true) :
    A.Inv s' pending none ∧ s'.isItemAbilityEnabled slot = false := by
  unfold onPlayerDeEquip at h
  split at h
  · exact deEquipItem_inv hcall h hb hinv
  · next hno =>
    cases h
    have hoff : s.isItemAbilityEnabled slot = false := by
      cases hon : s.isItemAbilityEnabled slot with
      | false => rfl
      | true => exact absurd (hev hon) hno
    exact ⟨hinv.close hoff, hoff⟩

end Bodies

theorem getThingIndex_eq_some (h : s.getThingIndex item = some slot) :
    s.player.inventory slot = some item := by
  have hfound := List.find?_some h
  simpa using hfound

theorem getThingIndex_eq_none (h : s.getThingIndex item = none) (slot : Slot) :
    s.player.inventory slot ≠ some item := by
  have hnone := List.find?_eq_none.mp h slot (by cases slot <;> simp [State.slots])
  simpa using hnone

/-- An item with a parent is allocated. -/
theorem Account.Inv.item_lt (hinv : A.Inv s pending none) (h : s.isRemoved item = false) :
    item < s.next := by
  unfold State.isRemoved at h
  cases hidx : s.getThingIndex item with
  | some slot => exact hinv.allocated slot item (getThingIndex_eq_some hidx)
  | none =>
    rw [hidx] at h
    exact hinv.elsewhere item (by simpa using h)

section Transform

variable {call : Calls} (hcall : A.Sound call) {r : Option Nat} {place : Option Slot}

include hcall

/-- Taking the whole item out of its cylinder: afterwards it lies in no slot. -/
theorem removeThing_inv
    (h : postRemoveNotification call (removeThing s place item) place item = some s')
    (hplace : place = s.getThingIndex item) (hb : A.AllBalanced s')
    (hinv : A.Inv s pending none) :
    A.Inv s' pending none ∧ ∀ slot, s'.player.inventory slot = some item → s.next ≤ item := by
  have hext := postRemoveNotification_extends hcall.step h
  cases place with
  | none =>
    have hnone := getThingIndex_eq_none hplace.symm
    cases h
    exact ⟨hinv.setElsewhere false (by simp), fun slot hslot => absurd hslot (hnone slot)⟩
  | some slot =>
    have hslot := getThingIndex_eq_some hplace.symm
    have hinv' := (postRemoveNotification_inv hcall h hb (hinv.clear slot)
      (hinv.event hslot)).1
    refine ⟨hinv', fun slot' hslot' => ?_⟩
    rcases hext.inventory slot' item hslot' with hold | hnew
    · -- the slot it was in is empty, and it was in no other
      by_cases hs : slot' = slot
      · subst hs
        simp [removeThing, State.setInventory] at hold
      · have hold' : s.player.inventory slot' = some item := by
          simpa [removeThing, State.setInventory, hs] using hold
        exact absurd (hinv.apart slot' slot item hold' hslot) hs
    · exact hnew

/-- Telling the cylinder that the item goes, while it stays: afterwards it lies
in no enabled slot. -/
theorem postRemoveNotification_stay
    (h : postRemoveNotification call s place item = some s')
    (hplace : place = s.getThingIndex item) (hb : A.AllBalanced s')
    (hinv : A.Inv s pending none) :
    A.Inv s' pending none ∧ ∀ slot, s'.isItemAbilityEnabled slot = true →
      s'.player.inventory slot = some item → s.next ≤ item := by
  have hext := postRemoveNotification_extends hcall.step h
  cases place with
  | none =>
    have hnone := getThingIndex_eq_none hplace.symm
    cases h
    exact ⟨hinv, fun slot _ hslot => absurd hslot (hnone slot)⟩
  | some slot =>
    have hslot := getThingIndex_eq_some hplace.symm
    obtain ⟨hinv', hoff⟩ := postRemoveNotification_inv hcall h hb (hinv.weaken _)
      (hinv.event hslot)
    refine ⟨hinv', fun slot' hon hslot' => ?_⟩
    rcases hext.inventory slot' item hslot' with hold | hnew
    · have hs := hinv.apart slot' slot item hold hslot
      rw [hs, hoff] at hon
      exact absurd hon (by simp)
    · exact hnew

theorem transformByMoving_inv {newId : BitVec 16}
    (h : transformByMoving w call s place item newId = some (s', r))
    (hplace : place = s.getThingIndex item) (hitem : item < s.next) (hb : A.AllBalanced s')
    (hinv : A.Inv s pending none) : A.Inv s' pending none := by
  have hstep := hcall.step
  unfold transformByMoving at h
  split at h
  · exact absurd h (by simp)
  next s1 hrem =>
  have hkey : A.AllBalanced s1 →
      A.Inv (addThing (s1.setItem item (setID w (s1.item item) newId)) place item) pending
        none := by
    intro hb1
    obtain ⟨hinv1, hgone⟩ := removeThing_inv hcall hrem hplace hb1 hinv
    have hset : A.Inv (s1.setItem item (setID w (s1.item item) newId)) pending none := by
      refine hinv1.setItem (fun slot _ hslot => ?_) _
      have := hgone slot hslot
      omega
    have hnext := (postRemoveNotification_extends hcall.step hrem).next
    cases place with
    | none => exact hset.setElsewhere true fun _ => Nat.lt_of_lt_of_le hitem hnext
    | some slot => exact hset
  have h2 := (Extends.setItem s1 item (setID w (s1.item item) newId)).trans
    (.addThing _ item place)
  dsimp only at h
  split at h
  · cases h
    exact hkey (h2.balanced hb)
  · rw [Option.map_eq_some_iff] at h
    obtain ⟨s3, hadd, heq⟩ := h
    cases heq
    have hb2 := (postAddNotification_extends hstep hadd).balanced hb
    exact postAddNotification_inv hcall hadd hb (hkey (h2.balanced hb2))

theorem transformInPlace_inv {curId newId : BitVec 16}
    (h : transformInPlace w call s place item curId newId = some (s', r))
    (hplace : place = s.getThingIndex item) (hitem : item < s.next) (hb : A.AllBalanced s')
    (hinv : A.Inv s pending none) : A.Inv s' pending none := by
  unfold transformInPlace at h
  dsimp only at h
  split at h
  · exact absurd h (by simp)
  next s1 hrem =>
  rw [Option.map_eq_some_iff] at h
  obtain ⟨s4, hadd, heq⟩ := h
  cases heq
  have hb3 := (postAddNotification_extends hcall.step hadd).balanced hb
  refine postAddNotification_inv hcall hadd hb ?_
  -- the item may change twice, since it lies in no enabled slot
  have hb2 := (Extends.updateThing (w := w) _ item _ _).balanced hb3
  have hb1 : A.AllBalanced s1 := by
    split at hb2
    · exact (Extends.setItem s1 item _).balanced hb2
    · exact hb2
  obtain ⟨hinv1, hgone⟩ := postRemoveNotification_stay hcall hrem hplace hb1 hinv
  have hfree : ∀ slot, s1.isItemAbilityEnabled slot = true →
      s1.player.inventory slot ≠ some item := by
    intro slot hon hslot
    have := hgone slot hon hslot
    omega
  refine Account.Inv.updateThing ?_ ?_ _ _
  · split
    · exact hinv1.setItem hfree _
    · exact hinv1
  · split
    · exact hfree
    · exact hfree

theorem transformByReplacing_inv {newId : BitVec 16}
    (h : transformByReplacing w call s place item newId = some (s', r))
    (hplace : place = s.getThingIndex item) (hb : A.AllBalanced s')
    (hinv : A.Inv s pending none) : A.Inv s' pending none := by
  unfold transformByReplacing at h
  split at h
  · cases h; exact hinv
  next i _ =>
  dsimp only at h
  split at h
  · exact absurd h (by simp)
  next s2 hadd =>
  rw [Option.map_eq_some_iff] at h
  obtain ⟨s3, hrem, heq⟩ := h
  cases heq
  have hb2' := (postRemoveNotification_extends hcall.step hrem).balanced hb
  have hb2 : A.AllBalanced s2 := (Extends.setElsewhere s2 item false).balanced hb2'
  have halloc := hinv.alloc i
  cases place with
  | none =>
    cases hadd
    cases hrem
    exact (halloc.setElsewhere true fun _ => Nat.lt_succ_self _).setElsewhere false (by simp)
  | some slot =>
    have hslot := getThingIndex_eq_some hplace.symm
    have hfill : A.Inv ((s.alloc i).1.setInventory slot (some s.next)) pending (some slot) := by
      refine halloc.fill (fun slot' hslot' => ?_) (Nat.lt_succ_self _) slot fun slot' _ hne => ?_
      · have hlt := hinv.allocated slot' s.next hslot'
        omega
      · exact ⟨fun heq => hne (by rw [heq]), by simp⟩
    cases hon : s.isItemAbilityEnabled slot with
    | true =>
      -- the new item is not equipped; the old one is de-equipped
      obtain ⟨⟨s2', r2⟩, hcadd, heq⟩ := Option.map_eq_some_iff.mp hadd
      cases heq
      have hs2 := hcall.enabled _ _ _ _ _ hcadd hon
      subst hs2
      refine (postRemoveNotification_inv hcall hrem hb (hfill.setElsewhere false (by simp)) ?_).1
      intro _
      have hev := hinv.event hslot hon
      have hne : item ≠ s.next := by
        have hlt := hinv.allocated slot item hslot
        omega
      show w.deEquipEvent (Function.update s.item s.next i item).id slot = true
      rw [Function.update_of_ne hne]
      exact hev
    | false =>
      have hinv2 := postAddNotification_inv hcall hadd hb2 (hfill.close hon)
      cases hev : w.deEquipEvent (s2.item item).id slot with
      | true =>
        exact (postRemoveNotification_inv hcall hrem hb ((hinv2.setElsewhere false (by simp)).weaken _)
          fun _ => hev).1
      | false =>
        obtain ⟨⟨s3', r3⟩, hcrem, heq⟩ := Option.map_eq_some_iff.mp hrem
        cases heq
        have hs3 := hcall.noEvent _ _ _ _ _ hcrem hev
        rw [hs3]
        exact hinv2.setElsewhere false (by simp)

theorem transformItem_inv {newId : BitVec 16}
    (h : transformItem w call s item newId = some (s', r)) (hb : A.AllBalanced s')
    (hinv : A.Inv s pending none) : A.Inv s' pending none := by
  unfold transformItem at h
  dsimp only at h
  split at h
  · cases h; exact hinv
  split at h
  · cases h; exact hinv
  next hparent =>
  have hitem := hinv.item_lt (by simpa using hparent)
  split at h
  · cases h; exact hinv
  split at h
  · exact transformByMoving_inv hcall h rfl hitem hb hinv
  split at h
  · exact transformInPlace_inv hcall h rfl hitem hb hinv
  · exact transformByReplacing_inv hcall h rfl hb hinv

theorem internalRemoveItem_inv (h : internalRemoveItem call s item = some s')
    (hb : A.AllBalanced s') (hinv : A.Inv s pending none) : A.Inv s' pending none := by
  unfold internalRemoveItem at h
  split at h
  · cases h; exact hinv
  split at h
  · cases h; exact hinv
  · exact (removeThing_inv hcall h rfl hb hinv).1

theorem internalDecayItem_inv (h : internalDecayItem w call s item = some s')
    (hb : A.AllBalanced s') (hinv : A.Inv s pending none) : A.Inv s' pending none := by
  unfold internalDecayItem at h
  dsimp only at h
  split at h
  · split at h
    · exact absurd h (by simp)
    next s1 newItem htrans =>
    have hb1 := (call_extends hcall.step h).balanced hb
    exact hcall.inv_fst h hb (hcall.inv _ _ _ _ _ htrans hb1 hinv)
  · exact hcall.inv_fst h hb hinv

theorem startDecay_inv {item : Option Nat} (h : startDecay w call s item = some s')
    (hb : A.AllBalanced s') (hinv : A.Inv s pending none) : A.Inv s' pending none := by
  unfold startDecay at h
  split at h
  · cases h; exact hinv
  dsimp only at h
  split at h
  · cases h; exact hinv
  split at h
  · cases h; exact hinv
  split at h
  · cases h
    exact hinv.setItem_same rfl rfl
  · exact internalDecayItem_inv hcall h hb hinv

theorem body_inv {c : Call} (h : body w call s c = some (s', r)) (hb : A.AllBalanced s')
    (hpre : A.Pre pending s c) : A.Post pending s' c := by
  cases c with
  | onPlayerEquip item slot =>
    obtain ⟨s1, h1, heq⟩ := Option.map_eq_some_iff.mp h
    cases heq
    exact onPlayerEquip_inv hcall h1 hb hpre
  | onPlayerDeEquip item slot =>
    obtain ⟨s1, h1, heq⟩ := Option.map_eq_some_iff.mp h
    cases heq
    exact onPlayerDeEquip_inv hcall h1 hb hpre.1 hpre.2
  | transformItem item newId => exact transformItem_inv hcall h hb hpre
  | startDecay item =>
    obtain ⟨s1, h1, heq⟩ := Option.map_eq_some_iff.mp h
    cases heq
    exact startDecay_inv hcall h1 hb hpre
  | internalRemoveItem item =>
    obtain ⟨s1, h1, heq⟩ := Option.map_eq_some_iff.mp h
    cases heq
    exact internalRemoveItem_inv hcall h1 hb hpre

end Transform

/-- Calls within any fuel are sound, by induction on the fuel. -/
theorem exec_sound (A : Account w) (fuel : Nat) : A.Sound (exec w fuel) := by
  induction fuel with
  | zero =>
    exact ⟨fun _ _ _ _ h => absurd h (by simp [exec]), fun _ _ _ _ _ h => absurd h (by simp [exec]),
      fun _ _ _ _ _ h => absurd h (by simp [exec]), fun _ _ _ _ _ h => absurd h (by simp [exec])⟩
  | succ fuel ih =>
    exact ⟨fun _ _ _ _ h => exec_extends h, fun _ _ _ _ _ h hb hpre => body_inv ih h hb hpre,
      fun _ _ _ _ _ h hon => exec_onPlayerEquip_enabled h hon,
      fun _ _ _ _ _ h hno => exec_onPlayerDeEquip_noEvent h hno⟩

/-! ## The account of everything -/

/-- Every call recorded so far is balanced. -/
def AllBalanced (w : World) (s : State) : Prop := ∀ u ∈ s.updates, u.Balanced w

/-- The account of every variable and of the suppressed conditions. -/
def Account.full (w : World) : Account w where
  balanced u := u.Balanced w
  straight s pending := Ledger w s pending
  equipped := by
    intro u hb hu
    rwa [Update.Balanced, if_pos hu] at hb
  congr h := h.congr
  equip h hoff worn := h.equip hoff worn
  disable h hon := h.disable hon
  takeBack := by
    intro s pending item slot worn h hb
    rw [Update.Balanced, if_neg (by simp [State.update])] at hb
    exact h.takeBack hb.1 hb.2.1 hb.2.2

end Infernum.Equip
