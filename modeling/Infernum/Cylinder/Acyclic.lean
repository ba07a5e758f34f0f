import Infernum.Cylinder.Rooted
import Infernum.Lib.TransitionSystem

/-!
# No container is inside itself

`queryAdd` walks up `getParent`, so that an item it lets through is not above the
container (`free_of_queryAdd`). The moves and additions put an item only where it has
let that item through last.
-/

namespace Infernum.Heap

open Lib

variable {σ : Type} {w : CylinderWorld} {o : Others σ} {h h' : Heap σ} {n : Nat}

/-! ## The walk of `queryAdd` -/

/-- Where `getParent` leads, it leaves out nothing that can be picked up. -/
theorem getParent_some (hr : h.Rooted w) {c p : Cylinder}
    (hparent : h.getParent n c = some (some p)) {j : Nat} (habove : Above h.up c (.item j)) :
    c = .item j ∨ Above h.up p (.item j) ∨ h.isPickupable w j = false := by
  cases n with
  | zero => cases hparent
  | succ n =>
      rw [getParent] at hparent
      cases hup : h.up c with
      | none =>
          rw [hup] at hparent
          cases hparent
      | some q =>
          rw [hup] at hparent
          dsimp only at hparent
          cases hskips : h.skipsParent c with
          | true =>
              cases c with
              | item i => exact .inr (.inr (hr.pinned i hskips j habove))
              | player _ | tile _ | virtualCylinder => cases hskips
          | false =>
              rw [hskips, if_neg nofun] at hparent
              obtain rfl : q = p := Option.some.inj (Option.some.inj hparent)
              rcases habove.cases_head with heq | ⟨q', hq', hrest⟩
              · exact .inl heq
              · obtain rfl : q = q' := Option.some.inj (hup.symm.trans hq')
                exact .inr (.inl hrest)

theorem getParent_none (hr : h.Rooted w) {c : Cylinder} (hparent : h.getParent n c = some none)
    {j : Nat} (habove : Above h.up c (.item j)) : c = .item j ∨ h.isPickupable w j = false := by
  cases n with
  | zero => cases hparent
  | succ n =>
      rw [getParent] at hparent
      cases hup : h.up c with
      | none => exact .inl ((above_iff_of_none hup).mp habove).symm
      | some q =>
          rw [hup] at hparent
          dsimp only at hparent
          cases hskips : h.skipsParent c with
          | true =>
              cases c with
              | item i => exact .inr (hr.pinned i hskips j habove)
              | player _ | tile _ | virtualCylinder => cases hskips
          | false =>
              rw [hskips, if_neg nofun] at hparent
              cases hparent

theorem checkParents_noError (hr : h.Rooted w) {item : Nat}
    (hpickup : h.isPickupable w item = true) {checkInbox : Bool} {k : Nat}
    {parent : Option Cylinder} (hcheck : h.checkParents item checkInbox k parent = some .noError)
    {c : Cylinder} (hc : parent = some c) : ¬Above h.up c (.item item) := by
  induction k generalizing parent c with
  | zero => cases hcheck
  | succ k ih =>
      subst hc
      rw [checkParents] at hcheck
      by_cases hitem : c = .item item
      · rw [if_pos hitem] at hcheck
        cases hcheck
      rw [if_neg hitem] at hcheck
      by_cases hinbox : (checkInbox && h.isInbox c) = true
      · rw [if_pos hinbox] at hcheck
        cases hcheck
      rw [if_neg hinbox] at hcheck
      intro habove
      have hpicked : h.isPickupable w item ≠ false := by
        rw [hpickup]
        exact nofun
      cases hparent : h.getParent k c with
      | none =>
          rw [hparent] at hcheck
          cases hcheck
      | some parent =>
          rw [hparent] at hcheck
          cases parent with
          | none =>
              rcases getParent_none hr hparent habove with heq | hnot
              · exact hitem heq
              · exact hpicked hnot
          | some p =>
              rcases getParent_some hr hparent habove with heq | hrest | hnot
              · exact hitem heq
              · exact ih hcheck rfl hrest
              · exact hpicked hnot

theorem checkParents_ne {item : Nat} {checkInbox : Bool} {k : Nat} {parent : Option Cylinder} :
    h.checkParents item checkInbox k parent ≠ some .needExchange := by
  induction k generalizing parent with
  | zero => exact nofun
  | succ k ih =>
      cases parent with
      | none => exact nofun
      | some c =>
          rw [checkParents]
          split
          · exact nofun
          · split
            · exact nofun
            · cases h.getParent k c with
              | none => exact nofun
              | some parent => exact ih

/-! ## `queryAdd` lets an item through -/

/-- The answers after which `internalMoveItem` goes on. -/
def Goes (ret : ReturnValue) : Prop := ret = .noError ∨ ret = .needExchange

theorem containerQueryAdd_goes (hr : h.Rooted w) {i : Nat} {c : HeapContainer}
    {top : Cylinder → Option ReturnValue} {index : Int} {item : Nat} {flags : BitVec 32}
    (hflags : hasBitSet FLAG_CHILDISOWNER flags = false) {ret : ReturnValue} (hret : Goes ret)
    (hquery : c.containerQueryAdd w h n i top index item flags = some ret) :
    h.isPickupable w item = true ∧ ¬Above h.up (.item i) (.item item) := by
  rw [HeapContainer.containerQueryAdd, hflags, if_neg nofun] at hquery
  -- an answer that is neither of the two
  have hother : ∀ {ret'}, ¬Goes ret' → (some ret' : Option ReturnValue) ≠ some ret :=
    fun hnot heq => hnot (Option.some.inj heq ▸ hret)
  by_cases hlocked : c.unlocked = false
  · rw [if_pos hlocked] at hquery
    exact absurd hquery (hother (by rintro (h | h) <;> cases h))
  rw [if_neg hlocked] at hquery
  by_cases hpickup : h.isPickupable w item = false
  · rw [if_pos hpickup] at hquery
    exact absurd hquery (hother (by rintro (h | h) <;> cases h))
  rw [if_neg hpickup] at hquery
  by_cases hself : item = i
  · rw [if_pos hself] at hquery
    exact absurd hquery (hother (by rintro (h | h) <;> cases h))
  rw [if_neg hself] at hquery
  have hpicked : h.isPickupable w item = true := Bool.not_eq_false _ ▸ hpickup
  refine ⟨hpicked, fun habove => ?_⟩
  have hne : (Cylinder.item i) ≠ .item item := fun heq => hself (Cylinder.item.inj heq).symm
  cases hparent : h.getParent n (.item i) with
  | none =>
      rw [hparent] at hquery
      cases hquery
  | some parent =>
      rw [hparent] at hquery
      dsimp only at hquery
      cases hcheck : h.checkParents item (!hasBitSet FLAG_NOLIMIT flags) n parent with
      | none =>
          rw [hcheck] at hquery
          cases hquery
      | some ret' =>
          rw [hcheck] at hquery
          by_cases hwalk : ret' = .noError
          · subst hwalk
            cases parent with
            | none =>
                rcases getParent_none hr hparent habove with heq | hnot
                · exact hne heq
                · exact hpickup hnot
            | some p =>
                rcases getParent_some hr hparent habove with heq | hrest | hnot
                · exact hne heq
                · exact checkParents_noError hr hpicked hcheck rfl hrest
                · exact hpickup hnot
          · -- the walk has found something, and its answer is the answer
            have hfound : ret' = ret := by
              cases ret' with
              | noError => exact absurd rfl hwalk
              | _ => exact Option.some.inj hquery
            subst hfound
            rcases hret with rfl | rfl
            · exact hwalk rfl
            · exact checkParents_ne hcheck

theorem queryAdd_goes (hr : h.Rooted w) {i : Nat} {c : HeapContainer} (hc : h.container i = some c)
    {top : Cylinder → Option ReturnValue} {index : Int} {item : Nat} {count flags : BitVec 32}
    (hflags : hasBitSet FLAG_CHILDISOWNER flags = false) {ret : ReturnValue} (hret : Goes ret)
    (hquery : c.queryAdd w h n i top index item count flags = some ret) :
    h.isPickupable w item = true ∧ ¬Above h.up (.item i) (.item item) := by
  rw [HeapContainer.queryAdd] at hquery
  cases hkind : c.kind with
  | container =>
      rw [hkind] at hquery
      exact containerQueryAdd_goes hr hflags hret hquery
  | depotLocker =>
      rw [hkind] at hquery
      obtain rfl := Option.some.inj hquery
      rcases hret with h | h <;> cases h
  | depotChest maxDepotItems =>
      rw [hkind] at hquery
      change c.depotChestQueryAdd w h n i maxDepotItems top index item count flags = _ at hquery
      rw [HeapContainer.depotChestQueryAdd] at hquery
      split at hquery
      · exact containerQueryAdd_goes hr hflags hret hquery
      · split at hquery
        · split at hquery
          · obtain rfl := Option.some.inj hquery
            rcases hret with h | h <;> cases h
          · exact containerQueryAdd_goes hr hflags hret hquery
        · cases hquery
  | inbox =>
      rw [hkind] at hquery
      have hinbox := Option.some.inj hquery
      rw [HeapContainer.inboxQueryAdd] at hinbox
      split at hinbox
      · rcases hret with h | h <;> rw [h] at hinbox <;> cases hinbox
      · split at hinbox
        · rcases hret with h | h <;> rw [h] at hinbox <;> cases hinbox
        · split at hinbox
          · rcases hret with h | h <;> rw [h] at hinbox <;> cases hinbox
          · rename_i hpickup
            have hskips : h.skipsParent (.item i) = true := by
              show (h.container i).any _ = true
              rw [hc, Option.any_some, hkind]
              rfl
            -- nothing above an inbox can be picked up
            exact ⟨Bool.not_eq_false _ ▸ hpickup, fun habove =>
              hpickup (hr.pinned i hskips item habove)⟩

/-- A cylinder that lets an item through is free for it. -/
theorem free_of_queryAdd (hr : h.Rooted w) {c : Cylinder} {index : Int} {item : Nat}
    {count flags : BitVec 32} (hflags : hasBitSet FLAG_CHILDISOWNER flags = false)
    {ret : ReturnValue} (hret : Goes ret)
    (hquery : h.queryAdd w o n c index item count flags = some ret) : h.Free c item := by
  intro i hc hsome
  subst hc
  obtain ⟨k, hk⟩ := Option.isSome_iff_exists.mp hsome
  rw [queryAdd, queryAddWith, hk] at hquery
  obtain ⟨hpickup, hnot⟩ := queryAdd_goes hr hk hflags hret hquery
  refine ⟨hnot, fun d hd habove => ?_⟩
  rw [hr.pinned d hd item habove] at hpickup
  cases hpickup

/-! ## The operations of a cylinder -/

theorem loosens_containerRemoveThing {i : Nat} {k : HeapContainer} (hk : h.container i = some k)
    (item : Nat) (count : BitVec 32) : h.Loosens (h.containerRemoveThing w i k item count) := by
  rw [containerRemoveThing]
  split
  · exact .refl h
  · split
    · exact loosens_setObject item rfl
    · exact (loosens_setParent_none item).trans
        (loosens_setItemlist (h := h.setParent item none) hk _)

theorem loosens_removeThing (c : Cylinder) (item : Nat) (count : BitVec 32) :
    h.Loosens (h.removeThing w o c item count) := by
  unfold removeThing
  split
  case h_1 i =>
      split
      case h_1 k hk => exact loosens_containerRemoveThing hk item count
      case h_2 => exact o.removeThing_loosens ..
  case h_2 => exact o.removeThing_loosens ..

theorem loosens_updateThing (c : Cylinder) (item : Nat) (count : BitVec 32) :
    h.Loosens (h.updateThing w o c item (h.object item).id count) := by
  unfold updateThing
  split
  case h_1 i =>
      split
      case h_1 k hk =>
          rw [containerUpdateThing]
          split
          · exact .refl h
          · refine loosens_setObject item ?_
            rw [setSubType_id, setID_id]
      case h_2 => exact o.updateThing_loosens ..
  case h_2 => exact o.updateThing_loosens ..

theorem Rooted.addThing (hr : h.Rooted w) {c : Cylinder} {item : Nat} (hfree : h.Free c item)
    (index : Int) : (h.addThing o c index item).Rooted w := by
  unfold Heap.addThing
  split
  case h_1 i =>
      split
      case h_1 k hk =>
          rw [containerAddThing]
          split
          · exact hr
          · have hput := hr.setParent (Option.isSome_iff_exists.mpr ⟨k, hk⟩) hfree
            exact (loosens_setItemlist (h := h.setParent item _) hk _).rooted hput
      case h_2 => exact (o.addThing_loosens ..).rooted hr
  case h_2 => exact (o.addThing_loosens ..).rooted hr

/-! ## `queryDestination` -/

theorem getParent_made (hr : h.Rooted w) {c : Cylinder} (hc : h.Made c) {p : Cylinder}
    (hparent : h.getParent n c = some (some p)) : h.Made p := by
  induction n generalizing c with
  | zero => cases hparent
  | succ n ih =>
      rw [getParent] at hparent
      cases hup : h.up c with
      | none =>
          rw [hup] at hparent
          cases hparent
      | some q =>
          rw [hup] at hparent
          dsimp only at hparent
          have hq : h.Made q := by
            cases c with
            | item i => exact hr.above_lt (hc i rfl) (.single hup)
            | player _ =>
                obtain ⟨t, -, rfl⟩ := Option.map_eq_some_iff.mp hup
                exact nofun
            | tile _ | virtualCylinder => cases hup
          split at hparent
          · exact ih hq hparent
          · exact Option.some.inj (Option.some.inj hparent) ▸ hq

theorem isCylinder_of_filter {P : Prop} [Decidable P] {toItem : Option Nat} {subCylinder : Nat}
    (hsub : (if P then toItem.filter h.isCylinder else none) = some subCylinder) :
    h.Made (.item subCylinder) := by
  split at hsub
  · have hcylinder := (Option.filter_eq_some_iff.mp hsub).2
    rw [isCylinder, Bool.and_eq_true] at hcylinder
    exact fun j hj => Cylinder.item.inj hj ▸ of_decide_eq_true hcylinder.1
  · cases hsub

theorem containerQueryDestination_spec {i : Nat} (hi : i < h.next) (hr : h.Rooted w)
    {c : HeapContainer} {index : Int} {item : Nat} {toItem : Option Nat} {flags : BitVec 32}
    {d : Destination}
    (hquery : h.containerQueryDestination w n i c index item toItem flags = some d) :
    h.Made d.cylinder ∧ d.flags = flags := by
  have hself : h.Made (.item i) := fun k hk => Cylinder.item.inj hk ▸ hi
  rw [containerQueryDestination] at hquery
  by_cases hlocked : c.unlocked = false
  · rw [if_pos hlocked] at hquery
    exact Option.some.inj hquery ▸ ⟨hself, rfl⟩
  rw [if_neg hlocked] at hquery
  by_cases hup : index = 254
  · rw [if_pos hup] at hquery
    split at hquery
    · cases hquery
    · rename_i k hparent
      refine Option.some.inj hquery ▸ ⟨?_, rfl⟩
      intro j hj
      have hj' := Cylinder.item.inj hj
      split at hj'
      · exact hj' ▸ getParent_made hr hself hparent k rfl
      · exact hj' ▸ hi
    · exact Option.some.inj hquery ▸ ⟨hself, rfl⟩
  rw [if_neg hup] at hquery
  dsimp only at hquery
  split at hquery
  · rename_i subCylinder hsub
    exact Option.some.inj hquery ▸ ⟨isCylinder_of_filter hsub, rfl⟩
  · split at hquery
    · split at hquery
      · cases hquery
      · split at hquery
        · exact Option.some.inj hquery ▸ ⟨hself, rfl⟩
        · split at hquery
          · exact Option.some.inj hquery ▸ ⟨hself, rfl⟩
          · exact Option.some.inj hquery ▸ ⟨hself, rfl⟩
    · exact Option.some.inj hquery ▸ ⟨hself, rfl⟩

theorem queryDestination_spec (hr : h.Rooted w) {c : Cylinder} (hc : h.Made c) {index : Int}
    {item : Nat} {toItem : Option Nat} {flags : BitVec 32} {d : Destination}
    (hquery : h.queryDestination w o n c index item toItem flags = some d) :
    h.Made d.cylinder ∧
      hasBitSet FLAG_CHILDISOWNER d.flags = hasBitSet FLAG_CHILDISOWNER flags := by
  unfold queryDestination at hquery
  split at hquery
  · split at hquery
    · obtain ⟨hmade, hflags⟩ := containerQueryDestination_spec (hc _ rfl) hr hquery
      exact ⟨hmade, congrArg _ hflags⟩
    · exact ⟨o.queryDestination_made _ _ _ _ _ _ _ hquery hc,
        o.queryDestination_flags _ _ _ _ _ _ _ hquery⟩
  · exact ⟨o.queryDestination_made _ _ _ _ _ _ _ hquery hc,
      o.queryDestination_flags _ _ _ _ _ _ _ hquery⟩

theorem findDestination_spec (hr : h.Rooted w) {item k : Nat} {d d' : Destination}
    (hmade : h.Made d.cylinder) (hflags : hasBitSet FLAG_CHILDISOWNER d.flags = false)
    (hfind : h.findDestination w o n item k d = some d') :
    h.Made d'.cylinder ∧ hasBitSet FLAG_CHILDISOWNER d'.flags = false := by
  induction k generalizing d with
  | zero =>
      obtain rfl := Option.some.inj hfind
      exact ⟨hmade, hflags⟩
  | succ k ih =>
      rw [findDestination] at hfind
      cases hquery : h.queryDestination w o n d.cylinder d.index item d.toItem d.flags with
      | none =>
          rw [hquery] at hfind
          cases hfind
      | some d₁ =>
          rw [hquery] at hfind
          obtain ⟨hmade₁, hflags₁⟩ := queryDestination_spec hr hmade hquery
          dsimp only at hfind
          split at hfind
          · exact Option.some.inj hfind ▸ ⟨hmade₁, hflags₁.trans hflags⟩
          · have hzero : hasBitSet FLAG_CHILDISOWNER 0 = false := by decide
            exact ih (d := { d₁ with flags := 0 }) hmade₁ hzero hfind

/-! ## The moves -/

theorem next_addThing (c : Cylinder) (index : Int) (item : Nat) :
    (h.addThing o c index item).next = h.next := by
  unfold addThing
  split
  · split
    · rw [containerAddThing]
      split <;> rfl
    · exact (o.addThing_loosens ..).next
  · exact (o.addThing_loosens ..).next

/-- The exchange leaves the destination free for the item. -/
theorem exchange_spec (hr : h.Rooted w) {fromCylinder : Cylinder} {item : Nat}
    {count : BitVec 32} {d : Destination}
    (hflags : hasBitSet FLAG_CHILDISOWNER d.flags = false) (hfree : h.Free d.cylinder item)
    {ret : ReturnValue} {toItem : Option Nat}
    (hexchange : h.exchange w o n fromCylinder item count d = some (h', ret, toItem)) :
    h'.Rooted w ∧ h'.next = h.next ∧ (ret = .noError → h'.Free d.cylinder item) := by
  rw [exchange] at hexchange
  cases htoItem : d.toItem with
  | none =>
      rw [htoItem] at hexchange
      cases hexchange
  | some t =>
      rw [htoItem] at hexchange
      dsimp only at hexchange
      have hsame : ∀ {r : Heap σ × ReturnValue × Option Nat}, (h, r.2) = (h', ret, toItem) →
          h'.Rooted w ∧ h'.next = h.next ∧ (ret = .noError → h'.Free d.cylinder item) := by
        intro r heq
        obtain ⟨rfl, _⟩ := Prod.mk.inj heq
        exact ⟨hr, rfl, fun _ => hfree⟩
      split at hexchange
      · cases hexchange
      · rename_i hfrom
        split at hexchange
        · cases hexchange
        · split at hexchange
          · exact hsame (r := (h, _)) (Option.some.inj hexchange)
          · split at hexchange
            · cases hexchange
            · obtain ⟨ret', hquery, hresult⟩ := Option.map_eq_some_iff.mp hexchange
              obtain ⟨rfl, hret⟩ := Prod.mk.inj hresult
              obtain ⟨rfl, _⟩ := Prod.mk.inj hret
              have hremoved := loosens_removeThing (h := h) (w := w) (o := o) d.cylinder t
                ((h.getItemCount t).setWidth 32)
              have hput : (h.Free fromCylinder t) :=
                free_of_queryAdd hr (by decide) (.inl rfl) hfrom
              have hadded := (hremoved.rooted hr).addThing (o := o) (hremoved.free hput) 0
              refine ⟨hadded, (next_addThing ..).trans hremoved.next, ?_⟩
              rintro rfl
              -- the destination is asked again
              exact free_of_queryAdd hadded hflags (.inl rfl) hquery
            · exact hsame (r := (h, _)) (Option.some.inj hexchange)
      · exact hsame (r := (h, _)) (Option.some.inj hexchange)

theorem loosens_mergeThing (item : Nat) (m : BitVec 32) (d : Destination) :
    h.Loosens (h.mergeThing w o item m d).1 := by
  rw [mergeThing]
  split
  · split
    · exact loosens_updateThing ..
    · exact .refl h
  · exact .refl h

theorem moveThing_rooted (hr : h.Rooted w) {fromCylinder : Cylinder} {item : Nat}
    {m : BitVec 32} {d : Destination} (hmade : h.Made d.cylinder)
    (hfree : h.Free d.cylinder item) {moveItem : Option Nat}
    (hmove : h.moveThing w o n fromCylinder item m d = some (h', moveItem)) : h'.Rooted w := by
  rw [moveThing] at hmove
  have hremoved := loosens_removeThing (h := h) (w := w) (o := o) fromCylinder item m
  generalize h.removeThing w o fromCylinder item m = h₁ at hmove hremoved
  dsimp only at hmove
  split at hmove
  · -- a stack: part of it, or all of it, is merged into the item at the destination
    have hmerged := hremoved.trans (loosens_mergeThing (w := w) (o := o) (h := h₁) item m d)
    generalize h₁.mergeThing w o item m d = merged at hmove hmerged
    split at hmove
    · obtain ⟨⟨h₂, k⟩, hclone, hresult⟩ := Option.map_eq_some_iff.mp hmove
      obtain ⟨rfl, _⟩ := Prod.mk.inj hresult
      have hr₁ := hmerged.rooted hr
      have hcloned := clone_spec hr₁ hclone
      have hcount : h₂.Loosens (h₂.setItemCount k ((m - merged.2).setWidth 16)) :=
        loosens_setObject k rfl
      refine (hcount.rooted hcloned.rooted).addThing (hcount.free ?_) _
      refine hcloned.extended.free hr₁ hcloned.new fun i hi => ?_
      rw [hmerged.next]
      exact hmade i hi
    · obtain ⟨rfl, _⟩ := Prod.mk.inj (Option.some.inj hmove)
      exact hmerged.rooted hr
  · obtain ⟨rfl, _⟩ := Prod.mk.inj (Option.some.inj hmove)
    exact (hremoved.rooted hr).addThing (hremoved.free hfree) _

/-- Where nothing was done the heap is the one it was. -/
theorem Rooted.of_same {α : Type} {a b : α} (hr : h.Rooted w) (heq : some (h, a) = some (h', b)) :
    h'.Rooted w := by
  obtain ⟨rfl, _⟩ := Prod.mk.inj (Option.some.inj heq)
  exact hr

theorem moveChecked_rooted (hr : h.Rooted w) {fromCylinder : Cylinder} {item : Nat}
    {count : BitVec 32} {d : Destination} (hmade : h.Made d.cylinder)
    (hfree : h.Free d.cylinder item) {tradeItem : Option Nat} {moved : Moved}
    (hmove : h.moveChecked w o n fromCylinder item count d tradeItem = some (h', moved)) :
    h'.Rooted w := by
  rw [moveChecked] at hmove
  split at hmove
  · cases hmove
  · split at hmove
    · exact hr.of_same hmove
    · dsimp only at hmove
      split at hmove
      · cases hmove
      · split at hmove
        · cases hmove
        · exact hr.of_same hmove
        · obtain ⟨⟨h₁, moveItem⟩, hthing, hresult⟩ := Option.map_eq_some_iff.mp hmove
          obtain ⟨rfl, _⟩ := Prod.mk.inj hresult
          exact moveThing_rooted hr hmade hfree hthing
      · exact hr.of_same hmove

theorem internalMoveItem_rooted (hr : h.Rooted w) {fromCylinder toCylinder : Cylinder}
    (hto : h.Made toCylinder) {index : Int} {item : Nat} {count flags : BitVec 32}
    (hflags : hasBitSet FLAG_CHILDISOWNER flags = false) {tradeItem : Option Nat} {moved : Moved}
    (hmove : h.internalMoveItem w o n fromCylinder toCylinder index item count flags tradeItem =
      some (h', moved)) : h'.Rooted w := by
  rw [internalMoveItem] at hmove
  split at hmove
  · rename_i fromCylinder d _ hfind
    obtain ⟨hmade, hdflags⟩ := findDestination_spec hr hto hflags hfind
    split at hmove
    · exact hr.of_same hmove
    · split at hmove
      · cases hmove
      · rename_i hquery
        have hfree := free_of_queryAdd hr hdflags (.inr rfl) hquery
        split at hmove
        · cases hmove
        · rename_i h₁ toItem hexchange
          obtain ⟨hr₁, hnext, hfree₁⟩ := exchange_spec hr hdflags hfree hexchange
          refine moveChecked_rooted (d := { d with toItem := toItem }) hr₁ (fun i hi => ?_)
            (hfree₁ rfl) hmove
          rw [hnext]
          exact hmade i hi
        · rename_i h₁ ret toItem _ hexchange
          obtain ⟨hr₁, _⟩ := exchange_spec hr hdflags hfree hexchange
          obtain ⟨rfl, _⟩ := Prod.mk.inj (Option.some.inj hmove)
          exact hr₁
      · rename_i hquery
        exact moveChecked_rooted hr hmade (free_of_queryAdd hr hdflags (.inl rfl) hquery) hmove
      · exact hr.of_same hmove
  · cases hmove

theorem internalAddItem_rooted (hr : h.Rooted w) {k : Nat} {destCylinder : Cylinder}
    (hto : h.Made destCylinder) {item : Nat} {index : Int} {flags : BitVec 32}
    (hflags : hasBitSet FLAG_CHILDISOWNER flags = false) {test : Bool} {added : Added}
    (hadd : internalAddItem w o n k h destCylinder item index flags test = some (h', added)) :
    h'.Rooted w := by
  induction k generalizing h item index flags test added with
  | zero => cases hadd
  | succ k ih =>
      rw [internalAddItem] at hadd
      cases hdest : h.queryDestination w o n destCylinder index item none flags with
      | none =>
          rw [hdest] at hadd
          cases hadd
      | some d =>
          rw [hdest] at hadd
          obtain ⟨hmade, hdflags⟩ := queryDestination_spec hr hto hdest
          dsimp only at hadd
          split at hadd
          · cases hadd
          · rename_i hquery
            have hfree := free_of_queryAdd hr (hdflags.trans hflags) (.inl rfl) hquery
            split at hadd
            · cases hadd
            · rename_i maxQueryCount _
              split at hadd
              · exact hr.of_same hadd
              · split at hadd
                · obtain ⟨rfl, _⟩ := Prod.mk.inj (Option.some.inj hadd)
                  exact hr.addThing hfree _
                · rename_i toItem _
                  have hupdated := loosens_updateThing (h := h) (w := w) (o := o) d.cylinder toItem
                    ((h.getItemCount toItem).setWidth 32 +
                      uint32Min (100 - (h.getItemCount toItem).setWidth 32)
                        (uint32Min ((h.getItemCount item).setWidth 32) maxQueryCount))
                  have hr₁ := hupdated.rooted hr
                  split at hadd
                  · split at hadd
                    · split at hadd
                      · cases hadd
                      · rename_i h₂ remainderItem hclone
                        have hcloned := clone_spec hr₁ hclone
                        obtain ⟨⟨h₃, added'⟩, hrest, hresult⟩ := Option.map_eq_some_iff.mp hadd
                        obtain ⟨rfl, _⟩ := Prod.mk.inj hresult
                        have hcount : ∀ count, h₂.Loosens (h₂.setItemCount remainderItem count) :=
                          fun count => loosens_setObject remainderItem rfl
                        -- the remainder is added to the cylinder that was asked first
                        refine ih ((hcount _).rooted hcloned.rooted) (fun i hi => ?_)
                          (hdflags.trans hflags) hrest
                        have hlt := hto i hi
                        have hle := hcloned.extended.next
                        rw [hupdated.next] at hle
                        exact hlt.trans_le hle
                    · obtain ⟨rfl, _⟩ := Prod.mk.inj (Option.some.inj hadd)
                      exact hr₁.addThing (hupdated.free hfree) _
                  · obtain ⟨rfl, _⟩ := Prod.mk.inj (Option.some.inj hadd)
                    exact hr₁
            · exact hr.of_same hadd
          · exact hr.of_same hadd

/-! ## Runs -/

/-- The call is not made with the flag that containers set to ask what they lie in. -/
def NoChildIsOwner : HeapOp → Prop
  | .createItem _ _ => True
  | .internalMoveItem _ _ _ _ _ flags _ => hasBitSet FLAG_CHILDISOWNER flags = false
  | .internalAddItem _ _ _ flags _ => hasBitSet FLAG_CHILDISOWNER flags = false

/-- The cylinder that a call puts the item into exists. -/
def MadeFor (h : Heap σ) : HeapOp → Prop
  | .createItem _ _ => True
  | .internalMoveItem _ toCylinder _ _ _ _ _ => h.Made toCylinder
  | .internalAddItem toCylinder _ _ _ _ => h.Made toCylinder

variable (w o) in
/-- A step is a call that returns. -/
def system : TSys (Heap σ) HeapOp where
  init h := h.Rooted w
  step h op h' := h.MadeFor op ∧ ∃ n, h.run w o n op = some h'

theorem run_rooted (hr : h.Rooted w) {op : HeapOp} (hmade : h.MadeFor op)
    (hflags : NoChildIsOwner op) (hrun : h.run w o n op = some h') : h'.Rooted w := by
  cases op with
  | createItem id count =>
      rw [run] at hrun
      obtain rfl := Option.some.inj hrun
      cases Item.createItem w.toWorld id count with
      | none => exact hr
      | some i => exact hr.new _ (newContainer_skips w id)
  | internalMoveItem fromCylinder toCylinder index item count flags tradeItem =>
      obtain ⟨r, hmove, rfl⟩ := Option.map_eq_some_iff.mp hrun
      exact internalMoveItem_rooted hr hmade hflags hmove
  | internalAddItem toCylinder item index flags test =>
      obtain ⟨r, hadd, rfl⟩ := Option.map_eq_some_iff.mp hrun
      exact internalAddItem_rooted hr hmade hflags hadd

theorem rooted_inductive : (system w o).Inductive (fun _ op => NoChildIsOwner op) (·.Rooted w) where
  init _ hr := hr
  step _ _ _ hr hflags hstep := by
    obtain ⟨hmade, n, hrun⟩ := hstep
    exact run_rooted hr hmade hflags hrun

/-! ## The walk along `getParent` ends -/

theorem getParent_above {c p : Cylinder} (hparent : h.getParent n c = some (some p)) :
    Relation.TransGen (fun a p => h.up a = some p) c p := by
  induction n generalizing c with
  | zero => cases hparent
  | succ n ih =>
      rw [getParent] at hparent
      cases hup : h.up c with
      | none =>
          rw [hup] at hparent
          cases hparent
      | some q =>
          rw [hup] at hparent
          dsimp only at hparent
          split at hparent
          · exact .head hup (ih hparent)
          · exact .single (Option.some.inj (Option.some.inj hparent) ▸ hup)

theorem exists_getParent {c : Cylinder} (hends : Ends h.up c) :
    ∃ n, (h.getParent n c).isSome := by
  induction hends with
  | intro c _ ih =>
      cases hup : h.up c with
      | none => exact ⟨1, by rw [getParent, hup]; rfl⟩
      | some q =>
          obtain ⟨n, hn⟩ := ih q hup
          refine ⟨n + 1, ?_⟩
          rw [getParent, hup]
          dsimp only
          split
          · exact hn
          · rfl

/-- More fuel gives the same parent. -/
theorem getParent_mono {m : Nat} (hle : n ≤ m) {c : Cylinder} {parent : Option Cylinder}
    (hparent : h.getParent n c = some parent) : h.getParent m c = some parent := by
  induction n generalizing m c with
  | zero => cases hparent
  | succ n ih =>
      obtain ⟨m, rfl⟩ : ∃ k, m = k + 1 := ⟨m - 1, by omega⟩
      rw [getParent] at hparent ⊢
      cases hup : h.up c with
      | none =>
          rw [hup] at hparent
          exact hparent
      | some q =>
          rw [hup] at hparent
          dsimp only at hparent ⊢
          split
          · rename_i hskips
            rw [if_pos hskips] at hparent
            exact ih (by omega) hparent
          · rename_i hskips
            rw [if_neg hskips] at hparent
            exact hparent

theorem parents_mono {m : Nat} (hle : n ≤ m) {c : Cylinder} {path : List Cylinder}
    (hpath : h.parents n c = some path) : h.parents m c = some path := by
  induction n generalizing m c path with
  | zero => cases hpath
  | succ n ih =>
      obtain ⟨m, rfl⟩ : ∃ k, m = k + 1 := ⟨m - 1, by omega⟩
      rw [parents] at hpath ⊢
      cases hparent : h.getParent n c with
      | none =>
          rw [hparent] at hpath
          cases hpath
      | some parent =>
          rw [hparent] at hpath
          rw [getParent_mono (by omega) hparent]
          cases parent with
          | none => exact hpath
          | some p =>
              obtain ⟨path', hpath', rfl⟩ := Option.map_eq_some_iff.mp hpath
              exact Option.map_eq_some_iff.mpr ⟨path', ih (by omega) hpath', rfl⟩

theorem exists_parents {c : Cylinder} (hends : Ends h.up c) :
    ∃ n path, h.parents n c = some path := by
  have hends' := hends.transGen
  induction hends' with
  | intro c _ ih =>
      obtain ⟨n, hn⟩ := exists_getParent hends
      obtain ⟨parent, hparent⟩ := Option.isSome_iff_exists.mp hn
      cases parent with
      | none => exact ⟨n + 1, [], by rw [parents, hparent]⟩
      | some p =>
          have habove := getParent_above hparent
          obtain ⟨m, path, hpath⟩ := ih p (Relation.transGen_swap.mpr habove)
            (hends.of_above habove.to_reflTransGen)
          refine ⟨n + m + 1, p :: path, ?_⟩
          rw [parents, getParent_mono (by omega) hparent]
          exact Option.map_eq_some_iff.mpr ⟨path, parents_mono (by omega) hpath, rfl⟩

/-- In every run without `FLAG_CHILDISOWNER`, nothing is inside itself, and the walk along
`getParent` ends from everywhere. -/
theorem acyclic_of_reach (hreach : (system w o).Reach (fun _ op => NoChildIsOwner op) h)
    (c : Cylinder) :
    ¬Relation.TransGen (fun a p => h.up a = some p) c c ∧ ∃ n path, h.parents n c = some path := by
  have hends := (rooted_inductive.invariant hreach).ends c
  exact ⟨hends.not_above_self, exists_parents hends⟩

theorem reach_run {C : Heap σ → HeapOp → Prop} (hreach : (system w o).Reach C h) (op : HeapOp)
    (hop : C h op) (hmade : h.MadeFor op) (n : Nat) (hreturns : (h.run w o n op).isSome) :
    (system w o).Reach C ((h.run w o n op).getD h) := by
  obtain ⟨h', hrun⟩ := Option.isSome_iff_exists.mp hreturns
  rw [hrun]
  exact .next hreach hop ⟨hmade, n, hrun⟩

/-! All items are bags with room for 20 items; there is nothing but items. -/

def bags : CylinderWorld where
  itemType id := { id := id, group := .container }
  addUniqueItem _ := true
  getNameByGuid _ := []
  tileItemType _ := {}
  weight _ := 0
  maxItems _ := 20
  pickupable _ := true

def nothing : Others Unit where
  queryAdd _ _ _ _ _ _ := some .notPossible
  queryMaxCount _ _ _ _ _ _ := some (.notPossible, 0)
  queryRemove _ _ _ _ _ := some .notPossible
  queryDestination _ c index _ toItem flags := some ⟨c, index, toItem, flags⟩
  getThingIndex _ _ _ := -1
  addThing h _ _ _ := h
  updateThing h _ _ _ _ := h
  removeThing h _ _ _ := h
  queryDestination_flags := Others.same_flags
  queryDestination_made := Others.same_made
  addThing_loosens := Others.same_loosens_add
  updateThing_loosens := Others.same_loosens
  removeThing_loosens := Others.same_loosens

def noItems : Heap Unit where
  object _ := { id := 0, cls := .item }
  parent _ := none
  container _ := none
  next := 0
  tile _ := none
  browseFields _ := none
  others := ()

/-- Bags 0 and 1 are made. -/
def twoBags : Heap Unit :=
  let h := (noItems.run bags nothing 0 (.createItem 1 0)).getD noItems
  (h.run bags nothing 0 (.createItem 1 0)).getD h

/-- Bag 1 is put into bag 0. -/
def bagInBag : Heap Unit :=
  (twoBags.run bags nothing 3 (.internalAddItem (.item 0) 1 INDEX_WHEREEVER 0 false)).getD twoBags

theorem reach_bagInBag {C : Heap Unit → HeapOp → Prop}
    (hcreate : ∀ h, C h (.createItem 1 0))
    (hadd : C twoBags (.internalAddItem (.item 0) 1 INDEX_WHEREEVER 0 false)) :
    (system bags nothing).Reach C bagInBag := by
  have hrooted : noItems.Rooted bags := by
    refine ⟨fun c => ends_of_none ?_, nofun, nofun, nofun⟩
    cases c <;> rfl
  have hone := reach_run (o := nothing) (.start hrooted) (.createItem 1 0) (hcreate _) trivial 0 rfl
  have htwo := reach_run hone (.createItem 1 0) (hcreate _) trivial 0 rfl
  refine reach_run htwo (.internalAddItem (.item 0) 1 INDEX_WHEREEVER 0 false) hadd ?_ 3 rfl
  intro i hi
  obtain rfl := Cylinder.item.inj hi
  decide

theorem acyclic_of_reach_bagInBag :
    (system bags nothing).Reach (fun _ op => NoChildIsOwner op) bagInBag ∧
      bagInBag.up (.item 1) = some (.item 0) ∧
      ¬Relation.TransGen (fun a p => bagInBag.up a = some p) (.item 1) (.item 1) ∧
      ∃ n path, bagInBag.parents n (.item 1) = some path := by
  have hzero : hasBitSet FLAG_CHILDISOWNER 0 = false := by decide
  have hreach := reach_bagInBag (C := fun _ op => NoChildIsOwner op) (fun _ => trivial) hzero
  exact ⟨hreach, rfl, acyclic_of_reach hreach (.item 1)⟩

/-- With `FLAG_CHILDISOWNER`, bag 0 is then put into bag 1, which lies in it. -/
theorem internalAddItem_cycle :
    let h := (bagInBag.run bags nothing 3
      (.internalAddItem (.item 1) 0 INDEX_WHEREEVER FLAG_CHILDISOWNER false)).getD bagInBag
    (system bags nothing).Reachable h ∧
      Relation.TransGen (fun a p => h.up a = some p) (.item 0) (.item 0) := by
  have hreach := reach_bagInBag (C := fun _ _ => True) (fun _ => trivial) trivial
  have hmade : bagInBag.MadeFor
      (.internalAddItem (.item 1) 0 INDEX_WHEREEVER FLAG_CHILDISOWNER false) := by
    intro i hi
    obtain rfl := Cylinder.item.inj hi
    decide
  refine ⟨reach_run hreach _ trivial hmade 3 rfl, ?_⟩
  · exact .head (b := .item 1) rfl (.single rfl)

end Infernum.Heap
