import Infernum.Inventory.RemoveItems
import Mathlib.Algebra.BigOperators.Group.List.Basic
import Mathlib.Algebra.Order.BigOperators.Group.List

/-!
# What the search takes

The search looks at the items of the slots, and at the contents of the containers in those
slots whose item does not count itself. It takes the first ones that are enough.
-/

namespace Infernum.Inventory

open Lib (Rose Placed)

variable (w : World) (itemId : BitVec 16) (subType : Int)

/-- What an item adds to the count of its type. -/
def unitsOf (e : Entry) : Nat :=
  if e.object.id = itemId then (countByType w e.object subType).toNat else 0

/-- The item lies in a slot. -/
def equipped (r : Record) : Bool :=
  match r.above with
  | [.slot _] => true
  | _ => false

/-- What an item where it lies adds to the count. -/
def units (ignoreEquipped : Bool) (r : Record) : Nat :=
  if ignoreEquipped && equipped r then 0 else unitsOf w itemId subType r.label

/-- All units of a player. -/
def Player.counted (p : Player) (ignoreEquipped : Bool) : Nat :=
  (p.all.map (units w itemId subType ignoreEquipped)).sum

/-- The items that count for nothing, where they lie. -/
def Player.uncounted (p : Player) (ignoreEquipped : Bool) : List Record :=
  p.all.filter fun r => units w itemId subType ignoreEquipped r = 0

/-! ## `getItemTypeCount` -/

variable {w itemId subType}

theorem add_unitsOf (count : BitVec 32) (e : Entry) :
    (if e.object.id = itemId then count + countByType w e.object subType else count) =
      count + .ofNat 32 (unitsOf w itemId subType e) := by
  rw [unitsOf]
  split
  · rw [BitVec.ofNat_toNat, BitVec.setWidth_eq]
  · exact (BitVec.add_zero count).symm

theorem foldl_unitsOf (es : List Entry) (count : BitVec 32) :
    es.foldl (fun count e =>
        if e.object.id = itemId then count + countByType w e.object subType else count) count =
      count + .ofNat 32 (es.map (unitsOf w itemId subType)).sum := by
  induction es generalizing count with
  | nil => exact (BitVec.add_zero count).symm
  | cons e es ih =>
    rw [List.foldl_cons, add_unitsOf, ih, List.map_cons, List.sum_cons, BitVec.ofNat_add,
      BitVec.add_assoc]

/-- The units of a tree, wherever it lies. -/
theorem sum_placed (above : List Place) (t : Held) :
    ((Rose.placed Entry.place above t).map fun r => unitsOf w itemId subType r.label).sum =
      unitsOf w itemId subType t.label +
        ((iterator t).map (unitsOf w itemId subType)).sum := by
  have hlabels := congrArg (List.map (unitsOf w itemId subType))
    (@Rose.label_placed _ _ Entry.place above t)
  rw [List.map_map] at hlabels
  have hperm := ((Rose.breadth_perm t.children).map (unitsOf w itemId subType)).sum_eq
  cases t with
  | node e ts =>
    rw [Rose.flatten_node, ← Rose.flattenList_eq, List.map_cons] at hlabels
    rw [iterator, hperm]
    exact congrArg List.sum hlabels

/-- `getItemTypeCount` counts all units, in 32 bits. -/
theorem getItemTypeCount_eq (p : Player) :
    p.getItemTypeCount w itemId subType =
      .ofNat 32 (p.counted w itemId subType false) := by
  have hslots : ∀ (slots : Slots) (n : Nat) (count : BitVec 32),
      slots.foldl (countSlot w itemId subType) count =
        count + .ofNat 32
          ((records n slots).map (units w itemId subType false)).sum := by
    intro slots
    induction slots with
    | nil =>
      intro n count
      exact (BitVec.add_zero count).symm
    | cons slot slots ih =>
      intro n count
      cases slot with
      | none => exact ih (n + 1) count
      | some t =>
        rw [List.foldl_cons, ih (n + 1), records, List.map_append, List.sum_append, countSlot]
        rw [foldl_unitsOf, add_unitsOf]
        have htree := @sum_placed w itemId subType [.slot n] t
        have hsame : (Rose.placed Entry.place [.slot n] t).map (units w itemId subType false) =
            (Rose.placed Entry.place [.slot n] t).map fun r => unitsOf w itemId subType r.label :=
          rfl
        rw [hsame, htree, BitVec.ofNat_add, BitVec.ofNat_add]
        simp only [BitVec.add_assoc]
  rw [Player.getItemTypeCount, hslots p.slots 0 0]
  exact BitVec.zero_add _

/-! ## The search -/

variable (w itemId subType)

/-- What the search looks at in a slot. -/
def lookedIn (ignoreEquipped : Bool) : Option Held → List Entry
  | none => []
  | some t =>
    if ignoreEquipped = false ∧ t.label.object.id = itemId then [t.label] else iterator t

/-- The items that the search looks at. -/
def lookedAt (ignoreEquipped : Bool) (slots : Slots) : List Entry :=
  slots.flatMap (lookedIn itemId ignoreEquipped)

/-- The first items that are enough. -/
def taken : Nat → List Entry → List Entry
  | _, [] => []
  | amount, e :: es =>
    if unitsOf w itemId subType e = 0 then taken amount es
    else if amount ≤ unitsOf w itemId subType e then [e]
    else e :: taken (amount - unitsOf w itemId subType e) es

def total (es : List Entry) : Nat := (es.map (unitsOf w itemId subType)).sum

variable {w itemId subType}

@[simp] theorem total_nil : total w itemId subType [] = 0 := rfl

@[simp] theorem total_cons (e : Entry) (es : List Entry) :
    total w itemId subType (e :: es) = unitsOf w itemId subType e + total w itemId subType es := by
  rw [total, List.map_cons, List.sum_cons]
  rfl

@[simp] theorem total_append (es fs : List Entry) :
    total w itemId subType (es ++ fs) = total w itemId subType es + total w itemId subType fs := by
  rw [total, List.map_append, List.sum_append]
  rfl

variable (w itemId subType) in
/-- The step of the search at one item. -/
def step (amount : BitVec 32) (f : Found) (e : Entry) : Except (List Entry) Found :=
  if e.object.id = itemId then f.push w amount subType e else .ok f

/-- The loops over slots and containers are one loop. -/
theorem search_eq (amount : BitVec 32) (ignoreEquipped : Bool) (slots : Slots) (f : Found) :
    slots.foldlM (Found.search w itemId amount subType ignoreEquipped) f =
      (lookedAt itemId ignoreEquipped slots).foldlM
        (step w itemId subType amount) f := by
  induction slots generalizing f with
  | nil => rfl
  | cons slot slots ih =>
    have hslot : Found.search w itemId amount subType ignoreEquipped f slot =
        (lookedIn itemId ignoreEquipped slot).foldlM (step w itemId subType amount) f := by
      cases slot with
      | none => rfl
      | some t =>
        rw [Found.search, lookedIn]
        split
        · next h =>
          rw [List.foldlM_cons, step, if_pos h.2]
          cases f.push w amount subType t.label <;> rfl
        · rfl
    rw [List.foldlM_cons, hslot, lookedAt, List.flatMap_cons, List.foldlM_append]
    congr 1
    funext f'
    exact ih f'

theorem step_zero (amount : BitVec 32) (f : Found) {e : Entry}
    (h : unitsOf w itemId subType e = 0) : step w itemId subType amount f e = .ok f := by
  rw [unitsOf] at h
  rw [step]
  split at h
  · next hid =>
    have hzero : countByType w e.object subType = 0 := BitVec.eq_of_toNat_eq h
    rw [if_pos hid, Found.push]
    exact if_pos hzero
  · next hid => rw [if_neg hid]

theorem step_pos {amount : BitVec 32} {f : Found} {e : Entry}
    (h : unitsOf w itemId subType e ≠ 0)
    (hfits : f.count.toNat + unitsOf w itemId subType e < 2 ^ 32) :
    ∃ count : BitVec 32, count.toNat = f.count.toNat + unitsOf w itemId subType e ∧
      step w itemId subType amount f e =
        if amount ≤ count then .error (f.itemList ++ [e]) else .ok ⟨f.itemList ++ [e], count⟩ := by
  rw [unitsOf] at h hfits ⊢
  split at h
  · next hid =>
    rw [if_pos hid] at hfits ⊢
    refine ⟨f.count + countByType w e.object subType, ?_, ?_⟩
    · rw [BitVec.toNat_add, Nat.mod_eq_of_lt hfits]
    · have hne : countByType w e.object subType ≠ 0 := by
        intro hzero
        rw [hzero] at h
        exact h rfl
      rw [step, if_pos hid, Found.push]
      exact if_neg hne
  · exact absurd rfl h

/-- What the loop finds: with enough units in all, the first items that are enough. -/
theorem foldlM_step {amount : BitVec 32} {es : List Entry} {f : Found}
    (hless : f.count.toNat < amount.toNat)
    (hfits : f.count.toNat + total w itemId subType es < 2 ^ 32) :
    (amount.toNat ≤ f.count.toNat + total w itemId subType es →
      es.foldlM (step w itemId subType amount) f =
        .error (f.itemList ++ taken w itemId subType (amount.toNat - f.count.toNat) es)) ∧
    (f.count.toNat + total w itemId subType es < amount.toNat →
      ∃ f', es.foldlM (step w itemId subType amount) f = .ok f') := by
  induction es generalizing f with
  | nil =>
    refine ⟨fun h => ?_, fun _ => ⟨f, rfl⟩⟩
    rw [total_nil] at h
    omega
  | cons e es ih =>
    rw [total_cons] at hfits ⊢
    by_cases hzero : unitsOf w itemId subType e = 0
    · rw [List.foldlM_cons, step_zero amount f hzero, taken, if_pos hzero, hzero, Nat.zero_add]
      exact ih hless (by omega)
    · obtain ⟨count, hcount, hstep⟩ := @step_pos w itemId subType amount f e hzero (by omega)
      rw [List.foldlM_cons, hstep, taken, if_neg hzero]
      by_cases henough : amount ≤ count
      · have hle : amount.toNat ≤ count.toNat := henough
        rw [if_pos henough, if_pos (by omega)]
        exact ⟨fun _ => rfl, fun h => by omega⟩
      · have hlt : count.toNat < amount.toNat := Nat.lt_of_not_le henough
        obtain ⟨hfound, hnone⟩ := @ih ⟨f.itemList ++ [e], count⟩ hlt (by
          show count.toNat + _ < _
          omega)
        have hrest : amount.toNat - f.count.toNat - unitsOf w itemId subType e =
            amount.toNat - count.toNat := by omega
        rw [if_neg henough, if_neg (by omega), hrest]
        constructor
        · intro h
          have hthere := hfound (by
            show _ ≤ count.toNat + _
            omega)
          rw [List.append_assoc] at hthere
          exact hthere
        · intro h
          exact hnone (by
            show count.toNat + _ < _
            omega)

/-! ## What is taken -/

theorem taken_sublist (amount : Nat) (es : List Entry) :
    (taken w itemId subType amount es).Sublist es := by
  induction es generalizing amount with
  | nil => exact .slnil
  | cons e es ih =>
    rw [taken]
    split
    · exact (ih amount).cons e
    · split
      · exact (List.nil_sublist es).cons_cons e
      · exact (ih _).cons_cons e

theorem unitsOf_taken {amount : Nat} {es : List Entry} :
    ∀ e ∈ taken w itemId subType amount es, unitsOf w itemId subType e ≠ 0 := by
  induction es generalizing amount with
  | nil => nofun
  | cons e es ih =>
    rw [taken]
    split
    · exact ih
    · next hne =>
      split
      · rintro e' he'
        rw [List.mem_singleton.mp he']
        exact hne
      · rintro e' he'
        rcases List.mem_cons.mp he' with rfl | he'
        · exact hne
        · exact ih e' he'

/-- The last item that is taken is needed, and is enough. -/
theorem taken_split {amount : Nat} {es : List Entry} (hpos : 0 < amount)
    (henough : amount ≤ total w itemId subType es) :
    ∃ init last, taken w itemId subType amount es = init ++ [last] ∧
      total w itemId subType init < amount ∧
      amount ≤ total w itemId subType init + unitsOf w itemId subType last := by
  induction es generalizing amount with
  | nil =>
    rw [total_nil] at henough
    omega
  | cons e es ih =>
    rw [total_cons] at henough
    rw [taken]
    split
    · exact ih hpos (by omega)
    · split
      · exact ⟨[], e, rfl, hpos, by rw [total_nil]; omega⟩
      · obtain ⟨init, last, heq, hless, hle⟩ :=
          @ih (amount - unitsOf w itemId subType e) (by omega) (by omega)
        refine ⟨e :: init, last, by rw [heq]; rfl, ?_, ?_⟩
        · rw [total_cons]
          omega
        · rw [total_cons]
          omega

/-! ## Where the items lie that the search looks at -/

/-- What the search looks at lies somewhere, and counts there. -/
theorem lookedAt_subperm (ignoreEquipped : Bool) (slots : Slots) (n : Nat) :
    (lookedAt itemId ignoreEquipped slots).Subperm ((records n slots).map Placed.label) := by
  induction slots generalizing n with
  | nil => exact List.Subperm.refl _
  | cons slot slots ih =>
    rw [lookedAt, List.flatMap_cons]
    cases slot with
    | none => exact ih (n + 1)
    | some t =>
      rw [records, List.map_append, Rose.label_placed]
      refine List.Subperm.trans ?_ ((List.subperm_append_left _).mpr (ih (n + 1)))
      refine (List.subperm_append_right _).mpr ?_
      rw [lookedIn]
      cases t with
      | node e ts =>
        rw [Rose.flatten_node, ← Rose.flattenList_eq]
        split
        · exact (List.nil_sublist _ |>.cons_cons e).subperm
        · exact ((Rose.breadth_perm ts).subperm).trans (List.sublist_cons_self _ _).subperm

theorem exists_record {ignoreEquipped : Bool} {slots : Slots} {n : Nat} {e : Entry}
    (he : e ∈ lookedAt itemId ignoreEquipped slots) :
    ∃ r ∈ records n slots, r.label = e ∧
      units w itemId subType ignoreEquipped r = unitsOf w itemId subType e := by
  induction slots generalizing n with
  | nil => cases he
  | cons slot slots ih =>
    rw [lookedAt, List.flatMap_cons] at he
    cases slot with
    | none => exact ih he
    | some t =>
      rw [records]
      rcases List.mem_append.mp he with hhere | hrest
      · rw [lookedIn] at hhere
        split at hhere
        · -- the item of the slot, which is not ignored
          next hid =>
          obtain rfl := List.mem_singleton.mp hhere
          refine ⟨⟨t.label, [.slot n]⟩, List.mem_append_left _ ?_, rfl, ?_⟩
          · cases t with
            | node e ts => exact List.mem_cons_self
          · rw [units, hid.1]
            rfl
        · -- an item that lies in it
          cases t with
          | node a ts =>
            have hflat := (Rose.breadth_perm ts).mem_iff.mp hhere
            rw [← @Rose.label_placedList _ _ Entry.place [a.place, .slot n] ts] at hflat
            obtain ⟨r, hr, rfl⟩ := List.mem_map.mp hflat
            have habove := Rose.above_placedList List.mem_cons_self ts r hr
            have hworn : equipped r = false := by
              rw [equipped]
              split
              · next heq =>
                rw [heq] at habove
                cases List.mem_singleton.mp habove
              · rfl
            refine ⟨r, List.mem_append_left _ (List.mem_cons_of_mem _ hr), rfl, ?_⟩
            rw [units, hworn, Bool.and_false]
            rfl
      · obtain ⟨r, hr, heq⟩ := ih hrest
        exact ⟨r, List.mem_append_right _ hr, heq⟩

end Infernum.Inventory
