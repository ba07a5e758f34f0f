import Infernum.Lib.Worklist
import Infernum.Market.Pristine

/-!
# What the market offers and what it takes

`ProtocolGame::sendMarketEnter` tells the client how many units of each ware lie in the
depot and the inbox, `Game::getMarketItemList` collects the items when some are sold. Both
walk over the containers, the one with a stack, the other with a queue, and come to the
same items. The one counts in 32 bits and reports at most 65535, the other counts in 16 bits
and begins again at zero after 65535: so it can miss what is reported.
-/

namespace Infernum.Market

open Lib Rose

/-- The item table with how many items a container of a type holds. -/
structure DepotWorld extends market : World where
  maxItems : BitVec 16 → BitVec 16

/-- An item in a depot or an inbox. -/
structure Stored where
  item : Item
  /-- `getContainer()->capacity()`, if it is a container -/
  capacity : Option (BitVec 32)

/-- `c && !c->empty()` -/
def isFilled (item : Rose Stored) : Bool :=
  item.label.capacity.isSome && !item.children.isEmpty

variable (w : DepotWorld)

namespace Stored

variable (s : Stored)

def wareId : BitVec 16 := w.wareId s.item.id

/-- What both walks test besides the ware: an empty container is one of its type, and the
item is like a new one. -/
def isSalable : Bool :=
  let itemType := w.itemType s.item.id
  (match s.capacity with
    | none => true
    | some capacity =>
        itemType.isContainer && capacity == (w.maxItems s.item.id).setWidth 32) &&
  hasMarketAttributes w.market s.item

/-- `Item::countByType` for any sub-type. -/
def units : BitVec 32 := s.item.count.setWidth 32

end Stored

/-! ## The list for the client -/

/-- The `depotItems` of `sendMarketEnter`. -/
abbrev DepotItems := BitVec 16 → Option (BitVec 32)

/-- `depotItems[wareId] += count` -/
def DepotItems.add (depotItems : DepotItems) (wareId : BitVec 16) (count : BitVec 32) :
    DepotItems :=
  Function.update depotItems wareId (some ((depotItems wareId).getD 0 + count))

/-- One turn of the inner loop of `sendMarketEnter`. -/
def enterItem (lists : List (Rose Stored) × DepotItems) (item : Rose Stored) :
    List (Rose Stored) × DepotItems :=
  if isFilled item then (item :: lists.1, lists.2)
  else if item.label.wareId w = 0 then lists
  else if !item.label.isSalable w then lists
  else (lists.1, lists.2.add (item.label.wareId w) item.label.units)

/-- What an item that is not opened enters. -/
def enterStored (depotItems : DepotItems) (s : Stored) : DepotItems :=
  if s.wareId w = 0 then depotItems
  else if !s.isSalable w then depotItems
  else depotItems.add (s.wareId w) s.units

theorem foldl_enterItem (items : List (Rose Stored))
    (lists : List (Rose Stored) × DepotItems) :
    items.foldl (enterItem w) lists =
      (stack.insert lists.1 (items.filter isFilled),
        ((items.filter (!isFilled ·)).map label).foldl (enterStored w) lists.2) := by
  induction items generalizing lists with
  | nil => rfl
  | cons item items ih =>
      rw [List.foldl_cons, ih, enterItem]
      cases hf : isFilled item with
      | true => simp [hf, stack]
      | false =>
          simp only [Bool.false_eq_true, if_false, hf, List.filter_cons, Bool.not_false, if_true,
            List.map_cons, List.foldl_cons, enterStored]
          split
          · rfl
          · split <;> rfl

/-- The outer loop of `sendMarketEnter`. -/
def enterLoop : List (Rose Stored) → DepotItems → DepotItems
  | [], depotItems => depotItems
  | container :: containerList, depotItems =>
      enterLoop (container.children.foldl (enterItem w) (containerList, depotItems)).1
        (container.children.foldl (enterItem w) (containerList, depotItems)).2
termination_by containerList => (flattenList containerList).length
decreasing_by
  rw [foldl_enterItem]
  exact length_flattenList_insert isFilled stack container containerList

/-- What the client learns when it enters the market. -/
structure MarketEnter where
  bankBalance : BitVec 64
  offerCount : BitVec 8
  items : List (BitVec 16 × BitVec 16)
  /-- `player->setInMarket(true)` has been called -/
  inMarket : Bool

/-- The entries of a map in the order of their keys, each count cut to 16 bits. -/
def DepotItems.entries (depotItems : DepotItems) : List (BitVec 16 × BitVec 16) :=
  ((List.range 65536).map (BitVec.ofNat 16)).filterMap fun wareId =>
    (depotItems wareId).map fun count => (wareId, .ofNat 16 (min 0xFFFF count.toNat))

/-- `ProtocolGame::sendMarketEnter`, with what the bank and `IOMarket` tell about the player. -/
def sendMarketEnter (bankBalance : BitVec 64) (playerOfferCount : BitVec 32)
    (depotChest : Option (Rose Stored)) (inbox : Rose Stored) : MarketEnter :=
  let offerCount := .ofNat 8 (min playerOfferCount.toNat 0xFF)
  match depotChest with
  | none => ⟨bankBalance, offerCount, [], false⟩
  | some depotChest =>
      let depotItems := enterLoop w [depotChest, inbox] fun _ => none
      let itemsToSend := min depotItems.entries.length 0xFFFF
      ⟨bankBalance, offerCount, depotItems.entries.take itemsToSend, true⟩

/-- How many units of a ware the client has been told of. -/
def MarketEnter.reported (m : MarketEnter) (wareId : BitVec 16) : BitVec 16 :=
  (m.items.lookup wareId).getD 0

/-! ## The list of what is sold -/

variable (wareId sufficientCount : BitVec 16)

/-- The item list and its count, where it is not sufficient. -/
structure Collected where
  itemList : List Stored
  count : BitVec 16

/-- An item of the ware is put on the list: the list is returned when it is sufficient. -/
def takeItem (s : Stored) (c : Collected) : List Stored ⊕ Collected :=
  let count := c.count + s.units.setWidth 16
  if count ≥ sufficientCount then .inl (s :: c.itemList) else .inr ⟨s :: c.itemList, count⟩

/-- The inner loop of `getMarketItemList`. -/
def collectItems : List (Rose Stored) → List (Rose Stored) → Collected →
    List Stored ⊕ (List (Rose Stored) × Collected)
  | [], containers, c => .inr (containers, c)
  | item :: items, containers, c =>
      if isFilled item then collectItems items (containers ++ [item]) c
      else if item.label.wareId w ≠ wareId then collectItems items containers c
      else if !item.label.isSalable w then collectItems items containers c
      else
        match takeItem sufficientCount item.label c with
        | .inl itemList => .inl itemList
        | .inr c => collectItems items containers c

/-- The inner loop over items that are known not to be opened. -/
def collect : List Stored → Collected → List Stored ⊕ Collected
  | [], c => .inr c
  | s :: items, c =>
      match takeItem sufficientCount s c with
      | .inl itemList => .inl itemList
      | .inr c => collect items c

/-- The item is of the ware and can be sold. -/
def Stored.isWanted (s : Stored) : Bool := s.wareId w == wareId && s.isSalable w

theorem collectItems_eq (items containers : List (Rose Stored)) (c : Collected) :
    collectItems w wareId sufficientCount items containers c =
      match collect sufficientCount
        (((items.filter (!isFilled ·)).map label).filter (·.isWanted w wareId)) c with
      | .inl itemList => .inl itemList
      | .inr c => .inr (queue.insert containers (items.filter isFilled), c) := by
  induction items generalizing containers c with
  | nil => simp [collectItems, collect, queue]
  | cons item items ih =>
      rw [collectItems]
      cases hf : isFilled item with
      | true => simp [hf, ih, queue]
      | false =>
          simp only [Bool.false_eq_true, if_false, hf, List.filter_cons, Bool.not_false, if_true,
            List.map_cons, Stored.isWanted]
          by_cases hw : item.label.wareId w = wareId
          · cases hs : item.label.isSalable w with
            | false => simp [hw, ih, Stored.isWanted]
            | true =>
                simp only [hw, ne_eq, not_true, if_false, Bool.not_true, Bool.false_eq_true,
                  beq_self_eq_true, Bool.and_true, if_true, collect]
                cases takeItem sufficientCount item.label c with
                | inl itemList => rfl
                | inr c => exact ih containers c
          · simp [hw, ih, Stored.isWanted]

/-- A container that is walked to its end has handed over the containers in it. -/
theorem collectItems_inr {items containers containers' : List (Rose Stored)} {c c' : Collected}
    (h : collectItems w wareId sufficientCount items containers c = .inr (containers', c')) :
    containers' = queue.insert containers (items.filter isFilled) := by
  rw [collectItems_eq] at h
  split at h
  · cases h
  · cases h
    rfl

/-- The outer loop of `getMarketItemList`. -/
def collectLoop (containers : List (Rose Stored)) (c : Collected) : List Stored :=
  match containers with
  | [] => []
  | container :: containers =>
      match h : collectItems w wareId sufficientCount container.children containers c with
      | .inl itemList => itemList
      | .inr (containers', c') => collectLoop containers' c'
termination_by (flattenList containers).length
decreasing_by
  rw [collectItems_inr w wareId sufficientCount h]
  exact length_flattenList_insert isFilled queue container containers

/-- `Game::getMarketItemList`. -/
def getMarketItemList (depotChest inbox : Rose Stored) : List Stored :=
  collectLoop w wareId sufficientCount [depotChest, inbox] ⟨[], 0⟩

variable {w} {wareId sufficientCount}

/-! ## What is reported -/

/-- The stack comes to all items that are not opened, one after the other. -/
theorem enterLoop_eq (containerList : List (Rose Stored)) (depotItems : DepotItems) :
    enterLoop w containerList depotItems =
      (walk isFilled stack containerList).foldl (enterStored w) depotItems := by
  induction containerList, depotItems using enterLoop.induct w with
  | case1 depotItems => rw [enterLoop, walk, List.foldl_nil]
  | case2 container containerList depotItems ih =>
      rw [foldl_enterItem] at ih
      rw [enterLoop, walk, foldl_enterItem, ih, List.foldl_append]

/-- How many units there are. -/
def totalUnits (items : List Stored) : Nat := (items.map fun s => s.units.toNat).sum

/-- The entry of a ware holds the units of all items that are wanted of it. -/
theorem foldl_enterStored_apply (hware : wareId ≠ 0) (items : List Stored)
    (depotItems : DepotItems) :
    ((items.foldl (enterStored w) depotItems) wareId).getD 0 =
      (depotItems wareId).getD 0 + .ofNat 32 (totalUnits (items.filter (·.isWanted w wareId))) := by
  induction items generalizing depotItems with
  | nil => simp [totalUnits]
  | cons s items ih =>
      rw [List.foldl_cons, ih, enterStored, List.filter_cons, Stored.isWanted]
      by_cases hzero : s.wareId w = 0
      · have hne : s.wareId w ≠ wareId := fun h => hware (h ▸ hzero)
        rw [if_pos hzero, if_neg (by simp [hne])]
      · rw [if_neg hzero]
        cases hs : s.isSalable w with
        | false => simp
        | true =>
            simp only [Bool.not_true, Bool.false_eq_true, if_false, Bool.and_true, beq_iff_eq,
              DepotItems.add]
            by_cases hw : s.wareId w = wareId
            · rw [hw, Function.update_self, if_pos rfl, Option.getD_some, BitVec.add_assoc]
              congr 1
              apply BitVec.eq_of_toNat_eq
              simp [totalUnits]
            · rw [Function.update_of_ne (Ne.symm hw), if_neg hw]

/-- No ware has the number zero. -/
theorem foldl_enterStored_zero (items : List Stored) {depotItems : DepotItems}
    (hzero : depotItems 0 = none) : (items.foldl (enterStored w) depotItems) 0 = none := by
  induction items generalizing depotItems with
  | nil => exact hzero
  | cons s items ih =>
      rw [List.foldl_cons]
      refine ih ?_
      rw [enterStored]
      split
      · exact hzero
      · next hne =>
        split
        · exact hzero
        · rw [DepotItems.add, Function.update_of_ne (Ne.symm hne), hzero]

theorem lookup_entries (depotItems : DepotItems) (wareId : BitVec 16) :
    depotItems.entries.lookup wareId =
      (depotItems wareId).map fun count => .ofNat 16 (min 0xFFFF count.toNat) := by
  have hids : ∀ ids : List (BitVec 16),
      (ids.filterMap fun id => (depotItems id).map fun count =>
          (id, BitVec.ofNat 16 (min 0xFFFF count.toNat))).lookup wareId =
        if wareId ∈ ids then (depotItems wareId).map fun count => .ofNat 16 (min 0xFFFF count.toNat)
        else none := by
    intro ids
    induction ids with
    | nil => rfl
    | cons id ids ih =>
        rw [List.filterMap_cons]
        by_cases hid : wareId = id
        · subst hid
          cases hcount : depotItems wareId with
          | none => simpa [hcount] using ih
          | some count => simp
        · cases hcount : depotItems id with
          | none => simpa [hcount, hid] using ih
          | some count =>
              simp only [Option.map_some, List.lookup_cons, beq_eq_false_iff_ne.mpr hid,
                List.mem_cons, hid, false_or]
              exact ih
  have hmem : wareId ∈ (List.range 65536).map (BitVec.ofNat 16) :=
    List.mem_map.mpr ⟨wareId.toNat, List.mem_range.mpr wareId.isLt, by simp⟩
  rw [DepotItems.entries, hids, if_pos hmem]

/-- All entries are sent: there are at most 65535. -/
theorem length_entries_le {depotItems : DepotItems} (hzero : depotItems 0 = none) :
    depotItems.entries.length ≤ 0xFFFF := by
  have hrange : List.range 65536 = 0 :: (List.range 65535).map Nat.succ := List.range_succ_eq_map
  have hnone : depotItems (BitVec.ofNat 16 0) = none := hzero
  rw [DepotItems.entries, hrange, List.map_cons, List.filterMap_cons, hnone]
  refine (List.length_filterMap_le ..).trans ?_
  simp

variable (w wareId) in
/-- The items that are wanted of a ware, in the order in which `getMarketItemList` comes to
them. -/
def wanted (depotChest inbox : Rose Stored) : List Stored :=
  (walk isFilled queue [depotChest, inbox]).filter (·.isWanted w wareId)

/-- The client is told of all units, up to 65535. -/
theorem reported_eq (hware : wareId ≠ 0) (bankBalance : BitVec 64) (offerCount : BitVec 32)
    (depotChest inbox : Rose Stored) :
    ((sendMarketEnter w bankBalance offerCount (some depotChest) inbox).reported wareId).toNat =
      min 65535 (totalUnits (wanted w wareId depotChest inbox) % 2 ^ 32) := by
  have hzero : (walk isFilled stack [depotChest, inbox]).foldl (enterStored w)
      (fun _ => none) 0 = none := foldl_enterStored_zero _ rfl
  have hsame := ((walk_perm_walk isFilled stack queue [depotChest, inbox]).filter
    (·.isWanted w wareId)).map fun s => s.units.toNat
  simp only [MarketEnter.reported, sendMarketEnter]
  rw [enterLoop_eq, Nat.min_eq_left (length_entries_le hzero), List.take_length, lookup_entries]
  have hcount := foldl_enterStored_apply (w := w) hware (walk isFilled stack [depotChest, inbox])
    fun _ => none
  have htotal : totalUnits ((walk isFilled stack [depotChest, inbox]).filter
      (·.isWanted w wareId)) = totalUnits (wanted w wareId depotChest inbox) := hsame.sum_nat
  rw [htotal] at hcount
  simp only [Option.getD_none, BitVec.zero_add, BitVec.ofNat_eq_ofNat] at hcount
  have hmod := congrArg BitVec.toNat hcount
  rw [BitVec.toNat_ofNat] at hmod
  cases hentry : (walk isFilled stack [depotChest, inbox]).foldl (enterStored w)
      (fun _ => none) wareId with
  | none =>
      rw [hentry] at hmod
      simp only [Option.getD_none, BitVec.toNat_ofNat, Nat.zero_mod] at hmod
      simp [← hmod]
  | some count =>
      rw [hentry] at hmod
      simp only [Option.getD_some] at hmod
      simp only [Option.map_some, Option.getD_some, hmod, BitVec.toNat_ofNat]
      exact Nat.mod_eq_of_lt (by omega)

/-! ## What is collected -/

theorem collect_append (xs ys : List Stored) (c : Collected) :
    collect sufficientCount (xs ++ ys) c =
      match collect sufficientCount xs c with
      | .inl itemList => .inl itemList
      | .inr c => collect sufficientCount ys c := by
  induction xs generalizing c with
  | nil => rfl
  | cons s xs ih =>
      rw [List.cons_append, collect, collect]
      cases takeItem sufficientCount s c with
      | inl itemList => rfl
      | inr c => exact ih c

/-- The queue comes to the items one after the other until there are enough. -/
theorem collectLoop_eq (containers : List (Rose Stored)) (c : Collected) :
    collectLoop w wareId sufficientCount containers c =
      match collect sufficientCount
        ((walk isFilled queue containers).filter (·.isWanted w wareId)) c with
      | .inl itemList => itemList
      | .inr _ => [] := by
  induction hn : (flattenList containers).length using Nat.strong_induction_on
    generalizing containers c with
  | _ n ih =>
      cases containers with
      | nil => simp [collectLoop, walk, collect]
      | cons container containers =>
          rw [walk, List.filter_append, collect_append, collectLoop]
          have heq := collectItems_eq w wareId sufficientCount container.children containers c
          split
          · next itemList h =>
            rw [h] at heq
            split at heq
            · cases heq
              rfl
            · cases heq
          · next containers' c' h =>
            rw [h] at heq
            split at heq
            · cases heq
            · cases heq
              have hlt := length_flattenList_insert isFilled queue container containers
              exact ih _ (hn ▸ hlt) _ _ rfl

theorem totalUnits_cons (s : Stored) (items : List Stored) :
    totalUnits (s :: items) = s.units.toNat + totalUnits items := by
  simp [totalUnits]

/-- What the count of the list is after an item. -/
theorem toNat_count_add (c : Collected) (s : Stored) :
    (c.count + s.units.setWidth 16).toNat = (c.count.toNat + s.units.toNat) % 65536 := by
  simp [BitVec.toNat_add, BitVec.toNat_setWidth]

/-- There are enough at some point: the count of the items up to there, taken modulo 65536,
is high enough. -/
theorem collect_isLeft_iff (items : List Stored) (c : Collected) :
    (∃ itemList, collect sufficientCount items c = .inl itemList) ↔
      ∃ taken, taken ≠ [] ∧ taken <+: items ∧
        sufficientCount.toNat ≤ (c.count.toNat + totalUnits taken) % 65536 := by
  induction items generalizing c with
  | nil =>
      simp only [collect, reduceCtorEq, exists_false, false_iff, not_exists]
      rintro taken ⟨hne, hnil, -⟩
      exact hne (List.prefix_nil.mp hnil)
  | cons s items ih =>
      have hcount := toNat_count_add c s
      rw [collect, takeItem]
      by_cases henough : c.count + s.units.setWidth 16 ≥ sufficientCount
      · rw [if_pos henough]
        refine ⟨fun _ => ⟨[s], by simp, by simp, ?_⟩, fun _ => ⟨_, rfl⟩⟩
        rw [ge_iff_le, BitVec.le_def, hcount] at henough
        simpa [totalUnits] using henough
      · rw [if_neg henough]
        rw [ge_iff_le, BitVec.le_def, hcount] at henough
        refine (ih _).trans ⟨?_, ?_⟩
        · rintro ⟨taken, -, hprefix, hle⟩
          refine ⟨s :: taken, by simp, by simpa using hprefix, ?_⟩
          rw [totalUnits_cons]
          simp only [hcount] at hle
          omega
        · rintro ⟨taken, hne, hprefix, hle⟩
          obtain ⟨rest, rfl, hrest⟩ : ∃ rest, taken = s :: rest ∧ rest <+: items := by
            rcases List.prefix_cons_iff.mp hprefix with hnil | h
            · exact absurd hnil hne
            · exact h
          rw [totalUnits_cons] at hle
          refine ⟨rest, ?_, hrest, ?_⟩
          · rintro rfl
            simp only [totalUnits, List.map_nil, List.sum_nil] at hle
            exact henough hle
          · simp only [hcount]
            omega

/-- A list that is returned holds at least what its count shows. -/
theorem collect_units {items : List Stored} {c : Collected} {itemList : List Stored}
    (h : collect sufficientCount items c = .inl itemList)
    (hc : c.count.toNat ≤ totalUnits c.itemList) :
    itemList ≠ [] ∧ sufficientCount.toNat ≤ totalUnits itemList := by
  induction items generalizing c with
  | nil => cases h
  | cons s items ih =>
      have hcount := toNat_count_add c s
      have hle := Nat.mod_le (c.count.toNat + s.units.toNat) 65536
      rw [collect, takeItem] at h
      by_cases henough : c.count + s.units.setWidth 16 ≥ sufficientCount
      · rw [if_pos henough] at h
        cases h
        rw [ge_iff_le, BitVec.le_def] at henough
        refine ⟨by simp, ?_⟩
        rw [totalUnits_cons]
        omega
      · rw [if_neg henough] at h
        refine ih h ?_
        simp only [totalUnits_cons]
        omega

variable (w wareId) in
/-- The market offers what it can take: as many units as the client was told of are found,
and more are not. -/
def OffersWhatItTakes (depotChest inbox : Rose Stored) (reported : BitVec 16) : Prop :=
  (∀ k : BitVec 16, 0 < k → k ≤ reported →
    getMarketItemList w wareId k depotChest inbox ≠ [] ∧
      k.toNat ≤ totalUnits (getMarketItemList w wareId k depotChest inbox)) ∧
  ∀ k : BitVec 16, reported < k → getMarketItemList w wareId k depotChest inbox = []

/-- Added up one after the other, modulo 65536, the units come to a number and not above. -/
def CountsUpTo (items : List Stored) (n : Nat) : Prop :=
  (∀ taken, taken <+: items → totalUnits taken % 65536 ≤ n) ∧
    ∃ taken, taken <+: items ∧ totalUnits taken % 65536 = n

/-- Something is returned exactly if there are enough at some point. -/
theorem getMarketItemList_ne_nil_iff (hk : 0 < sufficientCount)
    (depotChest inbox : Rose Stored) :
    getMarketItemList w wareId sufficientCount depotChest inbox ≠ [] ↔
      ∃ taken, taken <+: wanted w wareId depotChest inbox ∧
        sufficientCount.toNat ≤ totalUnits taken % 65536 := by
  have hstart : (∃ itemList, collect sufficientCount (wanted w wareId depotChest inbox) ⟨[], 0⟩ =
      .inl itemList) ↔ _ := collect_isLeft_iff _ _
  have hpos : 0 < sufficientCount.toNat := hk
  rw [getMarketItemList, collectLoop_eq, ← wanted]
  cases hcollect : collect sufficientCount (wanted w wareId depotChest inbox) ⟨[], 0⟩ with
  | inl itemList =>
      obtain ⟨taken, -, htaken, hle⟩ := hstart.mp ⟨itemList, hcollect⟩
      have hunits := collect_units hcollect (by simp [totalUnits])
      exact ⟨fun _ => ⟨taken, htaken, by simpa using hle⟩, fun _ => hunits.1⟩
  | inr c =>
      refine ⟨fun h => absurd rfl h, ?_⟩
      rintro ⟨taken, htaken, hle⟩
      have hne : taken ≠ [] := by
        rintro rfl
        simp only [totalUnits, List.map_nil, List.sum_nil, Nat.zero_mod] at hle
        omega
      obtain ⟨itemList, h⟩ := hstart.mpr ⟨taken, hne, htaken, by simpa using hle⟩
      rw [hcollect] at h
      cases h

/-- What is returned is enough. -/
theorem getMarketItemList_units (depotChest inbox : Rose Stored)
    (hne : getMarketItemList w wareId sufficientCount depotChest inbox ≠ []) :
    sufficientCount.toNat ≤
      totalUnits (getMarketItemList w wareId sufficientCount depotChest inbox) := by
  rw [getMarketItemList, collectLoop_eq, ← wanted] at hne ⊢
  cases hcollect : collect sufficientCount (wanted w wareId depotChest inbox) ⟨[], 0⟩ with
  | inl itemList => exact (collect_units hcollect (by simp [totalUnits])).2
  | inr c =>
      rw [hcollect] at hne
      exact absurd rfl hne

/-- **The market offers what it can take exactly if the count of 16 bits passes through what
the client was told of.** -/
theorem offersWhatItTakes_iff (w : DepotWorld) {wareId : BitVec 16} (hware : wareId ≠ 0)
    (bankBalance : BitVec 64) (offerCount : BitVec 32) (depotChest inbox : Rose Stored) :
    OffersWhatItTakes w wareId depotChest inbox
        ((sendMarketEnter w bankBalance offerCount (some depotChest) inbox).reported wareId) ↔
      CountsUpTo (wanted w wareId depotChest inbox)
        (min 65535 (totalUnits (wanted w wareId depotChest inbox) % 2 ^ 32)) := by
  have hreported := reported_eq (w := w) hware bankBalance offerCount depotChest inbox
  rw [← hreported]
  generalize (sendMarketEnter w bankBalance offerCount (some depotChest) inbox).reported wareId =
    n
  have hfound : ∀ k : BitVec 16, 0 < k →
      (getMarketItemList w wareId k depotChest inbox ≠ [] ↔
        ∃ taken, taken <+: wanted w wareId depotChest inbox ∧
          k.toNat ≤ totalUnits taken % 65536) :=
    fun k hk => getMarketItemList_ne_nil_iff hk depotChest inbox
  constructor
  · rintro ⟨hoffer, hover⟩
    have hle : ∀ taken, taken <+: wanted w wareId depotChest inbox →
        totalUnits taken % 65536 ≤ n.toNat := by
      intro taken htaken
      by_contra hlt
      have hk : (BitVec.ofNat 16 (totalUnits taken % 65536)).toNat =
          totalUnits taken % 65536 := by simp
      have hn : n < BitVec.ofNat 16 (totalUnits taken % 65536) := by
        rw [BitVec.lt_def, hk]
        omega
      exact (hfound _ (by bv_omega)).mpr ⟨taken, htaken, hk.le⟩ (hover _ hn)
    refine ⟨hle, ?_⟩
    by_cases hzero : n = 0
    · exact ⟨[], List.nil_prefix, by simp [hzero, totalUnits]⟩
    · have hpos : 0 < n := by bv_omega
      obtain ⟨taken, htaken, hn⟩ := (hfound n hpos).mp (hoffer n hpos (BitVec.le_refl n)).1
      exact ⟨taken, htaken, Nat.le_antisymm (hle taken htaken) hn⟩
  · rintro ⟨hle, taken, htaken, heq⟩
    refine ⟨fun k hk hkn => ?_, fun k hkn => ?_⟩
    · have hne := (hfound k hk).mpr ⟨taken, htaken, by bv_omega⟩
      exact ⟨hne, getMarketItemList_units depotChest inbox hne⟩
    · by_contra hne
      obtain ⟨taken', htaken', hk⟩ := (hfound k (by bv_omega)).mp hne
      have := hle taken' htaken'
      bv_omega

/-- Every type is a ware under its own number. -/
def wareTypes : DepotWorld where
  itemType id := { id := id, stackable := true }
  addUniqueItem _ := true
  getNameByGuid _ := []
  wareId id := id
  maxItems _ := 8

/-- A stack of coins. -/
def coins (count : BitVec 8) : Rose Stored := .node ⟨{ id := 2148, count := count }, none⟩ []

/-- A depot chest or an inbox, and what lies in it. -/
def chestOf (items : List (Rose Stored)) : Rose Stored :=
  .node ⟨{ id := 2594 }, some 30⟩ items

theorem wanted_coins (count : BitVec 8) (n : Nat) :
    wanted wareTypes 2148 (chestOf (.replicate n (coins count))) (chestOf []) =
      .replicate n (coins count).label := by
  have hclosed : isFilled (coins count) = false := rfl
  have hwanted : (coins count).label.isWanted wareTypes 2148 = true := by
    have hmarket : hasMarketAttributes wareTypes.market { id := 2148, count := count } = true := by
      simp [hasMarketAttributes]
    simp only [Stored.isWanted, Stored.isSalable, Stored.wareId, coins, label_node, hmarket]
    rfl
  have hwalk : walk isFilled queue [chestOf (.replicate n (coins count)), chestOf []] =
      .replicate n (coins count).label := by
    simp [walk, chestOf, queue, hclosed]
  rw [wanted, hwalk, List.filter_replicate, if_pos hwanted]

theorem totalUnits_replicate (n : Nat) (s : Stored) :
    totalUnits (.replicate n s) = n * s.units.toNat := by
  simp [totalUnits]

/-- Of 656 stacks of 100 coins, the client is told of 65535 coins; so many are not found, as
the count goes from 65500 to 64. -/
theorem reported_coins_not_taken :
    ¬OffersWhatItTakes wareTypes 2148 (chestOf (.replicate 656 (coins 100))) (chestOf [])
      ((sendMarketEnter wareTypes 0 0 (some (chestOf (.replicate 656 (coins 100))))
        (chestOf [])).reported 2148) := by
  have hware : (2148 : BitVec 16) ≠ 0 := by decide
  have hreported := reported_eq (w := wareTypes) hware 0 0
    (chestOf (.replicate 656 (coins 100))) (chestOf [])
  have hunits : (coins 100).label.units.toNat = 100 := rfl
  rw [wanted_coins, totalUnits_replicate, hunits] at hreported
  have hmax : (sendMarketEnter wareTypes 0 0 (some (chestOf (.replicate 656 (coins 100))))
      (chestOf [])).reported 2148 = 65535 := BitVec.eq_of_toNat_eq hreported
  rw [hmax]
  rintro ⟨hoffer, -⟩
  have hpos : (0 : BitVec 16) < 65535 := by decide
  obtain ⟨taken, htaken, hle⟩ :=
    (getMarketItemList_ne_nil_iff hpos _ _).mp (hoffer 65535 hpos (BitVec.le_refl _)).1
  rw [wanted_coins, List.prefix_replicate_iff] at htaken
  rw [htaken.2, totalUnits_replicate, hunits] at hle
  have hodd : (65535 : BitVec 16).toNat = 65535 := rfl
  omega

/-- 100 coins can be sold. -/
theorem offersWhatItTakes_iff_coins :
    OffersWhatItTakes wareTypes 2148 (chestOf [coins 100]) (chestOf [])
        ((sendMarketEnter wareTypes 0 0 (some (chestOf [coins 100])) (chestOf [])).reported
          2148) ↔
      CountsUpTo (wanted wareTypes 2148 (chestOf [coins 100]) (chestOf []))
        (min 65535
          (totalUnits (wanted wareTypes 2148 (chestOf [coins 100]) (chestOf [])) % 2 ^ 32)) :=
  offersWhatItTakes_iff wareTypes (by decide) 0 0 (chestOf [coins 100]) (chestOf [])

end Infernum.Market
