import Infernum.Inventory.Removal

/-!
# Exact removals

What is removed whole is worth what it holds. The account is closed exactly if it holds
nothing that was not taken; a part of a stack must still count afterwards.
-/

namespace Infernum.Inventory

open Lib (Rose Placed)

variable {w : World} {itemId : BitVec 16} {subType : Int} {ignoreEquipped : Bool}

/-! ## Sums over a part of the items -/

theorem sum_filter_add (f : Record → Nat) (b : Record → Bool) (rs : List Record) :
    ((rs.filter b).map f).sum + ((rs.filter fun r => !b r).map f).sum = (rs.map f).sum := by
  induction rs with
  | nil => rfl
  | cons r rs ih =>
    rw [List.map_cons, List.sum_cons, ← ih]
    cases hb : b r with
    | true =>
      rw [List.filter_cons_of_pos hb, List.filter_cons_of_neg (by simp [hb]), List.map_cons,
        List.sum_cons]
      omega
    | false =>
      rw [List.filter_cons_of_neg (by simp [hb]), List.filter_cons_of_pos (by simp [hb]),
        List.map_cons, List.sum_cons]
      omega

/-- A filter that another one implies changes nothing. -/
theorem filter_filter_eq_iff (a b : Record → Bool) (rs : List Record) :
    (rs.filter a).filter b = rs.filter b ↔ ∀ r ∈ rs, b r = true → a r = true := by
  constructor
  · intro h r hr hb
    have hmem : r ∈ rs.filter b := List.mem_filter.mpr ⟨hr, hb⟩
    rw [← h] at hmem
    exact (List.mem_filter.mp (List.mem_filter.mp hmem).1).2
  · intro h
    rw [List.filter_filter]
    refine List.filter_congr fun r hr => ?_
    cases hb : b r with
    | true => rw [h r hr hb, Bool.and_true]
    | false => rw [Bool.false_and]

/-! ## Items that lie with a player -/

variable (w itemId subType) in
/-- These items lie with the player, and count where they lie. -/
structure Lies (p : Player) (ignoreEquipped : Bool) (es : List Entry) : Prop where
  record : ∀ e ∈ es, ∃ r ∈ p.all, r.label = e ∧
    units w itemId subType ignoreEquipped r = unitsOf w itemId subType e
  distinct : (es.map Entry.item).Nodup

variable {p : Player}

theorem Lies.sublist {es fs : List Entry} (h : Lies w itemId subType p ignoreEquipped es)
    (hsub : fs.Sublist es) : Lies w itemId subType p ignoreEquipped fs :=
  ⟨fun e he => h.record e (hsub.subset he), h.distinct.sublist (hsub.map _)⟩

theorem lies_lookedAt : Lies w itemId subType p ignoreEquipped
    (lookedAt itemId ignoreEquipped p.slots) where
  record _ he := exists_record he
  distinct := by
    obtain ⟨es, hperm, hsub⟩ := @lookedAt_subperm itemId ignoreEquipped p.slots 0
    refine (hperm.map Entry.item).nodup_iff.mp (p.distinct.sublist ?_)
    have hitems := hsub.map Entry.item
    rw [List.map_map] at hitems
    exact hitems

/-- The record of an item that lies there. -/
theorem Lies.of_item {es : List Entry} (h : Lies w itemId subType p ignoreEquipped es) {r : Record}
    (hr : r ∈ p.all) (hitem : r.label.item ∈ es.map Entry.item) :
    r.label ∈ es ∧
      units w itemId subType ignoreEquipped r = unitsOf w itemId subType r.label := by
  obtain ⟨e, he, heq⟩ := List.mem_map.mp hitem
  obtain ⟨r', hr', rfl, hunits⟩ := h.record e he
  obtain rfl := Player.label_eq hr hr' heq.symm
  exact ⟨he, hunits⟩

theorem Lies.knows {es : List Entry} (h : Lies w itemId subType p ignoreEquipped es) {e : Entry}
    (he : e ∈ es) : p.Knows e := by
  intro r hr hitem
  obtain ⟨r', hr', rfl, _⟩ := h.record e he
  rw [Player.label_eq hr hr' hitem]

/-- The units of these items, summed up where they lie. -/
theorem Lies.sum {es : List Entry} (h : Lies w itemId subType p ignoreEquipped es) :
    ((p.all.filter fun r => decide (r.label.item ∈ es.map Entry.item)).map
      (units w itemId subType ignoreEquipped)).sum = total w itemId subType es := by
  set rs := p.all.filter fun r => decide (r.label.item ∈ es.map Entry.item) with hrs
  have hmem : ∀ r ∈ rs, r ∈ p.all ∧ r.label.item ∈ es.map Entry.item := by
    intro r hr
    rw [hrs, List.mem_filter, decide_eq_true_eq] at hr
    exact hr
  have hperm : (rs.map Placed.label).Perm es := by
    refine (List.perm_ext_iff_of_nodup ?_ (List.Nodup.of_map _ h.distinct)).mpr fun e => ?_
    · refine List.Nodup.of_map Entry.item ?_
      rw [List.map_map]
      exact p.distinct.sublist (List.filter_sublist.map _)
    · rw [List.mem_map]
      constructor
      · rintro ⟨r, hr, rfl⟩
        exact (h.of_item (hmem r hr).1 (hmem r hr).2).1
      · intro he
        obtain ⟨r, hr, rfl, _⟩ := h.record e he
        refine ⟨r, ?_, rfl⟩
        rw [hrs, List.mem_filter, decide_eq_true_eq]
        exact ⟨hr, List.mem_map_of_mem he⟩
  have hunits : rs.map (units w itemId subType ignoreEquipped) =
      (rs.map Placed.label).map (unitsOf w itemId subType) := by
    rw [List.map_map]
    exact List.map_congr_left fun r hr => (h.of_item (hmem r hr).1 (hmem r hr).2).2
  rw [hunits, total]
  exact (hperm.map _).sum_eq

/-- A part of the items that has all of these is worth as much at least. -/
theorem Lies.total_add {es : List Entry} (h : Lies w itemId subType p ignoreEquipped es)
    {b : Record → Bool}
    (hb : ∀ r ∈ p.all, r.label.item ∈ es.map Entry.item → b r = true) :
    total w itemId subType es +
        ((p.all.filter fun r => b r && !decide (r.label.item ∈ es.map Entry.item)).map
          (units w itemId subType ignoreEquipped)).sum =
      ((p.all.filter b).map (units w itemId subType ignoreEquipped)).sum := by
  rw [← sum_filter_add _ (fun r => decide (r.label.item ∈ es.map Entry.item)) (p.all.filter b),
    List.filter_filter, List.filter_filter, ← h.sum]
  congr 3
  · refine List.filter_congr fun r hr => ?_
    by_cases hitem : r.label.item ∈ es.map Entry.item
    · simp [hitem, hb r hr hitem]
    · simp [hitem]
  · refine List.filter_congr fun r _ => ?_
    rw [Bool.and_comm]

/-! ## Whole items -/

/-- What lies in these items is of these items. -/
def Closed (p : Player) (es : List Entry) : Prop :=
  ∀ e ∈ es, ∀ r ∈ p.all, e.place ∈ r.above → r.label.item ∈ es.map Entry.item

theorem stays_eq_false {es : List Entry} {r : Record} :
    stays es r = false ↔ ∃ e ∈ es, r.label.item = e.item ∨ e.place ∈ r.above := by
  have hout : ∀ e : Entry, ¬Rose.Outside Entry.place e.place r ↔
      r.label.item = e.item ∨ e.place ∈ r.above := by
    intro e
    rw [Rose.Outside, not_and_or, not_not, not_not, Entry.place, Entry.place, Place.item.injEq]
  rw [stays, List.all_eq_false]
  simp only [decide_eq_true_eq, hout]

theorem not_stays_of_item {es : List Entry} {r : Record}
    (h : r.label.item ∈ es.map Entry.item) : stays es r = false := by
  obtain ⟨e, he, heq⟩ := List.mem_map.mp h
  exact stays_eq_false.mpr ⟨e, he, .inl heq.symm⟩

theorem Closed.item {es : List Entry} (h : Closed p es) {r : Record} (hr : r ∈ p.all)
    (hgone : stays es r = false) : r.label.item ∈ es.map Entry.item := by
  obtain ⟨e, he, heq | habove⟩ := stays_eq_false.mp hgone
  · rw [heq]
    exact List.mem_map_of_mem he
  · exact h e he r hr habove

/-- To take out items with what lies in them is exact if and only if that is of them. -/
theorem Lies.whole_exact {es : List Entry} (h : Lies w itemId subType p ignoreEquipped es)
    (hunits : ∀ e ∈ es, unitsOf w itemId subType e ≠ 0) :
    (((p.all.filter (stays es)).map (units w itemId subType ignoreEquipped)).sum +
          total w itemId subType es = p.counted w itemId subType ignoreEquipped ∧
        (p.all.filter (stays es)).filter
            (fun r => units w itemId subType ignoreEquipped r = 0) =
          p.uncounted w itemId subType ignoreEquipped) ↔
      Closed p es := by
  have hsplit := sum_filter_add (units w itemId subType ignoreEquipped) (stays es) p.all
  have hgone := h.total_add (b := fun r => !stays es r) fun r _ hitem => by
    rw [not_stays_of_item hitem]
    rfl
  rw [Player.counted, Player.uncounted, filter_filter_eq_iff]
  set rest := p.all.filter fun r =>
    (!stays es r) && !decide (r.label.item ∈ es.map Entry.item) with hrest
  constructor
  · rintro ⟨hsum, hothers⟩ e he r hr habove
    have hzero : (rest.map (units w itemId subType ignoreEquipped)).sum = 0 := by omega
    have hfalse : stays es r = false := stays_eq_false.mpr ⟨e, he, .inr habove⟩
    by_contra hnot
    -- what is gone besides counts for nothing
    have hmem : r ∈ rest := by
      rw [hrest, List.mem_filter, hfalse]
      exact ⟨hr, by simp [hnot]⟩
    have hnone : units w itemId subType ignoreEquipped r = 0 :=
      List.sum_eq_zero_iff.mp hzero _ (List.mem_map_of_mem hmem)
    rw [hothers r hr (decide_eq_true hnone)] at hfalse
    cases hfalse
  · intro hclosed
    have hnil : rest = [] := by
      rw [hrest, List.filter_eq_nil_iff]
      intro r hr hboth
      rw [Bool.and_eq_true, Bool.not_eq_true', Bool.not_eq_true'] at hboth
      exact of_decide_eq_false hboth.2 (hclosed.item hr hboth.1)
    rw [hnil, List.map_nil, List.sum_nil, Nat.add_zero] at hgone
    refine ⟨by omega, fun r hr hnone => ?_⟩
    by_contra hnot
    obtain ⟨hlabel, heq⟩ := h.of_item hr (hclosed.item hr (Bool.eq_false_iff.mpr hnot))
    rw [heq] at hnone
    exact hunits _ hlabel (of_decide_eq_true hnone)

/-! ## A part of the last stack -/

/-- One item counts differently. -/
theorem sum_map_of_ne (f : Record → Nat) (g : Record → Record) {rs : List Record} {r₀ : Record}
    (hnodup : rs.Nodup) (h₀ : r₀ ∈ rs) (hg : ∀ r ∈ rs, r ≠ r₀ → g r = r) :
    ((rs.map g).map f).sum + f r₀ = (rs.map f).sum + f (g r₀) := by
  induction rs with
  | nil => cases h₀
  | cons r rs ih =>
    obtain ⟨hnot, hnodup⟩ := List.nodup_cons.mp hnodup
    simp only [List.map_cons, List.sum_cons]
    rcases List.mem_cons.mp h₀ with rfl | h₀
    · have hsame : rs.map g = rs := by
        refine (List.map_congr_left fun r hr => ?_).trans (List.map_id _)
        exact hg r (List.mem_cons_of_mem _ hr) fun heq => hnot (heq ▸ hr)
      rw [hsame]
      omega
    · have hne : r ≠ r₀ := fun heq => hnot (heq ▸ h₀)
      have hrest := ih hnodup h₀ fun r hr => hg r (List.mem_cons_of_mem _ hr)
      rw [hg r List.mem_cons_self hne]
      omega

/-- A change of items that a filter leaves out before and after. -/
theorem filter_map_of_not (b : Record → Bool) (g : Record → Record) {rs : List Record}
    (hg : ∀ r ∈ rs, g r = r ∨ b (g r) = false ∧ b r = false) :
    (rs.map g).filter b = rs.filter b := by
  induction rs with
  | nil => rfl
  | cons r rs ih =>
    have hrest := ih fun r hr => hg r (List.mem_cons_of_mem _ hr)
    rw [List.map_cons, List.filter_cons, List.filter_cons, hrest]
    rcases hg r List.mem_cons_self with heq | ⟨hafter, hbefore⟩
    · rw [heq]
    · rw [hafter, hbefore]
      rfl

/-- To take out items whole and then a part of one more is exact if and only if what lies
in the whole ones is of them, and the rest of the stack still counts. -/
theorem Lies.part_exact {init : List Entry} {last : Entry} {part : Nat}
    (h : Lies w itemId subType p ignoreEquipped (init ++ [last]))
    (hunits : ∀ e ∈ init ++ [last], unitsOf w itemId subType e ≠ 0)
    (hstackable : (w.itemType itemId).stackable = true) (hpos : 0 < part)
    (hpart : part < unitsOf w itemId subType last) {rs : List Record}
    (hrs : rs = (p.all.filter (stays init)).map (Placed.relabel (Entry.setObject last.item
      (last.withCount (last.object.count.toNat - part))))) :
    ((rs.map (units w itemId subType ignoreEquipped)).sum +
          (total w itemId subType init + part) = p.counted w itemId subType ignoreEquipped ∧
        rs.filter (fun r => units w itemId subType ignoreEquipped r = 0) =
          p.uncounted w itemId subType ignoreEquipped) ↔
      Closed p init ∧ (subType = -1 ∨ (w.itemType itemId).holdsFluid = true) := by
  have hlast : last ∈ init ++ [last] := List.mem_append_right _ (List.mem_singleton_self _)
  have hinit := h.sublist (List.sublist_append_left init [last])
  have hunitsInit : ∀ e ∈ init, unitsOf w itemId subType e ≠ 0 :=
    fun e he => hunits e (List.mem_append_left _ he)
  have hwhole := hinit.whole_exact hunitsInit
  have hsplit := sum_filter_add (units w itemId subType ignoreEquipped) (stays init) p.all
  obtain ⟨r₀, hr₀, hlabel, hr₀units⟩ := h.record last hlast
  obtain ⟨-, -, hcount, -⟩ := unitsOf_eq_count (hunits last hlast)
  have hnotInit : last.item ∉ init.map Entry.item := by
    have hdistinct := h.distinct
    rw [List.map_append, List.nodup_append] at hdistinct
    intro hmem
    exact hdistinct.2.2 _ hmem _ (List.mem_singleton_self _) rfl
  set l := p.all.filter (stays init) with hl
  set g : Record → Record := Placed.relabel (Entry.setObject last.item
    (last.withCount (last.object.count.toNat - part))) with hg
  have hother : ∀ r ∈ l, r ≠ r₀ → g r = r := by
    intro r hr hne
    refine Player.relabel_of_ne fun hitem => hne ?_
    exact Player.label_eq (List.mem_filter.mp hr).1 hr₀ (by rw [hitem, hlabel])
  by_cases hstays : stays init r₀ = true
  · have hmem : r₀ ∈ l := List.mem_filter.mpr ⟨hr₀, hstays⟩
    have hnodup : l.Nodup := (List.Nodup.of_map _ p.distinct).filter _
    have hsum := sum_map_of_ne (units w itemId subType ignoreEquipped) g hnodup hmem hother
    -- what is left of the stack
    have hafter : units w itemId subType ignoreEquipped (g r₀) =
        if subType = -1 ∨ (w.itemType itemId).holdsFluid = true then
          last.object.count.toNat - part else 0 := by
      rw [← unitsOf_withCount (hunits last hlast) hstackable (by omega)]
      have hworn : (ignoreEquipped && equipped r₀) = false := by
        by_contra hworn
        rw [Bool.not_eq_false] at hworn
        rw [units, hworn, if_pos rfl] at hr₀units
        exact hunits last hlast hr₀units.symm
      have hsame : equipped (g r₀) = equipped r₀ := rfl
      rw [units, hsame, hworn]
      show unitsOf w itemId subType (Entry.setObject _ _ r₀.label) = _
      rw [hlabel, Entry.setObject, if_pos rfl]
    rw [hrs]
    by_cases hfilter : subType = -1 ∨ (w.itemType itemId).holdsFluid = true
    · rw [if_pos hfilter] at hafter
      have hothers : (l.map g).filter (fun r => units w itemId subType ignoreEquipped r = 0) =
          l.filter fun r => units w itemId subType ignoreEquipped r = 0 := by
        refine filter_map_of_not _ _ fun r hr => ?_
        by_cases hne : r = r₀
        · refine .inr ⟨?_, ?_⟩
          · rw [hne, hafter]
            exact decide_eq_false (by omega)
          · rw [hne, hr₀units]
            exact decide_eq_false (by omega)
        · exact .inl (hother r hr hne)
      rw [hothers, ← hwhole]
      refine ⟨fun hboth => ⟨⟨by omega, hboth.2⟩, hfilter⟩, fun hboth => ⟨?_, hboth.1.2⟩⟩
      have := hboth.1.1
      omega
    · rw [if_neg hfilter] at hafter
      refine iff_of_false (fun hboth => ?_) fun hboth => hfilter hboth.2
      have hgone := hinit.total_add (b := fun r => !stays init r) fun r _ hitem => by
        rw [not_stays_of_item hitem]
        rfl
      have hsum' := hboth.1
      rw [Player.counted] at hsum'
      omega
  · -- the stack has gone with what it lay in
    have hgoneLast : stays init r₀ = false := Bool.eq_false_iff.mpr hstays
    refine iff_of_false (fun hboth => ?_) fun hboth => ?_
    · have hsame : l.map g = l := by
        refine (List.map_congr_left fun r hr => hother r hr ?_).trans (List.map_id _)
        rintro rfl
        exact hstays (List.mem_filter.mp hr).2
      have hgone := h.total_add (b := fun r => !stays init r) fun r hr hitem => by
        rw [List.map_append, List.mem_append] at hitem
        rcases hitem with hitem | hitem
        · rw [not_stays_of_item hitem]
          rfl
        · rw [Player.label_eq hr hr₀ (by rw [List.mem_singleton.mp hitem, hlabel]), hgoneLast]
          rfl
      have hsum' := hboth.1
      rw [hrs, hsame, Player.counted] at hsum'
      rw [total_append, total_cons, total_nil] at hgone
      omega
    · have hitem := hboth.1.item hr₀ hgoneLast
      rw [hlabel] at hitem
      exact hnotInit hitem

/-! ## `removeItemOfType` -/

/-- True if and only if there are enough; then exactly as many units are gone, and what does
not count is where it was; otherwise nothing has changed. -/
structure RemovesExactly (w : World) (p : Player) (itemId : BitVec 16) (amount : BitVec 32)
    (subType : Int) (ignoreEquipped : Bool) : Prop where
  enough : (p.removeItemOfType w itemId amount subType ignoreEquipped).1 = true ↔
    amount.toNat ≤ p.counted w itemId subType ignoreEquipped
  gone : (p.removeItemOfType w itemId amount subType ignoreEquipped).1 = true →
    (p.removeItemOfType w itemId amount subType ignoreEquipped).2.counted w itemId subType
          ignoreEquipped + amount.toNat = p.counted w itemId subType ignoreEquipped ∧
      (p.removeItemOfType w itemId amount subType ignoreEquipped).2.uncounted w itemId subType
          ignoreEquipped = p.uncounted w itemId subType ignoreEquipped
  kept : (p.removeItemOfType w itemId amount subType ignoreEquipped).1 = false →
    (p.removeItemOfType w itemId amount subType ignoreEquipped).2 = p

/-- The items that a search for this amount takes. -/
def takenFor (w : World) (p : Player) (itemId : BitVec 16) (amount : BitVec 32) (subType : Int)
    (ignoreEquipped : Bool) : List Entry :=
  taken w itemId subType amount.toNat (lookedAt itemId ignoreEquipped p.slots)

/-- Nothing is to be removed, or there are too few; or the search looks at enough, and the
items taken are worth the amount and hold nothing else, or they are stacks whose last one is
divided and still counts. -/
def RemoveFits (w : World) (p : Player) (itemId : BitVec 16) (amount : BitVec 32) (subType : Int)
    (ignoreEquipped : Bool) : Prop :=
  amount = 0 ∨ p.counted w itemId subType ignoreEquipped < amount.toNat ∨
    amount.toNat ≤ total w itemId subType (lookedAt itemId ignoreEquipped p.slots) ∧
      (total w itemId subType (takenFor w p itemId amount subType ignoreEquipped) = amount.toNat ∧
          Closed p (takenFor w p itemId amount subType ignoreEquipped) ∨
        total w itemId subType (takenFor w p itemId amount subType ignoreEquipped) ≠ amount.toNat ∧
          (w.itemType itemId).stackable = true ∧
          Closed p (takenFor w p itemId amount subType ignoreEquipped).dropLast ∧
          (subType = -1 ∨ (w.itemType itemId).holdsFluid = true))

theorem total_lookedAt_le (w : World) (p : Player) (itemId : BitVec 16) (subType : Int)
    (ignoreEquipped : Bool) :
    total w itemId subType (lookedAt itemId ignoreEquipped p.slots) ≤
      p.counted w itemId subType ignoreEquipped := by
  have h := (@lies_lookedAt w itemId subType ignoreEquipped p).total_add (b := fun _ => true)
    fun _ _ _ => rfl
  rw [List.filter_true] at h
  rw [Player.counted, ← h]
  exact Nat.le_add_right _ _

/-- What is done with the items taken, and when it is exact. -/
theorem internalRemoveItems_exact {itemList : List Entry} {amount : BitVec 32}
    (h : Lies w itemId subType p ignoreEquipped itemList)
    (hunits : ∀ e ∈ itemList, unitsOf w itemId subType e ≠ 0)
    (hremovable : ∀ e ∈ itemList, e.object.canRemove = true)
    {init : List Entry} {last : Entry} (hsplit : itemList = init ++ [last])
    (hless : total w itemId subType init < amount.toNat)
    (hle : amount.toNat ≤ total w itemId subType init + unitsOf w itemId subType last) :
    ((p.internalRemoveItems w itemList amount (w.itemType itemId).stackable).counted w itemId
            subType ignoreEquipped + amount.toNat = p.counted w itemId subType ignoreEquipped ∧
        (p.internalRemoveItems w itemList amount (w.itemType itemId).stackable).uncounted w itemId
            subType ignoreEquipped = p.uncounted w itemId subType ignoreEquipped) ↔
      (total w itemId subType itemList = amount.toNat ∧ Closed p itemList ∨
        total w itemId subType itemList ≠ amount.toNat ∧
          (w.itemType itemId).stackable = true ∧ Closed p itemList.dropLast ∧
          (subType = -1 ∨ (w.itemType itemId).holdsFluid = true)) := by
  have hknows : ∀ e ∈ itemList, p.Knows e := fun e he => h.knows he
  have hcount : ∀ e ∈ itemList, e.object.count ≠ 0 :=
    fun e he => (unitsOf_eq_count (hunits e he)).2.2.2
  have hall := Player.all_foldl (w := w) hknows hcount hremovable
  have htotal : total w itemId subType itemList =
      total w itemId subType init + unitsOf w itemId subType last := by
    rw [hsplit, total_append, total_cons, total_nil, Nat.add_zero]
  have hwhole := h.whole_exact hunits
  have hgone := h.total_add (b := fun r => !stays itemList r) fun r _ hitem => by
    rw [not_stays_of_item hitem]
    rfl
  have hsum := sum_filter_add (units w itemId subType ignoreEquipped) (stays itemList) p.all
  by_cases hstackable : (w.itemType itemId).stackable = true
  · rw [Player.internalRemoveItems, if_pos hstackable]
    have hunitsInit : ∀ e ∈ init, unitsOf w itemId subType e ≠ 0 := by
      intro e he
      exact hunits e (by rw [hsplit]; exact List.mem_append_left _ he)
    have hlast : last ∈ itemList := by
      rw [hsplit]
      exact List.mem_append_right _ (List.mem_singleton_self _)
    obtain ⟨hid, -, hlastCount, -⟩ := unitsOf_eq_count (hunits last hlast)
    have hsmall := last.object.count.isLt
    have hwide : (last.object.count.setWidth 32).toNat = unitsOf w itemId subType last := by
      rw [hlastCount]
      exact BitVec.toNat_setWidth_of_le (by omega)
    have hamount := amount.isLt
    have hrest : (amount - .ofNat 32 (total w itemId subType init)).toNat =
        amount.toNat - total w itemId subType init := by
      have hofNat : (BitVec.ofNat 32 (total w itemId subType init)).toNat =
          total w itemId subType init := by
        rw [BitVec.toNat_ofNat, Nat.mod_eq_of_lt (by omega)]
      rw [BitVec.toNat_sub_of_le (by rw [BitVec.le_def, hofNat]; omega), hofNat]
    set q := init.foldl (fun p e => p.internalRemoveItem w e none) p with hq
    have hloop : Player.removeFromItems w amount itemList p =
        Player.removeFromItems w (amount - .ofNat 32 (total w itemId subType init)) [last] q := by
      rw [hsplit, Player.removeFromItems_append hunitsInit hless]
    rw [hloop, Player.removeFromItems]
    by_cases heq : total w itemId subType itemList = amount.toNat
    · -- the last stack goes whole
      have hend : Player.removeFromItems w (amount - .ofNat 32 (total w itemId subType init) -
          last.object.count.setWidth 32) [] (q.internalRemoveItem w last none) =
          itemList.foldl (fun p e => p.internalRemoveItem w e none) p := by
        rw [hsplit, List.foldl_append, ← hq]
        rfl
      rw [if_neg (by rw [BitVec.lt_def, hrest, hwide]; omega), hend, Player.counted,
        Player.uncounted, hall, ← heq, hwhole]
      exact ⟨fun hclosed => .inl ⟨rfl, hclosed⟩,
        fun hor => hor.elim And.right fun hpart => absurd rfl hpart.1⟩
    · -- the last stack is divided
      have hallInit := Player.all_foldl (p := p) (w := w)
        (fun e he => hknows e (by rw [hsplit]; exact List.mem_append_left _ he))
        (fun e he => hcount e (by rw [hsplit]; exact List.mem_append_left _ he))
        fun e he => hremovable e (by rw [hsplit]; exact List.mem_append_left _ he)
      have hlt : amount.toNat - total w itemId subType init <
          unitsOf w itemId subType last := by omega
      have hne : amount - .ofNat 32 (total w itemId subType init) ≠ 0 := by
        intro hzero
        rw [hzero] at hrest
        have hzero' : (0 : BitVec 32).toNat = 0 := rfl
        omega
      have hpart := Player.all_internalRemoveItem_some ((hknows last hlast).filter hallInit) hne
        (by rw [hrest, ← hlastCount]; exact hlt) (by rw [hid]; exact hstackable)
        (hremovable last hlast)
      rw [hallInit, hrest] at hpart
      have hexact := (hsplit ▸ h).part_exact (hsplit ▸ hunits) hstackable (by omega) hlt hpart
      have hdrop : itemList.dropLast = init := by rw [hsplit, List.dropLast_concat]
      have hsum' : total w itemId subType init +
          (amount.toNat - total w itemId subType init) = amount.toNat := by omega
      rw [hsum'] at hexact
      rw [if_pos (by rw [BitVec.lt_def, hrest, hwide]; exact hlt), Player.counted,
        Player.uncounted, hexact, hdrop]
      exact ⟨fun hboth => .inr ⟨heq, hstackable, hboth⟩,
        fun hor => hor.elim (fun hall => absurd hall.1 heq) fun hboth => hboth.2.2⟩
  · -- all of every item is removed
    rw [Player.internalRemoveItems, if_neg hstackable, Player.counted, Player.uncounted, hall]
    constructor
    · rintro ⟨hsum', hothers⟩
      have hcounted := hsum'
      rw [Player.counted] at hcounted
      have heq : total w itemId subType itemList = amount.toNat := by omega
      rw [← heq] at hsum'
      exact .inl ⟨heq, hwhole.mp ⟨hsum', hothers⟩⟩
    · rintro (⟨heq, hclosed⟩ | hpart)
      · rw [← heq]
        exact hwhole.mpr hclosed
      · exact absurd hpart.2.1 hstackable

/-- `removeItemOfType` does what it is for, where fewer than 2³² units are counted and items
of the type can be removed. -/
theorem removeItemOfType_exact (w : World) (p : Player) (itemId : BitVec 16)
    (amount : BitVec 32) (subType : Int) (ignoreEquipped : Bool)
    (hcounted : p.counted w itemId subType ignoreEquipped < 2 ^ 32)
    (hremovable : ∀ r ∈ p.all, r.label.object.id = itemId → r.label.object.canRemove = true) :
    RemovesExactly w p itemId amount subType ignoreEquipped ↔
      RemoveFits w p itemId amount subType ignoreEquipped := by
  have hlooked := total_lookedAt_le w p itemId subType ignoreEquipped
  by_cases hzero : amount = 0
  · refine iff_of_true ?_ (.inl hzero)
    have hresult : p.removeItemOfType w itemId amount subType ignoreEquipped = (true, p) := by
      rw [Player.removeItemOfType, if_pos hzero]
    have hnone : amount.toNat = 0 := by rw [hzero]; rfl
    exact ⟨by simp [hresult, hnone], fun _ => by simp [hresult, hnone], fun _ => by rw [hresult]⟩
  have hpos : 0 < amount.toNat := by
    rcases Nat.eq_zero_or_pos amount.toNat with h | h
    · exact absurd (BitVec.eq_of_toNat_eq h) hzero
    · exact h
  have hsearch := @search_eq w itemId subType amount ignoreEquipped p.slots {}
  obtain ⟨hfound, hnone⟩ := @foldlM_step w itemId subType amount
    (lookedAt itemId ignoreEquipped p.slots) {} hpos (by
      show 0 + _ < _
      omega)
  rw [← hsearch] at hfound hnone
  by_cases henough : amount.toNat ≤ total w itemId subType
      (lookedAt itemId ignoreEquipped p.slots)
  · -- enough is found
    have hfound' := hfound (by show _ ≤ 0 + _; omega)
    have hresult : p.removeItemOfType w itemId amount subType ignoreEquipped =
        (true, p.internalRemoveItems w (takenFor w p itemId amount subType ignoreEquipped) amount
          (w.itemType itemId).stackable) := by
      rw [Player.removeItemOfType, if_neg hzero, hfound']
      rfl
    obtain ⟨init, last, hsplit, hless, hle⟩ := taken_split hpos henough
    have hlies : Lies w itemId subType p ignoreEquipped
        (takenFor w p itemId amount subType ignoreEquipped) :=
      lies_lookedAt.sublist (taken_sublist _ _)
    have hunits : ∀ e ∈ takenFor w p itemId amount subType ignoreEquipped,
        unitsOf w itemId subType e ≠ 0 := unitsOf_taken
    have hcan : ∀ e ∈ takenFor w p itemId amount subType ignoreEquipped,
        e.object.canRemove = true := by
      intro e he
      obtain ⟨r, hr, rfl, _⟩ := hlies.record e he
      exact hremovable r hr (unitsOf_eq_count (hunits _ he)).1
    have hexact := internalRemoveItems_exact hlies hunits hcan hsplit hless hle
    rw [RemoveFits]
    constructor
    · intro h
      have hgone := h.gone (by rw [hresult])
      rw [hresult] at hgone
      exact .inr (.inr ⟨henough, hexact.mp hgone⟩)
    · rintro (h | h | h)
      · exact absurd h hzero
      · omega
      · refine ⟨?_, fun _ => ?_, fun hfalse => ?_⟩
        · rw [hresult]
          exact iff_of_true rfl (by omega)
        · rw [hresult]
          exact hexact.mpr h.2
        · rw [hresult] at hfalse
          cases hfalse
  · -- too few are found
    obtain ⟨f', hf'⟩ := hnone (by show 0 + _ < _; omega)
    have hresult : p.removeItemOfType w itemId amount subType ignoreEquipped = (false, p) := by
      rw [Player.removeItemOfType, if_neg hzero, hf']
    constructor
    · intro h
      have hiff := h.enough
      rw [hresult] at hiff
      refine .inr (.inl (Nat.lt_of_not_le fun hle => ?_))
      cases hiff.mpr hle
    · rintro (h | h | h)
      · exact absurd h hzero
      · refine ⟨?_, fun htrue => ?_, fun _ => by rw [hresult]⟩
        · rw [hresult]
          exact iff_of_false Bool.noConfusion (by omega)
        · rw [hresult] at htrue
          cases htrue
      · exact absurd h.1 henough

/-- Bags and coins. -/
def bagTypes : World where
  itemType id :=
    if id = 1988 then { id := 1988, group := .container }
    else if id = 2148 then { id := 2148, stackable := true }
    else {}
  addUniqueItem _ := false
  getNameByGuid _ := []

/-- A hundred coins in the last slot. -/
def coins : Player where
  slots := List.replicate 9 none ++
    [some (.node ⟨0, { id := 2148, count := 100, cls := .item }⟩ [])]
  distinct := by decide

theorem coins_removed : RemovesExactly bagTypes coins 2148 40 (-1) false :=
  (removeItemOfType_exact bagTypes coins 2148 40 (-1) false (by decide) fun r hr _ => by
    rw [List.mem_singleton.mp hr]).mpr
    (.inr (.inr ⟨by decide, .inr ⟨by decide, by decide, fun _ he => (by cases he), .inl rfl⟩⟩))

/-- A bag that is worn, with a bag in it. -/
def bagInBag : Player where
  slots := [none, none,
    some (.node ⟨0, { id := 1988, cls := .container }⟩
      [.node ⟨1, { id := 1988, cls := .container }⟩ []])] ++ List.replicate 7 none
  distinct := by decide

/-- Two bags are counted, but the search does not look into the bag that it takes. -/
theorem bag_in_bag_not_found :
    ¬∀ (w : World) (p : Player) (itemId : BitVec 16) (amount : BitVec 32) (subType : Int)
      (ignoreEquipped : Bool), RemovesExactly w p itemId amount subType ignoreEquipped := by
  intro h
  have hbags : (bagInBag.removeItemOfType bagTypes 1988 2 (-1) false).1 = true :=
    (h bagTypes bagInBag 1988 2 (-1) false).enough.mpr (by decide)
  exact absurd hbags (by decide)

end Infernum.Inventory
