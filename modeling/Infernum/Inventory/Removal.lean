import Infernum.Inventory.Search

/-!
# Which removals are exact

A removal is exact if the search finds all units there are, or enough of them, and if what
is removed whole holds nothing else. Two things stand in the way: what lies in an item of
the type that is worn is counted but not searched, and what lies in an item that is removed
goes with it.
-/

namespace Infernum.Inventory

open Lib (Rose Placed)

variable {w : World} {itemId : BitVec 16} {subType : Int}

/-! ## What a removal leaves -/

/-- What stays when these items are taken out with what lies in them. -/
def stays (es : List Entry) (r : Record) : Bool :=
  es.all fun e => decide (Rose.Outside Entry.place e.place r)

/-- What lies above an item that lies in a slot is an item, too. -/
theorem mem_above_records {n : Nat} {slots : Slots} {i : Nat} :
    ∀ r ∈ records n slots, Place.item i ∈ r.above →
      ∃ r' ∈ records n slots, r'.label.item = i := by
  induction slots generalizing n with
  | nil => nofun
  | cons slot slots ih =>
    intro r hr hi
    cases slot with
    | none => exact ih r hr hi
    | some t =>
      rw [records] at hr ⊢
      rcases List.mem_append.mp hr with hr | hr
      · rcases Rose.mem_above_placed t r hr hi with hslot | ⟨r', hr', heq⟩
        · cases List.mem_singleton.mp hslot
        · exact ⟨r', List.mem_append_left _ hr', by injection heq⟩
      · obtain ⟨r', hr', heq⟩ := ih r hr hi
        exact ⟨r', List.mem_append_right _ hr', heq⟩

/-- The object of a stack that has `n` items left. -/
def Entry.withCount (e : Entry) (n : Nat) : Object :=
  { e.object with toItem := e.object.toItem.setItemCount (.ofNat 16 n) }

namespace Player

variable {p : Player}

/-- A pointer belongs to one item. -/
theorem label_eq {r r' : Record} (hr : r ∈ p.all) (hr' : r' ∈ p.all)
    (h : r.label.item = r'.label.item) : r = r' :=
  List.inj_on_of_nodup_map p.distinct hr hr' h

/-- Where the item is still there, it is as it was found. -/
def Knows (p : Player) (e : Entry) : Prop := ∀ r ∈ p.all, r.label.item = e.item → r.label = e

theorem all_prune (p : Player) (e : Entry) : (p.prune e.item).all = p.all.filter (stays [e]) := by
  rw [all, prune, records_prune]
  refine List.filter_congr fun r _ => ?_
  rw [stays, List.all_cons, List.all_nil, Bool.and_true]
  rfl

/-- All of an item is removed. -/
theorem all_internalRemoveItem {e : Entry} (hknows : p.Knows e) (hcount : e.object.count ≠ 0)
    (hremovable : e.object.canRemove = true) :
    (p.internalRemoveItem w e none).all = p.all.filter (stays [e]) := by
  have hwide : e.object.count.setWidth 32 ≠ 0 := by
    intro h
    have hnat := congrArg BitVec.toNat h
    rw [BitVec.toNat_setWidth_of_le (by omega)] at hnat
    exact hcount (BitVec.eq_of_toNat_eq hnat)
  rw [internalRemoveItem]
  cases hfind : p.all.find? fun r => r.label.item = e.item with
  | none =>
    -- it has gone with what it lay in
    have hnone : ∀ r ∈ p.all, r.label.item ≠ e.item := by
      intro r hr
      simpa using List.find?_eq_none.mp hfind r hr
    refine (List.filter_eq_self.mpr fun r hr => ?_).symm
    rw [stays, List.all_cons, List.all_nil, Bool.and_true, decide_eq_true_eq]
    refine ⟨fun h => hnone r hr (by injection h), fun h => ?_⟩
    obtain ⟨r', hr', heq⟩ := mem_above_records r hr h
    exact hnone r' hr' heq
  | some r =>
    have hr := List.mem_of_find?_eq_some hfind
    have hitem : r.label.item = e.item := by simpa using List.find?_some hfind
    have hlabel := hknows r hr hitem
    dsimp only [Option.getD_none]
    rw [hlabel, if_neg, if_neg, removeThing, if_neg, all_prune]
    · exact fun h => h.2 rfl
    · rw [hremovable]
      exact Bool.noConfusion
    · rintro (h | h)
      · exact hwide h
      · exact BitVec.lt_irrefl _ h.2

theorem Knows.filter {e : Entry} (h : p.Knows e) {q : Player} {f : Record → Bool}
    (hq : q.all = p.all.filter f) : q.Knows e := by
  intro r hr
  rw [hq] at hr
  exact h r (List.mem_filter.mp hr).1

theorem stays_cons (e : Entry) (es : List Entry) (r : Record) :
    stays (e :: es) r = (stays [e] r && stays es r) := by
  rw [stays, stays, stays, List.all_cons, List.all_cons, List.all_nil, Bool.and_true]

/-- All of some items is removed. -/
theorem all_foldl {es : List Entry} (hknows : ∀ e ∈ es, p.Knows e)
    (hcount : ∀ e ∈ es, e.object.count ≠ 0) (hremovable : ∀ e ∈ es, e.object.canRemove = true) :
    (es.foldl (fun p e => p.internalRemoveItem w e none) p).all = p.all.filter (stays es) := by
  induction es generalizing p with
  | nil =>
    rw [List.foldl_nil]
    exact (List.filter_eq_self.mpr fun _ _ => rfl).symm
  | cons e es ih =>
    have hone := all_internalRemoveItem (w := w) (hknows e List.mem_cons_self)
      (hcount e List.mem_cons_self) (hremovable e List.mem_cons_self)
    rw [List.foldl_cons, ih, hone, List.filter_filter]
    · refine List.filter_congr fun r _ => ?_
      rw [Bool.and_comm, ← stays_cons]
    · exact fun e' he' => (hknows e' (List.mem_cons_of_mem _ he')).filter hone
    · exact fun e' he' => hcount e' (List.mem_cons_of_mem _ he')
    · exact fun e' he' => hremovable e' (List.mem_cons_of_mem _ he')

/-! ## A part of a stack -/

/-! ## A part of a stack -/

theorem relabel_of_ne {r : Record} {i : Nat} {o : Object} (h : r.label.item ≠ i) :
    r.relabel (Entry.setObject i o) = id r := by
  rw [Placed.relabel, Entry.setObject, if_neg h]
  rfl

/-- A part of a stack is removed, where it still is. -/
theorem all_internalRemoveItem_some {e : Entry} (hknows : p.Knows e) {amount : BitVec 32}
    (hpos : amount ≠ 0) (hlt : amount.toNat < e.object.count.toNat)
    (hstackable : (w.itemType e.object.id).stackable = true)
    (hremovable : e.object.canRemove = true) :
    (p.internalRemoveItem w e (some amount)).all =
      p.all.map (Placed.relabel (Entry.setObject e.item
        (e.withCount (e.object.count.toNat - amount.toNat)))) := by
  have hcount := e.object.count.isLt
  have hwide : (e.object.count.setWidth 32).toNat = e.object.count.toNat :=
    BitVec.toNat_setWidth_of_le (by omega)
  have hlt' : amount < e.object.count.setWidth 32 := by
    rw [BitVec.lt_def, hwide]
    exact hlt
  rw [internalRemoveItem]
  cases hfind : p.all.find? fun r => r.label.item = e.item with
  | none =>
    have hnone : ∀ r ∈ p.all, r.label.item ≠ e.item := by
      intro r hr
      simpa using List.find?_eq_none.mp hfind r hr
    exact ((List.map_congr_left fun r hr => relabel_of_ne (hnone r hr)).trans
      (List.map_id _)).symm
  | some r =>
    have hr := List.mem_of_find?_eq_some hfind
    have hitem : r.label.item = e.item := by simpa using List.find?_some hfind
    have hlabel := hknows r hr hitem
    have hnew : (max 0 (e.object.count.setWidth 32 - amount).toInt).toNat % 256 =
        e.object.count.toNat - amount.toNat := by
      have hsub : (e.object.count.setWidth 32 - amount).toNat =
          e.object.count.toNat - amount.toNat := by
        rw [BitVec.toNat_sub_of_le (BitVec.le_of_lt hlt'), hwide]
      rw [BitVec.toInt_eq_toNat_of_lt (by rw [hsub]; omega), hsub]
      omega
    dsimp only [Option.getD_some]
    rw [hlabel, if_neg, if_neg, removeThing, if_pos ⟨hstackable, BitVec.ne_of_lt hlt'⟩]
    · dsimp only
      rw [hnew]
      exact records_setObject _ _ _ _
    · rw [hremovable]
      exact Bool.noConfusion
    · rintro (h | h)
      · exact hpos h
      · exact absurd (BitVec.lt_trans h.2 hlt') (BitVec.lt_irrefl _)

end Player

theorem unitsOf_eq_count {e : Entry} (h : unitsOf w itemId subType e ≠ 0) :
    e.object.id = itemId ∧ (subType = -1 ∨ subType = (e.object.getSubType w).toNat) ∧
      unitsOf w itemId subType e = e.object.count.toNat ∧ e.object.count ≠ 0 := by
  have hcount := e.object.count.isLt
  rw [unitsOf] at h ⊢
  split at h
  · next hid =>
    rw [if_pos hid]
    rw [countByType] at h ⊢
    split at h
    · next hsub =>
      have hwide : (e.object.count.setWidth 32).toNat = e.object.count.toNat :=
        BitVec.toNat_setWidth_of_le (by omega)
      rw [hwide] at h
      rw [if_pos hsub, hwide]
      refine ⟨hid, hsub, rfl, fun hzero => ?_⟩
      rw [hzero] at h
      exact h rfl
    · exact absurd rfl h
  · exact absurd rfl h

/-- What is left of a stack counts unless the filter asks for the count that it had. -/
theorem unitsOf_withCount {e : Entry} (h : unitsOf w itemId subType e ≠ 0)
    (hstackable : (w.itemType itemId).stackable = true) {n : Nat}
    (hn : n < e.object.count.toNat) :
    unitsOf w itemId subType ⟨e.item, e.withCount n⟩ =
      if subType = -1 ∨ (w.itemType itemId).holdsFluid = true then n else 0 := by
  obtain ⟨hid, hsub, -, -⟩ := unitsOf_eq_count h
  have hcount := e.object.count.isLt
  have hnew : ((e.withCount n).count.setWidth 32).toNat = n := by
    show (((BitVec.ofNat 16 n).setWidth 8).setWidth 32).toNat = n
    simp only [BitVec.toNat_setWidth, BitVec.toNat_ofNat]
    omega
  have hsame : (e.withCount n).id = itemId := hid
  rw [unitsOf, if_pos hsame, countByType]
  have htype : (e.withCount n).toItem.type w = w.itemType itemId := by
    rw [Item.type, hsame]
  have htype' : e.object.toItem.type w = w.itemType itemId := by
    rw [Item.type, hid]
  by_cases hall : subType = -1
  · rw [if_pos (.inl hall), if_pos (.inl hall), hnew]
  · have hsub' := hsub.resolve_left hall
    rw [Item.getSubType, htype'] at hsub'
    by_cases hfluid : (w.itemType itemId).holdsFluid = true
    · rw [if_pos hfluid] at hsub'
      have hfilter : subType = ((e.withCount n).toItem.getSubType w).toNat := by
        rw [Item.getSubType, htype, if_pos hfluid]
        exact hsub'
      rw [if_pos (Or.inr hfilter), if_pos (.inr hfluid), hnew]
    · rw [if_neg hfluid, if_pos hstackable] at hsub'
      -- the sub-type was the count
      have hfilter : ¬subType = ((e.withCount n).toItem.getSubType w).toNat := by
        rw [Item.getSubType, htype, if_neg hfluid, if_pos hstackable, hsub']
        have hleft : ((e.withCount n).count.setWidth 16).toNat = n := by
          show (((BitVec.ofNat 16 n).setWidth 8).setWidth 16).toNat = n
          simp only [BitVec.toNat_setWidth, BitVec.toNat_ofNat]
          omega
        rw [hleft, BitVec.toNat_setWidth_of_le (by omega)]
        omega
      rw [if_neg (not_or.mpr ⟨hall, hfilter⟩), if_neg (not_or.mpr ⟨hall, hfluid⟩)]
      rfl

namespace Player

variable {p : Player}

/-- The loop over a stack of items removes the first ones whole. -/
theorem removeFromItems_append {init es : List Entry} {amount : BitVec 32}
    (hunits : ∀ e ∈ init, unitsOf w itemId subType e ≠ 0)
    (hlt : total w itemId subType init < amount.toNat) :
    removeFromItems w amount (init ++ es) p =
      removeFromItems w (amount - .ofNat 32 (total w itemId subType init)) es
        (init.foldl (fun p e => p.internalRemoveItem w e none) p) := by
  induction init generalizing p amount with
  | nil =>
    rw [total_nil, List.nil_append, List.foldl_nil]
    congr 1
    exact (BitVec.sub_zero amount).symm
  | cons e init ih =>
    obtain ⟨-, -, hcount, -⟩ := unitsOf_eq_count (hunits e List.mem_cons_self)
    have hsmall := e.object.count.isLt
    have hwide : (e.object.count.setWidth 32).toNat = unitsOf w itemId subType e := by
      rw [hcount]
      exact BitVec.toNat_setWidth_of_le (by omega)
    rw [total_cons] at hlt
    have hle : e.object.count.setWidth 32 ≤ amount := by
      rw [BitVec.le_def, hwide]
      omega
    have hrest : (amount - e.object.count.setWidth 32).toNat =
        amount.toNat - unitsOf w itemId subType e := by
      rw [BitVec.toNat_sub_of_le hle, hwide]
    rw [List.cons_append, removeFromItems, if_neg (BitVec.not_lt.mpr hle), List.foldl_cons,
      ih (fun e' he' => hunits e' (List.mem_cons_of_mem _ he')) (by rw [hrest]; omega)]
    congr 1
    rw [total_cons, BitVec.ofNat_add, ← hwide, BitVec.ofNat_toNat, BitVec.setWidth_eq,
      BitVec.sub_sub]

end Player

end Infernum.Inventory
