import Infernum.Container.OpenContainers

/-!
# Open pages follow the container

Which steps keep every page that a client shows equal to the items of its container: at a
front add the windows must be on their first page, because the message for a later page
carries the item before the one that slides in.
-/

namespace Infernum.OpenPages

open Lib

/-! ## A page and one message -/

/-- Page sizes that the byte of `sendContainer` holds. -/
structure Container.Fits (container : Container) : Prop where
  pos : 0 < container.capacity.toNat
  byte : container.capacity.toNat ≤ 255

namespace Container

instance (container : Container) : Decidable container.Fits :=
  decidable_of_iff (0 < container.capacity.toNat ∧ container.capacity.toNat ≤ 255)
    ⟨fun h => ⟨h.1, h.2⟩, fun h => ⟨h.pos, h.byte⟩⟩

variable (container : Container) (index : BitVec 16)

/-- The page that a client should show once the container's items are these. -/
def pageAfter (itemlist : List Object) : Page where
  firstIndex := index
  capacity := container.capacity.setWidth 8
  items := page itemlist index.toNat container.capacity.toNat

/-- The page that a client should show. -/
def pageAt : Page := container.pageAfter index container.itemlist

variable {container} in
theorem Fits.capacity_setWidth (hfits : container.Fits) :
    (container.capacity.setWidth 8).toNat = container.capacity.toNat := by
  have hbyte := hfits.byte
  rw [BitVec.toNat_setWidth]
  omega

variable {container} in
/-- `sendContainer` sends the whole page. -/
theorem sendContainer_apply (hfits : container.Fits) (hsize : container.size < 2 ^ 32)
    (cid : BitVec 8) (hasParent : Bool) (p : Option Page) :
    (container.sendContainer cid hasParent index).apply p = some (container.pageAt index) := by
  have hbyte := hfits.byte
  have hindex := index.isLt
  have hlen : container.itemlist.length < 2 ^ 32 := hsize
  show some _ = some (pageAt container index)
  rw [pageAt, pageAfter, page, Option.some.injEq, Page.mk.injEq]
  refine ⟨rfl, rfl, ?_⟩
  split
  · rename_i hlt
    have hlt' : index.toNat < container.itemlist.length := by
      have h := BitVec.lt_def.mp hlt
      simp only [BitVec.toNat_setWidth, BitVec.toNat_ofNat, size] at h
      omega
    have hleft : (BitVec.ofNat 32 container.size - index.setWidth 32).toNat =
        container.itemlist.length - index.toNat := by
      rw [BitVec.toNat_sub]
      simp only [BitVec.toNat_setWidth, BitVec.toNat_ofNat, size]
      omega
    rw [hleft, List.take_eq_take_iff, List.length_drop]
    omega
  · rename_i hle
    have hle' : container.itemlist.length ≤ index.toNat := by
      have h := BitVec.le_def.mp (BitVec.not_lt.mp hle)
      simp only [BitVec.toNat_setWidth, BitVec.toNat_ofNat, size] at h
      omega
    rw [List.drop_eq_nil_of_le hle', List.take_nil]

/-- What the client shows of the container, as a list. -/
def shown : List Object := page container.itemlist index.toNat container.capacity.toNat

variable {container index} in
/-- An item that is put at the place `k` of the page. -/
theorem addItem_eq_iff (hfits : container.Fits) {slot : BitVec 16} {k : Nat} (item : Object)
    {itemlist : List Object} (hslot : slot.toNat = index.toNat + k)
    (hk : k ≤ (container.shown index).length) :
    (container.pageAt index).addItem slot item = container.pageAfter index itemlist ↔
      ((container.shown index).insertIdx k item).take container.capacity.toNat =
        page itemlist index.toNat container.capacity.toNat := by
  have hfirst : index ≤ slot := by
    rw [BitVec.le_def]
    omega
  have hplace : slot.toNat - index.toNat = k := by omega
  have hin : slot.toNat - index.toNat ≤ (container.shown index).length := hplace.le.trans hk
  rw [Page.addItem, if_pos ⟨hfirst, hin⟩]
  show Page.mk index (container.capacity.setWidth 8)
    (((container.shown index).insertIdx (slot.toNat - index.toNat) item).take
      (container.capacity.setWidth 8).toNat) = Page.mk index _ _ ↔ _
  rw [hplace, hfits.capacity_setWidth, Page.mk.injEq]
  simp [capacity]

variable {container} in
/-- **A front add**: the page is right after an item at its first place exactly if the item
is the one that is there now. -/
theorem addItem_front_iff (hfits : container.Fits) (item item' : Object) :
    (container.pageAt index).addItem index item' =
        container.pageAfter index (item :: container.itemlist) ↔
      (item :: container.itemlist)[index.toNat]? = some item' := by
  rw [addItem_eq_iff hfits item' (Nat.add_zero _).symm (Nat.zero_le _), page_cons,
    List.insertIdx_zero, shown]
  obtain ⟨n, hn⟩ : ∃ n, container.capacity.toNat = n + 1 :=
    ⟨_, (Nat.succ_pred hfits.pos.ne').symm⟩
  rw [hn]
  cases hitem : (item :: container.itemlist)[index.toNat]? with
  | some item'' => simp [eq_comm]
  | none =>
      have hlen : container.itemlist.length < index.toNat := by
        have hle := List.getElem?_eq_none_iff.mp hitem
        rw [List.length_cons] at hle
        omega
      simp [page_eq_nil _ _ _ hlen.le]

variable {container index} in
/-- An item behind a full page: the last item of the page is sent once more. -/
theorem addItem_back_full (hfits : container.Fits) {slot : BitVec 16} {item item' : Object}
    (hfull : index.toNat + container.capacity.toNat ≤ container.itemlist.length)
    (hslot : slot.toNat = index.toNat + container.capacity.toNat - 1)
    (hitem : (container.itemlist ++ [item])[slot.toNat]? = some item') :
    (container.pageAt index).addItem slot item' =
      container.pageAfter index (container.itemlist ++ [item]) := by
  obtain ⟨n, hn⟩ : ∃ n, container.capacity.toNat = n + 1 :=
    ⟨_, (Nat.succ_pred hfits.pos.ne').symm⟩
  have hlen : (container.shown index).length = n + 1 := by
    rw [shown, length_page]
    omega
  have hlast : (container.shown index)[n]? = some item' := by
    rw [shown, getElem?_page, if_pos (by omega), ← hitem, List.getElem?_append_left (by omega)]
    congr 1
    omega
  rw [addItem_eq_iff hfits (k := n) item' (by omega) (by omega), page_append_of_le _ _ _ _ hfull,
    hn, take_insertIdx hlast, List.take_of_length_le hlen.le, shown, hn]

variable {container index} in
/-- An item behind a page that is not full. -/
theorem addItem_back_last (hfits : container.Fits) {slot : BitVec 16} (item : Object)
    (hlast : container.itemlist.length < index.toNat + container.capacity.toNat)
    (hslot : slot.toNat = container.itemlist.length) :
    (container.pageAt index).addItem slot item =
      container.pageAfter index (container.itemlist ++ [item]) := by
  by_cases hfirst : index.toNat ≤ slot.toNat
  · have hlen : (container.shown index).length = slot.toNat - index.toNat := by
      rw [shown, length_page]
      omega
    rw [addItem_eq_iff hfits (k := (container.shown index).length) item (by omega) le_rfl,
      page_append_of_lt _ _ _ _ (by omega) hlast, List.insertIdx_length_self,
      List.take_of_length_le (by rw [List.length_append, hlen, List.length_singleton]; omega)]
    rfl
  · -- the page is behind the last item
    rw [Page.addItem, if_neg fun h => hfirst (BitVec.le_def.mp h.1), pageAt, pageAfter, pageAfter,
      page_eq_nil _ _ _ (by omega), page_eq_nil _ _ _ (by rw [List.length_append]; simp; omega)]

variable {container index} in
theorem updateItem_eq {slot : BitVec 16} (hfirst : index ≤ slot) (item : Object) :
    (container.pageAt index).updateItem slot item =
      container.pageAfter index (container.itemlist.set slot.toNat item) := by
  have hle := BitVec.le_def.mp hfirst
  have hshown : (container.pageAt index).firstIndex ≤ slot := hfirst
  rw [Page.updateItem, if_pos hshown, pageAfter, page_set, if_neg (by omega)]
  rfl

variable {container index} in
/-- A removal: the slot is at least the first one of the page, and the item that is sent is
the one behind the page. -/
theorem removeItem_eq (hfits : container.Fits) {slot : BitVec 16} {k : Nat}
    (hslot : slot.toNat = max k index.toNat) :
    (container.pageAt index).removeItem slot
        container.itemlist[index.toNat + container.capacity.toNat]? =
      container.pageAfter index (container.itemlist.eraseIdx k) := by
  have hpos := hfits.pos
  have hfirst : index ≤ slot := by
    rw [BitVec.le_def]
    omega
  have hplace : slot.toNat - index.toNat = k - index.toNat := by omega
  have hlen : (container.shown index).length =
      min container.capacity.toNat (container.itemlist.length - index.toNat) := length_page _ _ _
  rw [pageAfter]
  by_cases hin : slot.toNat - index.toNat < (container.shown index).length
  · rw [Page.removeItem, if_pos ⟨hfirst, hin⟩, page_eraseIdx _ _ _ _ hfits.pos (by omega), ← hplace]
    rfl
  · rw [Page.removeItem, if_neg fun h => hin h.2]
    by_cases hout : index.toNat + container.capacity.toNat ≤ k
    · rw [page_eraseIdx_of_le _ _ _ _ hout]
      rfl
    · -- the page ends before the slot
      rw [page_eraseIdx _ _ _ _ hfits.pos (by omega), List.eraseIdx_of_length_le,
        List.getElem?_eq_none (by omega)]
      · simp [pageAt, pageAfter]
      · rw [← hplace]
        exact not_lt.mp hin

/-! ### What one turn of the loops sends -/

/-- The messages of one window, read by the page it shows. -/
def applyAll (messages : List Message) (p : Option Page) : Option Page :=
  messages.foldl (fun p m => m.apply p) p

theorem applyAll_append (messages messages' : List Message) (p : Option Page) :
    applyAll (messages ++ messages') p = applyAll messages' (applyAll messages p) :=
  List.foldl_append

variable {container} in
theorem addTurn_front (hordinary : container.isBrowseField = false)
    (hpos : 0 < container.capacity.toNat) (item : Option Object) :
    container.addTurn 0 item = (0, item) := by
  have hroom : ¬ container.capacity ≤ (0 : BitVec 16).setWidth 32 := by
    rw [BitVec.le_def]
    exact not_le.mpr hpos
  simp only [addTurn, hordinary, if_neg hroom]
  rfl

theorem toNat_lastIndex {n : Nat} (hn : n < 65536) : (BitVec.ofNat 16 (n + 1) - 1).toNat = n := by
  rw [BitVec.toNat_sub, BitVec.toNat_ofNat]
  show (65536 - 1 + (n + 1) % 65536) % 65536 = n
  omega

variable {container index} in
theorem toNat_pageEnd (hpos : 0 < index.toNat + container.capacity.toNat)
    (hend : index.toNat + container.capacity.toNat ≤ 65536) :
    (index + container.capacity.setWidth 16 - 1).toNat =
      index.toNat + container.capacity.toNat - 1 := by
  rw [BitVec.toNat_sub, BitVec.toNat_add, BitVec.toNat_setWidth]
  show (65536 - 1 + (index.toNat + container.capacity.toNat % 65536) % 65536) % 65536 = _
  omega

section Back

variable {container index} {n : Nat} (hbrowse : container.isBrowseField = true)
  (hsize : container.size = n + 1) (hn : n < 65536)
  (hend : index.toNat + container.capacity.toNat ≤ 65536)

include hbrowse hsize hn hend

/-- The new item is behind the page. -/
theorem addTurn_full (hpos : 0 < container.capacity.toNat)
    (hfull : index.toNat + container.capacity.toNat ≤ n) (item : Option Object) :
    container.addTurn index item =
      (index + container.capacity.setWidth 16 - 1,
        container.getItemByIndex (index + container.capacity.setWidth 16 - 1).toNat) := by
  have hlt : index + container.capacity.setWidth 16 - 1 < BitVec.ofNat 16 (n + 1) - 1 := by
    rw [BitVec.lt_def, toNat_lastIndex hn, toNat_pageEnd (Nat.add_pos_right _ hpos) hend]
    omega
  rw [addTurn, hbrowse, hsize]
  simp only [if_true, if_pos hlt]

/-- The new item is on the page, or in front of it. -/
theorem addTurn_last (hlast : n < index.toNat + container.capacity.toNat)
    (item : Option Object) :
    container.addTurn index item = (BitVec.ofNat 16 (n + 1) - 1, item) := by
  have hle : ¬ index + container.capacity.setWidth 16 - 1 < BitVec.ofNat 16 (n + 1) - 1 := by
    rw [BitVec.lt_def, toNat_lastIndex hn, toNat_pageEnd (by omega) hend]
    omega
  rw [addTurn, hbrowse, hsize]
  simp only [if_true, if_neg hle]

end Back

/-- The messages of the whole loop: a window is `own` if it replaces the item for itself
and for those after it, so the others have to come first. -/
theorem sendAddContainerItem_eq {entries : List Entry} (turn : Entry → BitVec 16 × Object)
    (own : Entry → Prop) {x : Object} {item : Option Object}
    (hown : ∀ it ∈ entries, own it →
      ∀ item, container.addTurn it.2.index item = ((turn it).1, some (turn it).2))
    (hkeep : ∀ it ∈ entries, ¬ own it →
      (turn it).2 = x ∧ ∀ item, container.addTurn it.2.index item = ((turn it).1, item))
    (hfirst : entries.Pairwise fun it it' => own it → own it')
    (hitem : item = some x ∨ item.isSome ∧ ∀ it ∈ entries, own it) :
    container.sendAddContainerItem entries item =
      some (entries.map fun it => .addContainerItem it.1 (turn it).1 (turn it).2) := by
  induction entries generalizing item with
  | nil => rfl
  | cons it entries ih =>
      obtain ⟨hrest, hfirst⟩ := List.pairwise_cons.mp hfirst
      have ih' := fun item => @ih item (fun e he => hown e (List.mem_cons_of_mem _ he))
        (fun e he => hkeep e (List.mem_cons_of_mem _ he)) hfirst
      by_cases hit : own it
      · have hturn := hown it List.mem_cons_self hit item
        have htail := ih' (some (turn it).2) (.inr ⟨rfl, fun e he => hrest e he hit⟩)
        simp [sendAddContainerItem, hturn, htail]
      · -- the item has not been replaced so far
        obtain ⟨hx, hturn⟩ := hkeep it List.mem_cons_self hit
        have hfresh : item = some x :=
          hitem.resolve_right fun h => hit (h.2 it List.mem_cons_self)
        have htail := ih' (some x) (.inl rfl)
        simp [sendAddContainerItem, hturn, htail, hfresh, hx]

variable {container} in
/-- An update reaches the windows that show the slot. -/
theorem updateTurn_apply {k : Nat} (hk : k < 65536) (it : Entry)
    (hend : k < it.2.index.toNat ∨ it.2.index.toNat + container.capacity.toNat < 65536)
    (item : Object) :
    applyAll (container.updateTurn (.ofNat 16 k) item it) (some (container.pageAt it.2.index)) =
      some (container.pageAfter it.2.index (container.itemlist.set k item)) := by
  have hslot : (BitVec.ofNat 16 k).toNat = k := by
    rw [BitVec.toNat_ofNat]
    omega
  rw [updateTurn]
  split
  · rename_i hlt
    have hlt' := BitVec.lt_def.mp hlt
    rw [pageAfter, page_set, if_pos (by omega)]
    rfl
  · rename_i hle
    have hle' := BitVec.le_def.mp (BitVec.not_lt.mp hle)
    have hendVal : (it.2.index + container.capacity.setWidth 16).toNat =
        it.2.index.toNat + container.capacity.toNat := by
      rw [BitVec.toNat_add, BitVec.toNat_setWidth]
      omega
    by_cases hout : it.2.index + container.capacity.setWidth 16 ≤ BitVec.ofNat 16 k
    · have hout' := BitVec.le_def.mp hout
      simp only [if_pos hout]
      rw [pageAfter, page_set, if_neg (by omega), List.set_eq_of_length_le]
      · rfl
      · rw [length_page]
        omega
    · simp only [if_neg hout]
      show some ((container.pageAt it.2.index).updateItem _ item) = _
      rw [updateItem_eq (BitVec.not_lt.mp hle), hslot]

variable {container} in
/-- A removal reaches every window, turned or not. -/
theorem removeTurn_apply (hfits : container.Fits) {k : Nat} (hk : k < 65536) (it : Entry) :
    applyAll (container.removeTurn (.ofNat 16 k) it) (some (container.pageAt it.2.index)) =
      some (container.pageAfter (container.firstIndexAfter it.2.index)
        (container.itemlist.eraseIdx k)) := by
  obtain ⟨cid, oc⟩ := it
  have hbyte := hfits.byte
  have hslot : (BitVec.ofNat 16 k).toNat = k := by
    rw [BitVec.toNat_ofNat]
    omega
  -- the page that is shown when the removal is read
  have hturned : applyAll
      (if container.turnsPage oc.index then
        [container.sendContainer cid false (container.firstIndexAfter oc.index)] else [])
      (some (container.pageAt oc.index)) =
        some (container.pageAt (container.firstIndexAfter oc.index)) := by
    by_cases hturn : container.turnsPage oc.index
    · have hindex := oc.index.isLt
      have hsize : container.size < 2 ^ 32 := by
        rw [turnsPage, Bool.and_eq_true, decide_eq_true_eq, decide_eq_true_eq] at hturn
        omega
      rw [if_pos hturn]
      exact sendContainer_apply _ hfits hsize cid false (some (container.pageAt oc.index))
    · rw [if_neg hturn, firstIndexAfter, if_neg hturn]
      rfl
  rw [removeTurn, applyAll_append, hturned]
  generalize container.firstIndexAfter oc.index = firstIndex
  have hfirst := firstIndex.isLt
  have hlast : (container.capacity + firstIndex.setWidth 32).toNat =
      firstIndex.toNat + container.capacity.toNat := by
    rw [BitVec.toNat_add, BitVec.toNat_setWidth]
    omega
  have hmax : (if BitVec.ofNat 16 k < firstIndex then firstIndex else .ofNat 16 k).toNat =
      max k firstIndex.toNat := by
    split
    · rename_i hlt
      have hlt' := BitVec.lt_def.mp hlt
      omega
    · rename_i hle
      have hle' := BitVec.le_def.mp (BitVec.not_lt.mp hle)
      omega
  show some ((container.pageAt firstIndex).removeItem _ (container.getItemByIndex _)) = _
  rw [getItemByIndex, hlast, removeItem_eq hfits hmax]

end Container

namespace State

variable (s : State) (c : ContainerRef)

/-! ## Windows -/

theorem mem_entries (it : Entry) : it ∈ s.entries ↔ s.openContainers it.1 = some it.2 := by
  obtain ⟨cid, oc⟩ := it
  simp only [entries, List.mem_filterMap, List.mem_finRange, true_and, Option.map_eq_some_iff,
    Prod.mk.injEq]
  constructor
  · rintro ⟨cid', oc', hoc, rfl, rfl⟩
    exact hoc
  · intro hoc
    exact ⟨cid.toFin, oc, hoc, rfl, rfl⟩

theorem mem_entriesOf (it : Entry) :
    it ∈ s.entriesOf c ↔ s.openContainers it.1 = some it.2 ∧ it.2.container = c := by
  rw [entriesOf, List.mem_filter, mem_entries, beq_iff_eq]

theorem nodup_entriesOf : ((s.entriesOf c).map Prod.fst).Nodup := by
  have hentries : (s.entries.map Prod.fst).Nodup := by
    rw [entries, List.map_filterMap]
    refine List.Nodup.filterMap (fun cid cid' it h h' => ?_) (List.nodup_finRange 256)
    simp only [Option.map_map, Option.mem_def, Option.map_eq_some_iff, Function.comp_apply] at h h'
    obtain ⟨_, _, rfl⟩ := h
    obtain ⟨_, _, heq⟩ := h'
    exact (BitVec.ofFin.inj heq).symm
  exact hentries.sublist (List.filter_sublist.map _)

/-! ## The invariant -/

/-- **Every open window shows the items of its container** at the places of the page that it
displays. -/
def InStep : Prop :=
  ∀ cid oc, s.openContainers cid = some oc → ∃ p, s.pages cid = some p ∧
    p.firstIndex = oc.index ∧
    p.capacity.toNat = (s.container oc.container).capacity.toNat ∧
    p.items = page (s.container oc.container).itemlist p.firstIndex.toNat p.capacity.toNat

/-- What runs keep. -/
structure Shows (cid : BitVec 8) (oc : OpenContainer) : Prop where
  known : cid ≤ 0xF
  fits : (s.container oc.container).Fits
  pages : s.pages cid = some ((s.container oc.container).pageAt oc.index)

def Inv : Prop := ∀ cid oc, s.openContainers cid = some oc → s.Shows cid oc

variable {s c}

theorem Inv.inStep (h : s.Inv) : s.InStep := by
  intro cid oc hoc
  have hshows := h cid oc hoc
  have hcapacity := hshows.fits.capacity_setWidth
  refine ⟨(s.container oc.container).pageAt oc.index, hshows.pages, rfl, hcapacity, ?_⟩
  show (s.container oc.container).shown oc.index = page _ _ (BitVec.setWidth 8 _).toNat
  rw [hcapacity]
  rfl

/-- The rule for a change of one container: every window of it reads its own messages, and
the other windows read none. -/
theorem Inv.change {s' : State} (h : s.Inv) (itemlist : List Object) (f : Entry → List Message)
    (turn : BitVec 16 → BitVec 16)
    (hcontainer : s'.container = Function.update s.container c ((s.container c).withItems itemlist))
    (hopen : ∀ cid, s'.openContainers cid = (s.openContainers cid).map fun oc =>
      if oc.container = c then { oc with index := turn oc.index } else oc)
    (hpages : s'.pages =
      ((s.entriesOf c).flatMap f).foldl (receive Message.cid Message.apply) s.pages)
    (hcid : ∀ it, ∀ m ∈ f it, m.cid = it.1)
    (happly : ∀ it ∈ s.entriesOf c, (s.container c).Fits →
      Container.applyAll (f it) (some ((s.container c).pageAt it.2.index)) =
        some ((s.container c).pageAfter (turn it.2.index) itemlist)) : s'.Inv := by
  intro cid oc' hoc'
  rw [hopen, Option.map_eq_some_iff] at hoc'
  obtain ⟨oc, hoc, rfl⟩ := hoc'
  have hshows := h cid oc hoc
  by_cases hc : oc.container = c
  · have hmem : (cid, oc) ∈ s.entriesOf c := (s.mem_entriesOf c _).mpr ⟨hoc, hc⟩
    have hread := foldl_receive_flatMap Message.cid Message.apply (f := f)
      (fun it _ m hm => hcid it m hm) (s.nodup_entriesOf c) hmem s.pages
    obtain ⟨hle, hfits, hshown⟩ := hshows
    subst hc
    have hself : s'.container oc.container = (s.container oc.container).withItems itemlist := by
      rw [hcontainer, Function.update_self]
    rw [if_pos rfl]
    refine ⟨hle, ?_, ?_⟩
    · show (s'.container oc.container).Fits
      rw [hself]
      exact ⟨hfits.pos, hfits.byte⟩
    · show s'.pages cid = some ((s'.container oc.container).pageAt (turn oc.index))
      rw [hpages, hread]
      show Container.applyAll (f (cid, oc)) (s.pages cid) = _
      rw [hshown, happly _ hmem hfits, hself]
      rfl
  · rw [if_neg hc]
    have hother : s'.container oc.container = s.container oc.container := by
      rw [hcontainer, Function.update_of_ne hc]
    have hunread : s'.pages cid = s.pages cid := by
      rw [hpages]
      refine foldl_receive_of_ne Message.cid Message.apply (fun m hm hcidm => ?_) s.pages
      obtain ⟨it, hit, hm⟩ := List.mem_flatMap.mp hm
      obtain ⟨hoc'', hc''⟩ := (s.mem_entriesOf c it).mp hit
      rw [← hcid it m hm, hcidm, hoc, Option.some.injEq] at hoc''
      exact hc (hoc'' ▸ hc'')
    exact ⟨hshows.known, hother ▸ hshows.fits, by rw [hunread, hother, hshows.pages]⟩

/-- A change after which every window is on the page it was on. -/
theorem Inv.change_items {s' : State} (h : s.Inv) (itemlist : List Object)
    (f : Entry → List Message)
    (hcontainer : s'.container = Function.update s.container c ((s.container c).withItems itemlist))
    (hopen : s'.openContainers = s.openContainers)
    (hpages : s'.pages =
      ((s.entriesOf c).flatMap f).foldl (receive Message.cid Message.apply) s.pages)
    (hcid : ∀ it, ∀ m ∈ f it, m.cid = it.1)
    (happly : ∀ it ∈ s.entriesOf c, (s.container c).Fits →
      Container.applyAll (f it) (some ((s.container c).pageAt it.2.index)) =
        some ((s.container c).pageAfter it.2.index itemlist)) : s'.Inv :=
  h.change itemlist f id hcontainer (fun cid => by simp [hopen]) hpages hcid happly

/-- A container that is not open changes as it likes. -/
theorem Inv.setItems {P : Prop} (h : s.Inv) (itemlist : List Object)
    (hP : ∀ it ∈ s.entriesOf c, P) (hn : ¬ P) : (s.setItems c itemlist).Inv := by
  have hnone : s.entriesOf c = [] :=
    List.eq_nil_iff_forall_not_mem.mpr fun it hit => hn (hP it hit)
  refine h.change_items itemlist (fun _ => []) rfl rfl ?_ (fun it m hm => by cases hm) ?_
  · rw [hnone]
    rfl
  · rw [hnone]
    intro it hit
    cases hit

/-! ## Adding an item -/

/-- The container's parent is one for which adding an item sends messages. -/
def Notified (s : State) (c : ContainerRef) : Prop :=
  (s.container c).parent ≠ .nullptr ∧ (s.container c).parent ≠ .virtualCylinder

instance (s : State) (c : ContainerRef) : Decidable (s.Notified c) :=
  inferInstanceAs (Decidable (_ ∧ _))

/-- What `addThing` and `addItemBack` end with. -/
theorem Inv.add (h : s.Inv) {itemlist : List Object} {item : Object}
    (turn : Entry → BitVec 16 × Object) (hnotified : ∀ it ∈ s.entriesOf c, s.Notified c)
    (hmessages : ((s.container c).withItems itemlist).sendAddContainerItem (s.entriesOf c)
      (some item) =
        some ((s.entriesOf c).map fun it => .addContainerItem it.1 (turn it).1 (turn it).2))
    (hpage : ∀ it ∈ s.entriesOf c, (s.container c).Fits →
      ((s.container c).pageAt it.2.index).addItem (turn it).1 (turn it).2 =
        (s.container c).pageAfter it.2.index itemlist) :
    ∃ s', (if s.Notified c then (s.setItems c itemlist).onAddContainerItem c item
      else some (s.setItems c itemlist)) = some s' ∧ s'.Inv := by
  by_cases hn : s.Notified c
  · rw [if_pos hn, onAddContainerItem, setItems_container, setItems_entriesOf, hmessages]
    refine ⟨_, rfl, h.change_items itemlist
      (fun it => [.addContainerItem it.1 (turn it).1 (turn it).2]) rfl rfl ?_ ?_ ?_⟩
    · rw [← List.map_eq_flatMap]
      rfl
    · intro it m hm
      rw [List.mem_singleton.mp hm]
      rfl
    · intro it hit hfits
      exact congrArg some (hpage it hit hfits)
  · rw [if_neg hn]
    exact ⟨_, rfl, h.setItems itemlist hnotified hn⟩

/-- When a front add is shown right: every window is on the first page of a container that
is no browse field. -/
def FrontKept (s : State) (c : ContainerRef) : Prop :=
  ∀ it ∈ s.entriesOf c, s.Notified c ∧ (s.container c).isBrowseField = false ∧ it.2.index = 0

instance (s : State) (c : ContainerRef) : Decidable (s.FrontKept c) :=
  inferInstanceAs (Decidable (∀ it ∈ _, _))

theorem Inv.addThing (h : s.Inv) (index : BitVec 32) (item : Object)
    (hkept : (s.container c).capacity.toInt ≤ index.toInt ∨ s.FrontKept c) :
    ∃ s', s.addThing c index item = some s' ∧ s'.Inv := by
  rw [State.addThing]
  by_cases hroom : (s.container c).capacity.toInt ≤ index.toInt
  · exact ⟨s, if_pos hroom, h⟩
  · have hkept := hkept.resolve_left hroom
    simp only [if_neg hroom]
    refine h.add (fun _ => (0, item)) (fun it hit => (hkept it hit).1) ?_ ?_
    · refine Container.sendAddContainerItem_eq _ _ (fun _ => False) (x := item)
        (fun _ _ hf => hf.elim) (fun it hit _ => ⟨rfl, fun item' => ?_⟩)
        (List.pairwise_of_forall fun _ _ hf => hf) (.inl rfl)
      obtain ⟨hoc, rfl⟩ := (s.mem_entriesOf c it).mp hit
      obtain ⟨_, hordinary, hindex⟩ := hkept it hit
      have hordinary : ((s.container it.2.container).withItems
          (item :: (s.container it.2.container).itemlist)).isBrowseField = false := hordinary
      rw [hindex]
      exact Container.addTurn_front hordinary (h _ _ hoc).fits.pos item'
    · intro it hit hfits
      show Page.addItem _ 0 item = _
      rw [(hkept it hit).2.2]
      exact (Container.addItem_front_iff 0 hfits item item).mpr rfl

/-- The window shows a page with no place left. -/
def Full (s : State) (it : Entry) : Prop :=
  it.2.index.toNat + (s.container it.2.container).capacity.toNat ≤
    (s.container it.2.container).size

instance (s : State) (it : Entry) : Decidable (s.Full it) := inferInstanceAs (Decidable (_ ≤ _))

/-- When an item at the back of a browse field is shown right: the places fit in 16 bits, and
the windows with a full page, which are sent another item, come last. -/
structure BackKept (s : State) (c : ContainerRef) : Prop where
  window : ∀ it ∈ s.entriesOf c, s.Notified c ∧ (s.container c).isBrowseField = true ∧
    (s.container c).size < 65536 ∧
    it.2.index.toNat + (s.container c).capacity.toNat ≤ 65536
  order : (s.entriesOf c).Pairwise fun it it' => s.Full it → s.Full it'

instance (s : State) (c : ContainerRef) : Decidable (s.BackKept c) :=
  decidable_of_iff
    ((∀ it ∈ s.entriesOf c, s.Notified c ∧ (s.container c).isBrowseField = true ∧
      (s.container c).size < 65536 ∧
      it.2.index.toNat + (s.container c).capacity.toNat ≤ 65536) ∧
        (s.entriesOf c).Pairwise fun it it' => s.Full it → s.Full it')
    ⟨fun h => ⟨h.1, h.2⟩, fun h => ⟨h.window, h.order⟩⟩

theorem Inv.addItemBack (h : s.Inv) (item : Object) (hkept : s.BackKept c) :
    ∃ s', s.addItemBack c item = some s' ∧ s'.Inv := by
  let after := (s.container c).withItems ((s.container c).itemlist ++ [item])
  let pageEnd (it : Entry) : BitVec 16 :=
    it.2.index + (s.container c).capacity.setWidth 16 - 1
  let turn (it : Entry) : BitVec 16 × Object :=
    if s.Full it then (pageEnd it, (after.getItemByIndex (pageEnd it).toNat).getD item)
    else (BitVec.ofNat 16 ((s.container c).size + 1) - 1, item)
  have hsize : after.size = (s.container c).size + 1 := List.length_append
  have hcontainer : ∀ it ∈ s.entriesOf c, (s.container c).Fits ∧
      (s.Full it ↔ it.2.index.toNat + (s.container c).capacity.toNat ≤ (s.container c).size) := by
    intro it hit
    obtain ⟨hoc, rfl⟩ := (s.mem_entriesOf c it).mp hit
    exact ⟨(h _ _ hoc).fits, Iff.rfl⟩
  -- the last item of a full page is there
  have hlast : ∀ it ∈ s.entriesOf c, s.Full it →
      (pageEnd it).toNat = it.2.index.toNat + (s.container c).capacity.toNat - 1 ∧
      turn it = (pageEnd it, (turn it).2) ∧
      after.getItemByIndex (pageEnd it).toNat = some (turn it).2 := by
    intro it hit hfull
    obtain ⟨_, _, _, hend⟩ := hkept.window it hit
    obtain ⟨hfits, hfullIff⟩ := hcontainer it hit
    have hendVal := Container.toNat_pageEnd (Nat.add_pos_right it.2.index.toNat hfits.pos) hend
    have hin : (pageEnd it).toNat < after.itemlist.length := by
      have hle := hfullIff.mp hfull
      show (pageEnd it).toNat < after.size
      rw [hsize, hendVal]
      omega
    refine ⟨hendVal, ?_, ?_⟩
    · simp only [turn, if_pos hfull]
    · show after.itemlist[(pageEnd it).toNat]? = some (turn it).2
      simp only [turn, if_pos hfull, Container.getItemByIndex, List.getElem?_eq_getElem hin,
        Option.getD_some]
  have hnew : ∀ it, ¬ s.Full it →
      turn it = (BitVec.ofNat 16 ((s.container c).size + 1) - 1, item) :=
    fun it hfull => if_neg hfull
  refine h.add turn (fun it hit => (hkept.window it hit).1) ?_ ?_
  · refine Container.sendAddContainerItem_eq after turn s.Full (fun it hit hfull item' => ?_)
      (fun it hit hfull => ⟨by rw [hnew it hfull], fun item' => ?_⟩) hkept.order (.inl rfl)
    all_goals
      obtain ⟨_, hbrowse, hbound, hend⟩ := hkept.window it hit
      obtain ⟨hfits, hfullIff⟩ := hcontainer it hit
      have hbrowse : after.isBrowseField = true := hbrowse
    · obtain ⟨_, hturn, hitem⟩ := hlast it hit hfull
      rw [Container.addTurn_full hbrowse hsize hbound hend hfits.pos (hfullIff.mp hfull), hturn]
      exact Prod.ext rfl hitem
    · rw [Container.addTurn_last hbrowse hsize hbound hend
        (not_le.mp fun hle => hfull (hfullIff.mpr hle)), hnew it hfull]
  · intro it hit hfits
    have hfullIff := (hcontainer it hit).2
    by_cases hfull : s.Full it
    · obtain ⟨hslot, hturn, hitem⟩ := hlast it hit hfull
      rw [hturn]
      exact Container.addItem_back_full hfits (hfullIff.mp hfull) hslot hitem
    · rw [hnew it hfull]
      exact Container.addItem_back_last hfits item
        (not_le.mp fun hle => hfull (hfullIff.mpr hle))
        (Container.toNat_lastIndex (hkept.window it hit).2.2.1)

/-! ## Updating and removing an item -/

/-- When an update is shown right: its place fits in 16 bits, and so does the end of every
page that it is not in front of. -/
def UpdateKept (s : State) (c : ContainerRef) (index : Nat) : Prop :=
  ∀ it ∈ s.entriesOf c, (s.container c).parent ≠ .nullptr ∧ index < 65536 ∧
    (index < it.2.index.toNat ∨ it.2.index.toNat + (s.container c).capacity.toNat < 65536)

instance (s : State) (c : ContainerRef) (index : Nat) : Decidable (s.UpdateKept c index) :=
  inferInstanceAs (Decidable (∀ it ∈ _, _))

theorem Inv.setItem (h : s.Inv) (index : Nat) (newItem : Object)
    (hkept : s.UpdateKept c index) : (s.setItem c index newItem).Inv := by
  rw [State.setItem]
  by_cases hparent : (s.container c).parent ≠ .nullptr
  · simp only [if_pos hparent]
    refine h.change_items ((s.container c).itemlist.set index newItem)
      ((s.container c).updateTurn (.ofNat 16 index) newItem) rfl rfl ?_ ?_ ?_
    · rw [onUpdateContainerItem, setItems_container, setItems_entriesOf]
      rfl
    · intro it m hm
      rw [Container.updateTurn] at hm
      split at hm
      · cases hm
      · simp only at hm
        split at hm
        · cases hm
        · rw [List.mem_singleton.mp hm]
          rfl
    · intro it hit _
      obtain ⟨_, hindex, hend⟩ := hkept it hit
      exact Container.updateTurn_apply hindex it hend newItem
  · simp only [if_neg hparent]
    exact h.setItems _ (fun it hit => (hkept it hit).1) hparent

/-- When a removal is shown right. -/
def RemoveKept (s : State) (c : ContainerRef) (index : Nat) : Prop :=
  ∀ it ∈ s.entriesOf c, (s.container c).parent ≠ .nullptr ∧ index < 65536

instance (s : State) (c : ContainerRef) (index : Nat) : Decidable (s.RemoveKept c index) :=
  inferInstanceAs (Decidable (∀ it ∈ _, _))

theorem Inv.removeItem (h : s.Inv) (index : Nat) (hkept : s.RemoveKept c index) :
    ((if (s.container c).parent ≠ .nullptr then s.onRemoveContainerItem c index else s).setItems c
      ((s.container c).itemlist.eraseIdx index)).Inv := by
  by_cases hparent : (s.container c).parent ≠ .nullptr
  · rw [if_pos hparent]
    refine h.change ((s.container c).itemlist.eraseIdx index)
      ((s.container c).removeTurn (.ofNat 16 index)) (s.container c).firstIndexAfter rfl
      (fun _ => rfl) rfl ?_ ?_
    · intro it m hm
      rw [Container.removeTurn, List.mem_append] at hm
      rcases hm with hm | hm
      · split at hm
        · rw [List.mem_singleton.mp hm]
          rfl
        · cases hm
      · rw [List.mem_singleton.mp hm]
        rfl
    · intro it hit hfits
      exact Container.removeTurn_apply hfits (hkept it hit).2 it
  · rw [if_neg hparent]
    exact h.setItems _ (fun it hit => (hkept it hit).1) hparent

/-! ## Turning pages -/

/-- A window that a whole page is sent to. -/
theorem Inv.show {s' : State} (h : s.Inv) {cid : BitVec 8} (oc : OpenContainer) (hasParent : Bool)
    (hknown : cid ≤ 0xF) (hfits : (s.container oc.container).Fits)
    (hsize : (s.container oc.container).size < 2 ^ 32) (hcontainer : s'.container = s.container)
    (hopen : s'.openContainers = Function.update s.openContainers cid (some oc))
    (hpages : s'.pages = receive Message.cid Message.apply s.pages
      ((s.container oc.container).sendContainer cid hasParent oc.index)) : s'.Inv := by
  intro cid' oc' hoc'
  rw [hopen] at hoc'
  by_cases hcid : cid' = cid
  · subst hcid
    rw [Function.update_self, Option.some.injEq] at hoc'
    subst hoc'
    refine ⟨hknown, hcontainer ▸ hfits, ?_⟩
    rw [hpages, hcontainer]
    show Function.update s.pages cid' _ cid' = _
    rw [Function.update_self, Container.sendContainer_apply oc.index hfits hsize]
  · rw [Function.update_of_ne hcid] at hoc'
    obtain ⟨hle, hfits', hshown⟩ := h cid' oc' hoc'
    refine ⟨hle, hcontainer ▸ hfits', ?_⟩
    rw [hpages, hcontainer]
    show Function.update s.pages cid _ cid' = _
    rw [Function.update_of_ne hcid, hshown]

/-- A message about an id under which nothing is open any more. -/
theorem Inv.forget {s' : State} (h : s.Inv) (cid : BitVec 8) (hcontainer : s'.container = s.container)
    (hopen : ∀ cid' oc, s'.openContainers cid' = some oc →
      cid' ≠ cid ∧ s.openContainers cid' = some oc)
    (hpages : ∀ cid', cid' ≠ cid → s'.pages cid' = s.pages cid') : s'.Inv := by
  intro cid' oc hoc
  obtain ⟨hne, hoc⟩ := hopen cid' oc hoc
  obtain ⟨hle, hfits, hshown⟩ := h cid' oc hoc
  exact ⟨hle, hcontainer ▸ hfits, by rw [hpages cid' hne, hcontainer, hshown]⟩

theorem Inv.showContainer (h : s.Inv) (cid : BitVec 8)
    (hkept : cid ≤ 0xF → (s.container c).Fits ∧ (s.container c).size < 2 ^ 32) :
    (s.showContainer c cid).Inv := by
  by_cases hknown : cid ≤ 0xF
  · obtain ⟨hfits, hsize⟩ := hkept hknown
    have hadd : s.addContainer c cid =
        { s with openContainers := Function.update s.openContainers cid (some ⟨c, 0⟩) } :=
      if_neg (BitVec.not_lt.mpr hknown)
    rw [State.showContainer, hadd]
    refine h.show ⟨c, 0⟩ (s.container c).hasParent hknown hfits hsize rfl rfl ?_
    have hindex : State.getContainerIndex
        { s with openContainers := Function.update s.openContainers cid (some ⟨c, 0⟩) } cid = 0 := by
      simp [getContainerIndex]
    simp only [hindex]
    rfl
  · have hadd : s.addContainer c cid = s := if_pos (BitVec.not_le.mp hknown)
    rw [State.showContainer, hadd]
    refine h.forget cid rfl (fun cid' oc hoc => ⟨?_, hoc⟩) fun cid' hne => ?_
    · rintro rfl
      exact hknown (h _ _ hoc).known
    · exact Function.update_of_ne hne _ _

/-- Fewer items than `containerSize` counts. -/
def SizeKept (s : State) (cid : BitVec 8) : Prop :=
  ∀ oc ∈ s.openContainers cid, (s.container oc.container).size < 2 ^ 32

instance (s : State) (cid : BitVec 8) : Decidable (s.SizeKept cid) :=
  inferInstanceAs (Decidable (∀ oc ∈ _, _))

theorem Inv.playerSeekInContainer (h : s.Inv) (cid : BitVec 8) (index : BitVec 16)
    (hkept : s.SizeKept cid) : ∃ s', s.playerSeekInContainer cid index = some s' ∧ s'.Inv := by
  rw [State.playerSeekInContainer]
  cases hoc : s.openContainers cid with
  | none => exact ⟨s, rfl, h⟩
  | some oc =>
      obtain ⟨hknown, hfits, _⟩ := h cid oc hoc
      by_cases hpages : (s.container oc.container).pagination = false
      · exact ⟨s, if_pos hpages, h⟩
      have hroom : (s.container oc.container).capacity ≠ 0 := by
        intro hzero
        exact hfits.pos.ne' (congrArg BitVec.toNat hzero)
      simp only [if_neg hpages, if_neg hroom]
      split
      · exact ⟨s, rfl, h⟩
      · have hset : s.setContainerIndex cid index =
            { s with
              openContainers :=
                Function.update s.openContainers cid (some { oc with index := index }) } := by
          rw [setContainerIndex, hoc]
        refine ⟨_, rfl, h.show { oc with index := index } (s.container oc.container).hasParent
          hknown hfits (hkept oc hoc) ?_ ?_ ?_⟩
        all_goals
          rw [hset]
          rfl

theorem Inv.playerUpdateContainer (h : s.Inv) (cid : BitVec 8) (hkept : s.SizeKept cid) :
    (s.playerUpdateContainer cid).Inv := by
  rw [State.playerUpdateContainer]
  cases hoc : s.openContainers cid with
  | none => exact h
  | some oc =>
      obtain ⟨hknown, hfits, _⟩ := h cid oc hoc
      have hindex : s.getContainerIndex cid = oc.index := by
        rw [getContainerIndex, hoc]
      refine h.show oc (s.container oc.container).hasParent hknown hfits (hkept oc hoc) rfl ?_ ?_
      · exact (Function.update_eq_self_iff.mpr hoc.symm).symm
      · simp only [hindex]
        rfl

theorem Inv.playerCloseContainer (h : s.Inv) (cid : BitVec 8) :
    (s.playerCloseContainer cid).Inv := by
  refine h.forget cid rfl (fun cid' oc hoc => ?_) fun cid' hne => Function.update_of_ne hne _ _
  have hoc : Function.update s.openContainers cid none cid' = some oc := hoc
  by_cases hcid : cid' = cid
  · rw [hcid, Function.update_self] at hoc
    cases hoc
  · rw [Function.update_of_ne hcid] at hoc
    exact ⟨hcid, hoc⟩

/-! ## Runs -/

/-- The condition on a step. -/
def Kept (w : TileWorld) (s : State) : Event → Prop
  | .addThing c index _ => (s.container c).capacity.toInt ≤ index.toInt ∨ s.FrontKept c
  | .addItemBack c _ => s.BackKept c
  | .updateThing c index _ _ | .replaceThing c index _ =>
      index < (s.container c).size → s.UpdateKept c index
  | .removeThing c index count =>
      ∀ item ∈ (s.container c).getItemByIndex index,
        if splits w item count then s.UpdateKept c index else s.RemoveKept c index
  | .showContainer c cid => cid ≤ 0xF → (s.container c).Fits ∧ (s.container c).size < 2 ^ 32
  | .playerSeekInContainer cid _ | .playerUpdateContainer cid => s.SizeKept cid
  | .playerCloseContainer _ => True

instance (w : TileWorld) (s : State) : DecidablePred (s.Kept w)
  | .addThing _ _ _ => inferInstanceAs (Decidable (_ ∨ _))
  | .addItemBack _ _ => inferInstanceAs (Decidable (BackKept _ _))
  | .updateThing _ _ _ _ | .replaceThing _ _ _ => inferInstanceAs (Decidable (_ → UpdateKept _ _ _))
  | .removeThing c index count =>
      inferInstanceAs (Decidable (∀ item ∈ (s.container c).getItemByIndex index,
        if splits w item count then s.UpdateKept c index else s.RemoveKept c index))
  | .showContainer _ _ => inferInstanceAs (Decidable (_ → Container.Fits _ ∧ _))
  | .playerSeekInContainer _ _ | .playerUpdateContainer _ =>
      inferInstanceAs (Decidable (SizeKept _ _))
  | .playerCloseContainer _ => .isTrue trivial

/-- One step: nothing undefined happens, and the pages stay as they should be. -/
theorem Inv.step {w : TileWorld} (h : s.Inv) {a : Event} (hkept : s.Kept w a) :
    ∃ s', step w s a = some s' ∧ s'.Inv := by
  cases a with
  | addThing c index item => exact h.addThing index item hkept
  | addItemBack c item => exact h.addItemBack item hkept
  | updateThing c index itemId count =>
      refine ⟨_, rfl, ?_⟩
      rw [State.updateThing]
      cases hitem : (s.container c).getItemByIndex index with
      | none => exact h
      | some item =>
          have hin : index < (s.container c).size := (List.getElem?_eq_some_iff.mp hitem).1
          exact h.setItem index _ (hkept hin)
  | replaceThing c index item =>
      refine ⟨_, rfl, ?_⟩
      rw [State.replaceThing]
      cases hitem : (s.container c).getItemByIndex index with
      | none => exact h
      | some replacedItem =>
          have hin : index < (s.container c).size := (List.getElem?_eq_some_iff.mp hitem).1
          exact h.setItem index item (hkept hin)
  | removeThing c index count =>
      refine ⟨_, rfl, ?_⟩
      rw [State.removeThing]
      cases hitem : (s.container c).getItemByIndex index with
      | none =>
          exact h
      | some item =>
          have hkept := hkept item hitem
          simp only
          split
          · rename_i hsplits
            rw [if_pos hsplits] at hkept
            exact h.setItem index _ hkept
          · rename_i hwhole
            rw [if_neg hwhole] at hkept
            exact h.removeItem index hkept
  | showContainer c cid => exact ⟨_, rfl, h.showContainer cid hkept⟩
  | playerSeekInContainer cid index => exact h.playerSeekInContainer cid index hkept
  | playerUpdateContainer cid => exact ⟨_, rfl, h.playerUpdateContainer cid hkept⟩
  | playerCloseContainer cid => exact ⟨_, rfl, h.playerCloseContainer cid⟩

/-- Any windows, at any page index, each as `sendContainer` has sent it. -/
def Opened (s : State) : Prop :=
  ∀ cid oc, s.openContainers cid = some oc → cid ≤ 0xF ∧ (s.container oc.container).Fits ∧
    (s.container oc.container).size < 2 ^ 32 ∧ ∃ hasParent p,
      s.pages cid = ((s.container oc.container).sendContainer cid hasParent oc.index).apply p

theorem Opened.inv (h : s.Opened) : s.Inv := by
  intro cid oc hoc
  obtain ⟨hknown, hfits, hsize, hasParent, p, hsent⟩ := h cid oc hoc
  exact ⟨hknown, hfits, hsent.trans (Container.sendContainer_apply _ hfits hsize cid hasParent p)⟩

end State

open State

/-- The runs of the server, with its client: nothing is left after an undefined step. -/
def system (w : TileWorld) : TSys (Option State) Event where
  init s := ∃ s₀, s = some s₀ ∧ s₀.Opened
  step s a t := (s.bind fun s => step w s a) = t

def Meets (w : TileWorld) (s : Option State) (a : Event) : Prop := ∀ s₀ ∈ s, s₀.Kept w a

instance (w : TileWorld) (s : Option State) (a : Event) : Decidable (Meets w s a) :=
  inferInstanceAs (Decidable (∀ s₀ ∈ s, s₀.Kept w a))

theorem inductive_inv (w : TileWorld) :
    (system w).Inductive (Meets w) fun s => ∃ s₀, s = some s₀ ∧ s₀.Inv where
  init := by
    rintro s ⟨s₀, rfl, hopened⟩
    exact ⟨s₀, rfl, hopened.inv⟩
  step := by
    rintro s a t ⟨s₀, rfl, hinv⟩ hmeets rfl
    exact hinv.step (hmeets s₀ rfl)

/-- **In a run whose steps meet the condition nothing is undefined and every open page shows
the items of its container.** -/
theorem openPages_inStep (w : TileWorld) {s : Option State} (h : (system w).Reach (Meets w) s) :
    ∃ s₀, s = some s₀ ∧ s₀.InStep := by
  obtain ⟨s₀, hs, hinv⟩ := (inductive_inv w).invariant h
  exact ⟨s₀, hs, hinv.inStep⟩

/-! ## An inbox -/

/-- Types without properties. -/
def plainTypes : TileWorld where
  itemType _ := {}
  addUniqueItem _ := true
  getNameByGuid _ := []
  tileItemType _ := {}

def letter (n : Nat) : Object := { id := .ofNat 16 n, cls := .item }

/-- An inbox with letters 1, 2 and so on. Nothing is open. -/
def inboxOf (letters : Nat) : State where
  container _ :=
    { id := 14404
      maxSize := 30
      unlocked := false
      pagination := true
      parent := .other
      itemlist := (List.range letters).map fun n => letter (n + 1) }
  openContainers _ := none
  pages _ := none

theorem opened_inboxOf (letters : Nat) : (inboxOf letters).Opened := by
  intro cid oc hoc
  cases hoc

/-- A letter comes while the first page is open; the second page is opened and its letters
are taken. -/
def reading : List Event :=
  [.showContainer 0 1, .addThing 0 0 (letter 99), .playerSeekInContainer 1 30,
    .replaceThing 0 30 (letter 98), .removeThing 0 4 1, .removeThing 0 30 1]

theorem openPages_inStep_reading :
    ∃ s, TSys.runGuarded (fun s a => some (s.bind fun s => step plainTypes s a))
        (Meets plainTypes) (some (inboxOf 31)) reading = some s ∧
      ∃ s₀, s = some s₀ ∧ s₀.InStep := by
  have hrun : (TSys.runGuarded (fun s a => some (s.bind fun s => step plainTypes s a))
      (Meets plainTypes) (some (inboxOf 31)) reading).isSome = true := by decide +kernel
  obtain ⟨s, hs⟩ := Option.isSome_iff_exists.mp hrun
  have hstart : (system plainTypes).Reach (Meets plainTypes) (some (inboxOf 31)) :=
    .start ⟨_, rfl, opened_inboxOf 31⟩
  exact ⟨s, hs, openPages_inStep plainTypes
    (hstart.runGuarded (fun _ _ _ h => Option.some.inj h) hs)⟩

/-- A letter comes while the second page is open. -/
def lateLetter : List Event :=
  [.showContainer 0 1, .playerSeekInContainer 1 30, .addThing 0 0 (letter 99)]

/-- What is shown under id 1, and what is there. -/
def seen (s : State) : Option (OpenContainer × List (BitVec 16) × List (BitVec 16)) := do
  let oc ← s.openContainers 1
  let p ← s.pages 1
  return (oc, p.items.map (·.id),
    (page (s.container oc.container).itemlist p.firstIndex.toNat p.capacity.toNat).map (·.id))

/-- The client is sent letter 29, and letter 30 has come to the page. -/
theorem late_letter_out_of_step :
    ¬ ∀ s, (system plainTypes).Reachable s → ∃ s₀, s = some s₀ ∧ s₀.InStep := by
  intro h
  have hrun : (TSys.runGuarded (fun s a => some (s.bind fun s => step plainTypes s a))
      (fun _ _ => True) (some (inboxOf 31)) lateLetter).map (fun s => s.bind seen) =
        some (some (⟨0, 30⟩, [29, 31], [30, 31])) := by decide +kernel
  obtain ⟨s, hs, hseen⟩ := Option.map_eq_some_iff.mp hrun
  have hstart : (system plainTypes).Reachable (some (inboxOf 31)) :=
    .start ⟨_, rfl, opened_inboxOf 31⟩
  obtain ⟨s₀, rfl, hstep⟩ := h s (hstart.runGuarded (fun _ _ _ h => Option.some.inj h) hs)
  obtain ⟨oc, hoc, hseen⟩ := Option.bind_eq_some_iff.mp (show seen s₀ = _ from hseen)
  obtain ⟨p, hp, hseen⟩ := Option.bind_eq_some_iff.mp hseen
  simp only [Option.pure_def, Option.some.injEq, Prod.mk.injEq] at hseen
  obtain ⟨_, hshown, hthere⟩ := hseen
  obtain ⟨p', hp', _, _, hitems⟩ := hstep 1 oc hoc
  obtain rfl : p = p' := Option.some.inj (hp.symm.trans hp')
  rw [hitems, hthere] at hshown
  exact absurd hshown (by decide)

end Infernum.OpenPages
