import Infernum.Login.PlayerItems
import Infernum.Item.Reload

/-!
# Saving and loading the items of a player

The rows of a table put every tree of the list they were made of back in its
place, each item as `stored` says. What an item keeps is said by
`stored_same_iff`.
-/

namespace Infernum.IOLoginData

open Infernum.Lib Infernum.Lib.BreadthFirst Infernum.Item

variable (w : World)

/-- What an item is loaded as. -/
def stored (i : Item) : Item :=
  (reload w i (newItem w i.id (i.getSubType w))).setAbilities i.abilities

/-! ## Rows -/

theorem stored_id (i : Item) : (stored w i).id = i.id :=
  (reload_rest w i _).1.trans (newItem_rest w i.id _).1

theorem loadItem_saveRow (e : Entry Item) (h : Storable w e.tree) :
    loadItem w (saveRow w e) = some (stored w e.tree.label) := by
  obtain ⟨parent, id, t⟩ := e
  cases h with
  | node i ts hknown _ _ hcustom _ =>
      have hnew := newItem_rest w i.id (i.getSubType w)
      have hread := unserializeAttr_serializeAttr w i (newItem w i.id (i.getSubType w)) [] hnew.1
        hcustom
      rw [List.append_nil, unserializeAttr_nil] at hread
      have habil := (reload_rest w i (newItem w i.id (i.getSubType w))).2.trans hnew.2
      rw [loadItem, saveRow]
      dsimp only [Rose.label_node]
      rw [createItem_known hknown, Option.map_some, hread,
        unserializeAbility_serializeAbility i _ habil]
      rfl

/-! ## The map of items -/

/-- An item with a lower `sid` than all others comes last. -/
theorem ItemMap.set_last (itemMap : ItemMap) (sid : Nat) (pair : Item × Nat)
    (h : ∀ e ∈ itemMap, sid < e.1) : itemMap.set sid pair = itemMap ++ [(sid, pair)] := by
  induction itemMap with
  | nil => rfl
  | cons e itemMap ih =>
      have hlt := h e List.mem_cons_self
      rw [ItemMap.set, if_neg (by omega), if_neg (by omega),
        ih fun f hf => h f (List.mem_cons_of_mem e hf), List.cons_append]

/-- The entry of the map for an entry of the table. -/
def mapEntry (e : Entry Item) : Nat × Item × Nat := (e.id, stored w e.tree.label, e.parent)

theorem loadItems_reverse (es : List (Entry Item)) (hes : ∀ e ∈ es, Storable w e.tree)
    (hids : (es.map Entry.id).Pairwise (· < ·)) :
    loadItems w (es.reverse.map (saveRow w)) = es.reverse.map (mapEntry w) := by
  induction es with
  | nil => rfl
  | cons e es ih =>
      rw [List.map_cons, List.pairwise_cons] at hids
      have hrest := ih (fun f hf => hes f (List.mem_cons_of_mem e hf)) hids.2
      rw [loadItems] at hrest
      rw [loadItems, List.reverse_cons, List.map_append, List.foldl_append, hrest, List.map_append,
        List.map_singleton, List.foldl_cons, List.foldl_nil,
        loadItem_saveRow w e (hes e List.mem_cons_self)]
      refine ItemMap.set_last _ _ _ fun f hf => ?_
      obtain ⟨g, hg, rfl⟩ := List.mem_map.mp hf
      exact hids.1 g.id (List.mem_map_of_mem (List.mem_reverse.mp hg))

/-- The rows come back with the highest `sid` first. -/
theorem orderBySidDesc_saveRows (es : List (Entry Item))
    (hids : (es.map Entry.id).Pairwise (· < ·)) :
    orderBySidDesc (es.map (saveRow w)) = es.reverse.map (saveRow w) := by
  have hasc : (es.map (saveRow w)).Pairwise fun a b => a.sid < b.sid := by
    rw [List.pairwise_map] at hids ⊢
    exact hids
  have hdesc : (es.reverse.map (saveRow w)).Pairwise fun a b => b.sid < a.sid := by
    rw [List.map_reverse, List.pairwise_reverse]
    exact hasc
  have hperm : (orderBySidDesc (es.map (saveRow w))).Perm (es.reverse.map (saveRow w)) := by
    refine (List.mergeSort_perm _ _).trans ?_
    rw [List.map_reverse]
    exact (List.reverse_perm _).symm
  -- two rows of the table with the same number are one row
  have hanti : ∀ a b, a ∈ orderBySidDesc (es.map (saveRow w)) → b ∈ es.reverse.map (saveRow w) →
      b.sid ≤ a.sid → a.sid ≤ b.sid → a = b := by
    intro a b ha hb hba hab
    have hnodup : ((es.reverse.map (saveRow w)).map Row.sid).Nodup := by
      rw [List.Nodup, List.pairwise_map]
      exact hdesc.imp fun h => by omega
    exact List.inj_on_of_nodup_map hnodup (hperm.mem_iff.mp ha) hb (by omega)
  have hsorted : (orderBySidDesc (es.map (saveRow w))).Pairwise fun a b => b.sid ≤ a.sid := by
    have h := List.pairwise_mergeSort
      (fun (a b c : Row) (hab : decide (b.sid ≤ a.sid)) hbc => by
        simp only [decide_eq_true_eq] at hab hbc ⊢
        omega)
      (fun a b => by
        simp only [Bool.or_eq_true, decide_eq_true_eq]
        omega) (es.map (saveRow w))
    exact h.imp fun h => by simpa using h
  exact List.Perm.eq_of_pairwise hanti hsorted (hdesc.imp fun h => by omega) hperm

/-! ## Places -/

/-- The map that is loaded from the rows of a table. -/
def tableMap (es : List (Entry Item)) : ItemMap := es.reverse.map (mapEntry w)

theorem tableMap_find (es : List (Entry Item)) (hids : (es.map Entry.id).Pairwise (· < ·))
    (e : Entry Item) (he : e ∈ es) :
    (tableMap w es).find e.id = some (stored w e.tree.label) := by
  have hmem : mapEntry w e ∈ tableMap w es :=
    List.mem_map_of_mem (List.mem_reverse.mpr he)
  have hsome : ((tableMap w es).find? fun f => f.1 == e.id).isSome := by
    rw [List.find?_isSome]
    exact ⟨mapEntry w e, hmem, by simp [mapEntry]⟩
  obtain ⟨f, hf⟩ := Option.isSome_iff_exists.mp hsome
  have hid := List.find?_some hf
  obtain ⟨g, hg, hgf⟩ := List.mem_map.mp (List.mem_of_find?_eq_some hf)
  rw [beq_iff_eq, ← hgf] at hid
  have hnodup : (es.map Entry.id).Nodup := hids.imp fun h => by omega
  have heq : g = e := List.inj_on_of_nodup_map hnodup (List.mem_reverse.mp hg) he hid
  rw [ItemMap.find, hf, ← hgf, heq]
  rfl

/-- A `pid` above 100 is the `sid` of a container, and one that is not is a
place that the loop of the table knows. -/
structure Fits (add : AddDirect) (es : List (Entry Item)) : Prop where
  container : ∀ e ∈ es, 100 < e.parent → ∃ f ∈ es, f.id = e.parent ∧ isContainer w f.tree.label
  inContainer : ∀ p sid direct, 100 < p → add p sid direct = none
  direct : ∀ fs e gs, es = fs ++ e :: gs → e.parent ≤ 100 → ∀ d : Nat → List Nat,
    d e.parent = (childrenOf gs e.parent).map Entry.id →
    add e.parent e.id d = some (Function.update d e.parent (e.id :: d e.parent))

/-- What is placed after the entries from one on: the children of every
container, and what lies directly in every place, in the order of the table. -/
theorem placeItems_suffix (add : AddDirect) (es : List (Entry Item))
    (hids : (es.map Entry.id).Pairwise (· < ·)) (hfits : Fits w add es)
    (fs gs : List (Entry Item)) (hes : es = fs ++ gs) :
    let p := (gs.reverse.map (mapEntry w)).foldl (placeItem w add (tableMap w es)) {}
    (∀ c, 100 < c → p.contents c = (childrenOf gs c).map Entry.id) ∧
      ∀ c ≤ 100, p.direct c = (childrenOf gs c).map Entry.id := by
  induction gs generalizing fs with
  | nil => exact ⟨fun _ _ => rfl, fun _ _ => rfl⟩
  | cons e gs ih =>
      obtain ⟨hcontents, hdirect⟩ := ih (fs ++ [e]) (by rw [hes, List.append_assoc]; rfl)
      have hmem : e ∈ es := by
        rw [hes]
        simp
      have hcons : ∀ c, (childrenOf (e :: gs) c).map Entry.id =
          if e.parent = c then e.id :: (childrenOf gs c).map Entry.id
          else (childrenOf gs c).map Entry.id := by
        intro c
        rw [childrenOf, List.filter_cons]
        by_cases h : e.parent = c
        · rw [if_pos h, if_pos (by simpa using h), List.map_cons]
          rfl
        · rw [if_neg h, if_neg (by simpa using h)]
          rfl
      rw [List.reverse_cons, List.map_append, List.foldl_append, List.map_singleton,
        List.foldl_cons, List.foldl_nil]
      generalize (gs.reverse.map (mapEntry w)).foldl (placeItem w add (tableMap w es)) {} = p at *
      rw [placeItem]
      dsimp only [mapEntry]
      by_cases hparent : 100 < e.parent
      · -- the parent is a container of the table
        obtain ⟨f, hf, hid, hcontainer⟩ := hfits.container e hmem hparent
        have hfind := tableMap_find w es hids f hf
        have hclass : isContainer w (stored w f.tree.label) = true :=
          (isContainer_congr w (stored_id w f.tree.label)).trans hcontainer
        rw [hid] at hfind
        simp only [hfits.inContainer _ _ _ hparent, hfind, hclass, if_true]
        constructor
        · intro c hc
          rw [hcons, Function.update_apply]
          by_cases h : e.parent = c
          · rw [if_pos h.symm, if_pos h, ← h, hcontents _ hparent]
          · rw [if_neg (Ne.symm h), if_neg h, hcontents c hc]
        · intro c hc
          rw [hcons, if_neg (by omega), hdirect c hc]
      · have hle : e.parent ≤ 100 := by omega
        rw [hfits.direct fs e gs hes hle p.direct (hdirect _ hle)]
        constructor
        · intro c hc
          rw [hcons, if_neg (by omega), hcontents c hc]
        · intro c hc
          rw [hcons]
          dsimp only
          rw [Function.update_apply]
          by_cases h : e.parent = c
          · rw [if_pos h.symm, if_pos h, ← h, hdirect _ hle]
          · rw [if_neg (Ne.symm h), if_neg h, hdirect c hc]

/-- The first `sid` of the map is the highest. -/
theorem le_head_tableMap (es : List (Entry Item)) (hids : (es.map Entry.id).Pairwise (· < ·)) :
    ∀ e ∈ es, e.id ≤ ((tableMap w es).head?.map Prod.fst).getD 0 := by
  intro e he
  rcases List.eq_nil_or_concat es with rfl | ⟨fs, l, rfl⟩
  · exact absurd he List.not_mem_nil
  rw [List.concat_eq_append] at hids he ⊢
  have hhead : ((tableMap w (fs ++ [l])).head?.map Prod.fst).getD 0 = l.id := by
    simp [tableMap, mapEntry]
  rw [hhead]
  rcases List.mem_append.mp he with hmem | hmem
  · rw [List.map_append, List.pairwise_append] at hids
    exact le_of_lt (hids.2.2 e.id (List.mem_map_of_mem hmem) l.id (by simp))
  · rw [List.mem_singleton.mp hmem]

/-! ## Tables -/

/-- The rows of a list put every tree of it back in its place. -/
theorem loadTable_saveItems (add : AddDirect) (itemList : ItemBlockList)
    (hstorable : ∀ t ∈ itemList, Storable w t.2) (hpid : ∀ t ∈ itemList, t.1 ≤ 100)
    (hcontainer : ∀ p sid direct, 100 < p → add p sid direct = none)
    (hdirect : ∀ fs e gs, number (isContainer w) itemList 100 = fs ++ e :: gs → e.parent ≤ 100 →
      ∀ d : Nat → List Nat, d e.parent = (childrenOf gs e.parent).map Entry.id →
      add e.parent e.id d = some (Function.update d e.parent (e.id :: d e.parent)))
    (place : Nat) (hplace : place ≤ 100) :
    loadTable w add (saveItems w itemList) place =
      ((itemList.filter fun t => t.1 == place).map Prod.snd).map (Rose.map (stored w)) := by
  have hall : ∀ e ∈ number (isContainer w) itemList 100, Storable w e.tree := by
    refine forall_mem_number (isContainer w) (Storable w) (fun t ht u hu => ?_) itemList 100
      hstorable
    cases ht with
    | node _ _ _ _ _ _ hchildren => exact hchildren u hu
  have hrange := number_ids (isContainer w) itemList 100
  have hids : ((number (isContainer w) itemList 100).map Entry.id).Pairwise (· < ·) := by
    rw [hrange]
    exact List.pairwise_lt_range'
  have hfits : Fits w add (number (isContainer w) itemList 100) := by
    refine ⟨fun e he hlt => ?_, hcontainer, hdirect⟩
    rcases mem_number_cases (isContainer w) e he with ⟨t, ht, hroot⟩ | h
    · have := hpid t ht
      omega
    · exact h
  have hkids := childrenOf_entry (isContainer w) itemList 100 hpid
  have hroots := childrenOf_root (isContainer w) itemList 100 place hplace
  have hparent := parent_lt (isContainer w) hpid
  unfold loadTable saveItems
  dsimp only
  generalize number (isContainer w) itemList 100 = es at *
  rw [orderBySidDesc_saveRows w es hids, loadItems_reverse w es hall hids]
  obtain ⟨hcontents, hplaces⟩ := placeItems_suffix w add es hids hfits [] es rfl
  have hlow : ∀ e ∈ es, 100 < e.id := by
    intro e he
    have hmem : e.id ∈ es.map Entry.id := List.mem_map_of_mem he
    rw [hrange, List.mem_range'_1] at hmem
    omega
  have htrees : ∀ e ∈ es, (childrenOf es e.id).map Entry.tree = e.tree.children := by
    intro e he
    have hstored := hall e he
    rw [hkids e he]
    split
    · rfl
    · rename_i hno
      cases htree : e.tree with
      | node i ts =>
          rw [htree] at hstored hno
          cases hstored with
          | node _ _ _ hcontents _ _ _ => exact (hcontents (by simpa using hno)).symm
  have hrebuild : ∀ e ∈ es, treeAt (tableMap w es) (placeItems w add (tableMap w es)) e.id =
      e.tree.map (stored w) := by
    intro e he
    refine rebuild_eq es (stored w) _ _ _ (le_head_tableMap w es hids) hparent (fun f hf => ?_)
      (fun f hf => hcontents f.id (hlow f hf)) htrees _ e he (Nat.le_add_right _ _)
    rw [tableMap_find w es hids f hf]
    rfl
  change ((placeItems w add (tableMap w es)).direct place).map
    (treeAt (tableMap w es) (placeItems w add (tableMap w es))) = _
  rw [show (placeItems w add (tableMap w es)).direct place = (childrenOf es place).map Entry.id from
    hplaces place hplace, ← hroots, List.map_map, List.map_map]
  refine List.map_congr_left fun e he => ?_
  exact hrebuild e (List.mem_filter.mp he).1

/-- An entry with a `pid` of at most 100 is an item of the list itself. -/
theorem root_of_parent_le {itemList : ItemBlockList} {e : Entry Item}
    (he : e ∈ number (isContainer w) itemList 100) (hle : e.parent ≤ 100) :
    ∃ t ∈ itemList, t.1 = e.parent := by
  rcases mem_number_cases (isContainer w) e he with h | ⟨f, hf, hid, _⟩
  · exact h
  · have hmem : f.id ∈ (number (isContainer w) itemList 100).map Entry.id :=
      List.mem_map_of_mem hf
    rw [number_ids, List.mem_range'_1] at hmem
    omega

/-! ## One item -/

/-- What is compared of a loaded item besides its id and its abilities: the
attributes that its class writes. The decay state is read as one that is still
to be started. -/
def SameStored (r i : Item) : Prop :=
  match (i.type w).itemClass with
  | .door => r.getSubType w = i.getSubType w
  | .bed => r.getSubType w = i.getSubType w ∧ r.sleeperGUID = i.sleeperGUID ∧
      r.sleepStart = i.sleepStart
  | .teleport => SameWritten w r i ∧ r.attributes.int .decayState = i.savedDecayState ∧
      r.destPos = i.destPos
  | _ => SameWritten w r i ∧ r.attributes.int .decayState = i.savedDecayState

/-- The values that fit what is stored: a door or a bed has the sub-type of a
new one, a sleeper has a name, and the start of the sleep has 32 bits. -/
def KeptStored (i : Item) : Prop :=
  match (i.type w).itemClass with
  | .door => (newItem w i.id (i.getSubType w)).getSubType w = i.getSubType w
  | .bed => (newItem w i.id (i.getSubType w)).getSubType w = i.getSubType w ∧
      (i.sleeperGUID ≠ 0 → w.getNameByGuid i.sleeperGUID ≠ []) ∧ i.sleepStart.toNat < 2 ^ 32
  | _ => KeptWritten w i

theorem restored_decayState (i : Item) (c : BitVec 16) :
    (restored w i (construct w i.id c)).attributes.int .decayState = i.savedDecayState := by
  rw [restored_construct_int w i c (by decide) (by decide)]
  simp [restoredInt]

theorem setStrAttr_sleeper (m : Item) (k : StrAttr) (v : List UInt8) :
    (m.setStrAttr k v).sleeperGUID = m.sleeperGUID ∧
    (m.setStrAttr k v).sleepStart = m.sleepStart := by
  unfold setStrAttr
  split
  · exact ⟨rfl, rfl⟩
  · exact ⟨rfl, rfl⟩

/-- A bed gets its sleeper back. -/
theorem restoreSleeper_iff (i m : Item) (hguid : m.sleeperGUID = 0) (hstart : m.sleepStart = 0) :
    (restoreSleeper w i m).sleeperGUID = i.sleeperGUID ∧
        (restoreSleeper w i m).sleepStart = i.sleepStart ↔
      (i.sleeperGUID ≠ 0 → w.getNameByGuid i.sleeperGUID ≠ []) ∧ i.sleepStart.toNat < 2 ^ 32 := by
  have hset : (m.setSleeper w i.sleeperGUID).sleepStart = 0 ∧
      ((m.setSleeper w i.sleeperGUID).sleeperGUID = i.sleeperGUID ↔
        (i.sleeperGUID ≠ 0 → w.getNameByGuid i.sleeperGUID ≠ [])) := by
    unfold setSleeper
    split
    · rename_i h
      exact ⟨(setStrAttr_sleeper _ _ _).2.trans hstart, iff_of_true rfl fun _ => h.2⟩
    · rename_i h
      refine ⟨hstart, ?_⟩
      rw [hguid]
      constructor
      · intro h0 hne
        exact absurd h0.symm hne
      · intro hname
        by_contra hne
        exact h ⟨Ne.symm hne, hname (Ne.symm hne)⟩
  have hguid' : (restoreSleeper w i m).sleeperGUID = i.sleeperGUID ↔
      (i.sleeperGUID ≠ 0 → w.getNameByGuid i.sleeperGUID ≠ []) := by
    have hkeep : (restoreSleeper w i m).sleeperGUID =
        (if i.sleeperGUID ≠ 0 then m.setSleeper w i.sleeperGUID else m).sleeperGUID := by
      unfold restoreSleeper
      dsimp only
      split
      · rfl
      · rfl
    rw [hkeep]
    split
    · exact hset.2
    · rename_i h0
      rw [not_not] at h0
      rw [hguid, h0]
      simp
  have hstart' : (restoreSleeper w i m).sleepStart = i.sleepStart ↔
      i.sleepStart.toNat < 2 ^ 32 := by
    have hkeep : (restoreSleeper w i m).sleepStart =
        if i.sleepStart ≠ 0 then (i.sleepStart.setWidth 32).setWidth 64 else 0 := by
      unfold restoreSleeper
      dsimp only
      split
      · rfl
      · split
        · exact hset.1
        · exact hstart
    rw [hkeep]
    split
    · rw [← BitVec.toNat_inj, BitVec.toNat_setWidth, BitVec.toNat_setWidth]
      have := i.sleepStart.isLt
      omega
    · rename_i h0
      rw [not_not] at h0
      rw [h0]
      decide
  rw [hguid', hstart']

/-- A stored item has its id and its abilities, and exactly the values that fit
what is stored come back. -/
theorem stored_same_iff (i : Item) :
    (stored w i).id = i.id ∧ (stored w i).abilities = i.abilities ∧
      (SameStored w (stored w i) i ↔ KeptStored w i) := by
  refine ⟨stored_id w i, rfl, ?_⟩
  unfold SameStored KeptStored
  have hwritten : ∀ m : Item, SameWritten w (m.setAbilities i.abilities) i ↔ SameWritten w m i :=
    fun m => ⟨fun h => ⟨h.subType, h.int, h.str, h.custom⟩,
      fun h => ⟨h.subType, h.int, h.str, h.custom⟩⟩
  have hor : ∀ c, (c = 0 ∨ c = i.getSubType w ∨ (w.itemType i.id).stackable) →
      (SameWritten w (restored w i (construct w i.id c)) i ∧
        (restored w i (construct w i.id c)).attributes.int .decayState = i.savedDecayState ↔
        KeptWritten w i) := by
    intro c hc
    rw [restored_written_iff w i c hc, and_iff_left (restored_decayState w i c)]
  cases hclass : (i.type w).itemClass with
  | door =>
      have hreload : stored w i = (newItem w i.id (i.getSubType w)).setAbilities i.abilities := by
        rw [stored, reload, hclass]
      rw [hreload]
      exact Iff.rfl
  | bed =>
      have hreload : stored w i =
          (restoreSleeper w i (newItem w i.id (i.getSubType w))).setAbilities i.abilities := by
        rw [stored, reload, hclass]
      have hnew : (newItem w i.id (i.getSubType w)).sleeperGUID = 0 ∧
          (newItem w i.id (i.getSubType w)).sleepStart = 0 := by
        have hbed : newItem w i.id (i.getSubType w) =
            (construct w i.id 0).internalRemoveSleeper := by
          rw [newItem, show (w.itemType i.id).itemClass = .bed from hclass]
        rw [hbed]
        exact setStrAttr_sleeper _ _ _
      have hsub : (restoreSleeper w i (newItem w i.id (i.getSubType w))).getSubType w =
          (newItem w i.id (i.getSubType w)).getSubType w := by
        unfold restoreSleeper setSleeper setStrAttr
        repeat' split
        all_goals rfl
      rw [hreload]
      have hsleeper := restoreSleeper_iff w i (newItem w i.id (i.getSubType w)) hnew.1 hnew.2
      rw [← hsleeper, ← hsub]
      exact Iff.rfl
  | teleport =>
      obtain ⟨c, hc, hnew⟩ := newItem_eq w i.id (i.getSubType w) (by
        rw [show (w.itemType i.id).itemClass = .teleport from hclass]
        decide)
      have hreload : stored w i = ({ restored w i (construct w i.id c) with
          destPos := i.destPos } : Item).setAbilities i.abilities := by
        rw [stored, reload, hclass, hnew]
      rw [hreload, ← hor c hc]
      constructor
      · rintro ⟨h, hdecay, _⟩
        exact ⟨⟨h.subType, h.int, h.str, h.custom⟩, hdecay⟩
      · rintro ⟨h, hdecay⟩
        exact ⟨⟨h.subType, h.int, h.str, h.custom⟩, hdecay, rfl⟩
  | depotLocker | container | magicField | trashHolder | mailbox | item =>
      obtain ⟨c, hc, hnew⟩ := newItem_eq w i.id (i.getSubType w) (by
        rw [show (w.itemType i.id).itemClass = _ from hclass]
        decide)
      have hreload : stored w i =
          (restored w i (construct w i.id c)).setAbilities i.abilities := by
        rw [stored, reload, hclass, hnew]
      rw [hreload, ← hor c hc, hwritten]
      exact Iff.rfl

/-! ## The three tables -/

/-- What is in a depot chest. -/
def PlayerItems.depotChest (p : PlayerItems) (depotId : Nat) : List ItemTree :=
  (p.depotChests.find? fun it => it.1 == depotId).elim [] Prod.snd

/-- All items of the player, by tree. -/
def PlayerItems.trees (p : PlayerItems) : List ItemTree :=
  (p.inventoryList ++ p.depotList ++ p.inboxList).map Prod.snd

theorem filterMap_slot (inventory : Nat → Option ItemTree) (slots : List Nat) (hnodup : slots.Nodup)
    (slotId : Nat) :
    ((slots.filterMap fun s => (inventory s).map (Prod.mk s)).filter fun t => t.1 == slotId).map
        Prod.snd = if slotId ∈ slots then (inventory slotId).toList else [] := by
  induction slots with
  | nil => rfl
  | cons s slots ih =>
      rw [List.nodup_cons] at hnodup
      have hrest := ih hnodup.2
      rw [List.filterMap_cons]
      by_cases hs : s = slotId
      · subst hs
        rw [if_neg hnodup.1] at hrest
        rw [if_pos List.mem_cons_self]
        cases hi : inventory s with
        | none => simpa [hi] using hrest
        | some t => simpa [hi, List.filter_cons] using hrest
      · have hmem : slotId ∈ s :: slots ↔ slotId ∈ slots := by
          rw [List.mem_cons]
          exact or_iff_right (Ne.symm hs)
        simp only [hmem]
        cases hi : inventory s with
        | none => exact hrest
        | some t => simpa [List.filter_cons, hs] using hrest

theorem inventoryList_filter (p : PlayerItems) (slotId : Nat) (h1 : 1 ≤ slotId)
    (h10 : slotId ≤ 10) :
    (p.inventoryList.filter fun t => t.1 == slotId).map Prod.snd =
      (p.inventory slotId).toList := by
  rw [PlayerItems.inventoryList, filterMap_slot _ _ List.nodup_range', if_pos]
  rw [List.mem_range'_1]
  omega

theorem depotList_filter (p : PlayerItems) (depotId : Nat) :
    (p.depotList.filter fun t => t.1 == depotId).map Prod.snd = p.depotChest depotId := by
  unfold PlayerItems.depotList PlayerItems.depotChest
  have hordered := p.ordered
  generalize p.depotChests = chests at hordered ⊢
  induction chests with
  | nil => rfl
  | cons it chests ih =>
      rw [List.map_cons, List.pairwise_cons] at hordered
      have hrest := ih hordered.2
      rw [List.flatMap_cons, List.filter_append, List.map_append, hrest, List.find?_cons]
      by_cases hit : it.1 = depotId
      · have hnone : (chests.find? fun it => it.1 == depotId) = none := by
          rw [List.find?_eq_none]
          intro c hc
          have := hordered.1 c.1 (List.mem_map_of_mem hc)
          simp
          omega
        simp [hit, hnone, List.filter_map, Function.comp_def]
      · have hne : (it.1 == depotId) = false := by simpa using hit
        simp [hne, List.filter_map, Function.comp_def]

/-- The list of the slots has one item in a slot, so a slot is free when its
item comes. -/
theorem slot_free (p : PlayerItems) (fs : List (Entry Item)) (e : Entry Item)
    (gs : List (Entry Item)) (hes : number (isContainer w) p.inventoryList 100 = fs ++ e :: gs)
    (h1 : 1 ≤ e.parent) (h10 : e.parent ≤ 10) : childrenOf gs e.parent = [] := by
  have hroot := childrenOf_root (isContainer w) p.inventoryList 100 e.parent (by omega)
  rw [inventoryList_filter p e.parent h1 h10, hes, childrenOf_append] at hroot
  have hlen := congrArg List.length hroot
  have hself : childrenOf (e :: gs) e.parent = e :: childrenOf gs e.parent := by
    rw [childrenOf, List.filter_cons, if_pos (by simp)]
    rfl
  have hone : (p.inventory e.parent).toList.length ≤ 1 := by
    cases p.inventory e.parent with
    | none => simp
    | some t => simp
  rw [hself, List.map_append, List.length_append, List.map_cons, List.length_cons,
    List.length_map, List.length_map] at hlen
  exact List.length_eq_zero_iff.mp (by omega)

/-- What is loaded from the rows of a player's items, if no depot id is above
99: every tree in its slot, its depot chest or the inbox. -/
theorem loadPlayerItems_savePlayerItems (p : PlayerItems) (hstorable : ∀ t ∈ p.trees, Storable w t)
    (hdepot : ∀ it ∈ p.depotChests, it.1 < 100) :
    let loaded := loadPlayerItems w (savePlayerItems w p)
    (∀ slotId, 1 ≤ slotId → slotId ≤ 10 →
      loaded.inventory slotId = (p.inventory slotId).map (Rose.map (stored w))) ∧
    (∀ depotId < 100,
      loaded.depotChest depotId = (p.depotChest depotId).map (Rose.map (stored w))) ∧
    loaded.inbox = p.inbox.map (Rose.map (stored w)) := by
  have htree : ∀ t ∈ p.inventoryList ++ p.depotList ++ p.inboxList, Storable w t.2 :=
    fun t ht => hstorable t.2 (List.mem_map_of_mem ht)
  have hslots : ∀ t ∈ p.inventoryList, 1 ≤ t.1 ∧ t.1 ≤ 10 := by
    intro t ht
    obtain ⟨s, hs, hst⟩ := List.mem_filterMap.mp ht
    obtain ⟨u, _, rfl⟩ := Option.map_eq_some_iff.mp hst
    rw [List.mem_range'_1] at hs
    dsimp only
    omega
  have hdepots : ∀ t ∈ p.depotList, t.1 < 100 := by
    intro t ht
    obtain ⟨it, hit, hmem⟩ := List.mem_flatMap.mp ht
    obtain ⟨u, _, rfl⟩ := List.mem_map.mp hmem
    exact hdepot it hit
  have hinbox : ∀ t ∈ p.inboxList, t.1 = 0 := by
    intro t ht
    obtain ⟨u, _, rfl⟩ := List.mem_map.mp ht
    rfl
  refine ⟨fun slotId h1 h10 => ?_, fun depotId hlt => ?_, ?_⟩
  · have hload := loadTable_saveItems w addToSlot p.inventoryList
      (fun t ht => htree t (by simp [ht])) (fun t ht => by have := hslots t ht; omega)
      (fun pid sid direct hpid => if_neg (by omega))
      (fun fs e gs hes hle d hd => by
        obtain ⟨t, ht, hroot⟩ := root_of_parent_le w (e := e) (by rw [hes]; simp) hle
        have hrange := hslots t ht
        rw [hroot] at hrange
        rw [slot_free w p fs e gs hes hrange.1 hrange.2] at hd
        rw [addToSlot, if_pos hrange, hd]
        rfl) slotId (by omega)
    rw [inventoryList_filter p slotId h1 h10] at hload
    change (loadTable w addToSlot (saveItems w p.inventoryList) slotId).head? = _
    rw [hload]
    cases p.inventory slotId with
    | none => rfl
    | some t => rfl
  · have hload := loadTable_saveItems w addToDepotChest p.depotList
      (fun t ht => htree t (by simp [ht])) (fun t ht => by have := hdepots t ht; omega)
      (fun pid sid direct hpid => if_neg (by omega))
      (fun fs e gs hes hle d hd => by
        obtain ⟨t, ht, hroot⟩ := root_of_parent_le w (e := e) (by rw [hes]; simp) hle
        have hrange := hdepots t ht
        rw [hroot] at hrange
        rw [addToDepotChest, if_pos hrange]) depotId (by omega)
    rw [depotList_filter p depotId] at hload
    exact hload
  · have hload := loadTable_saveItems w addToInbox p.inboxList
      (fun t ht => htree t (by simp [ht])) (fun t ht => by have := hinbox t ht; omega)
      (fun pid sid direct hpid => if_neg (by omega))
      (fun fs e gs hes hle d hd => by
        obtain ⟨t, ht, hroot⟩ := root_of_parent_le w (e := e) (by rw [hes]; simp) hle
        have hzero := hinbox t ht
        rw [hroot] at hzero
        rw [addToInbox, if_pos (by omega), hzero]) 0 (by omega)
    have hall : (p.inboxList.filter fun t => t.1 == 0) = p.inboxList := by
      rw [List.filter_eq_self]
      intro t ht
      simpa using hinbox t ht
    have hsnd : p.inboxList.map Prod.snd = p.inbox := by
      rw [PlayerItems.inboxList, List.map_map]
      exact List.map_id p.inbox
    rw [hall, hsnd] at hload
    exact hload

/-- The items of a player come back: every tree in its slot, its depot chest
(with an id below 100) or the inbox, with the same nesting and order; every
item with its id, its abilities and the attributes whose values fit. -/
theorem player_items_round_trip (p : PlayerItems) (hstorable : ∀ t ∈ p.trees, Storable w t)
    (hdepot : ∀ it ∈ p.depotChests, it.1 < 100) :
    let loaded := loadPlayerItems w (savePlayerItems w p)
    ((∀ slotId, 1 ≤ slotId → slotId ≤ 10 →
      loaded.inventory slotId = (p.inventory slotId).map (Rose.map (stored w))) ∧
    (∀ depotId < 100,
      loaded.depotChest depotId = (p.depotChest depotId).map (Rose.map (stored w))) ∧
    loaded.inbox = p.inbox.map (Rose.map (stored w))) ∧
    ∀ i : Item, (stored w i).id = i.id ∧ (stored w i).abilities = i.abilities ∧
      (SameStored w (stored w i) i ↔ KeptStored w i) :=
  ⟨loadPlayerItems_savePlayerItems w p hstorable hdepot, stored_same_iff w⟩

/-! ## A depot with a large id -/

/-- An item table with one type, a weapon. -/
def swordWorld : World where
  itemType id := if id = 2400 then { id := 2400, group := .weapon, moveable := true } else {}
  addUniqueItem _ := false
  getNameByGuid _ := []

/-- A sword that is decaying. -/
def decayingSword : ItemTree :=
  .node { id := 2400, attributes := {
    int := fun k => if k = .decayState then some DECAYING_TRUE else none } } []

/-- A player with a sword in a depot chest and in the inbox. -/
def swordOwner (depotId : Nat) : PlayerItems where
  inventory _ := none
  depotChests := [(depotId, [decayingSword])]
  ordered := List.pairwise_singleton _ _
  inbox := [decayingSword]

theorem storable_decayingSword : Storable swordWorld decayingSword := by
  refine .node _ [] (by decide) (fun _ => rfl) (by decide) ?_ ?_
  · intro c hc
    exact absurd hc (by simp)
  · intro t ht
    exact absurd ht List.not_mem_nil

theorem storable_swordOwner (depotId : Nat) :
    ∀ t ∈ (swordOwner depotId).trees, Storable swordWorld t := by
  intro t ht
  have heq : t = decayingSword := by
    simpa [PlayerItems.trees, PlayerItems.inventoryList, PlayerItems.depotList,
      PlayerItems.inboxList, swordOwner] using ht
  rw [heq]
  exact storable_decayingSword

/-- The sword in the chest of depot 5 comes back. -/
theorem player_items_round_trip_depot_five :
    (loadPlayerItems swordWorld (savePlayerItems swordWorld (swordOwner 5))).depotChest 5 =
      [decayingSword].map (Rose.map (stored swordWorld)) :=
  (player_items_round_trip swordWorld (swordOwner 5) (storable_swordOwner 5) (by
    intro it hit
    rw [List.mem_singleton.mp hit]
    decide)).1.2.1 5 (by decide)

/-- The sword in the chest of depot 100 is lost, and the one in the inbox comes
back with another decay state. -/
theorem player_items_lost :
    (swordOwner 100).depotChest 100 = [decayingSword] ∧
    (loadPlayerItems swordWorld (savePlayerItems swordWorld (swordOwner 100))).depotChest 100 =
      [] ∧
    ∀ t ∈ (loadPlayerItems swordWorld (savePlayerItems swordWorld (swordOwner 5))).inbox,
      t.label.attributes.int .decayState = some DECAYING_PENDING := by
  refine ⟨rfl, ?_, ?_⟩
  · have hrow := loadItem_saveRow swordWorld ⟨100, 101, decayingSword⟩ storable_decayingSword
    have hcontainer : isContainer swordWorld decayingSword.label = false := by decide
    have hnumber : number (isContainer swordWorld) (swordOwner 100).depotList 100 =
        [⟨100, 101, decayingSword⟩] := by
      simp [number, PlayerItems.depotList, swordOwner, numberList, pending, hcontainer, numberQueue]
    have hrows : (savePlayerItems swordWorld (swordOwner 100)).depotitems =
        [saveRow swordWorld ⟨100, 101, decayingSword⟩] := by
      rw [savePlayerItems]
      dsimp only
      rw [saveItems, hnumber, List.map_singleton]
    have hmap : loadItems swordWorld [saveRow swordWorld ⟨100, 101, decayingSword⟩] =
        [(101, stored swordWorld decayingSword.label, 100)] := by
      rw [loadItems, List.foldl_cons, List.foldl_nil, hrow]
      rfl
    rw [loadPlayerItems, hrows]
    dsimp only
    rw [loadTable, orderBySidDesc, List.mergeSort_singleton, hmap]
    rfl
  · intro t ht
    have hload := (loadPlayerItems_savePlayerItems swordWorld (swordOwner 5)
      (storable_swordOwner 5) (by
        intro it hit
        rw [List.mem_singleton.mp hit]
        decide)).2.2
    rw [hload] at ht
    obtain ⟨u, hu, rfl⟩ := List.mem_map.mp ht
    rw [List.mem_singleton.mp hu]
    have hstate := restored_decayState swordWorld decayingSword.label 1
    exact hstate

end Infernum.IOLoginData
