import Infernum.House.TileStore
import Infernum.Item.Reload
import Mathlib.Data.List.Induction

/-!
# What is loaded from a saved tile

`loadedItem` is what one item becomes. The first item that is written reads
the abilities of all items; every later one finds the stream of abilities at
its end.
-/

namespace Infernum.IOMapSerialize

open Infernum.Lib

variable (w : World)

/-- A depot locker is among the items of the tree. It is written like a
container but does not read the number of its items. -/
def HasLocker (t : ItemTree) : Prop :=
  ∃ i ∈ t.flatten, (i.type w).itemClass = .depotLocker

theorem hasLocker_node (i : Item) (ts : List ItemTree) :
    HasLocker w (.node i ts) ↔
      (i.type w).itemClass = .depotLocker ∨ ∃ t ∈ ts, HasLocker w t := by
  unfold HasLocker
  simp only [Rose.flatten_node, List.mem_cons, List.mem_flatMap]
  constructor
  · rintro ⟨j, rfl | ⟨t, ht, hj⟩, hclass⟩
    · exact .inl hclass
    · exact .inr ⟨t, ht, j, hj, hclass⟩
  · rintro (hclass | ⟨t, ht, j, hj, hclass⟩)
    · exact ⟨i, .inl rfl, hclass⟩
    · exact ⟨j, .inr ⟨t, ht, hj⟩, hclass⟩

/-! ## The written streams -/

example (i : Item) (hplain : ¬ isContainer w i) : saveReversed w [.node i []] =
    {} ++ (⟨encodeLE 2 i.id.toNat ++ i.serializeAttr w, i.serializeAbility⟩ ++ {} ++ ⟨[0], []⟩) := by
  rw [saveReversed, saveReversed, saveItem, if_neg hplain]

theorem saveReversed_append (ts us : List ItemTree) :
    saveReversed w (ts ++ us) = saveReversed w us ++ saveReversed w ts := by
  induction ts with
  | nil =>
      ext1
      · simp [saveReversed]
      · simp [saveReversed]
  | cons t ts ih =>
      rw [List.cons_append, saveReversed, ih, saveReversed]
      ext1
      · simp
      · simp

theorem saveReversed_singleton (t : ItemTree) : saveReversed w [t] = saveItem w t := by
  rw [saveReversed, saveReversed]
  ext1
  · simp
  · simp

theorem length_saveItem_le (t : ItemTree) (ts : List ItemTree) (h : t ∈ ts) :
    (saveItem w t).data.length ≤ (saveReversed w ts).data.length := by
  induction ts with
  | nil => exact absurd h List.not_mem_nil
  | cons u ts ih =>
      rw [saveReversed, Streams.data_append, List.length_append]
      rcases List.mem_cons.mp h with rfl | hmem
      · omega
      · have := ih hmem
        omega

/-- The items of a container take less room than the container. -/
theorem length_saveItem_lt (i : Item) (ts : List ItemTree) (t : ItemTree) (h : t ∈ ts)
    (hcontainer : isContainer w i) :
    (saveItem w t).data.length < (saveItem w (.node i ts)).data.length := by
  have hle := length_saveItem_le w t ts h
  rw [saveItem, if_pos hcontainer]
  simp only [Streams.data_append, List.length_append, List.length_cons, List.length_nil]
  omega

/-! ## The stream of abilities -/

/-- Bytes that an item reads to their end, taking nothing but abilities. -/
def AbilityStream (a : List UInt8) : Prop :=
  ∀ m : Item, ∃ abilities, Item.unserializeAbility a m = ({ m with abilities := abilities }, [])

theorem abilityStream_nil : AbilityStream [] := by
  intro m
  exact ⟨m.abilities, by rw [Item.unserializeAbility]⟩

theorem AbilityStream.serializeAbility {a : List UInt8} (h : AbilityStream a) (i : Item) :
    AbilityStream (i.serializeAbility ++ a) := by
  intro m
  have hread := Item.unserializeAbility_abilityBytes i m (List.finRange 53)
  obtain ⟨abilities, hset⟩ := Item.unserializeAbility_other (i.abilityBytes (List.finRange 53)) m
  have hnil := hread []
  rw [List.append_nil, Item.unserializeAbility] at hnil
  rw [hnil] at hset
  dsimp only at hset
  obtain ⟨abilities', ha⟩ := h { m with abilities := abilities }
  exact ⟨abilities', (hread a).trans (by rw [hset, ha])⟩

theorem abilityStream_saveReversed {ts : List ItemTree}
    (h : ∀ t ∈ ts, ∀ a, AbilityStream a → AbilityStream ((saveItem w t).abilities ++ a))
    {a : List UInt8} (ha : AbilityStream a) :
    AbilityStream ((saveReversed w ts).abilities ++ a) := by
  induction ts generalizing a with
  | nil => exact ha
  | cons t ts ih =>
      rw [saveReversed, Streams.abilities_append, List.append_assoc]
      exact ih (fun u hu => h u (List.mem_cons_of_mem t hu)) (h t List.mem_cons_self a ha)

theorem abilityStream_saveItem (t : ItemTree) {a : List UInt8} (ha : AbilityStream a) :
    AbilityStream ((saveItem w t).abilities ++ a) := by
  induction t using Rose.induct generalizing a with
  | step i ts ih =>
      rw [saveItem]
      by_cases hcontainer : isContainer w i
      · rw [if_pos hcontainer]
        have := (abilityStream_saveReversed w (fun t ht a ha => ih t ht ha) ha).serializeAbility i
        simpa using this
      · rw [if_neg hcontainer]
        simpa using ha.serializeAbility i

/-- What is written for items without abilities. -/
theorem saveItem_abilities_nil (t : ItemTree)
    (h : ∀ i ∈ t.flatten, i.abilities = fun _ => none) : (saveItem w t).abilities = [] := by
  induction t using Rose.induct with
  | step i ts ih =>
      rw [Rose.flatten_node] at h
      have hroot : i.serializeAbility = [] := by
        rw [Item.serializeAbility, h i List.mem_cons_self]
        simp
      have hts : ∀ us : List ItemTree, us ⊆ ts → (saveReversed w us).abilities = [] := by
        intro us
        induction us with
        | nil =>
            intro _
            rfl
        | cons u us ihus =>
            intro hsub
            have hu := hsub List.mem_cons_self
            rw [saveReversed, Streams.abilities_append, ihus fun x hx =>
              hsub (List.mem_cons_of_mem u hx), List.nil_append]
            exact ih u hu fun j hj =>
              h j (List.mem_cons_of_mem i (List.mem_flatMap.mpr ⟨u, hu, hj⟩))
      rw [saveItem]
      split
      · simp [hroot, hts ts fun _ hx => hx]
      · simp [hroot]

theorem saveReversed_abilities_nil (ts : List ItemTree)
    (h : ∀ i ∈ ts.flatMap Rose.flatten, i.abilities = fun _ => none) :
    (saveReversed w ts).abilities = [] := by
  induction ts with
  | nil => rfl
  | cons t ts ih =>
      rw [List.flatMap_cons] at h
      rw [saveReversed, Streams.abilities_append,
        ih fun i hi => h i (List.mem_append_right _ hi),
        saveItem_abilities_nil w t fun i hi => h i (List.mem_append_left _ hi), List.nil_append]

/-! ## One item -/

/-- What an item is loaded as when the stream of abilities holds `a`. -/
def loadedItem (a : List UInt8) (i : Item) : Item :=
  Item.reload w i (Item.unserializeAbility a (Item.newItem w i.id 0)).1

/-- What an item with its contents is loaded as. -/
def loadedTree (a : List UInt8) : ItemTree → ItemTree
  | .node i ts => .node (loadedItem w a i) (ts.map (Rose.map (loadedItem w [])))

theorem loadedTree_nil (t : ItemTree) : loadedTree w [] t = t.map (loadedItem w []) := by
  cases t with
  | node i ts => rw [loadedTree, Rose.map_node]

theorem unserializeAbility_id (a : List UInt8) (m : Item) :
    (Item.unserializeAbility a m).1.id = m.id := by
  obtain ⟨abilities, h⟩ := Item.unserializeAbility_other a m
  rw [h]

theorem loadedItem_id (a : List UInt8) (i : Item) : (loadedItem w a i).id = i.id := by
  rw [loadedItem, (Item.reload_rest w i _).1, unserializeAbility_id, (Item.newItem_rest w i.id 0).1]

theorem class_of_isContainer {i : Item} (h : isContainer w i)
    (hno : (i.type w).itemClass ≠ .depotLocker) : (i.type w).itemClass = .container := by
  unfold isContainer at h
  cases hclass : (i.type w).itemClass with
  | container => rfl
  | depotLocker => exact absurd hclass hno
  | teleport | magicField | door | trashHolder | mailbox | bed | item =>
      rw [hclass] at h
      exact absurd h (by decide)

/-- A container ends its attributes with the number of its items. -/
theorem unserializeAttr_containerItems (n : Nat) (hn : n < 2 ^ 32) (rest : List UInt8) (m : Item)
    (hclass : (m.type w).itemClass = .container) :
    Item.unserializeAttr w (AttrTypes.containerItems.code :: encodeLE 4 n ++ rest) m =
      ⟨true, m, n, rest⟩ := by
  rw [List.cons_append, Item.unserializeAttr, if_neg (AttrTypes.code_ne_zero _)]
  simp only [AttrTypes.ofCode_code, Item.readAttr, hclass, if_true, readLE_encodeLE,
    show n % 256 ^ 4 = n from Nat.mod_eq_of_lt hn]

/-- The loop over the items of a container. -/
theorem loadContainer_saveReversed (load : Streams → Loaded) (f : ItemTree → ItemTree)
    (ts : List ItemTree)
    (hload : ∀ t ∈ ts, ∀ d, load ⟨(saveItem w t).data ++ d, []⟩ = ⟨true, some (f t), ⟨d, []⟩⟩)
    (items : List ItemTree) (d : List UInt8) :
    loadContainer load some ts.length items ⟨(saveReversed w ts).data ++ 0 :: d, []⟩ =
      (true, ts.map f ++ items, ⟨d, []⟩) := by
  induction ts using List.reverseRecOn generalizing items with
  | nil =>
      have hend : readLE 1 (0 :: d) = (some 0, d) := readLE_one_cons 0 d
      simp [saveReversed, loadContainer, hend]
  | append_singleton ts t ih =>
      rw [saveReversed_append, saveReversed_singleton, List.length_append, List.length_singleton,
        loadContainer, Streams.data_append, List.append_assoc,
        hload t (by simp) _]
      have := ih (fun u hu => hload u (by simp [hu])) (f t :: items)
      simpa using this

/-- A new item reads the attributes it was saved with, and goes on with what follows. -/
theorem loadNewItem_attributes {i : Item} (hknown : (w.itemType i.id).known)
    (hcustom : ∀ c, i.attributes.custom = some c → c.entries.length < 2 ^ 64)
    (load : Streams → Loaded) {a : List UInt8} (ha : AbilityStream a) (rest : List UInt8) :
    loadNewItem w load i.id ⟨i.serializeAttr w ++ rest, a⟩ =
      let u := Item.unserializeAttr w rest (loadedItem w a i)
      if u.ok then
        if isContainer w u.item then
          match loadContainer load some u.serializationCount [] ⟨u.rest, []⟩ with
          | (true, items, s) => ⟨true, some (.node u.item items), s⟩
          | (false, _, s) => ⟨false, none, s⟩
        else ⟨true, some (.node u.item []), ⟨u.rest, []⟩⟩
      else ⟨false, none, ⟨u.rest, []⟩⟩ := by
  obtain ⟨abilities, habil⟩ := ha (Item.newItem w i.id 0)
  have hid : (Item.unserializeAbility a (Item.newItem w i.id 0)).1.id = i.id := by
    rw [unserializeAbility_id, (Item.newItem_rest w _ _).1]
  have hread := Item.unserializeAttr_serializeAttr w i _ rest hid hcustom
  have hrest : (Item.unserializeAbility a (Item.newItem w i.id 0)).2 = [] := by rw [habil]
  rw [loadNewItem, Item.createItem_known hknown]
  simp only [hread, hrest]
  rfl

/-- A new item on the bytes of a saved one. -/
theorem loadNewItem_saveItem (i : Item) (ts : List ItemTree) (h : Storable w (.node i ts))
    (hno : (i.type w).itemClass ≠ .depotLocker) (load : Streams → Loaded)
    (hload : ∀ t ∈ ts, ∀ d, load ⟨(saveItem w t).data ++ d, []⟩ =
      ⟨true, some (t.map (loadedItem w [])), ⟨d, []⟩⟩)
    {a : List UInt8} (ha : AbilityStream a) (d : List UInt8) :
    ∃ data, (saveItem w (.node i ts)).data = encodeLE 2 i.id.toNat ++ data ∧
      loadNewItem w load i.id ⟨data ++ d, a⟩ =
        ⟨true, some (loadedTree w a (.node i ts)), ⟨d, []⟩⟩ := by
  cases h with
  | node _ _ hknown hcontents hsize hcustom _ =>
      refine ⟨i.serializeAttr w ++ ((if isContainer w i then
          (AttrTypes.containerItems.code :: encodeLE 4 ts.length) ++ (saveReversed w ts).data
        else []) ++ [0]), ?_, ?_⟩
      · rw [saveItem]
        split
        · simp
        · simp
      · have hloaded : isContainer w (loadedItem w a i) = isContainer w i :=
          isContainer_congr w (loadedItem_id w a i)
        simp only [List.append_assoc, loadNewItem_attributes w hknown hcustom load ha]
        by_cases hcontainer : isContainer w i
        · rw [if_pos hcontainer]
          have hclass : ((loadedItem w a i).type w).itemClass = .container := by
            rw [Item.type_eq (loadedItem_id w a i)]
            exact class_of_isContainer w hcontainer hno
          have hend := unserializeAttr_containerItems w ts.length hsize
            ((saveReversed w ts).data ++ 0 :: d) (loadedItem w a i) hclass
          have hitems := loadContainer_saveReversed w load (Rose.map (loadedItem w [])) ts hload [] d
          rw [List.append_nil] at hitems
          simp only [List.append_assoc, List.singleton_append, hend, if_true, hloaded, hcontainer,
            hitems]
          rfl
        · rw [if_neg hcontainer]
          have hts := hcontents (by simpa using hcontainer)
          simp only [List.nil_append, List.singleton_append, Item.unserializeAttr_zero, hloaded,
            hcontainer, if_true, hts]
          rfl

/-- An item in a container, as it was written. -/
theorem loadItem_saveItem (t : ItemTree) (ht : Storable w t) (hno : ¬HasLocker w t) (fuel : Nat)
    (hfuel : (saveItem w t).data.length ≤ fuel) (d : List UInt8) :
    loadItem w fuel ⟨(saveItem w t).data ++ d, []⟩ =
      ⟨true, some (t.map (loadedItem w [])), ⟨d, []⟩⟩ := by
  induction fuel generalizing t d with
  | zero =>
      cases t with
      | node i ts =>
          obtain ⟨data, hdata, _⟩ : ∃ data, (saveItem w (.node i ts)).data =
              encodeLE 2 i.id.toNat ++ data ∧ True := by
            rw [saveItem]
            exact ⟨_, by simp only [Streams.data_append, List.append_assoc]; rfl, trivial⟩
          rw [hdata] at hfuel
          simp at hfuel
  | succ fuel ih =>
      cases t with
      | node i ts =>
          rw [hasLocker_node, not_or] at hno
          have hload : ∀ u ∈ ts, ∀ d, loadItem w fuel ⟨(saveItem w u).data ++ d, []⟩ =
              ⟨true, some (u.map (loadedItem w [])), ⟨d, []⟩⟩ := by
            intro u hmem d
            have hlt := length_saveItem_lt w i ts u hmem (isContainer_of_mem w ht hmem)
            cases ht with
            | node _ _ _ _ _ _ hchildren =>
                exact ih u (hchildren u hmem) (fun h => hno.2 ⟨u, hmem, h⟩) (by omega) d
          obtain ⟨data, hdata, hnew⟩ :=
            loadNewItem_saveItem w i ts ht hno.1 (loadItem w fuel) hload abilityStream_nil d
          have hmod : i.id.toNat % 256 ^ 2 = i.id.toNat := Nat.mod_eq_of_lt i.id.isLt
          rw [hdata, loadItem, List.append_assoc, readLE_encodeLE, hmod]
          simp only [BitVec.ofNat_toNat, BitVec.setWidth_eq, hnew, loadedTree_nil]

/-! ## Depot lockers -/

/-- A depot locker gets no further than its own attributes. -/
theorem unserializeAttr_locker (s : List UInt8) (m : Item)
    (hclass : (m.type w).itemClass = .depotLocker) :
    (Item.unserializeAttr w (AttrTypes.containerItems.code :: s) m).ok = false := by
  rw [Item.unserializeAttr, if_neg (AttrTypes.code_ne_zero _)]
  simp only [AttrTypes.ofCode_code, Item.readAttr, hclass, reduceCtorEq, if_false]

/-- The loop over the items of a container stops at the first item that fails. -/
theorem loadContainer_fails (load : Streams → Loaded) (f : ItemTree → ItemTree)
    (ts : List ItemTree)
    (hload : ∀ t ∈ ts, ¬HasLocker w t → ∀ d,
      load ⟨(saveItem w t).data ++ d, []⟩ = ⟨true, some (f t), ⟨d, []⟩⟩)
    (hfail : ∀ t ∈ ts, HasLocker w t → ∀ d,
      (load ⟨(saveItem w t).data ++ d, []⟩).ok = false)
    (hlocker : ∃ t ∈ ts, HasLocker w t) (items : List ItemTree) (d : List UInt8) :
    (loadContainer load some ts.length items ⟨(saveReversed w ts).data ++ d, []⟩).1 = false := by
  induction ts using List.reverseRecOn generalizing items with
  | nil =>
      obtain ⟨t, ht, _⟩ := hlocker
      exact absurd ht List.not_mem_nil
  | append_singleton ts t ih =>
      rw [saveReversed_append, saveReversed_singleton, List.length_append, List.length_singleton,
        loadContainer, Streams.data_append, List.append_assoc]
      by_cases ht : HasLocker w t
      · rw [hfail t (by simp) ht, if_neg (by decide)]
      · rw [hload t (by simp) ht, if_pos rfl]
        refine ih (fun u hu => hload u (by simp [hu])) (fun u hu => hfail u (by simp [hu])) ?_ _
        obtain ⟨u, hu, hlocker⟩ := hlocker
        rcases List.mem_append.mp hu with h | h
        · exact ⟨u, h, hlocker⟩
        · rw [List.mem_singleton.mp h] at hlocker
          exact absurd hlocker ht

/-- What holds a depot locker is not loaded. -/
theorem loadNewItem_locker (i : Item) (ts : List ItemTree) (h : Storable w (.node i ts))
    (hlocker : HasLocker w (.node i ts)) (load : Streams → Loaded)
    (hload : ∀ t ∈ ts, ¬HasLocker w t → ∀ d, load ⟨(saveItem w t).data ++ d, []⟩ =
      ⟨true, some (t.map (loadedItem w [])), ⟨d, []⟩⟩)
    (hfail : ∀ t ∈ ts, HasLocker w t → ∀ d,
      (load ⟨(saveItem w t).data ++ d, []⟩).ok = false)
    {a : List UInt8} (ha : AbilityStream a) (d : List UInt8) :
    ∃ data, (saveItem w (.node i ts)).data = encodeLE 2 i.id.toNat ++ data ∧
      (loadNewItem w load i.id ⟨data ++ d, a⟩).ok = false ∧
      (loadNewItem w load i.id ⟨data ++ d, a⟩).item = none := by
  cases h with
  | node _ _ hknown hcontents hsize hcustom _ =>
      have hcontainer : isContainer w i := by
        by_contra hno
        rw [hcontents (by simpa using hno), hasLocker_node] at hlocker
        rcases hlocker with hclass | ⟨t, ht, _⟩
        · rw [isContainer, hclass] at hno
          exact hno rfl
        · exact absurd ht List.not_mem_nil
      refine ⟨i.serializeAttr w ++ ((AttrTypes.containerItems.code :: encodeLE 4 ts.length) ++
        ((saveReversed w ts).data ++ [0])), ?_, ?_⟩
      · rw [saveItem, if_pos hcontainer]
        simp
      · have htype := Item.type_eq (w := w) (loadedItem_id w a i)
        simp only [List.append_assoc, loadNewItem_attributes w hknown hcustom load ha]
        by_cases hclass : (i.type w).itemClass = .depotLocker
        · have hend := fun s => unserializeAttr_locker w s (loadedItem w a i) (by rw [htype, hclass])
          simp only [List.cons_append, hend, Bool.false_eq_true, if_false, and_self]
        · have hchild : ∃ t ∈ ts, HasLocker w t := by
            rw [hasLocker_node] at hlocker
            exact hlocker.resolve_left hclass
          have hend := unserializeAttr_containerItems w ts.length hsize
            ((saveReversed w ts).data ++ ([0] ++ d)) (loadedItem w a i)
            (by rw [htype, class_of_isContainer w hcontainer hclass])
          have hloaded : isContainer w (loadedItem w a i) = true :=
            (isContainer_congr w (loadedItem_id w a i)).trans hcontainer
          have hitems := loadContainer_fails w load (Rose.map (loadedItem w [])) ts hload hfail
            hchild [] ([0] ++ d)
          simp only [hend, if_true, hloaded]
          generalize loadContainer load some ts.length [] _ = r at hitems ⊢
          obtain ⟨ok, items, s⟩ := r
          subst hitems
          exact ⟨rfl, rfl⟩

/-- In a container it fails as well. -/
theorem loadItem_locker (t : ItemTree) (ht : Storable w t) (hlocker : HasLocker w t) (fuel : Nat)
    (hfuel : (saveItem w t).data.length ≤ fuel) (d : List UInt8) :
    (loadItem w fuel ⟨(saveItem w t).data ++ d, []⟩).ok = false := by
  induction fuel generalizing t d with
  | zero => rfl
  | succ fuel ih =>
      cases t with
      | node i ts =>
          have hstorable : ∀ u ∈ ts, Storable w u := by
            cases ht with
            | node _ _ _ _ _ _ hchildren => exact hchildren
          have hlt : ∀ u ∈ ts, (saveItem w u).data.length ≤ fuel := by
            intro u hu
            have := length_saveItem_lt w i ts u hu (isContainer_of_mem w ht hu)
            omega
          obtain ⟨data, hdata, hnew, _⟩ := loadNewItem_locker w i ts ht hlocker (loadItem w fuel)
            (fun u hu hno d => loadItem_saveItem w u (hstorable u hu) hno fuel (hlt u hu) d)
            (fun u hu hyes d => ih u (hstorable u hu) hyes (hlt u hu) d) abilityStream_nil d
          have hmod : i.id.toNat % 256 ^ 2 = i.id.toNat := Nat.mod_eq_of_lt i.id.isLt
          rw [hdata, loadItem, List.append_assoc, readLE_encodeLE, hmod]
          simp only [BitVec.ofNat_toNat, BitVec.setWidth_eq, hnew]

end Infernum.IOMapSerialize
