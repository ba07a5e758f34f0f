import Infernum.House.TileLoad

/-!
# Saving and loading a house tile

Exactly which items come back as they were: `RoundTrips` for one item, and
`loadRow_saveTile_iff` for a tile. The abilities of all items go to the one
that is written first.
-/

namespace Infernum.IOMapSerialize

open Infernum.Lib Infernum.Item

variable (w : World)

/-- The id, sub-type, attributes and abilities of an item. -/
def core (i : Item) : BitVec 16 × BitVec 16 × ItemAttributes × ItemAbilities :=
  (i.id, i.getSubType w, i.attributes, i.abilities)

/-- The sub-type and the attributes, the decay state apart, come back: of a
door nothing is stored, of a bed the sleeper. -/
def KeptItem (i : Item) : Prop :=
  match (i.type w).itemClass with
  | .door => SameAttributes w (newItem w i.id 0) i
  | .bed => SameAttributes w (restoreSleeper w i (newItem w i.id 0)) i
  | _ => Kept w i

/-- Items of the type decay. -/
def decays (it : ItemType) : Bool := !(it.decayTo < 0 || it.decayTime == 0)

/-- The decay state that is read back. -/
def readDecayState (i : Item) : Option (BitVec 32) :=
  match (i.type w).itemClass with
  | .door => none
  | .bed => none
  | _ => i.savedDecayState

/-- The decay state comes back: what decays is started again, with time left. -/
def DecayKept (i : Item) : Prop :=
  if !isContainer w i && decays (i.type w) then
    i.getIntAttr .duration ≠ 0 ∧ i.attributes.int .decayState = some DECAYING_TRUE
  else i.attributes.int .decayState = readDecayState w i

/-- The item comes back with its id, sub-type and attributes. -/
def RoundTrips (i : Item) : Prop := KeptItem w i ∧ DecayKept w i

/-! ## The attributes of a loaded item -/

/-- An integer attribute of an item that has read its own bytes, the sub-type
apart. -/
theorem reload_newItem_int (i : Item) {k : IntAttr} (hk : k ≠ .charges) (hk' : k ≠ .fluidType) :
    (reload w i (newItem w i.id 0)).attributes.int k =
      (match (i.type w).itemClass with
        | .door => none
        | .bed => none
        | _ => restoredInt w i k).or
      (if k = IntAttr.duration then defaultDuration (i.type w) else none) := by
  have hconstruct : ∀ c, (construct w i.id c).attributes.int k =
      if k = .duration then defaultDuration (i.type w) else none := by
    intro c
    rw [construct_int]
    split
    · rfl
    · rw [constructSubType_int]
      cases k <;> first | rfl | contradiction
  by_cases hbed : (i.type w).itemClass = .bed
  · have hnew : (newItem w i.id 0).attributes.int = (construct w i.id 0).attributes.int := by
      unfold newItem
      rw [show (w.itemType i.id).itemClass = .bed from hbed]
      exact setStrAttr_int _ _ _
    have hrestore : (restoreSleeper w i (newItem w i.id 0)).attributes.int =
        (newItem w i.id 0).attributes.int := by
      unfold restoreSleeper setSleeper
      repeat' split
      all_goals first | rfl | exact setStrAttr_int _ _ _
    simp only [reload, hbed, hrestore, hnew, hconstruct, Option.none_or]
  · obtain ⟨c, _, hc⟩ := newItem_eq w i.id 0 hbed
    rw [hc]
    cases hclass : (i.type w).itemClass with
    | bed => exact absurd hclass hbed
    | door => simp only [reload, hclass, hconstruct, Option.none_or]
    | teleport | depotLocker | container | magicField | trashHolder | mailbox | item =>
        simp only [reload, hclass]
        exact restored_construct_int w i c hk hk'

/-- Only the sub-type and the attributes are compared, not the decay state. -/
theorem SameAttributes.congr {r r' i : Item} (hsub : r.getSubType w = r'.getSubType w)
    (hint : ∀ k, k ≠ .decayState → r.attributes.int k = r'.attributes.int k)
    (hstr : r.attributes.str = r'.attributes.str)
    (hcustom : r.attributes.custom = r'.attributes.custom) :
    SameAttributes w r i ↔ SameAttributes w r' i := by
  have himp : ∀ {r r' : Item}, r.getSubType w = r'.getSubType w →
      (∀ k, k ≠ .decayState → r.attributes.int k = r'.attributes.int k) →
      r.attributes.str = r'.attributes.str → r.attributes.custom = r'.attributes.custom →
      SameAttributes w r i → SameAttributes w r' i := by
    intro r r' hsub hint hstr hcustom h
    refine ⟨⟨?_, ?_, ?_⟩, fun k hk => ?_, fun k => ?_, ?_⟩
    · rw [← hint _ (by decide)]
      exact h.subType.1
    · rw [← hint _ (by decide)]
      exact h.subType.2.1
    · rw [← hsub]
      exact h.subType.2.2
    · rw [← hint k hk]
      exact h.int k hk
    · rw [← hstr]
      exact h.str k
    · rw [← hcustom]
      exact h.custom
  exact ⟨himp hsub hint hstr hcustom,
    himp hsub.symm (fun k hk => (hint k hk).symm) hstr.symm hcustom.symm⟩

/-- Which items get their attributes back. -/
theorem reload_sameAttributes_iff (i : Item) :
    SameAttributes w (reload w i (newItem w i.id 0)) i ↔ KeptItem w i := by
  unfold KeptItem
  cases hclass : (i.type w).itemClass with
  | door => simp only [reload, hclass]
  | bed => simp only [reload, hclass]
  | teleport =>
      obtain ⟨c, hor, hc⟩ := newItem_eq w i.id 0 (by
        rw [show (w.itemType i.id).itemClass = .teleport from hclass]
        decide)
      simp only [reload, hclass, hc]
      refine Iff.trans ?_ (restored_same_iff w i c ?_)
      · exact SameAttributes.congr w rfl (fun _ _ => rfl) rfl rfl
      · rcases hor with h | h | h
        · exact .inl h
        · exact .inl h
        · exact .inr (.inr h)
  | depotLocker | container | magicField | trashHolder | mailbox | item =>
      obtain ⟨c, hor, hc⟩ := newItem_eq w i.id 0 (by
        rw [show (w.itemType i.id).itemClass = _ from hclass]
        decide)
      simp only [reload, hclass, hc]
      refine restored_same_iff w i c ?_
      rcases hor with h | h | h
      · exact .inl h
      · exact .inl h
      · exact .inr (.inr h)

theorem core_eq_iff {r i : Item} (hid : r.id = i.id) :
    core w r = core w i ↔ SameAttributes w r i ∧
      r.attributes.int .decayState = i.attributes.int .decayState ∧ r.abilities = i.abilities := by
  unfold core
  simp only [Prod.mk.injEq]
  constructor
  · rintro ⟨-, hsub, hattr, habil⟩
    refine ⟨⟨⟨?_, ?_, hsub⟩, ?_, ?_, ?_⟩, ?_, habil⟩
    all_goals rw [hattr]
    · intro k _
      rfl
    · intro k
      rfl
  · rintro ⟨hsame, hdecay, habil⟩
    refine ⟨hid, hsame.subType.2.2, ?_, habil⟩
    apply ItemAttributes.ext
    · funext k
      by_cases hk : k = .decayState
      · rw [hk, hdecay]
      · exact hsame.int k hk
    · funext k
      exact hsame.str k
    · exact hsame.custom

/-- The abilities that a new item reads. -/
def readAbilities (a : List UInt8) (i : Item) : ItemAbilities :=
  (unserializeAbility a (newItem w i.id 0)).1.abilities

theorem readAbilities_nil (i : Item) : readAbilities w [] i = fun _ => none := by
  rw [readAbilities, unserializeAbility, (Item.newItem_rest w _ _).2]

theorem loadedItem_eq (a : List UInt8) (i : Item) :
    loadedItem w a i = (reload w i (newItem w i.id 0)).setAbilities (readAbilities w a i) := by
  obtain ⟨abilities, h⟩ := unserializeAbility_other a (newItem w i.id 0)
  rw [loadedItem, readAbilities, h]
  exact setAbilities_reload (newItem w i.id 0) abilities w i

theorem reload_newItem_abilities (a : List UInt8) (i : Item) :
    (loadedItem w a i).abilities = readAbilities w a i := by
  rw [loadedItem_eq]
  rfl

theorem loadedItem_sameAttributes_iff (a : List UInt8) (i : Item) :
    SameAttributes w (loadedItem w a i) i ↔ KeptItem w i := by
  rw [loadedItem_eq, ← reload_sameAttributes_iff]
  exact SameAttributes.congr w rfl (fun _ _ => rfl) rfl rfl

theorem loadedItem_int (a : List UInt8) (i : Item) (k : IntAttr) :
    (loadedItem w a i).attributes.int k = (reload w i (newItem w i.id 0)).attributes.int k := by
  rw [loadedItem_eq]
  rfl

theorem loadedItem_decayState (a : List UInt8) (i : Item) :
    (loadedItem w a i).attributes.int .decayState = readDecayState w i := by
  rw [loadedItem_int, reload_newItem_int w i (by decide) (by decide)]
  unfold readDecayState
  cases (i.type w).itemClass <;> simp [restoredInt]

theorem loadedItem_uniqueId (a : List UInt8) (i : Item) :
    (loadedItem w a i).attributes.int .uniqueId = none := by
  rw [loadedItem_int, reload_newItem_int w i (by decide) (by decide)]
  cases (i.type w).itemClass <;> simp [restoredInt]

theorem loadedItem_canDecay (a : List UInt8) (i : Item) :
    (loadedItem w a i).canDecay w = decays (i.type w) := by
  rw [canDecay, type_eq (loadedItem_id w a i), hasAttribute, loadedItem_uniqueId, decays]
  simp

/-- No loaded item is decaying yet. -/
theorem loadedItem_getDecaying (a : List UInt8) (i : Item) :
    (loadedItem w a i).getDecaying.setWidth 32 ≠ DECAYING_TRUE := by
  have hstate : readDecayState w i = none ∨ readDecayState w i = some DECAYING_PENDING := by
    have hsaved : i.savedDecayState = none ∨ i.savedDecayState = some DECAYING_PENDING := by
      unfold savedDecayState
      split
      · exact .inr rfl
      · exact .inl rfl
    unfold readDecayState
    cases (i.type w).itemClass <;> simp [hsaved]
  rw [getDecaying, getIntAttr, loadedItem_decayState]
  rcases hstate with h | h
  · rw [h]
    decide
  · rw [h]
    decide

/-! ## One item -/

variable (g : Game)

/-- Something else, or nothing, takes the place of an item that decays. -/
def Game.Decays : Prop := ∀ i j, g.internalDecayItem i = some j → j.id ≠ i.id

theorem loadedItem_core_iff (a : List UInt8) (i : Item) :
    core w (loadedItem w a i) = core w i ↔ KeptItem w i ∧
      i.attributes.int .decayState = readDecayState w i ∧ readAbilities w a i = i.abilities := by
  rw [core_eq_iff w (loadedItem_id w a i), loadedItem_sameAttributes_iff, loadedItem_decayState,
    reload_newItem_abilities, eq_comm (a := readDecayState w i)]

/-- An item outside containers is started where it lies. -/
theorem startDecay_loadedItem_iff (hg : g.Decays) (a : List UInt8) (i : Item)
    (hi : isContainer w i = false) :
    (startDecay w g (loadedItem w a i)).map (core w) = some (core w i) ↔
      RoundTrips w i ∧ readAbilities w a i = i.abilities := by
  rw [startDecay, loadedItem_canDecay, if_neg (loadedItem_getDecaying w a i), RoundTrips, DecayKept,
    hi]
  cases hdecays : decays (i.type w) with
  | false =>
      simp only [Bool.not_false, if_true, Option.map_some, Option.some.injEq, Bool.and_false,
        Bool.false_eq_true, if_false, loadedItem_core_iff, and_assoc]
  | true =>
      simp only [Bool.not_true, Bool.false_eq_true, if_false, Bool.not_false, Bool.and_self, if_true]
      -- with the same attributes the time that is left is the same
      have hduration : KeptItem w i →
          (loadedItem w a i).getIntAttr .duration = i.getIntAttr .duration := by
        intro h
        rw [getIntAttr, getIntAttr,
          ((loadedItem_sameAttributes_iff w a i).mpr h).int .duration (by decide)]
      by_cases hdue : (loadedItem w a i).getIntAttr .duration = 0
      · rw [if_neg (not_not.mpr hdue)]
        constructor
        · intro h
          obtain ⟨j, hj, hcore⟩ := Option.map_eq_some_iff.mp h
          have hid : j.id = i.id := congrArg Prod.fst hcore
          exact absurd (hid.trans (loadedItem_id w a i).symm) (hg _ _ hj)
        · rintro ⟨⟨hkept, htime, _⟩, _⟩
          exact absurd ((hduration hkept).symm.trans hdue) htime
      · rw [if_pos hdue, Option.map_some, Option.some.injEq]
        have hsame : SameAttributes w ((loadedItem w a i).setIntAttr .decayState DECAYING_TRUE) i ↔
            KeptItem w i := by
          rw [← loadedItem_sameAttributes_iff w a i]
          have hint : ∀ k, k ≠ .decayState →
              ((loadedItem w a i).setIntAttr .decayState DECAYING_TRUE).attributes.int k =
                (loadedItem w a i).attributes.int k := by
            intro k hk
            simp [setIntAttr, hk]
          have hsub : ((loadedItem w a i).setIntAttr .decayState DECAYING_TRUE).getSubType w =
              (loadedItem w a i).getSubType w :=
            getSubType_eq rfl (hint _ (by decide)) (hint _ (by decide)) fun _ _ => rfl
          exact SameAttributes.congr w hsub hint rfl rfl
        have hid : ((loadedItem w a i).setIntAttr .decayState DECAYING_TRUE).id = i.id :=
          loadedItem_id w a i
        have hstate : ((loadedItem w a i).setIntAttr .decayState DECAYING_TRUE).attributes.int
            .decayState = some DECAYING_TRUE := by simp [setIntAttr]
        have habil : ((loadedItem w a i).setIntAttr .decayState DECAYING_TRUE).abilities =
            readAbilities w a i := reload_newItem_abilities w a i
        rw [core_eq_iff w hid, hsame, hstate, habil]
        constructor
        · rintro ⟨hkept, hdecay, ha⟩
          refine ⟨⟨hkept, ?_, hdecay.symm⟩, ha⟩
          rw [← hduration hkept]
          exact hdue
        · rintro ⟨⟨hkept, _, hdecay⟩, ha⟩
          exact ⟨hkept, hdecay.symm, ha⟩

/-! ## Item trees -/

theorem startDecayingList_eq (ts : List ItemTree) :
    startDecayingList w g ts = ts.filterMap (startDecaying w g) := by
  induction ts with
  | nil => rfl
  | cons t ts ih =>
      rw [startDecayingList, ih, List.filterMap_cons]
      cases startDecaying w g t with
      | none => rfl
      | some u => rfl

/-- The tree comes back from `f`, as far as `core` sees it. -/
def ComesBack (f : ItemTree → ItemTree) (t : ItemTree) : Prop :=
  (startDecaying w g (f t)).map (Rose.map (core w)) = some (t.map (core w))

/-- A list comes back if each of its trees does: none can make up for one that
is gone. -/
theorem filterMap_startDecaying_iff (f : ItemTree → ItemTree) (ts : List ItemTree) :
    ((ts.map f).filterMap (startDecaying w g)).map (Rose.map (core w)) =
      ts.map (Rose.map (core w)) ↔ ∀ t ∈ ts, ComesBack w g f t := by
  rw [List.map_filterMap, List.filterMap_map]
  exact List.filterMap_eq_map_iff_forall_eq_some

/-- A tree comes back if its root does, with the abilities it reads, and the
trees in it do. -/
theorem comesBack_node_iff (hg : g.Decays) (a : List UInt8) (i : Item) (ts : List ItemTree)
    (h : Storable w (.node i ts)) :
    ComesBack w g (loadedTree w a) (.node i ts) ↔
      (RoundTrips w i ∧ readAbilities w a i = i.abilities) ∧
        ∀ t ∈ ts, ComesBack w g (loadedTree w []) t := by
  have hid := isContainer_congr w (loadedItem_id w a i)
  rw [ComesBack, loadedTree, startDecaying, hid, Rose.map_node]
  cases hcontainer : isContainer w i with
  | true =>
      have hlist : loadedTree w [] = Rose.map (loadedItem w []) := funext (loadedTree_nil w)
      have hdecay : DecayKept w i ↔ i.attributes.int .decayState = readDecayState w i := by
        rw [DecayKept, hcontainer]
        simp
      rw [if_pos rfl, Option.map_some, Option.some.injEq, Rose.map_node, Rose.node.injEq,
        startDecayingList_eq, filterMap_startDecaying_iff, loadedItem_core_iff, RoundTrips, hdecay,
        hlist]
      simp only [and_assoc]
  | false =>
      have hts : ts = [] := by
        cases h with
        | node _ _ _ hcontents _ _ _ => exact hcontents hcontainer
      subst hts
      have hleaf := startDecay_loadedItem_iff w g hg a i hcontainer
      rw [if_neg (by decide), ← hleaf, Option.map_map]
      cases startDecay w g (loadedItem w a i) with
      | none => simp
      | some j => simp

theorem comesBack_iff (hg : g.Decays) (t : ItemTree) (h : Storable w t) :
    ComesBack w g (loadedTree w []) t ↔
      ∀ i ∈ t.flatten, RoundTrips w i ∧ i.abilities = fun _ => none := by
  induction t using Rose.induct with
  | step i ts ih =>
      have hchildren : ∀ t ∈ ts, Storable w t := by
        cases h with
        | node _ _ _ _ _ _ hchildren => exact hchildren
      rw [comesBack_node_iff w g hg [] i ts h, readAbilities_nil, Rose.flatten_node,
        eq_comm (b := i.abilities)]
      constructor
      · rintro ⟨hroot, hts⟩ j hj
        rcases List.mem_cons.mp hj with rfl | hmem
        · exact hroot
        · obtain ⟨t, ht, hjt⟩ := List.mem_flatMap.mp hmem
          exact (ih t ht (hchildren t ht)).mp (hts t ht) j hjt
      · intro hall
        refine ⟨hall i List.mem_cons_self, fun t ht => (ih t ht (hchildren t ht)).mpr ?_⟩
        intro j hj
        exact hall j (List.mem_cons_of_mem i (List.mem_flatMap.mpr ⟨t, ht, hj⟩))

/-! ## Tiles -/

/-- An item tree of a house tile that is saved whole and created anew when it
is loaded, among the down items. -/
structure OnTile (t : ItemTree) : Prop where
  storable : Storable w t
  saved : (t.label.type w).moveable ∨ (t.label.type w).forceSerialize
  notGround : (t.label.type w).isGroundTile = false
  notOnTop : (t.label.type w).alwaysOnTop = false

theorem loadTileItem_saveItem (t : ItemTree) (ht : OnTile w t) (hno : ¬HasLocker w t) (fuel : Nat)
    (hfuel : (saveItem w t).data.length ≤ fuel) (tile : Tile)
    (hroom : tile.getItemList.length < 0xFFFF) {a : List UInt8} (ha : AbilityStream a)
    (d : List UInt8) :
    loadTileItem w g fuel tile ⟨(saveItem w t).data ++ d, a⟩ =
      ({ tile with
          downItems := (startDecaying w g (loadedTree w a t)).toList ++ tile.downItems },
        ⟨d, []⟩) := by
  cases t with
  | node i ts =>
      obtain ⟨hstorable, hsaved, hground, htop⟩ := ht
      rw [hasLocker_node, not_or] at hno
      have hload : ∀ u ∈ ts, ∀ d, loadItem w fuel ⟨(saveItem w u).data ++ d, []⟩ =
          ⟨true, some (u.map (loadedItem w [])), ⟨d, []⟩⟩ := by
        intro u hmem d
        have hlt := length_saveItem_lt w i ts u hmem (isContainer_of_mem w hstorable hmem)
        have hu : ¬HasLocker w u := fun h => hno.2 ⟨u, hmem, h⟩
        cases hstorable with
        | node _ _ _ _ _ _ hchildren =>
            exact loadItem_saveItem w u (hchildren u hmem) hu fuel (by omega) d
      obtain ⟨data, hdata, hnew⟩ := loadNewItem_saveItem w i ts hstorable hno.1 _ hload ha d
      have hmod : i.id.toNat % 256 ^ 2 = i.id.toNat := Nat.mod_eq_of_lt i.id.isLt
      have htype : (w.itemType i.id).moveable || (w.itemType i.id).forceSerialize := by
        simpa [Item.type] using hsaved
      have hloaded : (loadedTree w a (.node i ts)).label.type w = i.type w :=
        type_eq (loadedItem_id w a i)
      rw [loadTileItem, hdata, List.append_assoc, readLE_encodeLE, hmod]
      simp only [BitVec.ofNat_toNat, BitVec.setWidth_eq, htype, if_true, hnew]
      rw [Tile.internalAddThing, hloaded]
      simp only [Rose.label_node] at hground htop
      rw [hground, htop, if_neg (by decide), if_neg (by omega), if_neg (by decide)]

theorem Tile.length_le (tile : Tile) (o : Option ItemTree) :
    ({ tile with downItems := o.toList ++ tile.downItems } : Tile).getItemList.length ≤
      tile.getItemList.length + 1 := by
  cases o with
  | none => simp [Tile.getItemList]
  | some t =>
      simp only [Tile.getItemList, Option.toList_some, List.length_append, List.length_singleton]
      omega

/-- The loop over the items that are read after the first. -/
theorem loadItems_saveReversed (ts : List ItemTree) (hts : ∀ t ∈ ts, OnTile w t)
    (hno : ∀ t ∈ ts, ¬HasLocker w t) (fuel : Nat) (hfuel : (saveReversed w ts).data.length ≤ fuel) (tile : Tile)
    (hroom : tile.getItemList.length + ts.length ≤ 0xFFFF) (d : List UInt8) :
    loadItems w g fuel ts.length tile ⟨(saveReversed w ts).data ++ d, []⟩ =
      ({ tile with
          downItems := (ts.map (loadedTree w [])).filterMap (startDecaying w g) ++ tile.downItems },
        ⟨d, []⟩) := by
  induction ts using List.reverseRecOn generalizing tile with
  | nil => rfl
  | append_singleton ts t ih =>
      rw [saveReversed_append, saveReversed_singleton] at hfuel ⊢
      rw [Streams.data_append, List.length_append] at hfuel
      rw [List.length_append, List.length_singleton] at hroom ⊢
      rw [loadItems, Streams.data_append, List.append_assoc,
        loadTileItem_saveItem w g t (hts t (by simp)) (hno t (by simp)) fuel (by omega) tile
          (by omega) abilityStream_nil]
      have hlen := Tile.length_le tile (startDecaying w g (loadedTree w [] t))
      dsimp only
      rw [ih (fun u hu => hts u (by simp [hu])) (fun u hu => hno u (by simp [hu])) (by omega) _
        (by omega)]
      cases h : startDecaying w g (loadedTree w [] t) with
      | none => simp [h]
      | some u => simp [h]

/-- The items of a house tile: as many as a tile takes. -/
structure OnHouseTile (L : List ItemTree) : Prop where
  size : L.length ≤ 0xFFFF
  onTile : ∀ t ∈ L, OnTile w t

/-- Every item but the one that is written first, the last of the list. -/
def laterItems (L : List ItemTree) : List Item :=
  L.dropLast.flatMap Rose.flatten ++
    (L.getLast?.elim [] fun t => t.children.flatMap Rose.flatten)

theorem laterItems_append (ts : List ItemTree) (i : Item) (us : List ItemTree) :
    laterItems (ts ++ [.node i us]) = ts.flatMap Rose.flatten ++ us.flatMap Rose.flatten := by
  rw [laterItems, List.dropLast_concat, List.getLast?_concat]
  rfl

theorem readPosition_encode (pos : Position) (rest : List UInt8) :
    readPosition (encodeLE 2 pos.x.toNat ++ (encodeLE 2 pos.y.toNat ++
      (encodeLE 1 pos.z.toNat ++ rest))) = some (pos, rest) := by
  simp [readPosition, ofNat_mod_16, ofNat_mod_8]

theorem isSaved_of_onTile {t : ItemTree} (h : OnTile w t) : isSaved w t = true := by
  unfold isSaved
  rcases h.saved with hm | hf
  · simp [hm]
  · simp [hf]

/-- A row that was written for a tile is read by the loop over its items. -/
theorem loadRow_eq (L : List ItemTree) (h : OnHouseTile w L) (hne : L ≠ []) (pos : Position)
    (tiles : Tiles) (ground ground' : Option ItemTree)
    (hpos : tiles pos = some { ground := ground' }) :
    loadRow w g tiles (saveTile w pos { ground := ground, downItems := L }) pos =
      some (loadItems w g (saveReversed w L).data.length L.length { ground := ground' }
        ⟨(saveReversed w L).data, (saveReversed w L).abilities⟩).1 := by
  have hsize := h.size
  have hfilter : ({ ground := ground, downItems := L } : Tile).getItemList.filter (isSaved w) =
      L := by
    rw [Tile.getItemList, List.append_nil, List.filter_eq_self]
    intro u hu
    exact isSaved_of_onTile w (h.onTile u hu)
  have hcount : (BitVec.ofNat 16 L.length).toNat % 256 ^ 4 = L.length := by
    rw [BitVec.toNat_ofNat]
    omega
  have hsave : saveTile w pos { ground := ground, downItems := L } =
      ⟨encodeLE 2 pos.x.toNat ++ (encodeLE 2 pos.y.toNat ++ (encodeLE 1 pos.z.toNat ++
        (encodeLE 4 (BitVec.ofNat 16 L.length).toNat ++ (saveReversed w L).data))),
        (saveReversed w L).abilities⟩ := by
    have hempty : L.isEmpty = false := by
      rw [List.isEmpty_eq_false_iff]
      exact hne
    rw [saveTile, hfilter]
    simp only [hempty, Bool.false_eq_true, if_false]
    ext1
    · simp
    · simp
  rw [hsave, loadRow]
  simp only [readPosition_encode, hpos, readLE_encodeLE, hcount, Function.update_self]

/-- The tile that is loaded from what was saved: the last item, which is read
first, takes the stream of abilities. -/
theorem loadRow_saveTile (ts : List ItemTree) (t : ItemTree) (h : OnHouseTile w (ts ++ [t]))
    (hno : ∀ u ∈ ts ++ [t], ¬HasLocker w u) (pos : Position) (tiles : Tiles) (ground ground' : Option ItemTree)
    (hpos : tiles pos = some { ground := ground' }) :
    loadRow w g tiles (saveTile w pos { ground := ground, downItems := ts ++ [t] }) pos =
      some { ground := ground', downItems :=
        (ts.map (loadedTree w [])).filterMap (startDecaying w g) ++
          (startDecaying w g
            (loadedTree w (saveReversed w (ts ++ [t])).abilities t)).toList } := by
  have hsize := h.size
  rw [List.length_append, List.length_singleton] at hsize
  have hlen : (ts ++ [t]).length = ts.length + 1 := by simp
  have habil : AbilityStream (saveReversed w (ts ++ [t])).abilities := by
    have : AbilityStream ((saveReversed w (ts ++ [t])).abilities ++ []) :=
      abilityStream_saveReversed w (fun u _ a ha => abilityStream_saveItem w u ha) abilityStream_nil
    rwa [List.append_nil] at this
  rw [loadRow_eq w g _ h (by simp) pos tiles ground ground' hpos, hlen]
  generalize (saveReversed w (ts ++ [t])).abilities = a at habil ⊢
  rw [saveReversed_append, saveReversed_singleton, Streams.data_append, loadItems,
    loadTileItem_saveItem w g t (h.onTile t (by simp)) (hno t (by simp)) _ (by simp) _
      (by simp [Tile.getItemList]) habil]
  dsimp only
  have hlater := loadItems_saveReversed w g ts (fun u hu => h.onTile u (by simp [hu]))
    (fun u hu => hno u (by simp [hu]))
    ((saveItem w t).data ++ (saveReversed w ts).data).length (by simp)
    { ground := ground', downItems := (startDecaying w g (loadedTree w a t)).toList ++ [] }
    (by
      have hlen := Tile.length_le { ground := ground' } (startDecaying w g (loadedTree w a t))
      simp only [Tile.getItemList, List.length_nil, List.append_nil] at hlen ⊢
      omega) []
  rw [List.append_nil, List.append_nil] at hlater
  rw [List.append_nil, hlater]

/-! ## Lost items -/

theorem Tile.length_set (tile : Tile) (index : Nat) (t : ItemTree) :
    (tile.set index t).getItemList.length = tile.getItemList.length := by
  simp only [Tile.set, Tile.getItemList, List.length_append, List.length_take, List.length_drop,
    List.length_set]
  omega

theorem Tile.internalAddThing_length_le (tile : Tile) (t : ItemTree) (put : Option ItemTree) :
    (tile.internalAddThing w t put).getItemList.length ≤ tile.getItemList.length + 1 := by
  have hput : put.toList.length ≤ 1 := by
    cases put with
    | none => simp
    | some u => simp
  unfold Tile.internalAddThing
  dsimp only
  split
  · split
    · exact Nat.le_succ _
    · exact Nat.le_succ _
  · split
    · exact Nat.le_succ _
    · split
      · have hsplit := congrArg List.length (List.takeWhile_append_dropWhile
          (p := fun u : ItemTree =>
            decide ((u.label.type w).alwaysOnTopOrder ≤ (t.label.type w).alwaysOnTopOrder))
          (l := tile.topItems))
        rw [List.length_append] at hsplit
        simp only [Tile.getItemList, List.length_append]
        omega
      · exact Tile.length_le tile put

theorem loadStationary_length (fuel : Nat) (id : BitVec 16) (tile : Tile) (s : Streams) :
    (loadStationary w g fuel id tile s).1.getItemList.length = tile.getItemList.length := by
  unfold loadStationary
  dsimp only
  split
  · split
    · split
      · split
        · exact Tile.length_set _ _ _
        · exact Tile.length_set _ _ _
      · exact Tile.length_set _ _ _
    · exact Tile.length_set _ _ _
  · split
    · rfl
    · split
      · rfl
      · rfl

/-- Whatever the stream holds, `loadItem` adds at most one item. -/
theorem loadTileItem_length_le (fuel : Nat) (tile : Tile) (s : Streams) :
    (loadTileItem w g fuel tile s).1.getItemList.length ≤ tile.getItemList.length + 1 := by
  unfold loadTileItem
  split
  · exact Nat.le_succ _
  · dsimp only
    split
    · split
      · exact Tile.internalAddThing_length_le w _ _ _
      · exact Nat.le_succ _
    · have := loadStationary_length w g fuel
      rw [this]
      exact Nat.le_succ _

theorem loadItems_length_le (fuel n : Nat) (tile : Tile) (s : Streams) :
    (loadItems w g fuel n tile s).1.getItemList.length ≤ tile.getItemList.length + n := by
  induction n generalizing tile s with
  | zero => exact le_refl _
  | succ n ih =>
      have hone := loadTileItem_length_le w g fuel tile s
      have hrest := ih (loadTileItem w g fuel tile s).1 (loadTileItem w g fuel tile s).2
      rw [loadItems]
      omega

/-- A tree with a depot locker in it adds nothing. -/
theorem loadTileItem_locker (t : ItemTree) (ht : OnTile w t) (hlocker : HasLocker w t) (fuel : Nat)
    (hfuel : (saveItem w t).data.length ≤ fuel) (tile : Tile) {a : List UInt8}
    (ha : AbilityStream a) (d : List UInt8) :
    (loadTileItem w g fuel tile ⟨(saveItem w t).data ++ d, a⟩).1 = tile := by
  cases t with
  | node i ts =>
      obtain ⟨hstorable, hsaved, _, _⟩ := ht
      have hchildren : ∀ u ∈ ts, Storable w u := by
        cases hstorable with
        | node _ _ _ _ _ _ hchildren => exact hchildren
      have hlt : ∀ u ∈ ts, (saveItem w u).data.length ≤ fuel := by
        intro u hu
        have := length_saveItem_lt w i ts u hu (isContainer_of_mem w hstorable hu)
        omega
      obtain ⟨data, hdata, _, hnew⟩ := loadNewItem_locker w i ts hstorable hlocker (loadItem w fuel)
        (fun u hu hno d => loadItem_saveItem w u (hchildren u hu) hno fuel (hlt u hu) d)
        (fun u hu hyes d => loadItem_locker w u (hchildren u hu) hyes fuel (hlt u hu) d) ha d
      have hmod : i.id.toNat % 256 ^ 2 = i.id.toNat := Nat.mod_eq_of_lt i.id.isLt
      have htype : (w.itemType i.id).moveable || (w.itemType i.id).forceSerialize := by
        simpa [Item.type] using hsaved
      rw [loadTileItem, hdata, List.append_assoc, readLE_encodeLE, hmod]
      simp only [BitVec.ofNat_toNat, BitVec.setWidth_eq, htype, if_true, hnew]

/-- The items that are read after a lost one cannot make up for it. -/
theorem loadItems_locker (ts : List ItemTree) (hts : ∀ t ∈ ts, OnTile w t)
    (hlocker : ∃ t ∈ ts, HasLocker w t) (fuel : Nat)
    (hfuel : (saveReversed w ts).data.length ≤ fuel) (tile : Tile)
    (hroom : tile.getItemList.length + ts.length ≤ 0xFFFF) {a : List UInt8}
    (ha : AbilityStream a) (d : List UInt8) :
    (loadItems w g fuel ts.length tile ⟨(saveReversed w ts).data ++ d, a⟩).1.getItemList.length <
      tile.getItemList.length + ts.length := by
  induction ts using List.reverseRecOn generalizing tile a with
  | nil =>
      obtain ⟨t, ht, _⟩ := hlocker
      exact absurd ht List.not_mem_nil
  | append_singleton ts t ih =>
      rw [saveReversed_append, saveReversed_singleton] at hfuel ⊢
      rw [Streams.data_append, List.length_append] at hfuel
      rw [List.length_append, List.length_singleton] at hroom ⊢
      rw [loadItems, Streams.data_append, List.append_assoc]
      by_cases ht : HasLocker w t
      · rw [loadTileItem_locker w g t (hts t (by simp)) ht fuel (by omega) tile ha]
        have := loadItems_length_le w g fuel ts.length tile
          (loadTileItem w g fuel tile
            ⟨(saveItem w t).data ++ ((saveReversed w ts).data ++ d), a⟩).2
        omega
      · have hrest : ∃ u ∈ ts, HasLocker w u := by
          obtain ⟨u, hu, h⟩ := hlocker
          rcases List.mem_append.mp hu with hmem | hmem
          · exact ⟨u, hmem, h⟩
          · rw [List.mem_singleton.mp hmem] at h
            exact absurd h ht
        rw [loadTileItem_saveItem w g t (hts t (by simp)) ht fuel (by omega) tile (by omega) ha]
        have hlen := Tile.length_le tile (startDecaying w g (loadedTree w a t))
        have := ih (fun u hu => hts u (by simp [hu])) hrest (by omega)
          { tile with
            downItems := (startDecaying w g (loadedTree w a t)).toList ++ tile.downItems }
          (by omega) abilityStream_nil
        dsimp only
        omega

/-- The whole list comes back exactly if every tree does. -/
theorem map_core_append_iff (ts : List ItemTree) (t : ItemTree) (a : List UInt8) :
    ((ts.map (loadedTree w [])).filterMap (startDecaying w g) ++
        (startDecaying w g (loadedTree w a t)).toList).map (Rose.map (core w)) =
      (ts ++ [t]).map (Rose.map (core w)) ↔
      (∀ u ∈ ts, ComesBack w g (loadedTree w []) u) ∧ ComesBack w g (loadedTree w a) t := by
  have hlast : ((startDecaying w g (loadedTree w a t)).toList).map (Rose.map (core w)) =
      [t.map (core w)] ↔ ComesBack w g (loadedTree w a) t := by
    rw [ComesBack]
    cases startDecaying w g (loadedTree w a t) with
    | none => simp
    | some u => simp
  rw [← filterMap_startDecaying_iff, ← hlast, List.map_append, List.map_append, List.map_singleton]
  constructor
  · intro h
    have hlen := congrArg List.length h
    have hle := List.length_filterMap_le (startDecaying w g) (ts.map (loadedTree w []))
    have hle1 : (startDecaying w g (loadedTree w a t)).toList.length ≤ 1 := by
      cases startDecaying w g (loadedTree w a t) with
      | none => simp
      | some u => simp
    simp only [List.length_append, List.length_map, List.length_singleton] at hlen hle
    exact List.append_inj h (by rw [List.length_map, List.length_map]; omega)
  · rintro ⟨h1, h2⟩
    rw [h1, h2]

theorem hasLocker_iff (L : List ItemTree) :
    (∃ t ∈ L, HasLocker w t) ↔
      ¬∀ i ∈ L.flatMap Rose.flatten, (i.type w).itemClass ≠ .depotLocker := by
  simp only [HasLocker, List.mem_flatMap]
  constructor
  · rintro ⟨t, ht, i, hi, hclass⟩ h
    exact h i ⟨t, ht, hi⟩ hclass
  · intro h
    by_contra hno
    refine h fun i hi hclass => ?_
    obtain ⟨t, ht, hit⟩ := hi
    exact hno ⟨t, ht, i, hit, hclass⟩

/-- All trees of a list come back after the first has been read: none has
abilities. -/
theorem forall_comesBack_iff (hg : g.Decays) (ts : List ItemTree) (hts : ∀ t ∈ ts, Storable w t) :
    (∀ t ∈ ts, ComesBack w g (loadedTree w []) t) ↔
      ∀ i ∈ ts.flatMap Rose.flatten, RoundTrips w i ∧ i.abilities = fun _ => none := by
  simp only [List.mem_flatMap]
  constructor
  · rintro h j ⟨u, hu, hj⟩
    exact (comesBack_iff w g hg u (hts u hu)).mp (h u hu) j hj
  · intro h u hu
    exact (comesBack_iff w g hg u (hts u hu)).mpr fun j hj => h j ⟨u, hu, hj⟩

/-- If only the item that is written first has abilities, it reads its own. -/
theorem readAbilities_own (ts : List ItemTree) (i : Item) (us : List ItemTree)
    (hts : ∀ j ∈ ts.flatMap Rose.flatten, j.abilities = fun _ => none)
    (hus : ∀ j ∈ us.flatMap Rose.flatten, j.abilities = fun _ => none) :
    readAbilities w (saveReversed w (ts ++ [.node i us])).abilities i = i.abilities := by
  have hbytes : (saveReversed w (ts ++ [.node i us])).abilities = i.serializeAbility := by
    rw [saveReversed_append, saveReversed_singleton, Streams.abilities_append,
      saveReversed_abilities_nil w ts hts, List.append_nil, saveItem]
    split
    · simp [saveReversed_abilities_nil w us hus]
    · simp
  rw [hbytes, readAbilities, unserializeAbility_serializeAbility i _ (Item.newItem_rest w i.id 0).2]

/-- A saved house tile is loaded as it was exactly if there is no depot locker
among the items, no item but the one that is written first has abilities, and
every item round-trips by itself. -/
theorem loadHouseItems_saveTile (hg : g.Decays) (L : List ItemTree) (hL : OnHouseTile w L)
    (pos : Position) (tiles : Tiles) (ground ground' : Option ItemTree)
    (hpos : tiles pos = some { ground := ground' }) :
    (∃ tile, loadHouseItems w g [saveTile w pos { ground := ground, downItems := L }] tiles pos =
        some tile ∧
      tile.getItemList.map (Rose.map (core w)) = L.map (Rose.map (core w))) ↔
      (∀ i ∈ L.flatMap Rose.flatten, (i.type w).itemClass ≠ .depotLocker) ∧
        (∀ i ∈ laterItems L, i.abilities = fun _ => none) ∧
        ∀ i ∈ L.flatMap Rose.flatten, RoundTrips w i := by
  show (∃ tile, loadRow w g tiles _ pos = some tile ∧ _) ↔ _
  rcases List.eq_nil_or_concat L with rfl | ⟨ts, t, rfl⟩
  · have hnil : saveTile w pos { ground := ground } = {} := rfl
    have hload : loadRow w g tiles {} = tiles := rfl
    rw [hnil, hload, hpos]
    simp [Tile.getItemList, laterItems]
  rw [List.concat_eq_append] at hL ⊢
  have habil : AbilityStream (saveReversed w (ts ++ [t])).abilities := by
    have : AbilityStream ((saveReversed w (ts ++ [t])).abilities ++ []) :=
      abilityStream_saveReversed w (fun u _ a ha => abilityStream_saveItem w u ha) abilityStream_nil
    rwa [List.append_nil] at this
  by_cases hlocker : ∃ u ∈ ts ++ [t], HasLocker w u
  · -- something is lost, so that the tile has fewer items
    refine iff_of_false ?_ fun h => (hasLocker_iff w _).mp hlocker h.1
    rintro ⟨tile, hload, hcore⟩
    rw [loadRow_eq w g _ hL (by simp) pos tiles ground ground' hpos] at hload
    have hless := loadItems_locker w g (ts ++ [t]) hL.onTile hlocker
      (saveReversed w (ts ++ [t])).data.length (le_refl _) { ground := ground' }
      (by simpa [Tile.getItemList] using hL.size) habil []
    rw [List.append_nil, Option.some.inj hload] at hless
    have hlen := congrArg List.length hcore
    rw [List.length_map, List.length_map] at hlen
    have hempty : ({ ground := ground' } : Tile).getItemList.length = 0 := rfl
    omega
  · have hclass := hlocker
    rw [hasLocker_iff, not_not] at hclass
    have hno : ∀ u ∈ ts ++ [t], ¬HasLocker w u := fun u hu h => hlocker ⟨u, hu, h⟩
    cases t with
    | node i us =>
        have hon := hL.onTile (.node i us) (by simp)
        have hts : ∀ u ∈ ts, Storable w u := fun u hu => (hL.onTile u (by simp [hu])).storable
        have hus : ∀ u ∈ us, Storable w u := by
          cases hon.storable with
          | node _ _ _ _ _ _ hchildren => exact hchildren
        rw [loadRow_saveTile w g ts (.node i us) hL hno pos tiles ground ground' hpos]
        simp only [Option.some.injEq, exists_eq_left', Tile.getItemList, List.append_nil]
        rw [map_core_append_iff, comesBack_node_iff w g hg _ i us hon.storable, laterItems_append,
          forall_comesBack_iff w g hg ts hts, forall_comesBack_iff w g hg us hus,
          and_iff_right hclass]
        simp only [List.flatMap_append, List.flatMap_singleton, Rose.flatten_node, List.mem_append,
          List.mem_cons]
        constructor
        · rintro ⟨h1, ⟨⟨hroot, _⟩, h2⟩⟩
          constructor
          · rintro j (hj | hj)
            · exact (h1 j hj).2
            · exact (h2 j hj).2
          · rintro j (hj | rfl | hj)
            · exact (h1 j hj).1
            · exact hroot
            · exact (h2 j hj).1
        · rintro ⟨h1, h2⟩
          refine ⟨fun j hj => ⟨h2 j (.inl hj), h1 j (.inl hj)⟩, ⟨h2 i (.inr (.inl rfl)), ?_⟩,
            fun j hj => ⟨h2 j (.inr (.inr hj)), h1 j (.inr hj)⟩⟩
          exact readAbilities_own w ts i us (fun j hj => h1 j (.inl hj)) fun j hj =>
            h1 j (.inr hj)

/-! ## Two items with abilities -/

/-- An item table with one type, a weapon. -/
def swordWorld : World where
  itemType id := if id = 2400 then { id := 2400, group := .weapon, moveable := true } else {}
  addUniqueItem _ := false
  getNameByGuid _ := []

/-- A sword with one ability. -/
def sword : Item := { id := 2400, abilities := fun a => if a = 0 then some 7 else none }

/-- A game in which what decays goes away. -/
def plainGame : Game where
  internalDecayItem _ := none
  transformItem i id := { i with id := id }

/-- A map with one tile that is empty. -/
def oneTile : Tiles := fun pos => if pos = ⟨100, 100, 7⟩ then some {} else none

theorem onTile_sword : OnTile swordWorld (.node sword []) where
  storable := by
    refine .node sword [] (by decide) (fun _ => rfl) (by decide) ?_ ?_
    · intro c hc
      exact absurd hc (by simp [sword])
    · intro t ht
      exact absurd ht List.not_mem_nil
  saved := .inl rfl
  notGround := rfl
  notOnTop := rfl

theorem roundTrips_sword : RoundTrips swordWorld sword := by
  constructor
  · change Kept swordWorld sword
    refine ⟨⟨?_, ?_, ?_, ?_, ?_, ?_, ?_, ?_⟩, fun k _ => rfl⟩
    · exact ⟨rfl, rfl, rfl⟩
    · intro v hv
      exact absurd hv (by simp [sword])
    · simp [sword]
    · rfl
    · intro v hv
      exact absurd hv (by simp [sword])
    · intro v hv
      exact absurd hv (by simp [sword])
    · intro k v hv
      exact absurd hv (by simp [sword])
    · intro c hc
      exact absurd hc (by simp [sword])
  · rfl

/-- One sword comes back with its ability. -/
theorem loadHouseItems_saveTile_sword :
    ∃ tile, loadHouseItems swordWorld plainGame
        [saveTile swordWorld ⟨100, 100, 7⟩ { ground := none, downItems := [.node sword []] }]
        oneTile ⟨100, 100, 7⟩ = some tile ∧
      tile.getItemList.map (Rose.map (core swordWorld)) =
        [Rose.node sword []].map (Rose.map (core swordWorld)) := by
  refine (loadHouseItems_saveTile swordWorld plainGame ?_ [.node sword []] ⟨by decide, ?_⟩
    ⟨100, 100, 7⟩ oneTile none none rfl).mpr ⟨?_, ?_⟩
  · intro i j hj
    exact absurd hj (by simp [plainGame])
  · intro t ht
    rw [List.mem_singleton.mp ht]
    exact onTile_sword
  · intro i hi
    rw [List.mem_singleton.mp hi]
    decide
  refine ⟨?_, ?_⟩
  · intro i hi
    exact absurd hi List.not_mem_nil
  · intro i hi
    rw [List.mem_singleton.mp hi]
    exact roundTrips_sword

/-- Of two swords one comes back without its ability. -/
theorem loadHouseItems_two_swords :
    OnHouseTile swordWorld [.node sword [], .node sword []] ∧ plainGame.Decays ∧
    ¬∃ tile, loadHouseItems swordWorld plainGame
        [saveTile swordWorld ⟨100, 100, 7⟩
          { ground := none, downItems := [.node sword [], .node sword []] }]
        oneTile ⟨100, 100, 7⟩ = some tile ∧
      tile.getItemList.map (Rose.map (core swordWorld)) =
        [Rose.node sword [], .node sword []].map (Rose.map (core swordWorld)) := by
  have hgame : plainGame.Decays := by
    intro i j hj
    exact absurd hj (by simp [plainGame])
  have htile : OnHouseTile swordWorld ([.node sword []] ++ [.node sword []]) := by
    refine ⟨by decide, fun t ht => ?_⟩
    simp only [List.mem_append, List.mem_singleton, or_self] at ht
    rw [ht]
    exact onTile_sword
  refine ⟨htile, hgame, ?_⟩
  rintro ⟨tile, hload, hcore⟩
  have hno : ∀ u ∈ [.node sword []] ++ [.node sword []], ¬HasLocker swordWorld u := by
    intro u hu
    simp only [List.mem_append, List.mem_singleton, or_self] at hu
    rw [hu, hasLocker_node]
    simp only [List.not_mem_nil, false_and, exists_false, or_false]
    decide
  have hrow := loadRow_saveTile swordWorld plainGame [.node sword []] (.node sword []) htile hno
    ⟨100, 100, 7⟩ oneTile none none rfl
  obtain rfl := Option.some.inj (hload.symm.trans hrow)
  simp only [Tile.getItemList, List.append_nil] at hcore
  have hback := ((map_core_append_iff _ _ _ _ _).mp hcore).1 _ (List.mem_singleton_self _)
  have hnone := ((comesBack_iff _ _ hgame _ onTile_sword.storable).mp hback sword (by simp)).2
  exact absurd (congrFun hnone 0) (by decide)

end Infernum.IOMapSerialize
