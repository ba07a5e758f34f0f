import Infernum.Cylinder.Heap
import Infernum.Item.Reload

/-!
# What the market takes and gives back

The market keeps no items: it removes what is sold and creates the same number of new
ones for the buyer, or for the seller who cancels. `Item::hasMarketAttributes` is to let
only those items through that are like new ones. It looks at the attributes that are
there, so it misses those that are not, and the abilities.
-/

namespace Infernum.Market

/-- The item table with the ware ids, by which items are listed. -/
structure World extends Infernum.World where
  wareId : BitVec 16 → BitVec 16

variable (w : World)

/-! ### Selling -/

/-- `Item::hasMarketAttributes` on one integer attribute. -/
def marketAttribute (it : ItemType) (k : IntAttr) (value : BitVec 32) : Bool :=
  match k with
  | .charges =>
      let charges : BitVec 16 := value.setWidth 16
      charges.setWidth 32 == it.charges
  | .duration => value == it.getDefaultDuration
  | _ => false

/-- `Item::hasMarketAttributes`. -/
def hasMarketAttributes (i : Item) : Bool :=
  (ItemAttributes.ints.all fun k =>
    match i.attributes.int k with
    | none => true
    | some value => marketAttribute (i.type w.toWorld) k value) &&
  (ItemAttributes.strs.all fun k => (i.attributes.str k).isNone) && i.attributes.custom.isNone

/-- `getMarketItemList` puts the item on the list for a ware; whether it is a container
that is filled or has another capacity has been asked before. -/
def isListed (i : Item) (wareId : BitVec 16) : Bool :=
  w.wareId i.id == wareId && hasMarketAttributes w i

/-- The item that the market creates, of a type `itemId` that is offered. A stack is
created with `stackCount`, at most 100 of what there are. -/
def createMarketItem (itemId : BitVec 16) (stackCount : BitVec 16) : Option Item :=
  let it := w.itemType itemId
  if it.stackable then Item.createItem w.toWorld itemId stackCount
  else
    -- `int32_t subType`, which `CreateItem` takes as 16 bits
    let subType : BitVec 32 := if it.charges ≠ 0 then it.charges else -1
    Item.createItem w.toWorld itemId (subType.setWidth 16)

/-! ### Like new -/

/-- Nobody can tell the item from the new one; how many a stack has is counted apart. -/
structure Indistinguishable (i m : Item) : Prop where
  id : m.id = i.id
  subType : (i.type w.toWorld).stackable = false → m.getSubType w.toWorld = i.getSubType w.toWorld
  int : ∀ k, m.attributes.int k = i.attributes.int k
  str : ∀ k, m.attributes.str k = i.attributes.str k
  custom : m.attributes.custom = i.attributes.custom
  abilities : m.abilities = i.abilities

/-- Only pristine items are sold: what is listed for the ware of a type is, unit by unit,
what is created of the type. -/
def PristineOnly (i : Item) (itemId : BitVec 16) : Prop :=
  isListed w i (w.wareId itemId) = true →
    ∀ stackCount : BitVec 16, 1 ≤ stackCount.toNat → stackCount.toNat ≤ 100 →
      ∃ m, createMarketItem w itemId stackCount = some m ∧ Indistinguishable w i m

/-- The item has no attribute but charges and a duration, both as new. -/
structure Unmarked (i : Item) : Prop where
  charges : ∀ v, i.attributes.int .charges = some v →
    v.toNat % 2 ^ 16 = (i.type w.toWorld).charges.toNat
  duration : ∀ v, i.attributes.int .duration = some v →
    v = (i.type w.toWorld).getDefaultDuration
  int : ∀ k, k ≠ .charges → k ≠ .duration → i.attributes.int k = none
  str : ∀ k, i.attributes.str k = none
  custom : i.attributes.custom = none

/-- The type has charges as an attribute of its items. -/
def hasCharges (it : ItemType) : Bool := !it.holdsFluid && !it.stackable && it.charges != 0

/-- What an unmarked item must have, and must not have, to be like a new one of the type. -/
structure LikeNew (i : Item) (itemId : BitVec 16) : Prop where
  id : i.id = itemId
  known : (w.itemType itemId).known = true
  notBed : (w.itemType itemId).itemClass ≠ .bed
  dry : (w.itemType itemId).holdsFluid = false
  charges : i.attributes.int .charges =
    if hasCharges (w.itemType itemId) then some (w.itemType itemId).charges else none
  duration : i.attributes.int .duration = Item.defaultDuration (w.itemType itemId)
  abilities : ∀ a, i.abilities a = none
  count : (w.itemType itemId).stackable = false → (w.itemType itemId).charges = 0 → i.count = 1

variable {w}

theorem marketAttribute_charges (it : ItemType) (v : BitVec 32) :
    marketAttribute it .charges v = true ↔ v.toNat % 2 ^ 16 = it.charges.toNat := by
  simp only [marketAttribute, beq_iff_eq, ← BitVec.toNat_inj, BitVec.toNat_setWidth]
  omega

theorem hasMarketAttributes_iff (i : Item) : hasMarketAttributes w i = true ↔ Unmarked w i := by
  have htest : ∀ k, (match i.attributes.int k with
      | none => true
      | some value => marketAttribute (i.type w.toWorld) k value) = true ↔
        ∀ v, i.attributes.int k = some v → marketAttribute (i.type w.toWorld) k v = true := by
    intro k
    cases i.attributes.int k <;> simp
  simp only [hasMarketAttributes, Bool.and_eq_true, List.all_eq_true, htest,
    Option.isNone_iff_eq_none]
  constructor
  · rintro ⟨⟨hint, hstr⟩, hcustom⟩
    refine ⟨?_, ?_, ?_, fun k => hstr k (ItemAttributes.mem_strs k), hcustom⟩
    · intro v hv
      exact (marketAttribute_charges _ v).mp (hint _ (ItemAttributes.mem_ints _) v hv)
    · intro v hv
      simpa [marketAttribute] using hint _ (ItemAttributes.mem_ints _) v hv
    · intro k hcharges hduration
      by_contra hsome
      obtain ⟨v, hv⟩ := Option.ne_none_iff_exists'.mp hsome
      have htest := hint k (ItemAttributes.mem_ints k) v hv
      cases k <;> simp [marketAttribute] at htest hcharges hduration
  · rintro ⟨hcharges, hduration, hint, hstr, hcustom⟩
    refine ⟨⟨?_, fun k _ => hstr k⟩, hcustom⟩
    intro k _ v hv
    by_cases hk : k = .charges
    · subst hk
      exact (marketAttribute_charges _ v).mpr (hcharges v hv)
    · by_cases hk' : k = .duration
      · subst hk'
        simp [marketAttribute, hduration v hv]
      · rw [hint k hk hk'] at hv
        cases hv

/-! ### The new item -/

/-- What is created of a type, but for a bed: nothing is set but the sub-type and the
duration. -/
structure Created (itemId : BitVec 16) (m : Item) : Prop where
  id : m.id = itemId
  fluid : m.attributes.int .fluidType = none ↔ (w.itemType itemId).holdsFluid = false
  charges : m.attributes.int .charges = if hasCharges (w.itemType itemId) then
    some (((w.itemType itemId).charges.setWidth 16).setWidth 32) else none
  duration : m.attributes.int .duration = Item.defaultDuration (w.itemType itemId)
  int : ∀ k, k ≠ .charges → k ≠ .duration → k ≠ .fluidType → m.attributes.int k = none
  str : ∀ k, m.attributes.str k = none
  custom : m.attributes.custom = none
  abilities : ∀ a, m.abilities a = none
  count : (w.itemType itemId).holdsFluid = false → (w.itemType itemId).stackable = false →
    (w.itemType itemId).charges = 0 → m.count = 1

theorem createMarketItem_known {itemId : BitVec 16}
    (hknown : (w.itemType itemId).known = true) (stackCount : BitVec 16) :
    ∃ count, createMarketItem w itemId stackCount =
      some (Item.newItem w.toWorld itemId count) ∧
      ((w.itemType itemId).stackable = false → (w.itemType itemId).charges ≠ 0 →
        count = (w.itemType itemId).charges.setWidth 16) := by
  unfold createMarketItem
  simp only
  split
  · rename_i hstackable
    exact ⟨stackCount, Item.createItem_known hknown _, by simp [hstackable]⟩
  · refine ⟨_, Item.createItem_known hknown _, ?_⟩
    intro _ hcharges
    rw [if_pos hcharges]

theorem created_newItem {itemId count : BitVec 16}
    (hclass : (w.itemType itemId).itemClass ≠ .bed)
    (hcount : (w.itemType itemId).stackable = false → (w.itemType itemId).charges ≠ 0 →
      count = (w.itemType itemId).charges.setWidth 16) :
    Created (w := w) itemId (Item.newItem w.toWorld itemId count) := by
  obtain ⟨c, hc, hnew⟩ := Item.newItem_eq w.toWorld itemId count hclass
  obtain ⟨hid, hstr, hcustom, habilities, hsame⟩ := Item.construct_rest w.toWorld itemId c
  rw [hnew]
  refine ⟨hid, ?_, ?_, ?_, ?_, fun k => by rw [hstr], hcustom, fun a => by rw [habilities], ?_⟩
  · rw [Item.construct_int, if_neg (by simp), Item.constructSubType_int]
    cases hfluid : (w.itemType itemId).holdsFluid <;> simp
  · rw [Item.construct_int, if_neg (by simp), Item.constructSubType_int]
    by_cases hhas : hasCharges (w.itemType itemId) = true
    · obtain ⟨⟨hfluid, hstackable⟩, hcharges⟩ : ((w.itemType itemId).holdsFluid = false ∧
          (w.itemType itemId).stackable = false) ∧ (w.itemType itemId).charges ≠ 0 := by
        simpa [hasCharges] using hhas
      have hsub : (if c ≠ 0 then c else (w.itemType itemId).charges.setWidth 16) =
          (w.itemType itemId).charges.setWidth 16 := by
        split
        · rename_i hne
          rcases hc with rfl | rfl | hyes
          · exact absurd rfl hne
          · exact hcount hstackable hcharges
          · simp [hstackable] at hyes
        · rfl
      simp only [hsub, hhas, if_true]
      refine if_neg ?_
      simp only [hfluid, hstackable, Bool.false_eq_true, false_or]
      exact hcharges
    · rw [if_neg hhas]
      refine if_pos ?_
      by_contra hno
      simp only [not_or] at hno
      simp only [hasCharges, Bool.eq_false_iff.mpr hno.1, Bool.eq_false_iff.mpr hno.2.1,
        Bool.not_false, Bool.true_and, bne_iff_ne, not_not] at hhas
      exact hno.2.2 hhas
  · rw [Item.construct_int, if_pos rfl]
  · intro k hcharges hduration hfluid
    rw [Item.construct_int, if_neg hduration, Item.constructSubType_int]
    cases k <;> simp at hcharges hfluid ⊢
  · intro hfluid hstackable hcharges
    rw [hsame]
    simp [Item.constructSubType, hfluid, hstackable, hcharges]

theorem known_of_createMarketItem {itemId stackCount : BitVec 16} {m : Item}
    (h : createMarketItem w itemId stackCount = some m) :
    (w.itemType itemId).known = true ∧ ∃ count, m = Item.newItem w.toWorld itemId count := by
  simp only [createMarketItem] at h
  split at h
  · exact ⟨(Item.known_of_createItem h).1, _, (Item.known_of_createItem h).2⟩
  · exact ⟨(Item.known_of_createItem h).1, _, (Item.known_of_createItem h).2⟩

/-- A new bed says that nobody sleeps in it. -/
theorem description_newItem_bed {itemId count : BitVec 16}
    (hbed : (w.itemType itemId).itemClass = .bed) :
    (Item.newItem w.toWorld itemId count).attributes.str .description ≠ none := by
  have hne : "Nobody is sleeping there.".toUTF8.toList ≠ [] := by decide +kernel
  rw [Item.newItem, hbed]
  show ((Item.construct w.toWorld itemId 0).internalRemoveSleeper).attributes.str .description ≠ _
  rw [Item.internalRemoveSleeper, Item.setStrAttr, if_neg hne]
  simp

/-! ### What is sold -/

/-- Charges that agree in 16 bits with those of the type, and with those of a new item. -/
theorem charges_eq {i : Item} (hunmarked : Unmarked w i) {itemId : BitVec 16}
    (hid : i.id = itemId)
    (hsame : (if hasCharges (w.itemType itemId) then
      some (((w.itemType itemId).charges.setWidth 16).setWidth 32) else none) =
        i.attributes.int .charges) :
    i.attributes.int .charges =
      if hasCharges (w.itemType itemId) then some (w.itemType itemId).charges else none := by
  subst hid
  split at hsame
  · rename_i hhas
    have hcut := hunmarked.charges _ hsame.symm
    rw [if_pos hhas, ← hsame, Option.some.injEq, ← BitVec.toNat_inj]
    simp only [BitVec.toNat_setWidth, Item.type] at hcut ⊢
    omega
  · rename_i hhas
    rw [if_neg hhas, ← hsame]

theorem likeNew_of_indistinguishable {i : Item} {itemId stackCount : BitVec 16} {m : Item}
    (hunmarked : Unmarked w i) (hm : createMarketItem w itemId stackCount = some m)
    (hsame : Indistinguishable w i m) : LikeNew w i itemId := by
  obtain ⟨hknown, new, hnew⟩ := known_of_createMarketItem hm
  have hbed : (w.itemType itemId).itemClass ≠ .bed := by
    intro hbed
    have hdescription : m.attributes.str .description = none := by
      rw [hsame.str, hunmarked.str]
    rw [hnew] at hdescription
    exact description_newItem_bed hbed hdescription
  obtain ⟨count, hm', hcount⟩ := createMarketItem_known (w := w) hknown stackCount
  obtain rfl : Item.newItem w.toWorld itemId count = m := Option.some.inj (hm'.symm.trans hm)
  have hcreated := created_newItem (w := w) hbed hcount
  have hid : i.id = itemId := hsame.id.symm.trans hcreated.id
  have hdry : (w.itemType itemId).holdsFluid = false := by
    rw [← hcreated.fluid, hsame.int, hunmarked.int _ (by simp) (by simp)]
  refine ⟨hid, hknown, hbed, hdry, ?_, ?_, ?_, ?_⟩
  · refine charges_eq hunmarked hid ?_
    rw [← hcreated.charges, hsame.int]
  · rw [← hcreated.duration, hsame.int]
  · intro a
    rw [← hsame.abilities, hcreated.abilities]
  · intro hstackable hcharges
    have hsub := hsame.subType (by rw [Item.type, hid]; exact hstackable)
    have hone := hcreated.count hdry hstackable hcharges
    simp only [Item.getSubType, Item.type, hid, hcreated.id, hdry, hstackable, hcharges,
      Bool.false_eq_true, if_false, ne_eq, not_true_eq_false, hone] at hsub
    have hcount := congrArg BitVec.toNat hsub
    simp only [BitVec.toNat_setWidth] at hcount
    rw [← BitVec.toNat_inj]
    omega

theorem indistinguishable_of_likeNew {i : Item} {itemId stackCount : BitVec 16}
    (hunmarked : Unmarked w i) (hlike : LikeNew w i itemId) :
    ∃ m, createMarketItem w itemId stackCount = some m ∧ Indistinguishable w i m := by
  obtain ⟨count, hm, hcount⟩ := createMarketItem_known (w := w) hlike.known stackCount
  have hcreated := created_newItem (w := w) hlike.notBed hcount
  have hint : ∀ k, (Item.newItem w.toWorld itemId count).attributes.int k =
      i.attributes.int k := by
    intro k
    by_cases hk : k = .charges
    · subst hk
      have hcharges := hlike.charges
      rw [hcreated.charges]
      split
      · rename_i hhas
        rw [if_pos hhas] at hcharges
        have hcut := hunmarked.charges _ hcharges
        rw [Item.type, hlike.id] at hcut
        rw [hcharges, Option.some.injEq, ← BitVec.toNat_inj]
        simp only [BitVec.toNat_setWidth]
        omega
      · rename_i hhas
        rw [hcharges, if_neg hhas]
    · by_cases hk' : k = .duration
      · subst hk'
        rw [hcreated.duration, hlike.duration]
      · rw [hunmarked.int k hk hk']
        by_cases hk'' : k = .fluidType
        · subst hk''
          exact hcreated.fluid.mpr hlike.dry
        · exact hcreated.int k hk hk' hk''
  refine ⟨_, hm, hcreated.id.trans hlike.id.symm, ?_, hint, ?_, ?_, ?_⟩
  · intro hstackable
    rw [Item.type, hlike.id] at hstackable
    simp only [Item.getSubType, Item.type, hlike.id, hcreated.id, hlike.dry, hstackable,
      Bool.false_eq_true, if_false]
    split
    · rw [Item.getCharges, Item.getCharges, Item.getIntAttr, Item.getIntAttr, hint]
    · rename_i hcharges
      have hzero : (w.itemType itemId).charges = 0 := not_not.mp hcharges
      rw [hcreated.count hlike.dry hstackable hzero, hlike.count hstackable hzero]
  · intro k
    rw [hcreated.str, hunmarked.str]
  · rw [hcreated.custom, hunmarked.custom]
  · funext a
    rw [hcreated.abilities, hlike.abilities]

/-- Only pristine items are sold for a type if and only if what is listed for its ware,
and has no other attribute, is like new in the rest. -/
theorem pristineOnly_iff (i : Item) (itemId : BitVec 16) : PristineOnly w i itemId ↔
    (w.wareId i.id = w.wareId itemId → Unmarked w i → LikeNew w i itemId) := by
  have hlisted : isListed w i (w.wareId itemId) = true ↔
      w.wareId i.id = w.wareId itemId ∧ Unmarked w i := by
    rw [isListed, Bool.and_eq_true, beq_iff_eq, hasMarketAttributes_iff]
  rw [PristineOnly, hlisted]
  constructor
  · intro h hware hunmarked
    obtain ⟨m, hm, hsame⟩ := h ⟨hware, hunmarked⟩ 1 (by decide) (by decide)
    exact likeNew_of_indistinguishable hunmarked hm hsame
  · rintro h ⟨hware, hunmarked⟩ stackCount _ _
    exact indistinguishable_of_likeNew hunmarked (h hware hunmarked)

/-! ### A sword -/

def swordWorld : World where
  itemType id := if id = 2400 then { id := 2400, moveable := true } else {}
  addUniqueItem _ := true
  getNameByGuid _ := []
  wareId id := id

/-- A sword with an `ITEM_ABILITY_SUPPORTHEALING` of its own. -/
def blessedSword : Item :=
  { id := 2400, abilities := Function.update (fun _ => none) 49 (some 10) }

/-- It is listed, and what is created for it has no ability. -/
theorem blessedSword_sold :
    hasMarketAttributes swordWorld blessedSword = true ∧
    ¬ PristineOnly swordWorld blessedSword 2400 := by
  refine ⟨by decide, ?_⟩
  intro h
  obtain ⟨m, hm, hsame⟩ := h (by decide) 1 (by decide) (by decide)
  have habilities := congrFun hsame.abilities 49
  obtain rfl : Item.newItem swordWorld.toWorld 2400 65535 = m := Option.some.inj hm
  rw [(Item.newItem_rest swordWorld.toWorld 2400 65535).2] at habilities
  simp [blessedSword] at habilities

end Infernum.Market
