import Infernum.Inventory.Search
import Infernum.Transform.TransformItem

/-!
# What a shop would buy

`sendSaleItemList` tells the client how many units of each item a shop would buy. A small shop
counts the inventory for each entry, a large one counts all items once and looks at the
sub-type afterwards: for fluids it sends the number of the fluid in place of the count.
-/

namespace Infernum.Shop

open Inventory

/-- `ShopInfo`, as far as selling reads it. -/
structure ShopInfo where
  itemId : BitVec 16
  subType : BitVec 32 := 0
  sellPrice : BitVec 32 := 0
  deriving DecidableEq

/-- The counts of a map; what is not in it counts zero. -/
abbrev CountMap := BitVec 16 → BitVec 32

/-- `countMap[itemId] += count` -/
def CountMap.add (countMap : CountMap) (itemId : BitVec 16) (count : BitVec 32) : CountMap :=
  Function.update countMap itemId (countMap itemId + count)

variable (w : World)

/-- One slot of the count of all items. -/
def countAllSlot (countMap : CountMap) (slot : Option Held) : CountMap :=
  match slot with
  | none => countMap
  | some item =>
    (iterator item).foldl
      (fun countMap e => countMap.add e.object.id (countByType w e.object (-1)))
      (countMap.add item.label.object.id (countByType w item.label.object (-1)))

/-- `Player::getAllItemTypeCount`. -/
def getAllItemTypeCount (p : Player) (countMap : CountMap) : CountMap :=
  p.slots.foldl (countAllSlot w) countMap

/-- The sub-type that an entry asks for, in eight bits: -1 for any. -/
def ShopInfo.subtype (shopInfo : ShopInfo) : Int :=
  let itemType := w.itemType shopInfo.itemId
  if itemType.hasSubType ∧ itemType.stackable = false then
    if shopInfo.subType = 0 then -1 else (shopInfo.subType.setWidth 8).toInt
  else -1

/-- What a small shop counts for an entry. -/
def smallCount (p : Player) (shopInfo : ShopInfo) : BitVec 32 :=
  p.getItemTypeCount w shopInfo.itemId (shopInfo.subtype w)

/-- What a large shop counts for an entry. -/
def largeCount (p : Player) (tempSaleMap : CountMap) (shopInfo : ShopInfo) : BitVec 32 :=
  let itemType := w.itemType shopInfo.itemId
  let subtype := shopInfo.subtype w
  if subtype ≠ -1 then
    if itemType.holdsFluid = false then p.getItemTypeCount w shopInfo.itemId subtype
    else .ofInt 32 subtype
  else tempSaleMap shopInfo.itemId

/-- One entry of the loop: items without a price are not bought, and only counts above zero are
entered. -/
def enter (count : ShopInfo → BitVec 32) (saleMap : CountMap) (shopInfo : ShopInfo) : CountMap :=
  if shopInfo.sellPrice = 0 then saleMap
  else if count shopInfo = 0 then saleMap
  else Function.update saleMap shopInfo.itemId (count shopInfo)

def smallSaleMap (p : Player) (shop : List ShopInfo) : CountMap :=
  shop.foldl (enter (smallCount w p)) fun _ => 0

def largeSaleMap (p : Player) (shop : List ShopInfo) : CountMap :=
  shop.foldl (enter (largeCount w p (getAllItemTypeCount w p fun _ => 0))) fun _ => 0

/-- The money of the player and the counts that are sent, in the order of the ids. -/
structure SaleItemList where
  money : BitVec 64
  items : List (BitVec 16 × BitVec 8)

/-- `ProtocolGame::sendSaleItemList`. -/
def sendSaleItemList (money : BitVec 64) (p : Player) (shop : List ShopInfo) : SaleItemList :=
  let saleMap := if shop.length ≤ 5 then smallSaleMap w p shop else largeSaleMap w p shop
  let entered := ((List.range 65536).map (BitVec.ofNat 16)).filter fun itemId => saleMap itemId ≠ 0
  { money := money
    items := (entered.take 255).map fun itemId =>
      (itemId, .ofNat 8 (min (saleMap itemId).toNat 255)) }

variable {w}

/-! ## One pass and many searches -/

theorem add_apply (countMap : CountMap) (id itemId : BitVec 16) (count : BitVec 32) :
    countMap.add id count itemId =
      if id = itemId then countMap itemId + count else countMap itemId := by
  rw [CountMap.add]
  split
  · next h =>
    rw [h, Function.update_self]
  · next h => rw [Function.update_of_ne (Ne.symm h)]

/-- The pass over all items reads off for each id what the search for it finds. -/
theorem getAllItemTypeCount_apply (p : Player) (itemId : BitVec 16) :
    getAllItemTypeCount w p (fun _ => 0) itemId = p.getItemTypeCount w itemId (-1) := by
  have hentries : ∀ (es : List Entry) (countMap : CountMap),
      es.foldl (fun countMap e => countMap.add e.object.id (countByType w e.object (-1))) countMap
          itemId =
        es.foldl (fun count e =>
          if e.object.id = itemId then count + countByType w e.object (-1) else count)
          (countMap itemId) := by
    intro es
    induction es with
    | nil => exact fun _ => rfl
    | cons e es ih =>
      intro countMap
      rw [List.foldl_cons, List.foldl_cons, ih, add_apply]
  have hslots : ∀ (slots : Slots) (countMap : CountMap),
      slots.foldl (countAllSlot w) countMap itemId =
        slots.foldl (countSlot w itemId (-1)) (countMap itemId) := by
    intro slots
    induction slots with
    | nil => exact fun _ => rfl
    | cons slot slots ih =>
      intro countMap
      rw [List.foldl_cons, List.foldl_cons, ih]
      cases slot with
      | none => rfl
      | some item =>
        rw [countAllSlot, countSlot, hentries, add_apply]
  exact hslots p.slots fun _ => 0

/-- The sub-type that an entry names is one that only fluids have in place of a count. -/
def ShopInfo.NamesFluid (w : World) (shopInfo : ShopInfo) : Prop :=
  shopInfo.sellPrice ≠ 0 ∧ (w.itemType shopInfo.itemId).holdsFluid = true ∧
    shopInfo.subtype w ≠ -1

/-- What is counted for an entry, if anything is. -/
def counted (count : ShopInfo → BitVec 32) (shopInfo : ShopInfo) : BitVec 32 :=
  if shopInfo.sellPrice = 0 then 0 else count shopInfo

theorem largeCount_any {p : Player} {shopInfo : ShopInfo} (h : shopInfo.subtype w = -1) :
    largeCount w p (getAllItemTypeCount w p fun _ => 0) shopInfo = smallCount w p shopInfo := by
  rw [largeCount, smallCount, h, getAllItemTypeCount_apply]
  rfl

theorem largeCount_plain {p : Player} {tempSaleMap : CountMap} {shopInfo : ShopInfo}
    (hsome : shopInfo.subtype w ≠ -1) (hdry : (w.itemType shopInfo.itemId).holdsFluid = false) :
    largeCount w p tempSaleMap shopInfo = smallCount w p shopInfo := by
  rw [largeCount, smallCount]
  show (if shopInfo.subtype w ≠ -1 then _ else _) = _
  rw [if_pos hsome, if_pos hdry]

theorem largeCount_fluid {p : Player} {tempSaleMap : CountMap} {shopInfo : ShopInfo}
    (hsome : shopInfo.subtype w ≠ -1) (hfluid : (w.itemType shopInfo.itemId).holdsFluid = true) :
    largeCount w p tempSaleMap shopInfo = .ofInt 32 (shopInfo.subtype w) := by
  rw [largeCount]
  show (if shopInfo.subtype w ≠ -1 then _ else _) = _
  rw [if_pos hsome, hfluid]
  rfl

/-- **The two ways agree exactly for the fluids of which the player has as many units as the
number of the fluid.** -/
theorem saleCounts_agree_iff (w : World) (p : Player) (shop : List ShopInfo) :
    (∀ shopInfo ∈ shop,
        counted (largeCount w p (getAllItemTypeCount w p fun _ => 0)) shopInfo =
          counted (smallCount w p) shopInfo) ↔
      ∀ shopInfo ∈ shop, shopInfo.NamesFluid w →
        BitVec.ofNat 32 (p.counted w shopInfo.itemId (shopInfo.subtype w) false) =
          BitVec.ofInt 32 (shopInfo.subtype w) := by
  refine forall_congr' fun shopInfo => imp_congr_right fun _ => ?_
  rw [counted, counted, ShopInfo.NamesFluid]
  by_cases hprice : shopInfo.sellPrice = 0
  · rw [if_pos hprice, if_pos hprice]
    exact ⟨fun _ h => absurd hprice h.1, fun _ => rfl⟩
  · rw [if_neg hprice, if_neg hprice]
    by_cases hany : shopInfo.subtype w = -1
    · rw [largeCount_any hany]
      exact ⟨fun _ h => absurd hany h.2.2, fun _ => rfl⟩
    · cases hfluid : (w.itemType shopInfo.itemId).holdsFluid with
      | false =>
        rw [largeCount_plain hany hfluid]
        exact ⟨fun _ h => absurd h.2.1 Bool.false_ne_true, fun _ => rfl⟩
      | true =>
        rw [largeCount_fluid hany hfluid, smallCount, getItemTypeCount_eq]
        exact ⟨fun h _ => h.symm, fun h => (h ⟨hprice, rfl, hany⟩).symm⟩

/-- Where they agree, it does not matter which of the two a shop uses. -/
theorem saleMap_eq {p : Player} {shop : List ShopInfo}
    (h : ∀ shopInfo ∈ shop,
      counted (largeCount w p (getAllItemTypeCount w p fun _ => 0)) shopInfo =
        counted (smallCount w p) shopInfo) :
    largeSaleMap w p shop = smallSaleMap w p shop := by
  have henter : ∀ (count : ShopInfo → BitVec 32) (saleMap : CountMap) (shopInfo : ShopInfo),
      enter count saleMap shopInfo =
        if counted count shopInfo = 0 then saleMap
        else Function.update saleMap shopInfo.itemId (counted count shopInfo) := by
    intro count saleMap shopInfo
    rw [enter, counted]
    split
    · rw [if_pos rfl]
    · rfl
  refine List.foldl_ext _ _ _ fun saleMap shopInfo hmem => ?_
  rw [henter, henter, h shopInfo hmem]

/-- Vials of fluids. -/
def vialTypes : World where
  itemType _ := { group := .fluid }
  addUniqueItem _ := true
  getNameByGuid _ := []

/-- A shop that buys vials of a fluid reports five to a player who has none. -/
theorem no_vials_reported :
    ¬∀ shopInfo ∈ List.replicate 6 (⟨2006, 5, 10⟩ : ShopInfo),
      counted (largeCount vialTypes ⟨[], List.nodup_nil⟩
          (getAllItemTypeCount vialTypes ⟨[], List.nodup_nil⟩ fun _ => 0)) shopInfo =
        counted (smallCount vialTypes ⟨[], List.nodup_nil⟩) shopInfo := by
  intro h
  exact absurd (h ⟨2006, 5, 10⟩ (by decide)) (by decide)

end Infernum.Shop
