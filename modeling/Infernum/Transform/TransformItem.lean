import Infernum.Container.Container
import Infernum.Item.Reload
import Infernum.Tile.Operations

/-!
# `Game::transformItem`, for the item

What becomes of one item, whatever cylinder it lies in. What the function asks
the cylinder is in `Place`; an event that the last notification runs is a call of
its own. For an item on a tile and in a container the item that results is the
one those models come to.
-/

namespace Infernum

/-- `ItemType::hasSubType`. -/
def ItemType.hasSubType (it : ItemType) : Bool := it.holdsFluid || it.stackable || it.charges != 0

namespace Transform

/-- What the function asks the cylinder that the item lies in. -/
structure Place where
  /-- `getParent()` is not null -/
  hasParent : Bool := true
  /-- `getThingIndex` is not -1 -/
  hasIndex : Bool := true
  /-- the item after the events that the notification of its removal runs -/
  postRemoveNotification : Object → Object := fun o => o
  /-- the item has a parent once it was added again -/
  addThing : Object → Bool := fun _ => true

/-- The item that is returned, with what was done to it. -/
inductive Result
  | null
  | unchanged (item : Object)
  /-- the item has stayed where it was -/
  | updated (item : Object)
  /-- the item was removed and added again -/
  | moved (item : Object)
  /-- a new item has taken the place -/
  | created (item : Object)

variable (w : TileWorld) (p : Place)

/-- A new item takes the place of the old one. -/
def replaceByNew (newId newCount : BitVec 16) : Result :=
  match Item.createItem w.toWorld newId newCount with
  | some i =>
      let cls := (w.itemType newId).itemClass
      .created { i with cls := cls, canRemove := cls != .depotLocker }
  | none => .null

/-- The item between its removal and its return. -/
def movedItem (o : Object) (newId : BitVec 16) (newCount : Int) : Object :=
  let o := (p.postRemoveNotification o).setID w newId
  if newCount ≠ -1 then o.setSubType w (.ofInt 16 newCount) else o

/-- The types lie in different parts of a tile. -/
def transformMoved (o : Object) (newId : BitVec 16) (newCount : Int) : Result :=
  let o := movedItem w p o newId newCount
  if p.addThing o then .moved o else .null

/-- The item with its new type and sub-type. -/
def updatedItem (o : Object) (newId : BitVec 16) (newCount : Int) : Object :=
  let curType := o.itemType w
  let newType := w.itemType newId
  let o := p.postRemoveNotification o
  let count : Int := (o.getSubType w.toWorld).toNat
  let itemId := if curType.id ≠ newType.id then newId else o.id
  let o :=
    if curType.id ≠ newType.id ∧ newType.group ≠ curType.group then o.setDefaultSubtype w else o
  let count := if newCount ≠ -1 ∧ newType.hasSubType then newCount else count
  -- `updateThing`
  (o.setID w itemId).setSubType w ((BitVec.ofInt 32 count).setWidth 16)

/-- The type that is to come when the last charge is gone. -/
def newItemId (o : Object) (newId : BitVec 16) : Int :=
  if (o.itemType w).id = (w.itemType newId).id then (o.itemType w).decayTo else newId.toNat

/-- `Game::transformItem`. -/
def transformItem (o : Object) (newId : BitVec 16) (newCount : Int) : Result :=
  if o.id = newId ∧ (newCount = -1 ∨ (newCount = (o.getSubType w.toWorld).toNat ∧ newCount ≠ 0)) then
    .unchanged o
  else if p.hasParent = false then .null
  else if p.hasIndex = false then .unchanged o
  else if o.canTransform = false then .unchanged o
  else
    let curType := o.itemType w
    let newType := w.itemType newId
    if newType.id = 0 then .unchanged o
    else if curType.alwaysOnTop ≠ newType.alwaysOnTop then transformMoved w p o newId newCount
    else if curType.type = newType.type then
      if newCount = 0 ∧ (curType.stackable ∨ o.hasAttribute .charges) then
        -- `internalRemoveItem`, whose answer is not looked at
        if curType.stackable then .null
        else if newItemId w o newId < 0 then .null
        else if newItemId w o newId ≠ newId.toNat then
          replaceByNew w (.ofInt 16 (newItemId w o newId)) 1
        else transformItem o newId (-1)
      else .updated (updatedItem w p o newId newCount)
    else replaceByNew w newId (if newCount = -1 then 0 else .ofInt 16 newCount)
termination_by if newCount = 0 then 1 else 0
decreasing_by
  rename_i h _ _ _
  simp [h.1]

/-! ## Which branch is taken -/

inductive Branch
  | unchanged
  | null
  | moved
  | updated (newCount : Int)
  | created (newId newCount : BitVec 16)
  deriving DecidableEq

/-- The branch that the function ends in. -/
def branch (o : Object) (newId : BitVec 16) (newCount : Int) : Branch :=
  let curType := o.itemType w
  let newType := w.itemType newId
  if o.id = newId ∧ (newCount = -1 ∨ (newCount = (o.getSubType w.toWorld).toNat ∧ newCount ≠ 0)) then
    .unchanged
  else if p.hasParent = false then .null
  else if p.hasIndex = false ∨ o.canTransform = false ∨ newType.id = 0 then .unchanged
  else if curType.alwaysOnTop ≠ newType.alwaysOnTop then .moved
  else if curType.type ≠ newType.type then
    .created newId (if newCount = -1 then 0 else .ofInt 16 newCount)
  else if ¬(newCount = 0 ∧ (curType.stackable ∨ o.hasAttribute .charges)) then .updated newCount
  else if curType.stackable ∨ newItemId w o newId < 0 then .null
  else if newItemId w o newId ≠ newId.toNat then .created (.ofInt 16 (newItemId w o newId)) 1
  else if o.id = newId then .unchanged
  else .updated (-1)

/-- The result in each branch. -/
def Branch.result (o : Object) (newId : BitVec 16) (newCount : Int) : Branch → Result
  | .unchanged => .unchanged o
  | .null => .null
  | .moved => transformMoved w p o newId newCount
  | .updated count => .updated (updatedItem w p o newId count)
  | .created id count => replaceByNew w id count

variable {w p}

/-- The call inside, for the last charge of an item. -/
theorem transformItem_again {o : Object} {newId : BitVec 16} (hparent : p.hasParent ≠ false)
    (hindex : p.hasIndex ≠ false) (hcan : o.canTransform ≠ false) (hid : (w.itemType newId).id ≠ 0)
    (htop : ¬(o.itemType w).alwaysOnTop ≠ (w.itemType newId).alwaysOnTop)
    (htype : (o.itemType w).type = (w.itemType newId).type) :
    transformItem w p o newId (-1) =
      if o.id = newId then .unchanged o else .updated (updatedItem w p o newId (-1)) := by
  rw [transformItem]
  refine if_congr (and_iff_left (.inl rfl)) rfl ?_
  rw [if_neg hparent, if_neg hindex, if_neg hcan, if_neg hid, if_neg htop, if_pos htype,
    if_neg (fun h => absurd h.1 (by decide))]

/-- Every call ends in one branch. -/
theorem transformItem_eq (o : Object) (newId : BitVec 16) (newCount : Int) :
    transformItem w p o newId newCount =
      (branch w p o newId newCount).result w p o newId newCount := by
  have happly := fun (c : Prop) [Decidable c] (a b : Branch) =>
    apply_ite (Branch.result w p o newId newCount) c a b
  rw [transformItem, branch, happly, happly, happly, happly, happly, happly, happly, happly, happly]
  refine if_congr Iff.rfl rfl ?_
  by_cases hparent : p.hasParent = false
  · rw [if_pos hparent, if_pos hparent]
    rfl
  rw [if_neg hparent, if_neg hparent]
  by_cases hindex : p.hasIndex = false
  · rw [if_pos hindex, if_pos (.inl hindex)]
    rfl
  by_cases hcan : o.canTransform = false
  · rw [if_neg hindex, if_pos hcan, if_pos (.inr (.inl hcan))]
    rfl
  by_cases hid : (w.itemType newId).id = 0
  · rw [if_neg hindex, if_neg hcan, if_pos hid, if_pos (.inr (.inr hid))]
    rfl
  rw [if_neg hindex, if_neg hcan, if_neg hid, if_neg (not_or.mpr ⟨hindex, not_or.mpr ⟨hcan, hid⟩⟩)]
  by_cases htop : (o.itemType w).alwaysOnTop ≠ (w.itemType newId).alwaysOnTop
  · rw [if_pos htop, if_pos htop]
    rfl
  rw [if_neg htop, if_neg htop]
  by_cases htype : (o.itemType w).type ≠ (w.itemType newId).type
  · rw [if_neg htype, if_pos htype]
    rfl
  rw [if_pos (not_not.mp htype), if_neg htype]
  by_cases hlast : ¬(newCount = 0 ∧ ((o.itemType w).stackable ∨ o.hasAttribute .charges))
  · rw [if_neg hlast, if_pos hlast]
    rfl
  rw [if_pos (not_not.mp hlast), if_neg hlast]
  by_cases hstack : (o.itemType w).stackable = true
  · rw [if_pos hstack, if_pos (.inl hstack)]
    rfl
  by_cases hgone : newItemId w o newId < 0
  · rw [if_neg hstack, if_pos hgone, if_pos (.inr hgone)]
    rfl
  rw [if_neg hstack, if_neg hgone, if_neg (not_or.mpr ⟨hstack, hgone⟩)]
  refine if_congr Iff.rfl rfl ?_
  exact transformItem_again hparent hindex hcan hid htop (not_not.mp htype)

end Transform

end Infernum

/-!
## Transforming and the number of units

`itemCount` is a number of units on a stackable type and 1 on any other. Which
calls of `transformItem` keep it so, and keep the number of an item that stays:
`transformItem_keepsUnits_iff`.
-/

namespace Infernum

/-- The sub-type of the type is kept in `itemCount`. -/
def ItemType.subTypeIsCount (it : ItemType) : Bool :=
  !it.holdsFluid && (it.stackable || it.charges == 0)

/-- The `itemCount` that `setDefaultSubtype` gives an item of the type. -/
def ItemType.defaultCount (it : ItemType) : BitVec 8 :=
  if it.charges ≠ 0 ∧ it.stackable then it.charges.setWidth 8 else 1

namespace Transform

variable (w : TileWorld) (p : Place)

/-- Only a stackable item has more than one unit. -/
def CountMeaningful (o : Object) : Prop := (o.itemType w).stackable ∨ o.count = 1

/-- The item that results has a meaningful count, and one that stays in place
has its number of units. -/
def KeepsUnits (o : Object) : Result → Prop
  | .null => True
  | .unchanged r => CountMeaningful w r ∧ r.count = o.count
  | .updated r => CountMeaningful w r ∧ r.count = o.count
  | .moved r => CountMeaningful w r
  | .created r => CountMeaningful w r

/-- An item that is removed and added again is stackable then, or has 1 for its
count: the one that is asked for if the new type keeps its sub-type there. -/
def MovedKeeps (o : Object) (newId : BitVec 16) (newCount : Int) : Prop :=
  p.addThing (movedItem w p o newId newCount) = false ∨ (w.itemType newId).stackable ∨
    if newCount ≠ -1 ∧ (w.itemType newId).subTypeIsCount then BitVec.ofInt 8 newCount = 1
    else (p.postRemoveNotification o).count = 1

/-- The type that an item comes to where it is. -/
def updatedType (o : Object) (newId : BitVec 16) : ItemType :=
  if (o.itemType w).id ≠ (w.itemType newId).id then w.itemType newId
  else (p.postRemoveNotification o).itemType w

/-- An item that stays in place keeps its units: more than one only on a stackable
type; where the sub-type is kept in the count, what is asked for or the old
sub-type is the old count; elsewhere the default is, if it is set. -/
def UpdatedKeeps (o : Object) (newId : BitVec 16) (newCount : Int) : Prop :=
  let curType := o.itemType w
  let newType := w.itemType newId
  let o' := p.postRemoveNotification o
  ((updatedType w p o newId).stackable ∨ o.count = 1) ∧
  if (updatedType w p o newId).subTypeIsCount then
    if newCount ≠ -1 ∧ newType.hasSubType then BitVec.ofInt 8 newCount = o.count
    else (o'.getSubType w.toWorld).setWidth 8 = o.count
  else if curType.id ≠ newType.id ∧ newType.group ≠ curType.group then
    (o'.itemType w).defaultCount = o.count
  else o'.count = o.count

variable {w p}

/-! ## Counts -/

theorem setID_count (o : Object) (newId : BitVec 16) :
    (o.setID w newId).count = o.count ∧ (o.setID w newId).id = newId := by
  rw [Object.setID]
  dsimp only
  split
  · split
    · exact ⟨rfl, rfl⟩
    · exact ⟨rfl, rfl⟩
  · split
    · exact ⟨rfl, rfl⟩
    · exact ⟨rfl, rfl⟩

theorem setSubType_count (o : Object) (n : BitVec 16) :
    (o.setSubType w n).count =
      if (o.itemType w).subTypeIsCount then n.setWidth 8 else o.count := by
  have htype : o.type w.toWorld = o.itemType w := rfl
  rw [Object.setSubType, Item.setSubType, htype, ItemType.subTypeIsCount]
  by_cases hf : (o.itemType w).holdsFluid
  · simp [hf, Item.setFluidType, Item.setIntAttr]
  by_cases hs : (o.itemType w).stackable
  · simp [hf, hs, Item.setItemCount]
  by_cases hc : (o.itemType w).charges = 0#32
  · simp [hf, hs, hc, Item.setItemCount]
  · simp [hf, hs, hc, Item.setCharges, Item.setIntAttr]

theorem setDefaultSubtype_count (o : Object) :
    (o.setDefaultSubtype w).count = (o.itemType w).defaultCount := by
  rw [Object.setDefaultSubtype, ItemType.defaultCount]
  dsimp only
  by_cases hc : (o.itemType w).charges = 0#32
  · simp [hc, Item.setItemCount]
  by_cases hs : (o.itemType w).stackable
  · simp [hc, hs, Item.setItemCount]
  · simp [hc, hs, Item.setItemCount, Item.setCharges, Item.setIntAttr]

/-- A number that is asked for loses all but its lowest byte. -/
theorem setWidth_ofInt {m n : Nat} (h : m ≤ n) (x : Int) :
    (BitVec.ofInt n x).setWidth m = BitVec.ofInt m x := by
  have hdvd : ((2 ^ m : Nat) : Int) ∣ ((2 ^ n : Nat) : Int) :=
    Int.natCast_dvd_natCast.mpr (Nat.pow_dvd_pow 2 h)
  have hpos : ∀ k : Nat, 0 ≤ x % ((2 ^ k : Nat) : Int) := fun k =>
    Int.emod_nonneg x (by exact_mod_cast (Nat.two_pow_pos k).ne')
  apply BitVec.eq_of_toNat_eq
  rw [BitVec.toNat_setWidth, BitVec.toNat_ofInt, BitVec.toNat_ofInt, ← Int.natCast_inj,
    Int.natCast_mod, Int.toNat_of_nonneg (hpos n), Int.toNat_of_nonneg (hpos m)]
  exact Int.emod_emod_of_dvd x hdvd

theorem hasSubType_iff (it : ItemType) :
    it.hasSubType = true ↔ it.holdsFluid = true ∨ it.stackable = true ∨ it.charges ≠ 0 := by
  simp [ItemType.hasSubType, or_assoc]

theorem ite_eq_iff_ite {α : Type} {c : Prop} [Decidable c] {a b x : α} :
    (if c then a else b) = x ↔ if c then a = x else b = x := by
  split
  · rfl
  · rfl

theorem movedItem_count (o : Object) (newId : BitVec 16) (newCount : Int) :
    (movedItem w p o newId newCount).itemType w = w.itemType newId ∧
    (movedItem w p o newId newCount).count =
      if newCount ≠ -1 ∧ (w.itemType newId).subTypeIsCount then BitVec.ofInt 8 newCount
      else (p.postRemoveNotification o).count := by
  obtain ⟨hcount, hid⟩ := setID_count (w := w) (p.postRemoveNotification o) newId
  have htype : ((p.postRemoveNotification o).setID w newId).itemType w = w.itemType newId := by
    rw [Object.itemType, hid]
  unfold movedItem
  dsimp only
  by_cases hgiven : newCount ≠ -1
  · rw [if_pos hgiven, setSubType_count, htype, hcount, setWidth_ofInt (by decide)]
    refine ⟨?_, ?_⟩
    · rw [Object.itemType, (Object.alike_setSubType w _ _).1, hid]
    · simp only [hgiven, ne_eq, not_false_eq_true, true_and]
  · rw [if_neg hgiven, if_neg (fun h => hgiven h.1)]
    exact ⟨htype, hcount⟩

theorem updatedItem_count (o : Object) (newId : BitVec 16) (newCount : Int) :
    (updatedItem w p o newId newCount).itemType w = updatedType w p o newId ∧
    (updatedItem w p o newId newCount).count =
      if (updatedType w p o newId).subTypeIsCount then
        if newCount ≠ -1 ∧ (w.itemType newId).hasSubType then BitVec.ofInt 8 newCount
        else ((p.postRemoveNotification o).getSubType w.toWorld).setWidth 8
      else if (o.itemType w).id ≠ (w.itemType newId).id ∧
          (w.itemType newId).group ≠ (o.itemType w).group then
        ((p.postRemoveNotification o).itemType w).defaultCount
      else (p.postRemoveNotification o).count := by
  unfold updatedItem updatedType
  dsimp only
  generalize p.postRemoveNotification o = o'
  -- the values before the new type is set
  let reset := (o.itemType w).id ≠ (w.itemType newId).id ∧
    (w.itemType newId).group ≠ (o.itemType w).group
  let o2 := if reset then o'.setDefaultSubtype w else o'
  let itemId := if (o.itemType w).id ≠ (w.itemType newId).id then newId else o'.id
  let count : Int := if newCount ≠ -1 ∧ (w.itemType newId).hasSubType then newCount
    else (o'.getSubType w.toWorld).toNat
  have ho2 : o2.count = if reset then (o'.itemType w).defaultCount else o'.count := by
    by_cases hreset : reset
    · simp only [o2, if_pos hreset, setDefaultSubtype_count]
    · simp only [o2, if_neg hreset]
  have hid : w.itemType itemId = if (o.itemType w).id ≠ (w.itemType newId).id then w.itemType newId
      else o'.itemType w := apply_ite w.itemType _ _ _
  obtain ⟨hcount, hsetid⟩ := setID_count (w := w) o2 itemId
  have htype : (o2.setID w itemId).itemType w = w.itemType itemId := by
    rw [Object.itemType, hsetid]
  have hbyte : (((BitVec.ofInt 32 count).setWidth 16).setWidth 8) =
      if newCount ≠ -1 ∧ (w.itemType newId).hasSubType then BitVec.ofInt 8 newCount
      else (o'.getSubType w.toWorld).setWidth 8 := by
    rw [setWidth_ofInt (by decide), setWidth_ofInt (by decide), apply_ite (BitVec.ofInt 8)]
    rfl
  show ((o2.setID w itemId).setSubType w ((BitVec.ofInt 32 count).setWidth 16)).itemType w = _ ∧
    ((o2.setID w itemId).setSubType w ((BitVec.ofInt 32 count).setWidth 16)).count = _
  refine ⟨?_, ?_⟩
  · rw [Object.itemType, (Object.alike_setSubType w _ _).1, hsetid, hid]
  · rw [setSubType_count, htype, hcount, ho2, hbyte, hid]

/-- A new item has one unit, or is a stack. -/
theorem createItem_count {id count : BitVec 16} {i : Item}
    (h : Item.createItem w.toWorld id count = some i) :
    i.id = id ∧ ((w.itemType id).stackable ∨ i.count = 1) := by
  have hconstruct : ∀ c, (w.itemType id).stackable ∨ (Item.construct w.toWorld id c).count = 1 := by
    intro c
    rw [(Item.construct_rest w.toWorld id c).2.2.2.2, Item.constructSubType]
    split
    · exact .inr rfl
    · split
      · rename_i hs
        exact .inl hs
      · split
        · split
          · exact .inr rfl
          · exact .inr rfl
        · exact .inr rfl
  have hnew : i = Item.newItem w.toWorld id count := (Item.known_of_createItem h).2
  refine ⟨?_, ?_⟩
  · rw [hnew]
    exact (Item.newItem_rest w.toWorld id count).1
  · rw [hnew, Item.newItem]
    split
    · show _ ∨ (Item.setStrAttr _ .description _).count = 1
      rw [Item.setStrAttr_count]
      exact hconstruct 0
    · exact hconstruct _
    · exact hconstruct 0

/-- A call of `transformItem` keeps counts meaningful, and the number of units of
an item that stays, exactly if the branch it takes does. -/
theorem transformItem_keepsUnits_iff (w : TileWorld) (p : Place) (o : Object) (newId : BitVec 16)
    (newCount : Int) (h : CountMeaningful w o) :
    KeepsUnits w o (transformItem w p o newId newCount) ↔
      match branch w p o newId newCount with
      | .moved => MovedKeeps w p o newId newCount
      | .updated count => UpdatedKeeps w p o newId count
      | _ => True := by
  rw [transformItem_eq]
  cases branch w p o newId newCount with
  | unchanged => exact iff_of_true ⟨h, rfl⟩ trivial
  | null => exact Iff.rfl
  | moved =>
      obtain ⟨htype, hcount⟩ := movedItem_count (w := w) (p := p) o newId newCount
      show KeepsUnits w o (transformMoved w p o newId newCount) ↔ _
      unfold transformMoved MovedKeeps
      dsimp only
      cases hadd : p.addThing (movedItem w p o newId newCount) with
      | false => simp [KeepsUnits]
      | true =>
          rw [← ite_eq_iff_ite, ← hcount]
          simp [KeepsUnits, CountMeaningful, htype]
  | updated count =>
      obtain ⟨htype, hcount⟩ := updatedItem_count (w := w) (p := p) o newId count
      show CountMeaningful w (updatedItem w p o newId count) ∧
        (updatedItem w p o newId count).count = o.count ↔ _
      unfold CountMeaningful UpdatedKeeps
      dsimp only
      rw [← ite_eq_iff_ite, ← ite_eq_iff_ite, ← ite_eq_iff_ite, ← hcount, htype]
      exact and_congr_left fun hsame => by rw [hsame]
  | created id count =>
      show KeepsUnits w o (replaceByNew w id count) ↔ True
      unfold replaceByNew
      cases hnew : Item.createItem w.toWorld id count with
      | none => exact Iff.rfl
      | some i =>
          obtain ⟨hid, hcount⟩ := createItem_count hnew
          refine iff_true_intro ?_
          show (w.itemType i.id).stackable ∨ i.count = 1
          rw [hid]
          exact hcount

/-- An item table with two kinds of arrows, a ring with charges and a plain
ring. -/
def ringWorld : TileWorld where
  itemType id :=
    if id = 2544 then { id := 2544, group := .ammunition, stackable := true }
    else if id = 2545 then { id := 2545, group := .ammunition, stackable := true }
    else if id = 2164 then { id := 2164, group := .armor, charges := 20 }
    else if id = 2121 then { id := 2121 }
    else {}
  addUniqueItem _ := false
  getNameByGuid _ := []
  tileItemType _ := {}

def tenArrows : Object := { id := 2544, count := 10, cls := .item }

theorem transformItem_keepsUnits_iff_arrows :
    KeepsUnits ringWorld tenArrows (transformItem ringWorld {} tenArrows 2545 (-1)) ↔
      match branch ringWorld {} tenArrows 2545 (-1) with
      | .moved => MovedKeeps ringWorld {} tenArrows 2545 (-1)
      | .updated count => UpdatedKeeps ringWorld {} tenArrows 2545 count
      | _ => True :=
  transformItem_keepsUnits_iff ringWorld {} tenArrows 2545 (-1) (.inl rfl)

/-- A ring with 20 charges. -/
def mightRing : Object :=
  { id := 2164, cls := .item
    attributes := { int := fun k => if k = .charges then some 20 else none } }

/-- As a plain ring it counts as 20 rings. -/
theorem mightRing_counts_as_twenty :
    CountMeaningful ringWorld mightRing ∧
    ¬KeepsUnits ringWorld mightRing (transformItem ringWorld {} mightRing 2121 (-1)) := by
  refine ⟨.inr rfl, ?_⟩
  rw [transformItem_eq]
  have hbranch : branch ringWorld {} mightRing 2121 (-1) = .updated (-1) := by decide
  rw [hbranch]
  rintro ⟨hmeaningful, -⟩
  have hcount : (updatedItem ringWorld {} mightRing 2121 (-1)).count = 20 := by decide
  rcases hmeaningful with hstackable | hone
  · exact absurd hstackable (by decide)
  · rw [hcount] at hone
    exact absurd hone (by decide)

/-! ## Items on tiles and in containers -/

section

variable {I C : Type} [DecidableEq I] [DecidableEq C]

theorem updateThing_object (t : Tile I C) {item : I} (itemId : BitVec 16) (count : BitVec 32)
    (hindex : t.getThingIndex w (.item item) ≠ none) :
    (t.updateThing w item itemId count).object item =
      ((t.object item).setID w itemId).setSubType w (count.setWidth 16) := by
  rw [Tile.updateThing, if_neg hindex]
  exact Function.update_self _ _ _

/-- The item of a tile that stays in place. -/
theorem tile_transformInPlace (t : Tile I C) {item : I} (newId : BitVec 16) (newCount : Int)
    (hindex : t.getThingIndex w (.item item) ≠ none) :
    (t.transformInPlace w item newId newCount).object item =
      updatedItem w {} (t.object item) newId newCount := by
  -- the index is found by the id, which the default sub-type keeps
  have hdefault : ∀ o : Object, o.id = (t.object item).id →
      (t.setObject item o).getThingIndex w (.item item) ≠ none := by
    intro o ho
    have htop : ((t.setObject item o).object item).isAlwaysOnTop w =
        (t.object item).isAlwaysOnTop w := by
      rw [Object.isAlwaysOnTop, Object.itemType, Object.isAlwaysOnTop, Object.itemType]
      rw [show (t.setObject item o).object item = o from Function.update_self _ _ _, ho]
    rw [Tile.getThingIndex] at hindex ⊢
    rw [htop]
    exact hindex
  unfold Tile.transformInPlace updatedItem
  simp only [hasSubType_iff]
  by_cases hid : ((t.object item).itemType w).id ≠ (w.itemType newId).id
  · by_cases hgroup : (w.itemType newId).group ≠ ((t.object item).itemType w).group
    · have hreset : ((t.object item).itemType w).id ≠ (w.itemType newId).id ∧
        (w.itemType newId).group ≠ ((t.object item).itemType w).group := ⟨hid, hgroup⟩
      rw [if_pos hid, if_pos hgroup, updateThing_object _ _ _
        (hdefault _ ((t.object item).alike_setDefaultSubtype w).1), if_pos hid, if_pos hreset,
        show (t.setObject item ((t.object item).setDefaultSubtype w)).object item = _ from
          Function.update_self _ _ _]
    · have hkeep : ¬(((t.object item).itemType w).id ≠ (w.itemType newId).id ∧
        (w.itemType newId).group ≠ ((t.object item).itemType w).group) := fun h => hgroup h.2
      rw [if_pos hid, if_neg hgroup, updateThing_object _ _ _ hindex, if_pos hid, if_neg hkeep]
  · have hkeep : ¬(((t.object item).itemType w).id ≠ (w.itemType newId).id ∧
        (w.itemType newId).group ≠ ((t.object item).itemType w).group) := fun h => hid h.1
    rw [if_neg hid, updateThing_object _ _ _ hindex, if_neg hid, if_neg hkeep]

end

/-- The item of a container that stays in place. -/
theorem container_transformInPlace (w : WeightWorld) {items : List Content} {index : Nat}
    {item : Content} (newId : BitVec 16) (newCount : Int) (hitem : items[index]? = some item) :
    (Container.transformInPlace w index item newId newCount items).items[index]? =
      some (item.setObject (updatedItem w.toTileWorld {} item.object newId newCount)) := by
  have hlt : index < items.length := (List.getElem?_eq_some_iff.mp hitem).1
  -- what `updateThing` makes of the list
  have hupdate : ∀ (items' : List Content) (item' : Content) (itemId : BitVec 16)
      (count : BitVec 32), items'[index]? = some item' →
      (Container.updateThing w index itemId count items').items[index]? =
        some (item'.setObject ((item'.object.setID w.toTileWorld itemId).setSubType w.toTileWorld
          (count.setWidth 16))) := by
    intro items' item' itemId count hitem'
    have hlt' : index < items'.length := (List.getElem?_eq_some_iff.mp hitem').1
    rw [Container.updateThing, hitem']
    exact List.getElem?_set_self hlt'
  unfold Container.transformInPlace updatedItem
  simp only [hasSubType_iff]
  by_cases hid : (item.object.itemType w.toTileWorld).id ≠ (w.itemType newId).id
  · by_cases hgroup : (w.itemType newId).group ≠ (item.object.itemType w.toTileWorld).group
    · have hreset : (item.object.itemType w.toTileWorld).id ≠ (w.itemType newId).id ∧
        (w.itemType newId).group ≠ (item.object.itemType w.toTileWorld).group := ⟨hid, hgroup⟩
      rw [if_pos hid, if_pos hgroup, hupdate _ _ _ _ (List.getElem?_set_self hlt), if_pos hid,
        if_pos hreset]
      rfl
    · have hkeep : ¬((item.object.itemType w.toTileWorld).id ≠ (w.itemType newId).id ∧
        (w.itemType newId).group ≠ (item.object.itemType w.toTileWorld).group) := fun h => hgroup h.2
      rw [if_pos hid, if_neg hgroup, hupdate _ _ _ _ hitem, if_pos hid, if_neg hkeep]
  · have hkeep : ¬((item.object.itemType w.toTileWorld).id ≠ (w.itemType newId).id ∧
        (w.itemType newId).group ≠ (item.object.itemType w.toTileWorld).group) := fun h => hid h.1
    rw [if_neg hid, hupdate _ _ _ _ hitem, if_neg hid, if_neg hkeep]

end Transform

end Infernum
