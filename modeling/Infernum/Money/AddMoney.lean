import Infernum.Item.Item
import Infernum.Item.Reload
import Mathlib.Tactic.IntervalCases

/-!
# Paying out money

`Game::addMoney`: an amount in crystal, platinum and gold coins. The amount has 64 bits,
the crystal coins and their worth 32, the platinum coins 16, and so has the count that
`Item::CreateItem` is given; the count of a stack has 8. Numbers are naturals here, cut
where the code cuts them.
-/

namespace Infernum.Money

def ITEM_GOLD_COIN : BitVec 16 := 2148
def ITEM_PLATINUM_COIN : BitVec 16 := 2152
def ITEM_CRYSTAL_COIN : BitVec 16 := 2160

/-- `Item::getWorth`. -/
def getWorth (i : Item) : Nat :=
  if i.id = ITEM_GOLD_COIN then i.count.toNat
  else if i.id = ITEM_PLATINUM_COIN then i.count.toNat * 100
  else if i.id = ITEM_CRYSTAL_COIN then i.count.toNat * 10000
  else 0

def FLAG_NOLIMIT : BitVec 32 := 1

/-- Where `addMoney` puts a coin: into `cylinder`, or on `cylinder->getTile()`. -/
inductive Place where
  | cylinder
  | tile
  deriving DecidableEq, Repr

/-- `internalAddItem` at `INDEX_WHEREEVER`; the result says that it returned
`RETURNVALUE_NOERROR`. -/
abbrev AddItem (σ : Type*) := Place → Option Item → BitVec 32 → σ → Bool × σ

/-- A payment: the server, and the coins that have been created for it. -/
structure Payment (σ : Type*) where
  server : σ
  created : List Item

section

variable {σ : Type*} (w : World) (internalAddItem : AddItem σ) (flags : BitVec 32)

/-- Create a coin item and add it, on the tile where it does not fit. -/
def addCoins (id : BitVec 16) (count : Nat) (p : Payment σ) : Payment σ :=
  let remaindItem := Item.createItem w id (BitVec.ofNat 16 count)
  let (noError, server) := internalAddItem .cylinder remaindItem flags p.server
  { server :=
      if noError then server
      else (internalAddItem .tile remaindItem FLAG_NOLIMIT server).2
    created := p.created ++ remaindItem.toList }

/-- The loop for the crystal coins. -/
def addCrystalCoins (crystalCoins : Nat) (p : Payment σ) : Payment σ :=
  if 0 < crystalCoins then
    let count := min 100 crystalCoins
    addCrystalCoins (crystalCoins - count)
      (addCoins w internalAddItem flags ITEM_CRYSTAL_COIN count p)
  else p
termination_by crystalCoins

/-- `uint32_t crystalCoins = money / 10000;` -/
def crystalCoins (money : Nat) : Nat := money / 10000 % 2 ^ 32

/-- `money -= crystalCoins * 10000;` with a product of 32 bits. -/
def afterCrystal (money : Nat) : Nat := money - crystalCoins money * 10000 % 2 ^ 32

/-- `uint16_t platinumCoins = money / 100;` -/
def platinumCoins (money : Nat) : Nat := afterCrystal money / 100 % 2 ^ 16

/-- `money -= platinumCoins * 100;` -/
def afterPlatinum (money : Nat) : Nat := afterCrystal money - platinumCoins money * 100

/-- `Game::addMoney`. -/
def addMoney (money : BitVec 64) (server : σ) : Payment σ :=
  let p : Payment σ := { server, created := [] }
  let money := money.toNat
  if money = 0 then p
  else
    let p := addCrystalCoins w internalAddItem flags (crystalCoins money) p
    let p :=
      if platinumCoins money ≠ 0 then
        addCoins w internalAddItem flags ITEM_PLATINUM_COIN (platinumCoins money) p
      else p
    if afterPlatinum money ≠ 0 then
      addCoins w internalAddItem flags ITEM_GOLD_COIN (afterPlatinum money) p
    else p

end

end Infernum.Money

/-!
## Which amounts are paid out exactly

As long as the worth of the crystal coins fits its 32 bits, every amount is. Beyond that
the part above the low 32 bits stays in the amount, and is paid out once more in platinum
and gold, cut to the widths of their counts.
-/

namespace Infernum.Money

/-! ### The coins of a payment -/

/-- A coin is a plain stackable item. -/
structure IsCoin (it : ItemType) : Prop where
  known : it.known = true
  stackable : it.stackable = true
  plain : it.itemClass = .item
  dry : it.holdsFluid = false

/-- The three ids are coins in the item table. -/
structure HasCoins (w : World) : Prop where
  gold : IsCoin (w.itemType ITEM_GOLD_COIN)
  platinum : IsCoin (w.itemType ITEM_PLATINUM_COIN)
  crystal : IsCoin (w.itemType ITEM_CRYSTAL_COIN)

/-- Every stack has between 1 and 100 coins, and all are worth the money. -/
structure Exact (coins : List Item) (money : Nat) : Prop where
  counts : ∀ i ∈ coins, 1 ≤ i.count.toNat ∧ i.count.toNat ≤ 100
  worth : (coins.map getWorth).sum = money

/-- The count of the stack that `CreateItem` makes of a count. -/
def stackCount (count : Nat) : Nat :=
  if count % 2 ^ 16 = 0 then 1 else count % 2 ^ 8

section

variable {w : World}

/-- A stack of coins, as created. -/
theorem createItem_coin {id : BitVec 16} (h : IsCoin (w.itemType id)) (count : Nat) :
    ∃ i, Item.createItem w id (BitVec.ofNat 16 count) = some i ∧ i.id = id ∧
      i.count.toNat = stackCount count := by
  have hzero : BitVec.ofNat 16 count = 0 ↔ count % 2 ^ 16 = 0 := by
    simp [← BitVec.toNat_inj]
  refine ⟨_, Item.createItem_known h.known _, (Item.newItem_rest w id _).1, ?_⟩
  rw [Item.count_newItem h.stackable h.plain h.dry, stackCount]
  split
  · rename_i hcount
    rw [if_pos (hzero.mp hcount)]
    rfl
  · rename_i hcount
    rw [if_neg (mt hzero.mpr hcount)]
    simp only [BitVec.toNat_setWidth, BitVec.toNat_ofNat]
    omega

variable {σ : Type*} (internalAddItem : AddItem σ) (flags : BitVec 32)

/-- What one stack adds to a payment, wherever it is put. -/
theorem created_addCoins {id : BitVec 16} (h : IsCoin (w.itemType id)) (count : Nat)
    (p : Payment σ) : ∃ i, (addCoins w internalAddItem flags id count p).created =
      p.created ++ [i] ∧ i.id = id ∧ i.count.toNat = stackCount count := by
  obtain ⟨i, hi, hid, hcount⟩ := createItem_coin h count
  refine ⟨i, ?_, hid, hcount⟩
  simp only [addCoins, hi]
  rfl

/-- The loop splits the crystal coins into stacks of at most 100, without a rest. -/
theorem created_addCrystalCoins (h : HasCoins w) (crystalCoins : Nat) (p : Payment σ) :
    ∃ coins, (addCrystalCoins w internalAddItem flags crystalCoins p).created =
      p.created ++ coins ∧ Exact coins (crystalCoins * 10000) := by
  induction crystalCoins using Nat.strongRecOn generalizing p with
  | ind crystalCoins ih =>
      rw [addCrystalCoins]
      split
      · rename_i hpos
        obtain ⟨i, hi, hid, hcount⟩ :=
          created_addCoins internalAddItem flags h.crystal (min 100 crystalCoins) p
        obtain ⟨coins, hcoins, hexact⟩ := ih (crystalCoins - min 100 crystalCoins) (by omega)
          (addCoins w internalAddItem flags ITEM_CRYSTAL_COIN (min 100 crystalCoins) p)
        have hstack : stackCount (min 100 crystalCoins) = min 100 crystalCoins := by
          rw [stackCount, if_neg (by omega)]
          omega
        refine ⟨i :: coins, ?_, ?_, ?_⟩
        · rw [hcoins, hi, List.append_assoc]
          rfl
        · intro j hj
          rcases List.mem_cons.mp hj with rfl | hj
          · omega
          · exact hexact.counts j hj
        · have hworth : getWorth i = min 100 crystalCoins * 10000 := by
            rw [getWorth, hid, hcount, hstack]
            rfl
          rw [List.map_cons, List.sum_cons, hworth, hexact.worth]
          omega
      · refine ⟨[], (List.append_nil _).symm, by simp, ?_⟩
        simp
        omega

end

/-! ### Numbers -/

/-- The amounts that are paid out exactly: the worth of the whole crystal coins fits 32
bits; or it does not, its part above them is divisible by 25, and there is gold to pay. -/
def PaidExactly (money : Nat) : Prop :=
  money / 10000 < 2 ^ 32 ∧
    (money / 10000 * 10000 < 2 ^ 32 ∨
      (25 ∣ money / 10000 * 10000 / 2 ^ 32 ∧ money % 100 ≠ 0))

/-- The stacks of platinum and gold are as they should be. -/
structure SmallCoins (money : Nat) : Prop where
  platinum : platinumCoins money ≠ 0 →
    1 ≤ stackCount (platinumCoins money) ∧ stackCount (platinumCoins money) ≤ 100
  gold : afterPlatinum money ≠ 0 →
    1 ≤ stackCount (afterPlatinum money) ∧ stackCount (afterPlatinum money) ≤ 100
  worth : crystalCoins money * 10000 +
    (if platinumCoins money ≠ 0 then stackCount (platinumCoins money) * 100 else 0) +
    (if afterPlatinum money ≠ 0 then stackCount (afterPlatinum money) else 0) = money

theorem stackCount_lt (count : Nat) : stackCount count < 256 := by
  rw [stackCount]
  split <;> omega

/-- Where there are more crystal coins than 32 bits can count, too little is paid. -/
theorem not_smallCoins_of_le {money : Nat} (h : 2 ^ 32 ≤ money / 10000) :
    ¬ SmallCoins money := by
  rintro ⟨-, -, hworth⟩
  have hcrystal : crystalCoins money + 2 ^ 32 ≤ money / 10000 := by
    rw [crystalCoins]
    omega
  have hplatinum := stackCount_lt (platinumCoins money)
  have hgold := stackCount_lt (afterPlatinum money)
  split at hworth <;> split at hworth <;> omega

/-- The rest of the amount keeps what the product of 32 bits has lost. -/
theorem afterCrystal_eq {money : Nat} (h : money / 10000 < 2 ^ 32) :
    afterCrystal money = money % 10000 + money / 10000 * 10000 / 2 ^ 32 * 2 ^ 32 := by
  rw [afterCrystal, crystalCoins, Nat.mod_eq_of_lt h]
  omega

/-- A stack that fits its byte. -/
theorem stackCount_of_lt {n : Nat} (h : n < 256) : stackCount n = if n = 0 then 1 else n := by
  rw [stackCount, Nat.mod_eq_of_lt (show n < 2 ^ 16 by omega),
    Nat.mod_eq_of_lt (show n < 2 ^ 8 by omega)]

theorem stackCount_platinum {money : Nat} (hne : platinumCoins money ≠ 0) :
    stackCount (platinumCoins money) = platinumCoins money % 256 := by
  have hlt : platinumCoins money < 65536 := Nat.mod_lt _ (by omega)
  rw [stackCount, if_neg (by omega)]
  norm_num

/-- The platinum and the gold make up the last four digits. -/
theorem smallCoins_worth {money : Nat} (h : money / 10000 < 2 ^ 32) (hs : SmallCoins money)
    (hgold : afterPlatinum money ≠ 0) :
    platinumCoins money % 256 * 100 + stackCount (afterPlatinum money) = money % 10000 := by
  obtain ⟨-, -, hworth⟩ := hs
  have hcrystal : crystalCoins money = money / 10000 := Nat.mod_eq_of_lt h
  have hdigits := Nat.div_add_mod money 10000
  rw [if_pos hgold, hcrystal] at hworth
  split at hworth
  · rename_i hplatinum
    rw [stackCount_platinum hplatinum] at hworth
    omega
  · rename_i hplatinum
    have hzero : platinumCoins money = 0 := not_not.mp hplatinum
    rw [hzero]
    omega

/-- Nothing is lost. -/
theorem smallCoins_of_fits {money : Nat} (h : money / 10000 * 10000 < 2 ^ 32) :
    SmallCoins money := by
  have hlt : money / 10000 < 2 ^ 32 := by omega
  have hrest : afterCrystal money = money % 10000 := by
    rw [afterCrystal_eq hlt]
    omega
  have hcrystal : crystalCoins money = money / 10000 := Nat.mod_eq_of_lt hlt
  have hplatinum : platinumCoins money = money % 10000 / 100 := by
    rw [platinumCoins, hrest]
    omega
  have hgold : afterPlatinum money = money % 100 := by
    rw [afterPlatinum, hplatinum, hrest]
    omega
  have hstackPlatinum : stackCount (platinumCoins money) =
      if money % 10000 / 100 = 0 then 1 else money % 10000 / 100 := by
    rw [hplatinum]
    exact stackCount_of_lt (by omega)
  have hstackGold : stackCount (afterPlatinum money) =
      if money % 100 = 0 then 1 else money % 100 := by
    rw [hgold]
    exact stackCount_of_lt (by omega)
  constructor
  · intro hne
    rw [hstackPlatinum]
    split <;> omega
  · intro hne
    rw [hstackGold]
    split <;> omega
  · rw [hstackPlatinum, hstackGold, hcrystal, hplatinum, hgold]
    split_ifs <;> omega

/-- A part above 32 bits is cut off by the counts if it is divisible by 25 (and so,
with its 32 zeros, by 100 · 2¹⁶). -/
theorem smallCoins_of_dvd {money : Nat} (h : money / 10000 < 2 ^ 32)
    (hhigh : 2 ^ 32 ≤ money / 10000 * 10000)
    (hdvd : 25 ∣ money / 10000 * 10000 / 2 ^ 32) (hgold : money % 100 ≠ 0) :
    SmallCoins money := by
  obtain ⟨j, hj⟩ := hdvd
  have hrest := afterCrystal_eq h
  rw [hj] at hrest
  have hcrystal : crystalCoins money = money / 10000 := Nat.mod_eq_of_lt h
  have hplatinum : platinumCoins money = money % 10000 / 100 := by
    rw [platinumCoins, hrest]
    omega
  have hafter : afterPlatinum money = money % 100 + 25 * j * 2 ^ 32 := by
    rw [afterPlatinum, hplatinum, hrest]
    omega
  have hstackGold : stackCount (afterPlatinum money) = money % 100 := by
    rw [hafter, stackCount, if_neg (by omega)]
    omega
  have hstackPlatinum : stackCount (platinumCoins money) =
      if money % 10000 / 100 = 0 then 1 else money % 10000 / 100 := by
    rw [hplatinum]
    exact stackCount_of_lt (by omega)
  constructor
  · intro hne
    rw [hstackPlatinum]
    split <;> omega
  · intro _
    omega
  · rw [hstackPlatinum, hstackGold, hcrystal, hplatinum, hafter]
    split_ifs <;> omega

/-- In hundreds and modulo 256, the multiples of 2³² that move no digit. -/
theorem eq_zero_of_residue {r e : Nat} (hpos : 1 ≤ r) (hr : r < 10000) (he : e < 25)
    (h : (r + e * 2 ^ 32) / 100 % 256 = (r - 1) / 100) : e = 0 := by
  interval_cases e <;> omega

/-- Otherwise it moves the platinum coins away from the third and fourth digits. -/
theorem dvd_of_smallCoins {money : Nat} (h : money / 10000 < 2 ^ 32)
    (hhigh : 2 ^ 32 ≤ money / 10000 * 10000) (hs : SmallCoins money) :
    25 ∣ money / 10000 * 10000 / 2 ^ 32 ∧ money % 100 ≠ 0 := by
  have hrest := afterCrystal_eq h
  have hplatinum : platinumCoins money < 2 ^ 16 := Nat.mod_lt _ (by omega)
  have hgold : afterPlatinum money ≠ 0 := by
    rw [afterPlatinum]
    omega
  have hworth := smallCoins_worth h hs hgold
  have hbounds := hs.gold hgold
  -- the platinum coins are the digits before the last two, modulo 256
  have hbyte : platinumCoins money % 256 = (money % 10000 - 1) / 100 := by omega
  set k := money / 10000 * 10000 / 2 ^ 32 with hk
  have hresidue : (money % 10000 + k % 25 * 2 ^ 32) / 100 % 256 =
      (money % 10000 - 1) / 100 := by
    rw [← hbyte, platinumCoins, hrest]
    omega
  have hzero := eq_zero_of_residue (by omega) (Nat.mod_lt _ (by omega))
    (Nat.mod_lt k (by omega)) hresidue
  refine ⟨Nat.dvd_of_mod_eq_zero hzero, ?_⟩
  rw [hzero] at hresidue
  omega

/-- The numbers alone: exactly these amounts come out right. -/
theorem smallCoins_iff (money : Nat) : SmallCoins money ↔ PaidExactly money := by
  constructor
  · intro hs
    have h : money / 10000 < 2 ^ 32 := by
      by_contra hle
      exact not_smallCoins_of_le (by omega) hs
    by_cases hhigh : money / 10000 * 10000 < 2 ^ 32
    · exact ⟨h, .inl hhigh⟩
    · exact ⟨h, .inr (dvd_of_smallCoins h (by omega) hs)⟩
  · rintro ⟨h, hfits | ⟨hdvd, hgold⟩⟩
    · exact smallCoins_of_fits hfits
    · by_cases hhigh : money / 10000 * 10000 < 2 ^ 32
      · exact smallCoins_of_fits hhigh
      · exact smallCoins_of_dvd h (by omega) hdvd hgold

/-! ### Payments -/

section

variable {w : World} {σ : Type*} (internalAddItem : AddItem σ) (flags : BitVec 32)

/-- One kind of coins in a payment: a stack, if there are any of them. -/
theorem created_small {id : BitVec 16} (h : IsCoin (w.itemType id)) {value : Nat}
    (hvalue : ∀ i : Item, i.id = id → getWorth i = i.count.toNat * value) (count : Nat)
    (p : Payment σ) : ∃ coins,
      (if count ≠ 0 then addCoins w internalAddItem flags id count p else p).created =
        p.created ++ coins ∧
      ((∀ i ∈ coins, 1 ≤ i.count.toNat ∧ i.count.toNat ≤ 100) ↔
        (count ≠ 0 → 1 ≤ stackCount count ∧ stackCount count ≤ 100)) ∧
      (coins.map getWorth).sum = if count ≠ 0 then stackCount count * value else 0 := by
  by_cases hcount : count ≠ 0
  · obtain ⟨i, hi, hid, hstack⟩ := created_addCoins internalAddItem flags h count p
    refine ⟨[i], by rw [if_pos hcount, hi], ?_, ?_⟩
    · simp [hstack, hcount]
    · simp [hvalue i hid, hstack, hcount]
  · refine ⟨[], by rw [if_neg hcount, List.append_nil], ?_, ?_⟩
    · simp [hcount]
    · simp [hcount]

theorem worth_gold (i : Item) (h : i.id = ITEM_GOLD_COIN) :
    getWorth i = i.count.toNat * 1 := by
  rw [getWorth, if_pos h, Nat.mul_one]

theorem worth_platinum (i : Item) (h : i.id = ITEM_PLATINUM_COIN) :
    getWorth i = i.count.toNat * 100 := by
  rw [getWorth, h]
  rfl

/-- The coins of a payment are right if and only if the numbers are. -/
theorem exact_created_iff (h : HasCoins w) {money : BitVec 64} (server : σ)
    (hmoney : money.toNat ≠ 0) :
    Exact (addMoney w internalAddItem flags money server).created money.toNat ↔
      SmallCoins money.toNat := by
  rw [addMoney]
  simp only [if_neg hmoney]
  obtain ⟨crystals, hcrystals, hexact⟩ := created_addCrystalCoins internalAddItem flags h
    (crystalCoins money.toNat) { server := server, created := [] }
  obtain ⟨platinum, hplatinum, hplatinumCounts, hplatinumWorth⟩ := created_small
    internalAddItem flags h.platinum worth_platinum (platinumCoins money.toNat)
    (addCrystalCoins w internalAddItem flags (crystalCoins money.toNat)
      { server := server, created := [] })
  obtain ⟨gold, hgold, hgoldCounts, hgoldWorth⟩ := created_small
    internalAddItem flags h.gold worth_gold (afterPlatinum money.toNat)
    (if platinumCoins money.toNat ≠ 0 then
      addCoins w internalAddItem flags ITEM_PLATINUM_COIN (platinumCoins money.toNat)
        (addCrystalCoins w internalAddItem flags (crystalCoins money.toNat)
          { server := server, created := [] })
    else addCrystalCoins w internalAddItem flags (crystalCoins money.toNat)
      { server := server, created := [] })
  rw [Nat.mul_one] at hgoldWorth
  have hsum : ((crystals ++ platinum ++ gold).map getWorth).sum =
      crystalCoins money.toNat * 10000 +
      (if platinumCoins money.toNat ≠ 0 then stackCount (platinumCoins money.toNat) * 100
        else 0) +
      (if afterPlatinum money.toNat ≠ 0 then stackCount (afterPlatinum money.toNat)
        else 0) := by
    rw [List.map_append, List.map_append, List.sum_append, List.sum_append, hexact.worth,
      hplatinumWorth, hgoldWorth]
  rw [hgold, hplatinum, hcrystals, List.nil_append]
  constructor
  · rintro ⟨hcounts, hworth⟩
    refine ⟨hplatinumCounts.mp fun i hi => hcounts i (by simp [hi]),
      hgoldCounts.mp fun i hi => hcounts i (by simp [hi]), ?_⟩
    rw [← hsum]
    exact hworth
  · rintro ⟨hplatinum, hgold, hworth⟩
    refine ⟨?_, hsum.trans hworth⟩
    intro i hi
    rcases List.mem_append.mp hi with hi | hi
    · rcases List.mem_append.mp hi with hi | hi
      · exact hexact.counts i hi
      · exact hplatinumCounts.mpr hplatinum i hi
    · exact hgoldCounts.mpr hgold i hi

theorem addMoney_exact_iff (h : HasCoins w) (money : BitVec 64) (server : σ) :
    Exact (addMoney w internalAddItem flags money server).created money.toNat ↔
      PaidExactly money.toNat := by
  by_cases hmoney : money.toNat = 0
  · rw [addMoney]
    simp only [hmoney, if_true]
    constructor
    · intro _
      exact ⟨by omega, .inl (by omega)⟩
    · intro _
      exact ⟨by simp, by simp⟩
  · rw [exact_created_iff internalAddItem flags h server hmoney, smallCoins_iff]

end

/-! ### A server with coins -/

/-- The item table, with three kinds of coins and no other type. -/
def coinWorld : World where
  itemType id :=
    if id = ITEM_GOLD_COIN ∨ id = ITEM_PLATINUM_COIN ∨ id = ITEM_CRYSTAL_COIN then
      { id := id, stackable := true, moveable := true }
    else {}
  addUniqueItem _ := true
  getNameByGuid _ := []

theorem coinWorld_hasCoins : HasCoins coinWorld :=
  ⟨⟨rfl, rfl, rfl, rfl⟩, ⟨rfl, rfl, rfl, rfl⟩, ⟨rfl, rfl, rfl, rfl⟩⟩

/-- Every cylinder has room. -/
def roomy : AddItem Unit := fun _ _ _ s => (true, s)

theorem addMoney_exact_iff_coinWorld :
    Exact (addMoney coinWorld roomy 0 4294969999 ()).created 4294969999 ↔
      PaidExactly 4294969999 :=
  addMoney_exact_iff roomy 0 coinWorld_hasCoins 4294969999 ()

/-- A payment of 2³² crystal coins is one gold coin. -/
theorem addMoney_loses_crystal_coins :
    (addMoney coinWorld roomy 0 42949672960000 ()).created =
      [{ id := ITEM_GOLD_COIN, count := 1 }] ∧
    ¬ Exact (addMoney coinWorld roomy 0 42949672960000 ()).created 42949672960000 := by
  have hcreated : (addMoney coinWorld roomy 0 42949672960000 ()).created =
      [{ id := ITEM_GOLD_COIN, count := 1 }] := by
    have hmoney : (42949672960000 : BitVec 64).toNat = 42949672960000 := by rfl
    have hcrystal : crystalCoins 42949672960000 = 0 := by rfl
    have hplatinum : platinumCoins 42949672960000 = 0 := by rfl
    have hgold : afterPlatinum 42949672960000 = 42949672960000 := by rfl
    rw [addMoney]
    simp only [hmoney, hcrystal, hplatinum, hgold]
    rw [addCrystalCoins]
    rfl
  refine ⟨hcreated, ?_⟩
  intro hexact
  have hworth := hexact.worth
  rw [hcreated] at hworth
  simp [getWorth] at hworth

end Infernum.Money
