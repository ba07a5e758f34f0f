import Infernum.Container.Exact
import Infernum.Equip.Equip

/-!
# The weight that a player carries

`inventoryWeight` is counted again when a notification reaches the player as the owner of
a slot or as the top parent of a container. A container sends it on along `getTopParent`,
which stops below the cylinder without a parent: for a player that is on no tile this is
the container in the slot, and the player hears of it as somebody near only. Depot lockers,
depot chests and inboxes send to their parents in their own way. Where the item comes from
or goes to decides on the shop's list, not on the weight.
-/

namespace Infernum.CarriedWeight

open Equip (Slot)

/-! ### Notifications -/

/-- `cylinderlink_t`. -/
inductive Link where
  | owner
  | parent
  | topParent
  | near
  deriving DecidableEq, Repr

/-- What a notification comes through on its way up. A `DepotChest` or an `Inbox` is
`chest`. -/
inductive Station where
  | container
  | depotLocker
  | chest
  | player
  | tile
  deriving DecidableEq, Repr

/-- `getParent`, with the cylinders from this one up. That of a chest is the parent of
what it lies in. -/
def getParent : List Station → List Station
  | [] => []
  | .chest :: above => getParent above
  | _ :: above => above

theorem length_getParent (s : Station) (above : List Station) :
    (getParent (s :: above)).length ≤ above.length := by
  induction above generalizing s with
  | nil => cases s <;> simp [getParent]
  | cons s' above ih =>
      cases s with
      | chest =>
          have h := ih s'
          rw [getParent, List.length_cons]
          omega
      | container => rfl
      | depotLocker => rfl
      | player => rfl
      | tile => rfl

theorem getParent_lt {aux : List Station} (h : getParent aux ≠ []) :
    (getParent aux).length < aux.length := by
  cases aux with
  | nil => exact absurd rfl h
  | cons s above =>
      have hle := length_getParent s above
      rw [List.length_cons]
      omega

/-- The loop of `getTopParent`. -/
def topLoop (prevaux aux : List Station) : List Station :=
  if _h : getParent aux = [] then prevaux else topLoop aux (getParent aux)
termination_by aux.length
decreasing_by exact getParent_lt _h

/-- `Item::getTopParent`, of a container. -/
def getTopParent (this : List Station) : List Station :=
  if getParent this = [] then this else topLoop this (getParent this)

/-- `postAddNotification` and `postRemoveNotification`: whether a player on the way calls
`updateInventoryWeight`. The cylinders above one another differ in how many there are. -/
def recounts : List Station → Link → Bool
  | [], _ => false
  | .player :: _, link => link == .owner || link == .topParent
  -- the players near it are told so
  | .tile :: _, _ => false
  | .depotLocker :: above, _ => recounts above .parent
  | .chest :: above, _ => recounts (getParent (.chest :: above)) .parent
  | .container :: above, _ =>
      let topParent := getTopParent (.container :: above)
      if topParent.head? = some .player then
        -- `topParent->getCreature()`
        true
      else if _h : topParent.length < above.length + 1 then recounts topParent .parent
      else recounts above .near
termination_by chain => chain.length
decreasing_by
  · exact Nat.lt_succ_self above.length
  · exact Nat.lt_succ_of_le (length_getParent .chest above)
  · exact _h
  · exact Nat.lt_succ_self above.length

/-! ### Players -/

variable (w : WeightWorld)

/-- The fields of a `Player` that have to do with its load. -/
structure Carrier where
  inventory : Slot → Option Content
  inventoryWeight : BitVec 32 := 0
  capacity : BitVec 32
  /-- `PlayerFlag_HasInfiniteCapacity` -/
  hasInfiniteCapacity : Bool := false
  /-- `PlayerFlag_CannotPickupItem` -/
  cannotPickupItem : Bool := false
  /-- `tile` is not null -/
  onTile : Bool

/-- `CONST_SLOT_FIRST` to `CONST_SLOT_LAST`. -/
def slots : List Slot := Equip.State.slots

/-- The slot at an index. -/
def slotAt (index : Int) : Option Slot :=
  if index < 1 then none else slots[(index - 1).toNat]?

namespace Carrier

variable (c : Carrier)

/-- The items in the slots. -/
def carried : List Content := slots.filterMap c.inventory

def updateInventoryWeight : Carrier :=
  if c.hasInfiniteCapacity then c
  else
    { c with
      inventoryWeight := slots.foldl (fun inventoryWeight i =>
        (c.inventory i).elim inventoryWeight fun item => inventoryWeight + item.getWeight w) 0 }

def getFreeCapacity : BitVec 32 :=
  if c.cannotPickupItem then 0
  else if c.hasInfiniteCapacity then BitVec.allOnes 32
  else .ofInt 32 (max 0 (c.capacity - c.inventoryWeight).toInt)

def setSlot (slot : Slot) (item : Option Content) : Carrier :=
  { c with inventory := Function.update c.inventory slot item }

/-! The functions of `Player` give back what lies in no cylinder then. -/

def addThing (index : Int) (item : Content) : Carrier × List Content :=
  (slotAt index).elim (c, [item]) fun slot =>
    (c.setSlot slot (some item), (c.inventory slot).toList)

/-- `updateThing`, for the item in a slot. -/
def updateThing (slot : Slot) (itemId : BitVec 16) (count : BitVec 32) : Carrier :=
  (c.inventory slot).elim c fun item =>
    c.setSlot slot (some (item.setObject ((item.object.setID w.toTileWorld itemId).setSubType
      w.toTileWorld (count.setWidth 16))))

def replaceThing (index : Nat) (item : Content) : Carrier × List Content :=
  (slotAt index).elim (c, [item]) fun slot =>
    (c.inventory slot).elim (c, [item]) fun oldItem =>
      (c.setSlot slot (some item), [oldItem])

/-- `removeThing`, for the item in a slot. -/
def removeThing (slot : Slot) (count : BitVec 32) : Carrier × List Content :=
  (c.inventory slot).elim (c, []) fun item =>
    let o := item.object
    if (o.itemType w.toTileWorld).stackable ∧ count ≠ o.count.setWidth 32 then
      let newCount := (max 0 (o.count.setWidth 32 - count).toInt).toNat
      (c.setSlot slot (some (item.setObject { o with
        toItem := o.toItem.setItemCount (.ofNat 16 (newCount % 256)) })), [])
    else (c.setSlot slot none, [item])

end Carrier

/-! ### Carried containers -/

/-- Which class a container is of. -/
def station (h : Holder) : Station :=
  if h.container.any (·.hidesParent) then .chest
  else if h.object.cls = .depotLocker then .depotLocker
  else .container

/-- The containers from the one at the end of a path up to the item in the slot. -/
def holders : List Nat → Content → List Station
  | [], t => [station t.label]
  | k :: path, t => (t.children[k]?).elim [] fun item => holders path item ++ [station t.label]

/-- Where a notification starts: at the player, or at a container in one of its slots. -/
inductive Source where
  | inventory
  | container (slot : Slot) (path : List Nat)

namespace Carrier

variable (c : Carrier)

/-- The player, and its tile. -/
def self : List Station := .player :: if c.onTile then [.tile] else []

/-- The cylinders from the source up. -/
def chain : Source → List Station
  | .inventory => c.self
  | .container slot path => (c.inventory slot).elim [] fun t => holders path t ++ c.self

/-- A notification, with the link that callers leave at its default. -/
def postNotification (source : Source) : Carrier :=
  if recounts (c.chain source) .owner then c.updateInventoryWeight w else c

/-- An operation on a container. -/
def perform (slot : Slot) (path : List Nat) (op : Container → List Content → Change) :
    Option (Carrier × List Content) :=
  (c.inventory slot).bind fun t =>
    (t.perform op path).map fun r => (c.setSlot slot (some r.1), r.2.2)

end Carrier

/-! ### Runs -/

/-- What is done with the items in a cylinder; `j` says which of the items that lie in no
cylinder is put there. -/
inductive Edit where
  | addThing (index : Int) (j : Nat)
  | updateThing (index : Nat) (itemId : BitVec 16) (count : BitVec 32)
  | replaceThing (index : Nat) (j : Nat)
  | removeThing (index : Nat) (count : BitVec 32)

/-- An edit of the slots, with the items that are in no cylinder before and after it. -/
def editSlots (c : Carrier) (loose : Forest) : Edit → Carrier × Forest
  | .addThing index j =>
      (loose[j]?).elim (c, loose) fun item =>
        ((c.addThing index item).1, loose.eraseIdx j ++ (c.addThing index item).2)
  | .updateThing index itemId count =>
      (slotAt index).elim (c, loose) fun slot => (c.updateThing w slot itemId count, loose)
  | .replaceThing index j =>
      (loose[j]?).elim (c, loose) fun item =>
        ((c.replaceThing index item).1, loose.eraseIdx j ++ (c.replaceThing index item).2)
  | .removeThing index count =>
      (slotAt index).elim (c, loose) fun slot =>
        ((c.removeThing w slot count).1, loose ++ (c.removeThing w slot count).2)

/-- An edit of a container; an item that it takes is no longer in `loose`. -/
def editContainer (c : Carrier) (loose : Forest) (slot : Slot) (path : List Nat) :
    Edit → Carrier × Forest
  | .addThing index j =>
      (loose[j]?).elim (c, loose) fun item =>
        (c.perform slot path fun k => k.addThing w index item).elim (c, loose) fun r =>
          (r.1, loose.eraseIdx j ++ r.2)
  | .updateThing index itemId count =>
      (c.perform slot path fun _ => Container.updateThing w index itemId count).elim (c, loose)
        fun r => (r.1, loose ++ r.2)
  | .replaceThing index j =>
      (loose[j]?).elim (c, loose) fun item =>
        (c.perform slot path fun _ => Container.replaceThing w index item).elim (c, loose)
          fun r => (r.1, loose.eraseIdx j ++ r.2)
  | .removeThing index count =>
      (c.perform slot path fun _ => Container.removeThing w index count).elim (c, loose)
        fun r => (r.1, loose ++ r.2)

/-- The players, the items that lie in no cylinder of theirs, and to which of the players
a notification is still to be sent. -/
structure State where
  player : Nat → Carrier
  loose : Forest
  owed : Nat → Bool

inductive Op where
  /-- items of a player change, in the slots or in a container -/
  | edit (p : Nat) (source : Source) (e : Edit)
  /-- the notification for it -/
  | notify (p : Nat) (source : Source)
  /-- the player is placed on the map -/
  | place (p : Nat)
  /-- something happens to the other items -/
  | elsewhere (op : Infernum.Op)

def Carrier.edit (c : Carrier) (loose : Forest) (e : Edit) : Source → Carrier × Forest
  | .inventory => editSlots w c loose e
  | .container slot path => editContainer w c loose slot path e

def step (s : State) : Op → State
  | .edit p source e =>
      { player := Function.update s.player p ((s.player p).edit w s.loose e source).1
        loose := ((s.player p).edit w s.loose e source).2
        owed := Function.update s.owed p true }
  | .notify p source =>
      { s with
        player := Function.update s.player p ((s.player p).postNotification w source)
        owed := Function.update s.owed p false }
  | .place p =>
      { s with player := Function.update s.player p { s.player p with onTile := true } }
  | .elsewhere op => { s with loose := s.loose.run w op }

/-- Runs from players that have been loaded, which `loadPlayer` ends with
`updateInventoryWeight`. -/
def system : Lib.TSys State Op where
  init s := ∀ p, s.player p = (s.player p).updateInventoryWeight w ∧ s.owed p = false
  step s op s' := s' = step w s op

/-- The container is a plain one in plain ones, and its holder is on a tile. -/
def Heard (c : Carrier) : Source → Prop
  | .inventory => True
  | .container slot path => c.onTile = true ∧ ∃ t, c.inventory slot = some t ∧
      holders path t ≠ [] ∧ ∀ s ∈ holders path t, s = .container

/-- Notifications come from where they are heard. -/
def NotifiesHeard (s : State) : Op → Prop
  | .notify p source => Heard (s.player p) source
  | _ => True

/-! ### What is heard -/

variable {w}

theorem topLoop_eq (prevaux aux : List Station) :
    topLoop prevaux aux = if getParent aux = [] then prevaux else topLoop aux (getParent aux) := by
  rw [topLoop]
  split <;> rfl

/-- With the player on a tile, the loop ends at the player. -/
theorem topLoop_onTile {cs : List Station} (hcs : ∀ s ∈ cs, s = .container)
    (prevaux : List Station) :
    topLoop prevaux (cs ++ [.player, .tile]) = [.player, .tile] := by
  induction cs generalizing prevaux with
  | nil => simp [topLoop_eq, getParent]
  | cons s cs ih =>
      obtain rfl : s = .container := hcs s List.mem_cons_self
      rw [topLoop_eq, List.cons_append, getParent, if_neg (by simp)]
      · exact ih (fun s hs => hcs s (List.mem_cons_of_mem _ hs)) _
      · simp

/-- Without a tile the loop ends at the container in the slot. -/
theorem topLoop_offTile {cs : List Station} (hcs : ∀ s ∈ cs, s = .container)
    (prevaux : List Station) :
    topLoop prevaux (cs ++ [.player]) = if cs = [] then prevaux else [.container, .player] := by
  induction cs generalizing prevaux with
  | nil => simp [topLoop_eq, getParent]
  | cons s cs ih =>
      obtain rfl : s = .container := hcs s List.mem_cons_self
      rw [topLoop_eq, List.cons_append, getParent, if_neg (by simp),
        ih (fun s hs => hcs s (List.mem_cons_of_mem _ hs))]
      · by_cases hnil : cs = []
        · simp [hnil]
        · simp [hnil]
      · simp

theorem recounts_onTile {cs : List Station} (hne : cs ≠ []) (hcs : ∀ s ∈ cs, s = .container)
    (link : Link) : recounts (cs ++ [.player, .tile]) link = true := by
  cases cs with
  | nil => exact absurd rfl hne
  | cons s cs =>
      obtain rfl : s = .container := hcs s List.mem_cons_self
      have htop : getTopParent (.container :: (cs ++ [.player, .tile])) = [.player, .tile] := by
        rw [getTopParent, getParent, if_neg (by simp)]
        · exact topLoop_onTile (fun s hs => hcs s (List.mem_cons_of_mem _ hs)) _
        · simp
      rw [List.cons_append, recounts, htop]
      simp

/-- A player on no tile does not hear of its containers. -/
theorem recounts_offTile {cs : List Station} (hne : cs ≠ []) (hcs : ∀ s ∈ cs, s = .container)
    (link : Link) : recounts (cs ++ [.player]) link = false := by
  have hslot : ∀ link, recounts [.container, .player] link = false := by
    intro link
    simp [recounts, getTopParent, getParent, topLoop_eq]
  cases cs with
  | nil => exact absurd rfl hne
  | cons s cs =>
      obtain rfl : s = .container := hcs s List.mem_cons_self
      cases cs with
      | nil => exact hslot link
      | cons s cs =>
          have htop : getTopParent (.container :: (s :: cs ++ [.player])) =
              [.container, .player] := by
            rw [getTopParent, getParent, if_neg (by simp)]
            · rw [topLoop_offTile (fun s hs => hcs s (List.mem_cons_of_mem _ hs)),
                if_neg (by simp)]
            · simp
          rw [List.cons_append, recounts, htop]
          simp [hslot]

/-! ### The count -/

theorem foldl_weight (inventory : Slot → Option Content) (l : List Slot) (b : BitVec 32) :
    l.foldl (fun inventoryWeight i =>
      (inventory i).elim inventoryWeight fun item => inventoryWeight + item.getWeight w) b =
        b + weigh w (l.filterMap inventory) := by
  induction l generalizing b with
  | nil => exact (add_zero b).symm
  | cons slot l ih =>
      rw [List.foldl_cons, ih]
      cases hslot : inventory slot with
      | none => rw [List.filterMap_cons_none hslot, Option.elim_none]
      | some item =>
          rw [List.filterMap_cons_some hslot, weigh_cons, Option.elim_some, add_assoc]

/-- `inventoryWeight` is what the items in the slots weigh. -/
def Exact (w : WeightWorld) (c : Carrier) : Prop := c.inventoryWeight = weigh w c.carried

theorem exact_updateInventoryWeight {c : Carrier} (hflag : c.hasInfiniteCapacity = false) :
    Exact w (c.updateInventoryWeight w) := by
  rw [Exact, Carrier.updateInventoryWeight, if_neg (by simp [hflag])]
  have hcount := foldl_weight (w := w) c.inventory slots 0
  rw [zero_add] at hcount
  exact hcount

theorem exact_postNotification {c : Carrier} (hflag : c.hasInfiniteCapacity = false)
    {source : Source} (hheard : Heard c source) : Exact w (c.postNotification w source) := by
  have hrecounts : recounts (c.chain source) .owner = true := by
    cases source with
    | inventory =>
        rw [Carrier.chain, Carrier.self, recounts]
        rfl
    | container slot path =>
        obtain ⟨htile, t, hslot, hne, hbags⟩ := hheard
        rw [Carrier.chain, hslot, Option.elim_some, Carrier.self, htile]
        exact recounts_onTile hne hbags .owner
  rw [Carrier.postNotification, if_pos hrecounts]
  exact exact_updateInventoryWeight hflag

/-! ### Whole runs -/

theorem updateInventoryWeight_flag (c : Carrier) :
    (c.updateInventoryWeight w).hasInfiniteCapacity = c.hasInfiniteCapacity := by
  rw [Carrier.updateInventoryWeight]
  split <;> rfl

/-- A notification changes the weight at most. -/
theorem postNotification_eq (c : Carrier) (source : Source) :
    ∃ weight, c.postNotification w source = { c with inventoryWeight := weight } := by
  rw [Carrier.postNotification, Carrier.updateInventoryWeight]
  split
  · split
    · exact ⟨_, rfl⟩
    · exact ⟨_, rfl⟩
  · exact ⟨_, rfl⟩

/-- Whoever is owed no notification has the exact weight. -/
def Counted (w : WeightWorld) (s : State) : Prop :=
  ∀ p, (s.player p).hasInfiniteCapacity = false → s.owed p = false → Exact w (s.player p)

theorem counted_step {s : State} (h : Counted w s) {op : Op} (hheard : NotifiesHeard s op) :
    Counted w (step w s op) := by
  intro p hflag howed
  cases op with
  | edit q source e =>
      by_cases hpq : p = q
      · -- the notification for the edit is still to come
        simp [step, hpq] at howed
      · simp only [step, Function.update_of_ne hpq] at hflag howed ⊢
        exact h p hflag howed
  | notify q source =>
      by_cases hpq : p = q
      · subst hpq
        simp only [step, Function.update_self] at hflag ⊢
        obtain ⟨weight, heq⟩ := postNotification_eq (w := w) (s.player p) source
        exact exact_postNotification (by simpa [heq] using hflag) hheard
      · simp only [step, Function.update_of_ne hpq] at hflag howed ⊢
        exact h p hflag howed
  | place q =>
      by_cases hpq : p = q
      · subst hpq
        simp only [step, Function.update_self] at hflag howed ⊢
        exact h p hflag howed
      · simp only [step, Function.update_of_ne hpq] at hflag howed ⊢
        exact h p hflag howed
  | elsewhere op => exact h p hflag howed

theorem counted_of_reach {s : State} (hreach : (system w).Reach NotifiesHeard s) :
    Counted w s := by
  apply Lib.TSys.Inductive.invariant ?_ hreach
  constructor
  · intro s hinit p hflag _
    obtain ⟨hload, -⟩ := hinit p
    rw [hload] at hflag ⊢
    rw [updateInventoryWeight_flag] at hflag
    exact exact_updateInventoryWeight hflag
  · rintro s op _ h hheard rfl
    exact counted_step h hheard

/-! ### Without wrap-around -/

theorem toNat_weigh {items : List Content}
    (hlt : (items.map fun t => (t.getWeight w).toNat).sum < 2 ^ 32) :
    (weigh w items).toNat = (items.map fun t => (t.getWeight w).toNat).sum := by
  induction items with
  | nil => rfl
  | cons t items ih =>
      rw [List.map_cons, List.sum_cons] at hlt ⊢
      rw [weigh_cons, BitVec.toNat_add, ih (by omega), Nat.mod_eq_of_lt hlt]

theorem getFreeCapacity_toNat {c : Carrier} (hpickup : c.cannotPickupItem = false)
    (hflag : c.hasInfiniteCapacity = false) (hcapacity : c.capacity.toNat < 2 ^ 31)
    (hweight : c.inventoryWeight.toNat < 2 ^ 31) :
    c.getFreeCapacity.toNat = c.capacity.toNat - c.inventoryWeight.toNat := by
  have hdiff : (c.capacity - c.inventoryWeight).toInt =
      (c.capacity.toNat : Int) - c.inventoryWeight.toNat := by
    rw [BitVec.toInt_sub, BitVec.toInt_eq_toNat_of_lt (by omega),
      BitVec.toInt_eq_toNat_of_lt (by omega), Int.bmod_eq_of_le (by omega) (by omega)]
  rw [Carrier.getFreeCapacity, hpickup, hflag, hdiff]
  simp only [Bool.false_eq_true, if_false, BitVec.toNat_ofInt]
  omega

/-- In every run, a player without infinite capacity that is owed no notification has the
weight of the items in its slots, and as much free capacity as it should have. -/
theorem inventoryWeight_of_reach {s : State} (hreach : (system w).Reach NotifiesHeard s)
    (p : Nat) (hflag : (s.player p).hasInfiniteCapacity = false) (howed : s.owed p = false) :
    let c := s.player p
    let total := (c.carried.map fun t => (t.getWeight w).toNat).sum
    c.inventoryWeight = (c.carried.map (Content.getWeight w)).sum ∧
    (total < 2 ^ 32 → c.inventoryWeight.toNat = total) ∧
    (c.cannotPickupItem = false → c.capacity.toNat < 2 ^ 31 → total < 2 ^ 31 →
      c.getFreeCapacity.toNat = c.capacity.toNat - total) := by
  have hexact : Exact w (s.player p) := counted_of_reach hreach p hflag howed
  have hnat : ((s.player p).carried.map fun t => (t.getWeight w).toNat).sum < 2 ^ 32 →
      (s.player p).inventoryWeight.toNat =
        ((s.player p).carried.map fun t => (t.getWeight w).toNat).sum := by
    intro hlt
    rw [hexact, toNat_weigh hlt]
  refine ⟨hexact, hnat, ?_⟩
  intro hpickup hcapacity htotal
  have hweight := hnat (by omega)
  show (s.player p).getFreeCapacity.toNat = _
  rw [getFreeCapacity_toNat hpickup hflag hcapacity (by omega), hweight]

/-! ### A bag in a bag -/

open Forest (bagWorld)

/-- A bag, and 50 pieces that are to go into it. -/
def supplies : Forest :=
  (Forest.run bagWorld [] (.createItem 1 0)).run bagWorld (.createItem 2 50)

/-- A bag with a bag in it. -/
def luggage : Option Content :=
  (((Forest.run bagWorld [] (.createItem 1 0)).run bagWorld (.createItem 1 0)).run bagWorld
    (.internalAddThing 0 [] 1)).head?

def traveller : Carrier where
  inventory slot := if slot = .backpack then luggage else none
  inventoryWeight := 20
  capacity := 40000
  onTile := true

def departure : State where
  player _ := traveller
  loose := supplies
  owed _ := false

/-- The pieces are put into the inner bag. -/
def packing : State := step bagWorld departure (.edit 0 (.container .backpack [0]) (.addThing 0 1))

def packed : State := step bagWorld packing (.notify 0 (.container .backpack [0]))

theorem reach_packed : (system bagWorld).Reach NotifiesHeard packed := by
  have hstart : (system bagWorld).Reach NotifiesHeard departure :=
    .start fun _ => ⟨rfl, rfl⟩
  have hadd : NotifiesHeard departure
      (.edit 0 (.container .backpack [0]) (.addThing 0 1)) := trivial
  have hedit : (system bagWorld).Reach NotifiesHeard packing := hstart.next hadd rfl
  have hheard : NotifiesHeard packing (.notify 0 (.container .backpack [0])) :=
    ⟨rfl, _, rfl, by decide, by decide⟩
  have hstep : (system bagWorld).step packing (.notify 0 (.container .backpack [0])) packed := by
    show packed = step bagWorld packing _
    rfl
  exact hedit.next hheard hstep

theorem inventoryWeight_of_reach_packed :
    (packed.player 0).inventoryWeight = 1020 ∧
    (packed.player 0).getFreeCapacity.toNat = 40000 - 1020 := by
  obtain ⟨weight, hplayer⟩ : ∃ weight, packed.player 0 =
      { packing.player 0 with inventoryWeight := weight } := by
    simpa [packed, step] using
      postNotification_eq (w := bagWorld) (packing.player 0) (.container .backpack [0])
  have hflag : (packed.player 0).hasInfiniteCapacity = false := by
    rw [hplayer]
    rfl
  have hcarried : (packed.player 0).carried = (packing.player 0).carried := by
    rw [hplayer]
    rfl
  have htotal : ((packing.player 0).carried.map fun t => (t.getWeight bagWorld).toNat).sum =
      1020 := by decide
  obtain ⟨hsum, -, hfree⟩ := inventoryWeight_of_reach reach_packed 0 hflag rfl
  rw [hcarried] at hsum hfree
  rw [htotal] at hfree
  have hcapacity : (packed.player 0).capacity = 40000 := by
    rw [hplayer]
    rfl
  refine ⟨hsum.trans (by decide), ?_⟩
  rw [hfree (by rw [hplayer]; rfl) (by rw [hcapacity]; decide) (by decide), hcapacity]
  rfl

/-! ### Players of whom the weight is not counted -/

/-- A player after an edit and its notification. -/
def edited (c : Carrier) (loose : Forest) (source : Source) (e : Edit) : Carrier :=
  (c.edit bagWorld loose e source).1.postNotification bagWorld source

theorem edited_eq {stations : List Station} {b : Bool} (hrecounts : recounts stations .owner = b)
    {c : Carrier} {loose : Forest} {source : Source} {e : Edit}
    (hchain : (c.edit bagWorld loose e source).1.chain source = stations) :
    edited c loose source e =
      if b then (c.edit bagWorld loose e source).1.updateInventoryWeight bagWorld
      else (c.edit bagWorld loose e source).1 := by
  rw [edited, Carrier.postNotification, hchain, hrecounts]

/-- What the items in the slots weigh together. -/
def total (c : Carrier) : Nat := (c.carried.map fun t => (t.getWeight bagWorld).toNat).sum

/-- Nothing but an item in the backpack slot, which is counted. -/
def owner (item : Option Content) (inventoryWeight : BitVec 32) : Carrier where
  inventory slot := if slot = .backpack then item else none
  inventoryWeight := inventoryWeight
  capacity := 40000
  onTile := true

def gamemaster : Carrier := { owner none 0 with hasInfiniteCapacity := true }

/-- The traveller before it is placed on the map. -/
def newcomer : Carrier := { traveller with onTile := false }

/-- A container whose `getParent` is the parent of the cylinder it lies in. -/
def chest : Content :=
  .node
    { object := { id := 1, cls := .container }
      container := some { maxSize := 20, hidesParent := true } }
    []

/-- An item that weighs `2 ^ 31`. -/
def anvil : Content :=
  .node
    { object :=
        { id := 4
          attributes := { int := fun k => if k = .weight then some 0x80000000 else none }
          cls := .item } }
    []

/-- The weight is not counted with infinite capacity, for a container of a player on no
tile, nor for a container that hides its parent, and it wraps around. -/
theorem gamemaster_not_counted :
    ((edited gamemaster supplies .inventory (.addThing 3 0)).inventoryWeight = 0 ∧
      total (edited gamemaster supplies .inventory (.addThing 3 0)) = 10) ∧
    ((edited newcomer supplies (.container .backpack [0]) (.addThing 0 1)).inventoryWeight = 20 ∧
      total (edited newcomer supplies (.container .backpack [0]) (.addThing 0 1)) = 1020) ∧
    ((edited (owner (some chest) 10) supplies (.container .backpack [])
        (.addThing 0 1)).inventoryWeight = 10 ∧
      total (edited (owner (some chest) 10) supplies (.container .backpack [])
        (.addThing 0 1)) = 1010) ∧
    ((edited (owner (some anvil) 0x80000000) [anvil] .inventory
        (.addThing 5 0)).inventoryWeight = 0 ∧
      total (edited (owner (some anvil) 0x80000000) [anvil] .inventory
        (.addThing 5 0)) = 2 ^ 32) := by
  have hself : recounts [.player, .tile] .owner = true := by
    rw [recounts]
    rfl
  have hchest : recounts [.chest, .player, .tile] .owner = false := by
    simp [recounts, getParent]
  have hnewcomer : recounts [.container, .container, .player] .owner = false := by
    have hbags : ([.container, .container] : List Station) ≠ [] := by simp
    exact recounts_offTile hbags (by simp) .owner
  refine ⟨?_, ?_, ?_, ?_⟩
  · rw [edited_eq hself rfl]
    decide
  · rw [edited_eq hnewcomer rfl]
    decide
  · rw [edited_eq hchest rfl]
    decide
  · rw [edited_eq hself rfl]
    decide

end Infernum.CarriedWeight
