import Infernum.Lib.Ancestry
import Infernum.Tile.Tile

/-!
# Counting and removing items of a type

The items that a player wears lie in the slots, and more lie in the containers among them.
`getItemTypeCount` counts the items of a type, `removeItemOfType` looks for as many as are
to be removed and hands them to `Game::internalRemoveItems`.
-/

namespace Infernum.Inventory

open Lib (Rose Placed)

/-- An item under its pointer. -/
structure Entry where
  item : Nat
  object : Object

/-- An item with what lies in it. -/
abbrev Held := Rose Entry

/-- What an item lies in. -/
inductive Place where
  | slot (n : Nat)
  | item (i : Nat)
  deriving DecidableEq, Repr

def Entry.place (e : Entry) : Place := .item e.item

/-- The slots from `CONST_SLOT_FIRST` to `CONST_SLOT_LAST`. -/
abbrev Slots := List (Option Held)

/-- An item where it lies. -/
abbrev Record := Placed Entry Place

/-- All items, the first slot being the `n`th. -/
def records (n : Nat) : Slots → List Record
  | [] => []
  | none :: slots => records (n + 1) slots
  | some t :: slots => Rose.placed Entry.place [.slot n] t ++ records (n + 1) slots

def pointers (slots : Slots) : List Nat := (records 0 slots).map fun r => r.label.item

/-- Take out the item with a pointer. -/
def prune (i : Nat) (slots : Slots) : Slots :=
  slots.map fun slot => slot.bind fun t =>
    if t.label.place = .item i then none else some (t.prune Entry.place (.item i))

def Entry.setObject (i : Nat) (o : Object) (e : Entry) : Entry :=
  if e.item = i then ⟨i, o⟩ else e

/-- Give the item with a pointer other values. -/
def setObject (i : Nat) (o : Object) (slots : Slots) : Slots :=
  slots.map fun slot => slot.map (Rose.map (Entry.setObject i o))

theorem records_prune (i n : Nat) (slots : Slots) :
    records n (prune i slots) =
      (records n slots).filter (Rose.Outside Entry.place (.item i) ·) := by
  induction slots generalizing n with
  | nil => rfl
  | cons slot slots ih =>
    have hslot : Place.item i ∉ [Place.slot n] := by simp
    cases slot with
    | none => exact ih (n + 1)
    | some t =>
      have hpruned : Rose.placedList Entry.place [.slot n]
          (Rose.pruneList Entry.place (.item i) [t]) = _ := Rose.placedList_prune hslot [t]
      simp only [Rose.pruneList, Rose.placedList, List.append_nil] at hpruned
      show records n (ite _ none (some _) :: prune i slots) = _
      rw [records, List.filter_append, ← hpruned, ← ih (n + 1)]
      by_cases ht : t.label.place = .item i
      · rw [if_pos ht, if_pos ht]
        rfl
      · rw [if_neg ht, if_neg ht, Rose.placedList, Rose.placedList, List.append_nil]
        rfl

theorem records_setObject (i : Nat) (o : Object) (n : Nat) (slots : Slots) :
    records n (setObject i o slots) =
      (records n slots).map (Placed.relabel (Entry.setObject i o)) := by
  have hplace : ∀ e : Entry, (e.setObject i o).place = e.place := by
    intro e
    rw [Entry.setObject]
    split
    · next h =>
      rw [Entry.place, Entry.place, h]
    · rfl
  induction slots generalizing n with
  | nil => rfl
  | cons slot slots ih =>
    cases slot with
    | none => exact ih (n + 1)
    | some t =>
      show records n (some (t.map _) :: setObject i o slots) = _
      rw [records, records, List.map_append, Rose.placed_map hplace, ih (n + 1)]

variable (w : World)

/-- `Item::countByType`. -/
def countByType (o : Object) (subType : Int) : BitVec 32 :=
  if subType = -1 ∨ subType = (o.getSubType w).toNat then o.count.setWidth 32 else 0

/-- The items that the iterator of a container comes to. -/
def iterator (t : Held) : List Entry := Rose.breadth t.children

/-- One slot of the count. -/
def countSlot (itemId : BitVec 16) (subType : Int) (count : BitVec 32) (slot : Option Held) :
    BitVec 32 :=
  match slot with
  | none => count
  | some item =>
    let count :=
      if item.label.object.id = itemId then count + countByType w item.label.object subType
      else count
    (iterator item).foldl
      (fun count e =>
        if e.object.id = itemId then count + countByType w e.object subType else count)
      count

/-- `itemList` and `count` of the search. -/
structure Found where
  itemList : List Entry := []
  count : BitVec 32 := 0

/-- An item of the type; once there are enough the search returns the list. -/
def Found.push (amount : BitVec 32) (subType : Int) (f : Found) (e : Entry) :
    Except (List Entry) Found :=
  let itemCount := countByType w e.object subType
  if itemCount = 0 then .ok f
  else
    let f : Found := ⟨f.itemList ++ [e], f.count + itemCount⟩
    if amount ≤ f.count then .error f.itemList else .ok f

/-- One slot of the search. -/
def Found.search (itemId : BitVec 16) (amount : BitVec 32) (subType : Int)
    (ignoreEquipped : Bool) (f : Found) (slot : Option Held) : Except (List Entry) Found :=
  match slot with
  | none => .ok f
  | some item =>
    if ignoreEquipped = false ∧ item.label.object.id = itemId then
      f.push w amount subType item.label
    else
      (iterator item).foldlM
        (fun f e => if e.object.id = itemId then f.push w amount subType e else .ok f) f

/-- The slots of a player: every item has its own pointer. -/
structure Player where
  slots : Slots
  distinct : (pointers slots).Nodup

namespace Player

variable (p : Player)

/-- All items of the player, where they lie. -/
def all : List Record := records 0 p.slots

def prune (i : Nat) : Player where
  slots := Infernum.Inventory.prune i p.slots
  distinct := by
    rw [pointers, records_prune]
    exact p.distinct.sublist (List.filter_sublist.map _)

def setObject (i : Nat) (o : Object) : Player where
  slots := Infernum.Inventory.setObject i o p.slots
  distinct := by
    have hsame : ∀ r : Record, (r.relabel (Entry.setObject i o)).label.item = r.label.item := by
      intro r
      show (Entry.setObject i o r.label).item = _
      rw [Entry.setObject]
      split
      · next h => exact h.symm
      · rfl
    rw [pointers, records_setObject, List.map_map]
    exact (List.map_congr_left fun r _ => hsame r) ▸ p.distinct

/-! ## Counting -/

def getItemTypeCount (itemId : BitVec 16) (subType : Int) : BitVec 32 :=
  p.slots.foldl (countSlot w itemId subType) 0

/-! ## Removing -/

/-- `removeThing` of a player or a container. -/
def removeThing (i : Nat) (o : Object) (count : BitVec 32) : Player :=
  if (w.itemType o.id).stackable = true ∧ count ≠ o.count.setWidth 32 then
    let newCount := (max 0 (o.count.setWidth 32 - count).toInt).toNat
    p.setObject i { o with toItem := o.toItem.setItemCount (.ofNat 16 (newCount % 256)) }
  else p.prune i

/-- `Game::internalRemoveItem`; no count stands for all of it. An item that has gone with
what it lay in is taken out of that. -/
def internalRemoveItem (e : Entry) (count : Option (BitVec 32)) : Player :=
  match p.all.find? fun r => r.label.item = e.item with
  | none => p
  | some r =>
    let o := r.label.object
    let count := count.getD (o.count.setWidth 32)
    -- `queryRemove`, with `FLAG_IGNORENOTMOVEABLE`
    if count = 0 ∨ ((w.itemType o.id).stackable = true ∧ o.count.setWidth 32 < count) then p
    else if o.canRemove = false then p
    else p.removeThing w e.item o count

/-- The loop over stackable items. -/
def removeFromItems (amount : BitVec 32) : List Entry → Player → Player
  | [], p => p
  | e :: itemList, p =>
    if amount < e.object.count.setWidth 32 then p.internalRemoveItem w e (some amount)
    else
      removeFromItems (amount - e.object.count.setWidth 32) itemList
        (p.internalRemoveItem w e none)

/-- `Game::internalRemoveItems`. Each item is in the list once, so that it is still as it
was found. -/
def internalRemoveItems (itemList : List Entry) (amount : BitVec 32) (stackable : Bool) :
    Player :=
  if stackable then removeFromItems w amount itemList p
  else itemList.foldl (fun p e => p.internalRemoveItem w e none) p

def removeItemOfType (itemId : BitVec 16) (amount : BitVec 32) (subType : Int)
    (ignoreEquipped : Bool) : Bool × Player :=
  if amount = 0 then (true, p)
  else
    match p.slots.foldlM (Found.search w itemId amount subType ignoreEquipped) {} with
    | .error itemList =>
      (true, p.internalRemoveItems w itemList amount (w.itemType itemId).stackable)
    | .ok _ => (false, p)

end Player

end Infernum.Inventory
