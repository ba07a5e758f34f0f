import Infernum.Database.StaleRows
import Infernum.House.TileStore
import Mathlib.Algebra.Order.BigOperators.Group.List

/-!
# Saving the houses

`IOMapSerialize::saveHouseItems` replaces the rows of `tile_store`.
`IOMapSerialize::saveHouseInfo` replaces the access lists and updates or inserts
a row for each house; whether that succeeds it does not look at.
-/

namespace Infernum.IOMapSerialize

open Infernum.Database Infernum.Lib.Sql

/-! ## The database -/

/-- A row of `houses`. -/
structure HouseRow where
  owner : Nat
  paid : Int
  warnings : Nat
  name : String
  rent : Nat
  town_id : Nat
  bid : Int := 0
  bid_end : Int := 0
  last_bid : Int := 0
  highest_bidder : Int := 0
  size : Nat
  beds : Nat

/-- The other tables. -/
inductive HouseTable where
  | tile_store
  | house_lists
  deriving DecidableEq, Repr

/-- A row of `tile_store`. -/
structure TileStoreRow where
  house_id : Nat
  data : Option (List UInt8)
  abilities : Option (List UInt8)
  deriving DecidableEq, Repr

/-- A row of `house_lists`. -/
structure HouseListRow where
  house_id : Nat
  listid : Nat
  list : String
  deriving DecidableEq, Repr

/-- A row of one of the other tables. -/
abbrev HouseTable.Row : HouseTable → Type
  | .tile_store => TileStoreRow
  | .house_lists => HouseListRow

/-- The rows of all houses. -/
abbrev HouseRows := Rows Nat HouseRow HouseTable HouseTable.Row

/-! ## The houses -/

structure Door where
  doorId : Nat
  /-- `none` for a door that belongs to no house -/
  accessList : Option String

structure House where
  id : Nat
  owner : Nat
  paidUntil : Int
  rentWarnings : Nat
  houseName : String
  townId : Nat
  rent : Nat
  houseTiles : List (Position × Tile)
  /-- the number of bed parts -/
  beds : Nat
  guestList : String
  subOwnerList : String
  doors : List Door

/-- `House::getBedCount`: a bed takes two squares. -/
def House.getBedCount (house : House) : Nat := (house.beds + 1) / 2

/-- `HouseMap`. -/
structure Houses where
  houses : List House
  /-- a `std::map` -/
  ordered : (houses.map House.id).Pairwise (· < ·)

def GUEST_LIST : Nat := 0x100
def SUBOWNER_LIST : Nat := 0x101

variable (w : World) (packets : Packets HouseTable.Row)

/-- The blob of a stream. -/
def blobOrNull (stream : List UInt8) : Option (List UInt8) :=
  if stream.isEmpty then none else some stream

/-- The row of a tile, if something is written. -/
def tileRow (house : House) (tile : Position × Tile) : Option TileStoreRow :=
  let streams := saveTile w tile.1 tile.2
  if streams.data.isEmpty && streams.abilities.isEmpty then none
  else some ⟨house.id, blobOrNull streams.data, blobOrNull streams.abilities⟩

/-- The rows of `tile_store`. -/
def Houses.tileRows (hs : Houses) : List TileStoreRow :=
  hs.houses.flatMap fun house => house.houseTiles.filterMap (tileRow w house)

/-- The row of an access list, if it is not empty. -/
def listRow (house : House) (listid : Nat) (listText : String) : Option HouseListRow :=
  if listText.isEmpty then none else some ⟨house.id, listid, listText⟩

/-- The rows of `house_lists` of a house. -/
def House.listRows (house : House) : List HouseListRow :=
  (listRow house GUEST_LIST house.guestList).toList ++
    (listRow house SUBOWNER_LIST house.subOwnerList).toList ++
    house.doors.filterMap fun door => door.accessList.bind (listRow house door.doorId)

/-- The rows of `house_lists`. -/
def Houses.listRows (hs : Houses) : List HouseListRow := hs.houses.flatMap House.listRows

/-- `UPDATE houses`. -/
def House.updateRow (house : House) (row : HouseRow) : HouseRow :=
  { row with
    owner := house.owner, paid := house.paidUntil, warnings := house.rentWarnings,
    name := house.houseName, town_id := house.townId, rent := house.rent,
    size := house.houseTiles.length, beds := house.getBedCount }

/-- `INSERT INTO houses`. -/
def House.insertRow (house : House) : HouseRow where
  owner := house.owner
  paid := house.paidUntil
  warnings := house.rentWarnings
  name := house.houseName
  town_id := house.townId
  rent := house.rent
  size := house.houseTiles.length
  beds := house.getBedCount

/-! ## Saving -/

/-- `IOMapSerialize::saveHouseItems`. -/
def saveHouseItems (hs : Houses) : Op HouseRows :=
  withTransaction (replaceTable packets .tile_store (hs.tileRows w))

/-- `IOMapSerialize::saveHouseInfo`. -/
def saveHouseInfo (hs : Houses) : Op HouseRows :=
  withTransaction (checkAll
    ([execute (.delete .house_lists)] ++
      hs.houses.map (fun house => updateOrInsert house.id house.updateRow house.insertRow) ++
      [fill packets .house_lists hs.listRows]))

/-! ## The new rows -/

/-- The rows after the items have been saved. -/
def Houses.newItemRows (hs : Houses) (old : HouseRows) : HouseRows :=
  { old with table := fun t =>
      match t with
      | .tile_store => hs.tileRows w
      | .house_lists => old.table .house_lists }

/-- The rows after the houses have been saved. -/
def Houses.newInfoRows (hs : Houses) (old : HouseRows) : HouseRows where
  row id :=
    match hs.houses.find? fun house => house.id == id with
    | some house => some ((old.row id).elim house.insertRow house.updateRow)
    | none => old.row id
  table t :=
    match t with
    | .tile_store => old.table .tile_store
    | .house_lists => hs.listRows

/-- The steps of `saveHouseItems`. -/
def Houses.itemSteps (hs : Houses) : List (Step Nat HouseRow HouseTable HouseTable.Row) :=
  replaceSteps packets .tile_store (hs.tileRows w)

/-- The steps of `saveHouseInfo`. -/
def Houses.infoSteps (hs : Houses) : List (Step Nat HouseRow HouseTable HouseTable.Row) :=
  .must (.delete .house_lists) ::
    (hs.houses.map (fun house => .upsert house.id house.updateRow house.insertRow) ++
      fillSteps packets .house_lists hs.listRows)

theorem saveHouseItems_script (hs : Houses) :
    saveHouseItems w packets hs = script (hs.itemSteps w packets) := by
  rw [saveHouseItems, replaceTable_eq]
  rfl

theorem saveHouseInfo_script (hs : Houses) :
    saveHouseInfo packets hs = script (hs.infoSteps packets) := by
  have hsteps : (hs.infoSteps packets).map Step.op =
      [execute (.delete .house_lists)] ++
        hs.houses.map (fun house => updateOrInsert house.id house.updateRow house.insertRow) ++
        (fillSteps packets .house_lists hs.listRows).map Step.op := by
    rw [Houses.infoSteps, List.map_cons, List.map_append, List.map_map]
    rfl
  rw [saveHouseInfo, script, hsteps, fill_eq, checkAll_concat]

/-! ## All or nothing -/

theorem Houses.target_itemSteps (hs : Houses) (old : HouseRows) :
    target (hs.itemSteps w packets) old = hs.newItemRows w old := by
  have htarget := target_replaceSteps packets (fun t =>
    match t with
    | .tile_store => hs.tileRows w
    | .house_lists => []) [HouseTable.tile_store] old
  rw [List.flatMap_cons, List.flatMap_nil, List.append_nil] at htarget
  rw [Houses.itemSteps, htarget, Houses.newItemRows]
  refine Rows.ext rfl (funext fun t => ?_)
  cases t with
  | tile_store => rfl
  | house_lists => rfl

theorem Houses.itemSteps_replaces (hs : Houses) : Replaces (hs.itemSteps w packets) where
  first := ⟨_, rfl, .inr ⟨.tile_store, rfl⟩⟩
  apart := replaceSteps_apart packets .tile_store (hs.tileRows w)
  nonempty t rows h := by
    rcases mem_replaceSteps h with hdelete | ⟨ch, hch, hinsert⟩
    · cases hdelete
    · cases hinsert
      exact hch

/-- Houses have different ids. -/
theorem Houses.nodup (hs : Houses) : (hs.houses.map House.id).Nodup :=
  hs.ordered.imp fun hlt => Nat.ne_of_lt hlt

/-- The rows of houses that are updated or inserted. -/
theorem target_upserts (houses : List House) (hnodup : (houses.map House.id).Nodup)
    (old : HouseRows) :
    target (houses.map fun house => .upsert house.id house.updateRow house.insertRow) old =
      { old with row := fun id =>
          match houses.find? fun house => house.id == id with
          | some house => some ((old.row id).elim house.insertRow house.updateRow)
          | none => old.row id } := by
  induction houses generalizing old with
  | nil => rfl
  | cons house houses ih =>
      rw [List.map_cons, List.nodup_cons] at hnodup
      have hstep : target (List.map (fun house : House =>
            (.upsert house.id house.updateRow house.insertRow :
              Step Nat HouseRow HouseTable HouseTable.Row)) (house :: houses)) old =
          target (houses.map fun house => .upsert house.id house.updateRow house.insertRow)
            (if (old.row house.id).isSome then old.update house.id house.updateRow
              else old.put house.id house.insertRow) := rfl
      rw [hstep, ih hnodup.2]
      generalize hnew : (if (old.row house.id).isSome then old.update house.id house.updateRow
        else old.put house.id house.insertRow) = new
      have hself : new.row house.id =
          some ((old.row house.id).elim house.insertRow house.updateRow) := by
        rw [← hnew]
        cases hrow : old.row house.id with
        | none => exact Rows.put_row _ _ _
        | some row =>
            show (old.update house.id house.updateRow).row house.id = _
            rw [Rows.update_row, hrow]
            rfl
      have hother : ∀ id, id ≠ house.id → new.row id = old.row id := by
        intro id hne
        rw [← hnew]
        split
        · exact Function.update_of_ne hne _ _
        · exact Function.update_of_ne hne _ _
      have htable : new.table = old.table := by
        rw [← hnew]
        split
        · rfl
        · rfl
      refine Rows.ext (funext fun id => ?_) htable
      by_cases hid : id = house.id
      · subst hid
        have hnone : houses.find? (fun h => h.id == house.id) = none := by
          refine List.find?_eq_none.mpr fun h hmem heq => hnodup.1 ?_
          exact List.mem_map.mpr ⟨h, hmem, beq_iff_eq.mp heq⟩
        simp only [hnone, hself, List.find?_cons, beq_self_eq_true]
      · have hne : (house.id == id) = false := beq_eq_false_iff_ne.mpr fun h => hid h.symm
        simp only [hother id hid, List.find?_cons, hne]

theorem Houses.target_infoSteps (hs : Houses) (old : HouseRows) :
    target (hs.infoSteps packets) old = hs.newInfoRows old := by
  rw [Houses.infoSteps, target_must, target_append, target_upserts _ hs.nodup, target_fillSteps]
  refine Rows.ext rfl (funext fun t => ?_)
  cases t with
  | tile_store => rfl
  | house_lists => exact List.nil_append _

theorem Houses.infoSteps_replaces (hs : Houses) : Replaces (hs.infoSteps packets) where
  first := ⟨_, rfl, .inr ⟨.house_lists, rfl⟩⟩
  apart := by
    have hupserts : ∀ x ∈ hs.houses.map (fun house =>
        (.upsert house.id house.updateRow house.insertRow :
          Step Nat HouseRow HouseTable HouseTable.Row)), x.fills = [] ∧ x.deletes = [] := by
      intro x hx
      obtain ⟨house, -, rfl⟩ := List.mem_map.mp hx
      exact ⟨rfl, rfl⟩
    refine List.pairwise_cons.mpr ⟨fun y hy => ⟨fun key h => (nomatch h), fun t _ => ?_⟩,
      List.pairwise_append.mpr ⟨?_, fillSteps_apart packets .house_lists hs.listRows, ?_⟩⟩
    · rcases List.mem_append.mp hy with hy | hy
      · rw [(hupserts y hy).2]
        exact List.not_mem_nil
      · obtain ⟨ch, -, rfl⟩ := mem_fillSteps hy
        exact List.not_mem_nil
    · refine List.pairwise_map.mpr ((List.pairwise_map.mp hs.nodup).imp fun hne => ?_)
      refine ⟨fun key hkey hkey' => hne ?_, fun t h => nomatch h⟩
      exact (List.mem_singleton.mp hkey).symm.trans (List.mem_singleton.mp hkey')
    · intro x hx y hy
      obtain ⟨ch, -, rfl⟩ := mem_fillSteps hy
      refine ⟨fun key _ h => (nomatch h), fun t h => ?_⟩
      rw [(hupserts x hx).1] at h
      cases h
  nonempty t rows h := by
    rcases List.mem_cons.mp h with hdelete | h
    · cases hdelete
    · rcases List.mem_append.mp h with h | h
      · obtain ⟨house, -, heq⟩ := List.mem_map.mp h
        cases heq
      · obtain ⟨ch, hch, heq⟩ := mem_fillSteps h
        cases heq
        exact hch

/-- Some row of each table. -/
def HouseTable.anyRow : (t : HouseTable) → t.Row
  | .tile_store => ⟨0, none, none⟩
  | .house_lists => ⟨0, 0, ""⟩

/-- A row of a house with an owner that no house has. -/
def Houses.staleRow (hs : Houses) : HouseRow where
  owner := (hs.houses.map House.owner).sum + 1
  paid := 0
  warnings := 0
  name := ""
  rent := 0
  town_id := 0
  size := 0
  beds := 0

/-- A save of the house items is all or nothing, whatever the old rows are, if and
only if the answers are safe. -/
theorem saveHouseItems_allOrNothing (hs : Houses) (a : Nat → Answer) :
    (∀ old, AllOrNothing (hs.newItemRows w) (saveHouseItems w packets hs) a old) ↔
      Safe (a 0) (send (hs.itemSteps w packets) fun n => a (n + 1))
        (a (statements (hs.itemSteps w packets) + 1)) := by
  rw [saveHouseItems_script, ← funext (hs.target_itemSteps w packets)]
  refine script_allOrNothing _ a (hs.itemSteps_replaces w packets) (fun _ => hs.staleRow)
    HouseTable.anyRow (fun key f h => ?_) (fun key f v h => ?_)
  · rcases mem_replaceSteps h with hdelete | ⟨ch, -, hinsert⟩
    · cases hdelete
    · cases hinsert
  · rcases mem_replaceSteps h with hdelete | ⟨ch, -, hinsert⟩
    · cases hdelete
    · cases hinsert

/-- A save of the houses is all or nothing, whatever the old rows are, if and only
if the answers are safe. -/
theorem saveHouseInfo_allOrNothing (hs : Houses) (a : Nat → Answer) :
    (∀ old, AllOrNothing hs.newInfoRows (saveHouseInfo packets hs) a old) ↔
      Safe (a 0) (send (hs.infoSteps packets) fun n => a (n + 1))
        (a (statements (hs.infoSteps packets) + 1)) := by
  rw [saveHouseInfo_script, ← funext (hs.target_infoSteps packets)]
  refine script_allOrNothing _ a (hs.infoSteps_replaces packets) (fun _ => hs.staleRow)
    HouseTable.anyRow (fun key f h => ?_) (fun key f v h heq => ?_)
  · rcases List.mem_cons.mp h with hdelete | h
    · cases hdelete
    · rcases List.mem_append.mp h with h | h
      · obtain ⟨house, -, heq⟩ := List.mem_map.mp h
        cases heq
      · obtain ⟨ch, -, heq⟩ := mem_fillSteps h
        cases heq
  · rcases List.mem_cons.mp h with hdelete | h
    · cases hdelete
    · rcases List.mem_append.mp h with h | h
      · obtain ⟨house, hmem, hupsert⟩ := List.mem_map.mp h
        cases hupsert
        have howner : house.owner = (hs.houses.map House.owner).sum + 1 := congrArg HouseRow.owner heq
        have hle : house.owner ≤ (hs.houses.map House.owner).sum :=
          List.le_sum_of_mem (List.mem_map.mpr ⟨house, hmem, rfl⟩)
        omega
      · obtain ⟨ch, -, heq⟩ := mem_fillSteps h
        cases heq

end Infernum.IOMapSerialize
