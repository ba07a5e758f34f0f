import Infernum.House.SaveHouse
import Infernum.Login.SavePlayer

/-!
# Saves and lost connections

The three saves of the server. Each runs in one transaction, but a statement
that finds the connection lost is sent again on a new one, where the rest of
the save takes effect at once and nothing can be rolled back.
-/

namespace Infernum

open Database Lib.Sql IOLoginData IOMapSerialize

/-- The answers that each save stands: a save is all or nothing, whatever the old
rows are, if and only if its transaction cannot be started; or all statements
succeed and the connection holds, or was lost before the first of them got
through; or none that changes rows succeeds once the connection has been lost,
and the save is given up or its `COMMIT` fails. -/
theorem saves_all_or_nothing (env : Environment) (p : Player) (packets : Packets HouseTable.Row)
    (hs : Houses) (a : Nat → Answer) :
    ((∀ old, AllOrNothing (p.alive.newRows env) (savePlayer env p) a old) ↔
      (a 0).ok = false ∨ Safe (a 1) (send (p.alive.steps env) fun n => a (n + 2))
        (a (statements (p.alive.steps env) + 2))) ∧
    ((∀ old, AllOrNothing (hs.newItemRows env.world) (saveHouseItems env.world packets hs) a old) ↔
      Safe (a 0) (send (hs.itemSteps env.world packets) fun n => a (n + 1))
        (a (statements (hs.itemSteps env.world packets) + 1))) ∧
    ((∀ old, AllOrNothing hs.newInfoRows (saveHouseInfo packets hs) a old) ↔
      Safe (a 0) (send (hs.infoSteps packets) fun n => a (n + 1))
        (a (statements (hs.infoSteps packets) + 1))) :=
  ⟨savePlayer_allOrNothing env p a, saveHouseItems_allOrNothing env.world packets hs a,
    saveHouseInfo_allOrNothing packets hs a⟩

/-! ## A house item that is stored twice -/

/-- An item table of moveable items. -/
def moveableWorld : World where
  itemType id := { id := id, moveable := true }
  addUniqueItem _ := false
  getNameByGuid _ := []

/-- A house with one item. -/
def smallHouse : House where
  id := 1
  owner := 0
  paidUntil := 0
  rentWarnings := 0
  houseName := ""
  townId := 1
  rent := 0
  houseTiles := [(⟨100, 100, 7⟩, { downItems := [.node { id := 2400 } []] })]
  beds := 0
  guestList := ""
  subOwnerList := ""
  doors := []

/-- The only house of the map. -/
def oneHouse : Houses where
  houses := [smallHouse]
  ordered := List.pairwise_singleton _ _

/-- Packets of 1024 bytes. -/
def smallPackets : Packets HouseTable.Row where
  queryLength _ := 60
  rowLength _ _ := 40
  maxPacketSize := 1024

/-- The connection is lost before the `INSERT`, and every statement succeeds. -/
def lostBeforeInsert (n : Nat) : Answer := ⟨if n = 2 then 1 else 0, true⟩

/-- The database after the last save of the house. -/
def savedBefore : HouseRows where
  row _ := none
  table
    | .tile_store => oneHouse.tileRows moveableWorld
    | .house_lists => []

/-- The item is stored twice, and the save says that it was done. -/
theorem saveHouseItems_twice :
    ¬AllOrNothing (oneHouse.newItemRows moveableWorld)
      (saveHouseItems moveableWorld smallPackets oneHouse) lostBeforeInsert savedBefore := by
  intro h
  have htwo : ((saveHouseItems moveableWorld smallPackets oneHouse
      ⟨savedBefore, none, lostBeforeInsert⟩).2.stored.table .tile_store).length = 2 := by decide
  have htrue : (saveHouseItems moveableWorld smallPackets oneHouse
      ⟨savedBefore, none, lostBeforeInsert⟩).1 = true := by decide
  rw [h.2 htrue] at htwo
  exact absurd htwo (by decide)

end Infernum
