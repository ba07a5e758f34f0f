import Mathlib.Data.List.AList
import Mathlib.Logic.Function.Basic

/-!
# The safe-trade state machine

The trade fields of a player (`tradePartner`, `tradeItem`, `tradeState`), the
global map `Game::tradeItems`, and every function of game.cpp, player.cpp and
luascript.cpp that writes one of them. What these functions read from the rest
of the world (positions, item containment, script callbacks) is passed in as
an environment, so that a run quantifies over every world around the trade.
Texts sent to the clients are not stored anywhere and are left out.
-/

namespace Infernum.Trade

/-- Creature ids (`Player::getID`). -/
abbrev PlayerId := Nat

/-- Item objects, by address. -/
abbrev ItemRef := Nat

/-- `tradestate_t` of player.h. -/
inductive TradeState
  | none
  | initiated
  | accept
  | acknowledge
  | transfer
  deriving DecidableEq, Repr

/-- The trade fields of `Player`. -/
structure Player where
  tradePartner : Option PlayerId := none
  tradeItem : Option ItemRef := none
  tradeState : TradeState := .none
  deriving DecidableEq, Repr

/-- The part of `Game` the trade code works on. Players that are not on-line
keep the fields of a fresh `Player`. -/
structure Game where
  online : PlayerId → Bool
  player : PlayerId → Player
  tradeItems : AList fun _ : ItemRef => PlayerId

namespace Game

/-- Write one player's trade fields. -/
def setPlayer (g : Game) (p : PlayerId) (fields : Player) : Game :=
  { g with player := Function.update g.player p fields }

/-- `Player::setTradeState`. -/
def setTradeState (g : Game) (p : PlayerId) (state : TradeState) : Game :=
  g.setPlayer p { g.player p with tradeState := state }

/-- `tradeItems.find(item)` followed by `ReleaseItem` and `erase`. -/
def releaseTradeItem (g : Game) : Option ItemRef → Game
  | some item => { g with tradeItems := g.tradeItems.erase item }
  | none => g

@[simp] theorem setPlayer_player_self (g : Game) (p : PlayerId) (fields : Player) :
    (g.setPlayer p fields).player p = fields := by simp [setPlayer]

theorem setPlayer_player_of_ne (g : Game) {p r : PlayerId} (fields : Player) (hne : r ≠ p) :
    (g.setPlayer p fields).player r = g.player r := by simp [setPlayer, hne]

@[simp] theorem setPlayer_tradeItems (g : Game) (p : PlayerId) (fields : Player) :
    (g.setPlayer p fields).tradeItems = g.tradeItems := rfl

@[simp] theorem setTradeState_tradeItems (g : Game) (p : PlayerId) (state : TradeState) :
    (g.setTradeState p state).tradeItems = g.tradeItems := rfl

@[simp] theorem releaseTradeItem_player (g : Game) (item : Option ItemRef) :
    (g.releaseTradeItem item).player = g.player := by
  cases item <;> rfl

theorem releaseTradeItem_lookup (g : Game) (item : Option ItemRef) (it : ItemRef) :
    (g.releaseTradeItem item).tradeItems.lookup it =
      if item = some it then none else g.tradeItems.lookup it := by
  cases item with
  | none => rfl
  | some key =>
      by_cases hkey : key = it
      · subst hkey
        simp [releaseTradeItem]
      · simp [releaseTradeItem, hkey, AList.lookup_erase_ne (Ne.symm hkey)]

/-- One half of `internalCloseTrade`: the map entry goes, then the three
fields of the player are reset. -/
def leaveTrade (g : Game) (p : PlayerId) : Game :=
  (g.releaseTradeItem (g.player p).tradeItem).setPlayer p {}

/-- `Game::internalCloseTrade`. -/
def internalCloseTrade (g : Game) (player : PlayerId) : Game :=
  let tradePartner := (g.player player).tradePartner
  let partnerTransfers : Bool := match tradePartner with
    | some q => (g.player q).tradeState == .transfer
    | none => false
  if partnerTransfers || (g.player player).tradeState == .transfer then g
  else
    match tradePartner with
    | none => g.leaveTrade player
    | some q => (g.leaveTrade player).leaveTrade q

/-- What `internalStartTrade` writes for the player that offers an item. -/
def offerItem (g : Game) (player tradePartner : PlayerId) (tradeItem : ItemRef) : Game :=
  { g.setPlayer player ⟨some tradePartner, some tradeItem, .initiated⟩ with
    tradeItems := g.tradeItems.insert tradeItem player }

/-- `Game::internalStartTrade`: whether the trade was started, and the state. -/
def internalStartTrade (g : Game) (player tradePartner : PlayerId) (tradeItem : ItemRef) :
    Bool × Game :=
  if (g.player player).tradeState ≠ .none ∧
      ¬((g.player player).tradeState = .acknowledge ∧
        (g.player player).tradePartner = some tradePartner) then
    (false, g)
  else if (g.player tradePartner).tradeState ≠ .none ∧
      (g.player tradePartner).tradePartner ≠ some player then
    (false, g)
  else
    let g := g.offerItem player tradePartner tradeItem
    if (g.player tradePartner).tradeState = .none then
      (true, g.setPlayer tradePartner
        { g.player tradePartner with tradeState := .acknowledge, tradePartner := some player })
    else
      -- the counter offer: both windows are refreshed, nothing is written
      (true, g)

end Game

/-! ## What the trade code reads from the rest of the world -/

/-- Item containment at one moment. -/
structure Contents where
  /-- `item->getContainer() != nullptr` -/
  isContainer : ItemRef → Bool
  /-- `Container::isHoldingItem`, at any depth -/
  isHoldingItem : ItemRef → ItemRef → Bool
  /-- `Container::getItemHoldingCount` -/
  getItemHoldingCount : ItemRef → Nat
  /-- the containers above an item, the nearest first -/
  parentContainers : ItemRef → List ItemRef

/-- What `playerRequestTrade` learns before it starts the trade. -/
structure RequestEnv extends Contents where
  /-- `Position::areInRange<2, 2, 0>` of the two players -/
  inRange : Bool
  canThrowObjectTo : Bool
  /-- `internalGetThing`, as an item -/
  tradeThing : Option ItemRef
  /-- sprite id matches, pickupable, no unique id -/
  tradeable : Bool
  sameFloor : Bool
  /-- `Position::areInRange<1, 1>` of item and player -/
  adjacent : Bool
  /-- `eventPlayerOnTradeRequest` -/
  onTradeRequest : Bool

/-- What `House:startTrade` learns. `getHouseByPlayerId` searches every house,
this one included. -/
structure HouseEnv where
  inRange : Bool
  /-- `house->getOwner() == player->getGUID()` -/
  isOwner : PlayerId → Bool
  /-- `getHouseByPlayerId(guid) != nullptr` -/
  ownsHouse : PlayerId → Bool
  ownsHouse_of_isOwner : ∀ p, isOwner p = true → ownsHouse p = true
  hasBidded : Bool
  /-- `house->getTransferItem()`: a document allocated by this call -/
  transferItem : Option ItemRef

/-- A notification that item or creature movement sends to one player. -/
inductive Hook
  | onUpdateTileItem (p : PlayerId) (oldItem newItem : ItemRef)
  | onRemoveTileItem (p : PlayerId) (item : ItemRef)
  | onAddContainerItem (p : PlayerId) (item : ItemRef)
  | onUpdateContainerItem (p : PlayerId) (container oldItem newItem : ItemRef)
  | onRemoveContainerItem (p : PlayerId) (container item : ItemRef)
  | onUpdateInventoryItem (p : PlayerId) (oldItem newItem : ItemRef)
  | onRemoveInventoryItem (p : PlayerId) (item : ItemRef)
  | onCreatureMove (p : PlayerId) (itemInRange partnerInRange : Bool)

/-- What `playerAcceptTrade` learns, with the notifications that moving the
two trade items sends out, each with the containment of its moment. -/
structure AcceptEnv where
  canThrowObjectTo : Bool
  /-- `eventPlayerOnTradeAccept` -/
  onTradeAccept : Bool
  hooks : List (Contents × Hook)

namespace Game

/-- The `tradeItems` loops of `playerRequestTrade`. -/
def alreadyTraded (g : Game) (c : Contents) (tradeItem : ItemRef) : Bool :=
  if c.isContainer tradeItem then
    g.tradeItems.keys.any fun item =>
      tradeItem == item || c.isHoldingItem tradeItem item ||
        (c.isContainer item && c.isHoldingItem item tradeItem)
  else
    g.tradeItems.keys.any fun item =>
      tradeItem == item || (c.isContainer item && c.isHoldingItem item tradeItem)

/-- `Game::playerRequestTrade`. -/
def playerRequestTrade (g : Game) (env : RequestEnv) (playerId tradePlayerId : PlayerId) : Game :=
  if !g.online playerId then g
  else if !g.online tradePlayerId || tradePlayerId == playerId then g
  else if !env.inRange then g
  else if !env.canThrowObjectTo then g
  else
    match env.tradeThing with
    | none => g
    | some tradeItem =>
        if !env.tradeable then g
        else if !env.sameFloor then g
        else if !env.adjacent then g
        else if g.alreadyTraded env.toContents tradeItem then g
        else if env.isContainer tradeItem && env.getItemHoldingCount tradeItem + 1 > 100 then g
        else if !env.onTradeRequest then g
        else (g.internalStartTrade playerId tradePlayerId tradeItem).2

/-- `LuaScriptInterface::luaHouseStartTrade`. A refused trade resets the
house's transfer document, which no trade field refers to. -/
def houseStartTrade (g : Game) (env : HouseEnv) (player tradePartner : PlayerId) : Game :=
  if !env.inRange then g
  else if !env.isOwner player then g
  else if env.ownsHouse tradePartner then g
  else if env.hasBidded then g
  else
    match env.transferItem with
    | none => g
    | some transferItem => (g.internalStartTrade player tradePartner transferItem).2

/-- `Player::checkTradeState`. -/
def checkTradeState (g : Game) (c : Contents) (p : PlayerId) (item : ItemRef) : Game :=
  match (g.player p).tradeItem with
  | none => g
  | some tradeItem =>
      if (g.player p).tradeState = .transfer then g
      else if tradeItem = item then g.internalCloseTrade p
      else if tradeItem ∈ c.parentContainers item then g.internalCloseTrade p
      else g

/-- The second test of the three `onRemove` hooks: the trade item went away
together with something that holds it. -/
def closeIfHeld (g : Game) (p : PlayerId) (held : ItemRef → Bool) : Game :=
  match (g.player p).tradeItem with
  | none => g
  | some tradeItem => if held tradeItem then g.internalCloseTrade p else g

/-- `Player::onRemoveTileItem` and `Player::onRemoveInventoryItem`. -/
def onRemoveItem (g : Game) (c : Contents) (p : PlayerId) (item : ItemRef) : Game :=
  if (g.player p).tradeState = .transfer then g
  else (g.checkTradeState c p item).closeIfHeld p fun tradeItem =>
    c.isContainer item && c.isHoldingItem item tradeItem

/-- `Player::onRemoveContainerItem`. -/
def onRemoveContainerItem (g : Game) (c : Contents) (p : PlayerId) (container item : ItemRef) :
    Game :=
  if (g.player p).tradeState = .transfer then g
  else (g.checkTradeState c p item).closeIfHeld p fun tradeItem =>
    (c.parentContainers tradeItem).head? != some container && c.isHoldingItem container tradeItem

/-- `Player::onUpdateTileItem`. -/
def onUpdateTileItem (g : Game) (c : Contents) (p : PlayerId) (oldItem newItem : ItemRef) : Game :=
  let g := if oldItem ≠ newItem then g.onRemoveItem c p oldItem else g
  if (g.player p).tradeState = .transfer then g
  else g.closeIfHeld p fun tradeItem => oldItem == tradeItem

/-- `Player::onUpdateContainerItem`. -/
def onUpdateContainerItem (g : Game) (c : Contents) (p : PlayerId)
    (container oldItem newItem : ItemRef) : Game :=
  let g := if oldItem ≠ newItem then g.onRemoveContainerItem c p container oldItem else g
  if (g.player p).tradeState = .transfer then g else g.checkTradeState c p oldItem

/-- `Player::onUpdateInventoryItem`. -/
def onUpdateInventoryItem (g : Game) (c : Contents) (p : PlayerId) (oldItem newItem : ItemRef) :
    Game :=
  let g := if oldItem ≠ newItem then g.onRemoveItem c p oldItem else g
  if (g.player p).tradeState = .transfer then g else g.checkTradeState c p oldItem

/-- The trade part of `Player::onCreatureMove`, for the player's own move. -/
def onCreatureMove (g : Game) (p : PlayerId) (itemInRange partnerInRange : Bool) : Game :=
  if (g.player p).tradeState = .transfer then g
  else
    let g := g.closeIfHeld p fun _ => !itemInRange
    if (g.player p).tradePartner.isSome && !partnerInRange then g.internalCloseTrade p else g

/-- Deliver one notification. -/
def runHook (g : Game) (c : Contents) : Hook → Game
  | .onUpdateTileItem p oldItem newItem => g.onUpdateTileItem c p oldItem newItem
  | .onRemoveTileItem p item => g.onRemoveItem c p item
  | .onAddContainerItem p item => g.checkTradeState c p item
  | .onUpdateContainerItem p container oldItem newItem =>
      g.onUpdateContainerItem c p container oldItem newItem
  | .onRemoveContainerItem p container item => g.onRemoveContainerItem c p container item
  | .onUpdateInventoryItem p oldItem newItem => g.onUpdateInventoryItem c p oldItem newItem
  | .onRemoveInventoryItem p item => g.onRemoveItem c p item
  | .onCreatureMove p itemInRange partnerInRange => g.onCreatureMove p itemInRange partnerInRange

/-- Deliver notifications in order. -/
def runHooks (g : Game) (hooks : List (Contents × Hook)) : Game :=
  hooks.foldl (fun g hook => g.runHook hook.1 hook.2) g

/-- `Game::playerAcceptTrade`. The trial additions and the two moves change
items only; what reaches the trade fields is the list of notifications. -/
def playerAcceptTrade (g : Game) (env : AcceptEnv) (playerId : PlayerId) : Game :=
  if !g.online playerId then g
  else if ¬((g.player playerId).tradeState = .acknowledge ∨
      (g.player playerId).tradeState = .initiated) then g
  else
    match (g.player playerId).tradePartner with
    | none => g
    | some tradePartner =>
        if !env.canThrowObjectTo then g
        else
          let g := g.setTradeState playerId .accept
          if (g.player tradePartner).tradeState = .accept then
            let tradeItem1 := (g.player playerId).tradeItem
            let tradeItem2 := (g.player tradePartner).tradeItem
            if !env.onTradeAccept then g.internalCloseTrade playerId
            else
              let g := (g.setTradeState playerId .transfer).setTradeState tradePartner .transfer
              let g := (g.releaseTradeItem tradeItem1).releaseTradeItem tradeItem2
              let g := g.runHooks env.hooks
              (g.setPlayer playerId {}).setPlayer tradePartner {}
          else g

/-- `Game::playerCloseTrade`. -/
def playerCloseTrade (g : Game) (playerId : PlayerId) : Game :=
  if !g.online playerId then g else g.internalCloseTrade playerId

/-- The trade part of `Player::onRemoveCreature`: the player leaves the game. -/
def logout (g : Game) (p : PlayerId) : Game :=
  let g := if (g.player p).tradePartner.isSome then g.internalCloseTrade p else g
  { g with online := Function.update g.online p false }

/-- A player object enters the game under a new creature id. -/
def login (g : Game) (p : PlayerId) : Game :=
  { g with online := Function.update g.online p true }

end Game

/-- Everything that may happen to the trade fields. -/
inductive Op
  | login (p : PlayerId)
  | logout (p : PlayerId)
  | requestTrade (env : RequestEnv) (playerId tradePlayerId : PlayerId)
  | houseStartTrade (env : HouseEnv) (player tradePartner : PlayerId)
  | acceptTrade (env : AcceptEnv) (playerId : PlayerId)
  | closeTrade (playerId : PlayerId)
  | hook (c : Contents) (h : Hook)

namespace Game

/-- Run one operation to its end; the dispatcher thread never interleaves two. -/
def run (g : Game) : Op → Game
  | .login p => g.login p
  | .logout p => g.logout p
  | .requestTrade env playerId tradePlayerId => g.playerRequestTrade env playerId tradePlayerId
  | .houseStartTrade env player tradePartner => g.houseStartTrade env player tradePartner
  | .acceptTrade env playerId => g.playerAcceptTrade env playerId
  | .closeTrade playerId => g.playerCloseTrade playerId
  | .hook c h => g.runHook c h

/-- The allocator returns no address that is in use: the items of
`tradeItems` hold a reference, so a new transfer document is none of them. -/
def Allocates (g : Game) : Op → Prop
  | .houseStartTrade env _ _ => ∀ item, env.transferItem = some item → item ∉ g.tradeItems
  | _ => True

/-- The server has just started: nobody trades. -/
def initial : Game := { online := fun _ => false, player := fun _ => {}, tradeItems := ∅ }

end Game

end Infernum.Trade
