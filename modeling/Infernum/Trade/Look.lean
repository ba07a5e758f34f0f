import Infernum.Lib.Rose
import Infernum.Map.Position
import Infernum.Trade.Reachable

/-!
# Looking into a trade

`ProtocolGame::sendTradeItemRequest` lists the tree of a trade item to the client,
`Game::playerLookInTrade` walks it again for one index. Both walks are breadth first over
queues of their own: the first appends whole containers to a list, the second counts an
index down and returns in the middle of a container. What is described is what was listed
at the index, on both sides of the trade.
-/

namespace Infernum.Trade

open Lib Rose

/-- An item as the two walks see it. -/
structure Item where
  ref : ItemRef
  /-- `item->getContainer() != nullptr` -/
  isContainer : Bool
  deriving DecidableEq, Repr

/-- What the trade windows read from the world around the trade. -/
structure LookEnv where
  /-- an item with what `Container::getItemList` holds, at any depth -/
  tree : ItemRef → Rose Item
  tree_ref : ∀ item, (tree item).label.ref = item
  getName : PlayerId → String
  getPosition : PlayerId → Position
  /-- `Item::getPosition` -/
  getItemPosition : ItemRef → Position

/-! ## The list that is sent -/

/-- One turn of the inner loop of `sendTradeItemRequest`: `listContainer`, then `itemList`. -/
def listItem (lists : List (Rose Item) × List Item) (containerItem : Rose Item) :
    List (Rose Item) × List Item :=
  (if containerItem.label.isContainer then lists.1 ++ [containerItem] else lists.1,
    lists.2 ++ [containerItem.label])

theorem foldl_listItem (items : List (Rose Item)) (lists : List (Rose Item) × List Item) :
    items.foldl listItem lists =
      (lists.1 ++ items.filter (·.label.isContainer), lists.2 ++ items.map label) := by
  induction items generalizing lists with
  | nil => simp
  | cons item items ih =>
      rw [List.foldl_cons, ih, listItem]
      by_cases hc : item.label.isContainer <;> simp [hc]

/-- What is not opened is in the trees by itself. -/
theorem length_flattenList_filter (items : List (Rose Item)) :
    items.length + (flattenList (items.filter (·.label.isContainer))).length ≤
      (flattenList items).length + (items.filter (·.label.isContainer)).length := by
  induction items with
  | nil => simp [flattenList]
  | cons item items ih =>
      have hone : 0 < item.flatten.length := List.length_pos_of_mem item.label_mem_flatten
      by_cases hc : item.label.isContainer
      · rw [List.filter_cons_of_pos (by simpa using hc)]
        simp only [flattenList, List.length_append, List.length_cons]
        omega
      · rw [List.filter_cons_of_neg (by simpa using hc)]
        simp only [flattenList, List.length_append, List.length_cons]
        omega

theorem length_flattenList_append (ts us : List (Rose Item)) :
    (flattenList (ts ++ us)).length = (flattenList ts).length + (flattenList us).length := by
  simp [flattenList_eq]

theorem length_flattenList_cons (t : Rose Item) (ts : List (Rose Item)) :
    (flattenList (t :: ts)).length = 1 + (flattenList t.children).length +
      (flattenList ts).length := by
  cases t
  simp [flattenList, flatten, flattenList_eq]
  omega

/-- What a walk still has to open shrinks with each container it opens. -/
theorem length_flattenList_opened (container : Rose Item) (rest : List (Rose Item)) :
    (flattenList (rest ++ container.children.filter (·.label.isContainer))).length <
      (flattenList (container :: rest)).length := by
  have hfilter := length_flattenList_filter container.children
  have hle := container.children.length_filter_le (·.label.isContainer)
  rw [length_flattenList_append, length_flattenList_cons]
  omega

/-- The outer loop of `sendTradeItemRequest`. -/
def listLoop : List (Rose Item) → List Item → List Item
  | [], itemList => itemList
  | container :: listContainer, itemList =>
      listLoop (container.children.foldl listItem (listContainer, itemList)).1
        (container.children.foldl listItem (listContainer, itemList)).2
termination_by listContainer => (flattenList listContainer).length
decreasing_by
  rw [foldl_listItem]
  exact length_flattenList_opened container listContainer

/-- The bytes of a trade window. -/
structure TradeWindow where
  /-- 0x7D for the own offer, 0x7E for the counter offer -/
  ack : Bool
  traderName : String
  count : UInt8
  items : List Item
  deriving DecidableEq, Repr

/-- `ProtocolGame::sendTradeItemRequest`. -/
def sendTradeItemRequest (traderName : String) (item : Rose Item) (ack : Bool) : TradeWindow :=
  if item.label.isContainer then
    let itemList := listLoop [item] [item.label]
    ⟨ack, traderName, itemList.length.toUInt8, itemList⟩
  else
    ⟨ack, traderName, 0x01, [item.label]⟩

/-! ## The item that is looked at -/

/-- The inner loop of `playerLookInTrade`: the item at which the index comes down to zero,
or the containers and the index at the end of the container. -/
def lookItems : List (Rose Item) → List (Rose Item) → UInt8 →
    Item ⊕ (List (Rose Item) × UInt8)
  | [], containers, index => .inr (containers, index)
  | item :: items, containers, index =>
      let containers := if item.label.isContainer then containers ++ [item] else containers
      if index - 1 = 0 then .inl item.label
      else lookItems items containers (index - 1)

/-- A container that is walked to its end has handed over the containers in it. -/
theorem lookItems_inr {items containers containers' : List (Rose Item)} {index index' : UInt8}
    (h : lookItems items containers index = .inr (containers', index')) :
    containers' = containers ++ items.filter (·.label.isContainer) := by
  induction items generalizing containers index with
  | nil =>
      simp only [lookItems, Sum.inr.injEq, Prod.mk.injEq] at h
      simp [← h.1]
  | cons item items ih =>
      simp only [lookItems] at h
      split at h
      · cases h
      · have := ih h
        by_cases hc : item.label.isContainer <;> simp_all

/-- The outer loop of `playerLookInTrade`. -/
def lookLoop (containers : List (Rose Item)) (i : Nat) (index : UInt8) : Option Item :=
  if hi : i < containers.length then
    match h : lookItems containers[i].children containers index with
    | .inl item => some item
    | .inr (containers', index') => lookLoop containers' (i + 1) index'
  else none
termination_by (flattenList (containers.drop i)).length
decreasing_by
  rw [lookItems_inr h, List.drop_append_of_le_length hi, List.drop_eq_getElem_cons hi]
  exact length_flattenList_opened containers[i] (containers.drop (i + 1))

/-- What `eventPlayerOnLookInTrade` is called with. -/
structure Look where
  player : PlayerId
  tradePartner : PlayerId
  item : Item
  lookDistance : Nat
  deriving DecidableEq, Repr

/-- `Position::getDistanceX` and `getDistanceY`, the greater of the two. -/
def lookDistance (p1 p2 : Position) : Nat :=
  max (p1.getX - p2.getX).natAbs (p1.getY - p2.getY).natAbs

/-- The item on one side of a player's trade. -/
def Game.lookedAt (g : Game) (playerId : PlayerId) (lookAtCounterOffer : Bool) :
    Option ItemRef :=
  match (g.player playerId).tradePartner with
  | none => none
  | some tradePartner =>
      if lookAtCounterOffer then (g.player tradePartner).tradeItem
      else (g.player playerId).tradeItem

/-- `Game::playerLookInTrade`. -/
def Game.playerLookInTrade (g : Game) (env : LookEnv) (playerId : PlayerId)
    (lookAtCounterOffer : Bool) (index : UInt8) : Option Look :=
  if !g.online playerId then none
  else
    match (g.player playerId).tradePartner, g.lookedAt playerId lookAtCounterOffer with
    | some tradePartner, some tradeItem =>
        let distance := lookDistance (env.getPosition playerId) (env.getItemPosition tradeItem)
        let item := env.tree tradeItem
        if index = 0 then some ⟨playerId, tradePartner, item.label, distance⟩
        else if item.label.isContainer then
          (lookLoop [item] 0 index).map fun item => ⟨playerId, tradePartner, item, distance⟩
        else none
    | _, _ => none

/-! ## Both walks go through the items in one order -/

theorem listLoop_cons (container : Rose Item) (rest : List (Rose Item)) (itemList : List Item) :
    listLoop (container :: rest) itemList =
      listLoop (rest ++ container.children.filter (·.label.isContainer))
        (itemList ++ container.children.map label) := by
  rw [listLoop, foldl_listItem]

/-- What is listed comes after what was listed before. -/
theorem listLoop_eq_append (listContainer : List (Rose Item)) (itemList : List Item) :
    listLoop listContainer itemList = itemList ++ listLoop listContainer [] := by
  induction hn : (flattenList listContainer).length using Nat.strong_induction_on
    generalizing listContainer itemList with
  | _ n ih =>
      cases listContainer with
      | nil => simp [listLoop]
      | cons container rest =>
          have hlt := length_flattenList_opened container rest
          rw [hn] at hlt
          rw [listLoop_cons, listLoop_cons, ih _ hlt _ _ rfl, ih _ hlt _ ([] ++ _) rfl,
            List.nil_append, List.append_assoc]

theorem toNat_sub_one {index : UInt8} (hpos : 0 < index.toNat) :
    (index - 1).toNat = index.toNat - 1 :=
  UInt8.toNat_sub_of_le _ _ (UInt8.le_iff_toNat_le.mpr hpos)

theorem sub_one_eq_zero {index : UInt8} (hpos : 0 < index.toNat) :
    index - 1 = 0 ↔ index.toNat = 1 := by
  rw [← UInt8.toNat_inj, toNat_sub_one hpos, UInt8.toNat_zero]
  omega

/-- The index ends within a container that holds at least as many items. -/
theorem lookItems_within {items : List (Rose Item)} {index : UInt8} {n : Nat}
    (hindex : index.toNat = n + 1) (hlt : n < items.length) (containers : List (Rose Item)) :
    lookItems items containers index = .inl items[n].label := by
  induction items generalizing index n containers with
  | nil => cases hlt
  | cons item items ih =>
      have hpos : 0 < index.toNat := by omega
      have hsub := toNat_sub_one hpos
      simp only [lookItems, sub_one_eq_zero hpos]
      cases n with
      | zero => simp [hindex]
      | succ n =>
          rw [if_neg (by omega), ih (by omega) (Nat.lt_of_succ_lt_succ hlt)]
          simp

/-- A container that holds fewer items takes the index down by as many. -/
theorem lookItems_beyond {items : List (Rose Item)} {index : UInt8}
    (hlt : items.length < index.toNat) (containers : List (Rose Item)) :
    ∃ index' : UInt8, index'.toNat = index.toNat - items.length ∧
      lookItems items containers index =
        .inr (containers ++ items.filter (·.label.isContainer), index') := by
  induction items generalizing index containers with
  | nil => exact ⟨index, by simp, by simp [lookItems]⟩
  | cons item items ih =>
      have hpos : 0 < index.toNat := by omega
      have hsub := toNat_sub_one hpos
      simp only [List.length_cons] at hlt
      have hless : items.length < (index - 1).toNat := by omega
      obtain ⟨index', hindex', hlook⟩ := ih hless
        (if item.label.isContainer then containers ++ [item] else containers)
      refine ⟨index', ?_, ?_⟩
      · simp only [List.length_cons]
        omega
      · simp only [lookItems, sub_one_eq_zero hpos, hlook]
        rw [if_neg (by omega)]
        by_cases hc : item.label.isContainer <;> simp [hc]

/-- The item looked at is the one listed: the root is at index zero, and both walks go on
through the same containers. -/
theorem lookLoop_eq (containers : List (Rose Item)) (i : Nat) {index : UInt8}
    (hpos : 0 < index.toNat) :
    lookLoop containers i index = (listLoop (containers.drop i) [])[index.toNat - 1]? := by
  induction hn : (flattenList (containers.drop i)).length using Nat.strong_induction_on
    generalizing containers i index with
  | _ n ih =>
      rw [lookLoop]
      split
      · next hi =>
        have hdrop := List.drop_eq_getElem_cons hi
        have hlist : listLoop (containers.drop i) [] =
            containers[i].children.map label ++
              listLoop (containers.drop (i + 1) ++
                containers[i].children.filter (·.label.isContainer)) [] := by
          rw [hdrop, listLoop_cons, List.nil_append, listLoop_eq_append]
        rw [hlist]
        by_cases hle : index.toNat ≤ containers[i].children.length
        · have hin : index.toNat - 1 < containers[i].children.length := by omega
          have hindex : index.toNat = index.toNat - 1 + 1 := by omega
          have hlook := lookItems_within hindex hin containers
          rw [List.getElem?_append_left (by simpa using hin)]
          split
          · next item h =>
            rw [hlook] at h
            cases h
            simp [List.getElem?_eq_getElem hin]
          · next h =>
            rw [hlook] at h
            cases h
        · obtain ⟨index', hindex', hlook⟩ :=
            lookItems_beyond (show containers[i].children.length < index.toNat by omega) containers
          have hlt := length_flattenList_opened containers[i] (containers.drop (i + 1))
          rw [← hdrop, hn] at hlt
          rw [List.getElem?_append_right (by simp; omega)]
          split
          · next item h =>
            rw [hlook] at h
            cases h
          · next h =>
            rw [hlook] at h
            cases h
            have happend : (containers ++
                containers[i].children.filter (·.label.isContainer)).drop (i + 1) =
                containers.drop (i + 1) ++ containers[i].children.filter (·.label.isContainer) :=
              List.drop_append_of_le_length hi
            rw [ih _ (by rw [happend]; exact hlt) _ _ (by omega) rfl, happend, hindex',
              List.length_map]
            congr 1
            omega
      · next hi => simp [List.drop_eq_nil_of_le (Nat.le_of_not_lt hi), listLoop]

/-- Every item is listed at most once. -/
theorem length_listLoop_le (listContainer : List (Rose Item)) :
    (listLoop listContainer []).length + listContainer.length ≤
      (flattenList listContainer).length := by
  induction hn : (flattenList listContainer).length using Nat.strong_induction_on
    generalizing listContainer with
  | _ n ih =>
      cases listContainer with
      | nil => simp [listLoop]
      | cons container rest =>
          have hlt := length_flattenList_opened container rest
          have hrest := ih _ (hn ▸ hlt) _ rfl
          have hfilter := length_flattenList_filter container.children
          rw [length_flattenList_cons] at hn
          rw [length_flattenList_append, List.length_append] at hrest
          rw [listLoop_cons, List.nil_append, listLoop_eq_append, List.length_append,
            List.length_map, List.length_cons]
          omega

/-! ## The windows of a trade -/

/-- A call of `Player::sendTradeItemRequest`: the player whose client it is sent to, and the
arguments. -/
structure TradeItemRequest where
  player : PlayerId
  traderName : String
  item : ItemRef
  ack : Bool
  deriving DecidableEq, Repr

/-- What the client gets to see of a call. -/
def TradeItemRequest.window (r : TradeItemRequest) (env : LookEnv) : TradeWindow :=
  sendTradeItemRequest r.traderName (env.tree r.item) r.ack

/-- The root comes first, the rest in the order of the walk. -/
theorem sendTradeItemRequest_items (traderName : String) (item : Rose Item) (ack : Bool) :
    (sendTradeItemRequest traderName item ack).items =
      item.label :: if item.label.isContainer then listLoop [item] [] else [] := by
  rw [sendTradeItemRequest]
  split
  · exact listLoop_eq_append [item] [item.label]
  · rfl

theorem sendTradeItemRequest_count (traderName : String) (item : Rose Item) (ack : Bool) :
    (sendTradeItemRequest traderName item ack).count.toNat =
      (sendTradeItemRequest traderName item ack).items.length % 256 := by
  rw [sendTradeItemRequest]
  split
  · simp
  · rfl

theorem length_sendTradeItemRequest_le (traderName : String) (item : Rose Item) (ack : Bool) :
    (sendTradeItemRequest traderName item ack).items.length ≤ item.flatten.length := by
  have hle := length_listLoop_le [item]
  have hflat : (flattenList [item]).length = item.flatten.length := by simp [flattenList]
  rw [sendTradeItemRequest_items, List.length_cons]
  rw [List.length_singleton, hflat] at hle
  split
  · exact hle
  · simp only [List.length_nil]
    omega

namespace Game

/-- The calls of `sendTradeItemRequest` in `internalStartTrade`. -/
def tradeItemRequests (g : Game) (env : LookEnv) (player tradePartner : PlayerId)
    (tradeItem : ItemRef) : List TradeItemRequest :=
  if !(g.internalStartTrade player tradePartner tradeItem).1 then []
  else
    let g := g.offerItem player tradePartner tradeItem
    ⟨player, env.getName player, tradeItem, true⟩ ::
      if (g.player tradePartner).tradeState = .none then []
      else
        -- a partner that is in the trade has made an offer: its item is not null
        match (g.player tradePartner).tradeItem with
        | none => []
        | some counterOfferItem =>
            [⟨player, env.getName tradePartner, counterOfferItem, false⟩,
              ⟨tradePartner, env.getName player, tradeItem, false⟩]

/-- A window shows the item of the side the player looks at through it. -/
theorem tradeItemRequests_lookedAt {g : Game} {env : LookEnv} {player tradePartner : PlayerId}
    {tradeItem : ItemRef} {r : TradeItemRequest}
    (hr : r ∈ g.tradeItemRequests env player tradePartner tradeItem) :
    (g.internalStartTrade player tradePartner tradeItem).2.lookedAt r.player (!r.ack) =
      some r.item := by
  unfold tradeItemRequests at hr
  split at hr
  · cases hr
  · next hstarted =>
    unfold internalStartTrade at hstarted ⊢
    split at hstarted
    · simp at hstarted
    · next hfree =>
      split at hstarted
      · simp at hstarted
      · next hpartner =>
        rw [if_neg hfree, if_neg hpartner]
        have hoffer : (g.offerItem player tradePartner tradeItem).player player =
            ⟨some tradePartner, some tradeItem, .initiated⟩ := by
          simp [offerItem_player]
        by_cases hnone : ((g.offerItem player tradePartner tradeItem).player
            tradePartner).tradeState = .none
        · -- the partner has no window yet
          simp only [hnone, if_true, List.mem_singleton] at hr ⊢
          subst hr
          have hne : player ≠ tradePartner := by
            rintro rfl
            simp [hoffer] at hnone
          simp [lookedAt, setPlayer_player_of_ne _ _ hne, hoffer]
        · have hback : ((g.offerItem player tradePartner tradeItem).player
              tradePartner).tradePartner = some player := by
            by_cases heq : tradePartner = player
            · rw [heq] at hoffer ⊢
              rw [hoffer]
            · rw [offerItem_player, if_neg heq] at hnone ⊢
              by_contra hother
              exact hpartner ⟨hnone, hother⟩
          simp only [hnone, if_false] at hr ⊢
          rcases List.mem_cons.mp hr with rfl | hr
          · simp [lookedAt, hoffer]
          · split at hr
            · cases hr
            · next counterOfferItem hcounter =>
              simp only [List.mem_cons, List.not_mem_nil, or_false] at hr
              rcases hr with rfl | rfl
              · simp [lookedAt, hoffer, hcounter]
              · simp [lookedAt, hback, hoffer]

/-- **Looking into a trade.** For every window that the start of a trade or the counter
offer sends, as long as the side it shows stays what it was: the window counts its items
right, and to look at an index describes the item listed there, and nothing beyond the
list. -/
theorem playerLookInTrade_eq_listed {g : Game} {env : LookEnv} {player tradePartner : PlayerId}
    {tradeItem : ItemRef} {r : TradeItemRequest}
    (hr : r ∈ g.tradeItemRequests env player tradePartner tradeItem)
    (hsize : (env.tree r.item).flatten.length ≤ 100) {g' : Game}
    (honline : g'.online r.player)
    (hside : g'.lookedAt r.player (!r.ack) =
      (g.internalStartTrade player tradePartner tradeItem).2.lookedAt r.player (!r.ack)) :
    (r.window env).count.toNat = (r.window env).items.length ∧
      ∀ index : UInt8, (g'.playerLookInTrade env r.player (!r.ack) index).map Look.item =
        (r.window env).items[index.toNat]? := by
  rw [tradeItemRequests_lookedAt hr] at hside
  refine ⟨?_, fun index => ?_⟩
  · rw [TradeItemRequest.window, sendTradeItemRequest_count]
    exact Nat.mod_eq_of_lt (by
      have := length_sendTradeItemRequest_le r.traderName (env.tree r.item) r.ack
      omega)
  · rw [TradeItemRequest.window, sendTradeItemRequest_items]
    obtain ⟨partner, hpartner⟩ : ∃ partner, (g'.player r.player).tradePartner = some partner := by
      unfold lookedAt at hside
      split at hside
      · cases hside
      · next partner hpartner => exact ⟨partner, hpartner⟩
    simp only [playerLookInTrade, honline, hpartner, hside, Bool.not_true, Bool.false_eq_true,
      if_false]
    by_cases hzero : index = 0
    · simp [hzero]
    · have hpos : 0 < index.toNat := by
        rw [Nat.pos_iff_ne_zero]
        exact fun h => hzero (UInt8.toNat_inj.mp h)
      have hnext : index.toNat = index.toNat - 1 + 1 := by omega
      rw [if_neg hzero, hnext, List.getElem?_cons_succ]
      split
      · rw [lookLoop_eq _ _ hpos, Option.map_map]
        exact congrFun Option.map_id _
      · simp

/-- A crate with a coin and a bag, in the bag a ring. -/
def crateEnv : LookEnv where
  tree
    | 1 => .node ⟨1, true⟩ [.node ⟨2, false⟩ [], .node ⟨3, true⟩ [.node ⟨4, false⟩ []]]
    | item => .node ⟨item, false⟩ []
  tree_ref item := by split <;> rfl
  getName _ := "Trader"
  getPosition _ := ⟨0, 0, 0⟩
  getItemPosition _ := ⟨0, 0, 0⟩

/-- Player 7 has offered the crate to player 8. -/
def crateOffered : Game where
  online _ := true
  player p := if p = 7 then ⟨some 8, some 1, .initiated⟩ else ⟨some 7, none, .acknowledge⟩
  tradeItems := ∅

/-- The counter offer shows the crate to player 8. -/
theorem playerLookInTrade_eq_listed_crate :
    (TradeItemRequest.window ⟨8, "Trader", 1, false⟩ crateEnv).count.toNat =
        (TradeItemRequest.window ⟨8, "Trader", 1, false⟩ crateEnv).items.length ∧
      ∀ index : UInt8,
        ((crateOffered.internalStartTrade 8 7 5).2.playerLookInTrade crateEnv 8 true index).map
            Look.item =
          (TradeItemRequest.window ⟨8, "Trader", 1, false⟩ crateEnv).items[index.toNat]? :=
  playerLookInTrade_eq_listed (g := crateOffered) (r := ⟨8, "Trader", 1, false⟩)
    (by decide : _ ∈ crateOffered.tradeItemRequests crateEnv 8 7 5)
    (by simp [crateEnv]) rfl rfl

end Game

end Infernum.Trade
