import Infernum.Tile.Tile

/-!
# Stack positions

`GetTileDescription` sends the first ten things of a tile to a client. `Tile` counts
the same things to tell the client which one is meant. The two differ at the last
place of the tile that the client's player is on, which is kept for the player.
-/

namespace Infernum.Tile

variable {I C : Type} [DecidableEq I] [DecidableEq C] (w : TileWorld) (t : Tile I C)

/-- A player whose client shows the tile; `own` tells that the tile's position is
the player's. -/
structure Viewer (t : Tile I C) where
  player : C
  own : Bool
  canSeeCreature : C → Bool
  sees_self : canSeeCreature player = true
  on_tile : own = true → player ∈ t.creatures

variable {t} (v : Viewer t)

/-! ## `ProtocolGame::GetTileDescription` -/

/-- The loop over the top items: what is sent, `count`, and whether the function
returns. -/
def sendTopItems (own : Bool) : List I → Nat → List (Thing I C) × Nat × Bool
  | [], count => ([], count, false)
  | i :: items, count =>
      if count + 1 = 9 ∧ own = true then ([.item i], count + 1, false)
      else if count + 1 = 10 then ([.item i], count + 1, true)
      else
        let (sent, rest) := sendTopItems own items (count + 1)
        (.item i :: sent, rest)

/-- The loop over the creatures. -/
def sendCreatures : List C → Nat → Bool → List (Thing I C) × Nat × Bool
  | [], count, _ => ([], count, false)
  | c :: creatures, count, playerAdded =>
      if v.canSeeCreature c = false then sendCreatures creatures count playerAdded
      else
        let creature :=
          if v.own = true ∧ count = 9 ∧ playerAdded = false then v.player else c
        let playerAdded := if creature = v.player then true else playerAdded
        if count + 1 = 10 then ([.creature creature], count + 1, true)
        else
          let (sent, rest) := sendCreatures creatures (count + 1) playerAdded
          (.creature creature :: sent, rest)

/-- The loop over the down items. -/
def sendDownItems : List I → Nat → List (Thing I C)
  | [], _ => []
  | i :: items, count =>
      if count + 1 = 10 then [.item i] else .item i :: sendDownItems items (count + 1)

/-- What `count` and `n` are after the ground. -/
def groundCount (t : Tile I C) : Nat := if t.ground.isSome then 1 else 0

def groundThings (t : Tile I C) : List (Thing I C) :=
  match t.ground with
  | some ground => [.item ground]
  | none => []

/-- `GetTileDescription`: the things, in the order in which they are sent. -/
def GetTileDescription : List (Thing I C) :=
  let (sentTop, count, stop) := sendTopItems v.own t.items.topItems t.groundCount
  if stop then t.groundThings ++ sentTop
  else
    let (sentCreatures, count, stop) := sendCreatures v t.creatures.reverse count false
    if stop then t.groundThings ++ sentTop ++ sentCreatures
    else t.groundThings ++ sentTop ++ sentCreatures ++ sendDownItems t.items.downItems count

/-! ## `Tile` -/

/-- The loop of `getClientIndexOfCreature`. -/
def clientIndexLoop (creature : C) : List C → Nat → Option Nat
  | [], _ => none
  | c :: creatures, n =>
      if c = creature then some n
      else if v.canSeeCreature c then clientIndexLoop creature creatures (n + 1)
      else clientIndexLoop creature creatures n

/-- `getClientIndexOfCreature`. -/
def getClientIndexOfCreature (creature : C) : Option Nat :=
  clientIndexLoop v creature t.creatures.reverse (t.groundCount + t.items.getTopItemCount)

/-- The loop of `getStackposOfCreature`. -/
def stackposLoop (creature : C) : List C → Nat → Option Nat
  | [], _ => none
  | c :: creatures, n =>
      if c = creature then some n
      else if v.canSeeCreature c then
        if 10 ≤ n + 1 then none else stackposLoop creature creatures (n + 1)
      else stackposLoop creature creatures n

/-- `getStackposOfCreature`. -/
def getStackposOfCreature (creature : C) : Option Nat :=
  let n := t.groundCount + t.items.getTopItemCount
  if 10 ≤ n then none else stackposLoop v creature t.creatures.reverse n

/-- The loops of `getStackposOfItem` over items. A top item that is not found there
is not found later either. -/
def itemLoop (item : I) : List I → Nat → Option Nat
  | [], _ => none
  | i :: items, n =>
      if i = item then some n else if 10 ≤ n + 1 then none else itemLoop item items (n + 1)

/-- The loop of `getStackposOfItem` over the creatures. -/
def visibleLoop : List C → Nat → Option Nat
  | [], n => some n
  | c :: creatures, n =>
      if v.canSeeCreature c then
        if 10 ≤ n + 1 then none else visibleLoop creatures (n + 1)
      else visibleLoop creatures n

/-- `getStackposOfItem`. -/
def getStackposOfItem (item : I) : Option Nat :=
  if t.ground = some item then some 0
  else
    if (t.object item).isAlwaysOnTop w then itemLoop item t.items.topItems t.groundCount
    else
      let n := t.groundCount + t.items.getTopItemCount
      if 10 ≤ n then none
      else
        match visibleLoop v t.creatures n with
        | some n => itemLoop item t.items.downItems n
        | none => none

/-! ## What is sent -/

/-- The creatures that the client shows, the first one first. -/
def visibleCreatures : List C := t.creatures.reverse.filter v.canSeeCreature

/-- How many things are sent before the creatures at most: on the own tile a place is
kept. -/
def topLimit (own : Bool) : Nat := if own then 9 else 10

omit [DecidableEq I] [DecidableEq C] in
theorem sendTopItems_eq (own : Bool) (items : List I) {count : Nat} (hcount : count < topLimit own) :
    sendTopItems (C := C) own items count =
      ((items.map .item).take (topLimit own - count), min (topLimit own) (count + items.length),
        !own && decide (10 ≤ count + items.length)) := by
  induction items generalizing count with
  | nil =>
      have hstop : decide (10 ≤ count + ([] : List I).length) = false := by
        rw [topLimit] at hcount
        split at hcount <;> simp <;> omega
      have hmin : min (topLimit own) (count + ([] : List I).length) = count := by
        simp
        omega
      rw [hstop, hmin, Bool.and_false, List.map_nil, List.take_nil]
      rfl
  | cons i items ih =>
      have hlength : count + (i :: items).length = count + 1 + items.length := by
        rw [List.length_cons]
        omega
      have htake : ((i :: items).map (Thing.item (C := C))).take (topLimit own - count) =
          .item i :: (items.map .item).take (topLimit own - (count + 1)) := by
        have hsub : topLimit own - count = topLimit own - (count + 1) + 1 := by omega
        rw [hsub, List.map_cons, List.take_succ_cons]
      rw [sendTopItems, htake, hlength]
      by_cases hlast : count + 1 = topLimit own
      · -- the loop ends with this item
        rw [← hlast, Nat.sub_self, List.take_zero, Nat.min_eq_left (by omega)]
        cases own with
        | true => rw [if_pos ⟨hlast, rfl⟩, Bool.not_true, Bool.false_and]
        | false =>
            have hten : count + 1 = 10 := hlast
            rw [if_neg (fun h => nomatch h.2), if_pos hten, hten,
              decide_eq_true (by omega : 10 ≤ 10 + items.length), Bool.not_false, Bool.true_and]
      · have hrest := @ih (count + 1) (by omega)
        have hnine : ¬(count + 1 = 9 ∧ own = true) := by
          rintro ⟨hnine, rfl⟩
          exact hlast hnine
        have hten : ¬count + 1 = 10 := by
          rw [topLimit] at hcount hlast
          split at hcount
          · simp_all
            omega
          · simp_all
        rw [if_neg hnine, if_neg hten, hrest]

/-- On the own tile the place with index `k` is the player's, if the player has not
come before. -/
def reserve (playerAdded : Bool) (visible : List C) (k : Nat) : List C :=
  if v.own = true ∧ playerAdded = false ∧ v.player ∉ visible.take k then visible.set k v.player
  else visible

omit [DecidableEq I] in
theorem length_reserve (playerAdded : Bool) (visible : List C) (k : Nat) :
    (reserve v playerAdded visible k).length = visible.length := by
  rw [reserve]
  split
  · exact List.length_set
  · rfl

omit [DecidableEq I] in
/-- Before the place is reached, the first creature is sent as it is. -/
theorem reserve_cons (playerAdded : Bool) (c : C) (visible : List C) (k : Nat) :
    reserve v playerAdded (c :: visible) (k + 1) =
      c :: reserve v (if c = v.player then true else playerAdded) visible k := by
  rw [reserve, reserve, List.take_succ_cons, List.set_cons_succ]
  by_cases hc : c = v.player
  · rw [if_pos hc, if_neg (fun h => h.2.2 (hc ▸ List.mem_cons_self)), if_neg (fun h => nomatch h.2.1)]
  · rw [if_neg hc]
    by_cases h : v.own = true ∧ playerAdded = false ∧ v.player ∉ visible.take k
    · have hnot : v.player ∉ c :: visible.take k := by
        rw [List.mem_cons, not_or]
        exact ⟨fun heq => hc heq.symm, h.2.2⟩
      rw [if_pos h, if_pos ⟨h.1, h.2.1, hnot⟩]
    · rw [if_neg h, if_neg fun h' => h ⟨h'.1, h'.2.1, fun hmem => h'.2.2 (List.mem_cons_of_mem c hmem)⟩]

omit [DecidableEq I] in
theorem sendCreatures_eq (creatures : List C) {count : Nat} (hcount : count < 10)
    (playerAdded : Bool) :
    sendCreatures v creatures count playerAdded =
      (((reserve v playerAdded (creatures.filter v.canSeeCreature) (9 - count)).map .creature).take
          (10 - count),
        min 10 (count + (creatures.filter v.canSeeCreature).length),
        decide (10 ≤ count + (creatures.filter v.canSeeCreature).length)) := by
  induction creatures generalizing count playerAdded with
  | nil =>
      have hreserve : reserve v playerAdded [] (9 - count) = [] :=
        List.eq_nil_of_length_eq_zero (length_reserve v playerAdded [] (9 - count))
      have hstop : decide (10 ≤ count + 0) = false := by
        simp
        omega
      rw [List.filter_nil, hreserve, List.map_nil, List.take_nil, List.length_nil, hstop,
        Nat.min_eq_right (by omega)]
      rfl
  | cons c creatures ih =>
      rw [sendCreatures]
      by_cases hsee : v.canSeeCreature c = true
      · rw [if_neg (by rw [hsee]; exact nofun), List.filter_cons_of_pos hsee]
        have hlength : count + (c :: creatures.filter v.canSeeCreature).length =
            count + 1 + (creatures.filter v.canSeeCreature).length := by
          rw [List.length_cons]
          omega
        rw [hlength]
        by_cases hlast : count = 9
        · -- the last place
          subst hlast
          have hstop : decide (10 ≤ 9 + 1 + (creatures.filter v.canSeeCreature).length) = true :=
            decide_eq_true (by omega)
          have hplace : reserve v playerAdded (c :: creatures.filter v.canSeeCreature) (9 - 9) =
              (if v.own = true ∧ playerAdded = false then v.player else c) ::
                creatures.filter v.canSeeCreature := by
            rw [reserve]
            simp only [Nat.sub_self, List.take_zero, List.not_mem_nil, not_false_iff, and_true,
              List.set_cons_zero]
            split <;> rfl
          rw [hplace, hstop, Nat.min_eq_left (by omega)]
          simp only [true_and, if_true]
          rfl
        · have hsub : 9 - count = 9 - (count + 1) + 1 := by omega
          have hsub' : 10 - count = 10 - (count + 1) + 1 := by omega
          have hplace : ¬(v.own = true ∧ count = 9 ∧ playerAdded = false) := fun h => hlast h.2.1
          have hten : ¬count + 1 = 10 := by omega
          rw [hsub, hsub', reserve_cons, List.map_cons, List.take_succ_cons, if_neg hplace]
          dsimp only
          rw [if_neg hten, ih (by omega)]
      · rw [if_pos (Bool.not_eq_true _ ▸ hsee), List.filter_cons_of_neg hsee]
        exact ih hcount playerAdded

omit [DecidableEq I] [DecidableEq C] in
theorem sendDownItems_eq (items : List I) {count : Nat} (hcount : count < 10) :
    sendDownItems (C := C) items count = (items.map .item).take (10 - count) := by
  induction items generalizing count with
  | nil => rw [List.map_nil, List.take_nil]; rfl
  | cons i items ih =>
      have hsub : 10 - count = 10 - (count + 1) + 1 := by omega
      rw [sendDownItems, hsub, List.map_cons, List.take_succ_cons]
      split
      case isTrue hten => rw [hten, Nat.sub_self, List.take_zero]
      case isFalse hten => rw [ih (by omega)]

/-! ## The description as a whole -/

omit [DecidableEq I] [DecidableEq C] in
theorem length_groundThings (t : Tile I C) : t.groundThings.length = t.groundCount := by
  rw [groundThings, groundCount]
  cases t.ground with
  | none => rfl
  | some ground => rfl

omit [DecidableEq I] [DecidableEq C] in
theorem groundCount_lt (t : Tile I C) (own : Bool) : t.groundCount < topLimit own := by
  rw [groundCount, topLimit]
  split <;> split <;> omega

/-- The things below the creatures. -/
def lowerThings (t : Tile I C) : List (Thing I C) := t.groundThings ++ t.items.topItems.map .item

omit [DecidableEq I] [DecidableEq C] in
theorem length_lowerThings (t : Tile I C) :
    t.lowerThings.length = t.groundCount + t.items.topItems.length := by
  rw [lowerThings, List.length_append, length_groundThings, List.length_map]

/-- What comes after them, if the creatures begin at index `k`. -/
def upperThings (k : Nat) : List (Thing I C) :=
  (reserve v false (visibleCreatures v) (9 - k)).map .creature ++ t.items.downItems.map .item

omit [DecidableEq I] in
/-- The client is sent the things below the creatures, up to the kept place, the
creatures and the other items, ten things in all. -/
theorem GetTileDescription_eq :
    GetTileDescription v = (t.lowerThings.take (topLimit v.own) ++
      upperThings v (min (topLimit v.own) t.lowerThings.length)).take 10 := by
  have htop := sendTopItems_eq (C := C) v.own t.items.topItems (t.groundCount_lt v.own)
  have hground := t.groundCount_lt v.own
  have hlower : t.lowerThings.take (topLimit v.own) = t.groundThings ++
      (t.items.topItems.map .item).take (topLimit v.own - t.groundCount) := by
    rw [lowerThings, List.take_append, length_groundThings, List.take_of_length_le]
    rw [length_groundThings]
    omega
  have hlength : (t.lowerThings.take (topLimit v.own)).length =
      min (topLimit v.own) t.lowerThings.length := List.length_take
  rw [GetTileDescription, htop]
  dsimp only
  rw [← length_lowerThings, ← hlower]
  set lower := t.lowerThings.take (topLimit v.own) with hdef
  set count := min (topLimit v.own) t.lowerThings.length with hcount
  by_cases hstop : (!v.own && decide (10 ≤ t.lowerThings.length)) = true
  · -- ten things below the creatures, on another tile than the player's
    rw [Bool.and_eq_true, Bool.not_eq_true', decide_eq_true_eq] at hstop
    have hten : lower.length = 10 := by
      rw [hlength, hcount, topLimit, hstop.1]
      exact Nat.min_eq_left hstop.2
    rw [if_pos (by rw [hstop.1, decide_eq_true hstop.2]; rfl), List.take_append, hten, Nat.sub_self,
      List.take_zero, List.append_nil, List.take_of_length_le (Nat.le_of_eq hten)]
  · have hlt : count < 10 := by
      rw [hcount, topLimit]
      cases hown : v.own with
      | true => exact Nat.lt_of_le_of_lt (Nat.min_le_left _ _) (by decide)
      | false =>
          rw [hown, Bool.not_false, Bool.true_and, decide_eq_true_eq] at hstop
          exact Nat.lt_of_le_of_lt (Nat.min_le_right _ _) (Nat.lt_of_not_le hstop)
    have hcreatures := sendCreatures_eq v t.creatures.reverse hlt false
    have hvisible : (reserve v false (visibleCreatures v) (9 - count)).length =
        (visibleCreatures v).length := length_reserve ..
    have hshort : lower.take 10 = lower := List.take_of_length_le (by omega)
    rw [if_neg hstop, hcreatures, List.take_append, hlength, hshort, upperThings]
    change (if decide (10 ≤ count + (visibleCreatures v).length) = true then _ else _) = _
    by_cases hfull : 10 ≤ count + (visibleCreatures v).length
    · rw [if_pos (decide_eq_true hfull), List.take_append_of_le_length]
      · rfl
      · rw [List.length_map, hvisible]
        omega
    · have hmin : min 10 (count + (visibleCreatures v).length) =
          count + (visibleCreatures v).length := Nat.min_eq_right (by omega)
      have hsub : 10 - count - ((reserve v false (visibleCreatures v) (9 - count)).map
          (Thing.creature (I := I))).length = 10 - (count + (visibleCreatures v).length) := by
        rw [List.length_map, hvisible]
        omega
      rw [if_neg (fun h => hfull (of_decide_eq_true h)), List.take_append, hsub, List.append_assoc]
      change _ ++ (_ ++ sendDownItems _ (min 10 (count + (visibleCreatures v).length))) = _
      rw [hmin, sendDownItems_eq _ (by omega)]
      rfl

/-! ## What is counted -/

/-- The number of things that the client shows before a thing. -/
def thingsBefore : Thing I C → Nat
  | .item item =>
      if t.ground = some item then 0
      else if (t.object item).isAlwaysOnTop w then t.groundCount + t.items.topItems.idxOf item
      else t.lowerThings.length + (visibleCreatures v).length + t.items.downItems.idxOf item
  | .creature creature => t.lowerThings.length + (visibleCreatures v).idxOf creature

omit [DecidableEq C] in
theorem itemLoop_eq_some {item : I} {items : List I} {n m : Nat}
    (h : itemLoop item items n = some m) : item ∈ items ∧ m = n + items.idxOf item := by
  induction items generalizing n with
  | nil => cases h
  | cons i items ih =>
      rw [itemLoop] at h
      split at h
      case isTrue heq =>
        subst heq
        rw [List.idxOf_cons_self, Nat.add_zero]
        exact ⟨List.mem_cons_self, (Option.some.inj h).symm⟩
      case isFalse hne =>
        split at h
        · cases h
        · obtain ⟨hmem, hm⟩ := ih h
          refine ⟨List.mem_cons_of_mem i hmem, ?_⟩
          rw [List.idxOf_cons_ne _ hne]
          omega

omit [DecidableEq I] in
theorem clientIndexLoop_eq_some {creature : C} (hsee : v.canSeeCreature creature = true)
    {creatures : List C} {n m : Nat} (h : clientIndexLoop v creature creatures n = some m) :
    creature ∈ creatures.filter v.canSeeCreature ∧
      m = n + (creatures.filter v.canSeeCreature).idxOf creature := by
  induction creatures generalizing n with
  | nil => cases h
  | cons c creatures ih =>
      rw [clientIndexLoop] at h
      split at h
      case isTrue heq =>
        subst heq
        rw [List.filter_cons_of_pos hsee, List.idxOf_cons_self, Nat.add_zero]
        exact ⟨List.mem_cons_self, (Option.some.inj h).symm⟩
      case isFalse hne =>
        split at h
        case isTrue hc =>
          obtain ⟨hmem, hm⟩ := ih h
          rw [List.filter_cons_of_pos hc, List.idxOf_cons_ne _ hne]
          exact ⟨List.mem_cons_of_mem c hmem, by omega⟩
        case isFalse hc =>
          rw [List.filter_cons_of_neg hc]
          exact ih h

omit [DecidableEq I] in
/-- The loop that stops at ten finds what the other one finds. -/
theorem clientIndexLoop_of_stackposLoop {creature : C} {creatures : List C} {n m : Nat}
    (h : stackposLoop v creature creatures n = some m) :
    clientIndexLoop v creature creatures n = some m := by
  induction creatures generalizing n with
  | nil => cases h
  | cons c creatures ih =>
      rw [stackposLoop] at h
      rw [clientIndexLoop]
      split at h
      case isTrue heq => rw [if_pos heq, h]
      case isFalse hne =>
        rw [if_neg hne]
        split at h
        case isTrue hc =>
          rw [if_pos hc]
          split at h
          · cases h
          · exact ih h
        case isFalse hc =>
          rw [if_neg hc]
          exact ih h

omit [DecidableEq I] [DecidableEq C] in
theorem visibleLoop_eq_some {creatures : List C} {n m : Nat}
    (h : visibleLoop v creatures n = some m) :
    m = n + (creatures.filter v.canSeeCreature).length := by
  induction creatures generalizing n with
  | nil => exact (Option.some.inj h).symm
  | cons c creatures ih =>
      rw [visibleLoop] at h
      split at h
      case isTrue hc =>
        split at h
        · cases h
        · rw [List.filter_cons_of_pos hc, List.length_cons, ih h]
          omega
      case isFalse hc =>
        rw [List.filter_cons_of_neg hc]
        exact ih h

omit [DecidableEq I] [DecidableEq C] in
theorem getTopItemCount_eq (t : Tile I C) :
    t.items.getTopItemCount = t.items.topItems.length := by
  rw [TileItemVector.getTopItemCount, TileItemVector.topItems, List.length_drop]

/-- The index that the server gives a thing that the client shows. -/
def ClientIndex (n : Nat) : Thing I C → Prop
  | .item item => getStackposOfItem w v item = some n
  | .creature creature => v.canSeeCreature creature = true ∧
      (getClientIndexOfCreature v creature = some n ∨ getStackposOfCreature v creature = some n)

omit [DecidableEq I] in
/-- A creature's index, by either function. -/
theorem clientIndex_creature {creature : C} {n : Nat}
    (h : getClientIndexOfCreature v creature = some n ∨ getStackposOfCreature v creature = some n)
    (hsee : v.canSeeCreature creature = true) :
    creature ∈ visibleCreatures v ∧
      n = t.lowerThings.length + (visibleCreatures v).idxOf creature := by
  have hloop : clientIndexLoop v creature t.creatures.reverse
      (t.groundCount + t.items.getTopItemCount) = some n := by
    rcases h with h | h
    · exact h
    · rw [getStackposOfCreature] at h
      split at h
      · cases h
      · exact clientIndexLoop_of_stackposLoop v h
  rw [length_lowerThings, ← getTopItemCount_eq]
  exact clientIndexLoop_eq_some v hsee hloop

/-- An item's index. -/
theorem clientIndex_item {item : I} {n : Nat} (h : getStackposOfItem w v item = some n) :
    n = thingsBefore w v (.item item) ∧
      (t.ground = some item ∨
        (t.ground ≠ some item ∧ (t.object item).isAlwaysOnTop w = true ∧
          item ∈ t.items.topItems) ∨
        (t.ground ≠ some item ∧ (t.object item).isAlwaysOnTop w = false ∧
          item ∈ t.items.downItems)) := by
  rw [getStackposOfItem] at h
  rw [thingsBefore]
  split at h
  case isTrue hground =>
    rw [if_pos hground]
    exact ⟨(Option.some.inj h).symm, .inl hground⟩
  case isFalse hground =>
    rw [if_neg hground]
    split at h
    case isTrue htop =>
      obtain ⟨hmem, hn⟩ := itemLoop_eq_some h
      rw [if_pos htop]
      exact ⟨hn, .inr (.inl ⟨hground, htop, hmem⟩)⟩
    case isFalse htop =>
      dsimp only at h
      split at h
      · cases h
      · cases hvisible : visibleLoop v t.creatures (t.groundCount + t.items.getTopItemCount) with
        | none =>
            rw [hvisible] at h
            cases h
        | some k =>
            rw [hvisible] at h
            obtain ⟨hmem, hn⟩ := itemLoop_eq_some h
            have hlength : (visibleCreatures v).length =
                (t.creatures.filter v.canSeeCreature).length := by
              rw [visibleCreatures, List.filter_reverse, List.length_reverse]
            have hk := visibleLoop_eq_some v hvisible
            rw [if_neg htop, length_lowerThings, ← getTopItemCount_eq, hlength, ← hk]
            exact ⟨hn, .inr (.inr ⟨hground, Bool.eq_false_iff.mpr htop, hmem⟩)⟩

/-! ## Agreement -/

/-- The thing is the tenth of the tile that the player is on, and gives its place to
the player: it is a top item, or another creature that the player does not precede. -/
def Displaced (thing : Thing I C) : Prop :=
  v.own = true ∧ thingsBefore w v thing = 9 ∧
    match thing with
    | .item item => t.ground ≠ some item ∧ (t.object item).isAlwaysOnTop w = true
    | .creature creature => creature ≠ v.player ∧
        v.player ∉ (visibleCreatures v).take ((visibleCreatures v).idxOf creature)

omit [DecidableEq I] in
/-- What is sent below the creatures. -/
theorem description_lower {n : Nat} (hn : n < topLimit v.own) (hlower : n < t.lowerThings.length) :
    (GetTileDescription v)[n]? = t.lowerThings[n]? := by
  have hten : n < 10 := by
    rw [topLimit] at hn
    split at hn <;> omega
  rw [GetTileDescription_eq, List.getElem?_take_of_lt hten, List.getElem?_append_left,
    List.getElem?_take_of_lt hn]
  rw [List.length_take]
  omega

omit [DecidableEq I] in
/-- What is sent from the creatures on. -/
theorem description_upper {n : Nat} (hn : n < 10)
    (hupper : min (topLimit v.own) t.lowerThings.length ≤ n) :
    (GetTileDescription v)[n]? = (upperThings v (min (topLimit v.own) t.lowerThings.length))[
      n - min (topLimit v.own) t.lowerThings.length]? := by
  rw [GetTileDescription_eq, List.getElem?_take_of_lt hn, List.getElem?_append_right,
    List.length_take]
  rw [List.length_take]
  exact hupper

theorem description_item {item : I} {n : Nat} (hn : n < 10)
    (hindex : getStackposOfItem w v item = some n) :
    (GetTileDescription v)[n]? = some (.item item) ↔ ¬Displaced w v (.item item) := by
  obtain ⟨hbefore, hcases⟩ := clientIndex_item w v hindex
  rcases hcases with hground | ⟨hground, htop, hmem⟩ | ⟨hground, hdown, hmem⟩
  · -- the ground is the first thing
    have hzero : n = 0 := by rw [hbefore, thingsBefore, if_pos hground]
    have hlower : t.lowerThings = .item item :: t.items.topItems.map .item := by
      rw [lowerThings, groundThings, hground]
      rfl
    subst hzero
    refine iff_of_true ?_ fun h => h.2.2.1 hground
    rw [description_lower v (by rw [topLimit]; split <;> omega) (by rw [hlower]; simp), hlower]
    rfl
  · have hn' : n = t.groundCount + t.items.topItems.idxOf item := by
      rw [hbefore, thingsBefore, if_neg hground, if_pos htop]
    have hlt := List.idxOf_lt_length_of_mem hmem
    have hlength : n < t.lowerThings.length := by
      rw [length_lowerThings]
      omega
    have hget : t.lowerThings[n]? = some (.item item) := by
      rw [lowerThings, List.getElem?_append_right (by rw [length_groundThings]; omega),
        length_groundThings, hn', Nat.add_sub_cancel_left, List.getElem?_map,
        List.getElem?_idxOf hmem]
      rfl
    by_cases hkept : n < topLimit v.own
    · refine iff_of_true ((description_lower v hkept hlength).trans hget) ?_
      rintro ⟨hown, hnine, _⟩
      rw [topLimit, if_pos hown] at hkept
      omega
    · -- the place that is kept for the player
      have hown : v.own = true := by
        rw [topLimit] at hkept
        split at hkept
        case isTrue hown => exact hown
        case isFalse => omega
      have hnine : n = 9 := by
        rw [topLimit, if_pos hown] at hkept
        omega
      refine iff_of_false ?_ (not_not.mpr ⟨hown, hbefore ▸ hnine, hground, htop⟩)
      have hmin : min (topLimit v.own) t.lowerThings.length = 9 := by
        rw [topLimit, if_pos hown]
        omega
      have hplayer : v.player ∈ visibleCreatures v := by
        rw [visibleCreatures, List.mem_filter, List.mem_reverse]
        exact ⟨v.on_tile hown, v.sees_self⟩
      have hpos : 0 < (visibleCreatures v).length := List.length_pos_of_mem hplayer
      rw [description_upper v hn (by rw [hmin]; omega), hmin, hnine, Nat.sub_self, upperThings,
        List.getElem?_append_left, List.getElem?_map]
      · -- a creature is sent there
        cases (reserve v false (visibleCreatures v) (9 - 9))[0]? with
        | none => exact nofun
        | some c => exact nofun
      · rw [List.length_map, length_reserve]
        exact hpos
  · have hn' : n = t.lowerThings.length + (visibleCreatures v).length +
        t.items.downItems.idxOf item := by
      rw [hbefore, thingsBefore, if_neg hground, if_neg (by rw [hdown]; exact nofun)]
    refine iff_of_true ?_ fun h => ?_
    · have hmin : min (topLimit v.own) t.lowerThings.length = t.lowerThings.length ∨
          (v.own = true ∧ 10 ≤ t.lowerThings.length) := by
        rw [topLimit]
        cases hown : v.own with
        | true =>
            by_cases h : t.lowerThings.length ≤ 9
            · exact .inl (Nat.min_eq_right h)
            · exact .inr ⟨rfl, by omega⟩
        | false => exact .inl (Nat.min_eq_right (show _ ≤ 10 by omega))
      rcases hmin with hmin | ⟨_, hfull⟩
      · have hlength : ((reserve v false (visibleCreatures v) (9 - t.lowerThings.length)).map
            (Thing.creature (I := I))).length = (visibleCreatures v).length := by
          rw [List.length_map, length_reserve]
        rw [description_upper v hn (by omega), hmin, upperThings, List.getElem?_append_right
          (by omega), hlength, List.getElem?_map]
        have hsub : n - t.lowerThings.length - (visibleCreatures v).length =
            t.items.downItems.idxOf item := by omega
        rw [hsub, List.getElem?_idxOf hmem]
        rfl
      · omega
    · have htop := h.2.2.2
      rw [hdown] at htop
      cases htop

omit [DecidableEq I] in
theorem getElem?_reserve {visible : List C} {k j : Nat} (hj : j < visible.length) :
    (reserve v false visible k)[j]? =
      if v.own = true ∧ v.player ∉ visible.take k ∧ j = k then some v.player else visible[j]? := by
  rw [reserve]
  by_cases h : v.own = true ∧ v.player ∉ visible.take k
  · rw [if_pos ⟨h.1, rfl, h.2⟩, List.getElem?_set]
    by_cases hk : k = j
    · subst hk
      rw [if_pos rfl, if_pos hj, if_pos ⟨h.1, h.2, rfl⟩]
    · rw [if_neg hk, if_neg fun h' => hk h'.2.2.symm]
  · rw [if_neg fun h' => h ⟨h'.1, h'.2.2⟩, if_neg fun h' => h ⟨h'.1, h'.2.1⟩]

theorem description_creature {creature : C} {n : Nat} (hn : n < 10)
    (hmem : creature ∈ visibleCreatures v)
    (hindex : n = t.lowerThings.length + (visibleCreatures v).idxOf creature) :
    (GetTileDescription v)[n]? = some (.creature creature) ↔
      ¬Displaced w v (.creature creature) := by
  have hlt := List.idxOf_lt_length_of_mem hmem
  have hlimit : t.lowerThings.length ≤ topLimit v.own := by
    rw [topLimit]
    split <;> omega
  have hbefore : thingsBefore w v (.creature creature) = n := hindex.symm
  have hsub : n - t.lowerThings.length = (visibleCreatures v).idxOf creature := by omega
  rw [description_upper v hn (by omega), Nat.min_eq_right hlimit, hsub, upperThings,
    List.getElem?_append_left (by rw [List.length_map, length_reserve]; exact hlt),
    List.getElem?_map, getElem?_reserve v hlt, List.getElem?_idxOf hmem]
  split
  case isTrue hkept =>
    -- the place is the player's
    obtain ⟨hown, hplayer, hplace⟩ := hkept
    have hnine : n = 9 := by omega
    rw [← hplace] at hplayer
    rw [Option.map_some, Option.some.injEq, Thing.creature.injEq]
    constructor
    · rintro rfl hdisplaced
      exact hdisplaced.2.2.1 rfl
    · intro hnot
      by_contra hne
      exact hnot ⟨hown, hbefore.trans hnine, fun h => hne h.symm, hplayer⟩
  case isFalse hkept =>
    refine iff_of_true rfl ?_
    rintro ⟨hown, hnine, _, hplayer⟩
    have hplace : (visibleCreatures v).idxOf creature = 9 - t.lowerThings.length := by omega
    exact hkept ⟨hown, hplace ▸ hplayer, hplace⟩

/-- A thing that the client shows is sent at the index that the server gives it,
except for the thing that loses its place to the player. -/
theorem getTileDescription_getElem?_iff {thing : Thing I C} {n : Nat} (hn : n < 10)
    (hindex : ClientIndex w v n thing) :
    (GetTileDescription v)[n]? = some thing ↔ ¬Displaced w v thing := by
  cases thing with
  | item item => exact description_item w v hn hindex
  | creature creature =>
      obtain ⟨hmem, hn'⟩ := clientIndex_creature v hindex.2 hindex.1
      exact description_creature w v hn hmem hn'

/-- Items without properties. -/
def plainWorld : TileWorld where
  itemType _ := {}
  addUniqueItem _ := true
  getNameByGuid _ := []
  tileItemType _ := {}

/-- A tile with the ground, the creatures 1 to 9 and, after them, the player 0. -/
def crowd : Tile Nat Nat where
  object _ := { id := 0, cls := .item }
  ground := some 0
  creatures := [0, 9, 8, 7, 6, 5, 4, 3, 2, 1]

def crowdViewer : Viewer crowd where
  player := 0
  own := true
  canSeeCreature _ := true
  sees_self := rfl
  on_tile _ := by decide

theorem getTileDescription_getElem?_iff_crowd :
    1 < 10 ∧ ClientIndex plainWorld crowdViewer 1 (.creature 1) ∧
      ((GetTileDescription crowdViewer)[1]? = some (.creature 1) ↔
        ¬Displaced plainWorld crowdViewer (.creature 1)) :=
  have hindex : ClientIndex plainWorld crowdViewer 1 (.creature 1) := ⟨rfl, .inr (by decide)⟩
  ⟨by decide, hindex, getTileDescription_getElem?_iff plainWorld crowdViewer (by decide) hindex⟩

/-- Creature 9 is the tenth thing for the server, but the client is sent the player. -/
theorem getTileDescription_crowd :
    crowdViewer.canSeeCreature 9 = true ∧ getStackposOfCreature crowdViewer 9 = some 9 ∧
      getClientIndexOfCreature crowdViewer 9 = some 9 ∧
      (GetTileDescription crowdViewer)[9]? = some (.creature 0) := by
  decide

end Infernum.Tile
