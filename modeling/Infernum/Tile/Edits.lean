import Infernum.Tile.Operations

/-!
# Edits of a tile

Each operation on a tile is a sequence of edits: an item is put somewhere, taken off
or given new values, and the flags are set and reset for it. What holds of every edit
holds of every operation.
-/

namespace Infernum.Tile

variable {I C : Type} [DecidableEq I] [DecidableEq C] (w : TileWorld)

inductive Edit (I C : Type) where
  | setGround (item : I)
  | removeGround
  | insertTop (strict : Bool) (item : I)
  | insertDown (item : I)
  | eraseTop (item : I)
  | eraseDown (item : I)
  | replaceAt (k : Nat) (item : I)
  | update (item : I) (o : Object)
  | setObject (item : I) (o : Object)
  | setCreatures (creatures : List C)

/-- A top item is inserted before another one. -/
def later (t : Tile I C) (strict : Bool) (item i : I) : Bool :=
  if strict then t.topOrder w item < t.topOrder w i else t.topOrder w item ≤ t.topOrder w i

def apply (t : Tile I C) : Edit I C → Tile I C
  | .setGround item =>
      match t.ground with
      | none => { t with ground := some item }.setTileFlags w item
      | some oldGround =>
          ({ t with ground := some item }.resetTileFlags w oldGround).setTileFlags w item
  | .removeGround =>
      match t.ground with
      | none => t
      | some ground => { t with ground := none }.resetTileFlags w ground
  | .insertTop strict item => (t.insertTop (t.later w strict item) item).setTileFlags w item
  | .insertDown item => (t.insertDown item).setTileFlags w item
  | .eraseTop item => (t.eraseTop item).resetTileFlags w item
  | .eraseDown item => (t.eraseDown item).resetTileFlags w item
  | .replaceAt k item => t.replaceAt w k item
  | .update item o => ((t.resetTileFlags w item).setObject item o).setTileFlags w item
  | .setObject item o => t.setObject item o
  | .setCreatures creatures => { t with creatures := creatures }

def applyAll (t : Tile I C) (edits : List (Edit I C)) : Tile I C := edits.foldl (apply w) t

omit [DecidableEq C] in

omit [DecidableEq C] in
@[simp] theorem applyAll_cons (t : Tile I C) (e : Edit I C) (edits : List (Edit I C)) :
    t.applyAll w (e :: edits) = (t.apply w e).applyAll w edits := rfl

omit [DecidableEq C] in
theorem applyAll_append (t : Tile I C) (edits edits' : List (Edit I C)) :
    t.applyAll w (edits ++ edits') = (t.applyAll w edits).applyAll w edits' :=
  List.foldl_append

variable (t : Tile I C)

omit [DecidableEq C] in
/-- A branch of an operation is a branch of its edits. -/
theorem ite_applyAll {c : Prop} [Decidable c] {a b : Tile I C} {edits edits' : List (Edit I C)}
    (ha : c → a = t.applyAll w edits) (hb : ¬c → b = t.applyAll w edits') :
    (if c then a else b) = t.applyAll w (if c then edits else edits') := by
  split
  case isTrue hc => exact ha hc
  case isFalse hc => exact hb hc

/-! ## The edits of the operations -/

def removeEdits (thing : Thing I C) (count : BitVec 32) : List (Edit I C) :=
  match thing with
  | .creature creature => [.setCreatures (t.creatures.erase creature)]
  | .item item =>
      if t.getThingIndex w (.item item) = none then []
      else if t.ground = some item then [.removeGround]
      else
        let o := t.object item
        if o.isAlwaysOnTop w then if item ∉ t.items.topItems then [] else [.eraseTop item]
        else if item ∉ t.items.downItems then []
        else if (o.itemType w).stackable ∧ count ≠ o.count.setWidth 32 then
          let newCount := (max 0 (o.count.setWidth 32 - count).toInt).toNat
          [.setObject item { o with toItem := o.toItem.setItemCount (.ofNat 16 (newCount % 256)) }]
        else [.eraseDown item]

theorem removeThing_eq (thing : Thing I C) (count : BitVec 32) :
    t.removeThing w thing count = t.applyAll w (t.removeEdits w thing count) := by
  cases thing with
  | creature creature => rfl
  | item item =>
      rw [removeThing, removeEdits]
      by_cases hindex : t.getThingIndex w (.item item) = none
      · rw [if_pos hindex, if_pos hindex]
        rfl
      rw [if_neg hindex, if_neg hindex]
      by_cases hground : t.ground = some item
      · rw [if_pos hground, if_pos hground, applyAll_cons, apply]
        cases hg : t.ground with
        | none =>
            rw [hg] at hground
            cases hground
        | some ground =>
            rw [hg] at hground
            obtain rfl := Option.some.inj hground
            rfl
      rw [if_neg hground, if_neg hground]
      dsimp only
      split
      · split <;> rfl
      · split
        · rfl
        · split <;> rfl

def splashEdits (itemType : ItemType) : List (Edit I C) :=
  if itemType.isSplash then
    match t.items.topItems.find? fun i => ((t.object i).itemType w).isSplash with
    | some oldSplash => t.removeEdits w (.item oldSplash) 1
    | none => []
  else []

theorem removeOldSplash_eq (itemType : ItemType) :
    t.removeOldSplash w itemType = t.applyAll w (t.splashEdits w itemType) := by
  rw [removeOldSplash, splashEdits]
  split
  · cases t.items.topItems.find? fun i => ((t.object i).itemType w).isSplash with
    | none => rfl
    | some oldSplash => exact removeThing_eq w t (.item oldSplash) 1
  · rfl

def addEdits : Thing I C → List (Edit I C)
  | .creature creature => [.setCreatures (creature :: t.creatures)]
  | .item item =>
      if 0xFFFF ≤ t.items.items.length then []
      else
        let itemType := (t.object item).itemType w
        if itemType.isGroundTile then [.setGround item]
        else if itemType.alwaysOnTop then
          t.splashEdits w itemType ++ [.insertTop false item]
        else if itemType.type = .magicField then
          match t.items.downItems.find? fun i => (t.object i).cls == .magicField with
          | some oldField =>
              if (w.tileItemType (t.object oldField).id).replaceable then
                t.removeEdits w (.item oldField) 1 ++ [.insertDown item]
              else []
          | none => [.insertDown item]
        else [.insertDown item]

theorem addThing_eq (thing : Thing I C) :
    t.addThing w thing = t.applyAll w (t.addEdits w thing) := by
  cases thing with
  | creature creature => rfl
  | item item =>
      rw [addThing, addEdits]
      split
      · rfl
      dsimp only
      split
      · rw [applyAll_cons, apply]
        cases t.ground <;> rfl
      split
      · rw [applyAll_append, ← removeOldSplash_eq]
        rfl
      split
      · cases t.items.downItems.find? fun i => (t.object i).cls == .magicField with
        | none => rfl
        | some oldField =>
            dsimp only
            split
            · rw [applyAll_append, ← removeThing_eq]
              rfl
            · rfl
      · rfl

def internalAddEdits : Thing I C → List (Edit I C)
  | .creature creature => [.setCreatures (creature :: t.creatures)]
  | .item item =>
      let itemType := (t.object item).itemType w
      if itemType.isGroundTile then if t.ground = none then [.setGround item] else []
      else if 0xFFFF ≤ t.items.items.length then []
      else if itemType.alwaysOnTop then [.insertTop true item]
      else [.insertDown item]

omit [DecidableEq C] in
theorem internalAddThing_eq (thing : Thing I C) :
    t.internalAddThing w thing = t.applyAll w (t.internalAddEdits w thing) := by
  cases thing with
  | creature creature => rfl
  | item item =>
      rw [internalAddThing, internalAddEdits]
      split
      · split
        case isTrue hground =>
          rw [applyAll_cons, apply, hground]
          rfl
        case isFalse => rfl
      · split
        · rfl
        · split <;> rfl

def updateEdits (item : I) (itemId : BitVec 16) (count : BitVec 32) : List (Edit I C) :=
  if t.getThingIndex w (.item item) = none then []
  else [.update item (((t.object item).setID w itemId).setSubType w (count.setWidth 16))]

theorem updateThing_eq (item : I) (itemId : BitVec 16) (count : BitVec 32) :
    t.updateThing w item itemId count = t.applyAll w (t.updateEdits w item itemId count) := by
  rw [updateThing, updateEdits]
  split <;> rfl

def replaceEdits (index : Nat) (item : I) : List (Edit I C) :=
  match t.ground, index with
  | some _, 0 => [.setGround item]
  | _, _ =>
      let pos := if t.ground.isSome then index - 1 else index
      if pos < t.items.getTopItemCount then [.replaceAt (t.items.downItemCount + pos) item]
      else
        let pos := pos - t.items.getTopItemCount
        if pos < t.creatures.length then []
        else
          let pos := pos - t.creatures.length
          if pos < t.items.downItemCount then [.replaceAt pos item] else []

omit [DecidableEq C] in
theorem replaceThing_eq (index : Nat) (item : I) :
    t.replaceThing w index item = t.applyAll w (t.replaceEdits index item) := by
  have hrest : ∀ pos, (if pos < t.items.getTopItemCount then
        t.replaceAt w (t.items.downItemCount + pos) item
      else if pos - t.items.getTopItemCount < t.creatures.length then t
      else if pos - t.items.getTopItemCount - t.creatures.length < t.items.downItemCount then
        t.replaceAt w (pos - t.items.getTopItemCount - t.creatures.length) item
      else t) =
      t.applyAll w (if pos < t.items.getTopItemCount then
        [.replaceAt (t.items.downItemCount + pos) item]
      else if pos - t.items.getTopItemCount < t.creatures.length then []
      else if pos - t.items.getTopItemCount - t.creatures.length < t.items.downItemCount then
        [.replaceAt (pos - t.items.getTopItemCount - t.creatures.length) item]
      else []) := by
    intro pos
    split
    · rfl
    · split
      · rfl
      · split <;> rfl
  unfold replaceThing replaceEdits
  cases hground : t.ground with
  | none => exact hrest index
  | some ground =>
      cases index with
      | zero =>
          show _ = t.apply w (.setGround item)
          rw [apply, hground]
          rfl
      | succ index => exact hrest index

def internalRemoveEdits (item : I) : List (Edit I C) :=
  let o := t.object item
  if t.getThingIndex w (.item item) = none ∨ o.count = 0 then []
  else if o.canRemove = false then []
  else t.removeEdits w (.item item) (o.count.setWidth 32)

theorem internalRemoveItem_eq (item : I) :
    t.internalRemoveItem w item = t.applyAll w (t.internalRemoveEdits w item) := by
  rw [internalRemoveItem, internalRemoveEdits]
  split
  · rfl
  · split
    · rfl
    · exact removeThing_eq w t _ _

/-- The object that `replaceByNew` makes. -/
def newObject (i : Item) (newId : BitVec 16) : Object :=
  let cls := (w.itemType newId).itemClass
  { i with cls := cls, canRemove := cls != .depotLocker }

def newEdits (itemIndex : Nat) (newItem : I) (newId newCount : BitVec 16) : List (Edit I C) :=
  match Item.createItem w.toWorld newId newCount with
  | some i =>
      .setObject newItem (newObject w i newId) ::
        (t.setObject newItem (newObject w i newId)).replaceEdits itemIndex newItem
  | none => []

omit [DecidableEq C] in
theorem replaceByNew_eq (itemIndex : Nat) (newItem : I) (newId newCount : BitVec 16) :
    t.replaceByNew w itemIndex newItem newId newCount =
      t.applyAll w (t.newEdits w itemIndex newItem newId newCount) := by
  rw [replaceByNew, newEdits]
  cases Item.createItem w.toWorld newId newCount with
  | none => rfl
  | some i => exact replaceThing_eq w _ itemIndex newItem

def inPlaceEdits (item : I) (newId : BitVec 16) (newCount : Int) : List (Edit I C) :=
  let o := t.object item
  let curType := o.itemType w
  let newType := w.itemType newId
  let count : Int := (o.getSubType w.toWorld).toNat
  let count :=
    if newCount ≠ -1 ∧ (newType.holdsFluid ∨ newType.stackable ∨ newType.charges ≠ 0) then newCount
    else count
  if curType.id ≠ newType.id then
    if newType.group ≠ curType.group then
      .setObject item (o.setDefaultSubtype w) ::
        (t.setObject item (o.setDefaultSubtype w)).updateEdits w item newId (.ofInt 32 count)
    else t.updateEdits w item newId (.ofInt 32 count)
  else t.updateEdits w item o.id (.ofInt 32 count)

theorem transformInPlace_eq (item : I) (newId : BitVec 16) (newCount : Int) :
    t.transformInPlace w item newId newCount =
      t.applyAll w (t.inPlaceEdits w item newId newCount) := by
  rw [transformInPlace, inPlaceEdits]
  dsimp only
  split
  · split
    · exact updateThing_eq w _ item newId _
    · exact updateThing_eq w t item newId _
  · exact updateThing_eq w t item _ _

/-- An item that goes to the other part of the vector. -/
def moveEdits (item : I) (newId : BitVec 16) (newCount : Int) : List (Edit I C) :=
  let edits := t.removeEdits w (.item item) ((t.object item).count.setWidth 32)
  let t := t.applyAll w edits
  let o := (t.object item).setID w newId
  let o := if newCount ≠ -1 then o.setSubType w (.ofInt 16 newCount) else o
  edits ++ .setObject item o :: (t.setObject item o).addEdits w (.item item)

def transformEdits (item : I) (newId : BitVec 16) (newCount : Int) (newItem : I) :
    List (Edit I C) :=
  let o := t.object item
  if o.id = newId ∧ (newCount = -1 ∨ (newCount = (o.getSubType w.toWorld).toNat ∧ newCount ≠ 0)) then
    []
  else
    match t.getThingIndex w (.item item) with
    | none => []
    | some itemIndex =>
        let curType := o.itemType w
        let newType := w.itemType newId
        if o.canTransform = false then []
        else if newType.id = 0 then []
        else if curType.alwaysOnTop ≠ newType.alwaysOnTop then t.moveEdits w item newId newCount
        else if curType.type = newType.type then
          if newCount = 0 ∧ (curType.stackable ∨ o.hasAttribute .charges) then
            if curType.stackable then t.internalRemoveEdits w item
            else
              let newItemId : Int := if curType.id = newType.id then curType.decayTo else newId.toNat
              if newItemId < 0 then t.internalRemoveEdits w item
              else if newItemId ≠ newId.toNat then
                t.newEdits w itemIndex newItem (.ofInt 16 newItemId) 1
              else if o.id = newId then []
              else t.inPlaceEdits w item newId (-1)
          else t.inPlaceEdits w item newId newCount
        else t.newEdits w itemIndex newItem newId (if newCount = -1 then 0 else .ofInt 16 newCount)

theorem transformItem_eq (item : I) (newId : BitVec 16) (newCount : Int) (newItem : I) :
    t.transformItem w item newId newCount newItem =
      t.applyAll w (t.transformEdits w item newId newCount newItem) := by
  rw [transformItem, transformEdits]
  refine ite_applyAll w t (fun _ => rfl) fun _ => ?_
  cases t.getThingIndex w (.item item) with
  | none => rfl
  | some itemIndex =>
      refine ite_applyAll w t (fun _ => rfl) fun _ => ?_
      refine ite_applyAll w t (fun _ => rfl) fun _ => ?_
      refine ite_applyAll w t (fun _ => ?_) fun _ => ?_
      · rw [moveEdits, applyAll_append, ← removeThing_eq]
        exact addThing_eq w _ _
      refine ite_applyAll w t (fun _ => ?_) fun _ => replaceByNew_eq w t itemIndex newItem newId _
      refine ite_applyAll w t (fun _ => ?_) fun _ => transformInPlace_eq w t item newId newCount
      refine ite_applyAll w t (fun _ => internalRemoveItem_eq w t item) fun _ => ?_
      refine ite_applyAll w t (fun _ => internalRemoveItem_eq w t item) fun _ => ?_
      refine ite_applyAll w t (fun _ => replaceByNew_eq w t itemIndex newItem _ _) fun _ => ?_
      exact ite_applyAll w t (fun _ => rfl) fun _ => transformInPlace_eq w t item newId (-1)

end Infernum.Tile
