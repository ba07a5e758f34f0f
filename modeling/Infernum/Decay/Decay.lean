import Infernum.Lib.TransitionSystem
import Mathlib.Logic.Function.Basic
import Mathlib.Data.Int.Basic

/-!
# Decaying items

`Game::startDecay`, `checkDecay` and `cleanup` with the lists they keep, and what
transforms, clones and removes items. Items are objects at addresses that are not used
again. What the surroundings of an item answer (its cylinder, a script, its other
attributes) is part of the step.
-/

namespace Infernum.Decay

def EVENT_DECAYINTERVAL : Nat := 250
def EVENT_DECAY_BUCKETS : Nat := 4

inductive ItemDecayState where
  | DECAYING_FALSE
  | DECAYING_TRUE
  | DECAYING_PENDING
  deriving DecidableEq, Repr

open ItemDecayState

/-- An entry of `Item::items`; an unknown type has `id` 0. -/
structure ItemType where
  id : Nat
  deprecated : Bool
  type : Nat
  stackable : Bool
  alwaysOnTop : Bool
  decayTo : Int
  decayTime : Nat
  stopTime : Bool
  deriving DecidableEq, Repr

/-- `decayTime * 1000` as a 32 bit number. -/
def ItemType.duration (it : ItemType) : Nat := it.decayTime * 1000 % 4294967296

structure Item where
  id : Nat
  /-- `ITEM_ATTRIBUTE_DURATION` -/
  duration : Option Int
  /-- `ITEM_ATTRIBUTE_DECAYSTATE` -/
  decayState : Option ItemDecayState
  /-- `hasAttribute(ITEM_ATTRIBUTE_UNIQUEID)` -/
  uniqueId : Bool
  /-- `isRemoved()` -/
  removed : Bool
  deriving DecidableEq, Repr

/-- A 32 bit number read as a signed one. -/
def toInt32 (n : Nat) : Int := if n < 2147483648 then n else n - 4294967296

namespace Item

variable (types : Nat → ItemType)

def getDuration (item : Item) : Nat := (item.duration.getD 0 % 4294967296).toNat

def getDecaying (item : Item) : ItemDecayState := item.decayState.getD .DECAYING_FALSE

def setDecaying (item : Item) (decayState : ItemDecayState) : Item :=
  { item with decayState := some decayState }

def setDuration (item : Item) (time : Int) : Item := { item with duration := some time }

def decreaseDuration (item : Item) (time : Int) : Item :=
  { item with duration := some (item.duration.getD 0 - time) }

def canDecay (item : Item) : Bool :=
  if item.removed then false
  else if (types item.id).decayTo < 0 ∨ (types item.id).decayTime = 0 then false
  else !item.uniqueId

/-- `Item::setID`. -/
def setID (item : Item) (newid : Nat) : Item :=
  let prevIt := types item.id
  let item := { item with id := newid }
  let it := types newid
  let newDuration := it.duration
  let item : Item :=
    if newDuration = 0 ∧ !it.stopTime ∧ it.decayTo < 0 then
      { item with decayState := none, duration := none }
    else item
  if newDuration > 0 ∧ (!prevIt.stopTime ∨ item.duration.isNone) then
    (item.setDecaying .DECAYING_FALSE).setDuration (toInt32 newDuration)
  else item

/-- `Item::CreateItem`, already in its place. -/
def create (id : Nat) (removed : Bool) : Option Item :=
  let it := types id
  if it.deprecated then none
  else if it.id = 0 then none
  else
    let duration := if it.duration ≠ 0 then some (toInt32 it.duration) else none
    some { id, duration, decayState := none, uniqueId := false, removed }

end Item

/-- The answers to one `transformItem` or `internalRemoveItem`. -/
structure Surroundings where
  /-- `getSubType()` -/
  subType : Int
  /-- `hasAttribute(ITEM_ATTRIBUTE_CHARGES)` -/
  charges : Bool
  /-- whether a removed item still has a parent -/
  parent : Bool
  /-- `getThingIndex` finds the item -/
  found : Bool
  canTransform : Bool
  /-- the cylinder takes the item back, or the new one -/
  accepted : Bool
  /-- `queryRemove` and `canRemove` -/
  removable : Bool

/-- What `transformItem` does with an item. -/
inductive Change where
  /-- `return item` -/
  | unchanged
  /-- `return nullptr` -/
  | noItem
  /-- `removeThing`, `setID`, `addThing` -/
  | putBack (itemId : Nat)
  /-- `updateThing` -/
  | update (itemId : Nat)
  /-- `internalRemoveItem` -/
  | remove
  /-- `CreateItem`, `replaceThing` -/
  | replace (itemId : Nat)
  deriving DecidableEq

variable (types : Nat → ItemType)

/-- The branches of `transformItem`; `again` is its call of itself. -/
def changeWith (e : Surroundings) (item : Item) (again : Nat → Change) (newId : Nat)
    (newCount : Int) : Change :=
  if item.id = newId ∧ (newCount = -1 ∨ newCount = e.subType ∧ newCount ≠ 0) then .unchanged
  else if item.removed ∧ !e.parent then .noItem
  else if !e.found then .unchanged
  else if !e.canTransform then .unchanged
  else if (types newId).id = 0 then .unchanged
  else if (types item.id).alwaysOnTop ≠ (types newId).alwaysOnTop then .putBack newId
  else if (types item.id).type = (types newId).type then
    if newCount = 0 ∧ ((types item.id).stackable ∨ e.charges) then
      if (types item.id).stackable then .remove
      else
        let newItemId : Int :=
          if (types item.id).id = (types newId).id then (types item.id).decayTo else newId
        if newItemId < 0 then .remove
        else if newItemId ≠ newId then .replace (newItemId % 65536).toNat
        else again newId
    else .update (if (types item.id).id ≠ (types newId).id then newId else item.id)
  else .replace newId

/-- It calls itself with no count at all, and only if the count is 0. -/
def change (e : Surroundings) (item : Item) (newId : Nat) (newCount : Int) : Change :=
  let again := fun newId => changeWith types e item (fun _ => .unchanged) newId (-1)
  changeWith types e item again newId newCount

structure World where
  items : Nat → Option Item
  /-- The next address that was never used. -/
  next : Nat
  toDecayItems : List Nat
  decayItems : Nat → List Nat
  lastBucket : Nat

/-- The answers by item and new type. -/
abbrev Env := Nat → Nat → Surroundings

namespace World

def initial : World := ⟨fun _ => none, 0, [], fun _ => [], 0⟩

def set (w : World) (x : Nat) (item : Item) : World :=
  { w with items := Function.update w.items x (some item) }

def new (w : World) (item : Item) : World :=
  { w with items := Function.update w.items w.next (some item), next := w.next + 1 }

/-- `internalRemoveItem`, of the whole item. -/
def internalRemoveItem (e : Surroundings) (w : World) (x : Nat) : World :=
  match w.items x with
  | none => w
  | some item => if !e.removable then w else w.set x { item with removed := true }

/-- `Game::transformItem`, and the item it returns. -/
def transformItem (e : Surroundings) (w : World) (x newId : Nat) (newCount : Int) :
    World × Option Nat :=
  match w.items x with
  | none => (w, none)
  | some item =>
      match change types e item newId newCount with
      | .unchanged => (w, some x)
      | .noItem => (w, none)
      | .putBack itemId =>
          let item := item.setID types itemId
          if e.accepted then (w.set x item, some x)
          else (w.set x { item with removed := true }, none)
      | .update itemId => (w.set x (item.setID types itemId), some x)
      | .remove => (w.internalRemoveItem e x, none)
      | .replace itemId =>
          match Item.create types itemId (item.removed || !e.accepted) with
          | none => (w, none)
          | some newItem => ((w.set x { item with removed := true }).new newItem, some w.next)

/-- `Game::internalDecayItem`. -/
def internalDecayItem (env : Env) (startDecay : World → Option Nat → Option World) (w : World)
    (x : Nat) : Option World :=
  match w.items x with
  | none => some w
  | some item =>
      let it := types item.id
      if it.decayTo ≠ 0 then
        let newId := (it.decayTo % 65536).toNat
        let (w, newItem) := w.transformItem types (env x newId) x newId (-1)
        startDecay w newItem
      else some (w.internalRemoveItem (env x 0) x)

/-- `Game::startDecay`; it has no result if it does not return after so many calls. -/
def startDecay (env : Env) : Nat → World → Option Nat → Option World
  | 0, _, _ => none
  | _ + 1, w, none => some w
  | fuel + 1, w, some x =>
      match w.items x with
      | none => some w
      | some item =>
          if !item.canDecay types then some w
          else if item.getDecaying = .DECAYING_TRUE then some w
          else if item.getDuration > 0 then
            let w := w.set x (item.setDecaying .DECAYING_TRUE)
            some { w with toDecayItems := x :: w.toDecayItems }
          else internalDecayItem types env (startDecay env fuel) w x

/-! ## The timers -/

/-- What becomes of an item that `checkDecay` comes to. -/
inductive Visit where
  /-- it cannot decay any more -/
  | released
  | decayed
  | moved (newBucket : Nat)
  | kept
  deriving DecidableEq

def visit (bucket : Nat) (item : Item) : Item × Visit :=
  if !item.canDecay types then (item.setDecaying .DECAYING_FALSE, .released)
  else
    let duration := toInt32 item.getDuration
    let decreaseTime := min (EVENT_DECAYINTERVAL * EVENT_DECAY_BUCKETS : Int) duration
    let duration := duration - decreaseTime
    let item := item.decreaseDuration decreaseTime
    if duration ≤ 0 then (item, .decayed)
    else if duration < EVENT_DECAYINTERVAL * EVENT_DECAY_BUCKETS then
      let newBucket := (bucket + (duration.toNat + EVENT_DECAYINTERVAL / 2) / 1000) %
        EVENT_DECAY_BUCKETS
      if newBucket = bucket then (item, .decayed) else (item, .moved newBucket)
    else (item, .kept)

/-- `decayItems[bucket].push_back(item)`. -/
def pushBack (w : World) (bucket x : Nat) : World :=
  { w with decayItems := Function.update w.decayItems bucket (w.decayItems bucket ++ [x]) }

/-- The loop of `checkDecay`, with the items still to come to and those left in the bucket.
It returns the items that `internalDecayItem` is called for. -/
def checkBucket (env : Env) (fuel bucket : Nat) :
    List Nat → List Nat → World → Option (World × List Nat)
  | [], kept, w => some ({ w with decayItems := Function.update w.decayItems bucket kept }, [])
  | x :: rest, kept, w =>
      match w.items x with
      | none => checkBucket env fuel bucket rest kept w
      | some item =>
          match visit types bucket item with
          | (item, .released) => checkBucket env fuel bucket rest kept (w.set x item)
          | (item, .moved newBucket) =>
              checkBucket env fuel bucket rest kept ((w.set x item).pushBack newBucket x)
          | (item, .kept) => checkBucket env fuel bucket rest (kept ++ [x]) (w.set x item)
          | (item, .decayed) => do
              let w ← internalDecayItem types env (startDecay types env fuel) (w.set x item) x
              let (w, calls) ← checkBucket env fuel bucket rest kept w
              some (w, x :: calls)

/-- Where `cleanup` puts an item that is to decay. -/
def entryBucket (lastBucket dur : Nat) : Nat :=
  if dur ≥ EVENT_DECAYINTERVAL * EVENT_DECAY_BUCKETS then lastBucket
  else (lastBucket + 1 + dur / 1000) % EVENT_DECAY_BUCKETS

def enter (w : World) (x : Nat) : World :=
  match w.items x with
  | none => w
  | some item => w.pushBack (entryBucket w.lastBucket item.getDuration) x

/-- `Game::cleanup`, without what it deletes. -/
def cleanup (w : World) : World := { w.toDecayItems.foldl enter w with toDecayItems := [] }

def checkDecay (env : Env) (fuel : Nat) (w : World) : Option (World × List Nat) := do
  let bucket := (w.lastBucket + 1) % EVENT_DECAY_BUCKETS
  let (w, calls) ← checkBucket types env fuel bucket (w.decayItems bucket) [] w
  some (cleanup { w with lastBucket := bucket }, calls)

/-! ## Moving stacks -/

/-- How `internalMoveItem` moves a stack: whether all of it is taken away, whether it
equals the stack that it is put on in everything else, whether some of it is left over for
a clone, and whether the clone finds a place. -/
structure Move where
  whole : Bool
  equal : Bool
  left : Bool
  accepted : Bool

/-- `equals`, as far as decaying goes. -/
def equals (w : World) (x toItem : Nat) : Bool :=
  match w.items x, w.items toItem with
  | some item, some other => item.id = other.id && item.duration = other.duration &&
      item.decayState = other.decayState && item.uniqueId = other.uniqueId
  | _, _ => false

/-- The stackable part of `Game::internalMoveItem`. -/
def moveStack (w : World) (x : Nat) (toItem : Option Nat) (m : Move) : World :=
  match w.items x with
  | none => w
  | some item =>
    if toItem = some x then w
    else
      let w := if m.whole then w.set x { item with removed := true } else w
      let w := match toItem with
        | none => w
        | some y =>
            match w.items y with
            | none => w
            | some other =>
                if m.equal && w.equals x y then w.set y (other.setID types other.id) else w
      if m.left then w.new { item with removed := !m.accepted } else w

inductive Step where
  /-- a new item, of whatever origin -/
  | create (item : Item)
  | startDecay (x : Nat)
  | checkDecay
  | cleanup
  | transformItem (x newId : Nat) (newCount : Int)
  | setID (x newId : Nat)
  | moveStack (x : Nat) (toItem : Option Nat) (m : Move)
  | removeItem (x : Nat)

def step (env : Env) (fuel : Nat) (w : World) : Step → Option World
  | .create item => some (if item.getDecaying = .DECAYING_TRUE then w else w.new item)
  | .startDecay x => startDecay types env fuel w (some x)
  | .checkDecay => (checkDecay types env fuel w).map Prod.fst
  | .cleanup => some w.cleanup
  | .transformItem x newId newCount =>
      some (w.transformItem types (env x newId) x newId newCount).1
  | .setID x newId =>
      match w.items x with
      | none => some w
      | some item => some (w.set x (item.setID types newId))
  | .moveStack x toItem m => some (w.moveStack types x toItem m)
  | .removeItem x => some (w.internalRemoveItem (env x 0) x)

/-- Everything in any order, for any table of types and any answers. -/
def system : Lib.TSys World (Env × Step) where
  init w := w = initial
  step w a w' := ∃ fuel, w.step types a.1 fuel a.2 = some w'

end World

end Infernum.Decay
