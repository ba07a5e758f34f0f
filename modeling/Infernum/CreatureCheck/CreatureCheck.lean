import Infernum.Lib.TransitionSystem
import Mathlib.Algebra.BigOperators.Fin
import Mathlib.Algebra.BigOperators.Group.Finset.Basic
import Mathlib.Logic.Function.Basic

/-!
# The creature check lists

`Game::addCreatureCheck`, `removeCreatureCheck` and `checkCreatures`. A creature that has
to think stands in one of ten lists. Removing it only clears a flag, and the next walk of
its list takes it out. The callbacks of a walk call the first two functions as they like,
so a walk is a state of its own between two of its steps.
-/

namespace Infernum.CreatureCheck

abbrev EVENT_CREATURECOUNT : Nat := 10

scoped instance : NeZero EVENT_CREATURECOUNT := ⟨by decide⟩

/-- One of the `checkCreatureLists`. -/
abbrev ListIndex := Fin EVENT_CREATURECOUNT

/-- What a turn of the loop calls. -/
inductive Callback where
  | onThink
  | onAttacking
  | executeConditions
  | onDeath
  deriving DecidableEq, Repr

/-- A `checkCreatures` under way. -/
structure Walk where
  index : ListIndex
  /-- How many elements are in front of `it`. -/
  it : Nat
  /-- The callback that runs; none at the head of the loop. -/
  calling : Option Callback
  deriving DecidableEq, Repr

/-- The references that one creature has handed out, by who holds them. -/
structure References where
  /-- `incrementReferenceCounter` in `addCreatureCheck` -/
  inserted : Nat
  /-- `ReleaseCreature` in `checkCreatures` -/
  takenOut : Nat
  /-- what the rest of the server has taken and not given back -/
  elsewhere : Nat
  deriving DecidableEq, Repr

variable {Creature : Type*} [DecidableEq Creature]

structure State (Creature : Type*) where
  creatureCheck : Creature → Bool
  inCheckCreaturesVector : Creature → Bool
  referenceCounter : Creature → Nat
  checkCreatureLists : ListIndex → List Creature
  toReleaseCreatures : List Creature
  /-- the argument of the `checkCreatures` that was scheduled last -/
  scheduled : Option ListIndex
  walk : Option Walk
  /-- Books that the server does not keep: the references, and the calls of `onThink`
  with the creature's `creatureCheck` at that time. -/
  references : Creature → References
  thoughts : List (Creature × Bool)

/-- The server has started, and nobody is online. -/
def State.start : State Creature where
  creatureCheck _ := false
  inCheckCreaturesVector _ := false
  referenceCounter _ := 0
  checkCreatureLists _ := []
  toReleaseCreatures := []
  scheduled := none
  walk := none
  references _ := { inserted := 0, takenOut := 0, elsewhere := 0 }
  thoughts := []

namespace State

/-- `checkCreatureLists[index].push_back(creature)`. -/
def pushBack (s : State Creature) (index : ListIndex) (creature : Creature) : State Creature :=
  { s with
    checkCreatureLists := Function.update s.checkCreatureLists index
      (s.checkCreatureLists index ++ [creature]) }

/-- `creature->incrementReferenceCounter()`. -/
def increment (s : State Creature) (creature : Creature) : State Creature :=
  { s with
    referenceCounter := Function.update s.referenceCounter creature
      (s.referenceCounter creature + 1) }

/-- `creature->decrementReferenceCounter()`; the creature is deleted at zero. -/
def decrement (s : State Creature) (creature : Creature) : State Creature :=
  { s with
    referenceCounter := Function.update s.referenceCounter creature
      (s.referenceCounter creature - 1) }

/-- `Game::ReleaseCreature`. -/
def releaseCreature (s : State Creature) (creature : Creature) : State Creature :=
  { s with toReleaseCreatures := s.toReleaseCreatures ++ [creature] }

def note (s : State Creature) (creature : Creature) (f : References → References) :
    State Creature :=
  { s with
    references := Function.update s.references creature (f (s.references creature)) }

/-- `Game::addCreatureCheck`; `index` is what `uniform_random` draws. -/
def addCreatureCheck (s : State Creature) (creature : Creature) (index : ListIndex) :
    State Creature :=
  let s := { s with creatureCheck := Function.update s.creatureCheck creature true }
  if s.inCheckCreaturesVector creature then
    -- already in a vector
    s
  else
    let s := { s with
      inCheckCreaturesVector := Function.update s.inCheckCreaturesVector creature true }
    ((s.pushBack index creature).increment creature).note creature
      fun r => { r with inserted := r.inserted + 1 }

/-- `Game::removeCreatureCheck`. -/
def removeCreatureCheck (s : State Creature) (creature : Creature) : State Creature :=
  if s.inCheckCreaturesVector creature then
    { s with creatureCheck := Function.update s.creatureCheck creature false }
  else s

/-- The first lines of `Game::checkCreatures`. -/
def checkCreatures (s : State Creature) (index : ListIndex) : State Creature :=
  { s with
    -- `(index + 1) % EVENT_CREATURECOUNT`
    scheduled := some (index + 1)
    walk := some { index, it := 0, calling := none } }

/-- What `Game::cleanup` does for creatures. -/
def cleanup (s : State Creature) : State Creature :=
  { s.toReleaseCreatures.foldl decrement s with toReleaseCreatures := [] }

/-- The walk takes the creature at `it` out: its flag is off. -/
def takeOut (s : State Creature) (w : Walk) (creature : Creature) : State Creature :=
  let s := { s with
    inCheckCreaturesVector := Function.update s.inCheckCreaturesVector creature false
    checkCreatureLists := Function.update s.checkCreatureLists w.index
      ((s.checkCreatureLists w.index).eraseIdx w.it) }
  (s.releaseCreature creature).note creature
    fun r => { r with takenOut := r.takenOut + 1 }

/-- From the head of the loop of `checkCreatures` to the next callback or back to the
head; at the end of the list the function returns. `alive` is `getHealth() > 0`. -/
def turn (s : State Creature) (w : Walk) (alive : Bool) : State Creature :=
  match (s.checkCreatureLists w.index)[w.it]? with
  | none => { s.cleanup with walk := none }
  | some creature =>
      if s.creatureCheck creature then
        if alive then
          { s with
            walk := some { w with calling := some .onThink }
            thoughts := (creature, s.creatureCheck creature) :: s.thoughts }
        else { s with walk := some { w with calling := some .onDeath } }
      else s.takeOut w creature

/-- A callback returns, and the next one is called or `++it` done. -/
def callbackReturns (s : State Creature) (w : Walk) : Callback → State Creature
  | .onThink => { s with walk := some { w with calling := some .onAttacking } }
  | .onAttacking => { s with walk := some { w with calling := some .executeConditions } }
  | .executeConditions | .onDeath =>
      { s with walk := some { w with it := w.it + 1, calling := none } }

end State

/-! ### Runs -/

/-- What happens next. The two functions, and the references of the rest of the server,
come at any time that is not the middle of a turn: between two walks, or in a callback. -/
inductive Act (Creature : Type*) where
  | addCreatureCheck (creature : Creature) (index : ListIndex)
  | removeCreatureCheck (creature : Creature)
  | checkCreatures (index : ListIndex)
  | turn (alive : Bool)
  | callbackReturns
  | incrementReferenceCounter (creature : Creature)
  | decrementReferenceCounter (creature : Creature)
  | releaseCreature (creature : Creature)
  | cleanup

/-- Other code runs: there is no walk, or it is in a callback. -/
def State.isOpen (s : State Creature) : Bool := s.walk.all fun w => w.calling.isSome

/-- A step of the server; none where it cannot happen now. -/
def step (s : State Creature) : Act Creature → Option (State Creature)
  | .addCreatureCheck creature index =>
      if s.isOpen then some (s.addCreatureCheck creature index) else none
  | .removeCreatureCheck creature =>
      if s.isOpen then some (s.removeCreatureCheck creature) else none
  | .checkCreatures index =>
      match s.walk with
      | none => some (s.checkCreatures index)
      | some _ => none
  | .turn alive =>
      match s.walk with
      | some { index, it, calling := none } =>
          some (s.turn { index, it, calling := none } alive)
      | _ => none
  | .callbackReturns =>
      match s.walk with
      | some { index, it, calling := some callback } =>
          some (s.callbackReturns { index, it, calling := some callback } callback)
      | _ => none
  | .incrementReferenceCounter creature =>
      if s.isOpen then
        some ((s.increment creature).note creature
          fun r => { r with elsewhere := r.elsewhere + 1 })
      else none
  | .decrementReferenceCounter creature =>
      -- it gives back what it has taken
      if s.isOpen ∧ 0 < (s.references creature).elsewhere then
        some ((s.decrement creature).note creature
          fun r => { r with elsewhere := r.elsewhere - 1 })
      else none
  | .releaseCreature creature =>
      if s.isOpen ∧ 0 < (s.references creature).elsewhere then
        some ((s.releaseCreature creature).note creature
          fun r => { r with elsewhere := r.elsewhere - 1 })
      else none
  | .cleanup => if s.isOpen then some s.cleanup else none

def system (Creature : Type*) [DecidableEq Creature] :
    Lib.TSys (State Creature) (Act Creature) where
  init s := s = .start
  step s act t := step s act = some t

/-! ### Consistent lists -/

/-- How often the creature stands in the lists. -/
def State.occurrences (s : State Creature) (creature : Creature) : Nat :=
  ∑ index, (s.checkCreatureLists index).count creature

end Infernum.CreatureCheck
