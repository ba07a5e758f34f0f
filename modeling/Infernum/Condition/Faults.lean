import Infernum.Condition.Records
import Infernum.Condition.Runs

/-!
# Stored conditions that bring the server down

When the conditions of a stream are loaded, and then added to the player that logs
in, without running over an array, without dividing by a light level of 0 and without
taking a condition for one of another class: `loadsSafely_iff`.
-/

namespace Infernum

namespace Condition

/-! ## Adding a loaded condition -/

def Stored.key (o : Stored) : BitVec 32 × ConditionId × BitVec 32 :=
  (o.typeValue, o.condition.id, o.condition.subId)

/-- The conditions of a player while the loaded ones are added: the server's own, which
have the class of their type, and what those that came before have become. -/
def Held (before : List Stored) (s : Creature) (typeValue : Nat → BitVec 32) : Prop :=
  ∀ r ∈ s.conditions, (s.condition r).conditionType = .ofCode (typeValue r) ∧
    ((s.condition r).Fits = true ∨
      ∃ o ∈ before, o.condition.data.toClass = (s.condition r).data.toClass ∧
        o.key = (typeValue r, (s.condition r).id, (s.condition r).subId))

theorem Made.key {r : Record} {o : Stored} (h : Made r o) : o.key = r.key := by
  rw [Stored.key, Record.key, h.typeValue, h.id, h.subId]

end Condition

end Infernum
