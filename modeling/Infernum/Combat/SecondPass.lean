import Infernum.Combat.Silent

/-!
# The second pass

With silent scripts a call is the first pass up to the scripts and then a whole
call on what they have heard. That call comes to the same as the first pass
would have, and only then the scripts have changed nothing: `HealthHarmless` and
`ManaHarmless` say when, case by case.
-/

namespace Infernum.Combat

variable {env : Env} {attacker : Option Attacker} {events : Events} {t : Target} {d : CombatDamage}

/-! ### Health -/

/-- A server on which a monster of level ten hits twice as hard. -/
def doubling : Env where
  bonus := fun level => if level = 10 then some fun value => value + value else none
  healed := fun _ value => value
  absorbed := fun _ _ => 0
  transformItem := fun t _ => t
  prepareDeath := fun _ => true

def melee (value : Int) : CombatDamage where
  primary := { type := .physicalDamage, value := value }
  secondary := { type := .none, value := 0 }
  origin := .melee

end Infernum.Combat
