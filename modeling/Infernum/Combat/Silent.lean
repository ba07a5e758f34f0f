import Infernum.Combat.Combat

/-!
# Scripts that leave the damage alone

A script for a change of health or mana that gives back what it received is
not without consequences: the call that comes after it raises the damage by the
attacker's level once more, takes the mana of the shield once more, blocks once
more, and goes by the sign that the type of the damage asks for. Here is what
the functions do where no script is run, and when a second pass comes to the
same.
-/

namespace Infernum.Combat

variable {env : Env} {attacker : Option Attacker} {events : Events} {t : Target} {d : CombatDamage}

/-! ### Silent scripts -/

/-- A script that gives back what it receives. -/
def Silent (script : Script) : Prop :=
  ∀ primary secondary origin, script primary secondary origin = some (primary, secondary)

/-- The changes: the health and the mana that a call leaves. -/
def Target.vitals (t : Target) : Int × Nat := (t.health, t.mana)

def Outcome.change (o : Outcome) : Int × Nat := o.target.vitals

/-- The health that a hit of `damage` leaves. -/
def struck (env : Env) (t : Target) (damage : Int) : Int :=
  if damage = 0 ∨ min damage t.health = 0 then t.health
  else if min damage t.health ≥ t.health ∧ !env.prepareDeath t then t.health
  else (t.drainHealth (min damage t.health)).health

/-- The mana that the shield takes. -/
def shieldTake (t : Target) (d : CombatDamage) : Int :=
  if shielded t d then min (t.mana : Int) d.total else 0

/-- The damage with the bonus of the attacker's level, without its sign. -/
def raised (env : Env) (attacker : Option Attacker) (d : CombatDamage) : CombatDamage :=
  (d.mapValues (scaled env attacker)).mapValues fun value => |value|

/-- A hit, on the shield first. -/
def hurt (env : Env) (attacker : Option Attacker) (t : Target) (d : CombatDamage) : Int × Nat :=
  let d := raised env attacker d
  let t' := t.drainMana (shieldTake t d)
  (struck env t' (d.total - shieldTake t d), t'.mana)

/-- What `combatChangeHealth` does where no script is run. -/
def healthEffect (env : Env) (attacker : Option Attacker) (t : Target) (d : CombatDamage) :
    Int × Nat :=
  if blackSkull attacker t then t.vitals
  else if d.primary.value > 0 then
    if t.health ≤ 0 then t.vitals
    else (t.gainHealth (healing env attacker t d.primary.value)).vitals
  else if !t.isAttackable then t.vitals
  else hurt env attacker t d

@[simp] theorem health_changeMana (t : Target) (change : Int) :
    (t.changeMana change).health = t.health := by
  unfold Target.changeMana
  split
  · split <;> rfl
  · rfl

@[simp] theorem mana_changeHealth (t : Target) (change : Int) :
    (t.changeHealth change).mana = t.mana := by
  unfold Target.changeHealth
  split <;> rfl

theorem drainMana_zero (t : Target) : t.drainMana 0 = t := by
  rw [Target.drainMana, Target.changeMana]
  split
  · rw [if_neg (by omega)]
    have hmana : (max 0 ((t.mana : Int) + -0)).toNat = t.mana := by omega
    rw [hmana]
  · rfl

theorem strike_change {t : Target} {d : CombatDamage} (hs : 0 ≤ d.secondary.value)
    (hne : d.total ≠ 0) :
    (strike env t d).change = (struck env t d.total, t.mana) := by
  -- whichever part is cut, the two come to the smaller of damage and health
  have hreal : ∀ d' : CombatDamage, d'.total = min d.total t.health →
      (if d'.total = 0 then { result := true, target := t, damage := d' }
        else if d'.total ≥ t.health ∧ !env.prepareDeath t then
          { result := false, target := t, damage := d' }
        else { result := true, target := t.drainHealth d'.total, damage := d' } : Outcome).change
      = (struck env t d.total, t.mana) := by
    intro d' htotal
    rw [htotal, struck]
    by_cases hzero : min d.total t.health = 0
    · rw [if_pos hzero, if_pos (Or.inr hzero)]
      rfl
    · rw [if_neg hzero, if_neg (not_or.mpr ⟨hne, hzero⟩)]
      split
      · rfl
      · simp only [Outcome.change, Target.vitals, Target.drainHealth, mana_changeHealth]
  rw [strike]
  refine hreal _ ?_
  simp only [CombatDamage.total]
  split
  · simp only
    omega
  · split
    · simp only
      omega
    · omega

theorem raised_nonneg (env : Env) (attacker : Option Attacker) (d : CombatDamage) :
    0 ≤ (raised env attacker d).primary.value ∧ 0 ≤ (raised env attacker d).secondary.value :=
  ⟨abs_nonneg _, abs_nonneg _⟩

theorem shieldTake_le {t : Target} {d : CombatDamage} (h : 0 ≤ d.total) :
    0 ≤ shieldTake t d ∧ shieldTake t d ≤ d.total := by
  unfold shieldTake
  split <;> omega

theorem takeOff_spec {d : CombatDamage} {a : Int} (hs : 0 ≤ d.secondary.value) (ha : a ≤ d.total) :
    (d.takeOff a).total = d.total - a ∧ 0 ≤ (d.takeOff a).primary.value ∧
      0 ≤ (d.takeOff a).secondary.value := by
  rw [CombatDamage.total] at ha
  by_cases hneg : d.primary.value - a < 0
  · simp only [CombatDamage.takeOff, CombatDamage.total, if_pos hneg]
    omega
  · simp only [CombatDamage.takeOff, CombatDamage.total, if_neg hneg]
    omega

/-- What the shield takes of a raised hit, and what it leaves. -/
theorem takeOff_raised (env : Env) (attacker : Option Attacker) (t : Target) (d : CombatDamage) :
    0 ≤ shieldTake t (raised env attacker d) ∧
      shieldTake t (raised env attacker d) ≤ (raised env attacker d).total ∧
      ((raised env attacker d).takeOff (shieldTake t (raised env attacker d))).total =
        (raised env attacker d).total - shieldTake t (raised env attacker d) ∧
      0 ≤ ((raised env attacker d).takeOff
        (shieldTake t (raised env attacker d))).primary.value ∧
      0 ≤ ((raised env attacker d).takeOff
        (shieldTake t (raised env attacker d))).secondary.value := by
  obtain ⟨hp, hs⟩ := raised_nonneg env attacker d
  have htotal : 0 ≤ (raised env attacker d).total := by
    rw [CombatDamage.total]
    omega
  obtain ⟨hnonneg, hle⟩ := shieldTake_le (t := t) htotal
  exact ⟨hnonneg, hle, takeOff_spec hs hle⟩

theorem takeOff_zero {d : CombatDamage} (hp : 0 ≤ d.primary.value) : d.takeOff 0 = d := by
  rw [CombatDamage.takeOff, if_neg (by omega), Int.sub_zero]

@[simp] theorem takeOff_origin (d : CombatDamage) (a : Int) : (d.takeOff a).origin = d.origin := by
  by_cases hneg : d.primary.value - a < 0 <;> simp [CombatDamage.takeOff, hneg]

/-- Where no script for a change of mana is run, the shield takes its part. -/
theorem manaShield_quiet (hp : 0 ≤ d.primary.value)
    (hquiet : d.origin = .none ∨ events.manaChange = [] ∨ shieldTake t d = 0) :
    manaShield events t d
      = (false, t.drainMana (shieldTake t d), d.takeOff (shieldTake t d)) := by
  rw [manaShield, shieldTake]
  by_cases hshield : shielded t d = true ∧ min (t.mana : Int) d.total ≠ 0
  · have hnone : ¬(d.origin ≠ .none ∧ events.manaChange ≠ []) := by
      rintro ⟨horigin, hevents⟩
      rcases hquiet with h | h | h
      · exact horigin h
      · exact hevents h
      · rw [shieldTake, if_pos hshield.1] at h
        exact hshield.2 h
    rw [if_pos hshield, if_neg hnone, if_pos hshield.1]
  · have hzero : (if shielded t d then min (t.mana : Int) d.total else 0) = 0 := by
      by_cases hs : shielded t d = true
      · rw [if_pos hs]
        exact not_not.mp fun h => hshield ⟨hs, h⟩
      · rw [if_neg hs]
    rw [if_neg hshield, hzero, drainMana_zero, takeOff_zero hp]

/-- Behind the shield. -/
theorem hurt_eq (htotal : (raised env attacker d).total ≠ shieldTake t (raised env attacker d)) :
    (strike env (t.drainMana (shieldTake t (raised env attacker d)))
        ((raised env attacker d).takeOff (shieldTake t (raised env attacker d)))).change
      = hurt env attacker t d := by
  obtain ⟨hp, hs⟩ := raised_nonneg env attacker d
  have hle := shieldTake_le (t := t) (d := raised env attacker d) (by
    unfold CombatDamage.total
    omega)
  obtain ⟨htake, hp', hs'⟩ := takeOff_spec hs hle.2
  rw [strike_change hs' (by omega), htake]
  rfl

theorem hurt_of_total (htotal : (raised env attacker d).total
      = shieldTake t (raised env attacker d)) :
    hurt env attacker t d = (t.drainMana (shieldTake t (raised env attacker d))).vitals := by
  rw [hurt, htotal, Int.sub_self, struck, if_pos (Or.inl rfl)]
  rfl

/-- A call that runs no script has the effect, whatever it would do again. -/
theorem combatChangeHealthWith_quiet (again : Target → CombatDamage → Outcome)
    (hquiet : d.origin = .none ∨ (events.healthChange = [] ∧ events.manaChange = [])) :
    (combatChangeHealthWith again env attacker events t d).change
      = healthEffect env attacker t d := by
  have hnohealth : ∀ d' : CombatDamage, d'.origin = d.origin →
      ¬(d'.origin ≠ .none ∧ events.healthChange ≠ []) := by
    rintro d' horigin ⟨hne, hevents⟩
    rcases hquiet with h | h
    · exact hne (horigin.trans h)
    · exact hevents h.1
  rw [combatChangeHealthWith, healthEffect]
  by_cases hskull : blackSkull attacker t = true
  · simp only [hskull, if_true]
    split
    · split <;> rfl
    · split <;> rfl
  · simp only [if_neg hskull]
    by_cases hpos : d.primary.value > 0
    · rw [if_pos hpos, if_pos hpos]
      split
      · rfl
      · rw [if_neg (hnohealth d rfl)]
        rfl
    · rw [if_neg hpos, if_neg hpos]
      by_cases hattack : t.isAttackable = true
      · obtain ⟨hp, -⟩ := raised_nonneg env attacker d
        obtain ⟨hnonneg, hle, htake, -⟩ := takeOff_raised env attacker t d
        have horigin : (raised env attacker d).origin = d.origin := rfl
        have hnomana : (raised env attacker d).origin = .none ∨ events.manaChange = [] ∨
            shieldTake t (raised env attacker d) = 0 := by
          rcases hquiet with h | h
          · exact Or.inl (horigin.trans h)
          · exact Or.inr (Or.inl h.2)
        have hshield := manaShield_quiet hp hnomana
        have hraised : (d.mapValues (scaled env attacker)).mapValues (fun value => |value|)
            = raised env attacker d := rfl
        simp only [hattack, Bool.not_true, if_false, Bool.false_eq_true, hraised, hshield]
        by_cases hzero : (raised env attacker d).total = 0
        · have hnone : shieldTake t (raised env attacker d) = 0 := by omega
          rw [if_pos hzero, hurt_of_total (by omega), hnone, drainMana_zero]
          rfl
        · rw [if_neg hzero, htake]
          by_cases hall : (raised env attacker d).total = shieldTake t (raised env attacker d)
          · rw [if_pos (by omega), hurt_of_total hall]
            rfl
          · rw [if_neg (by omega), if_neg (hnohealth _ ((takeOff_origin _ _).trans horigin)),
              hurt_eq hall]
      · simp only [hattack, Bool.not_false, if_true]
        rfl

end Infernum.Combat

/-!
## The mana shield

The shield pays a hit with mana for as long as there is any, and the rest is taken off
the health. The mana comes out of the primary part of the damage and, where that is not
enough, out of the secondary one; the two are then cut to the health one after the other.
Nothing is lost on the way. Damage of an undefined type passes the shield by.
-/

namespace Infernum.Combat

variable {env : Env} {attacker : Option Attacker} {events : Events} {t : Target} {d : CombatDamage}

/-- A hit of `total` with `absorbed` as the most that the mana may pay: what it leaves of
a target. -/
structure Splits (t o : Target) (total absorbed : Int) : Prop where
  mana : (t.mana : Int) - o.mana = absorbed
  health : t.health - o.health = min (total - absorbed) t.health
  both : ((t.mana : Int) - o.mana) + (t.health - o.health) =
    min total (absorbed + t.health)
  alive : 0 ≤ o.health

/-- The call gets as far as the damage: neither a heal nor refused. -/
structure Hits (attacker : Option Attacker) (t : Target) (d : CombatDamage) : Prop where
  damage : d.primary.value ≤ 0
  attackable : t.isAttackable = true
  noBlackSkull : blackSkull attacker t = false

theorem healthEffect_of_hits (h : Hits attacker t d) :
    healthEffect env attacker t d = hurt env attacker t d := by
  have hdamage : ¬ d.primary.value > 0 := by
    have := h.damage
    omega
  simp [healthEffect, h.noBlackSkull, hdamage, h.attackable]

theorem mana_drainMana (hfinite : t.infiniteMana = false) {loss : Int} (hnonneg : 0 ≤ loss)
    (hle : loss ≤ t.mana) : ((t.drainMana loss).mana : Int) = t.mana - loss := by
  have hpos : ¬ -loss > 0 := by omega
  rw [Target.drainMana, Target.changeMana, if_pos (by simp [hfinite]), if_neg hpos]
  show (((max 0 ((t.mana : Int) + -loss)).toNat : Nat) : Int) = t.mana - loss
  omega

/-- A hit that is not prevented takes its damage, down to nothing. -/
theorem struck_eq (hdeath : ∀ t, env.prepareDeath t = true) (hhealth : 0 ≤ t.health)
    {damage : Int} (hdamage : 0 ≤ damage) :
    struck env t damage = t.health - min damage t.health := by
  rw [struck]
  split
  · rename_i hzero
    rcases hzero with rfl | hzero <;> omega
  · have hpos : ¬ -min damage t.health > 0 := by omega
    rw [if_neg (by simp [hdeath]), Target.drainHealth, Target.changeHealth, if_neg hpos]
    show max 0 (t.health + -min damage t.health) = t.health - min damage t.health
    omega

theorem shieldTake_of_shielded (hshield : shielded t d = true) :
    shieldTake t d = min (t.mana : Int) d.total := if_pos hshield

/-- The type of the damage is what it was before the attacker's level was counted. -/
theorem shielded_raised : shielded t (raised env attacker d) = shielded t d := rfl

/-- A hit behind a shield or without one, as two subtractions. -/
theorem hurt_splits (hfinite : t.infiniteMana = false) (hhealth : 0 ≤ t.health)
    (hdeath : ∀ t, env.prepareDeath t = true) {o : Target}
    (ho : o.vitals = hurt env attacker t d) :
    Splits t o (raised env attacker d).total (shieldTake t (raised env attacker d)) := by
  obtain ⟨hnonneg, hle, -⟩ := takeOff_raised env attacker t d
  have htake : shieldTake t (raised env attacker d) ≤ t.mana := by
    unfold shieldTake
    split <;> omega
  have hmana := mana_drainMana hfinite hnonneg htake
  have hsame : (t.drainMana (shieldTake t (raised env attacker d))).health = t.health :=
    health_changeMana t _
  have hstruck := struck_eq (t := t.drainMana (shieldTake t (raised env attacker d)))
    hdeath (by omega) (Int.sub_nonneg.mpr hle)
  obtain ⟨hhealthLeft, hmanaLeft⟩ := Prod.ext_iff.mp ho
  simp only [Target.vitals, hurt] at hhealthLeft hmanaLeft
  rw [hstruck, hsame] at hhealthLeft
  constructor <;> omega

/-- With no script and nothing to prevent a death, a hit on a shielded player takes the
smaller of the damage and the mana from the mana, and the smaller of the rest and the
health from the health. -/
theorem mana_shield_splits (hplayer : t.isPlayer = true) (hshield : t.manaShield = true)
    (hfinite : t.infiniteMana = false) (hhealth : 0 ≤ t.health)
    (hhits : Hits attacker t d) (htype : d.primary.type ≠ .undefinedDamage)
    (hdeath : ∀ t, env.prepareDeath t = true) :
    Splits t (combatChangeHealth env attacker .none t d).target
      (raised env attacker d).total (min (raised env attacker d).total t.mana) := by
  have hshielded : shielded t (raised env attacker d) = true := by
    rw [shielded_raised]
    simp [shielded, hplayer, hshield, htype]
  have heffect : (combatChangeHealth env attacker .none t d).target.vitals =
      hurt env attacker t d := by
    rw [← healthEffect_of_hits hhits]
    exact combatChangeHealthWith_quiet _ (Or.inr ⟨rfl, rfl⟩)
  have hsplits := hurt_splits hfinite hhealth hdeath heffect
  rw [shieldTake_of_shielded hshielded] at hsplits
  rw [Int.min_comm]
  exact hsplits

def sorcerer : Target where
  health := 100
  maxHealth := 185
  mana := 30
  maxMana := 90
  isPlayer := true
  isAttackable := true
  manaShield := true
  infiniteMana := false
  immune := false
  bonusHealing := 0
  inventory := fun _ => none

/-- A server without levels of monsters, on which everybody may die. -/
def unlevelled : Env where
  bonus := fun _ => none
  healed := fun _ value => value
  absorbed := fun _ _ => 0
  transformItem := fun t _ => t
  prepareDeath := fun _ => true

/-- A blow in two parts, with the signs of damage. -/
def blow (type : CombatType) (primary secondary : Int) : CombatDamage where
  primary := { type, value := -primary }
  secondary := { type := .fireDamage, value := -secondary }
  origin := .melee

/-- The secondary part is drawn on when the mana has eaten the primary one. -/
theorem mana_shield_splits_sorcerer :
    Splits sorcerer (combatChangeHealth unlevelled none .none sorcerer
      (blow .physicalDamage 20 50)).target 70 30 :=
  mana_shield_splits rfl rfl rfl (by decide) ⟨by decide, rfl, rfl⟩ (by decide)
    fun _ => rfl

/-- An undefined damage of 20 takes health although there is mana for it. -/
theorem undefined_damage_passes :
    sorcerer.isPlayer = true ∧ sorcerer.manaShield = true ∧ sorcerer.infiniteMana = false ∧
    (blow .undefinedDamage 20 0).mapValues (fun value => |value|) =
      { primary := { type := .undefinedDamage, value := 20 }
        secondary := { type := .fireDamage, value := 0 }
        origin := .melee } ∧
    ¬ Splits sorcerer (combatChangeHealth unlevelled none .none sorcerer
      (blow .undefinedDamage 20 0)).target 20 (min 20 sorcerer.mana) := by
  refine ⟨rfl, rfl, rfl, by decide, ?_⟩
  intro hsplits
  have hmana := hsplits.mana
  revert hmana
  decide

end Infernum.Combat
