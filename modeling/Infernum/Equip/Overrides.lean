import Infernum.Equip.OwnAbilities

/-!
# Own abilities override

Seen from outside, an item's own abilities are a partial map: `setAbilityInt` updates it
at one place, `removeAbility` clears one, and `getAbilityValue` asks it before the type.
-/

namespace Infernum.Equip

/-! ### Bits -/

/-- The enumerators in the order of their bits. -/
def ItemAbilityType.all : List ItemAbilityType :=
  [ItemAbilityType.healthGain, .healthTicks, .manaGain, .manaTicks, .conditionSuppressions,
    .maxHitPoints, .maxManaPoints, .magicPoints,
    .maxHitPointsPercent, .maxManaPointsPercent, .magicPointsPercent,
    .skillFist, .skillClub, .skillSword, .skillAxe, .skillDistance, .skillShield, .skillFishing,
    .criticalHitChance, .criticalHitAmount, .lifeLeechChance, .lifeLeechAmount,
    .manaLeechChance, .manaLeechAmount, .speed] ++
  (List.finRange 8).map ItemAbilityType.absorb ++
  (List.finRange 8).map ItemAbilityType.fieldAbsorb ++
  [ItemAbilityType.elementType, .elementDamage, .manaShield, .invisible, .regeneration,
    .damageMitigation, .bonusRegen, .magicDamage, .supportHealing, .attackSpeed, .flexSkill,
    .bonusHealing]

theorem ItemAbilityType.getElem?_all (t : ItemAbilityType) : all[t.maskBit.val]? = some t := by
  cases t with
  | absorb c =>
      revert c
      decide
  | fieldAbsorb c =>
      revert c
      decide
  | _ => rfl

theorem ItemAbilityType.maskBit_injective : Function.Injective ItemAbilityType.maskBit := by
  intro s t h
  have hs := s.getElem?_all
  rw [h, t.getElem?_all] at hs
  exact (Option.some.inj hs).symm

open ItemAbilityType (maskBit_injective)

/-! ### The map -/

/-- The item's own value for an ability, if it has one. -/
def OwnAbilities.own (abilities : OwnAbilities) (t : ItemAbilityType) : Option (BitVec 64) :=
  abilities.bind fun a => (a.getExistingAbility t).map Ability.integer

/-- An edit of the item: `setAbilityInt` or `removeAbility`. -/
inductive AbilityEdit where
  | set (type : ItemAbilityType) (value : BitVec 64)
  | remove (type : ItemAbilityType)
  deriving DecidableEq, Repr

namespace AbilityEdit

def type : AbilityEdit → ItemAbilityType
  | set type _ => type
  | remove type => type

/-- What the ability has after the edit. -/
def value : AbilityEdit → Option (BitVec 64)
  | set _ value => some value
  | remove _ => none

/-- The edit on the map. -/
def apply (own : ItemAbilityType → Option (BitVec 64)) (e : AbilityEdit) :
    ItemAbilityType → Option (BitVec 64) :=
  Function.update own e.type e.value

/-- The edit on the item. -/
def run (abilities : OwnAbilities) : AbilityEdit → Option OwnAbilities
  | set type value => some (abilities.setAbilityInt type value)
  | remove type => abilities.removeAbility type

def runs (abilities : OwnAbilities) : List AbilityEdit → Option OwnAbilities
  | [] => some abilities
  | e :: edits => (e.run abilities).bind fun abilities => runs abilities edits

end AbilityEdit

namespace OwnAbilities

variable {abilities : OwnAbilities}

theorem wf_none : Wf none := by simp [Wf]

theorem wf_getD (h : abilities.Wf) :
    AbilityList.Wf (abilities.getD Lib.TagList.empty) := by
  cases abilities with
  | none => exact Lib.TagList.wf_empty
  | some a => exact h a rfl

/-- An item without a list answers like one with an empty list. -/
theorem getExistingAbility_getD (t : ItemAbilityType) :
    ((abilities.getD Lib.TagList.empty).getExistingAbility t).map Ability.integer =
      abilities.own t := by
  cases abilities with
  | none => simp [own, AbilityList.getExistingAbility]
  | some a => rfl

theorem own_setAbilityInt (h : abilities.Wf) (t : ItemAbilityType) (value : BitVec 64) :
    (abilities.setAbilityInt t value).Wf ∧
      (abilities.setAbilityInt t value).own =
        (AbilityEdit.set t value).apply abilities.own := by
  have hwf := wf_getD h
  constructor
  · intro a ha
    obtain rfl : (abilities.getD Lib.TagList.empty).setAbilityInt t value = a :=
      Option.some.inj ha
    exact Lib.TagList.Wf.set maskBit_injective hwf { type := t, integer := value }
  · funext s
    have hfind := Lib.TagList.Wf.find_set maskBit_injective hwf
      { type := t, integer := value } s
    show (Lib.TagList.find _ _ _ s).map Ability.integer = _
    rw [AbilityList.setAbilityInt, hfind, AbilityEdit.apply]
    rcases eq_or_ne s t with rfl | hne
    · simp [AbilityEdit.type, AbilityEdit.value]
    · rw [if_neg hne, Function.update_of_ne (show s ≠ (AbilityEdit.set t value).type from hne)]
      exact getExistingAbility_getD s

/-- `removeAbility` finds an element to look at. -/
theorem own_removeAbility (h : abilities.Wf) (t : ItemAbilityType) :
    ∃ o, abilities.removeAbility t = some o ∧ o.Wf ∧
      o.own = (AbilityEdit.remove t).apply abilities.own := by
  cases abilities with
  | none =>
      refine ⟨none, rfl, wf_none, ?_⟩
      funext s
      simp [AbilityEdit.apply, AbilityEdit.value, own, Function.update_apply]
  | some a =>
      obtain ⟨a', ha', hwf', hfind⟩ := Lib.TagList.Wf.remove maskBit_injective (h a rfl) t
      refine ⟨some a', by simp [removeAbility, AbilityList.removeAbility, ha'], ?_, ?_⟩
      · rintro _ ⟨⟩
        exact hwf'
      · funext s
        show (Lib.TagList.find _ _ a' s).map Ability.integer = _
        rw [hfind, AbilityEdit.apply]
        rcases eq_or_ne s t with rfl | hne
        · simp [AbilityEdit.type, AbilityEdit.value]
        · rw [if_neg hne, Function.update_of_ne (show s ≠ (AbilityEdit.remove t).type from hne)]
          rfl

/-- Whatever is set and removed, the list goes along with the map. -/
theorem own_runs (h : abilities.Wf) (edits : List AbilityEdit) :
    ∃ o, AbilityEdit.runs abilities edits = some o ∧ o.Wf ∧
      o.own = edits.foldl AbilityEdit.apply abilities.own := by
  induction edits generalizing abilities with
  | nil => exact ⟨abilities, rfl, h, rfl⟩
  | cons e edits ih =>
      obtain ⟨mid, hmid, hwf, hown⟩ : ∃ o, e.run abilities = some o ∧ o.Wf ∧
          o.own = e.apply abilities.own := by
        cases e with
        | set t value =>
            obtain ⟨hwf, hown⟩ := own_setAbilityInt h t value
            exact ⟨_, rfl, hwf, hown⟩
        | remove t => exact own_removeAbility h t
      obtain ⟨o, ho, hwf', hown'⟩ := ih hwf
      refine ⟨o, ?_, hwf', ?_⟩
      · rw [AbilityEdit.runs, hmid]
        exact ho
      · rw [hown', hown]
        rfl

/-- Edits of other abilities leave an ability as it is. -/
theorem foldl_apply_of_ne {edits : List AbilityEdit} {t : ItemAbilityType}
    (hne : ∀ e ∈ edits, e.type ≠ t) (own : ItemAbilityType → Option (BitVec 64)) :
    edits.foldl AbilityEdit.apply own t = own t := by
  induction edits generalizing own with
  | nil => rfl
  | cons e edits ih =>
      rw [List.foldl_cons, ih fun e' he' => hne e' (List.mem_cons_of_mem _ he'),
        AbilityEdit.apply, Function.update_of_ne (hne e List.mem_cons_self).symm]

end OwnAbilities

/-! ### The look-up -/

/-- The map is asked first, and then the type. -/
theorem itemAbilityValue_eq {abilities : OwnAbilities} (h : abilities.Wf)
    (it : Option TypeAbilities) (t : ItemAbilityType) :
    itemAbilityValue it abilities t =
      match abilities.own t with
      | some value => value
      | none =>
        match it with
        | none => 0
        | some a => a.value t := by
  cases abilities with
  | none =>
      cases it <;> simp [itemAbilityValue, OwnAbilities.own]
  | some a =>
      have hhas : a.hasAbility t = true ↔ (a.getExistingAbility t).isSome = true := by
        rw [AbilityList.hasAbility, Lib.TagList.Wf.has_iff maskBit_injective (h a rfl),
          AbilityList.getExistingAbility,
          Lib.TagList.Wf.find_isSome_iff maskBit_injective (h a rfl)]
      cases hfind : a.getExistingAbility t with
      | none =>
          have hno : a.hasAbility t = false := by
            simpa [hfind] using hhas
          cases it <;>
            simp [itemAbilityValue, OwnAbilities.hasAbility, OwnAbilities.getAbilityInt,
              AbilityList.getAbilityInt, OwnAbilities.own, hno, hfind]
      | some ability =>
          have hyes : a.hasAbility t = true := by
            simpa [hfind] using hhas
          simp [itemAbilityValue, OwnAbilities.hasAbility, OwnAbilities.getAbilityInt,
            AbilityList.getAbilityInt, OwnAbilities.own, hyes, hfind]

theorem signExtend_inj {n : Nat} (hn : n ≤ 64) {a b : BitVec n} :
    a.signExtend 64 = b.signExtend 64 ↔ a = b := by
  constructor
  · intro h
    have hint := congrArg BitVec.toInt h
    rw [BitVec.toInt_signExtend_of_le hn, BitVec.toInt_signExtend_of_le hn] at hint
    exact BitVec.toInt_inj.mp hint
  · rintro rfl
    rfl

/-- The place that `combatTypeToIndex` gives to the combat type of a resistance. -/
theorem combatTypeToIndex_combatOf (c : Fin 8) : combatTypeToIndex (combatOf c) =
    if 4 ≤ c.val then c.natAdd 4 else c.castLE (by omega) := by
  revert c
  decide

theorem TypeAbilities.absorbPercentAt_castLE (a : TypeAbilities) (c : Fin 8) :
    a.absorbPercentAt (c.castLE eight_le_twelve) = a.absorbPercent c := by
  simp [absorbPercentAt]

theorem TypeAbilities.fieldAbsorbPercentAt_castLE (a : TypeAbilities) (c : Fin 8) :
    a.fieldAbsorbPercentAt (c.castLE eight_le_twelve) = a.fieldAbsorbPercent c := by
  simp [fieldAbsorbPercentAt]

/-- The switch has what the type defines just where the ability shows. -/
theorem TypeAbilities.value_eq_iff (a : TypeAbilities) (t : ItemAbilityType) :
    a.value t = a.defined t ↔ a.Shown t := by
  cases t with
  | manaTicks =>
      show 0 = a.manaTicks.setWidth 64 ↔ a.manaTicks = 0
      rw [← BitVec.toNat_inj, ← BitVec.toNat_inj, BitVec.toNat_setWidth,
        Nat.mod_eq_of_lt (by omega)]
      exact eq_comm
  | absorb c =>
      show (a.absorbPercent c).signExtend 64 = _ ↔ (4 ≤ c.val → _)
      rw [defined, signExtend_inj (show 16 ≤ 64 by decide), combatTypeToIndex_combatOf,
        ← absorbPercentAt_castLE]
      split
      · rename_i hc
        simp [hc]
      · rename_i hc
        simp [hc]
  | fieldAbsorb c =>
      show (a.fieldAbsorbPercent c).signExtend 64 = _ ↔ (4 ≤ c.val → _)
      rw [defined, signExtend_inj (show 16 ≤ 64 by decide), combatTypeToIndex_combatOf,
        ← fieldAbsorbPercentAt_castLE]
      split
      · rename_i hc
        simp [hc]
      · rename_i hc
        simp [hc]
  | _ => simp [Abilities.value, TypeAbilities.defined, TypeAbilities.Shown]

/-! ### Runs of edits -/

/-- What `getAbilityValue` should answer: the item's own value, or what the type defines. -/
def overridden (it : Option TypeAbilities) (own : ItemAbilityType → Option (BitVec 64))
    (t : ItemAbilityType) : BitVec 64 :=
  match own t with
  | some value => value
  | none =>
    match it with
    | none => 0
    | some a => a.defined t

/-- After any edits: the answer for an ability is the item's own value or what the type
defines if and only if the item has the ability or the type shows it; and it is as it was
before edits of other abilities. -/
theorem getAbilityValue_iff (it : Option TypeAbilities) {abilities : OwnAbilities}
    (h : abilities.Wf) (edits : List AbilityEdit) :
    ∃ o, AbilityEdit.runs abilities edits = some o ∧ ∀ t,
      (itemAbilityValue it o t =
          overridden it (edits.foldl AbilityEdit.apply abilities.own) t ↔
        edits.foldl AbilityEdit.apply abilities.own t ≠ none ∨ ∀ a ∈ it, a.Shown t) ∧
      ((∀ e ∈ edits, e.type ≠ t) →
        itemAbilityValue it o t = itemAbilityValue it abilities t) := by
  obtain ⟨o, ho, hwf, hown⟩ := OwnAbilities.own_runs h edits
  refine ⟨o, ho, ?_⟩
  intro t
  rw [itemAbilityValue_eq hwf, itemAbilityValue_eq h, hown]
  unfold overridden
  constructor
  · cases hcase : edits.foldl AbilityEdit.apply abilities.own t with
    | some value => simp
    | none =>
        cases it with
        | none => simp
        | some a => simpa using a.value_eq_iff t
  · intro hne
    rw [OwnAbilities.foldl_apply_of_ne hne]

/-- Boots that restore mana every second. -/
def softBoots : TypeAbilities :=
  { ({ healthGain := 1, healthTicks := 2000, manaGain := 2, manaTicks := 1000,
       regeneration := true } : Abilities) with }

/-- Its mana ticks are covered while the item has some of its own. -/
theorem getAbilityValue_iff_softBoots :
    ∃ o, AbilityEdit.runs none [.set .manaTicks 3000, .set .speed 20, .remove .speed] = some o ∧
      ∀ t,
      (itemAbilityValue (some softBoots) o t =
          overridden (some softBoots) ([.set .manaTicks 3000, .set .speed 20, .remove .speed].foldl
            AbilityEdit.apply (OwnAbilities.own none)) t ↔
        [AbilityEdit.set .manaTicks 3000, .set .speed 20, .remove .speed].foldl
          AbilityEdit.apply (OwnAbilities.own none) t ≠ none ∨ ∀ a ∈ some softBoots, a.Shown t) ∧
      ((∀ e ∈ [AbilityEdit.set .manaTicks 3000, .set .speed 20, .remove .speed], e.type ≠ t) →
        itemAbilityValue (some softBoots) o t = itemAbilityValue (some softBoots) none t) :=
  getAbilityValue_iff (some softBoots) OwnAbilities.wf_none _

/-- New boots do not say how often they restore mana. -/
theorem manaTicks_not_reported :
    AbilityEdit.runs none [] = some none ∧ OwnAbilities.own none .manaTicks = none ∧
    softBoots.defined .manaTicks = 1000 ∧
    itemAbilityValue (some softBoots) none .manaTicks = 0 :=
  ⟨rfl, rfl, by decide, by decide⟩

end Infernum.Equip
