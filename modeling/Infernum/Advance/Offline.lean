import Infernum.Advance.Climbing

/-!
# Off-line and on-line training

Off-line tries do to a skill what on-line tries do. For the magic level they differ: a
player without mana gain still learns off-line, and at the top the percentage is reset
off-line only.
-/

namespace Infernum.Advance

open Lib (Ladder)
open Vocation

namespace Player

/-- Off-line tries do to a skill what on-line tries do. -/
theorem offline_skill_eq (p : Player) (which : Skills) {tries : UInt64} (hzero : tries ≠ 0) :
    (p.addOfflineTrainingTries (.skill which) tries).1 = p.addSkillAdvance which tries := by
  rw [addOfflineTrainingTries, addSkillAdvance, if_neg hzero]
  dsimp only
  split <;> rfl

theorem offline_skill (p : Player) (which : Skills) (tries : UInt64) :
    (p.addOfflineTrainingTries (.skill which) tries).1.skills =
      (p.addSkillAdvance which tries).skills := by
  by_cases hzero : tries = 0
  · rw [addOfflineTrainingTries, addSkillAdvance, if_pos hzero]
    dsimp only
    split <;> rfl
  · rw [offline_skill_eq p which hzero]

/-- What off-line training of the magic level does: below the top it climbs, and shows the
percentage of where it ends. -/
theorem offline_magLevel (p : Player) (tries : UInt64) :
    (p.addOfflineTrainingTries .magLevel tries).1 =
      if p.vocation.manaLadder.Open p.magLevel ∧ tries ≠ 0 then
        p.setMana (p.manaClimb tries)
          (p.vocation.manaPercent (p.manaClimb tries).1 (.ofNat (p.manaClimb tries).2))
      else p := by
  rw [addOfflineTrainingTries]
  by_cases hzero : tries = 0
  · simp [hzero]
  · rw [if_neg hzero]
    by_cases hlt : (p.manaRise tries).currReqMana < (p.manaRise tries).nextReqMana
    · obtain ⟨r, hloop, hend⟩ :=
        ManaRise.loop_spec (v := p.vocation) (r := p.manaRise tries) hlt rfl rfl
      change r.Ends p.vocation (p.manaClimb tries) at hend
      change _ = (r, !decide (p.vocation.manaLadder.Open (p.manaClimb tries).1)) at hloop
      have hleft := hend.left
      have hboth : p.vocation.manaLadder.Open p.magLevel ∧ tries ≠ 0 :=
        ⟨open_manaRise.mp hlt, hzero⟩
      dsimp only
      rw [if_pos hboth, dif_pos hlt, hloop, setMana, manaPercent]
      by_cases hopen : p.vocation.manaLadder.Open (p.manaClimb tries).1
      · rw [if_pos hopen] at hleft
        simp only [hopen, decide_true, Bool.not_true, Bool.false_eq_true, if_false]
        rw [hleft, hend.magLevel, hend.curr, hend.next]
      · rw [if_neg hopen] at hleft
        simp only [hopen, decide_false, Bool.not_false, if_true]
        rw [hleft, hend.magLevel, hend.curr, hend.next]
    · dsimp only
      rw [dif_neg hlt, if_neg fun hall => hlt (open_manaRise.mpr hall.1)]

/-- The same magic level, mana spent and percentage. -/
structure SameMagic (p q : Player) : Prop where
  magLevel : p.magLevel = q.magLevel
  manaSpent : p.manaSpent = q.manaSpent
  magLevelPercent : p.magLevelPercent = q.magLevelPercent

/-- Below the top mana changes the magic level or the mana spent. -/
theorem manaClimb_ne {p : Player} {amount : UInt64} (hopen : p.vocation.manaLadder.Open p.magLevel)
    (hne : amount ≠ 0) :
    ¬((p.manaClimb amount).1 = p.magLevel ∧ .ofNat (p.manaClimb amount).2 = p.manaSpent) := by
  rintro ⟨hlevel, hspent⟩
  by_cases hle : p.vocation.manaLadder.req (p.vocation.manaLadder.succ p.magLevel) ≤
      (p.manaSpent + amount).toNat
  · have hlt := Ladder.req_lt_climb hopen hle
    rw [show (p.vocation.manaLadder.climb p.magLevel _).1 = p.magLevel from hlevel] at hlt
    exact Nat.lt_irrefl _ hlt
  · rw [manaClimb, Ladder.climb_stay (by omega), UInt64.ofNat_toNat] at hspent
    exact hne (by grind)

/-- Off-line training is on-line training: for skills always; for the magic level exactly
if nothing happens at all, or the player gains mana and either stops below the top or had
no percentage to show. -/
theorem offline_exact (p : Player) (tries : UInt64) :
    (∀ which, (p.addOfflineTrainingTries (.skill which) tries).1.skills which =
      (p.addSkillAdvance which tries).skills which) ∧
    (SameMagic (p.addOfflineTrainingTries .magLevel tries).1 (p.addManaSpent tries) ↔
      tries = 0 ∨ ¬p.vocation.manaLadder.Open p.magLevel ∨
        (p.notGainMana = false ∧
          (p.vocation.manaLadder.Open (p.manaClimb tries).1 ∨ p.magLevelPercent = 0))) := by
  refine ⟨fun which => by rw [offline_skill], ?_⟩
  rw [offline_magLevel, addManaSpent_spec]
  by_cases hzero : tries = 0
  · simp only [hzero, ne_eq, not_true_eq_false, and_false, if_false, true_or, iff_true]
    exact ⟨rfl, rfl, rfl⟩
  by_cases hopen : p.vocation.manaLadder.Open p.magLevel
  · by_cases hflag : p.notGainMana = false
    · rw [if_pos ⟨hopen, hzero⟩, if_pos ⟨hflag, hopen, hzero⟩]
      by_cases htop : p.vocation.manaLadder.Open (p.manaClimb tries).1
      · rw [if_pos htop]
        exact iff_of_true ⟨rfl, rfl, rfl⟩ (.inr (.inr ⟨hflag, .inl htop⟩))
      · -- on-line the old percentage stays, off-line it is reset
        have hreset : p.vocation.manaPercent (p.manaClimb tries).1
            (.ofNat (p.manaClimb tries).2) = 0 := by
          rw [manaPercent, if_neg (by rw [gt_iff_lt, ← open_manaLadder]; exact htop)]
        rw [if_neg htop, hreset]
        constructor
        · intro h
          exact .inr (.inr ⟨hflag, .inr h.magLevelPercent.symm⟩)
        · rintro (h | h | ⟨_, h | h⟩)
          · exact absurd h hzero
          · exact absurd hopen h
          · exact absurd h htop
          · exact ⟨rfl, rfl, h.symm⟩
    · rw [if_pos ⟨hopen, hzero⟩, if_neg fun h => hflag h.1]
      constructor
      · intro h
        exact absurd ⟨h.magLevel, h.manaSpent⟩ (manaClimb_ne hopen hzero)
      · rintro (h | h | h)
        · exact absurd h hzero
        · exact absurd hopen h
        · exact absurd h.1 hflag
  · rw [if_neg fun h => hopen h.1, if_neg fun h => hopen h.2.1]
    exact iff_of_true ⟨rfl, rfl, rfl⟩ (.inr (.inl hopen))

end Player

/-- A vocation with the multiplier 1.0625 for mana: 400, 420 and again 420 are required
for the levels one to three. -/
def shortVocation : Vocation where
  tries _ _ := 0
  cacheSkill _ _ := none
  mana level := .ofNat (400 * 17 ^ (level.toNat - 1) / 16 ^ (level.toNat - 1))

/-- A player of magic level one who has spent 100 of the 420 mana for the last level. -/
def nearTop : Player where
  skills _ := ⟨0, 10, 0⟩
  magLevel := 1
  manaSpent := 100
  magLevelPercent := 23
  vocation := shortVocation
  notGainMana := false

theorem manaClimb_nearTop : nearTop.manaClimb 320 = (2, 0) :=
  Ladder.climb_top (s := shortVocation.manaLadder) (l := 1) (t := 420) (by decide) (by decide)
    (by decide)

/-- With the last 320 mana the top is reached: on-line 23 percent stay, off-line none. -/
theorem offline_top_differs :
    ¬∀ (p : Player) (tries : UInt64),
      (∀ which, (p.addOfflineTrainingTries (.skill which) tries).1.skills which =
        (p.addSkillAdvance which tries).skills which) ∧
      Player.SameMagic (p.addOfflineTrainingTries .magLevel tries).1 (p.addManaSpent tries) := by
  intro h
  have hpercent := (h nearTop 320).2.magLevelPercent
  rw [Player.offline_magLevel, Player.addManaSpent_spec, manaClimb_nearTop] at hpercent
  exact absurd hpercent (by decide)

end Infernum.Advance

/-!
## Training in parts

Tries gained in two parts lead where they lead at once, as long as the requirements that
are looked at fit into the cache and no sum of tries overflows.
-/

namespace Infernum.Advance

open Lib (Ladder)
open Vocation

namespace Player

theorem setSkill_which (p : Player) (which : Skills) (s : Skill) (v : Vocation) :
    (p.setSkill which s v).skills which = s := by
  simp [setSkill]

/-- A sum of tries that does not overflow. -/
theorem toNat_add_add {t a b : UInt64} (h : t.toNat + a.toNat + b.toNat < 2 ^ 64) :
    (t + a).toNat = t.toNat + a.toNat ∧ (t + (a + b)).toNat = (t + a).toNat + b.toNat := by
  rw [UInt64.toNat_add, UInt64.toNat_add, UInt64.toNat_add]
  omega

theorem skillAdvance_additive {p : Player} {which : Skills} {a b : UInt64}
    (hsum : (p.skills which).tries.toNat + a.toNat + b.toNat < 2 ^ 64)
    (hsettled : p.SettledClimb which (a + b)) :
    ((p.addSkillAdvance which a).addSkillAdvance which b).skills which =
      (p.addSkillAdvance which (a + b)).skills which := by
  obtain ⟨ha, hab⟩ := toNat_add_add hsum
  have hlooked : ∀ k, (p.vocation.ladder which).Looked (p.skills which).level
      ((p.skills which).tries + a).toNat k → p.vocation.Settled which k := by
    intro k hk
    refine hsettled k ?_
    rw [hab]
    exact hk.mono _
  obtain ⟨v₁, hlater₁, h₁⟩ := addSkillAdvance_spec (Later.refl which _) hlooked
  obtain ⟨v₂, hlater₂, h₂⟩ := addSkillAdvance_spec (Later.refl which _) hsettled
  rw [h₂]
  by_cases hopen : (p.vocation.ladder which).Open (p.skills which).level
  · by_cases hzero : a = 0
    · -- nothing but two readings at first
      subst hzero
      rw [h₁, if_neg fun h => h.2 rfl]
      have hsettled' : ∀ k, (p.vocation.ladder which).Looked (p.skills which).level
          ((p.skills which).tries + b).toNat k → p.vocation.Settled which k := by
        intro k hk
        refine hsettled k ?_
        rwa [UInt64.zero_add]
      obtain ⟨v₃, _, h₃⟩ := addSkillAdvance_spec (p := { p with vocation := v₁ }) hlater₁ hsettled'
      rw [h₃, UInt64.zero_add]
      dsimp only
      split
      · rw [setSkill_which, setSkill_which]
      · rfl
    · have hne : a + b ≠ 0 := by
        intro h
        have hnat := congrArg UInt64.toNat h
        rw [UInt64.toNat_add, Nat.mod_eq_of_lt (by omega)] at hnat
        have : a.toNat = 0 := by
          have : (0 : UInt64).toNat = 0 := rfl
          omega
        exact hzero (UInt64.toNat_inj.mp this)
      set c := (p.vocation.ladder which).climb (p.skills which).level
        ((p.skills which).tries + a).toNat with hc
      rw [if_pos ⟨hopen, hzero⟩] at h₁
      have hskill : (p.addSkillAdvance which a).skills which = p.vocation.reached which c := by
        rw [h₁, setSkill_which]
      have hvoc : (p.addSkillAdvance which a).vocation = v₁ := by
        rw [h₁]
        rfl
      have hle : c.2 ≤ ((p.skills which).tries + a).toNat := Ladder.climb_le hopen
      -- what is left of the first part and the second part do not overflow either
      have htotal : ((UInt64.ofNat c.2) + b).toNat = c.2 + b.toNat := by
        rw [UInt64.toNat_add, UInt64.toNat_ofNat']
        omega
      have hsettled' : ∀ k, (p.vocation.ladder which).Looked c.1 (c.2 + b.toNat) k →
          p.vocation.Settled which k := by
        intro k hk
        refine hsettled k ?_
        rw [hab]
        exact hk.of_climb hopen
      have hsettled₂ : ∀ k, (p.vocation.ladder which).Looked
          ((p.addSkillAdvance which a).skills which).level
          (((p.addSkillAdvance which a).skills which).tries + b).toNat k →
          p.vocation.Settled which k := by
        rw [hskill]
        show ∀ k, (p.vocation.ladder which).Looked c.1 (UInt64.ofNat c.2 + b).toNat k → _
        rwa [htotal]
      obtain ⟨v₃, _, h₃⟩ := addSkillAdvance_spec (hvoc ▸ hlater₁) hsettled₂
      rw [if_pos ⟨hopen, hne⟩, setSkill_which, hab, Ladder.climb_add hopen, ← hc, h₃, hskill,
        show (p.vocation.reached which c).level = c.1 from rfl,
        show (p.vocation.reached which c).tries = .ofNat c.2 from rfl, htotal]
      by_cases htop : (p.vocation.ladder which).Open c.1
      · rw [if_pos htop]
        by_cases hb : b = 0
        · rw [if_neg fun h => h.2 hb, hb]
          show (p.addSkillAdvance which a).skills which = _
          have hlt := (Ladder.climb_lt (t := ((p.skills which).tries + a).toNat) hopen).resolve_right
            fun h => h.1 htop
          rw [hskill]
          congr 1
          exact (Ladder.climb_stay hlt.2).symm
        · rw [if_pos ⟨htop, hb⟩, setSkill_which]
      · rw [if_neg htop, if_neg fun h => htop h.1]
        exact hskill
  · rw [if_neg fun h => hopen h.1] at h₁ ⊢
    have hsettled' : ∀ k, (p.vocation.ladder which).Looked (p.skills which).level
        ((p.skills which).tries + b).toNat k → p.vocation.Settled which k := by
      intro k hk
      -- at the top only the level and the next one are looked at
      cases hk with
      | here => exact hsettled _ (.here _ _)
      | next => exact hsettled _ (.next _ _)
      | up hopen' => exact absurd hopen' hopen
    obtain ⟨v₃, _, h₃⟩ := addSkillAdvance_spec (p := { p with vocation := v₁ }) hlater₁ hsettled'
    rw [h₁, h₃, if_neg fun h => hopen h.1]

theorem manaSpent_additive {p : Player} {a b : UInt64}
    (hsum : p.manaSpent.toNat + a.toNat + b.toNat < 2 ^ 64)
    (hbelow : p.vocation.manaLadder.Open (p.manaClimb (a + b)).1) :
    (p.addManaSpent a).addManaSpent b = p.addManaSpent (a + b) := by
  obtain ⟨_, hab⟩ := toNat_add_add hsum
  rw [addManaSpent_spec p a, addManaSpent_spec p (a + b)]
  by_cases hflag : p.notGainMana = false
  swap
  · rw [if_neg fun h => hflag h.1, if_neg fun h => hflag h.1, addManaSpent_spec,
      if_neg fun h => hflag h.1]
  by_cases hopen : p.vocation.manaLadder.Open p.magLevel
  swap
  · rw [if_neg fun h => hopen h.2.1, if_neg fun h => hopen h.2.1, addManaSpent_spec,
      if_neg fun h => hopen h.2.1]
  by_cases hzero : a = 0
  · subst hzero
    rw [if_neg fun h => h.2.2 rfl, UInt64.zero_add, addManaSpent_spec]
  have hne : a + b ≠ 0 := by
    intro h
    have hnat := congrArg UInt64.toNat h
    have hz : (0 : UInt64).toNat = 0 := rfl
    rw [UInt64.toNat_add, Nat.mod_eq_of_lt (by omega)] at hnat
    exact hzero (UInt64.toNat_inj.mp (by omega))
  set c := p.manaClimb a with hc
  have hle : c.2 ≤ (p.manaSpent + a).toNat := Ladder.climb_le hopen
  have htotal : (UInt64.ofNat c.2 + b).toNat = c.2 + b.toNat := by
    rw [UInt64.toNat_add, UInt64.toNat_ofNat']
    omega
  have hjoin : p.manaClimb (a + b) =
      if p.vocation.manaLadder.Open c.1 then p.vocation.manaLadder.climb c.1 (c.2 + b.toNat)
      else c := by
    rw [hc, manaClimb, manaClimb, hab]
    exact Ladder.climb_add hopen _
  -- the first part does not reach the top either
  have hmid : p.vocation.manaLadder.Open c.1 := by
    by_contra htop
    rw [hjoin, if_neg htop] at hbelow
    exact htop hbelow
  rw [if_pos hmid] at hjoin
  rw [if_pos ⟨hflag, hopen, hzero⟩, if_pos hmid, if_pos ⟨hflag, hopen, hne⟩, if_pos hbelow,
    addManaSpent_spec]
  have hclimb : (p.setMana c (p.vocation.manaPercent c.1 (.ofNat c.2))).manaClimb b =
      p.manaClimb (a + b) := by
    rw [hjoin, ← htotal]
    rfl
  by_cases hb : b = 0
  · have hlt := (Ladder.climb_lt (t := (p.manaSpent + a).toNat) hopen).resolve_right
      fun h => h.1 hmid
    have hsame : p.manaClimb (a + b) = c := by
      rw [hjoin, hb]
      exact Ladder.climb_stay hlt.2
    rw [if_neg fun h => h.2.2 hb, hsame]
  · rw [if_pos ⟨hflag, hmid, hb⟩, hclimb]
    show (p.setMana c _).setMana _ (if p.vocation.manaLadder.Open _ then _ else _) = _
    rw [if_pos hbelow]
    rfl

/-- Training is additive, as long as the tries do not overflow and every requirement of a
skill that is looked at fits into the cache or is there already; the magic level below its
top. -/
theorem training_additive (p : Player) (a b : UInt64) :
    (∀ which, (p.skills which).tries.toNat + a.toNat + b.toNat < 2 ^ 64 →
      p.SettledClimb which (a + b) →
      ((p.addSkillAdvance which a).addSkillAdvance which b).skills which =
        (p.addSkillAdvance which (a + b)).skills which) ∧
    (p.manaSpent.toNat + a.toNat + b.toNat < 2 ^ 64 →
      p.vocation.manaLadder.Open (p.manaClimb (a + b)).1 →
      SameMagic ((p.addManaSpent a).addManaSpent b) (p.addManaSpent (a + b))) := by
  refine ⟨fun which hsum hsettled => skillAdvance_additive hsum hsettled, fun hsum hbelow => ?_⟩
  rw [manaSpent_additive hsum hbelow]
  exact ⟨rfl, rfl, rfl⟩

end Player

/-- A vocation that doubles the requirement of a skill at every level: 25 for the level
ten, 50 for the level eleven. -/
def doubling : Vocation where
  tries _ level := .ofNat (50 * 2 ^ (level.toNat - 10) / 2)
  cacheSkill _ _ := none
  mana level := .ofNat (400 * 17 ^ (level.toNat - 1) / 16 ^ (level.toNat - 1))

/-- A player with these sword levels. -/
def swordsman (level : UInt16) : Player where
  skills _ := ⟨0, level, 0⟩
  magLevel := 1
  manaSpent := 0
  magLevelPercent := 0
  vocation := doubling
  notGainMana := false

/-- Tries that do not reach the next level. -/
theorem Player.addSkillAdvance_stay (p : Player) (which : Skills) (count : UInt64)
    (hlt : (p.rise which count).currReqTries < (p.rise which count).nextReqTries)
    (hzero : count ≠ 0)
    (hstay : ¬(p.rise which count).skill.tries + (p.rise which count).count ≥
      (p.rise which count).nextReqTries) :
    p.addSkillAdvance which count =
      p.setSkill which (p.rise which count).done (p.rise which count).vocation := by
  rw [addSkillAdvance]
  dsimp only
  rw [dif_pos hlt, if_neg hzero, Rise.loop, dif_neg hstay]

theorem Player.addSkillAdvance_top {p : Player} {which : Skills} {count : UInt64}
    (hlt : ¬(p.rise which count).currReqTries < (p.rise which count).nextReqTries) :
    p.addSkillAdvance which count = { p with vocation := (p.rise which count).vocation } := by
  rw [addSkillAdvance]
  dsimp only
  rw [dif_neg hlt]

theorem settledClimb_ten : (swordsman 10).SettledClimb .sword (10 + 5) := by
  intro k hk
  cases hk with
  | here => exact .inr (by decide)
  | next => exact .inr (by decide)
  | up _ hle => exact absurd hle (by decide)

theorem manaClimb_ten : (swordsman 10).manaClimb (10 + 5) = (1, 15) :=
  Ladder.climb_stay (by decide)

theorem training_additive_ten :
    (((swordsman 10).addSkillAdvance .sword 10).addSkillAdvance .sword 5).skills .sword =
        ((swordsman 10).addSkillAdvance .sword (10 + 5)).skills .sword ∧
      Player.SameMagic (((swordsman 10).addManaSpent 10).addManaSpent 5)
        ((swordsman 10).addManaSpent (10 + 5)) :=
  have h := Player.training_additive (swordsman 10) 10 5
  ⟨h.1 .sword (by decide) settledClimb_ten,
    h.2 (by decide) (by rw [manaClimb_ten]; decide)⟩

/-- The level 38 requires 6710886400 tries, which the cache cuts to 2415919104, less than
the level 37 requires: after the first try the level 37 passes for the top. -/
theorem training_lost_in_cache :
    ¬∀ (p : Player) (a b : UInt64),
      (∀ which, (p.skills which).tries.toNat + a.toNat + b.toNat < 2 ^ 64 →
        (p.vocation.ladder which).Open ((p.vocation.ladder which).climb (p.skills which).level
          ((p.skills which).tries + (a + b)).toNat).1 →
        ((p.addSkillAdvance which a).addSkillAdvance which b).skills which =
          (p.addSkillAdvance which (a + b)).skills which) ∧
      (p.manaSpent.toNat + a.toNat + b.toNat < 2 ^ 64 →
        p.vocation.manaLadder.Open (p.manaClimb (a + b)).1 →
        Player.SameMagic ((p.addManaSpent a).addManaSpent b) (p.addManaSpent (a + b))) := by
  intro h
  have hclimb : ((swordsman 37).vocation.ladder .sword).climb 37 2 = (37, 2) :=
    Ladder.climb_stay (by decide)
  have hsword := (h (swordsman 37) 1 1).1 .sword (by decide) (by
    show ((swordsman 37).vocation.ladder .sword).Open
      (((swordsman 37).vocation.ladder .sword).climb 37 2).1
    rw [hclimb]
    decide)
  rw [Player.addSkillAdvance_stay (swordsman 37) .sword 1 (by decide) (by decide) (by decide),
    Player.addSkillAdvance_stay (swordsman 37) .sword (1 + 1) (by decide) (by decide)
      (by decide),
    Player.addSkillAdvance_top (by decide)] at hsword
  exact absurd hsword (by decide)

end Infernum.Advance
