import Infernum.Advance.Offline
import Infernum.Advance.DeathLoss
import Infernum.Lib.Borrow

/-!
# The balance of death

Everything lost is taken from what was spent, level by level. For skills two things can go
wrong: the tries that are left are cut to 31 bits, and a requirement is paid back as the
cache holds it.
-/

namespace Infernum.Advance

open Lib Vocation

/-! ## The magic level -/

def Vocation.manaReq (v : Vocation) (k : Nat) : Nat := (v.getReqMana (.ofNat k)).toNat

namespace Player

/-- All the mana ever spent. -/
def manaTotal (p : Player) : Nat :=
  totalSpent p.vocation.manaReq 0 p.magLevel.toNat p.manaSpent.toNat

theorem manaReq_toNat (v : Vocation) (magLevel : UInt32) :
    v.manaReq magLevel.toNat = (v.getReqMana magLevel).toNat := by
  rw [manaReq, UInt32.ofNat_toNat]

theorem manaLossLoop_lands {v : Vocation} {magLevel : UInt32} {manaSpent lostMana : UInt64}
    (h : lostMana.toNat ≤ totalSpent v.manaReq 0 magLevel.toNat manaSpent.toNat) :
    (manaLossLoop v magLevel manaSpent lostMana).2.2.toNat ≤
        (manaLossLoop v magLevel manaSpent lostMana).2.1.toNat ∧
      Lands v.manaReq 0 magLevel.toNat manaSpent.toNat lostMana.toNat
        (manaLossLoop v magLevel manaSpent lostMana).1.toNat
        ((manaLossLoop v magLevel manaSpent lostMana).2.1.toNat -
          (manaLossLoop v magLevel manaSpent lostMana).2.2.toNat) := by
  induction magLevel, manaSpent, lostMana using manaLossLoop.induct v with
  | case1 magLevel manaSpent lostMana hcond ih =>
    obtain ⟨hgt, hpos⟩ := hcond
    have hlt := UInt64.lt_iff_toNat_lt.mp hgt
    have hpos' : 0 < magLevel.toNat := UInt32.lt_iff_toNat_lt.mp hpos
    have hone : (1 : UInt32).toNat = 1 := rfl
    have hle : 1 ≤ magLevel := by
      rw [UInt32.le_iff_toNat_le]
      omega
    have hpred : magLevel.toNat = (magLevel - 1).toNat + 1 := by
      rw [UInt32.toNat_sub_of_le _ _ hle]
      omega
    have hlost : (lostMana - manaSpent).toNat = lostMana.toNat - manaSpent.toNat := by
      rw [UInt64.toNat_sub_of_le _ _ (UInt64.le_of_lt hgt)]
    have hreq := manaReq_toNat v magLevel
    rw [hpred] at hreq
    rw [hpred, totalSpent_succ (Nat.zero_le _), hreq] at h
    obtain ⟨hfit, hlands⟩ := ih (by rw [hlost]; omega)
    rw [manaLossLoop, dif_pos ⟨hgt, hpos⟩]
    refine ⟨hfit, ?_⟩
    rw [hpred]
    refine .step hlt (Nat.zero_le _) ?_
    rw [hreq, ← hlost]
    exact hlands
  | case2 magLevel manaSpent lostMana hcond =>
    rw [manaLossLoop, dif_neg hcond]
    have hle : lostMana.toNat ≤ manaSpent.toNat := by
      by_contra hgt
      refine hcond ⟨UInt64.lt_iff_toNat_lt.mpr (by omega), ?_⟩
      -- at the level zero only what is on top was spent
      rw [gt_iff_lt, UInt32.lt_iff_toNat_lt]
      by_contra hzero
      have hzero' : (0 : UInt32).toNat = 0 := rfl
      rw [totalSpent_bottom (by omega)] at h
      omega
    exact ⟨hle, .here hle⟩

/-- The loss of the magic level is exact if no more is to be lost than was spent. -/
theorem loseMana_exact (share : UInt64 → UInt64) {p : Player} (hlevel : p.magLevel ≠ 4294967295) :
    ∃ p', p.loseMana share = some p' ∧ p'.skills = p.skills ∧ p'.vocation = p.vocation ∧
      (p'.manaTotal + (p.lostMana share).toNat = p.manaTotal ↔
        (p.lostMana share).toNat ≤ p.manaTotal) := by
  rw [loseMana, if_neg hlevel]
  refine ⟨_, rfl, rfl, rfl, ⟨fun h => by omega, fun h => ?_⟩⟩
  obtain ⟨hfit, hlands⟩ := manaLossLoop_lands h
  have hspent := UInt64.toNat_sub_of_le _ _ (UInt64.le_iff_toNat_le.mpr hfit)
  rw [manaTotal, manaTotal, ← hlands.total]
  show totalSpent p.vocation.manaReq 0 _ (UInt64.toNat (_ - _)) + _ = _
  rw [hspent]

end Player

/-! ## Reading all the requirements of a skill -/

namespace Vocation

def triesReq (v : Vocation) (which : Skills) (k : Nat) : Nat := (v.req which (.ofNat k)).toNat

theorem triesReq_toNat (v : Vocation) (which : Skills) (level : UInt16) :
    v.triesReq which level.toNat = (v.req which level).toNat := by
  rw [triesReq, UInt16.ofNat_toNat]

/-- A requirement in the cache is read from there. -/
theorem read_cached {v : Vocation} {which : Skills} {level : UInt16}
    (h : (v.cacheSkill which level).isSome = true) :
    v.getReqSkillTries which level = (v.req which level, v) := by
  unfold req getReqSkillTries
  obtain ⟨tries, htries⟩ := Option.isSome_iff_exists.mp h
  rw [htries]

theorem read_isSome (v : Vocation) (which : Skills) (level : UInt16) :
    ((v.getReqSkillTries which level).2.cacheSkill which level).isSome = true := by
  unfold getReqSkillTries
  cases hcache : v.cacheSkill which level with
  | some tries => simp [hcache]
  | none => simp

theorem Later.isSome {which : Skills} {v v' : Vocation} (h : Later which v v') {level : UInt16}
    (hsome : (v.cacheSkill which level).isSome = true) :
    (v'.cacheSkill which level).isSome = true := by
  rcases h.cache level with heq | ⟨hnone, _⟩
  · rwa [heq]
  · rw [hnone] at hsome
    cases hsome

/-- What the cache holds is at most the requirement, and the same exactly if it is
settled. -/
theorem Later.cached {which : Skills} {v v' : Vocation} (h : Later which v v') {level : UInt16}
    (hsome : (v'.cacheSkill which level).isSome = true) :
    (v'.req which level).toNat ≤ (v.req which level).toNat ∧
      ((v'.req which level).toNat = (v.req which level).toNat ↔ v.Settled which level) := by
  rw [req_eq, req_eq, Settled, h.tries]
  rcases h.cache level with heq | ⟨hnone, hread⟩
  · rw [heq] at hsome ⊢
    exact ⟨Nat.le_refl _, iff_of_true rfl (.inl hsome)⟩
  · rw [hnone, hread]
    show (v.tries which level).toUInt32.toUInt64.toNat ≤ _ ∧ (_ = _ ↔ _)
    dsimp only
    rw [UInt32.toNat_toUInt64, UInt64.toNat_toUInt32]
    simp only [Option.isSome_none, Bool.false_eq_true, false_or]
    omega

/-- The loop that sums up the requirements: what it reads, and that it reads nothing else. -/
structure Summed (v : Vocation) (which : Skills) (n : Nat) (v' : Vocation) : Prop where
  later : Later which v v'
  cached : ∀ k, 10 < k → k ≤ 10 + n → (v'.cacheSkill which (.ofNat k)).isSome = true
  above : ∀ k, 10 + n < k → k < 2 ^ 16 →
    v'.cacheSkill which (.ofNat k) = v.cacheSkill which (.ofNat k)

theorem summed_sumTries (v : Vocation) (which : Skills) {n : Nat} (hn : 10 + n < 2 ^ 16) :
    Summed v which n (Player.sumTries v which n).2 ∧
      (Player.sumTries v which n).1.toNat =
        (∑ k ∈ Finset.Ioc 10 (10 + n), v.triesReq which k) % 2 ^ 64 := by
  induction n with
  | zero =>
    refine ⟨⟨Later.refl which v, fun k _ _ => by omega, fun _ _ _ => rfl⟩, ?_⟩
    simp [Player.sumTries]
  | succ n ih =>
    obtain ⟨hsummed, hsum⟩ := ih (by omega)
    set u := Player.sumTries v which n with hu
    have hread := Later.read u.2 which (.ofNat (11 + n))
    have hne : ∀ k, k < 2 ^ 16 → k ≠ 11 + n → UInt16.ofNat k ≠ UInt16.ofNat (11 + n) := by
      intro k hk hkn heq
      have hnat := congrArg UInt16.toNat heq
      rw [UInt16.toNat_ofNat', UInt16.toNat_ofNat', Nat.mod_eq_of_lt hk,
        Nat.mod_eq_of_lt (by omega)] at hnat
      exact hkn hnat
    have hstep : Player.sumTries v which (n + 1) =
        (u.1 + u.2.req which (.ofNat (11 + n)),
          (u.2.getReqSkillTries which (.ofNat (11 + n))).2) := rfl
    rw [hstep]
    refine ⟨⟨hsummed.later.trans hread, ?_, ?_⟩, ?_⟩
    · intro k hlo hhi
      by_cases hlast : k = 11 + n
      · subst hlast
        exact read_isSome _ _ _
      · exact hread.isSome (hsummed.cached k hlo (by omega))
    · intro k hlo hhi
      rw [read_other _ fun h => hne k hhi (by omega) h.2]
      exact hsummed.above k (by omega) hhi
    · -- the level is read here for the first time
      have hreq : u.2.req which (.ofNat (11 + n)) = v.req which (.ofNat (11 + n)) := by
        rw [req_eq, req_eq, hsummed.above (11 + n) (by omega) (by omega), hsummed.later.tries]
      rw [hreq, UInt64.toNat_add, hsum, show 10 + (n + 1) = (10 + n) + 1 by omega,
        Finset.sum_Ioc_succ_top (by omega), triesReq, show 10 + n + 1 = 11 + n by omega]
      omega

end Vocation

/-! ## Skills -/

namespace Player

/-- All the tries ever gained, as the vocation requires them now. -/
def skillTotal (v : Vocation) (which : Skills) (s : Skill) : Nat :=
  totalSpent (v.triesReq which) 10 s.level.toNat s.tries.toNat

theorem max_int32_le (n : UInt64) : (max_int32 n).toNat ≤ n.toNat := by
  unfold max_int32
  split
  · rw [UInt32.toNat_toUInt64, UInt64.toNat_toUInt32]
    omega
  · exact Nat.zero_le _

theorem max_int32_eq_iff (n : UInt64) : (max_int32 n).toNat = n.toNat ↔ n.toNat < 2 ^ 31 := by
  unfold max_int32
  split
  · next hsmall =>
    rw [UInt64.toNat_toUInt32] at hsmall
    rw [UInt32.toNat_toUInt64, UInt64.toNat_toUInt32]
    omega
  · next hlarge =>
    rw [UInt64.toNat_toUInt32] at hlarge
    have hzero : (0 : UInt64).toNat = 0 := rfl
    rw [hzero]
    omega

/-- Where the loop over the levels of a skill ends: it pays by what is in the cache, or
finds the bottom. -/
theorem triesLossLoop_lands {which : Skills} {v : Vocation} {level : UInt16} {tries : UInt64}
    {lost : UInt32}
    (hcached : ∀ k, 10 < k → k ≤ level.toNat → (v.cacheSkill which (.ofNat k)).isSome = true) :
    (lost.toNat ≤ totalSpent (v.triesReq which) 10 level.toNat tries.toNat ∧
      ∃ level' tries' lost', triesLossLoop which v level tries lost = (level', tries', lost', v) ∧
        lost'.toNat ≤ tries'.toNat ∧
        Lands (v.triesReq which) 10 level.toNat tries.toNat lost.toNat level'.toNat
          (tries'.toNat - lost'.toNat)) ∨
    (totalSpent (v.triesReq which) 10 level.toNat tries.toNat < lost.toNat ∧
      triesLossLoop which v level tries lost = (10, 0, 0, v)) := by
  induction hn : level.toNat using Nat.strongRecOn generalizing level tries lost with
  | ind n ih =>
    subst hn
    rw [triesLossLoop]
    by_cases hgt : lost.toUInt64 > tries
    · have hlt := UInt64.lt_iff_toNat_lt.mp hgt
      rw [UInt32.toNat_toUInt64] at hlt
      rw [if_pos hgt]
      by_cases hlow : level ≤ 10
      · have hlow' : level.toNat ≤ 10 := UInt16.le_iff_toNat_le.mp hlow
        rw [dif_pos hlow, totalSpent_bottom hlow']
        exact .inr ⟨hlt, rfl⟩
      · have hhigh : 10 < level.toNat := UInt16.lt_iff_toNat_lt.mp (UInt16.not_le.mp hlow)
        have hone : (1 : UInt16).toNat = 1 := rfl
        have hpred : level.toNat = (level - 1).toNat + 1 := by
          rw [UInt16.toNat_sub_of_le _ _ (by rw [UInt16.le_iff_toNat_le]; omega)]
          omega
        have hread := read_cached (by
          have := hcached level.toNat hhigh (Nat.le_refl _)
          rwa [UInt16.ofNat_toNat] at this)
        have hlost : (lost.toUInt64 - tries).toUInt32.toNat = lost.toNat - tries.toNat := by
          rw [UInt64.toNat_toUInt32, UInt64.toNat_sub_of_le _ _ (UInt64.le_of_lt hgt),
            UInt32.toNat_toUInt64]
          have := lost.toNat_lt
          omega
        have hreq := triesReq_toNat v which level
        rw [hpred] at hreq
        rw [dif_neg hlow, hread]
        dsimp only
        have hrest := @ih (level - 1).toNat (by omega) (level - 1) (v.req which level)
          (lost.toUInt64 - tries).toUInt32 (fun k hlo hhi => hcached k hlo (by omega)) rfl
        rw [hlost, ← hreq] at hrest
        rw [hpred, totalSpent_succ (by omega)]
        rcases hrest with ⟨hle, level', tries', lost', heq, hfit, hlands⟩ | ⟨hmore, heq⟩
        · refine .inl ⟨by omega, level', tries', lost', heq, hfit, ?_⟩
          exact .step hlt (by omega) hlands
        · exact .inr ⟨by omega, heq⟩
    · have hle : lost.toNat ≤ tries.toNat := by
        have := UInt64.le_iff_toNat_le.mp (UInt64.not_lt.mp hgt)
        rwa [UInt32.toNat_toUInt64] at this
      rw [if_neg hgt]
      refine .inl ⟨?_, level, tries, lost, rfl, hle, .here hle⟩
      exact Nat.le_trans hle (Nat.le_add_left _ _)

/-- The tries of a skill are less by just what was lost, and not less than none. -/
def SkillExact (share : UInt64 → UInt64) (p p' : Player) (which : Skills) : Prop :=
  skillTotal p.vocation which (p'.skills which) =
    skillTotal p.vocation which (p.skills which) - (p.lostTries share which).toNat

/-- All tries are lost, or the loss ends where less than 2³¹ tries are left on top, and the
requirements of the levels that are given up are settled. -/
def LossFits (share : UInt64 → UInt64) (p : Player) (which : Skills) : Prop :=
  skillTotal p.vocation which (p.skills which) ≤ (p.lostTries share which).toNat ∨
    ∃ l' d, Lands (p.vocation.triesReq which) 10 (p.skills which).level.toNat
        (p.skills which).tries.toNat (p.lostTries share which).toNat l' d ∧
      d < 2 ^ 31 ∧
      ∀ k, l' < k → k ≤ (p.skills which).level.toNat → p.vocation.Settled which (.ofNat k)

/-- What the loss of one skill leaves alone. -/
structure KeepsOthers (p p' : Player) (which : Skills) : Prop where
  skills : ∀ w, w ≠ which → p'.skills w = p.skills w
  cacheSkill : ∀ w, w ≠ which → p'.vocation.cacheSkill w = p.vocation.cacheSkill w
  tries : p'.vocation.tries = p.vocation.tries
  mana : p'.vocation.mana = p.vocation.mana
  magLevel : p'.magLevel = p.magLevel
  manaSpent : p'.manaSpent = p.manaSpent
  magLevelPercent : p'.magLevelPercent = p.magLevelPercent

/-- How the loss of a skill ends, where the vocation has become `v` after all the
requirements were read: at a level with something left, or at the bottom. -/
structure Ends (v : Vocation) (which : Skills) (s : Skill) (lost : UInt32) (level : UInt16)
    (left : UInt64) : Prop where
  ends : (lost.toNat ≤ totalSpent (v.triesReq which) 10 s.level.toNat s.tries.toNat ∧
      Lands (v.triesReq which) 10 s.level.toNat s.tries.toNat lost.toNat level.toNat
        left.toNat) ∨
    (totalSpent (v.triesReq which) 10 s.level.toNat s.tries.toNat < lost.toNat ∧
      level = 10 ∧ left = 0)

theorem loseTries_ends (share : UInt64 → UInt64) {p : Player} {which : Skills}
    (hlevel : (p.skills which).level ≠ 65535) :
    ∃ v p' level left, Summed p.vocation which ((p.skills which).level.toNat - 10) v ∧
      p.loseTries share which = some p' ∧ KeepsOthers p p' which ∧
      Later which p.vocation p'.vocation ∧
      Ends v which (p.skills which) (p.lostTries share which) level left ∧
      p'.skills which =
        ⟨max_int32 left, level, getPercentLevel (max_int32 left) (v.req which level)⟩ := by
  set s := p.skills which with hs
  have hbound := s.level.toNat_lt
  obtain ⟨hsummed, -⟩ :=
    summed_sumTries p.vocation which (n := s.level.toNat - 10) (by omega)
  set v := (sumTries p.vocation which (s.level.toNat - 10)).2 with hv
  set lost := p.lostTries share which with hlost
  have hkeeps : ∀ (s' : Skill) (level : UInt16), KeepsOthers p
      (p.setSkill which s' (v.getReqSkillTries which level).2) which := by
    intro s' level
    have hlater := hsummed.later.trans (Later.read v which level)
    exact ⟨fun w hw => Function.update_of_ne hw _ _, hlater.other, hlater.tries, hlater.mana,
      rfl, rfl, rfl⟩
  have hafter : ∀ (s' : Skill) (v' : Vocation), (p.setSkill which s' v').skills which = s' :=
    fun s' v' => by simp [setSkill]
  rw [loseTries]
  dsimp only
  rw [if_neg hlevel, ← hs, ← hv, ← hlost]
  rcases @triesLossLoop_lands which v s.level s.tries lost
      (fun k hlo hhi => hsummed.cached k hlo (by omega)) with
    ⟨hle, level', tries', lost', heq, hfit, hlands⟩ | ⟨hmore, heq⟩
  · have hleft : (tries' - lost'.toUInt64).toNat = tries'.toNat - lost'.toNat := by
      have hle' : lost'.toUInt64 ≤ tries' := by
        rw [UInt64.le_iff_toNat_le, UInt32.toNat_toUInt64]
        exact hfit
      rw [UInt64.toNat_sub_of_le _ _ hle', UInt32.toNat_toUInt64]
    rw [heq]
    refine ⟨v, _, level', tries' - lost'.toUInt64, hsummed, rfl, hkeeps _ _,
      hsummed.later.trans (Later.read v which _), ⟨.inl ⟨hle, ?_⟩⟩, hafter _ _⟩
    rw [hleft]
    exact hlands
  · rw [heq]
    refine ⟨v, _, 10, 0, hsummed, rfl, hkeeps _ _, hsummed.later.trans (Later.read v which _),
      ⟨.inr ⟨hmore, rfl, rfl⟩⟩, ?_⟩
    have hzero : (0 : UInt64) - (0 : UInt32).toUInt64 = 0 := by decide
    rw [hafter]
    dsimp only
    rw [hzero, req]

/-- The loss of a skill. -/
theorem loseTries_exact (share : UInt64 → UInt64) {p : Player} {which : Skills}
    (hlevel : (p.skills which).level ≠ 65535) :
    ∃ p', p.loseTries share which = some p' ∧ KeepsOthers p p' which ∧
      (SkillExact share p p' which ↔ LossFits share p which) := by
  obtain ⟨v, p', level', left, hsummed, hp', hkeeps, -, hends, hskill⟩ :=
    loseTries_ends share hlevel
  refine ⟨p', hp', hkeeps, ?_⟩
  have hcached : ∀ k, 10 < k → k ≤ (p.skills which).level.toNat →
      (v.cacheSkill which (.ofNat k)).isSome = true :=
    fun k hlo hhi => hsummed.cached k hlo (by omega)
  rw [SkillExact, LossFits, hskill]
  set s := p.skills which with hs
  set lost := p.lostTries share which with hlost
  set R := p.vocation.triesReq which with hR
  have hTR : ∀ k, 10 < k → k ≤ s.level.toNat → v.triesReq which k ≤ R k :=
    fun k hlo hhi => (hsummed.later.cached (hcached k hlo hhi)).1
  have hsame : ∀ k, 10 < k → k ≤ s.level.toNat →
      (v.triesReq which k = R k ↔ p.vocation.Settled which (.ofNat k)) :=
    fun k hlo hhi => (hsummed.later.cached (hcached k hlo hhi)).2
  have hmono : totalSpent (v.triesReq which) 10 s.level.toNat s.tries.toNat ≤
      totalSpent R 10 s.level.toNat s.tries.toNat := totalSpent_mono hTR
  show totalSpent R 10 level'.toNat (max_int32 left).toNat =
      totalSpent R 10 s.level.toNat s.tries.toNat - lost.toNat ↔
    totalSpent R 10 s.level.toNat s.tries.toNat ≤ lost.toNat ∨ _
  rcases hends.ends with ⟨hle, hlands⟩ | ⟨hmore, rfl, rfl⟩
  · -- above the end of the loss lie only levels above ten
    have habove : ∀ k, level'.toNat < k → k ≤ s.level.toNat → 10 < k := by
      intro k hlo hhi
      rcases hlands.least with hl | ⟨hb, _⟩
      · omega
      · omega
    have hbalance := hlands.total_iff hTR (max_int32_le left)
    constructor
    · intro h
      obtain ⟨hwhole, heqs⟩ := hbalance.mp (by omega)
      refine .inr ⟨level'.toNat, _, hlands.congr fun k hlo hhi => (heqs k hlo hhi).symm,
        (max_int32_eq_iff left).mp hwhole, fun k hlo hhi => ?_⟩
      exact (hsame k (habove k hlo hhi) hhi).mp (heqs k hlo hhi)
    · rintro (hall | ⟨l'', d, hlands', hsmall, hsettled⟩)
      · -- everything is lost: the requirements in the cache are the full ones
        have htotals : totalSpent (v.triesReq which) 10 s.level.toNat s.tries.toNat =
            totalSpent R 10 s.level.toNat s.tries.toNat := by omega
        have heqs : ∀ k, level'.toNat < k → k ≤ s.level.toNat → v.triesReq which k = R k :=
          fun k hlo hhi => req_eq_of_totalSpent hTR htotals (habove k hlo hhi) hhi
        have hpaid := hlands.total
        have hnone : totalSpent (v.triesReq which) 10 level'.toNat left.toNat = 0 := by omega
        have hzero : left.toNat = 0 := Nat.le_zero.mp (hnone ▸ Nat.le_add_left _ _)
        have := hbalance.mpr ⟨(max_int32_eq_iff left).mpr (by omega), heqs⟩
        omega
      · have heqs' : ∀ k, l'' < k → k ≤ s.level.toNat → v.triesReq which k = R k := by
          intro k hlo hhi
          refine (hsame k ?_ hhi).mpr (hsettled k hlo hhi)
          rcases hlands'.least with hl | ⟨hb, _⟩
          · omega
          · omega
        obtain ⟨rfl, rfl⟩ := hlands.unique (hlands'.congr heqs')
        have := hbalance.mpr ⟨(max_int32_eq_iff left).mpr hsmall, heqs'⟩
        omega
  · have hbottom : totalSpent R 10 (10 : UInt16).toNat (max_int32 0).toNat = 0 :=
      totalSpent_bottom (Nat.le_refl 10)
    rw [hbottom]
    constructor
    · intro h
      exact .inl (by omega)
    · rintro (hall | ⟨l', d, hlands, _, hsettled⟩)
      · omega
      · -- the settled levels would have paid
        have hpaid := (hlands.congr fun k hlo hhi => (hsame k (by
          rcases hlands.least with hl | ⟨hb, _⟩ <;> omega) hhi).mpr (hsettled k hlo hhi)).total
        omega

/-! ## All skills -/

theorem triesReq_congr {v v' : Vocation} {which : Skills} (htries : v'.tries = v.tries)
    (hcache : v'.cacheSkill which = v.cacheSkill which) :
    v'.triesReq which = v.triesReq which := by
  funext k
  rw [triesReq, triesReq, req_eq, req_eq, htries, hcache]

/-- The share is computed from all the tries ever gained, in 64 bits. -/
theorem lostTries_eq (share : UInt64 → UInt64) (p : Player) (which : Skills) :
    p.lostTries share which =
      (share (.ofNat (skillTotal p.vocation which (p.skills which)))).toUInt32 := by
  have hlevel := (p.skills which).level.toNat_lt
  have hsum := (summed_sumTries p.vocation which
    (n := (p.skills which).level.toNat - 10) (by omega)).2
  have hrange : Finset.Ioc 10 (10 + ((p.skills which).level.toNat - 10)) =
      Finset.Ioc 10 (p.skills which).level.toNat := by
    ext k
    simp only [Finset.mem_Ioc]
    omega
  rw [hrange] at hsum
  rw [lostTries]
  congr 2
  rw [← UInt64.toNat_inj, UInt64.toNat_add, UInt64.toNat_ofNat', hsum, skillTotal, totalSpent]
  omega

/-- The account of a skill is about that skill alone. -/
theorem KeepsOthers.account {p q : Player} {which w : Skills} (h : KeepsOthers p q which)
    (hw : w ≠ which) (share : UInt64 → UInt64) (p' : Player) :
    (SkillExact share q p' w ↔ SkillExact share p p' w) ∧
      (LossFits share q w ↔ LossFits share p w) := by
  have hreq := triesReq_congr h.tries (h.cacheSkill w hw)
  have htotal : ∀ s, skillTotal q.vocation w s = skillTotal p.vocation w s := by
    intro s
    rw [skillTotal, skillTotal, hreq]
  have hlost : q.lostTries share w = p.lostTries share w := by
    rw [lostTries_eq, lostTries_eq, h.skills w hw, htotal]
  have hsettled : ∀ level, q.vocation.Settled w level ↔ p.vocation.Settled w level := by
    intro level
    rw [Settled, Settled, h.tries, h.cacheSkill w hw]
  constructor
  · rw [SkillExact, SkillExact, htotal, htotal, hlost, h.skills w hw]
  · simp only [LossFits, htotal, hlost, h.skills w hw, hreq, hsettled]

/-- The loss of some skills, one after the other. -/
theorem foldlM_loseTries (share : UInt64 → UInt64) {ws : List Skills} (hnodup : ws.Nodup)
    (p : Player) :
    ((∀ w ∈ ws, (p.skills w).level ≠ 65535) →
      ∃ p', ws.foldlM (loseTries share) p = some p' ∧ p'.manaTotal = p.manaTotal ∧
        (∀ w ∉ ws, p'.skills w = p.skills w) ∧
        ∀ w ∈ ws, SkillExact share p p' w ↔ LossFits share p w) ∧
    ((∃ p', ws.foldlM (loseTries share) p = some p') →
      ∀ w ∈ ws, (p.skills w).level ≠ 65535) := by
  induction ws generalizing p with
  | nil => exact ⟨fun _ => ⟨p, rfl, rfl, fun _ _ => rfl, nofun⟩, fun _ => nofun⟩
  | cons which ws ih =>
    obtain ⟨hnot, hnodup⟩ := List.nodup_cons.mp hnodup
    by_cases hlevel : (p.skills which).level = 65535
    · refine ⟨fun h => absurd hlevel (h which (by simp)), ?_⟩
      rintro ⟨p', hp'⟩
      rw [List.foldlM_cons, loseTries] at hp'
      simp [hlevel] at hp'
    · obtain ⟨q, hq, hkeeps, hexact⟩ := loseTries_exact share hlevel
      have hrest := ih hnodup q
      have hfold : (which :: ws).foldlM (loseTries share) p = ws.foldlM (loseTries share) q := by
        rw [List.foldlM_cons, hq]
        rfl
      have hne : ∀ w ∈ ws, w ≠ which := by
        rintro w hw rfl
        exact hnot hw
      have hmana : q.manaTotal = p.manaTotal := by
        have hreq : q.vocation.manaReq = p.vocation.manaReq := by
          funext k
          rw [manaReq, manaReq, getReqMana, getReqMana, hkeeps.mana]
        rw [manaTotal, manaTotal, hreq, hkeeps.magLevel, hkeeps.manaSpent]
      constructor
      · intro hlevels
        obtain ⟨p', hp', htotal, hothers, hthese⟩ := hrest.1 fun w hw => by
          rw [hkeeps.skills w (hne w hw)]
          exact hlevels w (List.mem_cons_of_mem _ hw)
        refine ⟨p', hfold.trans hp', htotal.trans hmana, ?_, ?_⟩
        · intro w hw
          rw [List.mem_cons, not_or] at hw
          rw [hothers w hw.2, hkeeps.skills w hw.1]
        · intro w hw
          rcases List.mem_cons.mp hw with rfl | hw
          · rw [← hexact, SkillExact, SkillExact, hothers w hnot]
          · have haccount := hkeeps.account (hne w hw) share p'
            exact haccount.1.symm.trans ((hthese w hw).trans haccount.2)
      · rw [hfold]
        intro hsome w hw
        rcases List.mem_cons.mp hw with rfl | hw
        · exact hlevel
        · rw [← hkeeps.skills w (hne w hw)]
          exact hrest.2 hsome w hw

theorem mem_all (w : Skills) : w ∈ Skills.all := by
  cases w <;> decide

/-- The losses of `deathLoss`, one account after the other. -/
theorem deathLoss_accounts (share : UInt64 → UInt64) (p : Player) :
    ((p.magLevel ≠ 4294967295 ∧ ∀ which, (p.skills which).level ≠ 65535) ↔
      ∃ p', p.deathLoss share = some p') ∧
    ∀ p', p.deathLoss share = some p' →
      (p'.manaTotal + (p.lostMana share).toNat = p.manaTotal ↔
        (p.lostMana share).toNat ≤ p.manaTotal) ∧
      ∀ which, SkillExact share p p' which ↔ LossFits share p which := by
  by_cases hlevel : p.magLevel = 4294967295
  · have hnone : p.deathLoss share = none := by
      rw [deathLoss, loseMana, if_pos hlevel]
      rfl
    rw [hnone]
    exact ⟨iff_of_false (fun h => h.1 hlevel) nofun, nofun⟩
  · obtain ⟨q, hq, hskills, hvoc, hmana⟩ := loseMana_exact share hlevel
    have hfold : p.deathLoss share = Skills.all.foldlM (loseTries share) q := by
      rw [deathLoss, hq]
      rfl
    have hrest := @foldlM_loseTries share Skills.all (by decide) q
    have haccount : ∀ p' which, (SkillExact share q p' which ↔ SkillExact share p p' which) ∧
        (LossFits share q which ↔ LossFits share p which) := by
      intro p' which
      rw [SkillExact, SkillExact, LossFits, LossFits, lostTries_eq, lostTries_eq, hskills, hvoc]
      exact ⟨Iff.rfl, Iff.rfl⟩
    rw [hfold]
    constructor
    · constructor
      · rintro ⟨_, hlevels⟩
        obtain ⟨p', hp', _⟩ := hrest.1 fun w _ => by
          rw [hskills]
          exact hlevels w
        exact ⟨p', hp'⟩
      · intro hsome
        refine ⟨hlevel, fun which => ?_⟩
        rw [← hskills]
        exact hrest.2 hsome which (mem_all which)
    · intro p' hp'
      obtain ⟨p'', hp'', htotal, _, hthese⟩ := hrest.1 (hrest.2 ⟨p', hp'⟩)
      obtain rfl := Option.some.inj (hp'.symm.trans hp'')
      refine ⟨by rw [htotal]; exact hmana, fun which => ?_⟩
      have hboth := haccount p' which
      exact hboth.1.symm.trans ((hthese which (mem_all which)).trans hboth.2)

/-- Death takes exactly what is computed if and only if it comes to an end, no more mana is
lost than was ever spent, and the loss of every skill fits. -/
theorem deathLoss_exact (share : UInt64 → UInt64) (p : Player) :
    (∃ p', p.deathLoss share = some p' ∧
      p'.manaTotal + (p.lostMana share).toNat = p.manaTotal ∧
      ∀ which, SkillExact share p p' which) ↔
    (p.magLevel ≠ 4294967295 ∧ ∀ which, (p.skills which).level ≠ 65535) ∧
      (p.lostMana share).toNat ≤ p.manaTotal ∧ ∀ which, LossFits share p which := by
  obtain ⟨hends, hexact⟩ := deathLoss_accounts share p
  constructor
  · rintro ⟨p', hp', hmana, hskills⟩
    obtain ⟨hmana', hskills'⟩ := hexact p' hp'
    exact ⟨hends.mpr ⟨p', hp'⟩, hmana'.mp hmana, fun which => (hskills' which).mp (hskills which)⟩
  · rintro ⟨hlevels, hmana, hfits⟩
    obtain ⟨p', hp'⟩ := hends.mp hlevels
    obtain ⟨hmana', hskills'⟩ := hexact p' hp'
    exact ⟨p', hp', hmana'.mpr hmana, fun which => (hskills' which).mpr (hfits which)⟩

end Player

/-- A player with 3000000000 tries on top of the level 37; level 38 requires 6710886400. -/
def farAlong : Player where
  skills _ := ⟨3000000000, 37, 44⟩
  magLevel := 1
  manaSpent := 0
  magLevelPercent := 0
  vocation := doubling
  notGainMana := false

/-- A death without any loss takes all of these tries. -/
theorem tries_lost_by_int32 :
    ¬∀ (share : UInt64 → UInt64) (p : Player), (∀ n, share n ≤ n) →
      (p.magLevel ≠ 4294967295 ∧ ∀ which, (p.skills which).level ≠ 65535) →
      ∃ p', p.deathLoss share = some p' ∧
        p'.manaTotal + (p.lostMana share).toNat = p.manaTotal ∧
        ∀ which, Player.SkillExact share p p' which := by
  intro h
  obtain ⟨p', hp', _, hskills⟩ := h (fun _ => 0) farAlong
    (fun n => UInt64.le_iff_toNat_le.mpr (Nat.zero_le _)) ⟨by decide, fun _ => (by decide : (37 : UInt16) ≠ 65535)⟩
  have hexact := ((Player.deathLoss_accounts (fun _ => 0) farAlong).2 p' hp').2 .sword
  rcases hexact.mp (hskills .sword) with hall | ⟨l', d, hlands, hsmall, _⟩
  · -- there are tries that were not lost
    have hpos : 3000000000 ≤ Player.skillTotal farAlong.vocation .sword
        (farAlong.skills .sword) := Nat.le_add_left _ _
    have hnone : (farAlong.lostTries (fun _ => 0) .sword).toNat = 0 := rfl
    omega
  · obtain ⟨rfl, rfl⟩ := (Lands.here (Nat.zero_le 3000000000)).unique hlands
    exact absurd hsmall (by decide)

end Infernum.Advance
