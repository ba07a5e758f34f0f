import Infernum.Advance.DeathBalance

/-!
# The progress that is shown

Training shows the percentage of the next requirement, and nothing at the top. Two things
break this: `addManaSpent` forgets the percentage at the top, and death divides by the
requirement of the level itself.
-/

namespace Infernum.Advance

open Lib Vocation

/-! ## Percentages under further readings -/

namespace Vocation

theorem Later.percent {which : Skills} {v v' : Vocation} (h : Later which v v')
    {level : UInt16} (hhere : v.Settled which level) (hnext : v.Settled which (level + 1))
    (tries : UInt64) : v'.percent which level tries = v.percent which level tries := by
  rw [Vocation.percent, Vocation.percent, (hhere.later h).1, (hnext.later h).1]

theorem percent_congr {v v' : Vocation} {w : Skills} (htries : v'.tries = v.tries)
    (hcache : v'.cacheSkill w = v.cacheSkill w) (level : UInt16) (tries : UInt64) :
    v'.percent w level tries = v.percent w level tries := by
  simp only [Vocation.percent, req_eq, htries, hcache]

theorem manaPercent_congr {v v' : Vocation} (hmana : v'.mana = v.mana) (magLevel : UInt32)
    (manaSpent : UInt64) :
    v'.manaPercent magLevel manaSpent = v.manaPercent magLevel manaSpent := by
  have hreq : ∀ l, v'.getReqMana l = v.getReqMana l := by
    intro l
    rw [getReqMana, getReqMana, hmana]
  rw [Vocation.manaPercent, Vocation.manaPercent, hreq, hreq]

end Vocation

namespace Player

/-- Every percentage that is stored is that of the tries, or of the mana, in the requirement
of the next level; at the top it is 0. -/
structure Shown (p : Player) : Prop where
  skills : ∀ which, (p.skills which).percent =
    p.vocation.percent which (p.skills which).level (p.skills which).tries
  magic : p.magLevelPercent = p.vocation.manaPercent p.magLevel p.manaSpent

/-- A change of one skill and of its cache. -/
theorem Shown.setSkill {p : Player} (h : p.Shown) {which : Skills} {s : Skill} {v : Vocation}
    (hlater : Later which p.vocation v) (hs : s.percent = v.percent which s.level s.tries) :
    (p.setSkill which s v).Shown where
  skills w := by
    by_cases hw : w = which
    · subst hw
      rw [setSkill_which]
      exact hs
    · have hsame : (p.setSkill which s v).skills w = p.skills w := Function.update_of_ne hw _ _
      rw [hsame, h.skills w]
      exact (percent_congr hlater.tries (hlater.other w hw) _ _).symm
  magic := h.magic.trans (manaPercent_congr hlater.mana _ _).symm

theorem shown_addSkillAdvance {p : Player} (h : p.Shown) {which : Skills} {count : UInt64}
    (hsettled : p.SettledClimb which count) : (p.addSkillAdvance which count).Shown := by
  obtain ⟨v, hlater, heq⟩ := addSkillAdvance_spec (Later.refl which _) hsettled
  rw [heq]
  split
  · next hgo =>
    have hlast := Ladder.Looked.last (t := ((p.skills which).tries + count).toNat) hgo.1
    exact h.setSkill hlater (hlater.percent (hsettled _ hlast.1) (hsettled _ hlast.2) _).symm
  · -- nothing but two readings
    have hsame : ({ p with vocation := v } : Player) =
        p.setSkill which (p.skills which) v := by
      rw [setSkill, Function.update_eq_self]
    rw [hsame]
    refine h.setSkill hlater ?_
    rw [h.skills which, hlater.percent (hsettled _ (.here _ _)) (hsettled _ (.next _ _))]

/-- At the top the percentage is not written: it is right only if it was 0. -/
theorem shown_addManaSpent {p : Player} (h : p.Shown) {amount : UInt64}
    (hok : p.notGainMana = true ∨ amount = 0 ∨ ¬p.vocation.manaLadder.Open p.magLevel ∨
      p.vocation.manaLadder.Open (p.manaClimb amount).1 ∨ p.magLevelPercent = 0) :
    (p.addManaSpent amount).Shown := by
  rw [addManaSpent_spec]
  split
  · next hgo =>
    refine ⟨h.skills, ?_⟩
    show (if _ then _ else _) = p.vocation.manaPercent (p.manaClimb amount).1 _
    by_cases htop : p.vocation.manaLadder.Open (p.manaClimb amount).1
    · rw [if_pos htop]
      rfl
    · rw [if_neg htop, manaPercent, if_neg (by rw [gt_iff_lt, ← open_manaLadder]; exact htop)]
      rcases hok with hflag | hzero | hat | hgo' | hnone
      · rw [hgo.1] at hflag
        cases hflag
      · exact absurd hzero hgo.2.2
      · exact absurd hgo.2.1 hat
      · exact absurd hgo' htop
      · exact hnone
  · exact h

theorem shown_offline_magLevel {p : Player} (h : p.Shown) (tries : UInt64) :
    (p.addOfflineTrainingTries .magLevel tries).1.Shown := by
  rw [offline_magLevel]
  split
  · exact ⟨h.skills, rfl⟩
  · exact h

/-! ## Death -/

theorem shown_loseMana {share : UInt64 → UInt64} {p p' : Player} (h : p.Shown)
    (hp' : p.loseMana share = some p') :
    p'.Shown ∧ p'.skills = p.skills ∧ p'.vocation = p.vocation := by
  rw [loseMana] at hp'
  split at hp'
  · cases hp'
  · obtain rfl := Option.some.inj hp'
    exact ⟨⟨h.skills, rfl⟩, rfl, rfl⟩

/-- The requirements up to the next level are settled, and what is left of the tries shows
the same in the requirement of the level that is left as in that of the next. -/
structure DeathShows (share : UInt64 → UInt64) (p : Player) (which : Skills) : Prop where
  settled : ∀ k, k ≤ max ((p.skills which).level.toNat + 1) 11 →
    p.vocation.Settled which (.ofNat k)
  percent : ∀ level left,
    Ends p.vocation which (p.skills which) (p.lostTries share which) level left →
    getPercentLevel (max_int32 left) (p.vocation.req which level) =
      p.vocation.percent which level (max_int32 left)

theorem DeathShows.congr {share : UInt64 → UInt64} {p q : Player} {w : Skills}
    (h : DeathShows share p w) (hskill : q.skills w = p.skills w)
    (htries : q.vocation.tries = p.vocation.tries)
    (hcache : q.vocation.cacheSkill w = p.vocation.cacheSkill w) : DeathShows share q w := by
  have hreq := triesReq_congr htries hcache
  have hlost : q.lostTries share w = p.lostTries share w := by
    rw [lostTries_eq, lostTries_eq, hskill, skillTotal, skillTotal, hreq]
  have hsettled : ∀ level, q.vocation.Settled w level ↔ p.vocation.Settled w level := by
    intro level
    rw [Settled, Settled, htries, hcache]
  refine ⟨fun k hk => ?_, fun level left hends => ?_⟩
  · rw [hskill] at hk
    exact (hsettled _).mpr (h.settled k hk)
  · rw [hskill, hlost] at hends
    have hends' : Ends p.vocation w (p.skills w) (p.lostTries share w) level left := by
      have hcases := hends.ends
      rw [hreq] at hcases
      exact ⟨hcases⟩
    rw [percent_congr htries hcache, ← h.percent level left hends', req_eq, req_eq, htries, hcache]

/-- The requirements that are settled are the same in the vocation that has read them. -/
theorem Ends.settled {v v' : Vocation} {which : Skills} (hlater : Later which v v') {s : Skill}
    {lost : UInt32} {level : UInt16} {left : UInt64}
    (hsettled : ∀ k, k ≤ s.level.toNat → v.Settled which (.ofNat k))
    (h : Ends v' which s lost level left) : Ends v which s lost level left := by
  have hreq : ∀ k, k ≤ s.level.toNat → v.triesReq which k = v'.triesReq which k := by
    intro k hk
    rw [triesReq, triesReq, ((hsettled k hk).later hlater).1]
  have htotal : totalSpent (v.triesReq which) 10 s.level.toNat s.tries.toNat =
      totalSpent (v'.triesReq which) 10 s.level.toNat s.tries.toNat :=
    Nat.le_antisymm (totalSpent_mono fun k _ hk => (hreq k hk).le)
      (totalSpent_mono fun k _ hk => (hreq k hk).ge)
  refine ⟨?_⟩
  rw [htotal]
  rcases h.ends with ⟨hle, hlands⟩ | hbottom
  · exact .inl ⟨hle, hlands.congr fun k _ hk => hreq k hk⟩
  · exact .inr hbottom

theorem shown_loseTries {share : UInt64 → UInt64} {p p' : Player} (h : p.Shown)
    {which : Skills} (hok : DeathShows share p which)
    (hp' : p.loseTries share which = some p') : p'.Shown ∧ KeepsOthers p p' which := by
  have hlevel : (p.skills which).level ≠ 65535 := by
    intro heq
    rw [loseTries] at hp'
    simp [heq] at hp'
  obtain ⟨v, q, level, left, hsummed, hq, hkeeps, hlater, hends, hskill⟩ :=
    loseTries_ends share hlevel
  obtain rfl := Option.some.inj (hq.symm.trans hp')
  have hbound : (p.skills which).level.toNat < 65535 := by
    have hlt := (p.skills which).level.toNat_lt
    have hne : (p.skills which).level.toNat ≠ 65535 := fun h => hlevel (UInt16.toNat_inj.mp h)
    omega
  -- the loss ends at a level whose requirement and the next are settled
  have hle : level.toNat ≤ max (p.skills which).level.toNat 10 := by
    rcases hends.ends with ⟨_, hlands⟩ | ⟨_, rfl, _⟩
    · exact le_max_of_le_left hlands.le
    · exact le_max_right _ _
  have hhere : p.vocation.Settled which level := by
    have := hok.settled level.toNat (by omega)
    rwa [UInt16.ofNat_toNat] at this
  have hnext : p.vocation.Settled which (level + 1) := by
    have := hok.settled (level.toNat + 1) (by omega)
    have hone : UInt16.ofNat (level.toNat + 1) = level + 1 := by
      rw [← UInt16.toNat_inj, UInt16.toNat_ofNat', UInt16.toNat_add]
      rfl
    rwa [hone] at this
  have hends' := hends.settled hsummed.later fun k hk => hok.settled k (by omega)
  have hshown := hok.percent level left hends'
  have hreq := (hhere.later hsummed.later).1
  refine ⟨⟨fun w => ?_, ?_⟩, hkeeps⟩
  · by_cases hw : w = which
    · subst hw
      rw [hskill]
      dsimp only
      rw [hreq, hshown, hlater.percent hhere hnext]
    · rw [hkeeps.skills w hw, h.skills w]
      exact (percent_congr hkeeps.tries (hkeeps.cacheSkill w hw) _ _).symm
  · rw [hkeeps.magLevelPercent, hkeeps.magLevel, hkeeps.manaSpent, h.magic]
    exact (manaPercent_congr hkeeps.mana _ _).symm

theorem shown_foldlM_loseTries {share : UInt64 → UInt64} {ws : List Skills} (hnodup : ws.Nodup)
    {p p' : Player} (h : p.Shown) (hok : ∀ w ∈ ws, DeathShows share p w)
    (hp' : ws.foldlM (loseTries share) p = some p') : p'.Shown := by
  induction ws generalizing p with
  | nil =>
    obtain rfl := Option.some.inj hp'
    exact h
  | cons which ws ih =>
    obtain ⟨hnot, hnodup⟩ := List.nodup_cons.mp hnodup
    rw [List.foldlM_cons] at hp'
    obtain ⟨q, hq, hrest⟩ := Option.bind_eq_some_iff.mp hp'
    obtain ⟨hshown, hkeeps⟩ := shown_loseTries h (hok which (by simp)) hq
    -- the skills that follow are as they were
    refine ih hnodup hshown (fun w hw => ?_) hrest
    have hne : w ≠ which := by
      rintro rfl
      exact hnot hw
    exact (hok w (List.mem_cons_of_mem _ hw)).congr (hkeeps.skills w hne) hkeeps.tries
      (hkeeps.cacheSkill w hne)

theorem shown_deathLoss {share : UInt64 → UInt64} {p p' : Player} (h : p.Shown)
    (hok : ∀ which, DeathShows share p which) (hp' : p.deathLoss share = some p') :
    p'.Shown := by
  rw [deathLoss] at hp'
  obtain ⟨q, hq, hrest⟩ := Option.bind_eq_some_iff.mp hp'
  obtain ⟨hshown, hskills, hvoc⟩ := shown_loseMana h hq
  refine shown_foldlM_loseTries (by decide) hshown (fun which _ => ?_) hrest
  exact (hok which).congr (by rw [hskills]) (by rw [hvoc]) (by rw [hvoc])

end Player

/-! ## Runs -/

/-- What changes the progress of a player. -/
inductive Op where
  | addSkillAdvance (which : Skills) (count : UInt64)
  | addManaSpent (amount : UInt64)
  | addOfflineTrainingTries (trained : Trained) (tries : UInt64)
  | death (share : UInt64 → UInt64)

def Op.apply (p : Player) : Op → Option Player
  | .addSkillAdvance which count => some (p.addSkillAdvance which count)
  | .addManaSpent amount => some (p.addManaSpent amount)
  | .addOfflineTrainingTries trained tries => some (p.addOfflineTrainingTries trained tries).1
  | .death share => p.deathLoss share

/-- The change does not run into one of the four faults: a requirement that the cache cuts,
the percentage that `addManaSpent` keeps at the top, and at a death the requirement of the
level itself and the tries that are cut. -/
def Op.Fits (p : Player) : Op → Prop
  | .addSkillAdvance which count => p.SettledClimb which count
  | .addManaSpent amount => p.notGainMana = true ∨ amount = 0 ∨
      ¬p.vocation.manaLadder.Open p.magLevel ∨
      p.vocation.manaLadder.Open (p.manaClimb amount).1 ∨ p.magLevelPercent = 0
  | .addOfflineTrainingTries (.skill which) tries => tries = 0 ∨ p.SettledClimb which tries
  | .addOfflineTrainingTries _ _ => True
  | .death share => ∀ which, Player.DeathShows share p which

namespace Player

theorem Shown.apply {p p' : Player} (h : p.Shown) {op : Op} (hfits : op.Fits p)
    (hp' : op.apply p = some p') : p'.Shown := by
  cases op with
  | addSkillAdvance which count =>
    obtain rfl := Option.some.inj hp'
    exact shown_addSkillAdvance h hfits
  | addManaSpent amount =>
    obtain rfl := Option.some.inj hp'
    exact shown_addManaSpent h hfits
  | addOfflineTrainingTries trained tries =>
    obtain rfl := Option.some.inj hp'
    cases trained with
    | skill which =>
      by_cases hzero : tries = 0
      · rw [addOfflineTrainingTries, if_pos hzero]
        exact h
      · rw [offline_skill_eq p which hzero]
        exact shown_addSkillAdvance h (hfits.resolve_left hzero)
    | magLevel => exact shown_offline_magLevel h tries
    | level =>
      rw [addOfflineTrainingTries]
      split <;> exact h
  | death share => exact shown_deathLoss h hfits hp'

/-- The players that come from `p` by changes that fit. -/
inductive Reached (p : Player) : Player → Prop where
  | start : Reached p p
  | change {q q' : Player} (op : Op) : Reached p q → op.Fits q → op.apply q = some q' →
      Reached p q'

/-- Whatever a player trains and however often they die: the progress that is shown is the
real one. -/
theorem shown_of_reached {p q : Player} (h : p.Shown) (hq : Reached p q) : q.Shown := by
  induction hq with
  | start => exact h
  | change op _ hfits happly ih => exact ih.apply hfits happly

end Player

theorem shown_swordsman : (swordsman 10).Shown :=
  ⟨fun which => by cases which <;> decide, by decide⟩

theorem shown_swordsman_trained :
    ((swordsman 10).addSkillAdvance .sword (10 + 5)).Shown :=
  Player.shown_of_reached shown_swordsman
    (.change (.addSkillAdvance .sword (10 + 5)) .start settledClimb_ten rfl)

/-- With the last 320 mana the top is reached, and 23 percent stay. -/
theorem percent_kept_at_top :
    ¬∀ (p p' : Player) (op : Op), p.Shown → op.apply p = some p' → p'.Shown := by
  intro h
  have hshown : nearTop.Shown := ⟨fun which => by cases which <;> decide, by decide⟩
  have hmagic := (h nearTop _ (.addManaSpent 320) hshown rfl).magic
  rw [Player.addManaSpent_spec, manaClimb_nearTop] at hmagic
  exact absurd hmagic (by decide)

end Infernum.Advance
