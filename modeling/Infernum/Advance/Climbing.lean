import Infernum.Advance.Training
import Infernum.Lib.Ladder

/-!
# Training as climbing

The loops climb the ladder of the requirements. The requirements of skills are read
through a cache that is too narrow: what is read is the same every time only below 2³².
-/

namespace Infernum.Advance

open Lib (Ladder)

namespace Vocation

/-! ## Reading requirements -/

/-- The requirement as it is read next. -/
def req (v : Vocation) (which : Skills) (level : UInt16) : UInt64 :=
  (v.getReqSkillTries which level).1

/-- The requirement is the same every time: it is in the cache, or fits into it. -/
def Settled (v : Vocation) (which : Skills) (level : UInt16) : Prop :=
  (v.cacheSkill which level).isSome = true ∨ (v.tries which level).toNat < 2 ^ 32

/-- The vocation `v'` is `v` after some requirements of a skill were read. -/
structure Later (which : Skills) (v v' : Vocation) : Prop where
  tries : v'.tries = v.tries
  mana : v'.mana = v.mana
  cache : ∀ level, v'.cacheSkill which level = v.cacheSkill which level ∨
    (v.cacheSkill which level = none ∧
      v'.cacheSkill which level = some (v.tries which level).toUInt32)
  other : ∀ w, w ≠ which → v'.cacheSkill w = v.cacheSkill w

theorem Later.refl (which : Skills) (v : Vocation) : Later which v v :=
  ⟨rfl, rfl, fun _ => .inl rfl, fun _ _ => rfl⟩

theorem Later.trans {which : Skills} {v v' v'' : Vocation} (h : Later which v v')
    (h' : Later which v' v'') : Later which v v'' := by
  refine ⟨h'.tries.trans h.tries, h'.mana.trans h.mana, fun level => ?_,
    fun w hw => (h'.other w hw).trans (h.other w hw)⟩
  rcases h'.cache level with heq | ⟨hnone, hsome⟩
  · rcases h.cache level with heq' | hread
    · exact .inl (heq.trans heq')
    · exact .inr ⟨hread.1, heq.trans hread.2⟩
  · rw [h.tries] at hsome
    rcases h.cache level with heq' | hread
    · exact .inr ⟨heq' ▸ hnone, hsome⟩
    · rw [hread.2] at hnone
      cases hnone

theorem read_other (v : Vocation) {which w : Skills} {level l : UInt16}
    (h : ¬(w = which ∧ l = level)) :
    (v.getReqSkillTries which level).2.cacheSkill w l = v.cacheSkill w l := by
  unfold getReqSkillTries
  cases v.cacheSkill which level with
  | some tries => rfl
  | none => exact if_neg h

theorem Later.read (v : Vocation) (which : Skills) (level : UInt16) :
    Later which v (v.getReqSkillTries which level).2 := by
  refine ⟨?_, ?_, fun l => ?_, fun w hw => funext fun l => read_other v fun h => hw h.1⟩
  · unfold getReqSkillTries
    cases v.cacheSkill which level <;> rfl
  · unfold getReqSkillTries
    cases v.cacheSkill which level <;> rfl
  · by_cases hl : l = level
    · subst hl
      unfold getReqSkillTries
      cases hcache : v.cacheSkill which l with
      | some tries => exact .inl hcache
      | none => exact .inr ⟨rfl, if_pos ⟨rfl, rfl⟩⟩
    · exact .inl (read_other v fun h => hl h.2)

theorem toUInt64_toUInt32 {n : UInt64} (h : n.toNat < 2 ^ 32) : n.toUInt32.toUInt64 = n := by
  rw [← UInt64.toNat_inj, UInt32.toNat_toUInt64, UInt64.toNat_toUInt32, Nat.mod_eq_of_lt h]

theorem req_eq (v : Vocation) (which : Skills) (level : UInt16) :
    v.req which level =
      match v.cacheSkill which level with
      | some tries => tries.toUInt64
      | none => v.tries which level := by
  unfold req getReqSkillTries
  cases v.cacheSkill which level <;> rfl

theorem Settled.later {v v' : Vocation} {which : Skills} {level : UInt16}
    (h : v.Settled which level) (hlater : Later which v v') :
    v'.req which level = v.req which level ∧ v'.Settled which level := by
  rw [req_eq, req_eq, Settled, hlater.tries]
  rcases hlater.cache level with heq | ⟨hnone, hsome⟩
  · rw [heq]
    exact ⟨rfl, h⟩
  · rw [Settled, hnone] at h
    rw [hnone, hsome]
    exact ⟨toUInt64_toUInt32 (h.resolve_left nofun), .inl rfl⟩

/-- The requirements of a skill as a ladder. -/
def ladder (v : Vocation) (which : Skills) : Ladder UInt16 where
  succ l := l + 1
  req l := (v.req which l).toNat

/-- The requirements of the magic level as a ladder. -/
def manaLadder (v : Vocation) : Ladder UInt32 where
  succ l := l + 1
  req l := (v.getReqMana l).toNat

/-- The percentage that is to be shown for a skill. -/
def percent (v : Vocation) (which : Skills) (level : UInt16) (tries : UInt64) : UInt8 :=
  if v.req which (level + 1) > v.req which level then
    getPercentLevel tries (v.req which (level + 1))
  else 0

/-- The percentage that is to be shown for the magic level. -/
def manaPercent (v : Vocation) (magLevel : UInt32) (manaSpent : UInt64) : UInt8 :=
  if v.getReqMana (magLevel + 1) > v.getReqMana magLevel then
    getPercentLevel manaSpent (v.getReqMana (magLevel + 1))
  else 0

theorem open_ladder {v : Vocation} {which : Skills} {level : UInt16} :
    (v.ladder which).Open level ↔ v.req which level < v.req which (level + 1) :=
  UInt64.lt_iff_toNat_lt.symm

theorem open_manaLadder {v : Vocation} {level : UInt32} :
    v.manaLadder.Open level ↔ v.getReqMana level < v.getReqMana (level + 1) :=
  UInt64.lt_iff_toNat_lt.symm

end Vocation

open Vocation

/-! ## The loop over the levels of a skill -/

/-- The loop has read the two requirements at its level. -/
structure Rise.Reads (v : Vocation) (which : Skills) (r : Rise) : Prop where
  later : Later which v r.vocation
  curr : r.currReqTries = v.req which r.skill.level
  next : r.nextReqTries = v.req which (r.skill.level + 1)

theorem Rise.Reads.levelUp {v : Vocation} {which : Skills} {r : Rise} (h : r.Reads v which)
    (hsettled : v.Settled which (r.skill.level + 1 + 1)) :
    (r.levelUp which).Reads v which :=
  ⟨h.later.trans (Later.read _ _ _), h.next, (hsettled.later h.later).1⟩

/-- What the loop leaves: the level that is climbed to, with what is left. -/
theorem Rise.Reads.loop {v : Vocation} {which : Skills} {r : Rise} (h : r.Reads v which)
    (hlt : r.currReqTries < r.nextReqTries)
    (hsettled : ∀ k, (v.ladder which).Looked r.skill.level (r.skill.tries + r.count).toNat k →
      v.Settled which k) :
    let c := (v.ladder which).climb r.skill.level (r.skill.tries + r.count).toNat
    (r.loop which hlt).Reads v which ∧ (r.loop which hlt).skill.level = c.1 ∧
      ((r.loop which hlt).skill.tries + (r.loop which hlt).count).toNat = c.2 := by
  have hopen : (v.ladder which).Open r.skill.level := by
    rw [open_ladder, ← h.curr, ← h.next]
    exact hlt
  have hreq : (v.ladder which).req (r.skill.level + 1) = r.nextReqTries.toNat := by
    rw [h.next]
    rfl
  induction r, hlt using Rise.loop.induct which with
  | case1 r hlt hge r' hlt' ih =>
    have hle := UInt64.le_iff_toNat_le.mp hge
    have htotal : (r'.skill.tries + r'.count).toNat =
        (r.skill.tries + r.count).toNat - (v.ladder which).req (r.skill.level + 1) := by
      rw [Rise.levelUp_total, UInt64.toNat_sub_of_le _ _ hge, hreq]
    have hup : ∀ k, (v.ladder which).Looked r'.skill.level (r'.skill.tries + r'.count).toNat k →
        v.Settled which k := by
      intro k hk
      rw [htotal] at hk
      exact hsettled k (.up hopen (hreq ▸ hle) hk)
    have hreads := h.levelUp (hup _ (.next _ _))
    have hopen' : (v.ladder which).Open r'.skill.level := by
      rw [open_ladder, ← hreads.curr, ← hreads.next]
      exact hlt'
    have hreq' : (v.ladder which).req (r'.skill.level + 1) = r'.nextReqTries.toNat := by
      rw [hreads.next]
      rfl
    have hclimb : (v.ladder which).climb r.skill.level (r.skill.tries + r.count).toNat =
        (v.ladder which).climb r'.skill.level (r'.skill.tries + r'.count).toNat := by
      rw [Ladder.climb_up hopen (hreq ▸ hle) hopen', htotal]
      rfl
    rw [Rise.loop, dif_pos hge, dif_pos hlt', hclimb]
    exact ih hreads hup hopen' hreq'
  | case2 r hlt hge r' hlt' =>
    have hle := UInt64.le_iff_toNat_le.mp hge
    have htwo : v.Settled which (r.skill.level + 1 + 1) :=
      hsettled _ (.up hopen (hreq ▸ hle) (.next _ _))
    have hreads := h.levelUp htwo
    have hopen' : ¬(v.ladder which).Open r'.skill.level := by
      rw [open_ladder, ← hreads.curr, ← hreads.next]
      exact hlt'
    rw [Rise.loop, dif_pos hge, dif_neg hlt', Ladder.climb_top hopen (hreq ▸ hle) hopen']
    exact ⟨⟨hreads.later, hreads.curr, hreads.next⟩, rfl, rfl⟩
  | case3 r hlt hge =>
    have hstay : (r.skill.tries + r.count).toNat < (v.ladder which).req (r.skill.level + 1) := by
      rw [hreq]
      exact UInt64.lt_iff_toNat_lt.mp (UInt64.not_le.mp hge)
    rw [Rise.loop, dif_neg hge, Ladder.climb_stay hstay]
    exact ⟨h, rfl, rfl⟩

/-- The skill at a level, with its percentage. -/
def Vocation.reached (v : Vocation) (which : Skills) (c : UInt16 × Nat) : Skill :=
  ⟨.ofNat c.2, c.1, v.percent which c.1 (.ofNat c.2)⟩

theorem Rise.Reads.done {v : Vocation} {which : Skills} {r : Rise} (h : r.Reads v which) :
    r.done = v.reached which (r.skill.level, (r.skill.tries + r.count).toNat) := by
  rw [Rise.done, reached, percent, UInt64.ofNat_toNat, h.curr, h.next]

namespace Player

/-- The requirements that the climb looks at are settled. -/
def SettledClimb (p : Player) (which : Skills) (count : UInt64) : Prop :=
  ∀ k, (p.vocation.ladder which).Looked (p.skills which).level
    ((p.skills which).tries + count).toNat k → p.vocation.Settled which k

/-- The two readings before the loop, in any vocation that has read on from `v`. -/
theorem rise_reads {v : Vocation} {p : Player} {which : Skills}
    (hlater : Later which v p.vocation) (count : UInt64) (hhere : v.Settled which (p.skills which).level)
    (hnext : v.Settled which ((p.skills which).level + 1)) :
    (p.rise which count).Reads v which := by
  have hread := hlater.trans (Later.read p.vocation which (p.skills which).level)
  exact ⟨hread.trans (Later.read _ _ _), (hhere.later hlater).1, (hnext.later hread).1⟩

/-- What `addSkillAdvance` does: below the top it climbs. The requirements may have been
read before, as long as they are settled. -/
theorem addSkillAdvance_spec {v : Vocation} {p : Player} {which : Skills} {count : UInt64}
    (hlater : Later which v p.vocation)
    (hsettled : ∀ k, (v.ladder which).Looked (p.skills which).level
      ((p.skills which).tries + count).toNat k → v.Settled which k) :
    ∃ v', Later which v v' ∧ p.addSkillAdvance which count =
      if (v.ladder which).Open (p.skills which).level ∧ count ≠ 0
      then p.setSkill which (v.reached which ((v.ladder which).climb (p.skills which).level
        ((p.skills which).tries + count).toNat)) v'
      else { p with vocation := v' } := by
  have hreads := rise_reads hlater count (hsettled _ (.here _ _)) (hsettled _ (.next _ _))
  have hopen : (p.rise which count).currReqTries < (p.rise which count).nextReqTries ↔
      (v.ladder which).Open (p.skills which).level := by
    rw [open_ladder, hreads.curr, hreads.next]
    rfl
  rw [addSkillAdvance]
  by_cases hlt : (p.rise which count).currReqTries < (p.rise which count).nextReqTries
  · by_cases hzero : count = 0
    · refine ⟨_, hreads.later, ?_⟩
      simp [hzero]
    · obtain ⟨hloop, hlevel, hleft⟩ := hreads.loop hlt hsettled
      refine ⟨_, hloop.later, ?_⟩
      rw [dif_pos hlt, if_neg hzero, if_pos ⟨hopen.mp hlt, hzero⟩]
      show p.setSkill which ((p.rise which count).loop which hlt).done _ = _
      rw [hloop.done, hlevel, hleft]
      rfl
  · refine ⟨_, hreads.later, ?_⟩
    rw [dif_neg hlt, if_neg fun hboth => hlt (hopen.mpr hboth.1)]

end Player

/-! ## The loop over the magic levels -/

/-- What the loop leaves: the magic level that is climbed to, with what is left. -/
structure ManaRise.Ends (v : Vocation) (c : UInt32 × Nat) (r : ManaRise) : Prop where
  magLevel : r.magLevel = c.1
  curr : r.currReqMana = v.getReqMana c.1
  next : r.nextReqMana = v.getReqMana (c.1 + 1)
  left : r.manaSpent + (if v.manaLadder.Open c.1 then r.amount else 0) = .ofNat c.2

theorem ManaRise.loop_spec {v : Vocation} {r : ManaRise} (hlt : r.currReqMana < r.nextReqMana)
    (hcurr : r.currReqMana = v.getReqMana r.magLevel)
    (hnext : r.nextReqMana = v.getReqMana (r.magLevel + 1)) :
    ∃ r', r.loop v hlt =
        (r', !v.manaLadder.Open (v.manaLadder.climb r.magLevel (r.manaSpent + r.amount).toNat).1) ∧
      r'.Ends v (v.manaLadder.climb r.magLevel (r.manaSpent + r.amount).toNat) := by
  have hopen : v.manaLadder.Open r.magLevel := by
    rw [open_manaLadder, ← hcurr, ← hnext]
    exact hlt
  have hreq : v.manaLadder.req (r.magLevel + 1) = r.nextReqMana.toNat := by
    rw [hnext]
    rfl
  induction r, hlt using ManaRise.loop.induct v with
  | case1 r hlt hge r' hlt' ih =>
    have hle := UInt64.le_iff_toNat_le.mp hge
    have htotal : (r'.manaSpent + r'.amount).toNat =
        (r.manaSpent + r.amount).toNat - v.manaLadder.req (r.magLevel + 1) := by
      rw [ManaRise.levelUp_total, UInt64.toNat_sub_of_le _ _ hge, hreq]
    have hnext' : r.nextReqMana = v.getReqMana r'.magLevel := hnext
    have hopen' : v.manaLadder.Open r'.magLevel := by
      rw [open_manaLadder, ← hnext']
      exact hlt'
    have hclimb : v.manaLadder.climb r.magLevel (r.manaSpent + r.amount).toNat =
        v.manaLadder.climb r'.magLevel (r'.manaSpent + r'.amount).toNat := by
      rw [Ladder.climb_up hopen (hreq ▸ hle) hopen', htotal]
      rfl
    rw [ManaRise.loop, dif_pos hge, dif_pos hlt', hclimb]
    exact ih hnext rfl hopen' rfl
  | case2 r hlt hge r' hlt' =>
    have hle := UInt64.le_iff_toNat_le.mp hge
    have hnext' : r.nextReqMana = v.getReqMana r'.magLevel := hnext
    have hopen' : ¬v.manaLadder.Open r'.magLevel := by
      rw [open_manaLadder, ← hnext']
      exact hlt'
    rw [ManaRise.loop, dif_pos hge, dif_neg hlt', Ladder.climb_top hopen (hreq ▸ hle) hopen']
    refine ⟨r', ?_, rfl, hnext, rfl, ?_⟩
    · rw [decide_eq_false (by exact hopen')]
      rfl
    · rw [if_neg (by exact hopen')]
      rfl
  | case3 r hlt hge =>
    have hstay : (r.manaSpent + r.amount).toNat < v.manaLadder.req (r.magLevel + 1) := by
      rw [hreq]
      exact UInt64.lt_iff_toNat_lt.mp (UInt64.not_le.mp hge)
    rw [ManaRise.loop, dif_neg hge, Ladder.climb_stay hstay]
    refine ⟨r, ?_, rfl, hcurr, hnext, ?_⟩
    · simp [hopen]
    · rw [if_pos (by exact hopen), UInt64.ofNat_toNat]

namespace Player

/-- The climb of the magic level with this mana on top of what was spent. -/
def manaClimb (p : Player) (amount : UInt64) : UInt32 × Nat :=
  p.vocation.manaLadder.climb p.magLevel (p.manaSpent + amount).toNat

/-- The player at a magic level. -/
def setMana (p : Player) (c : UInt32 × Nat) (percent : UInt8) : Player :=
  { p with magLevel := c.1, manaSpent := .ofNat c.2, magLevelPercent := percent }

theorem open_manaRise {p : Player} {amount : UInt64} :
    (p.manaRise amount).currReqMana < (p.manaRise amount).nextReqMana ↔
      p.vocation.manaLadder.Open p.magLevel :=
  open_manaLadder.symm

/-- What `addManaSpent` does: below the top it climbs, but at the top the percentage
stays. -/
theorem addManaSpent_spec (p : Player) (amount : UInt64) :
    p.addManaSpent amount =
      if p.notGainMana = false ∧ p.vocation.manaLadder.Open p.magLevel ∧ amount ≠ 0 then
        p.setMana (p.manaClimb amount)
          (if p.vocation.manaLadder.Open (p.manaClimb amount).1 then
            p.vocation.manaPercent (p.manaClimb amount).1 (.ofNat (p.manaClimb amount).2)
          else p.magLevelPercent)
      else p := by
  rw [addManaSpent]
  by_cases hflag : p.notGainMana = true
  · simp [hflag]
  · rw [if_neg hflag]
    by_cases hlt : (p.manaRise amount).currReqMana < (p.manaRise amount).nextReqMana
    · by_cases hzero : amount = 0
      · simp [hzero]
      · obtain ⟨r, hloop, hend⟩ :=
          ManaRise.loop_spec (v := p.vocation) (r := p.manaRise amount) hlt rfl rfl
        change r.Ends p.vocation (p.manaClimb amount) at hend
        change _ = (r, !decide (p.vocation.manaLadder.Open (p.manaClimb amount).1)) at hloop
        have hleft := hend.left
        rw [dif_pos hlt, if_neg hzero,
          if_pos ⟨Bool.eq_false_iff.mpr hflag, open_manaRise.mp hlt, hzero⟩, hloop]
        by_cases hopen : p.vocation.manaLadder.Open (p.manaClimb amount).1
        · rw [if_pos hopen] at hleft
          simp only [hopen, decide_true, Bool.not_true, if_true]
          rw [setMana, manaPercent, hleft, hend.magLevel, hend.curr, hend.next]
        · rw [if_neg hopen, UInt64.add_zero] at hleft
          simp only [hopen, decide_false, Bool.not_false, if_false]
          rw [setMana, hleft, hend.magLevel]
    · rw [dif_neg hlt, if_neg fun hall => hlt (open_manaRise.mpr hall.2.1)]

end Player

end Infernum.Advance
