import Infernum.Decay.Places

/-!
# Decay on time

The timers of the game bring an item to its bucket, and around the buckets until its time
is up.
-/

namespace Infernum.Decay

open ItemDecayState

variable {types : Nat → ItemType}

/-! ## What a visit does to the duration -/

theorem toInt32_of_lt {n : Nat} (h : n < 2147483648) : toInt32 n = n := if_pos h

theorem toInt32_neg {n : Nat} (h : 2147483648 ≤ n) (hlt : n < 4294967296) : toInt32 n < 0 := by
  rw [toInt32, if_neg (Nat.not_lt.mpr h)]
  omega

namespace Item

theorem getDuration_lt (item : Item) : item.getDuration < 4294967296 := by
  rw [getDuration]
  omega

theorem getDuration_decreaseDuration {item : Item} {time : Nat} (h : time ≤ item.getDuration) :
    (item.decreaseDuration time).getDuration = item.getDuration - time := by
  simp only [getDuration, decreaseDuration, Option.getD_some] at h ⊢
  omega

end Item

namespace World

variable {env : Env} {w w' : World} {x : Nat} {item : Item} {bucket : Nat}

/-- A full cycle, in the source's words. -/
theorem cycle_eq : (EVENT_DECAYINTERVAL * EVENT_DECAY_BUCKETS : Int) = 1000 := rfl

theorem newBucket_eq (bucket duration : Nat) :
    (bucket + (duration + EVENT_DECAYINTERVAL / 2) / 1000) % EVENT_DECAY_BUCKETS =
      (bucket + (duration + 125) / 1000) % 4 := rfl

theorem visit_decayed (hcan : item.canDecay types = true) (hbucket : bucket < 4)
    (h : item.getDuration < 1875 ∨ 2147483648 ≤ item.getDuration) :
    (visit types bucket item).2 = .decayed := by
  have hduration : toInt32 item.getDuration < 1875 := by
    rcases h with h | h
    · rw [toInt32_of_lt (by omega)]
      omega
    · have hneg := toInt32_neg h item.getDuration_lt
      omega
  rw [visit, hcan, Bool.not_true, if_neg Bool.false_ne_true]
  generalize toInt32 item.getDuration = d at hduration
  dsimp only
  rw [newBucket_eq]
  generalize hcycle : (EVENT_DECAYINTERVAL * EVENT_DECAY_BUCKETS : Int) = cycle
  rw [cycle_eq] at hcycle
  by_cases hzero : d - min cycle d ≤ 0
  · rw [if_pos hzero]
  · rw [if_neg hzero, if_pos (by omega), if_pos (by omega)]

theorem visit_moved (bucket : Nat) (hcan : item.canDecay types = true)
    (h : 1875 ≤ item.getDuration) (hlt : item.getDuration < 2000) :
    visit types bucket item = (item.decreaseDuration 1000, .moved ((bucket + 1) % 4)) := by
  rw [visit, hcan, Bool.not_true, if_neg Bool.false_ne_true, toInt32_of_lt (by omega)]
  generalize item.getDuration = d at h hlt
  dsimp only
  rw [newBucket_eq]
  generalize hcycle : (EVENT_DECAYINTERVAL * EVENT_DECAY_BUCKETS : Int) = cycle
  rw [cycle_eq] at hcycle
  have hmin : min cycle (d : Int) = 1000 := by omega
  have hone : (((d : Int) - 1000).toNat + 125) / 1000 = 1 := by omega
  rw [hmin, hone, if_neg (by omega), if_pos (by omega), if_neg (by omega)]

theorem visit_kept (bucket : Nat) (hcan : item.canDecay types = true)
    (h : 2000 ≤ item.getDuration) (hlt : item.getDuration < 2147483648) :
    visit types bucket item = (item.decreaseDuration 1000, .kept) := by
  rw [visit, hcan, Bool.not_true, if_neg Bool.false_ne_true, toInt32_of_lt hlt]
  generalize item.getDuration = d at h
  dsimp only
  generalize hcycle : (EVENT_DECAYINTERVAL * EVENT_DECAY_BUCKETS : Int) = cycle
  rw [cycle_eq] at hcycle
  have hmin : min cycle (d : Int) = 1000 := by omega
  rw [hmin, if_neg (by omega), if_neg (by omega)]

/-! ## One tick -/

variable {fuel : Nat} {calls : List Nat}

theorem checkDecay_eq (hrun : checkDecay types env fuel w = some (w', calls)) :
    ∃ w₁, checkBucket types env fuel ((w.lastBucket + 1) % 4)
        (w.decayItems ((w.lastBucket + 1) % 4)) [] w = some (w₁, calls) ∧
      w' = cleanup { w₁ with lastBucket := (w.lastBucket + 1) % 4 } := by
  obtain ⟨⟨w₁, calls₁⟩, hloop, hlast⟩ := Option.bind_eq_some_iff.mp hrun
  obtain ⟨rfl, rfl⟩ := Prod.mk.inj (Option.some.inj hlast)
  exact ⟨w₁, hloop, rfl⟩

/-- An item that waits gets its bucket after the tick. -/
theorem tick_waits (h : w.Waits x item)
    (hrun : checkDecay types env fuel w = some (w', calls)) :
    x ∉ calls ∧ w'.lastBucket = (w.lastBucket + 1) % 4 ∧
      w'.InBucket x item (entryBucket ((w.lastBucket + 1) % 4) item.getDuration) := by
  obtain ⟨w₁, hloop, rfl⟩ := checkDecay_eq hrun
  have hout : x ∉ w.decayItems ((w.lastBucket + 1) % 4) := List.count_eq_zero.mp (h.decayItems _)
  obtain ⟨hitems, hnext, _, hwait, hothers, hown⟩ := checkBucket_others hloop hout h.next
  have hwaits : World.Waits { w₁ with lastBucket := (w.lastBucket + 1) % 4 } x item := by
    refine ⟨hitems.trans h.items, Nat.lt_of_lt_of_le h.next hnext,
      hwait.trans h.toDecayItems, fun b => ?_⟩
    by_cases hb : b = (w.lastBucket + 1) % 4
    · rw [hb]
      exact hown
    · exact (hothers b hb).trans (h.decayItems b)
  obtain ⟨hin, hlast⟩ := inBucket_cleanup_of_waits hwaits
  exact ⟨fun hmem => hout ((calls_sublist hloop).subset hmem), hlast, hin⟩

/-- The tick comes to another bucket. -/
theorem tick_others (h : w.InBucket x item bucket) (hne : bucket ≠ (w.lastBucket + 1) % 4)
    (hrun : checkDecay types env fuel w = some (w', calls)) :
    x ∉ calls ∧ w'.lastBucket = (w.lastBucket + 1) % 4 ∧ w'.InBucket x item bucket := by
  obtain ⟨w₁, hloop, rfl⟩ := checkDecay_eq hrun
  have hout : x ∉ w.decayItems ((w.lastBucket + 1) % 4) :=
    List.count_eq_zero.mp ((h.decayItems _).trans (if_neg (Ne.symm hne)))
  obtain ⟨hitems, hnext, _, hwait, hothers, hown⟩ := checkBucket_others hloop hout h.next
  have hstill : World.InBucket { w₁ with lastBucket := (w.lastBucket + 1) % 4 } x item bucket := by
    refine ⟨hitems.trans h.items, Nat.lt_of_lt_of_le h.next hnext,
      hwait.trans h.toDecayItems, fun b => ?_⟩
    by_cases hb : b = (w.lastBucket + 1) % 4
    · rw [hb, if_neg (Ne.symm hne)]
      exact hown
    · exact (hothers b hb).trans (h.decayItems b)
  obtain ⟨hin, hlast⟩ := inBucket_cleanup hstill
  exact ⟨fun hmem => hout ((calls_sublist hloop).subset hmem), hlast, hin⟩

/-- The tick comes to the item's bucket. -/
theorem tick_own (h : w.InBucket x item ((w.lastBucket + 1) % 4))
    (hrun : checkDecay types env fuel w = some (w', calls)) :
    ((visit types ((w.lastBucket + 1) % 4) item).2 = .decayed → calls.count x = 1) ∧
      ∀ newBucket, ((visit types ((w.lastBucket + 1) % 4) item).2 = .moved newBucket ∨
          (visit types ((w.lastBucket + 1) % 4) item).2 = .kept ∧
            newBucket = (w.lastBucket + 1) % 4) →
        x ∉ calls ∧ w'.lastBucket = (w.lastBucket + 1) % 4 ∧
          w'.InBucket x (visit types ((w.lastBucket + 1) % 4) item).1 newBucket := by
  obtain ⟨w₁, hloop, rfl⟩ := checkDecay_eq hrun
  obtain ⟨_, hdecayed, hmoved, hkept⟩ := checkBucket_own hloop h.items h.next h.toDecayItems
    (fun b hb => (h.decayItems b).trans (if_neg hb)) List.count_nil
    ((h.decayItems _).trans (if_pos rfl))
  refine ⟨hdecayed, fun newBucket hv => ?_⟩
  have hstay : x ∉ calls ∧
      w₁.InBucket x (visit types ((w.lastBucket + 1) % 4) item).1 newBucket := by
    rcases hv with hv | ⟨hv, heq⟩
    · exact hmoved newBucket hv
    · exact heq ▸ hkept hv
  obtain ⟨hout, hin⟩ := hstay
  have hin' : World.InBucket { w₁ with lastBucket := (w.lastBucket + 1) % 4 } x
      (visit types ((w.lastBucket + 1) % 4) item).1 newBucket :=
    ⟨hin.items, hin.next, hin.toDecayItems, hin.decayItems⟩
  obtain ⟨hclean, hlast⟩ := inBucket_cleanup hin'
  exact ⟨hout, hlast, hclean⟩

/-! ## Runs -/

/-- What happens between the ticks leaves the item alone, apart from `cleanup`; the flag
says whether that ran. -/
inductive Between (x : Nat) : Bool → World → World → Prop
  | refl (w : World) : Between x false w w
  | other {c : Bool} {w w₁ w₂ : World} :
      Between x c w w₁ → Undisturbed x w₁ w₂ → Between x c w w₂
  | cleanup {c : Bool} {w w₁ : World} : Between x c w w₁ → Between x true w w₁.cleanup

theorem Between.inBucket {c : Bool} (hbetween : Between x c w w') (h : w.InBucket x item bucket) :
    w'.InBucket x item bucket ∧ w'.lastBucket = w.lastBucket := by
  induction hbetween with
  | refl w => exact ⟨h, rfl⟩
  | other _ hsame ih =>
      obtain ⟨hin, hlast⟩ := ih h
      exact ⟨hsame.inBucket hin, hsame.lastBucket.trans hlast⟩
  | cleanup _ ih =>
      obtain ⟨hin, hlast⟩ := ih h
      obtain ⟨hclean, hlast'⟩ := inBucket_cleanup hin
      exact ⟨hclean, hlast'.trans hlast⟩

/-- The first `cleanup` decides about the bucket. -/
theorem Between.waits {c : Bool} (hbetween : Between x c w w') (h : w.Waits x item) :
    w'.lastBucket = w.lastBucket ∧
      if c then w'.InBucket x item (entryBucket w.lastBucket item.getDuration)
      else w'.Waits x item := by
  induction hbetween with
  | refl w => exact ⟨rfl, h⟩
  | @other c w w₁ w₂ _ hsame ih =>
      obtain ⟨hlast, hplace⟩ := ih h
      refine ⟨hsame.lastBucket.trans hlast, ?_⟩
      cases c with
      | true => exact hsame.inBucket hplace
      | false => exact hsame.waits hplace
  | @cleanup c w w₁ _ ih =>
      obtain ⟨hlast, hplace⟩ := ih h
      cases c with
      | true =>
          obtain ⟨hin, hlast'⟩ := inBucket_cleanup hplace
          exact ⟨hlast'.trans hlast, hin⟩
      | false =>
          obtain ⟨hin, hlast'⟩ := inBucket_cleanup_of_waits hplace
          exact ⟨hlast'.trans hlast, hlast ▸ hin⟩

/-- `startDecay` for an item, and the ticks from then on. The item is left alone until it
decays. -/
structure Timeline (types : Nat → ItemType) (w : World) (x : Nat) (cleaned : Bool) where
  env : Nat → Env
  fuel : Nat → Nat
  before : Nat → World
  after : Nat → World
  /-- The items that `internalDecayItem` is called for. -/
  calls : Nat → List Nat
  start : ∃ env fuel w', startDecay types env fuel w (some x) = some w' ∧
    Between x cleaned w' (before 0)
  tick : ∀ k, checkDecay types (env k) (fuel k) (before k) = some (after k, calls k)
  between : ∀ k, (∀ j ≤ k, x ∉ calls j) → ∃ c, Between x c (after k) (before (k + 1))

namespace Timeline

variable {cleaned : Bool} (t : Timeline types w x cleaned)

/-- Nobody has called for the item before this tick. -/
def Quiet (k : Nat) : Prop := ∀ j < k, x ∉ t.calls j

theorem quiet_succ {k : Nat} (h : t.Quiet k) (hout : x ∉ t.calls k) : t.Quiet (k + 1) := by
  intro j hj
  by_cases heq : j = k
  · exact heq ▸ hout
  · exact h j (by omega)

/-- A tick that leaves the item in a bucket, and the time after it. -/
theorem next {k : Nat} (hquiet : t.Quiet k) (hout : x ∉ t.calls k)
    (hin : (t.after k).InBucket x item bucket) :
    t.Quiet (k + 1) ∧ (t.before (k + 1)).InBucket x item bucket ∧
      (t.before (k + 1)).lastBucket = (t.after k).lastBucket := by
  have hnext := t.quiet_succ hquiet hout
  obtain ⟨c, hbetween⟩ := t.between k fun j hj => hnext j (by omega)
  exact ⟨hnext, hbetween.inBucket hin⟩

/-- The item waits for its bucket to come round. -/
theorem rest {k : Nat} (hquiet : t.Quiet k) (hin : (t.before k).InBucket x item bucket)
    (hne : bucket ≠ ((t.before k).lastBucket + 1) % 4) :
    t.Quiet (k + 1) ∧ (t.before (k + 1)).InBucket x item bucket ∧
      (t.before (k + 1)).lastBucket = ((t.before k).lastBucket + 1) % 4 := by
  obtain ⟨hout, hlast, hafter⟩ := tick_others hin hne (t.tick k)
  obtain ⟨hquiet', hin', hlast'⟩ := t.next hquiet hout hafter
  exact ⟨hquiet', hin', hlast'.trans hlast⟩

/-- An item in the bucket that was visited last is visited in the fourth tick. -/
theorem round {k : Nat} (hquiet : t.Quiet k) (hlt : (t.before k).lastBucket < 4)
    (hin : (t.before k).InBucket x item (t.before k).lastBucket) :
    t.Quiet (k + 3) ∧ (t.before (k + 3)).InBucket x item (((t.before (k + 3)).lastBucket + 1) % 4) := by
  obtain ⟨hquiet₁, hin₁, hlast₁⟩ := t.rest hquiet hin (by omega)
  obtain ⟨hquiet₂, hin₂, hlast₂⟩ := t.rest hquiet₁ hin₁ (by omega)
  obtain ⟨hquiet₃, hin₃, hlast₃⟩ := t.rest hquiet₂ hin₂ (by omega)
  have heq : ((t.before (k + 3)).lastBucket + 1) % 4 = (t.before k).lastBucket := by
    rw [show k + 3 = k + 1 + 1 + 1 from rfl, hlast₃, hlast₂, hlast₁]
    omega
  rw [heq]
  exact ⟨hquiet₃, hin₃⟩

end Timeline

/-- How many ticks after its first visit an item decays. -/
def ticksLeft (duration : Nat) : Nat :=
  if duration < 1000 ∨ 2147483648 ≤ duration then 0
  else 4 * (duration / 1000 - 1) + if 875 ≤ duration % 1000 then 1 else 0

theorem ticksLeft_cycle {duration : Nat} (h : 2000 ≤ duration) (hlt : duration < 2147483648) :
    ticksLeft duration = ticksLeft (duration - 1000) + 4 := by
  have hlong : ¬(duration < 1000 ∨ 2147483648 ≤ duration) := by omega
  have hlong' : ¬(duration - 1000 < 1000 ∨ 2147483648 ≤ duration - 1000) := by omega
  have hmod : (duration - 1000) % 1000 = duration % 1000 := by omega
  rw [ticksLeft, ticksLeft, if_neg hlong, if_neg hlong', hmod]
  omega

/-- Visited with this duration, the item decays in this tick and in none before. -/
theorem Timeline.decays {cleaned : Bool} (t : Timeline types w x cleaned) (duration : Nat) :
    ∀ k item, item.getDuration = duration → item.canDecay types = true → t.Quiet k →
      (t.before k).InBucket x item (((t.before k).lastBucket + 1) % 4) →
      (t.calls (k + ticksLeft duration)).count x = 1 ∧ t.Quiet (k + ticksLeft duration) := by
  induction duration using Nat.strongRecOn with
  | ind duration ih =>
      intro k item hduration hcan hquiet hin
      have hbucket : ((t.before k).lastBucket + 1) % 4 < 4 := Nat.mod_lt _ (by decide)
      obtain ⟨hdecayed, hstay⟩ := tick_own hin (t.tick k)
      by_cases hnow : duration < 1875 ∨ 2147483648 ≤ duration
      · -- its time is up, or nearly so
        have hleft : ticksLeft duration = 0 := by
          rw [ticksLeft]
          split
          · rfl
          · rw [if_neg (by omega)]
            omega
        rw [hleft, Nat.add_zero]
        exact ⟨hdecayed (visit_decayed hcan hbucket (hduration ▸ hnow)), hquiet⟩
      · have hless : (item.decreaseDuration 1000).getDuration = duration - 1000 := by
          have hlong : 1000 ≤ item.getDuration := by omega
          rw [← hduration]
          exact Item.getDuration_decreaseDuration hlong
        by_cases hsoon : duration < 2000
        · -- it goes to the next bucket for the rest of its time
          have hvisit := visit_moved (((t.before k).lastBucket + 1) % 4) hcan
            (by omega : 1875 ≤ item.getDuration) (by omega)
          rw [hvisit] at hstay
          obtain ⟨hout, hlast, hafter⟩ := hstay _ (.inl rfl)
          obtain ⟨hquiet', hin', hlast'⟩ := t.next hquiet hout hafter
          have hnext := ih (duration - 1000) (by omega) (k + 1) _ hless hcan hquiet' (by
            rw [hlast', hlast]
            exact hin')
          have hleft : ticksLeft (duration - 1000) = 0 ∧ ticksLeft duration = 1 := by
            refine ⟨if_pos (by omega), ?_⟩
            rw [ticksLeft, if_neg (by omega), if_pos (by omega)]
            omega
          rw [hleft.1] at hnext
          rw [hleft.2]
          exact hnext
        · -- it stays for another cycle
          have hvisit := visit_kept (((t.before k).lastBucket + 1) % 4) hcan
            (by omega : 2000 ≤ item.getDuration) (by omega)
          rw [hvisit] at hstay
          obtain ⟨hout, hlast, hafter⟩ := hstay _ (.inr ⟨rfl, rfl⟩)
          obtain ⟨hquiet', hin', hlast'⟩ := t.next hquiet hout hafter
          rw [← hlast, ← hlast'] at hin'
          obtain ⟨hquiet₄, hin₄⟩ := t.round hquiet' (by rw [hlast', hlast]; exact hbucket) hin'
          have hnext := ih (duration - 1000) (by omega) (k + 1 + 3) _ hless hcan hquiet₄ hin₄
          have hcycle : ticksLeft duration = ticksLeft (duration - 1000) + 4 :=
            ticksLeft_cycle (by omega) (by omega)
          have hleft : k + 1 + 3 + ticksLeft (duration - 1000) = k + ticksLeft duration := by
            omega
          rw [hleft] at hnext
          exact hnext

/-! ## From `startDecay` to the end -/

/-- The tick in which an item decays. -/
def decayTick (cleaned : Bool) (duration : Nat) : Nat :=
  (if cleaned then 0 else 1) + (if duration < 1000 then 0 else 3) + ticksLeft duration

/-- An item that `startDecay` accepts, and that is in none of the lists. -/
structure Accepted (types : Nat → ItemType) (w : World) (x : Nat) (item : Item) : Prop where
  items : w.items x = some item
  next : x < w.next
  lastBucket : w.lastBucket < 4
  canDecay : item.canDecay types = true
  getDecaying : item.getDecaying ≠ .DECAYING_TRUE
  getDuration : 0 < item.getDuration
  toDecayItems : x ∉ w.toDecayItems
  decayItems : ∀ b, x ∉ w.decayItems b

theorem entryBucket_short (lastBucket : Nat) {dur : Nat} (h : dur < 1000) :
    entryBucket lastBucket dur = (lastBucket + 1) % 4 := by
  have hzero : dur / 1000 = 0 := Nat.div_eq_of_lt h
  rw [entryBucket, if_neg (show ¬dur ≥ EVENT_DECAYINTERVAL * EVENT_DECAY_BUCKETS from
    Nat.not_le.mpr h), hzero]
  rfl

theorem entryBucket_long (lastBucket : Nat) {dur : Nat} (h : 1000 ≤ dur) :
    entryBucket lastBucket dur = lastBucket := if_pos h

theorem Timeline.calls_decayTick {cleaned : Bool} (t : Timeline types w x cleaned)
    (h : Accepted types w x item) :
    (t.calls (decayTick cleaned item.getDuration)).count x = 1 ∧
      t.Quiet (decayTick cleaned item.getDuration) := by
  obtain ⟨env, fuel, w', hrun, hbetween⟩ := t.start
  obtain ⟨hwaits, hlast⟩ := waits_startDecay h.items h.next h.canDecay h.getDecaying h.getDuration
    h.toDecayItems h.decayItems hrun
  obtain ⟨hlast', hplace⟩ := hbetween.waits hwaits
  have hlt : (t.before 0).lastBucket < 4 := by
    rw [hlast', hlast]
    exact h.lastBucket
  rw [← hlast'] at hplace
  have hquiet : t.Quiet 0 := fun j hj => absurd hj (Nat.not_lt_zero j)
  have hcan : (item.setDecaying .DECAYING_TRUE).canDecay types = true := h.canDecay
  -- once it has a bucket, the item waits for it if it is the one visited last
  have hbucket : ∀ k, t.Quiet k → (t.before k).lastBucket < 4 → (t.before k).InBucket x
      (item.setDecaying .DECAYING_TRUE)
      (entryBucket (t.before k).lastBucket (item.setDecaying .DECAYING_TRUE).getDuration) →
      (t.calls (k + (if item.getDuration < 1000 then 0 else 3) +
          ticksLeft item.getDuration)).count x = 1 ∧
        t.Quiet (k + (if item.getDuration < 1000 then 0 else 3) + ticksLeft item.getDuration) := by
    intro k hquiet hlt hin
    by_cases hshort : item.getDuration < 1000
    · have hentry := entryBucket_short (t.before k).lastBucket hshort
      rw [if_pos hshort]
      exact t.decays item.getDuration k (item.setDecaying .DECAYING_TRUE) rfl hcan hquiet
        (hentry ▸ hin)
    · have hentry := entryBucket_long (t.before k).lastBucket (Nat.not_lt.mp hshort)
      obtain ⟨hquiet', hin'⟩ := t.round hquiet hlt (hentry ▸ hin)
      rw [if_neg hshort]
      exact t.decays item.getDuration (k + 3) (item.setDecaying .DECAYING_TRUE) rfl hcan hquiet'
        hin'
  cases cleaned with
  | true =>
      have hdone := hbucket 0 hquiet hlt hplace
      rw [decayTick]
      simpa using hdone
  | false =>
      obtain ⟨hout, hafter, hin⟩ := tick_waits hplace (t.tick 0)
      obtain ⟨hquiet', hin', hlast''⟩ := t.next hquiet hout hin
      rw [← hafter, ← hlast''] at hin'
      have hdone := hbucket 1 hquiet' (by rw [hlast'', hafter]; exact Nat.mod_lt _ (by decide)) hin'
      rw [decayTick]
      simpa using hdone

/-- When tick `k` is, if the first one comes `phase` ms after `startDecay`. -/
def tickTime (phase k : Nat) : Nat := phase + EVENT_DECAYINTERVAL * k

/-- `internalDecayItem` is called once, and not more than a cycle too early or too late. -/
def Timeline.OnTime {cleaned : Bool} (t : Timeline types w x cleaned) (phase duration : Nat) :
    Prop :=
  ∃ k, (t.calls k).count x = 1 ∧ t.Quiet k ∧
    tickTime phase k ≤ duration + EVENT_DECAYINTERVAL * EVENT_DECAY_BUCKETS ∧
    duration ≤ tickTime phase k + EVENT_DECAYINTERVAL * EVENT_DECAY_BUCKETS

/-- The duration fits a signed number, and is not cut short by more than a cycle: by what is
left of it after the last full cycle, which is less than 875 ms, and the time that had passed
since the last tick, if a `cleanup` comes before the next. -/
def InTime (cleaned : Bool) (phase duration : Nat) : Prop :=
  duration < 2147483648 ∧
    ¬(cleaned = true ∧ 1000 ≤ duration ∧ duration % 1000 < 875 ∧
      1000 < (EVENT_DECAYINTERVAL - phase) + duration % 1000)

theorem inTime_iff (cleaned : Bool) {phase : Nat} (hphase : phase ≤ EVENT_DECAYINTERVAL)
    {duration : Nat} (hduration : duration < 4294967296) :
    (tickTime phase (decayTick cleaned duration) ≤ duration + 1000 ∧
      duration ≤ tickTime phase (decayTick cleaned duration) + 1000) ↔
      InTime cleaned phase duration := by
  simp only [EVENT_DECAYINTERVAL] at hphase
  simp only [tickTime, InTime, EVENT_DECAYINTERVAL, decayTick, ticksLeft]
  by_cases hshort : duration < 1000
  · cases cleaned <;> simp [hshort] <;> omega
  · by_cases hbig : 2147483648 ≤ duration
    · cases cleaned <;> simp [hshort, hbig] <;> omega
    · by_cases hrest : 875 ≤ duration % 1000
      · cases cleaned <;> simp [hshort, hbig, hrest] <;> omega
      · cases cleaned <;> simp [hshort, hbig, hrest] <;> omega

theorem Timeline.onTime_iff_tick {cleaned : Bool} (t : Timeline types w x cleaned)
    (h : Accepted types w x item) (phase : Nat) :
    t.OnTime phase item.getDuration ↔
      tickTime phase (decayTick cleaned item.getDuration) ≤ item.getDuration + 1000 ∧
        item.getDuration ≤ tickTime phase (decayTick cleaned item.getDuration) + 1000 := by
  obtain ⟨hcount, hquiet⟩ := t.calls_decayTick h
  constructor
  · rintro ⟨k, hk, hquietk, htime⟩
    have heq : k = decayTick cleaned item.getDuration := by
      rcases Nat.lt_trichotomy k (decayTick cleaned item.getDuration) with hlt | heq | hgt
      · exact absurd (List.count_pos_iff.mp (hk ▸ Nat.one_pos)) (hquiet k hlt)
      · exact heq
      · exact absurd (List.count_pos_iff.mp (hcount ▸ Nat.one_pos)) (hquietk _ hgt)
    exact heq ▸ htime
  · exact fun htime => ⟨_, hcount, hquiet, htime⟩

/-- An item decays once and on time, if and only if its duration and the phase allow it. -/
theorem onTime_iff {cleaned : Bool} (t : Timeline types w x cleaned)
    (h : Accepted types w x item) {phase : Nat} (hphase : phase ≤ EVENT_DECAYINTERVAL) :
    t.OnTime phase item.getDuration ↔ InTime cleaned phase item.getDuration := by
  rw [t.onTime_iff_tick h, inTime_iff cleaned hphase item.getDuration_lt]

/-! ## An item on its own -/

/-- It burns out after two seconds. -/
def torch : ItemType := ⟨1, false, 0, false, false, 0, 2, false⟩

def nothing : Env := fun _ _ => ⟨1, false, true, true, true, true, true⟩

theorem checkBucket_returns (fuel bucket : Nat) (rest kept : List Nat) (w : World) :
    ∃ result, checkBucket (fun _ => torch) nothing fuel bucket rest kept w = some result := by
  induction rest generalizing kept w with
  | nil => exact ⟨_, rfl⟩
  | cons x rest ih =>
      rw [checkBucket]
      cases w.items x with
      | none => exact ih kept w
      | some item =>
          dsimp only
          cases visit (fun _ => torch) bucket item with
          | mk item' visited =>
              cases visited with
              | released => exact ih ..
              | moved newBucket => exact ih ..
              | kept => exact ih ..
              | decayed =>
                  obtain ⟨⟨w', calls⟩, hrest⟩ :=
                    ih kept ((w.set x item').internalRemoveItem (nothing x 0) x)
                  have hdecay : internalDecayItem (fun _ => torch) nothing
                      (startDecay (fun _ => torch) nothing fuel) (w.set x item') x =
                      some ((w.set x item').internalRemoveItem (nothing x 0) x) := by
                    rw [internalDecayItem, show (w.set x item').items x = some item' from
                      Function.update_self ..]
                    exact if_neg (not_not.mpr rfl)
                  exact ⟨(w', x :: calls), by simp [hdecay, hrest]⟩

/-- One tick after another, and nothing else. -/
def ticking (w : World) : Nat → World
  | 0 => w
  | k + 1 => ((checkDecay (fun _ => torch) nothing 0 (ticking w k)).map Prod.fst).getD w

theorem checkDecay_returns (w : World) :
    ∃ result, checkDecay (fun _ => torch) nothing 0 w = some result := by
  obtain ⟨⟨w₁, calls⟩, hloop⟩ := checkBucket_returns 0 ((w.lastBucket + 1) % 4)
    (w.decayItems ((w.lastBucket + 1) % 4)) [] w
  exact ⟨_, Option.bind_eq_some_iff.mpr ⟨_, hloop, rfl⟩⟩

def burning (duration : Int) : Item := ⟨1, some duration, none, false, false⟩

/-- A torch is kindled, and a creature walks before the next tick. -/
def kindled (duration : Int) : World :=
  { (initial.new (burning duration)).set 0 ((burning duration).setDecaying .DECAYING_TRUE) with
    toDecayItems := [0] }

def burningTorch (duration : Int) (hduration : 0 < (burning duration).getDuration) :
    Timeline (fun _ => torch) (initial.new (burning duration)) 0 true where
  env _ := nothing
  fuel _ := 0
  before := ticking (kindled duration).cleanup
  after k := ticking (kindled duration).cleanup (k + 1)
  calls k := ((checkDecay (fun _ => torch) nothing 0
    (ticking (kindled duration).cleanup k)).map Prod.snd).getD []
  start := by
    refine ⟨nothing, 1, kindled duration, ?_, .cleanup (.refl _)⟩
    show (if 0 < (burning duration).getDuration then _ else _) = _
    rw [if_pos hduration]
    rfl
  tick k := by
    obtain ⟨⟨w', calls⟩, hrun⟩ := checkDecay_returns (ticking (kindled duration).cleanup k)
    rw [ticking, hrun]
    rfl
  between k _ := ⟨false, .refl _⟩

theorem accepted_torch {duration : Int} (hduration : 0 < (burning duration).getDuration) :
    Accepted (fun _ => torch) (initial.new (burning duration)) 0 (burning duration) where
  items := rfl
  next := Nat.one_pos
  lastBucket := Nat.succ_pos 3
  canDecay := rfl
  getDecaying := nofun
  getDuration := hduration
  toDecayItems := List.not_mem_nil
  decayItems _ := List.not_mem_nil

theorem onTime_torch : (burningTorch 1500 (by decide)).OnTime 250 1500 :=
  (onTime_iff (burningTorch 1500 (by decide)) (accepted_torch (by decide)) (Nat.le_refl 250)).mpr
    ⟨by decide, by decide⟩

/-- 1874 ms that begin 249 ms after a tick, before a `cleanup`, are over after 751. -/
theorem cut_short : ¬∀ types w x cleaned (t : Timeline types w x cleaned) item phase,
    Accepted types w x item → phase ≤ EVENT_DECAYINTERVAL → t.OnTime phase item.getDuration := by
  intro h
  have hduration : 0 < (burning 1874).getDuration := by decide
  have hontime := h _ _ _ _ (burningTorch 1874 hduration) (burning 1874) 1
    (accepted_torch hduration) (by decide)
  rw [Timeline.onTime_iff_tick _ (accepted_torch hduration)] at hontime
  exact absurd hontime (by decide)

end World

end Infernum.Decay
