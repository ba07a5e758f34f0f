import Infernum.Condition.Runs

/-!
# Attributes, defence and the history of conditions

What a player's conditions have added to the variables is what the conditions in the
list say. The flag for the defence is one boolean for all conditions: it is right
as long as every call finds no other condition that it would contradict. Every
condition starts once and ends when it leaves the list.
-/

namespace Infernum

open Equip (Skill SpecialSkill Stat Var)
open Condition

/-- What the call makes of `canUseDefense` is right for the list that it leaves. -/
def DefenseCall.right : DefenseCall → Bool
  | .started disables others => disables || !others
  | .ended disables others => !disables || !others
  | .changed disabled disables others =>
      (!disabled || (!disables && !others)) && (disabled || !disables || others)

namespace Creature

variable {allowed : Nat → ConditionType → Prop} {s s' : Creature}

/-! ## Attributes -/

/-- The conditions of attributes in the list. -/
def attributes (s : Creature) : List ConditionAttributes :=
  s.conditions.filterMap fun r => (s.condition r).data.asAttributes

/-- Nothing in the variables is unaccounted for. -/
theorem unbooked_eq_zero (h : system.Reachable s) (v : Var) : s.unbooked v = 0 := by
  have hinductive : system.Inductive (fun _ _ => True) fun s => s.Inv ∧ ∀ v, s.unbooked v = 0 := by
    refine inductive_of_moves ?_ ?_ ?_
    · rintro s ⟨hconditions, _, _, _, _, hothers⟩ v
      rw [unbooked, booked, hconditions, hothers]
      show _ - _ - (0 : BitVec 32) = 0
      rw [sub_self, sub_zero]
    · intro s op t fuel hinv hzero _ _ hmoves v
      rw [hmoves.kept.unbooked v, hzero v]
    · intro s v delta hzero v'
      rw [changeOthers_unbooked, hzero v']
  exact (hinductive.invariant h).2 v

/-- What is booked is a sum over the conditions of a class that contribute. -/
theorem booked_filterMap {α : Type} {v : Var} {g : ConditionData → Option α} {f : α → BitVec 32}
    (hf : ∀ c, contribution s.isPlayer c v =
      match g c.data with
      | some a => f a
      | none => 0) :
    s.booked v = ((s.conditions.filterMap fun r => g (s.condition r).data).map f).sum := by
  unfold booked
  induction s.conditions with
  | nil => rfl
  | cons r rest ih =>
      rw [List.map_cons, List.sum_cons, ih, hf]
      cases hdata : g (s.condition r).data with
      | some a =>
          rw [List.filterMap_cons, hdata]
          rfl
      | none =>
          rw [List.filterMap_cons, hdata]
          exact BitVec.zero_add _

/-- The conditions' part of the variables is what the conditions in the list say. -/
theorem attributes_booked (h : system.Reachable s) (hplayer : s.isPlayer = true) :
    (∀ i, s.player.vars (.skill i) - s.others (.skill i) =
        (s.attributes.map fun a => a.skills i).sum) ∧
      (∀ i, s.player.vars (.specialSkill i) - s.others (.specialSkill i) =
        (s.attributes.map fun a => a.specialSkills i).sum) ∧
      (∀ i, s.player.vars (.stat i) - s.others (.stat i) =
        (s.attributes.map fun a => a.stats i).sum) ∧
      (s.attributes = [] → ∀ v, v ≠ .speed → s.player.vars v = s.others v) := by
  have hbooked : ∀ v, s.player.vars v - s.others v = s.booked v := fun v =>
    sub_eq_zero.mp (unbooked_eq_zero h v)
  have hskill : ∀ i, s.booked (.skill i) = (s.attributes.map fun a => a.skills i).sum := fun i =>
    booked_filterMap (g := ConditionData.asAttributes) fun c => by
      unfold contribution
      rw [hplayer]
      cases c.data <;> rfl
  have hspecial : ∀ i, s.booked (.specialSkill i) =
      (s.attributes.map fun a => a.specialSkills i).sum := fun i =>
    booked_filterMap (g := ConditionData.asAttributes) fun c => by
      unfold contribution
      rw [hplayer]
      cases c.data <;> rfl
  have hstat : ∀ i, s.booked (.stat i) = (s.attributes.map fun a => a.stats i).sum := fun i =>
    booked_filterMap (g := ConditionData.asAttributes) fun c => by
      unfold contribution
      rw [hplayer]
      cases c.data <;> rfl
  refine ⟨fun i => (hbooked _).trans (hskill i), fun i => (hbooked _).trans (hspecial i),
    fun i => (hbooked _).trans (hstat i), ?_⟩
  intro hnone v hv
  refine sub_eq_zero.mp ((hbooked v).trans ?_)
  cases v with
  | skill i =>
      rw [hskill, hnone]
      rfl
  | specialSkill i =>
      rw [hspecial, hnone]
      rfl
  | stat i =>
      rw [hstat, hnone]
      rfl
  | statPercent i =>
      refine List.sum_eq_zero fun x hx => ?_
      obtain ⟨r, _, rfl⟩ := List.mem_map.mp hx
      unfold contribution
      cases (s.condition r).data <;> rfl
  | speed => exact absurd rfl hv

/-- A condition that raises the shielding of a player by half for a minute. -/
def shielding : Condition :=
  .new CONDITIONID_COMBAT .attributes 60000 true 0
    (.attributes { skillsPercent := Function.update (fun _ => 0) .shield 150 })

theorem attributes_booked_shielding :
    ∃ s, runAll 1 newPlayer [.addCondition quietServer shielding rfl false] = some s ∧
      s.isPlayer = true ∧ (s.attributes.map fun a => a.skills .shield).sum = 5 ∧
      s.player.vars (.skill .shield) - s.others (.skill .shield) =
        (s.attributes.map fun a => a.skills .shield).sum := by
  have hrun : runAll 1 newPlayer [.addCondition quietServer shielding rfl false] = some _ := rfl
  exact ⟨_, hrun, rfl, by decide,
    (attributes_booked (reachable_runAll (.start newPlayer_init) hrun) rfl).1 _⟩

/-! ## Defence -/

/-- A condition in the list disables the defence. -/
def anyDisables (s : Creature) : Bool := s.conditions.any fun r => disablesDefense (s.condition r)

theorem disablesDefense_eq (c : Condition) : disablesDefense c = (c.defends == some true) := by
  unfold disablesDefense defends
  cases c.data with
  | attributes a =>
      show a.disableDefense = (some a.disableDefense == some true)
      cases a.disableDefense <;> rfl
  | _ => rfl

/-- The condition under the call, and the others. -/
theorem anyDisables_eq {r : Nat} (hr : r ∈ s.conditions) :
    s.anyDisables = (disablesDefense (s.condition r) || s.othersDisable r) := by
  rw [Bool.eq_iff_iff, Bool.or_eq_true, anyDisables, othersDisable, List.any_eq_true,
    List.any_eq_true]
  constructor
  · rintro ⟨r', hr', hdisables⟩
    by_cases hne : r' = r
    · exact .inl (hne ▸ hdisables)
    · exact .inr ⟨r', hr', by simp [hne, hdisables]⟩
  · rintro (hdisables | ⟨r', hr', hdisables⟩)
    · exact ⟨r, hr, hdisables⟩
    · exact ⟨r', hr', (Bool.and_eq_true_iff.mp hdisables).2⟩

/-- Objects that are not in the list do not count. -/
theorem othersDisable_loose {r : Nat} (hr : r ∉ s.conditions) : s.othersDisable r = s.anyDisables := by
  rw [Bool.eq_iff_iff, anyDisables, othersDisable, List.any_eq_true, List.any_eq_true]
  constructor
  · rintro ⟨r', hr', hdisables⟩
    exact ⟨r', hr', (Bool.and_eq_true_iff.mp hdisables).2⟩
  · rintro ⟨r', hr', hdisables⟩
    have hne : r' ≠ r := by
      rintro rfl
      exact hr hr'
    exact ⟨r', hr', by simp [hne, hdisables]⟩

/-- What disables the defence afterwards, from what the conditions were. -/
theorem any_congr {list : List Nat}
    (h : ∀ r ∈ list, (s'.condition r).defends = (s.condition r).defends) :
    (list.any fun r => disablesDefense (s'.condition r)) =
      list.any fun r => disablesDefense (s.condition r) := by
  induction list with
  | nil => rfl
  | cons r rest ih =>
      rw [List.any_cons, List.any_cons, disablesDefense_eq, disablesDefense_eq,
        h r List.mem_cons_self, ih fun r' hr' => h r' (List.mem_cons_of_mem r hr')]

theorem othersDisable_congr {r : Nat} (hconditions : s'.conditions = s.conditions)
    (h : ∀ r' ∈ s.conditions, r' ≠ r → (s'.condition r').defends = (s.condition r').defends) :
    s'.othersDisable r = s.othersDisable r := by
  rw [othersDisable, othersDisable, hconditions]
  generalize s.conditions = list at h
  induction list with
  | nil => rfl
  | cons r' rest ih =>
      rw [List.any_cons, List.any_cons, ih fun r hr => h r (List.mem_cons_of_mem r' hr)]
      by_cases hne : r' = r
      · rw [hne, bne_self_eq_false, Bool.false_and, Bool.false_and]
      · rw [disablesDefense_eq, disablesDefense_eq, h r' List.mem_cons_self hne]

/-- The calls of a move are added to those before. -/
theorem Move.calls_prefix (hmove : Move allowed s s') : s.defenseCalls <+: s'.defenseCalls := by
  cases hmove with
  | quiet kept view => rw [(view_eq view).2.2.1]; exact List.prefix_rfl
  | defer r kept view => rw [(view_eq view).2.2.1]; exact List.prefix_rfl
  | resume r kept view => rw [(view_eq view).2.2.1]; exact List.prefix_rfl
  | start r kept view =>
      rw [(view_eq view).2.2.1]
      dsimp only
      split
      · exact List.prefix_append ..
      · exact List.prefix_rfl
  | reapply r disabled disables kept view =>
      rw [(view_eq view).2.2.1]
      exact (List.prefix_append _ _).trans (List.prefix_append _ _)
  | erase r kept view =>
      rw [(view_eq view).2.2.1]
      dsimp only
      split
      · exact List.prefix_append ..
      · exact List.prefix_rfl

theorem Moves.calls_prefix (hmoves : Moves allowed s s') : s.defenseCalls <+: s'.defenseCalls := by
  induction hmoves with
  | refl => exact List.prefix_rfl
  | tail _ hmove ih => exact ih.trans hmove.calls_prefix

/-- Calls that are right keep the flag right. -/
theorem Move.defense (hmove : Move allowed s s') (hinv : s.Inv)
    (hcalls : ∀ call ∈ s'.defenseCalls, call.right = true)
    (h : s.canUseDefense = !s.anyDisables) : s'.canUseDefense = !s'.anyDisables := by
  have hsame : s'.conditions = s.conditions →
      (∀ r < s.next, (s'.condition r).defends = (s.condition r).defends) →
      s'.anyDisables = s.anyDisables := by
    intro hconditions hdefends
    rw [anyDisables, hconditions]
    exact any_congr fun r hr => hdefends r (hinv.lt hr)
  cases hmove with
  | quiet kept view pending defends =>
      obtain ⟨hconditions, _, _, hflag⟩ := view_eq view
      rw [hflag, hsame hconditions defends]
      exact h
  | defer r kept view pending defends =>
      obtain ⟨hconditions, _, _, hflag⟩ := view_eq view
      rw [hflag, hsame hconditions defends]
      exact h
  | resume r kept view pending defends =>
      obtain ⟨hconditions, _, _, hflag⟩ := view_eq view
      rw [hflag, hsame hconditions defends]
      exact h
  | start r kept view pending defends fresh allow free =>
      obtain ⟨hconditions, _, hlog, hflag⟩ := view_eq view
      have hloose : r ∉ s.conditions := fun hr => fresh.loose (List.mem_append_left _ hr)
      have hany : s'.anyDisables = (s.anyDisables || disablesDefense (s.condition r)) := by
        rw [anyDisables, hconditions, List.any_append, List.any_cons, List.any_nil, Bool.or_false,
          any_congr fun r' hr' => defends r' (hinv.lt hr'), disablesDefense_eq,
          defends r fresh.allocated, ← disablesDefense_eq]
        rfl
      rw [hflag, hany, disablesDefense_eq]
      rw [hlog] at hcalls
      dsimp only at hcalls ⊢
      cases hdefends : (s.condition r).defends with
      | none => simpa using h
      | some disables =>
          rw [hdefends] at hcalls
          have hright := hcalls _ (List.mem_append_right _ (List.mem_singleton_self _))
          rw [othersDisable_loose hloose] at hright
          have hflags : ∀ disables others, (DefenseCall.started disables others).right = true →
              (!disables) = !(others || some disables == some true) := by decide
          exact hflags disables _ hright
  | reapply r disabled disables kept view pending before after defends mem =>
      obtain ⟨hconditions, _, hlog, hflag⟩ := view_eq view
      have hany : s.anyDisables = (disabled || s.othersDisable r) := by
        rw [anyDisables_eq mem, disablesDefense_eq, before]
        cases disabled <;> rfl
      have hothers : s'.othersDisable r = s.othersDisable r :=
        othersDisable_congr hconditions fun r' hr' => defends r' (hinv.lt hr')
      have hany' : s'.anyDisables = (disables || s.othersDisable r) := by
        rw [anyDisables_eq (by rw [hconditions]; exact mem), disablesDefense_eq, after, hothers]
        cases disables <;> rfl
      have hright := hcalls (.changed disabled disables (s.othersDisable r)) (by rw [hlog]; simp)
      have hflags : ∀ disabled disables others,
          (DefenseCall.changed disabled disables others).right = true →
          (if disabled then true else !(disabled || others)) = !(disables || others) := by decide
      rw [hflag, h, hany, hany']
      exact hflags disabled disables _ hright
  | erase r kept view pending defends mem =>
      obtain ⟨hconditions, _, hlog, hflag⟩ := view_eq view
      have hany : s'.anyDisables = s.othersDisable r := by
        rw [anyDisables, hconditions, ← othersDisable_erase hinv,
          othersDisable_loose fun hr => ((hinv.nodup.mem_erase_iff).mp hr).1 rfl]
        exact any_congr fun r' hr' => defends r' (hinv.lt (List.mem_of_mem_erase hr'))
      rw [anyDisables_eq mem, disablesDefense_eq] at h
      rw [hflag, hany, h]
      rw [hlog] at hcalls
      dsimp only at hcalls ⊢
      cases hdefends : (s.condition r).defends with
      | none => simp
      | some disables =>
          rw [hdefends] at hcalls
          have hright := hcalls _ (List.mem_append_right _ (List.mem_singleton_self _))
          have hflags : ∀ disables others, (DefenseCall.ended disables others).right = true →
              (if some disables = some true then true
                else !(some disables == some true || others)) = !others := by decide
          exact hflags disables _ hright

theorem Moves.defense (hmoves : Moves allowed s s') (hinv : s.Inv)
    (hcalls : ∀ call ∈ s'.defenseCalls, call.right = true)
    (h : s.canUseDefense = !s.anyDisables) : s'.canUseDefense = !s'.anyDisables := by
  induction hmoves with
  | refl => exact h
  | tail hmoves hmove ih =>
      have hbefore := ih fun call hcall => hcalls call (hmove.calls_prefix.subset hcall)
      exact hmove.defense (Moves.inv hmoves hinv) hcalls hbefore

/-- Every call that the operation makes is right for the flag. -/
def CallsRight (s : Creature) (op : Op) : Prop :=
  ∀ fuel s', s.run fuel op = some s' →
    ∀ call ∈ s'.defenseCalls.drop s.defenseCalls.length, call.right = true

/-- As long as every call is right for the flag, the defence is disabled exactly if a
condition in the list disables it. -/
theorem canUseDefense_exact (h : system.Reach CallsRight s) :
    s.canUseDefense = false ↔ ∃ r ∈ s.conditions, disablesDefense (s.condition r) = true := by
  have hinductive : system.Inductive CallsRight fun s => s.Inv ∧
      (∀ call ∈ s.defenseCalls, call.right = true) ∧ s.canUseDefense = !s.anyDisables := by
    refine inductive_of_moves ?_ ?_ fun _ _ _ => id
    · rintro s ⟨hconditions, _, _, hlog, hflag, _⟩
      rw [hlog, hflag, anyDisables, hconditions]
      exact ⟨nofun, rfl⟩
    · intro s op t fuel hinv hs hguard hrun hmoves
      have hcalls : ∀ call ∈ t.defenseCalls, call.right = true := by
        obtain ⟨new, hnew⟩ := Moves.calls_prefix hmoves
        have hguard' := hguard fuel t hrun
        rw [← hnew, List.drop_left] at hguard'
        intro call hcall
        rw [← hnew] at hcall
        exact (List.mem_append.mp hcall).elim (hs.1 call) (hguard' call)
      exact ⟨hcalls, Moves.defense hmoves hinv hcalls hs.2⟩
  rw [(hinductive.invariant h).2.2, Bool.not_eq_false', anyDisables, List.any_eq_true]

/-- A condition of attributes that disables the defence or not. -/
def guardCondition (disableDefense : Bool) (subId : BitVec 32) : Condition :=
  .new CONDITIONID_COMBAT .attributes 60000 false subId (.attributes { disableDefense })

theorem canUseDefense_exact_single :
    ∃ s, newPlayer.run 1 (.addCondition quietServer (guardCondition true 0) rfl false) = some s ∧
      s.canUseDefense = false ∧
      (s.canUseDefense = false ↔ ∃ r ∈ s.conditions, disablesDefense (s.condition r) = true) := by
  have hrun : newPlayer.run 1 (.addCondition quietServer (guardCondition true 0) rfl false) =
      some _ := rfl
  have hright : CallsRight newPlayer
      (.addCondition quietServer (guardCondition true 0) rfl false) := by
    intro fuel s' h
    cases h
    decide
  exact ⟨_, hrun, rfl, canUseDefense_exact (.next (.start newPlayer_init) hright ⟨1, hrun⟩)⟩

/-- A condition that does not disable the defence starts beside one that does. -/
theorem canUseDefense_not_exact : ¬∀ s, system.Reachable s →
    (s.canUseDefense = false ↔ ∃ r ∈ s.conditions, disablesDefense (s.condition r) = true) := by
  intro h
  have hrun : runAll 1 newPlayer [.addCondition quietServer (guardCondition true 0) rfl false,
      .addCondition quietServer (guardCondition false 1) rfl false] = some _ := rfl
  have hflag := (h _ (reachable_runAll (.start newPlayer_init) hrun)).mpr ⟨0, by decide, rfl⟩
  exact absurd hflag (by decide)

/-! ## The history of conditions -/

/-- What is in the list, and what has been called, for one object. -/
structure Paired (s : Creature) (r : Nat) : Prop where
  once : s.calls.count (.started r) ≤ 1
  started : r ∈ s.conditions → s.calls.count (.started r) = 1
  ended : s.calls.count (.ended r) + (if r ∈ s.conditions then 1 else 0) =
    s.calls.count (.reapplied r) + s.calls.count (.started r)

theorem Paired.of_counts {r : Nat} (h : s.Paired r) (hmem : r ∈ s'.conditions ↔ r ∈ s.conditions)
    (hcounts : s'.calls.count (.started r) = s.calls.count (.started r) ∧
      s'.calls.count (.ended r) = s.calls.count (.ended r) ∧
      s'.calls.count (.reapplied r) = s.calls.count (.reapplied r)) : s'.Paired r := by
  obtain ⟨hstarted, hended, hreapplied⟩ := hcounts
  refine ⟨?_, ?_, ?_⟩
  · rw [hstarted]
    exact h.once
  · rw [hstarted]
    exact fun hr => h.started (hmem.mp hr)
  · rw [hstarted, hended, hreapplied, if_congr hmem rfl rfl]
    exact h.ended

/-- The call is about another condition. -/
theorem Paired.of_other {r r' : Nat} (h : s.Paired r) (hr : r ≠ r')
    (hmem : r ∈ s'.conditions ↔ r ∈ s.conditions)
    (hcalls : s'.calls = s.calls ++ [.started r'] ∨ s'.calls = s.calls ++ [.ended r']) :
    s'.Paired r := by
  refine h.of_counts hmem ?_
  rcases hcalls with hstarted | hended
  · rw [hstarted]
    simp [Ne.symm hr]
  · rw [hended]
    simp [Ne.symm hr]

theorem Move.paired (hmove : Move allowed s s') (hinv : s.Inv) (r : Nat) (h : s.Paired r) :
    s'.Paired r := by
  have hsame : s'.conditions = s.conditions → s'.calls = s.calls → s'.Paired r :=
    fun hconditions hcalls => h.of_counts (by rw [hconditions]) (by rw [hcalls]; exact ⟨rfl, rfl, rfl⟩)
  obtain ⟨honce, hstarted, hended⟩ := h
  cases hmove with
  | quiet kept view => exact hsame (view_eq view).1 (view_eq view).2.1
  | defer r' kept view => exact hsame (view_eq view).1 (view_eq view).2.1
  | resume r' kept view => exact hsame (view_eq view).1 (view_eq view).2.1
  | start r' kept view pending defends fresh allow free =>
      obtain ⟨hconditions, hcalls, _⟩ := view_eq view
      have hloose : r' ∉ s.conditions := fun hr => fresh.loose (List.mem_append_left _ hr)
      by_cases hr : r = r'
      · subst hr
        have hzero : s.calls.count (.started r) = 0 := List.count_eq_zero_of_not_mem fresh.unstarted
        rw [hzero, if_neg hloose] at hended
        refine ⟨?_, ?_, ?_⟩
        · rw [hcalls]
          simp [hzero]
        · rw [hcalls]
          simp [hzero]
        · rw [hcalls, hconditions]
          simp [hzero, hended]
      · have hmem : r ∈ s'.conditions ↔ r ∈ s.conditions := by
          rw [hconditions]
          simp [hr]
        exact Paired.of_other ⟨honce, hstarted, hended⟩ hr hmem (.inl hcalls)
  | reapply r' disabled disables kept view pending before after defends mem =>
      obtain ⟨hconditions, hcalls, _⟩ := view_eq view
      have hstarts : s'.calls.count (.started r) = s.calls.count (.started r) := by
        rw [hcalls]
        simp
      have hends : s'.calls.count (.ended r) + s.calls.count (.reapplied r) =
          s.calls.count (.ended r) + s'.calls.count (.reapplied r) := by
        rw [hcalls]
        by_cases hr : r = r'
        · subst hr
          simp
          omega
        · simp [Ne.symm hr]
      refine ⟨by rw [hstarts]; exact honce, by rw [hconditions, hstarts]; exact hstarted, ?_⟩
      rw [hconditions, hstarts]
      dsimp only
      omega
  | erase r' kept view pending defends mem =>
      obtain ⟨hconditions, hcalls, _⟩ := view_eq view
      by_cases hr : r = r'
      · subst hr
        have hgone : r ∉ s'.conditions := by
          rw [hconditions]
          exact fun hr => ((hinv.nodup.mem_erase_iff).mp hr).1 rfl
        have hstarts : s'.calls.count (.started r) = s.calls.count (.started r) := by
          rw [hcalls]
          simp
        refine ⟨by rw [hstarts]; exact honce, fun hr => absurd hr hgone, ?_⟩
        have hends : s'.calls.count (.ended r) = s.calls.count (.ended r) + 1 := by
          rw [hcalls]
          simp
        have hreapplied : s'.calls.count (.reapplied r) = s.calls.count (.reapplied r) := by
          rw [hcalls]
          simp
        rw [if_pos mem] at hended
        rw [if_neg hgone, hstarts, hends, hreapplied]
        exact hended
      · have hmem : r ∈ s'.conditions ↔ r ∈ s.conditions := by
          rw [hconditions, hinv.nodup.mem_erase_iff]
          exact ⟨And.right, fun h => ⟨hr, h⟩⟩
        exact Paired.of_other ⟨honce, hstarted, hended⟩ hr hmem (.inr hcalls)

theorem Moves.paired (hmoves : Moves allowed s s') (hinv : s.Inv) (r : Nat) (h : s.Paired r) :
    s'.Paired r := by
  induction hmoves with
  | refl => exact h
  | tail hmoves hmove ih => exact hmove.paired (Moves.inv hmoves hinv) r ih

/-- Every condition in the list has a key of its own; an object starts once at most,
and once if it is in the list; and it ends exactly once if it left the list, besides
the ends after which it is applied again. -/
theorem conditions_unique_paired (h : system.Reachable s) :
    s.conditions.Nodup ∧
      (∀ r ∈ s.conditions, ∀ r' ∈ s.conditions,
        (s.condition r).key = (s.condition r').key → r = r') ∧
      ∀ r, (s.calls.count (.started r) ≤ 1) ∧
        (r ∈ s.conditions → s.calls.count (.started r) = 1 ∧
          s.calls.count (.ended r) = s.calls.count (.reapplied r)) ∧
        (r ∉ s.conditions →
          s.calls.count (.ended r) = s.calls.count (.reapplied r) + s.calls.count (.started r)) := by
  have hinductive : system.Inductive (fun _ _ => True) fun s => s.Inv ∧ ∀ r, s.Paired r := by
    refine inductive_of_moves ?_ ?_ fun _ _ _ h r => ⟨(h r).once, (h r).started, (h r).ended⟩
    · rintro s ⟨hconditions, _, hcalls, _⟩ r
      refine ⟨?_, ?_, ?_⟩
      · rw [hcalls]
        exact Nat.zero_le _
      · rw [hconditions]
        nofun
      · rw [hconditions, hcalls]
        rfl
    · intro s op t fuel hinv hpaired _ _ hmoves r
      exact Moves.paired hmoves hinv r (hpaired r)
  obtain ⟨hinv, hpaired⟩ := hinductive.invariant h
  refine ⟨hinv.nodup, hinv.unique, fun r => ?_⟩
  obtain ⟨honce, hstarted, hended⟩ := hpaired r
  refine ⟨honce, fun hr => ?_, fun hr => ?_⟩
  · rw [if_pos hr, hstarted hr] at hended
    exact ⟨hstarted hr, Nat.add_right_cancel hended⟩
  · rwa [if_neg hr] at hended

/-- A condition of attributes is added twice, and then removed. -/
theorem conditions_unique_paired_twice :
    ∃ s, runAll 1 newPlayer [.addCondition quietServer (guardCondition true 0) rfl false,
        .addCondition quietServer (guardCondition true 0) rfl false,
        .removeConditionType quietServer .attributes false] = some s ∧
      0 ∉ s.conditions ∧ s.calls.count (.reapplied 0) = 1 ∧
      s.calls.count (.ended 0) = s.calls.count (.reapplied 0) + s.calls.count (.started 0) := by
  have hrun : runAll 1 newPlayer [.addCondition quietServer (guardCondition true 0) rfl false,
      .addCondition quietServer (guardCondition true 0) rfl false,
      .removeConditionType quietServer .attributes false] = some _ := rfl
  have hloose := (conditions_unique_paired (reachable_runAll (.start newPlayer_init) hrun)).2.2 0
  exact ⟨_, hrun, by decide, by decide, hloose.2.2 (by decide)⟩

/-- A condition that is still in the list has ended, to be applied again. -/
theorem ended_in_list : ¬∀ s, system.Reachable s →
    ∀ r ∈ s.conditions, s.calls.count (.ended r) = 0 := by
  intro h
  have hrun : runAll 1 newPlayer [.addCondition quietServer (guardCondition true 0) rfl false,
      .addCondition quietServer (guardCondition true 0) rfl false] = some _ := rfl
  have hended := h _ (reachable_runAll (.start newPlayer_init) hrun) 0 (by decide)
  exact absurd hended (by decide)

end Creature

end Infernum
