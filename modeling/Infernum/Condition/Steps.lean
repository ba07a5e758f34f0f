import Infernum.Condition.Moves

/-!
# What is done with conditions is done in moves

Every operation on the conditions of a creature is a sequence of moves. Inside a
damage that a condition does only new conditions of type `CONDITION_INFIGHT` start.
-/

namespace Infernum

open Equip (Skill SpecialSkill Stat Var)
open Condition

namespace Creature

variable {allowed : Nat → ConditionType → Prop} {s : Creature}

/-! ## Quiet moves -/

/-- What a change of one condition does not change, no condition changes. -/
theorem update_same {β : Type} {r : Nat} {c : Condition} (f : Condition → β)
    (hf : f c = f (s.condition r)) (r' : Nat) :
    f (Function.update s.condition r c r') = f (s.condition r') := by
  rw [Function.update_apply]
  split
  · next heq => rw [hf, heq]
  · rfl

/-- A condition is changed without anything that counts. -/
theorem setCondition_move (r : Nat) {c : Condition} (h : (s.condition r).Alike c) :
    Move allowed s (s.setCondition r c) := by
  refine .quiet (kept_of_frame rfl ?_ ?_) rfl rfl ?_
  · intro v
    show s.player.vars v - s.others v - booked (s.setCondition r c) v = _
    rw [unbooked]
    congr 1
    exact sum_map_congr fun r' _ =>
      update_same (fun c => c.contribution s.isPlayer v) (h.contribution _ v) r'
  · exact fun r' _ => ⟨update_same key h.key r', update_same Fits h.fits r'⟩
  · exact fun r' _ => update_same defends h.defends r'

/-- A new object counts for nothing yet. -/
theorem alloc_move (hinv : s.Inv) (c : Condition) : Move allowed s (s.alloc c).1 := by
  have hold : ∀ r < s.next, (s.alloc c).1.condition r = s.condition r := fun r hr =>
    Function.update_of_ne (Nat.ne_of_lt hr) _ _
  refine .quiet ⟨rfl, Nat.le_succ _, ?_, ?_, ⟨rfl, rfl, rfl, rfl⟩, .inl ⟨rfl, rfl⟩⟩ rfl rfl ?_
  · intro v
    show s.player.vars v - s.others v - booked (s.alloc c).1 v = _
    rw [unbooked]
    congr 1
    refine sum_map_congr fun r hr => ?_
    rw [hold r (hinv.lt hr)]
    rfl
  · intro r hr
    rw [hold r hr]
    exact ⟨rfl, rfl⟩
  · intro r hr
    rw [hold r hr]

theorem alloc_fresh (hinv : s.Inv) (c : Condition) : (s.alloc c).1.Fresh s.next := by
  refine ⟨Nat.lt_succ_self _, ?_, ?_⟩
  · intro hmem
    exact Nat.lt_irrefl _ (hinv.allocated _ hmem)
  · intro hstarted
    exact Nat.lt_irrefl _ (hinv.logged _ hstarted)

/-- The light, the outfits and what else does not count. -/
theorem frame_move {s' : Creature} (hframe : s'.frame = s.frame)
    (hcondition : s'.condition = s.condition) (hvars : s'.player.vars = s.player.vars)
    (hview : s'.view = s.view) : Move allowed s s' := by
  have hisPlayer := congrArg Frame.isPlayer hframe
  have hothers := congrArg Frame.others hframe
  refine .quiet (kept_of_frame hframe ?_ ?_) hview (congrArg Frame.pending hframe) ?_
  · intro v
    rw [unbooked, unbooked, booked, booked, hvars, show s'.others = s.others from hothers,
      show s'.isPlayer = s.isPlayer from hisPlayer, hcondition, (view_eq hview).1]
    rfl
  · intro r _
    rw [hcondition]
    exact ⟨rfl, rfl⟩
  · intro r _
    rw [hcondition]

/-- What `changeSpeed` does to the variables. -/
theorem changeSpeed_vars (s : Creature) (delta : BitVec 32) (v : Var) :
    (s.changeSpeed delta).player.vars v =
      if v = .speed then s.player.vars .speed + delta else s.player.vars v := by
  show Function.update s.player.vars .speed _ v = _
  rw [Function.update_apply]
  refine if_congr Iff.rfl ?_ rfl
  rw [getSpeed, BitVec.add_comm s.baseSpeed, BitVec.add_sub_cancel]

/-- What a dismount does to the variables and their account. -/
theorem dismount_spec (s : Creature) :
    s.dismount.player.vars =
        Function.update s.player.vars .speed (s.player.vars .speed - s.dismountSpeed) ∧
      s.dismount.others =
        Function.update s.others .speed (s.others .speed - s.dismountSpeed) := by
  have hsame : ∀ f : Var → BitVec 32, f = Function.update f .speed (f .speed - 0) := by
    intro f
    rw [show f .speed - 0 = f .speed from BitVec.sub_zero _]
    exact (Function.update_eq_self ..).symm
  unfold dismount Creature.dismountSpeed
  dsimp only
  cases s.getMountByID s.currentMount with
  | none => exact ⟨hsame _, hsame _⟩
  | some mount =>
      dsimp only
      by_cases hspeed : 0 < mount.speed.toInt
      · rw [if_pos hspeed, if_pos hspeed]
        refine ⟨funext fun v => ?_, rfl⟩
        show (s.changeSpeed (-mount.speed)).player.vars v = _
        rw [changeSpeed_vars, Function.update_apply, sub_eq_add_neg]
      · rw [if_neg hspeed, if_neg hspeed]
        exact ⟨hsame _, hsame _⟩

theorem dismount_frame (s : Creature) :
    { s.dismount.frame with others := s.others } = { s.frame with isMounted := false } ∧
      s.dismount.condition = s.condition ∧ s.dismount.view = s.view := by
  unfold dismount
  dsimp only
  split
  · split
    · exact ⟨rfl, rfl, rfl⟩
    · exact ⟨rfl, rfl, rfl⟩
  · exact ⟨rfl, rfl, rfl⟩

/-- A mounted player dismounts. -/
theorem dismount_move (s : Creature) (hmounted : s.isMounted = true) :
    Move allowed s s.dismount := by
  obtain ⟨hvars, hothers⟩ := dismount_spec s
  obtain ⟨hframe, hcondition, hview⟩ := dismount_frame s
  have hisPlayer : s.dismount.isPlayer = s.isPlayer := congrArg Frame.isPlayer hframe
  refine .quiet ⟨hisPlayer, Nat.le_of_eq (congrArg Frame.next hframe).symm, ?_, ?_,
    ⟨congrArg Frame.inventory hframe, congrArg Frame.inventoryAbilities hframe,
      congrArg Frame.mounts hframe, congrArg Frame.currentMount hframe⟩,
    .inr ⟨hmounted, congrArg Frame.isMounted hframe, hothers⟩⟩ hview
    (congrArg Frame.pending hframe) ?_
  · intro v
    rw [unbooked, unbooked, booked, booked, hvars, hothers, hisPlayer, hcondition,
      (view_eq hview).1, Function.update_apply, Function.update_apply]
    dsimp only [view]
    split
    · next heq =>
      rw [heq]
      abel
    · rfl
  · intro r _
    rw [hcondition]
    exact ⟨rfl, rfl⟩
  · intro r _
    rw [hcondition]

/-- A task that removes conditions. -/
theorem addEvent_move (s : Creature) (type : ConditionType) :
    Move allowed s (s.addEvent (.forceRemoveCondition type)) := by
  have hpending : (s.addEvent (.forceRemoveCondition type)).pending = s.pending := by
    show ((s.tasks ++ [_]).filterMap _) = _
    rw [List.filterMap_append]
    exact List.append_nil _
  refine frame_move ?_ rfl rfl rfl
  unfold frame
  rw [hpending]
  rfl

/-! ## Conditions end -/

/-- The others in the list, after an object has left it. -/
theorem othersDisable_erase {r : Nat} (hinv : s.Inv) :
    othersDisable { s with conditions := s.conditions.erase r } r = s.othersDisable r := by
  show (s.conditions.erase r).any _ = s.conditions.any _
  rw [Bool.eq_iff_iff, List.any_eq_true, List.any_eq_true]
  constructor
  · rintro ⟨r', hr', hdisables⟩
    exact ⟨r', List.mem_of_mem_erase hr', hdisables⟩
  · rintro ⟨r', hr', hdisables⟩
    refine ⟨r', ?_, hdisables⟩
    have hne : r' ≠ r := by
      rintro rfl
      simp at hdisables
    exact (hinv.nodup.mem_erase_iff).mpr ⟨hne, hr'⟩

/-- What the end of a condition does: its contributions are withdrawn, the call is
logged, and a condition that disables the defence enables it. -/
theorem endCondition_spec (env : Env) (s : Creature) (r : Nat) :
    let s' := s.endCondition env r
    s'.frame = s.frame ∧ s'.condition = s.condition ∧
      (∀ v, s'.player.vars v =
        s.player.vars v - (s.condition r).contribution s.isPlayer v) ∧
      s'.view =
        { conditions := s.conditions
          calls := s.calls ++ [.ended r]
          defenseCalls := match (s.condition r).defends with
            | some disables => s.defenseCalls ++ [.ended disables (s.othersDisable r)]
            | none => s.defenseCalls
          canUseDefense :=
            if (s.condition r).defends = some true then true else s.canUseDefense } := by
  have hnone : ∀ v, s.player.vars v = s.player.vars v - (0 : BitVec 32) := fun v => by simp
  unfold endCondition contribution defends
  dsimp only
  rw [show (s.log (.ended r)).condition r = s.condition r from rfl]
  cases hdata : (s.condition r).data with
  | attributes a =>
      obtain ⟨vars, hvars, heq⟩ := withdrawAttributes_eq
        ((s.log (.ended r)).logDefense (.ended a.disableDefense
          ((s.log (.ended r)).othersDisable r))) hdata
      dsimp only
      rw [heq]
      refine ⟨?_, ?_, ?_, ?_⟩
      · split <;> rfl
      · split <;> rfl
      · intro v
        have hv := hvars v
        unfold contribution at hv
        rw [hdata] at hv
        split <;> exact hv
      · by_cases hdisables : a.disableDefense = true
        · rw [if_pos hdisables, if_pos (congrArg some hdisables)]
          rfl
        · rw [if_neg hdisables, if_neg fun h => hdisables (Option.some.inj h)]
          rfl
  | speed speed =>
      refine ⟨rfl, rfl, ?_, rfl⟩
      intro v
      rw [changeSpeed_vars]
      cases v with
      | speed => exact (sub_eq_add_neg _ _).symm
      | skill i => exact hnone _
      | specialSkill i => exact hnone _
      | stat i => exact hnone _
      | statPercent i => exact hnone _
  | outfit outfit =>
      dsimp only
      unfold changeOutfit
      split
      · exact ⟨rfl, rfl, hnone, rfl⟩
      · exact ⟨rfl, rfl, hnone, rfl⟩
  | generic => exact ⟨rfl, rfl, hnone, rfl⟩
  | regeneration g => exact ⟨rfl, rfl, hnone, rfl⟩
  | soul u => exact ⟨rfl, rfl, hnone, rfl⟩
  | invisible => exact ⟨rfl, rfl, hnone, rfl⟩
  | damage d => exact ⟨rfl, rfl, hnone, rfl⟩
  | light light => exact ⟨rfl, rfl, hnone, rfl⟩
  | spellCooldown => exact ⟨rfl, rfl, hnone, rfl⟩
  | spellGroupCooldown => exact ⟨rfl, rfl, hnone, rfl⟩

/-- A condition leaves the list and ends. -/
theorem eraseCondition_move (env : Env) (hinv : s.Inv) {r : Nat} (hr : r ∈ s.conditions) :
    Move allowed s (s.eraseCondition env r) := by
  obtain ⟨hframe, hcondition, hvars, hview⟩ :=
    endCondition_spec env { s with conditions := s.conditions.erase r } r
  have hisPlayer := congrArg Frame.isPlayer hframe
  have hothers := congrArg Frame.others hframe
  rw [othersDisable_erase hinv] at hview
  refine .erase r (kept_of_frame hframe ?_ ?_) hview (congrArg Frame.pending hframe) ?_ hr
  · intro v
    have hbooked : s.booked v = (s.condition r).contribution s.isPlayer v +
        (s.eraseCondition env r).booked v := by
      rw [booked, booked, eraseCondition, hcondition, (view_eq hview).1,
        show (endCondition env _ r).isPlayer = s.isPlayer from hisPlayer]
      exact sum_map_erase hr _
    rw [unbooked, unbooked, hbooked, eraseCondition, hvars v,
      show (endCondition env _ r).others = s.others from hothers]
    show _ - (s.condition r).contribution s.isPlayer v - s.others v - _ = _
    abel
  · intro r' _
    rw [eraseCondition, hcondition]
    exact ⟨rfl, rfl⟩
  · intro r' _
    rw [eraseCondition, hcondition]

/-- The list after a condition has ended. -/
theorem eraseCondition_conditions (env : Env) (s : Creature) (r : Nat) :
    (s.eraseCondition env r).conditions = s.conditions.erase r :=
  (view_eq (endCondition_spec env { s with conditions := s.conditions.erase r } r).2.2.2).1

/-- The loops of `removeCondition`. -/
theorem removeLoop_moves (env : Env) (matching : Condition → Bool) (type : ConditionType)
    (force : Bool) (hinv : s.Inv) {rest : List Nat} (hrest : ∀ r ∈ rest, r ∈ s.conditions)
    (hnodup : rest.Nodup) : Moves allowed s (removeLoop env matching type force rest s) := by
  induction rest generalizing s with
  | nil => exact .refl
  | cons r rest ih =>
      obtain ⟨hr, hnodup⟩ := List.nodup_cons.mp hnodup
      rw [removeLoop]
      split
      · exact ih hinv (fun r' hr' => hrest r' (List.mem_cons_of_mem _ hr')) hnodup
      · split
        · exact .single (addEvent_move s type)
        · have hmove : Move allowed s (s.eraseCondition env r) :=
            eraseCondition_move env hinv (hrest r List.mem_cons_self)
          refine .head hmove (ih (hmove.inv hinv) ?_ hnodup)
          intro r' hr'
          rw [eraseCondition_conditions, hinv.nodup.mem_erase_iff]
          refine ⟨?_, hrest r' (List.mem_cons_of_mem _ hr')⟩
          rintro rfl
          exact hr hr'

theorem removeConditionType_moves (env : Env) (hinv : s.Inv) (type : ConditionType) (force : Bool) :
    Moves allowed s (s.removeConditionType env type force) :=
  removeLoop_moves env _ type force hinv (fun _ => id) hinv.nodup

theorem removeConditionId_moves (env : Env) (hinv : s.Inv) (type : ConditionType)
    (conditionId : ConditionId) (force : Bool) :
    Moves allowed s (s.removeConditionId env type conditionId force) :=
  removeLoop_moves env _ type force hinv (fun _ => id) hinv.nodup

theorem removeCondition_moves (env : Env) (hinv : s.Inv) (r : Nat) (force : Bool) :
    Moves allowed s (s.removeCondition env r force) := by
  rw [removeCondition]
  split
  · exact .refl
  · next hr =>
    split
    · exact .single (addEvent_move s _)
    · exact .single (eraseCondition_move env hinv (not_not.mp hr))

theorem onAddCondition_moves (env : Env) (hinv : s.Inv) (type : ConditionType) :
    Moves allowed s (s.onAddCondition env type) := by
  rw [onAddCondition]
  split
  · exact .refl
  · have hremoved : Moves allowed s
        (if type = .paralyze ∧ s.hasCondition env .haste then
          s.removeConditionType env .haste false
        else if type = .haste ∧ s.hasCondition env .paralyze then
          s.removeConditionType env .paralyze false
        else s) := by
      split
      · exact removeConditionType_moves env hinv _ _
      · split
        · exact removeConditionType_moves env hinv _ _
        · exact .refl
    have hdismounted : ∀ t, Moves allowed s t →
        Moves allowed s (if t.isPlayer ∧ type = .outfit ∧ t.isMounted then t.dismount else t) := by
      intro t ht
      split
      · next h => exact ht.tail (dismount_move t h.2.2)
      · exact ht
    exact hdismounted _ hremoved

/-! ## Conditions change themselves -/

theorem setTicks_alike (env : Env) (c : Condition) (ticks : BitVec 32) :
    c.Alike (c.setTicks env ticks) :=
  alike_of_data rfl rfl

theorem startTicks_key (env : Env) (c : Condition) : (c.startTicks env).key = c.key := by
  unfold startTicks
  split <;> rfl

theorem startTicks_data (env : Env) (c : Condition) : (c.startTicks env).data = c.data := by
  unfold startTicks
  split <;> rfl

theorem executeTicks_alike (env : Env) (c : Condition) (interval : BitVec 32) :
    c.Alike (c.executeTicks env interval).1 := by
  refine alike_of_data ?_ ?_
  · unfold executeTicks
    split <;> rfl
  · unfold executeTicks
    split <;> rfl

theorem pushDamage_key (env : Env) (info : IntervalInfo) (cd : Condition × ConditionDamage) :
    (pushDamage env info cd).1.key = cd.1.key := by
  unfold pushDamage
  dsimp only
  split <;> rfl

theorem addDamage_key (env : Env) (rounds time value : BitVec 32)
    (cd : Condition × ConditionDamage) : (addDamage env rounds time value cd).1.key = cd.1.key := by
  have hfold : ∀ (infos : List IntervalInfo) (cd : Condition × ConditionDamage),
      (infos.foldl (fun cd info => pushDamage env info cd) cd).1.key = cd.1.key := by
    intro infos
    induction infos with
    | nil => exact fun _ => rfl
    | cons info infos ih => exact fun cd => (ih _).trans (pushDamage_key env info cd)
  unfold addDamage
  dsimp only
  split
  · rfl
  · split
    · rfl
    · exact hfold _ _

theorem init_key (env : Env) (c : Condition) (d : ConditionDamage) :
    (c.init env d).1.key = c.key := by
  have hfold : ∀ (time : BitVec 32) (values : List (BitVec 32)) (cd : Condition × ConditionDamage),
      (values.foldl (fun cd value => addDamage env 1 time (-value) cd) cd).1.key = cd.1.key := by
    intro time values
    induction values with
    | nil => exact fun _ => rfl
    | cons value values ih => exact fun cd => (ih _).trans (addDamage_key env 1 time _ cd)
  unfold Condition.init
  split
  · rfl
  · split
    · rfl
    · dsimp only
      split
      · exact hfold _ _ _
      · rfl

theorem executeDamage_key (env : Env) (c : Condition) (d : ConditionDamage) (interval : BitVec 32) :
    (c.executeDamage env d interval).1.key = c.key := by
  unfold executeDamage
  split
  · dsimp only
    split <;> rfl
  · split
    · rfl
    · dsimp only
      split
      · rfl
      · split <;> rfl

/-- A damage condition is changed to another one. -/
theorem damage_alike {c c' : Condition} {d : ConditionDamage} (hdata : c.data = .damage d)
    (hkey : c'.key = c.key) (d' : ConditionDamage) : c.Alike { c' with data := .damage d' } := by
  have hclass : c.data.toClass = .damage := by rw [hdata]; rfl
  refine alike_of_class hkey hclass.symm ?_ ?_
  · rw [hclass]
    decide
  · rw [hclass]
    decide

/-! ## Conditions start -/

/-- A condition has had its effect and comes into the list. -/
theorem start_move {t : Creature} {r : Nat} {c : Condition} (hfresh : s.Fresh r)
    (hfree : ∀ r' ∈ s.conditions, (s.condition r').key ≠ (s.condition r).key)
    (hallow : allowed r (s.condition r).conditionType)
    (hkey : c.key = (s.condition r).key) (hclass : c.data.toClass = (s.condition r).data.toClass)
    (hdefends : c.defends = (s.condition r).defends)
    (hcondition : t.condition = Function.update s.condition r c) (hframe : t.frame = s.frame)
    (hvars : ∀ v, t.player.vars v = s.player.vars v + c.contribution s.isPlayer v)
    (hview : t.view =
      { conditions := s.conditions
        calls := s.calls
        defenseCalls := match (s.condition r).defends with
          | some disables => s.defenseCalls ++ [.started disables (s.othersDisable r)]
          | none => s.defenseCalls
        canUseDefense := match (s.condition r).defends with
          | some disables => !disables
          | none => s.canUseDefense }) :
    Move allowed s ({ t with conditions := t.conditions ++ [r] }.log (.started r)) := by
  obtain ⟨hconditions, hcalls, hdefense, hflag⟩ := view_eq hview
  have hself : Function.update s.condition r c r = c := Function.update_self ..
  have hsame : ∀ {β : Type} (f : Condition → β), f c = f (s.condition r) → ∀ r',
      f (t.condition r') = f (s.condition r') := by
    intro β f hf
    rw [hcondition]
    exact update_same f hf
  have hfits : c.Fits = (s.condition r).Fits := fits_congr hkey hclass
  have hisPlayer : t.isPlayer = s.isPlayer := congrArg Frame.isPlayer hframe
  have hothers : t.others = s.others := congrArg Frame.others hframe
  refine .start r (kept_of_frame hframe ?_ ?_) ?_ (congrArg Frame.pending hframe) ?_ hfresh hallow
    hfree
  · intro v
    show t.player.vars v - t.others v -
      ((t.conditions ++ [r]).map fun r' => contribution t.isPlayer (t.condition r') v).sum = _
    have hrest : (s.conditions.map fun r' => contribution s.isPlayer (t.condition r') v).sum =
        s.booked v := by
      refine sum_map_congr fun r' hr' => ?_
      have hne : r' ≠ r := by
        rintro rfl
        exact hfresh.loose (List.mem_append_left _ hr')
      rw [hcondition, Function.update_of_ne hne]
    rw [hconditions, hisPlayer, List.map_append, List.sum_append]
    dsimp only
    rw [hrest, List.map_singleton, List.sum_singleton, hcondition, hself, hvars, hothers, unbooked]
    abel
  · exact fun r' _ => ⟨hsame key hkey r', hsame Fits hfits r'⟩
  · show View.mk (t.conditions ++ [r]) (t.calls ++ [.started r]) t.defenseCalls
      t.canUseDefense = _
    rw [hconditions, hcalls, hdefense]
    exact congrArg (View.mk _ _ _) hflag
  · exact fun r' _ => hsame defends hdefends r'

/-- A condition that counts for nothing comes into the list. -/
theorem startPlain_move {t : Creature} {r : Nat} {c : Condition} (hfresh : s.Fresh r)
    (hfree : ∀ r' ∈ s.conditions, (s.condition r').key ≠ (s.condition r).key)
    (hallow : allowed r (s.condition r).conditionType)
    (hkey : c.key = (s.condition r).key) (hclass : c.data.toClass = (s.condition r).data.toClass)
    (hattributes : c.data.toClass ≠ .attributes) (hspeed : c.data.toClass ≠ .speed)
    (hcondition : t.condition = Function.update s.condition r c) (hframe : t.frame = s.frame)
    (hvars : t.player.vars = s.player.vars) (hview : t.view = s.view) :
    Move allowed s ({ t with conditions := t.conditions ++ [r] }.log (.started r)) := by
  have hzero := contribution_eq_zero hattributes hspeed
  have hnone : (s.condition r).defends = none := by
    rw [hclass] at hattributes hspeed
    exact (contribution_eq_zero hattributes hspeed).1
  refine start_move hfresh hfree hallow hkey hclass (hzero.1.trans hnone.symm) hcondition hframe ?_ ?_
  · intro v
    rw [hvars, hzero.2]
    exact (BitVec.add_zero _).symm
  · rw [hnone]
    exact hview

theorem Fits.toClass {c : Condition} (h : c.Fits = true) :
    c.conditionType.toClass = some c.data.toClass := by
  rw [Condition.Fits] at h
  exact eq_of_beq h

/-! ## Conditions in the list change -/

/-- A condition in the list is changed, and the variables with it. -/
theorem change_kept {t : Creature} {r : Nat} {c : Condition} (hinv : s.Inv)
    (hr : r ∈ s.conditions) (hkey : c.key = (s.condition r).key)
    (hclass : c.data.toClass = (s.condition r).data.toClass)
    (hconditions : t.conditions = s.conditions)
    (hcondition : t.condition = Function.update s.condition r c) (hframe : t.frame = s.frame)
    (hvars : ∀ v, t.player.vars v = s.player.vars v -
      (s.condition r).contribution s.isPlayer v + c.contribution s.isPlayer v) : Kept s t := by
  have hfits : c.Fits = (s.condition r).Fits := fits_congr hkey hclass
  have hisPlayer : t.isPlayer = s.isPlayer := congrArg Frame.isPlayer hframe
  have hothers : t.others = s.others := congrArg Frame.others hframe
  refine kept_of_frame hframe ?_ ?_
  · intro v
    have hbooked : t.booked v = s.booked v - (s.condition r).contribution s.isPlayer v +
        c.contribution s.isPlayer v := by
      rw [booked, booked, hconditions, hisPlayer, hcondition, sum_map_change hinv.nodup hr
        (f := fun r => (s.condition r).contribution s.isPlayer v)]
      · rw [Function.update_self]
      · intro r' _ hne
        rw [Function.update_of_ne hne]
    rw [unbooked, unbooked, hbooked, hvars, hothers]
    abel
  · intro r' _
    rw [hcondition, Function.update_apply]
    split
    · next heq => exact ⟨heq ▸ hkey, heq ▸ hfits⟩
    · exact ⟨rfl, rfl⟩

theorem othersDisable_setCondition (s : Creature) (r : Nat) (c : Condition) :
    (s.setCondition r c).othersDisable r = s.othersDisable r := by
  refine congrArg s.conditions.any (funext fun r' => ?_)
  by_cases hne : r' = r
  · rw [hne, bne_self_eq_false]
    rfl
  · show (r' != r && disablesDefense (Function.update s.condition r c r')) = _
    rw [Function.update_of_ne hne]

/-- `ConditionAttributes::addCondition`: the condition ends and is applied again. -/
theorem changeAttributes_moves (env : Env) (hinv : s.Inv) {r : Nat} (hr : r ∈ s.conditions)
    (a' : ConditionAttributes) (ticks : BitVec 32) :
    Moves allowed s (s.changeAttributes env r a' ticks) := by
  unfold changeAttributes
  have halike := setTicks_alike env (s.condition r) ticks
  generalize (s.condition r).setTicks env ticks = c at halike
  dsimp only
  cases hdata : c.data with
  | attributes a =>
      dsimp only
      generalize hchanged : DefenseCall.changed a.disableDefense a'.disableDefense
        (s.othersDisable r) = call
      set s1 := (s.logDefense call).setCondition r c with hs1
      obtain ⟨hframe, hcondition, hvars, hview⟩ := endCondition_spec env s1 r
      generalize s1.endCondition env r = s2 at hframe hcondition hvars hview
      obtain ⟨a'', vars, hdisable, hvars', heq⟩ := applyAttributes_eq env s2 r c
        { a' with currentSkill := a.currentSkill, currentStat := a.currentStat }
      have hself : s1.condition r = c := Function.update_self ..
      have hbefore : (s.condition r).defends = some a.disableDefense := by
        rw [← halike.defends, Condition.defends, hdata]
      rw [hself, halike.defends, hbefore] at hview
      rw [heq]
      refine .single (.reapply r a.disableDefense a'.disableDefense
        (change_kept (c := { c with data := .attributes a'' }) hinv hr halike.key ?_
          (view_eq hview).1 ?_ hframe ?_) ?_ (congrArg Frame.pending hframe) hbefore ?_ ?_ hr)
      · rw [← halike.toClass, hdata]
        rfl
      · show Function.update s2.condition r _ = _
        rw [hcondition]
        exact Function.update_idem ..
      · intro v
        show vars v = _
        rw [hvars', hvars, hself, halike.contribution,
          show s2.isPlayer = s.isPlayer from congrArg Frame.isPlayer hframe]
        rfl
      · show View.mk s2.conditions (s2.calls ++ [.reapplied r]) s2.defenseCalls s2.canUseDefense = _
        obtain ⟨hconditions, hcalls, hdefense, hflag⟩ := view_eq hview
        rw [hconditions, hcalls, hdefense, hflag, show s1.othersDisable r = s.othersDisable r from
          othersDisable_setCondition s r c]
        subst hchanged
        refine congrArg (View.mk _ _ _) (if_congr ?_ rfl rfl)
        exact ⟨fun h => Option.some.inj h, congrArg some⟩
      · show Condition.defends (Function.update s2.condition r _ r) = _
        rw [Function.update_self]
        exact congrArg some hdisable
      · intro r' _ hne
        show Condition.defends (Function.update s2.condition r _ r') = _
        rw [Function.update_of_ne hne, hcondition]
        exact congrArg Condition.defends (Function.update_of_ne hne ..)
  | _ => exact .refl

/-- New conditions of type `CONDITION_INFIGHT`. -/
def Nested (s : Creature) (r : Nat) (type : ConditionType) : Prop := s.next ≤ r ∧ type = .inFight

section Calls

variable (env : Env) {doDamage : Creature → Nat → Creature × Bool}
  (hdamage : ∀ s : Creature, ∀ r, s.Inv → Moves (Nested s) s (doDamage s r).1)

include hdamage

/-- A damage condition that starts does damage before it comes into the list. -/
theorem damageStart_moves (hinv : s.Inv) {r : Nat} (hfresh : s.Fresh r)
    (hfits : (s.condition r).Fits = true) (hdata : (s.condition r).data.toClass = .damage)
    (hfree : ∀ r' ∈ s.conditions, (s.condition r').key ≠ (s.condition r).key)
    (hallow : allowed r (s.condition r).conditionType)
    (hnested : ∀ r' type, s.Nested r' type → allowed r' type) {c : Condition}
    (halike : (s.condition r).Alike c) :
    let t := (doDamage (s.setCondition r c) r).1
    Moves allowed s t ∧
      Moves allowed s ({ t with conditions := t.conditions ++ [r] }.log (.started r)) := by
  have hquiet : ∀ allowed, Move allowed s (s.setCondition r c) := fun _ =>
    setCondition_move r halike
  have hinv' := (hquiet allowed).inv hinv
  have hdone := hdamage (s.setCondition r c) r hinv'
  generalize (doDamage (s.setCondition r c) r).1 = t at hdone
  have hmoves : Moves allowed s t := .head (hquiet allowed) (hdone.mono hnested)
  refine ⟨hmoves, hmoves.tail ?_⟩
  obtain ⟨hkey, hfits'⟩ := hmoves.kept.objects r hfresh.allocated
  have hsame : (t.condition r).conditionType = (s.condition r).conditionType :=
    congrArg Prod.fst hkey
  have htype := Fits.toClass hfits
  rw [hdata] at htype
  have hclass : (t.condition r).data.toClass = .damage := by
    have htype' := Fits.toClass (hfits'.trans hfits)
    rw [hsame, htype] at htype'
    exact (Option.some.inj htype').symm
  -- what the damage starts is neither this object nor of its type
  have hfresh' : t.Fresh r := by
    refine Moves.fresh hdone ((hquiet fun _ _ => False).fresh hfresh fun _ => id) ?_
    exact fun type h => absurd h.1 (Nat.not_le.mpr hfresh.allocated)
  have hfree' : ∀ r' ∈ t.conditions, (t.condition r').key ≠ (s.condition r).key := by
    refine Moves.free hdone hinv' ?_ ?_
    · intro r' hr'
      rw [((hquiet allowed).kept.objects r' (hinv.lt hr')).1]
      exact hfree r' hr'
    · rintro r' ⟨_, hinFight⟩
      rw [show (s.condition r).conditionType = .inFight from hinFight] at htype
      cases htype
  refine startPlain_move (c := t.condition r) hfresh' ?_ ?_ rfl rfl ?_ ?_
    (Function.update_eq_self ..).symm rfl rfl rfl
  · rw [hkey]
    exact hfree'
  · rw [hsame]
    exact hallow
  · rw [hclass]
    decide
  · rw [hclass]
    decide

/-- A condition that starts comes into the list, or leaves nothing but what its
damage has led to. -/
theorem startCondition_moves (hinv : s.Inv) {r : Nat} (hfresh : s.Fresh r)
    (hfits : (s.condition r).Fits = true)
    (hfree : ∀ r' ∈ s.conditions, (s.condition r').key ≠ (s.condition r).key)
    (hallow : allowed r (s.condition r).conditionType)
    (hnested : ∀ r' type, s.Nested r' type → allowed r' type) :
    let result := s.startCondition env doDamage r
    (result.2 = false → Moves allowed s result.1) ∧
      (result.2 = true → Moves allowed s
        ({ result.1 with conditions := result.1.conditions ++ [r] }.log (.started r))) := by
  have hkey := startTicks_key env (s.condition r)
  have hdata := startTicks_data env (s.condition r)
  unfold startCondition
  dsimp only
  generalize (s.condition r).startTicks env = c at hkey hdata
  have hplain : ∀ t : Creature, c.data.toClass ≠ .attributes → c.data.toClass ≠ .speed →
      t.condition = Function.update s.condition r c → t.frame = s.frame →
      t.player.vars = s.player.vars → t.view = s.view →
      Moves allowed s ({ t with conditions := t.conditions ++ [r] }.log (.started r)) :=
    fun t hattributes hspeed hcondition hframe hvars hview => .single (startPlain_move hfresh hfree
      hallow hkey (congrArg _ hdata) hattributes hspeed hcondition hframe hvars hview)
  cases hclass : c.data with
  | attributes a =>
      rw [hclass] at hdata
      have hdefends : (s.condition r).defends = some a.disableDefense := by
        unfold Condition.defends
        rw [← hdata]
      obtain ⟨a', vars, hdisable, hvars, heq⟩ := applyAttributes_eq env
        ((s.logDefense (.started a.disableDefense (s.othersDisable r))).setUseDefense
          (!a.disableDefense)) r c a
      refine ⟨nofun, fun _ => ?_⟩
      dsimp only
      rw [heq]
      refine .single (start_move (c := { c with data := .attributes a' }) hfresh hfree hallow
        hkey ?_ ?_ rfl rfl hvars ?_)
      · rw [← hdata]
        rfl
      · rw [hdefends, ← hdisable]
        rfl
      · rw [hdefends]
        rfl
  | speed speed =>
      rw [hclass] at hdata
      have hdefends : (s.condition r).defends = none := by
        unfold Condition.defends
        rw [← hdata]
      refine ⟨nofun, fun _ => ?_⟩
      dsimp only
      generalize (if speed.speedDelta = 0 then _ else speed.speedDelta) = delta
      refine .single (start_move (c := { c with data := .speed { speed with speedDelta := delta } })
        hfresh hfree hallow hkey ?_ ?_ rfl rfl ?_ ?_)
      · rw [← hdata]
        rfl
      · rw [hdefends]
        rfl
      · intro v
        rw [changeSpeed_vars]
        cases v with
        | speed => rfl
        | _ => exact (BitVec.add_zero _).symm
      · rw [hdefends]
        rfl
  | damage d =>
      rw [hclass] at hdata
      have hclass' : (s.condition r).data.toClass = .damage := by
        rw [← hdata]
        rfl
      have hkey' : (c.init env d).1.key = (s.condition r).key := (init_key env c d).trans hkey
      dsimp only
      generalize c.init env d = result at hkey'
      obtain ⟨c', d', ready⟩ := result
      -- whatever the condition becomes, it is alike
      have hquiet : ∀ {allowed} d', Move allowed s (s.setCondition r { c' with data := .damage d' }) :=
        fun d' => setCondition_move r (damage_alike hdata.symm hkey' d')
      have hstart : ∀ d' : ConditionDamage, Move allowed s
          ({ s.setCondition r { c' with data := .damage d' } with
            conditions := s.conditions ++ [r] }.log (.started r)) := fun d' =>
        startPlain_move (c := { c' with data := .damage d' }) hfresh hfree hallow hkey' hclass'.symm
          nofun nofun rfl rfl rfl rfl
      dsimp only
      split
      · exact ⟨fun _ => .single (hquiet _), nofun⟩
      · split
        · exact ⟨nofun, fun _ => .single (hstart _)⟩
        · split
          · obtain ⟨hfailed, hdone⟩ := damageStart_moves hdamage hinv hfresh hfits hclass' hfree hallow
              hnested (damage_alike hdata.symm hkey' (c'.getNextDamage d').1)
            exact ⟨fun _ => hfailed, fun _ => hdone⟩
          · exact ⟨nofun, fun _ => .single (hstart _)⟩
  | outfit outfit =>
      rw [hclass] at hplain
      refine ⟨nofun, fun _ => ?_⟩
      unfold changeOutfit
      dsimp only
      split
      · exact hplain _ nofun nofun rfl rfl rfl rfl
      · exact hplain _ nofun nofun rfl rfl rfl rfl
  | light light =>
      rw [hclass] at hdata
      refine ⟨nofun, fun _ => ?_⟩
      dsimp only
      generalize ConditionLight.mk _ _ _ = light'
      refine .single (startPlain_move (c := { c with data := .light light' }) hfresh hfree hallow
        hkey ?_ nofun nofun rfl rfl rfl rfl)
      rw [← hdata]
      rfl
  | _ =>
      rw [hclass] at hplain
      exact ⟨nofun, fun _ => hplain _ nofun nofun rfl rfl rfl rfl⟩

/-- A damage condition in the list is changed and does damage. -/
theorem damageChange_moves (hinv : s.Inv) {r : Nat} {c : Condition}
    (hnested : ∀ r' type, s.Nested r' type → allowed r' type)
    (halike : (s.condition r).Alike c) : Moves allowed s (doDamage (s.setCondition r c) r).1 := by
  have hquiet : Move allowed s (s.setCondition r c) := setCondition_move r halike
  exact .head hquiet ((hdamage _ r (hquiet.inv hinv)).mono hnested)

/-- A condition in the list is changed to what a new one is. -/
theorem changeCondition_moves (hinv : s.Inv) {r : Nat} (hr : r ∈ s.conditions) (new : Nat)
    (hnested : ∀ r' type, s.Nested r' type → allowed r' type) :
    Moves allowed s (s.changeCondition env doDamage r new) := by
  have hplain : ∀ {c' : Condition} (cls : ConditionClass), (s.condition r).data.toClass = cls →
      c'.data.toClass = cls → cls ≠ .attributes ∧ cls ≠ .speed → c'.key = (s.condition r).key →
      (s.condition r).Alike c' := fun cls hclass hclass' hcls hkey =>
    alike_of_class hkey (hclass'.trans hclass.symm) (hclass ▸ hcls.1) (hclass ▸ hcls.2)
  unfold changeCondition
  dsimp only
  split
  · split
    · exact changeAttributes_moves env hinv hr _ _
    · exact .refl
  · next g g' hdata _ =>
    split
    · exact .single (setCondition_move r
        (hplain .regeneration (by rw [hdata]; rfl) rfl (by decide) rfl))
    · exact .refl
  · next u u' hdata _ =>
    split
    · exact .single (setCondition_move r (hplain .soul (by rw [hdata]; rfl) rfl (by decide) rfl))
    · exact .refl
  · next d d' hdata _ =>
    split
    · exact .refl
    · split
      · exact .refl
      · generalize ConditionDamage.mk _ _ _ _ _ _ _ _ _ _ _ = d''
        have hkey : (((s.condition r).setTicks env (s.condition new).ticks).init env d'').1.key =
            (s.condition r).key := init_key env _ d''
        generalize ((s.condition r).setTicks env (s.condition new).ticks).init env d'' = result at hkey
        obtain ⟨c', d1, ready⟩ := result
        dsimp only
        have hquiet : ∀ d2 : ConditionDamage,
            (s.condition r).Alike { c' with data := .damage d2 } := fun d2 =>
          hplain .damage (by rw [hdata]; rfl) rfl (by decide) hkey
        have hready : ∀ d2 : ConditionDamage, Moves allowed s
            (if d2.delayed then s.setCondition r { c' with data := .damage d2 }
            else if (c'.getNextDamage d2).2 then
              (doDamage
                (s.setCondition r { c' with data := .damage (c'.getNextDamage d2).1 }) r).1
            else s.setCondition r { c' with data := .damage (c'.getNextDamage d2).1 }) := by
          intro d2
          split
          · exact .single (setCondition_move r (hquiet _))
          · split
            · exact damageChange_moves hdamage hinv hnested (hquiet _)
            · exact .single (setCondition_move r (hquiet _))
        by_cases h : ready = false
        · rw [if_pos h]
          exact .single (setCondition_move r (hquiet _))
        · rw [if_neg h]
          exact hready _
  · next speed speed' hdata _ =>
    split
    · exact .refl
    · split
      · exact .refl
      · generalize (if speed'.speedDelta = 0 then _ else speed'.speedDelta) = delta
        set c : Condition := { (s.condition r).setTicks env (s.condition new).ticks with
          data := .speed { speed' with speedDelta := delta } } with hc
        have hclass : c.data.toClass = (s.condition r).data.toClass := by
          rw [hdata]
          rfl
        have hdefends : (s.condition r).defends = none := by rw [Condition.defends, hdata]
        have hmove : ∀ t : Creature, t.conditions = s.conditions →
            t.condition = Function.update s.condition r c → t.frame = s.frame → t.view = s.view →
            (∀ v, t.player.vars v = s.player.vars v - (s.condition r).contribution s.isPlayer v +
              c.contribution s.isPlayer v) → Moves allowed s t := by
          intro t hconditions hcondition hframe hview hvars
          refine .single (.quiet (change_kept (c := c) hinv hr rfl hclass hconditions hcondition
            hframe hvars) hview (congrArg Frame.pending hframe) fun r' _ => ?_)
          rw [hcondition, Function.update_apply]
          split
          · next heq =>
            rw [heq, hdefends]
            rfl
          · rfl
        have hother : ∀ v, v ≠ .speed → (s.condition r).contribution s.isPlayer v = 0 ∧
            c.contribution s.isPlayer v = 0 := by
          intro v hv
          unfold Condition.contribution
          rw [hdata]
          cases v with
          | speed => exact absurd rfl hv
          | _ => exact ⟨rfl, rfl⟩
        have hold : (s.condition r).contribution s.isPlayer .speed = speed.speedDelta := by
          unfold Condition.contribution
          rw [hdata]
        split
        · refine hmove _ rfl rfl rfl rfl fun v => ?_
          rw [changeSpeed_vars]
          split
          · next hv =>
            rw [hv, hold]
            show s.player.vars .speed + (delta - speed.speedDelta) =
              s.player.vars .speed - speed.speedDelta + delta
            abel
          · next hv =>
            rw [(hother v hv).1, (hother v hv).2]
            show s.player.vars v = s.player.vars v - 0 + 0
            abel
        · next hsame =>
          refine hmove _ rfl rfl rfl rfl fun v => ?_
          have hdelta : delta = speed.speedDelta := sub_eq_zero.mp (not_not.mp hsame)
          by_cases hv : v = .speed
          · rw [hv, hold]
            show s.player.vars .speed = s.player.vars .speed - speed.speedDelta + delta
            rw [hdelta]
            abel
          · rw [(hother v hv).1, (hother v hv).2]
            show s.player.vars v = s.player.vars v - 0 + 0
            abel
  · next outfit outfit' hdata _ =>
    split
    · have hmove : Move allowed s (s.setCondition r
          { (s.condition r).setTicks env (s.condition new).ticks with data := .outfit outfit' }) :=
        setCondition_move r (hplain .outfit (by rw [hdata]; rfl) rfl (by decide) rfl)
      unfold changeOutfit
      split
      · exact .tail (.single hmove) (frame_move rfl rfl rfl rfl)
      · exact .single hmove
    · exact .refl
  · next light light' hdata _ =>
    split
    · refine .tail (.single (setCondition_move r ?_)) (frame_move rfl rfl rfl rfl)
      exact hplain .light (by rw [hdata]; rfl) rfl (by decide) rfl
    · exact .refl
  · split
    · exact .single (setCondition_move r (setTicks_alike env _ _))
    · exact .refl

end Calls

end Creature

end Infernum
