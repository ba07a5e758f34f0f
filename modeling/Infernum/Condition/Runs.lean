import Infernum.Condition.Steps
import Infernum.Lib.TransitionSystem

/-!
# Runs of a creature

What happens to a creature is a sequence of moves, so what the moves keep holds in
every state that is reached.
-/

namespace Infernum

open Equip (Skill SpecialSkill Stat Var)
open Condition

namespace Creature

variable {allowed : Nat → ConditionType → Prop} {s : Creature}

/-! ## Conditions are added -/

theorem getCondition_none {type : ConditionType} {conditionId : ConditionId} {subId : BitVec 32}
    (h : s.getCondition type conditionId subId = none) :
    ∀ r ∈ s.conditions, (s.condition r).key ≠ (type, conditionId, subId) := by
  intro r hr hkey
  have hnone := List.find?_eq_none.mp h r hr
  exact hnone (beq_iff_eq.mpr hkey)

/-- A condition is put off. -/
theorem defer_move {r : Nat} (hfresh : s.Fresh r) (hfits : (s.condition r).Fits = true)
    (hallow : allowed r (s.condition r).conditionType) :
    Move allowed s (s.addEvent (.forceAddCondition r)) := by
  refine .defer r ⟨rfl, Nat.le_refl _, fun _ => rfl, fun _ _ => ⟨rfl, rfl⟩, ⟨rfl, rfl, rfl, rfl⟩,
    .inl ⟨rfl, rfl⟩⟩ rfl ?_ (fun _ _ => rfl) hfresh hfits hallow
  show ((s.tasks ++ [_]).filterMap _) = _
  rw [List.filterMap_append]
  rfl

/-- A new condition is added. -/
theorem addCondition_moves (env : Env) {doDamage : Creature → Nat → Creature × Bool}
    (hdamage : ∀ s : Creature, ∀ r, s.Inv → Moves (Nested s) s (doDamage s r).1) (hinv : s.Inv)
    {r : Nat} (hfresh : s.Fresh r) (hfits : (s.condition r).Fits = true)
    (hallow : allowed r (s.condition r).conditionType)
    (hnested : ∀ r' type, s.Nested r' type → allowed r' type) (force : Bool) :
    Moves allowed s (s.addCondition env doDamage r force).1 := by
  unfold addCondition
  dsimp only
  split
  · exact .single (defer_move hfresh hfits hallow)
  · split
    · next prevCond hprev =>
      exact changeCondition_moves env hdamage hinv (List.mem_of_find?_eq_some hprev) r hnested
    · next hnone =>
      have hstart := startCondition_moves env hdamage hinv hfresh hfits (getCondition_none hnone)
        hallow hnested
      generalize s.startCondition env doDamage r = result at hstart
      obtain ⟨t, started⟩ := result
      cases started with
      | false => exact hstart.1 rfl
      | true =>
          have hmoves := hstart.2 rfl
          exact hmoves.trans (onAddCondition_moves env (hmoves.inv hinv) _)

/-- `addInFightTicks` starts nothing but its own condition. -/
theorem addInFightTicks_moves (env : Env) (hinv : s.Inv) (ticks : BitVec 32) :
    Moves (Nested s) s (s.addInFightTicks env ticks) := by
  set condition := Condition.new CONDITIONID_DEFAULT .inFight ticks false 0 .generic with hc
  have halloc : Move (Nested s) s (s.alloc condition).1 := alloc_move hinv condition
  have hself : (s.alloc condition).1.condition s.next = condition := Function.update_self ..
  refine .head halloc (addCondition_moves env (fun _ _ _ => .refl) (halloc.inv hinv)
    (alloc_fresh hinv condition) ?_ ?_ ?_ false)
  · rw [hself]
    rfl
  · rw [hself]
    exact ⟨Nat.le_refl _, rfl⟩
  · rintro r type ⟨hle, htype⟩
    exact ⟨Nat.le_of_succ_le hle, htype⟩

/-- Damage that a condition does starts nothing but `CONDITION_INFIGHT`. -/
theorem doDamage_moves (env : Env) (s : Creature) (r : Nat) (hinv : s.Inv) :
    Moves (Nested s) s (s.doDamage env r).1 := by
  unfold doDamage
  split
  · exact .refl
  · dsimp only
    cases (env.hit r).inFight with
    | none =>
        dsimp only
        split
        · exact removeConditionType_moves env hinv _ _
        · exact .refl
    | some ticks =>
        have hfight := addInFightTicks_moves env hinv ticks
        dsimp only
        split
        · exact hfight.trans (removeConditionType_moves env (hfight.inv hinv) _ _)
        · exact hfight

/-! ## Conditions are removed by combat -/

theorem onCombatRemoveCondition_moves (env : Env) (hinv : s.Inv) (wait : Option (BitVec 32))
    (lost : List ConditionType) (r : Nat) :
    Moves allowed s (s.onCombatRemoveCondition env wait lost r) := by
  have hlost : ∀ t : Creature, t.Inv → ∀ id,
      Moves allowed t (lost.foldl (fun s type => s.removeConditionId env type id false) t) := by
    intro t ht id
    induction lost generalizing t with
    | nil => exact .refl
    | cons type lost ih =>
        have hmoves : Moves allowed t (t.removeConditionId env type id false) :=
          removeConditionId_moves env ht type id false
        exact hmoves.trans (ih _ (hmoves.inv ht))
  unfold onCombatRemoveCondition
  dsimp only
  split
  · exact removeCondition_moves env hinv r false
  · split
    · exact hlost s hinv _
    · split
      · split
        · exact removeCondition_moves env hinv r false
        · exact .single (setCondition_move r (setTicks_alike env _ _))
      · exact removeCondition_moves env hinv r false

theorem removeCombatLoop_moves (env : Env) (wait : Option (BitVec 32))
    (lost : Nat → List ConditionType) {rest : List Nat} {s s' : Creature} (hinv : s.Inv)
    (h : s.removeCombatLoop env wait lost rest = some s') : Moves allowed s s' := by
  induction rest generalizing s with
  | nil =>
      cases h
      exact .refl
  | cons r rest ih =>
      rw [removeCombatLoop] at h
      split at h
      · cases h
      · have hmoves : Moves allowed s (s.onCombatRemoveCondition env wait (lost r) r) :=
          onCombatRemoveCondition_moves env hinv wait (lost r) r
        exact hmoves.trans (ih (hmoves.inv hinv) h)

/-! ## Conditions go on -/

theorem executeCondition_moves (env : Env) (hinv : s.Inv) (r : Nat) (interval : BitVec 32) :
    Moves (Nested s) s (s.executeCondition env r interval).1 := by
  have hplain : ∀ {c' : Condition} (cls : ConditionClass), (s.condition r).data.toClass = cls →
      c'.data.toClass = cls → cls ≠ .attributes ∧ cls ≠ .speed → c'.key = (s.condition r).key →
      (s.condition r).Alike (c'.executeTicks env interval).1 := fun cls hclass hclass' hcls hkey =>
    (alike_of_class hkey (hclass'.trans hclass.symm) (hclass ▸ hcls.1) (hclass ▸ hcls.2)).trans
      (executeTicks_alike env _ interval)
  unfold executeCondition
  dsimp only
  split
  · next g hdata =>
    exact .single (setCondition_move r
      (hplain .regeneration (by rw [hdata]; rfl) rfl (by decide) rfl))
  · next u hdata =>
    exact .single (setCondition_move r (hplain .soul (by rw [hdata]; rfl) rfl (by decide) rfl))
  · next d hdata =>
    have hkey := executeDamage_key env (s.condition r) d interval
    generalize (s.condition r).executeDamage env d interval = result at hkey
    obtain ⟨c, d', interval', due⟩ := result
    dsimp only
    have hquiet : Move (Nested s) s (s.setCondition r { c with data := .damage d' }) :=
      setCondition_move r (damage_alike hdata hkey d')
    have hmoves : ∀ t, Moves (Nested s) s t → Moves (Nested s) s
        (t.setCondition r ((t.condition r).executeTicks env interval').1) := fun t ht =>
      ht.tail (setCondition_move r (executeTicks_alike env _ _))
    refine hmoves _ ?_
    split
    · exact .head hquiet (doDamage_moves env _ r (hquiet.inv hinv))
    · exact .single hquiet
  · next light hdata =>
    have hmoves : ∀ t : Creature, Move (Nested s) s t → t.condition = s.condition → ∀ light',
        Moves (Nested s) s (t.setCondition r
          ({ s.condition r with data := .light light' }.executeTicks env interval).1) := by
      intro t ht hcondition light'
      refine .tail (.single ht) (setCondition_move r ?_)
      rw [hcondition]
      exact hplain .light (by rw [hdata]; rfl) rfl (by decide) rfl
    have hset : ∀ lightInfo light', Moves (Nested s) s ((s.setCreatureLight lightInfo).setCondition r
        ({ s.condition r with data := .light light' }.executeTicks env interval).1) :=
      fun lightInfo light' => hmoves (s.setCreatureLight lightInfo)
        (frame_move rfl rfl rfl rfl) rfl light'
    generalize (if light.lightChangeInterval ≤ _ then _ else _ : ConditionLight × Bool) = result
    dsimp only
    by_cases hdue : result.2 = true ∧ 0 < (s.getCreatureLight env).level
    · rw [if_pos hdue]
      exact hset _ _
    · rw [if_neg hdue]
      exact hmoves s (frame_move rfl rfl rfl rfl) rfl _
  · exact .single (setCondition_move r (executeTicks_alike env _ _))

theorem executeLoop_moves (env : Env) (interval : BitVec 32) {fuel : Nat} {next : Option Nat}
    {s s' : Creature} (hinv : s.Inv) (h : executeLoop env interval fuel next s = some s') :
    Moves (fun _ _ => True) s s' := by
  induction fuel generalizing next s with
  | zero =>
      cases next with
      | none =>
          cases h
          exact .refl
      | some r => cases h
  | succ fuel ih =>
      cases next with
      | none =>
          cases h
          exact .refl
      | some r =>
          rw [executeLoop] at h
          have hexecuted : Moves (fun _ _ => True) s (s.executeCondition env r interval).1 :=
            (executeCondition_moves env hinv r interval).mono fun _ _ _ => trivial
          generalize s.executeCondition env r interval = result at h hexecuted
          obtain ⟨t, goesOn⟩ := result
          dsimp only at h
          split at h
          · cases h
          · next hr =>
            have hinv' := Moves.inv hexecuted hinv
            cases goesOn with
            | true => exact hexecuted.trans (ih hinv' h)
            | false =>
                have hmove : Move (fun _ _ => True) t (t.eraseCondition env r) :=
                  eraseCondition_move env hinv' (not_not.mp hr)
                exact (hexecuted.tail hmove).trans (ih (hmove.inv hinv') h)

/-! ## Tasks -/

theorem pending_eraseIdx {task : Nat} {r : Nat}
    (h : s.tasks[task]? = some (.forceAddCondition r)) :
    s.pending.Perm (r :: pending { s with tasks := s.tasks.eraseIdx task }) := by
  obtain ⟨hlt, hget⟩ := List.getElem?_eq_some_iff.mp h
  have hperm : s.tasks.Perm (.forceAddCondition r :: s.tasks.eraseIdx task) := by
    rw [← hget]
    exact (List.getElem_cons_eraseIdx_perm hlt).symm
  exact hperm.filterMap _

theorem pending_eraseIdx_remove {task : Nat} {type : ConditionType}
    (h : s.tasks[task]? = some (.forceRemoveCondition type)) :
    pending { s with tasks := s.tasks.eraseIdx task } = s.pending := by
  obtain ⟨hlt, hget⟩ := List.getElem?_eq_some_iff.mp h
  have hsplit : s.tasks = s.tasks.take task ++
      .forceRemoveCondition type :: s.tasks.drop (task + 1) := by
    rw [← hget, ← List.drop_eq_getElem_cons hlt, List.take_append_drop]
  show (s.tasks.eraseIdx task).filterMap _ = s.tasks.filterMap _
  conv_rhs => rw [hsplit]
  rw [List.eraseIdx_eq_take_drop_succ, List.filterMap_append, List.filterMap_append]
  rfl

/-- Whatever happens is a sequence of moves, unless others change a variable. -/
theorem run_moves {fuel : Nat} {op : Op} {s' : Creature} (hinv : s.Inv)
    (hop : ∀ v delta, op ≠ .changeOthers v delta) (h : s.run fuel op = some s') :
    Moves (fun _ _ => True) s s' := by
  cases op with
  | addCondition env condition fits force =>
      have hself : (s.alloc condition).1.condition s.next = condition := Function.update_self ..
      have halloc : Move (fun _ _ => True) s (s.alloc condition).1 := alloc_move hinv condition
      cases h
      exact .head halloc (addCondition_moves env (doDamage_moves env) (halloc.inv hinv)
        (alloc_fresh hinv condition) (by rw [hself]; exact fits) trivial (fun _ _ _ => trivial) force)
  | removeConditionType env type force =>
      cases h
      exact removeConditionType_moves env hinv type force
  | removeConditionId env type conditionId force =>
      cases h
      exact removeConditionId_moves env hinv type conditionId force
  | removeCondition env r force =>
      cases h
      exact removeCondition_moves env hinv r force
  | removeCombatCondition env type wait lost => exact removeCombatLoop_moves env wait lost hinv h
  | removePersistent env =>
      cases h
      exact removeLoop_moves env _ _ true hinv (fun _ => id) hinv.nodup
  | executeConditions env interval => exact executeLoop_moves env interval hinv h
  | runTask env task =>
      rw [run] at h
      split at h
      · cases h
      · next r htask =>
        cases h
        set t : Creature := { s with tasks := s.tasks.eraseIdx task } with ht
        have hpending : s.pending.Perm (r :: t.pending) := pending_eraseIdx htask
        have hmem : r ∈ s.pending := hpending.mem_iff.mpr List.mem_cons_self
        have hresume : Move (fun _ _ => True) s t :=
          .resume r ⟨rfl, Nat.le_refl _, fun _ => rfl, fun _ _ => ⟨rfl, rfl⟩, ⟨rfl, rfl, rfl, rfl⟩,
            .inl ⟨rfl, rfl⟩⟩ rfl hpending fun _ _ => rfl
        have hfresh : t.Fresh r := by
          refine ⟨hinv.allocated r (List.mem_append_right _ hmem), ?_, hinv.unstarted r hmem⟩
          have hperm : (s.conditions ++ s.pending).Perm (r :: (s.conditions ++ t.pending)) :=
            (hpending.append_left _).trans List.perm_middle
          exact (List.nodup_cons.mp (hperm.nodup_iff.mp hinv.apart)).1
        exact .head hresume (addCondition_moves env (doDamage_moves env) (hresume.inv hinv) hfresh
          (hinv.fits r hmem) trivial (fun _ _ _ => trivial) true)
      · next type htask =>
        cases h
        have hmove : Move (fun _ _ => True) s { s with tasks := s.tasks.eraseIdx task } := by
          refine frame_move ?_ rfl rfl rfl
          unfold frame
          rw [pending_eraseIdx_remove htask]
          rfl
        exact .head hmove (removeConditionType_moves env (hmove.inv hinv) type true)
  | changeBase baseSkill magLevel healthMax manaMax baseSpeed =>
      cases h
      exact .single (frame_move rfl rfl rfl rfl)
  | changeOthers v delta => exact absurd rfl (hop v delta)

/-- Others change a variable and account for it. -/
theorem changeOthers_unbooked (s : Creature) (v v' : Var) (delta : BitVec 32) :
    (s.changeOthers v delta).unbooked v' = s.unbooked v' := by
  show Function.update s.player.vars v _ v' - Function.update s.others v _ v' - s.booked v' =
    s.player.vars v' - s.others v' - s.booked v'
  rw [Function.update_apply, Function.update_apply]
  split
  · next heq =>
    rw [heq]
    abel
  · rfl

theorem changeOthers_inv (hinv : s.Inv) (v : Var) (delta : BitVec 32) :
    (s.changeOthers v delta).Inv :=
  ⟨hinv.apart, hinv.allocated, hinv.unique, hinv.unstarted, hinv.logged, hinv.fits⟩

/-! ## The system -/

/-- A creature without conditions, whose variables nobody has changed but others, goes
through any operations; `executeConditions` may take any time. -/
def system : Lib.TSys Creature Op where
  init s := s.conditions = [] ∧ s.tasks = [] ∧ s.calls = [] ∧ s.defenseCalls = [] ∧
    s.canUseDefense = true ∧ s.others = s.player.vars
  step s op s' := ∃ fuel, s.run fuel op = some s'

theorem init_inv (h : system.init s) : s.Inv := by
  obtain ⟨hconditions, htasks, hcalls, _⟩ := h
  have hpending : s.pending = [] := by
    rw [pending, htasks]
    rfl
  refine ⟨?_, ?_, ?_, ?_, ?_, ?_⟩
  · rw [hconditions, hpending]
    exact List.nodup_nil
  · rw [hconditions, hpending]
    nofun
  · rw [hconditions]
    nofun
  · rw [hpending]
    nofun
  · rw [hcalls]
    nofun
  · rw [hpending]
    nofun

/-- A property that moves and other changes keep holds in every state that is reached,
together with the invariant of the moves. -/
theorem inductive_of_moves {guard : Creature → Op → Prop} {P : Creature → Prop}
    (hinit : ∀ s, system.init s → P s)
    (hmoves : ∀ s op t fuel, s.Inv → P s → guard s op → s.run fuel op = some t →
      Moves (fun _ _ => True) s t → P t)
    (hothers : ∀ s v delta, P s → P (s.changeOthers v delta)) :
    system.Inductive guard fun s => s.Inv ∧ P s where
  init s hs := ⟨init_inv hs, hinit s hs⟩
  step s op t hs hguard hrun := by
    obtain ⟨fuel, hrun⟩ := hrun
    by_cases hop : ∀ v delta, op ≠ .changeOthers v delta
    · have h := run_moves hs.1 hop hrun
      exact ⟨Moves.inv h hs.1, hmoves s op t fuel hs.1 hs.2 hguard hrun h⟩
    · push Not at hop
      obtain ⟨v, delta, rfl⟩ := hop
      cases hrun
      exact ⟨changeOthers_inv hs.1 v delta, hothers s v delta hs.2⟩

/-- Operations one after another. -/
def runAll (fuel : Nat) (s : Creature) (ops : List Op) : Option Creature :=
  ops.foldlM (run fuel) s

theorem reachable_runAll {fuel : Nat} {ops : List Op} {s s' : Creature} (hs : system.Reachable s)
    (h : runAll fuel s ops = some s') : system.Reachable s' := by
  induction ops generalizing s with
  | nil =>
      cases h
      exact hs
  | cons op ops ih =>
      rw [runAll, List.foldlM_cons] at h
      cases hrun : s.run fuel op with
      | none =>
          rw [hrun] at h
          cases h
      | some t =>
          rw [hrun] at h
          exact ih (.next hs trivial ⟨fuel, hrun⟩) h

/-- A server that does nothing else meanwhile. -/
def quietServer : Env where
  OTSYS_TIME := 1000
  getWalkDelay := 0
  isSuppress _ := false
  inProtectionZone := false
  onTickCondition _ bRemove := bRemove
  hit _ := { done := true }
  mayChangeOutfit := true
  itemsLight := {}
  uniform_random normal _ := normal
  percentOf base percent := .ofInt 32 (base.toInt * (percent.toInt - 100) / 100)
  formula base _ _ := base
  generateDamageList _ _ := []

/-- A player without conditions. -/
def newPlayer : Creature where
  isPlayer := true
  condition _ := .new CONDITIONID_DEFAULT .none 0 false 0 .generic

theorem newPlayer_init : system.init newPlayer := ⟨rfl, rfl, rfl, rfl, rfl, rfl⟩

end Creature

end Infernum
