import Infernum.Condition.Creature
import Infernum.Equip.Ledger

/-!
# What conditions add to the variables

Each condition in the list contributes to the variables what its fields say; the
rest has been added by others. The effects of starting, changing and ending a
condition are given as changes of this account.
-/

namespace Infernum

open Equip (Skill SpecialSkill Stat Var)

namespace Condition

/-- What a condition in the list of a creature adds to a variable. -/
def contribution (isPlayer : Bool) (c : Condition) (v : Var) : BitVec 32 :=
  match c.data, v with
  | .attributes a, .skill i => if isPlayer then a.skills i else 0
  | .attributes a, .specialSkill i => if isPlayer then a.specialSkills i else 0
  | .attributes a, .stat i => if isPlayer then a.stats i else 0
  | .speed speed, .speed => speed.speedDelta
  | _, _ => 0

/-- `disableDefense` of a condition that has it. -/
def defends (c : Condition) : Option Bool :=
  match c.data with
  | .attributes a => some a.disableDefense
  | _ => none

/-- Conditions that differ in their times, and in data that count for no variable
and for no defence. -/
structure Alike (c c' : Condition) : Prop where
  key : c'.key = c.key
  toClass : c'.data.toClass = c.data.toClass
  defends : c'.defends = c.defends
  contribution : ∀ isPlayer v, c'.contribution isPlayer v = c.contribution isPlayer v

theorem Alike.trans {c c' c'' : Condition} (h : c.Alike c') (h' : c'.Alike c'') : c.Alike c'' :=
  ⟨h'.key.trans h.key, h'.toClass.trans h.toClass, h'.defends.trans h.defends,
    fun isPlayer v => (h'.contribution isPlayer v).trans (h.contribution isPlayer v)⟩

/-- Only the data count. -/
theorem alike_of_data {c c' : Condition} (hkey : c'.key = c.key) (hdata : c'.data = c.data) :
    c.Alike c' := by
  refine ⟨hkey, by rw [hdata], ?_, ?_⟩
  · unfold Condition.defends
    rw [hdata]
  · intro isPlayer v
    unfold Condition.contribution
    rw [hdata]

/-- Classes other than attributes and speed count for nothing. -/
theorem contribution_eq_zero {c : Condition} (hattributes : c.data.toClass ≠ .attributes)
    (hspeed : c.data.toClass ≠ .speed) :
    c.defends = none ∧ ∀ isPlayer v, c.contribution isPlayer v = 0 := by
  unfold Condition.defends Condition.contribution
  cases hdata : c.data with
  | attributes a =>
      rw [hdata] at hattributes
      exact absurd rfl hattributes
  | speed speed =>
      rw [hdata] at hspeed
      exact absurd rfl hspeed
  | _ => exact ⟨rfl, fun _ _ => rfl⟩

/-- Conditions of such a class are alike. -/
theorem alike_of_class {c c' : Condition} (hkey : c'.key = c.key)
    (hclass : c'.data.toClass = c.data.toClass) (hattributes : c.data.toClass ≠ .attributes)
    (hspeed : c.data.toClass ≠ .speed) : c.Alike c' := by
  have hzero := contribution_eq_zero hattributes hspeed
  have hzero' : c'.defends = none ∧ ∀ isPlayer v, c'.contribution isPlayer v = 0 :=
    contribution_eq_zero (by rwa [hclass]) (by rwa [hclass])
  refine ⟨hkey, hclass, hzero'.1.trans hzero.1.symm, fun isPlayer v => ?_⟩
  rw [hzero.2, hzero'.2]

/-- Whether a condition fits its type is a matter of its key and its class. -/
theorem fits_congr {c c' : Condition} (hkey : c.key = c'.key)
    (hclass : c.data.toClass = c'.data.toClass) : c.Fits = c'.Fits := by
  have htype : c.conditionType = c'.conditionType := congrArg Prod.fst hkey
  rw [Fits, Fits, htype, hclass]

theorem Alike.fits {c c' : Condition} (h : c.Alike c') : c'.Fits = c.Fits :=
  fits_congr h.key h.toClass

end Condition

open Condition

/-! ## Sums -/

section Sums

variable {ι : Type*} {G : Type*} [DecidableEq ι] [AddCommGroup G]

/-- The amount of one element, and the rest. -/
theorem sum_map_erase {l : List ι} {a : ι} (ha : a ∈ l) (f : ι → G) :
    (l.map f).sum = f a + ((l.erase a).map f).sum :=
  ((List.perm_cons_erase ha).map f).sum_eq

omit [DecidableEq ι] in
/-- Only the elements of the list count. -/
theorem sum_map_congr {l : List ι} {f g : ι → G} (h : ∀ a ∈ l, f a = g a) :
    (l.map f).sum = (l.map g).sum :=
  congrArg List.sum (List.map_congr_left h)

/-- The amount of one element is changed. -/
theorem sum_map_change {l : List ι} (hl : l.Nodup) {a : ι} (ha : a ∈ l) {f g : ι → G}
    (h : ∀ b ∈ l, b ≠ a → g b = f b) : (l.map g).sum = (l.map f).sum - f a + g a := by
  have hrest : ((l.erase a).map g).sum = ((l.erase a).map f).sum := by
    refine sum_map_congr fun b hb => ?_
    have hmem := (hl.mem_erase_iff).mp hb
    exact h b hmem.2 hmem.1
  rw [sum_map_erase ha g, sum_map_erase ha f, hrest]
  abel

/-- The changes that the loop over an enumeration makes to one of its variables. -/
theorem sum_filterMap_self {f : ι → Var} (hf : Function.Injective f) {p : ι → Prop}
    [DecidablePred p] {x : ι → BitVec 32} (hp : ∀ i, ¬p i → x i = 0) {l : List ι} (hl : l.Nodup)
    {j : ι} (hj : j ∈ l) :
    (((l.filterMap fun i => if p i then some (f i, x i) else none).filter
      fun m => m.1 = f j).map Prod.snd).sum = x j := by
  have hzero : ∀ l : List ι, j ∉ l →
      (((l.filterMap fun i => if p i then some (f i, x i) else none).filter
        fun m => m.1 = f j).map Prod.snd).sum = 0 := by
    intro l hl
    induction l with
    | nil => rfl
    | cons i l ih =>
        have hne : f i ≠ f j := fun h => hl (hf h ▸ List.mem_cons_self)
        have hrest := ih fun h => hl (List.mem_cons_of_mem i h)
        by_cases hpi : p i
        · simpa [hpi, hne] using hrest
        · simpa [hpi] using hrest
  induction l with
  | nil => cases hj
  | cons i l ih =>
      obtain ⟨hi, hl⟩ := List.nodup_cons.mp hl
      by_cases hij : i = j
      · subst hij
        have hrest := hzero l hi
        by_cases hpi : p i
        · simpa [hpi] using hrest
        · rw [hp i hpi]
          simpa [hpi] using hrest
      · have hmem : j ∈ l := (List.mem_cons.mp hj).resolve_left fun h => hij h.symm
        have hne : f i ≠ f j := fun h => hij (hf h)
        have hrest := ih hl hmem
        by_cases hpi : p i
        · simpa [hpi, hne] using hrest
        · simpa [hpi] using hrest

omit [DecidableEq ι] in
/-- The other variables stay. -/
theorem sum_filterMap_other {f : ι → Var} {v : Var} (hv : ∀ i, f i ≠ v) {p : ι → Prop}
    [DecidablePred p] {x : ι → BitVec 32} (l : List ι) :
    (((l.filterMap fun i => if p i then some (f i, x i) else none).filter
      fun m => m.1 = v).map Prod.snd).sum = 0 := by
  induction l with
  | nil => rfl
  | cons i l ih =>
      by_cases hpi : p i
      · simpa [hpi, hv i] using ih
      · simpa [hpi] using ih

end Sums

/-! ## Attributes -/

namespace Creature

variable (env : Env) (s : Creature)

/-- The changes that the loops over skills, special skills and stats make. -/
theorem sum_loops (skills : Skill → BitVec 32) (specialSkills : SpecialSkill → BitVec 32)
    (stats : Stat → BitVec 32) (p : Skill → Prop) (q : SpecialSkill → Prop) (t : Stat → Prop)
    [DecidablePred p] [DecidablePred q] [DecidablePred t] (hp : ∀ i, ¬p i → skills i = 0)
    (hq : ∀ i, ¬q i → specialSkills i = 0) (ht : ∀ i, ¬t i → stats i = 0) (v : Var) :
    ((((Skill.all.filterMap fun i => if p i then some (Var.skill i, skills i) else none) ++
        (SpecialSkill.all.filterMap fun i =>
          if q i then some (Var.specialSkill i, specialSkills i) else none) ++
        Stat.all.filterMap fun i => if t i then some (Var.stat i, stats i) else none).filter
      fun m => m.1 = v).map Prod.snd).sum =
      match v with
      | .skill i => skills i
      | .specialSkill i => specialSkills i
      | .stat i => stats i
      | _ => 0 := by
  have hskill : Function.Injective Var.skill := fun _ _ h => Var.skill.inj h
  have hspecial : Function.Injective Var.specialSkill := fun _ _ h => Var.specialSkill.inj h
  have hstat : Function.Injective Var.stat := fun _ _ h => Var.stat.inj h
  rw [List.filter_append, List.filter_append, List.map_append, List.map_append, List.sum_append,
    List.sum_append]
  cases v with
  | skill i =>
      rw [sum_filterMap_self hskill hp (by decide) i.mem_all,
        sum_filterMap_other (f := Var.specialSkill) (fun _ h => Var.noConfusion h),
        sum_filterMap_other (f := Var.stat) (fun _ h => Var.noConfusion h)]
      simp
  | specialSkill i =>
      rw [sum_filterMap_self hspecial hq (by decide) i.mem_all,
        sum_filterMap_other (f := Var.skill) (fun _ h => Var.noConfusion h),
        sum_filterMap_other (f := Var.stat) (fun _ h => Var.noConfusion h)]
      simp
  | stat i =>
      rw [sum_filterMap_self hstat ht (by decide) i.mem_all,
        sum_filterMap_other (f := Var.skill) (fun _ h => Var.noConfusion h),
        sum_filterMap_other (f := Var.specialSkill) (fun _ h => Var.noConfusion h)]
      simp
  | statPercent i =>
      rw [sum_filterMap_other (f := Var.skill) (fun _ h => Var.noConfusion h),
        sum_filterMap_other (f := Var.specialSkill) (fun _ h => Var.noConfusion h),
        sum_filterMap_other (f := Var.stat) (fun _ h => Var.noConfusion h)]
      rfl
  | speed =>
      rw [sum_filterMap_other (f := Var.skill) (fun _ h => Var.noConfusion h),
        sum_filterMap_other (f := Var.specialSkill) (fun _ h => Var.noConfusion h),
        sum_filterMap_other (f := Var.stat) (fun _ h => Var.noConfusion h)]
      rfl

/-- Attributes are applied: the variables get what the condition then says. -/
theorem applyAttributes_eq (r : Nat) (c : Condition) (a : ConditionAttributes) :
    ∃ a' vars, a'.disableDefense = a.disableDefense ∧
      (∀ v, vars v = s.player.vars v +
        contribution s.isPlayer { c with data := .attributes a' } v) ∧
      s.applyAttributes env r c a =
        { s with
          player := { s.player with vars := vars }
          condition := Function.update s.condition r { c with data := .attributes a' } } := by
  by_cases hplayer : s.isPlayer = true
  · set a1 := s.updatePercentSkills env a with ha1
    set a2 := (s.updateSkills a1).updatePercentStats env a1 with ha2
    refine ⟨a2, ((s.updateSkills a1).updateStats a2).player.vars, rfl, ?_, ?_⟩
    · intro v
      show Equip.State.addVars (Equip.State.addVars s.player.vars _) _ v = _
      rw [Equip.addVars_apply, Equip.addVars_apply, add_assoc, ← List.sum_append, ← List.map_append,
        ← List.filter_append]
      have hloops := sum_loops a2.skills a2.specialSkills a2.stats (fun i => a2.skills i ≠ 0)
        (fun i => a2.specialSkills i ≠ 0) (fun i => a2.stats i ≠ 0) (fun _ => not_not.mp)
        (fun _ => not_not.mp) (fun _ => not_not.mp) v
      refine congrArg (s.player.vars v + ·) (Eq.trans ?_ hloops |>.trans ?_)
      · rfl
      · unfold contribution
        cases v <;> simp [hplayer]
    · rw [applyAttributes, if_pos hplayer]
      rfl
  · refine ⟨a, s.player.vars, rfl, ?_, ?_⟩
    · intro v
      unfold contribution
      cases v <;> simp [hplayer]
    · rw [applyAttributes, if_neg hplayer]
      rfl

/-- Attributes are withdrawn: the variables lose what the condition says. -/
theorem withdrawAttributes_eq {c : Condition} {a : ConditionAttributes}
    (hdata : c.data = .attributes a) :
    ∃ vars, (∀ v, vars v = s.player.vars v - contribution s.isPlayer c v) ∧
      s.withdrawAttributes a = { s with player := { s.player with vars := vars } } := by
  by_cases hplayer : s.isPlayer = true
  · refine ⟨(s.withdrawAttributes a).player.vars, ?_, ?_⟩
    · intro v
      rw [withdrawAttributes, if_pos hplayer]
      show Equip.State.addVars s.player.vars _ v = _
      rw [Equip.addVars_apply]
      have hloops := sum_loops (fun i => -a.skills i) (fun i => -a.specialSkills i)
        (fun i => -a.stats i) (fun i => a.skills i ≠ 0 ∨ a.skillsPercent i ≠ 0)
        (fun i => a.specialSkills i ≠ 0) (fun i => a.stats i ≠ 0)
        (fun i hi => by simp [not_not.mp fun h => hi (.inl h)])
        (fun i hi => by simp [not_not.mp hi]) (fun i hi => by simp [not_not.mp hi]) v
      rw [hloops]
      unfold contribution
      rw [hdata]
      cases v <;> simp [hplayer, sub_eq_add_neg]
    · rw [withdrawAttributes, if_pos hplayer]
      rfl
  · refine ⟨s.player.vars, ?_, ?_⟩
    · intro v
      unfold contribution
      rw [hdata]
      cases v <;> simp [hplayer]
    · rw [withdrawAttributes, if_neg hplayer]

end Creature

end Infernum
