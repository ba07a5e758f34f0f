import Infernum.Condition.Serialize

/-!
# Conditions that are read back

What `createCondition` and `unserialize` make of the bytes that `serialize`
wrote, for every condition of every class, and the list of conditions that a
player gets back.
-/

namespace Infernum

open Infernum.Lib
open Equip (Skill SpecialSkill Stat)

namespace Condition

/-! ## Single fields -/

@[simp] theorem flag_ne_zero (b : Bool) : (flag b != 0) = b := by
  cases b <;> rfl

theorem toNat_lt_pow {n w : Nat} (hw : w ≤ 8 * n) (v : BitVec w) : v.toNat < 256 ^ n := by
  calc v.toNat < 2 ^ w := v.isLt
    _ ≤ 2 ^ (8 * n) := Nat.pow_le_pow_right (by decide) hw
    _ = 256 ^ n := by rw [pow_mul]; rfl

/-- A number that fits into its bytes is read back. -/
theorem read_encodeLE {α : Type} {n w : Nat} (hw : w ≤ 8 * n) (v : BitVec w)
    (rest : List UInt8) (f : BitVec w → α) :
    read n w (encodeLE n v.toNat ++ rest) f = (some (f v), rest) := by
  have hv : BitVec.ofNat w v.toNat = v := by
    rw [BitVec.ofNat_toNat, BitVec.setWidth_eq]
  rw [read, readLE_encodeLE, Nat.mod_eq_of_lt (toNat_lt_pow hw v)]
  show (some (f (BitVec.ofNat w v.toNat)), rest) = _
  rw [hv]

theorem field_encodeLE {n w : Nat} (hw : w ≤ 8 * n) (v : BitVec w) (rest : List UInt8) :
    field n w (encodeLE n v.toNat ++ rest) = (v, rest) := by
  have hv : BitVec.ofNat w v.toNat = v := by
    rw [BitVec.ofNat_toNat, BitVec.setWidth_eq]
  have htake : (encodeLE n v.toNat ++ rest).take n = encodeLE n v.toNat := by simp
  have hdrop : (encodeLE n v.toNat ++ rest).drop n = rest := by simp
  rw [field, htake, hdrop, decodeLE_encodeLE, Nat.mod_eq_of_lt (toNat_lt_pow hw v), hv]

theorem readIntervalInfo_write (info : IntervalInfo) (rest : List UInt8) :
    readIntervalInfo (writeIntervalInfo info ++ rest) = (some info, rest) := by
  have hlen : ¬(writeIntervalInfo info ++ rest).length < 12 := by
    simp [writeIntervalInfo]
    omega
  rw [readIntervalInfo, if_neg hlen]
  simp only [writeIntervalInfo, List.append_assoc]
  rw [field_encodeLE (by decide)]
  simp only [field_encodeLE (n := 4) (w := 32) (by decide)]

theorem readOutfit_write (o : Outfit) (rest : List UInt8) :
    readOutfit (writeOutfit o ++ rest) = (some o, rest) := by
  have hlen : ¬(writeOutfit o ++ rest).length < 12 := by
    simp [writeOutfit]
    omega
  rw [readOutfit, if_neg hlen]
  simp only [writeOutfit, List.append_assoc]
  simp only [field_encodeLE (n := 2) (w := 16) (by decide), field_encodeLE (n := 1) (w := 8) (by decide)]
  rfl

/-- The identifier is cut to the byte that it was. -/
theorem setWidth_signExtend (v : BitVec 8) : (v.signExtend 32).setWidth 8 = v := by
  ext i hi
  simp [BitVec.getLsbD_signExtend, hi]
  omega

/-! ## Properties -/

section Properties

variable {env : Env} {rest : List UInt8}

theorem unserialize_end (c : Condition) :
    unserialize env (ConditionAttr.end.code :: rest) c = (some c, rest) := by
  rw [unserialize, ConditionAttr.ofCode_code]
  rfl

/-- A property is read, and the loop goes on behind it. -/
theorem unserialize_cons {attr : ConditionAttr} (hend : attr ≠ .end) (s : List UInt8)
    (c : Condition) :
    unserialize env (attr.code :: s) c =
      match unserializeProp env attr s c with
      | (some c', s) => unserialize env s c'
      | (none, s) => (none, s) := by
  rw [unserialize, ConditionAttr.ofCode_code]
  simp only [if_neg hend]
  cases unserializeProp env attr s c with
  | mk c' s' => cases c' <;> rfl

theorem read_encodeLE_one {α : Type} (v : BitVec 8) (rest : List UInt8) (f : BitVec 8 → α) :
    read 1 8 (encodeLE 1 v.toNat ++ rest) f = (some (f v), rest) :=
  read_encodeLE (by decide) v rest f

theorem read_encodeLE_four {α : Type} (v : BitVec 32) (rest : List UInt8) (f : BitVec 32 → α) :
    read 4 32 (encodeLE 4 v.toNat ++ rest) f = (some (f v), rest) :=
  read_encodeLE (by decide) v rest f

/-- The loop over an array whose entries come one after another under the same code:
each entry goes where the counter stands. -/
theorem unserialize_array {ι : Type} [DecidableEq ι] {attr : ConditionAttr} (hend : attr ≠ .end)
    {all : List ι} (values : ι → BitVec 32) {state : (ι → BitVec 32) → Nat → Condition}
    (hread : ∀ f k i s, all[k]? = some i → unserializeProp env attr s (state f k) =
      read 4 32 s fun v => state (Function.update f i v) (k + 1))
    {done todo : List ι} (hall : all = done ++ todo) (f : ι → BitVec 32) :
    unserialize env ((todo.flatMap fun i => writeAttr attr 4 (values i)) ++ rest)
        (state f done.length) =
      unserialize env rest
        (state (todo.foldl (fun f i => Function.update f i (values i)) f) all.length) := by
  induction todo generalizing done f with
  | nil =>
      rw [hall, List.append_nil]
      rfl
  | cons i todo ih =>
      have hi : all[done.length]? = some i := by simp [hall]
      have hall' : all = (done ++ [i]) ++ todo := by simp [hall]
      have h := ih hall' (Function.update f i (values i))
      rw [List.length_append] at h
      rw [List.flatMap_cons, List.append_assoc, writeAttr, List.cons_append, unserialize_cons hend,
        hread f done.length i _ hi, read_encodeLE_four]
      exact h

/-- Every entry has been set. -/
theorem foldl_update {ι : Type} [DecidableEq ι] {values f : ι → BitVec 32} {list : List ι}
    (hlist : ∀ i, i ∈ list ∨ f i = values i) :
    list.foldl (fun f i => Function.update f i (values i)) f = values := by
  induction list generalizing f with
  | nil =>
      funext i
      exact (hlist i).resolve_left List.not_mem_nil
  | cons i list ih =>
      rw [List.foldl_cons]
      refine ih fun i' => ?_
      by_cases hi : i' = i
      · rw [hi]
        exact .inr (Function.update_self _ _ _)
      · rw [Function.update_of_ne hi]
        exact (hlist i').imp_left fun h => (List.mem_cons.mp h).resolve_left hi

/-- A condition with the fields of a damage. -/
def withDamage (cd : Condition × ConditionDamage) : Condition := { cd.1 with data := .damage cd.2 }

theorem unserialize_interval (info : IntervalInfo) (cd : Condition × ConditionDamage) :
    unserialize env (ConditionAttr.intervalData.code :: (writeIntervalInfo info ++ rest))
        (withDamage cd) =
      unserialize env rest (withDamage (pushDamage env info cd)) := by
  have hpush : readInterval env (withDamage cd) cd.2 info =
      withDamage (pushDamage env info cd) := by
    unfold readInterval pushDamage withDamage
    by_cases hticks : cd.1.ticks ≠ -1
    · simp only [if_pos hticks]
      rfl
    · simp only [if_neg hticks]
  have hdata : (withDamage cd).data = .damage cd.2 := rfl
  rw [unserialize_cons (by decide)]
  simp only [unserializeProp, hdata, unserializeDamage, readIntervalInfo_write, hpush]

/-- The damages come back in their order, and the ticks with them. -/
theorem unserialize_damageList (list : List IntervalInfo) (cd : Condition × ConditionDamage) :
    unserialize env
        ((list.flatMap fun info => ConditionAttr.intervalData.code :: writeIntervalInfo info) ++ rest)
        (withDamage cd) =
      unserialize env rest
        (withDamage (list.foldl (fun cd info => pushDamage env info cd) cd)) := by
  induction list generalizing cd with
  | nil => rfl
  | cons info list ih =>
      rw [List.flatMap_cons, List.append_assoc, List.cons_append, unserialize_interval]
      exact ih (pushDamage env info cd)

end Properties

/-! ## Whole conditions -/

/-- What is read back of the data of a condition; the damages come later. -/
def reloadedData : ConditionData → ConditionData
  | .attributes a => .attributes
      { skills := a.skills, stats := a.stats, currentSkill := 7, currentStat := 4 }
  | .regeneration g => .regeneration { g with internalHealthTicks := 0, internalManaTicks := 0 }
  | .soul u => .soul { u with internalSoulTicks := 0 }
  | .damage d => .damage { delayed := d.delayed, periodDamage := d.periodDamage }
  | data => data

/-- What is read back of a condition. The ticks of a damage are those of its list. -/
def reloaded (env : Env) (c : Condition) : Condition :=
  match c.data with
  | .damage d =>
      withDamage (d.damageList.foldl (fun cd info => pushDamage env info cd)
        (new c.id c.conditionType 0 c.isBuff c.subId (reloadedData c.data),
          { delayed := d.delayed, periodDamage := d.periodDamage }))
  | data => new c.id c.conditionType c.ticks c.isBuff c.subId (reloadedData data)

/-- What `createCondition` makes, before the properties are read. -/
def blankData : ConditionClass → ConditionData
  | .generic => .generic
  | .attributes => .attributes {}
  | .regeneration => .regeneration {}
  | .soul => .soul {}
  | .invisible => .invisible
  | .damage => .damage {}
  | .speed => .speed { speedDelta := 0 }
  | .outfit => .outfit {}
  | .light => .light { lightInfo := {} }
  | .spellCooldown => .spellCooldown
  | .spellGroupCooldown => .spellGroupCooldown

/-- The header brings back what the base class has. -/
theorem createFromStream_serialize {c : Condition} (hfits : c.Fits = true) (rest : List UInt8) :
    createFromStream (c.serialize ++ rest) =
      (some (new c.id c.conditionType (if c.data.toClass = .damage then 0 else c.ticks) c.isBuff
        c.subId (blankData c.data.toClass)), serializeData c.data ++ rest) := by
  have hclass : c.conditionType.toClass = some c.data.toClass := by simpa [Fits] using hfits
  have header : ∀ {α : Type} {a : ConditionAttr} {n w : Nat} (hw : w ≤ 8 * n) (v : BitVec w)
      (s : List UInt8) (f : BitVec w → List UInt8 → Option α × List UInt8),
      readHeader a n w (writeAttr a n v ++ s) f = f v s := by
    intro α a n w hw v s f
    have hv : BitVec.ofNat w v.toNat = v := by
      rw [BitVec.ofNat_toNat, BitVec.setWidth_eq]
    rw [writeAttr, List.cons_append, readHeader, if_pos rfl, readLE_encodeLE,
      Nat.mod_eq_of_lt (toNat_lt_pow hw v)]
    show f (BitVec.ofNat w v.toNat) s = _
    rw [hv]
  simp only [serialize, serializeBase, List.append_assoc, createFromStream]
  rw [header (by decide), header (by decide), header (by decide), header (by decide),
    header (by decide), ConditionType.ofCode_code, setWidth_signExtend, flag_ne_zero]
  unfold createCondition
  rw [hclass]
  cases c.data <;> rfl

section Classes

variable (env : Env) (c : Condition) (rest : List UInt8)

theorem unserialize_attributes (a : ConditionAttributes) :
    unserialize env (serializeData (.attributes a) ++ ConditionAttr.end.code :: rest)
        { c with data := .attributes {} } =
      (some { c with data := reloadedData (.attributes a) }, rest) := by
  let state (skills : Skill → BitVec 32) (stats : Stat → BitVec 32) (k l : Nat) : Condition :=
    let a : ConditionAttributes :=
      { skills := skills, stats := stats, currentSkill := k, currentStat := l }
    { c with data := .attributes a }
  have hskills (s : List UInt8) :
      unserialize env ((Skill.all.flatMap fun i => writeAttr .skills 4 (a.skills i)) ++ s)
          (state (fun _ => 0) (fun _ => 0) 0 0) =
        unserialize env s (state a.skills (fun _ => 0) 7 0) := by
    have hread : ∀ f k i s, Skill.all[k]? = some i →
        unserializeProp env .skills s (state f (fun _ => 0) k 0) =
          read 4 32 s fun v => state (Function.update f i v) (fun _ => 0) (k + 1) 0 := by
      intro f k i s hi
      simp only [unserializeProp, state, unserializeAttributes, hi]
    have hall : Skill.all = [] ++ Skill.all := rfl
    refine (unserialize_array (by decide) a.skills hread hall _).trans ?_
    rw [foldl_update fun i => .inl i.mem_all]
    rfl
  have hstats (s : List UInt8) :
      unserialize env ((Stat.all.flatMap fun i => writeAttr .stats 4 (a.stats i)) ++ s)
          (state a.skills (fun _ => 0) 7 0) =
        unserialize env s (state a.skills a.stats 7 4) := by
    have hread : ∀ f k i s, Stat.all[k]? = some i →
        unserializeProp env .stats s (state a.skills f 7 k) =
          read 4 32 s fun v => state a.skills (Function.update f i v) 7 (k + 1) := by
      intro f k i s hi
      simp only [unserializeProp, state, unserializeAttributes, hi]
    have hall : Stat.all = [] ++ Stat.all := rfl
    refine (unserialize_array (by decide) a.stats hread hall _).trans ?_
    rw [foldl_update fun i => .inl i.mem_all]
    rfl
  rw [serializeData, List.append_assoc]
  exact (hskills _).trans ((hstats _).trans (unserialize_end _))

theorem unserialize_damage (d : ConditionDamage) :
    unserialize env (serializeData (.damage d) ++ ConditionAttr.end.code :: rest)
        { c with data := .damage {} } =
      (some (withDamage (d.damageList.foldl (fun cd info => pushDamage env info cd)
        ({ c with data := reloadedData (.damage d) },
          { delayed := d.delayed, periodDamage := d.periodDamage }))), rest) := by
  simp only [serializeData, writeAttr, List.append_assoc, List.cons_append]
  rw [unserialize_cons (by decide)]
  simp only [unserializeProp, unserializeDamage, read_encodeLE_one, flag_ne_zero]
  rw [unserialize_cons (by decide)]
  simp only [unserializeProp, unserializeDamage, read_encodeLE_four]
  exact (unserialize_damageList d.damageList ({ c with data := reloadedData (.damage d) },
    { delayed := d.delayed, periodDamage := d.periodDamage })).trans (unserialize_end _)

/-- The properties of the classes without a loop are read one after another. -/
theorem unserialize_plain {data : ConditionData} (hattributes : data.toClass ≠ .attributes)
    (hdamage : data.toClass ≠ .damage) :
    unserialize env (serializeData data ++ ConditionAttr.end.code :: rest)
        { c with data := blankData data.toClass } =
      (some { c with data := reloadedData data }, rest) := by
  have hbyte : ∀ v : BitVec 8, (v.setWidth 32).setWidth 8 = v := fun v =>
    BitVec.setWidth_setWidth_of_le v (by decide) |>.trans (BitVec.setWidth_eq v)
  cases data with
  | attributes a => exact absurd rfl hattributes
  | damage d => exact absurd rfl hdamage
  | regeneration g =>
      simp [serializeData, writeAttr, blankData, ConditionData.toClass, reloadedData,
        unserialize_cons, unserialize_end, unserializeProp, unserializeRegeneration,
        read_encodeLE_four]
  | soul u =>
      simp [serializeData, writeAttr, blankData, ConditionData.toClass, reloadedData,
        unserialize_cons, unserialize_end, unserializeProp, unserializeSoul, read_encodeLE_four]
  | speed speed =>
      simp [serializeData, writeAttr, blankData, ConditionData.toClass, reloadedData,
        unserialize_cons, unserialize_end, unserializeProp, unserializeSpeed, read_encodeLE_four]
  | outfit o =>
      simp [serializeData, blankData, ConditionData.toClass, reloadedData,
        unserialize_cons, unserialize_end, unserializeProp, unserializeOutfit, readOutfit_write]
  | light l =>
      simp [-BitVec.toNat_setWidth, serializeData, writeAttr, blankData, ConditionData.toClass,
        reloadedData, unserialize_cons, unserialize_end, unserializeProp, unserializeLight,
        read_encodeLE_four, hbyte]
  | _ => exact unserialize_end _

end Classes

/-- The properties bring back what the class writes. -/
theorem unserialize_serializeData (env : Env) (c : Condition) (rest : List UInt8) :
    unserialize env (serializeData c.data ++ ConditionAttr.end.code :: rest)
        (new c.id c.conditionType (if c.data.toClass = .damage then 0 else c.ticks) c.isBuff
          c.subId (blankData c.data.toClass)) =
      (some (reloaded env c), rest) := by
  obtain ⟨endTime, subId, ticks, conditionType, isBuff, id, data⟩ := c
  cases data with
  | attributes a =>
      exact unserialize_attributes env (new id conditionType ticks isBuff subId .generic) rest a
  | damage d =>
      exact unserialize_damage env (new id conditionType 0 isBuff subId .generic) rest d
  | _ =>
      exact unserialize_plain env (new id conditionType ticks isBuff subId .generic) rest
        (fun h => ConditionClass.noConfusion h) (fun h => ConditionClass.noConfusion h)

/-- A condition that is saved is read back, and what follows it is left. -/
theorem load_serialize (env : Env) {c : Condition} (hfits : c.Fits = true) (rest : List UInt8) :
    ∃ c' s, createFromStream (c.serialize ++ ConditionAttr.end.code :: rest) = (some c', s) ∧
      unserialize env s c' = (some (reloaded env c), rest) :=
  ⟨_, _, createFromStream_serialize hfits _, unserialize_serializeData env c rest⟩

theorem loadConditions_nil (env : Env) (stored : List Condition) :
    loadConditions env [] stored = stored := by
  rw [loadConditions]
  rfl

/-- A condition that is read goes in front of the others. -/
theorem loadConditions_serialize (env : Env) {c : Condition} (hfits : c.Fits = true)
    (rest : List UInt8) (stored : List Condition) :
    loadConditions env (c.serialize ++ ConditionAttr.end.code :: rest) stored =
      loadConditions env rest (reloaded env c :: stored) := by
  obtain ⟨c', s, hcreate, hread⟩ := load_serialize env hfits rest
  rw [loadConditions]
  split
  · rename_i hnone
    rw [hcreate] at hnone
    cases hnone
  · rename_i c'' hsome
    rw [hcreate] at hsome
    cases hsome
    simp only [hcreate, hread]

/-- The conditions that are saved with a player come back in the opposite order. -/
theorem loadConditions_save (env : Env) {conditions : List Condition}
    (hfits : ∀ c ∈ conditions, c.Fits = true) (stored : List Condition) :
    loadConditions env (saveConditions conditions) stored =
      ((conditions.filter isPersistent).map (reloaded env)).reverse ++ stored := by
  induction conditions generalizing stored with
  | nil => exact loadConditions_nil env stored
  | cons c conditions ih =>
      have htail := ih fun c hc => hfits c (List.mem_cons_of_mem _ hc)
      by_cases hpersistent : c.isPersistent = true
      · have hsave : saveConditions (c :: conditions) =
            c.serialize ++ ConditionAttr.end.code :: saveConditions conditions := by
          rw [saveConditions, List.filter_cons_of_pos hpersistent, List.flatMap_cons,
            List.append_assoc]
          rfl
        rw [hsave, loadConditions_serialize env (hfits c List.mem_cons_self), htail,
          List.filter_cons_of_pos hpersistent]
        simp
      · have hsave : saveConditions (c :: conditions) = saveConditions conditions := by
          rw [saveConditions, List.filter_cons_of_neg hpersistent]
          rfl
        rw [hsave, htail, List.filter_cons_of_neg hpersistent]

end Condition

end Infernum
