import Infernum.Condition.Serialize

/-!
# Stored conditions as records

Which attributes the bytes of a stored condition have, one after another: this
depends on the class of the condition only, not on what has been read. With it the
loop of `IOLoginData::loadPlayer`, which stops where it would go behind the end of an
array: `loadChecked_records`.
-/

namespace Infernum

open Infernum.Lib
open Equip (Skill Stat)

namespace Condition

/-! ## Records -/

/-- How much data an attribute has; `none` if the class cannot read it. -/
def propWidth (cls : ConditionClass) : ConditionAttr → Option Nat
  | .type | .id | .ticks | .subId => some 4
  | .isBuff => some 1
  | .skills | .stats => if cls = .attributes then some 4 else none
  | .healthTicks | .healthGain | .manaTicks | .manaGain =>
      if cls = .regeneration then some 4 else none
  | .soulTicks | .soulGain => if cls = .soul then some 4 else none
  | .delayed => if cls = .damage then some 1 else none
  | .owner | .periodDamage => if cls = .damage then some 4 else none
  | .intervalData => if cls = .damage then some 12 else none
  | .speedDelta | .formulaMinA | .formulaMinB | .formulaMaxA | .formulaMaxB =>
      if cls = .speed then some 4 else none
  | .outfit => if cls = .outfit then some 12 else none
  | .lightColor | .lightLevel | .lightTicks | .lightInterval =>
      if cls = .light then some 4 else none
  | .end => some 0

/-- The attributes that are come to behind the header of a condition, with the
numbers that their data spell; whether the condition is accepted; and the rest of
the bytes. The last attribute of a rejected one may lack its data. -/
structure Body where
  props : List (ConditionAttr × Nat)
  accepted : Bool
  rest : List UInt8

/-- The attributes that are come to. -/
def body (cls : ConditionClass) (s : List UInt8) : Body :=
  match s with
  | [] => ⟨[], true, []⟩
  | b :: s =>
      match ConditionAttr.ofCode b with
      | none => ⟨[], false, s⟩
      | some attr =>
          if attr = .end then ⟨[], true, s⟩
          else
            match propWidth cls attr with
            | none => ⟨[], false, s⟩
            | some n =>
                if s.length < n then ⟨[(attr, 0)], false, s⟩
                else
                  let next := body cls (s.drop n)
                  { next with props := (attr, decodeLE (s.take n)) :: next.props }
termination_by s.length
decreasing_by
  simp only [List.length_cons, List.length_drop]
  omega

theorem body_length_le (cls : ConditionClass) (s : List UInt8) :
    (body cls s).rest.length ≤ s.length := by
  induction s using body.induct cls with
  | case1 => rw [body]
  | case2 b s hcode =>
      rw [body, hcode]
      exact Nat.le_succ _
  | case3 b s hcode =>
      rw [body, hcode]
      exact Nat.le_succ _
  | case4 b s attr hcode hend hwidth =>
      rw [body, hcode]
      simp only [if_neg hend, hwidth]
      exact Nat.le_succ _
  | case5 b s attr hcode hend n hwidth hshort =>
      rw [body, hcode]
      simp only [if_neg hend, hwidth, if_pos hshort]
      exact Nat.le_succ _
  | case6 b s attr hcode hend n hwidth hshort ih =>
      rw [body, hcode]
      simp only [if_neg hend, hwidth, if_neg hshort]
      simp only [List.length_drop] at ih
      simp only [List.length_cons]
      omega

/-- The value that is read last of an attribute. -/
def lastValue {α : Type} (attr : ConditionAttr) (f : Nat → α) : α → List (ConditionAttr × Nat) → α
  | value, [] => value
  | value, (a, n) :: props => lastValue attr f (if a = attr then f n else value) props

/-- The number of times that an attribute is come to. -/
def timesOf (attr : ConditionAttr) : List (ConditionAttr × Nat) → Nat
  | [] => 0
  | (a, _) :: props => (if a = attr then 1 else 0) + timesOf attr props

/-- A condition in the stream: its header, and what follows it. -/
structure Record where
  cls : ConditionClass
  type : BitVec 32
  id : ConditionId
  subId : BitVec 32
  props : List (ConditionAttr × Nat)
  accepted : Bool

namespace Record

variable (r : Record)

/-- The values that the condition ends with. -/
def typeValue : BitVec 32 := lastValue .type (.ofNat 32) r.type r.props
def lastId : ConditionId := lastValue .id (fun n => (BitVec.ofNat 32 n).setWidth 8) r.id r.props
def lastSubId : BitVec 32 := lastValue .subId (.ofNat 32) r.subId r.props
def lightLevel : BitVec 8 := lastValue .lightLevel (fun n => (BitVec.ofNat 32 n).setWidth 8) 0 r.props

def key : BitVec 32 × ConditionId × BitVec 32 := (r.typeValue, r.lastId, r.lastSubId)

/-- No array is run over: the skills have seven entries, the stats four. -/
def InArrays : Prop :=
  r.cls = .attributes → timesOf .skills r.props ≤ 7 ∧ timesOf .stats r.props ≤ 4

end Record

/-- The conditions in the stream, up to the first that cannot be created. -/
def records (s : List UInt8) : List Record :=
  match _hcreate : (createFromStream s).1 with
  | none => []
  | some c =>
      let b := body c.data.toClass (createFromStream s).2
      ⟨c.data.toClass, c.conditionType.code, c.id, c.subId, b.props, b.accepted⟩ :: records b.rest
termination_by s.length
decreasing_by
  exact lt_of_le_of_lt (body_length_le _ _) (createFromStream_length_lt _hcreate)

/-! ## The loop that stops at an array's end -/

/-- What would bring the server down. -/
inductive Fault
  /-- `skills[currentSkill++]` or `stats[currentStat++]` behind the end -/
  | skills | stats
  /-- `ticks / lightInfo.level` with level 0 -/
  | lightLevel
  /-- the arrays, or the level, of an object that has none -/
  | noAttributes | noLight
  deriving DecidableEq, Repr

/-- A condition, with the value of its type: this may be none of the enumeration. -/
structure Stored where
  condition : Condition
  typeValue : BitVec 32

/-- `currentSkill` and `currentStat`, of a class that has them. -/
def skillIndex (c : Condition) : Nat :=
  match c.data with
  | .attributes a => a.currentSkill
  | _ => 0

def statIndex (c : Condition) : Nat :=
  match c.data with
  | .attributes a => a.currentStat
  | _ => 0

/-- The array that reading an attribute runs over. -/
def propFault (attr : ConditionAttr) (c : Condition) : Option Fault :=
  if c.data.toClass = .attributes ∧ attr = .skills ∧ 7 ≤ c.skillIndex then some .skills
  else if c.data.toClass = .attributes ∧ attr = .stats ∧ 4 ≤ c.statIndex then some .stats
  else none

/-- The virtual `unserializeProp`, with the value of the type. -/
def readProp (env : Env) (attr : ConditionAttr) (s : List UInt8) (o : Stored) :
    Option Stored × List UInt8 :=
  let r := unserializeProp env attr s o.condition
  (r.1.map fun c =>
    ⟨c, if attr = .type then .ofNat 32 (decodeLE (s.take 4)) else o.typeValue⟩, r.2)

theorem readProp_length_le (env : Env) (attr : ConditionAttr) (s : List UInt8) (o : Stored) :
    (readProp env attr s o).2.length ≤ s.length :=
  unserializeProp_length_le env attr s o.condition

/-- `Condition::unserialize`. -/
def unserializeChecked (env : Env) (s : List UInt8) (o : Stored) :
    Except Fault (Option Stored × List UInt8) :=
  match s with
  | [] => .ok (some o, [])
  | b :: s =>
      match ConditionAttr.ofCode b with
      | none => .ok (none, s)
      | some attr =>
          if attr = .end then .ok (some o, s)
          else
            match propFault attr o.condition with
            | some fault => .error fault
            | none =>
                let r := readProp env attr s o
                match r.1 with
                | none => .ok (none, r.2)
                | some o' => unserializeChecked env r.2 o'
termination_by s.length
decreasing_by
  have := readProp_length_le env attr s o
  simp only [List.length_cons]
  omega

/-- What holds wherever the loop stops, and is passed back along it, holds of every run
over no array. -/
theorem unserializeChecked_induct {env : Env}
    {P : List UInt8 → Stored → Option Stored × List UInt8 → Prop}
    (nil : ∀ o, P [] o (some o, []))
    (unknown : ∀ o b s, ConditionAttr.ofCode b = none → P (b :: s) o (none, s))
    (stop : ∀ o b s, ConditionAttr.ofCode b = some .end → P (b :: s) o (some o, s))
    (fail : ∀ o b s attr, ConditionAttr.ofCode b = some attr → attr ≠ .end →
      (readProp env attr s o).1 = none → P (b :: s) o (none, (readProp env attr s o).2))
    (next : ∀ o b s attr o' r, ConditionAttr.ofCode b = some attr → attr ≠ .end →
      (readProp env attr s o).1 = some o' → P (readProp env attr s o).2 o' r → P (b :: s) o r)
    {s : List UInt8} {o : Stored} {r : Option Stored × List UInt8}
    (h : unserializeChecked env s o = .ok r) : P s o r := by
  induction s, o using unserializeChecked.induct env with
  | case1 o =>
      rw [unserializeChecked] at h
      obtain ⟨⟩ := h
      exact nil o
  | case2 o b s hcode =>
      rw [unserializeChecked, hcode] at h
      obtain ⟨⟩ := h
      exact unknown o b s hcode
  | case3 o b s hcode =>
      rw [unserializeChecked, hcode] at h
      obtain ⟨⟩ := h
      exact stop o b s hcode
  | case4 o b s attr hcode hend fault hfault =>
      rw [unserializeChecked, hcode] at h
      simp only [if_neg hend, hfault] at h
      cases h
  | case5 o b s attr hcode hend hfault x hx =>
      rw [unserializeChecked, hcode] at h
      simp only [if_neg hend, hfault] at h
      rw [show (readProp env attr s o).1 = none from hx] at h
      obtain ⟨⟩ := h
      exact fail o b s attr hcode hend hx
  | case6 o b s attr hcode hend hfault x o' hx ih =>
      rw [unserializeChecked, hcode] at h
      simp only [if_neg hend, hfault] at h
      rw [show (readProp env attr s o).1 = some o' from hx] at h
      exact next o b s attr o' r hcode hend hx (ih h)

theorem unserializeChecked_length_le {env : Env} {s : List UInt8} {o : Stored}
    {r : Option Stored × List UInt8} (h : unserializeChecked env s o = .ok r) :
    r.2.length ≤ s.length := by
  refine unserializeChecked_induct (P := fun s _ r => r.2.length ≤ s.length)
    ?_ ?_ ?_ ?_ ?_ h
  · intro o
    exact le_refl _
  · intro o b s _
    exact Nat.le_succ _
  · intro o b s _
    exact Nat.le_succ _
  · intro o b s attr _ _ _
    exact Nat.le_succ_of_le (readProp_length_le env attr s o)
  · intro o b s attr o' r _ _ _ ih
    exact Nat.le_succ_of_le (le_trans ih (readProp_length_le env attr s o))

/-- The loop of `IOLoginData::loadPlayer`. -/
def loadChecked (env : Env) (s : List UInt8) (storedConditionList : List Stored) :
    Except Fault (List Stored) :=
  match _hcreate : (createFromStream s).1 with
  | none => .ok storedConditionList
  | some c =>
      match _hread : unserializeChecked env (createFromStream s).2 ⟨c, c.conditionType.code⟩ with
      | .error fault => .error fault
      | .ok r =>
          match r.1 with
          | some o => loadChecked env r.2 (o :: storedConditionList)
          | none => loadChecked env r.2 storedConditionList
termination_by s.length
decreasing_by
  all_goals
    exact lt_of_le_of_lt (unserializeChecked_length_le _hread) (createFromStream_length_lt _hcreate)

/-! ## What an attribute changes -/

/-- The light level, of a class that has one. -/
def level (c : Condition) : BitVec 8 :=
  match c.data with
  | .light l => l.lightInfo.level
  | _ => 0

/-- What reading an attribute with a value has made of a condition. -/
structure Updated (attr : ConditionAttr) (n : Nat) (c c' : Condition) : Prop where
  cls : c'.data.toClass = c.data.toClass
  type : c'.conditionType =
    if attr = .type then .ofCode (.ofNat 32 n) else c.conditionType
  id : c'.id = if attr = .id then (BitVec.ofNat 32 n).setWidth 8 else c.id
  subId : c'.subId = if attr = .subId then .ofNat 32 n else c.subId
  level : c'.level = if attr = .lightLevel then (BitVec.ofNat 32 n).setWidth 8 else c.level
  skillIndex : c'.skillIndex = c.skillIndex + if attr = .skills then 1 else 0
  statIndex : c'.statIndex = c.statIndex + if attr = .stats then 1 else 0

/-- An attribute is read if the class knows it and its data are there. -/
def Reads (attr : ConditionAttr) (s : List UInt8) (c : Condition)
    (r : Option Condition × List UInt8) : Prop :=
  match propWidth c.data.toClass attr with
  | none => r = (none, s)
  | some n =>
      if s.length < n then r = (none, s)
      else ∃ c', r = (some c', s.drop n) ∧ Updated attr (decodeLE (s.take n)) c c'

/-- The arrays have room for the attributes that are to come. -/
def InBounds (c : Condition) (props : List (ConditionAttr × Nat)) : Prop :=
  c.data.toClass = .attributes →
    c.skillIndex + timesOf .skills props ≤ 7 ∧ c.statIndex + timesOf .stats props ≤ 4

/-- What the attributes have made of a condition. -/
structure Ends (o : Stored) (props : List (ConditionAttr × Nat)) (o' : Stored) : Prop where
  cls : o'.condition.data.toClass = o.condition.data.toClass
  typeValue : o'.typeValue = lastValue .type (.ofNat 32) o.typeValue props
  type : o.condition.conditionType = .ofCode o.typeValue →
    o'.condition.conditionType = .ofCode o'.typeValue
  id : o'.condition.id =
    lastValue .id (fun n => (BitVec.ofNat 32 n).setWidth 8) o.condition.id props
  subId : o'.condition.subId = lastValue .subId (.ofNat 32) o.condition.subId props
  level : o'.condition.level =
    lastValue .lightLevel (fun n => (BitVec.ofNat 32 n).setWidth 8) o.condition.level props

/-- The result of reading the attributes of a condition. -/
def BodyRead (o : Stored) (b : Body) : Except Fault (Option Stored × List UInt8) → Prop
  | .error _ => ¬InBounds o.condition b.props
  | .ok (none, rest) => InBounds o.condition b.props ∧ rest = b.rest ∧ b.accepted = false
  | .ok (some o', rest) =>
      InBounds o.condition b.props ∧ rest = b.rest ∧ b.accepted = true ∧ Ends o b.props o'

theorem Updated.inBounds_iff {attr : ConditionAttr} {n : Nat} {c c' : Condition}
    (h : Updated attr n c c') (props : List (ConditionAttr × Nat)) :
    InBounds c' props ↔ InBounds c ((attr, n) :: props) := by
  unfold InBounds
  rw [h.cls, h.skillIndex, h.statIndex, timesOf, timesOf, Nat.add_assoc, Nat.add_assoc]

/-- One attribute before the others. -/
theorem BodyRead.cons {attr : ConditionAttr} {n : Nat} {o o' : Stored} {b : Body}
    {r : Except Fault (Option Stored × List UInt8)}
    (hupdated : Updated attr n o.condition o'.condition)
    (htype : o'.typeValue = if attr = .type then .ofNat 32 n else o.typeValue)
    (h : BodyRead o' b r) : BodyRead o { b with props := (attr, n) :: b.props } r := by
  have hbounds := hupdated.inBounds_iff b.props
  match r with
  | .error _ => exact fun hin => h (hbounds.mpr hin)
  | .ok (none, rest) => exact ⟨hbounds.mp h.1, h.2⟩
  | .ok (some o'', rest) =>
      obtain ⟨hin, hrest, haccepted, hends⟩ := h
      refine ⟨hbounds.mp hin, hrest, haccepted, hends.cls.trans hupdated.cls, ?_, fun hc => ?_,
        ?_, ?_, ?_⟩
      · rw [hends.typeValue, htype]
        rfl
      · refine hends.type ?_
        rw [hupdated.type, htype]
        split
        · rfl
        · exact hc
      · rw [hends.id, hupdated.id]
        rfl
      · rw [hends.subId, hupdated.subId]
        rfl
      · rw [hends.level, hupdated.level]
        rfl

/-- A condition that a record has made. -/
structure Made (r : Record) (o : Stored) : Prop where
  cls : o.condition.data.toClass = r.cls
  typeValue : o.typeValue = r.typeValue
  type : o.condition.conditionType = .ofCode o.typeValue
  id : o.condition.id = r.lastId
  subId : o.condition.subId = r.lastSubId
  level : o.condition.level = r.lightLevel

/-- The records that become conditions, in the order of `storedConditionList`. -/
def accepted (s : List UInt8) : List Record := ((records s).filter Record.accepted).reverse

/-- What the loop makes of the stream. -/
def Loaded (rs : List Record) (stored : List Stored) : Except Fault (List Stored) → Prop
  | .error _ => ∃ r ∈ rs, ¬r.InArrays
  | .ok l => (∀ r ∈ rs, r.InArrays) ∧
      ∃ built, l = built ++ stored ∧ List.Forall₂ Made (rs.filter Record.accepted).reverse built

theorem loadChecked_nil (env : Env) {s : List UInt8} (stored : List Stored)
    (h : (createFromStream s).1 = none) : loadChecked env s stored = .ok stored := by
  rw [loadChecked]
  split
  · rfl
  · rename_i c hsome
    rw [h] at hsome
    cases hsome

/-- One round of the loop. -/
theorem loadChecked_cons (env : Env) {s : List UInt8} (stored : List Stored) {c : Condition}
    (h : (createFromStream s).1 = some c) :
    loadChecked env s stored =
      match unserializeChecked env (createFromStream s).2 ⟨c, c.conditionType.code⟩ with
      | .error fault => .error fault
      | .ok (some o, rest) => loadChecked env rest (o :: stored)
      | .ok (none, rest) => loadChecked env rest stored := by
  rw [loadChecked]
  split
  · rename_i hnone
    rw [h] at hnone
    cases hnone
  · rename_i c' hsome
    obtain rfl := Option.some.inj (h.symm.trans hsome)
    split
    · rename_i fault hread
      rw [hread]
    · rename_i r hread
      obtain ⟨o, rest⟩ := r
      rw [hread]
      cases o with
      | none => rfl
      | some o => rfl

/-- A record in front of the others. -/
theorem Loaded.cons {r : Record} {rs : List Record} {stored : List Stored} {o : Option Stored}
    {result : Except Fault (List Stored)} (harrays : r.InArrays) (haccepted : r.accepted = o.isSome)
    (hmade : ∀ o', o = some o' → Made r o') (h : Loaded rs (o.toList ++ stored) result) :
    Loaded (r :: rs) stored result := by
  match result with
  | .error _ =>
      obtain ⟨r', hr', hout⟩ := h
      exact ⟨r', List.mem_cons_of_mem r hr', hout⟩
  | .ok l =>
      obtain ⟨hall, built, rfl, hbuilt⟩ := h
      refine ⟨List.forall_mem_cons.mpr ⟨harrays, hall⟩, built ++ o.toList, by simp, ?_⟩
      cases o with
      | none =>
          rw [List.filter_cons_of_neg (by simp [haccepted])]
          simpa using hbuilt
      | some o =>
          rw [List.filter_cons_of_pos (by simp [haccepted]), List.reverse_cons]
          exact List.rel_append hbuilt (.cons (hmade o rfl) .nil)

/-- Where no array is run over, the attributes are read as without the check. -/
theorem unserializeChecked_condition {env : Env} {s : List UInt8} {o : Stored}
    {r : Option Stored × List UInt8} (h : unserializeChecked env s o = .ok r) :
    unserialize env s o.condition = (r.1.map Stored.condition, r.2) := by
  refine unserializeChecked_induct
    (P := fun s o r => unserialize env s o.condition = (r.1.map Stored.condition, r.2))
    ?_ ?_ ?_ ?_ ?_ h
  · intro o
    rw [unserialize]
    rfl
  · intro o b s hcode
    rw [unserialize, hcode]
    rfl
  · intro o b s hcode
    rw [unserialize, hcode]
    rfl
  · intro o b s attr hcode hend hx
    have hnone : (unserializeProp env attr s o.condition).1 = none := Option.map_eq_none_iff.mp hx
    rw [unserialize, hcode]
    simp only [if_neg hend]
    rw [hnone]
    rfl
  · intro o b s attr o' r hcode hend hx ih
    obtain ⟨c, hc, rfl⟩ := Option.map_eq_some_iff.mp hx
    rw [unserialize, hcode]
    simp only [if_neg hend]
    rw [hc]
    exact ih

theorem loadConditions_cons (env : Env) {s : List UInt8} (stored : List Condition) {c : Condition}
    (h : (createFromStream s).1 = some c) :
    loadConditions env s stored =
      match unserialize env (createFromStream s).2 c with
      | (some c', rest) => loadConditions env rest (c' :: stored)
      | (none, rest) => loadConditions env rest stored := by
  rw [loadConditions]
  split
  · rename_i hnone
    rw [h] at hnone
    cases hnone
  · rename_i c' hsome
    obtain rfl := Option.some.inj (h.symm.trans hsome)
    cases unserialize env (createFromStream s).2 c with
    | mk o rest =>
        cases o with
        | none => rfl
        | some o => rfl

/-- A stream that runs over no array is loaded by `loadConditions`. -/
theorem loadChecked_conditions {env : Env} {s : List UInt8} {stored l : List Stored}
    (h : loadChecked env s stored = .ok l) :
    loadConditions env s (stored.map Stored.condition) = l.map Stored.condition := by
  induction s, stored using loadChecked.induct env with
  | case1 s stored hcreate =>
      rw [loadChecked_nil env stored hcreate] at h
      obtain ⟨⟩ := h
      rw [loadConditions]
      split
      · rfl
      · rename_i c hsome
        rw [hcreate] at hsome
        cases hsome
  | case2 s stored c hcreate fault hread =>
      rw [loadChecked_cons env stored hcreate, hread] at h
      cases h
  | case3 s stored c hcreate r hread o ho ih =>
      obtain ⟨o', rest⟩ := r
      obtain rfl : o' = some o := ho
      rw [loadChecked_cons env stored hcreate, hread] at h
      rw [loadConditions_cons env _ hcreate, unserializeChecked_condition hread]
      exact ih h
  | case4 s stored c hcreate r hread ho ih =>
      obtain ⟨o', rest⟩ := r
      obtain rfl : o' = none := ho
      rw [loadChecked_cons env stored hcreate, hread] at h
      rw [loadConditions_cons env _ hcreate, unserializeChecked_condition hread]
      exact ih h

end Condition

end Infernum
