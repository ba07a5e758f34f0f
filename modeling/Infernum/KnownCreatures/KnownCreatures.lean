import Mathlib.Data.List.Nodup
import Mathlib.Data.List.Perm.Basic
import Mathlib.Tactic.Common

/-!
# Known creatures

`checkCreatureAsKnown` keeps the set of the creatures that a client knows. A client
has room for 1300; when one more is announced, the server looks for a creature that
the player does not see and has the client forget it, or else any other.

The set is a hash set, which puts its elements in whatever order it likes each time
one is inserted. The set of the client follows the answers, and the two sets are
equal after every call. But the creature that is being announced is in the set that
is searched, and if it is the first that is not seen, it is the one to go.
-/

namespace Infernum.KnownCreatures

/-! ### Creatures -/

/-- The id of a creature; the counters that ids are drawn from start far above zero. -/
structure CreatureId where
  id : UInt32
  nonzero : id ≠ 0
deriving DecidableEq

/-- How the container arranges its elements. -/
structure Arrangement where
  order : List CreatureId → List CreatureId
  perm : ∀ l, (order l).Perm l

/-- A call: the creature, whom the player sees (`canSee(g_game.getCreatureByID(id))`),
and what an insertion does to the order of the set. -/
structure Call where
  id : CreatureId
  canSee : CreatureId → Bool
  container : Arrangement

/-- `known` and `removedKnown`; `none` if the latter has been left as it was. -/
structure Answer where
  known : Bool
  removedKnown : Option UInt32

/-- The set with the creature in it, in the order of iteration. -/
def Call.inserted (call : Call) (knownCreatureSet : List CreatureId) : List CreatureId :=
  call.container.order (call.id :: knownCreatureSet)

/-- `removedKnown = *it; knownCreatureSet.erase(it);` -/
def remove (set : List CreatureId) (it : CreatureId) : Answer × List CreatureId :=
  ({ known := false, removedKnown := some it.id }, set.erase it)

/-- `checkCreatureAsKnown`; no result where the end of the set would be read. -/
def checkCreatureAsKnown (call : Call) (knownCreatureSet : List CreatureId) :
    Option (Answer × List CreatureId) :=
  if call.id ∈ knownCreatureSet then
    some ({ known := true, removedKnown := none }, knownCreatureSet)
  else
    let set := call.inserted knownCreatureSet
    if set.length > 1300 then
      -- Look for a creature to remove
      match set.find? fun c => !call.canSee c with
      | some it => some (remove set it)
      | none =>
          -- Bad situation. Let's just remove anyone.
          match set with
          | [] => none
          | it :: rest =>
              if it = call.id then
                match rest with
                | [] => none
                | it :: _ => some (remove set it)
              else some (remove set it)
    else some ({ known := false, removedKnown := some 0 }, set)

/-! ### The client -/

/-- The set of a client that is told an answer: it adds a creature that it has not
been said to know, and deletes the one to be forgotten. -/
def Answer.replay (answer : Answer) (id : CreatureId) (client : List CreatureId) :
    List CreatureId :=
  if answer.known then client
  else (id :: client).filter fun c => some c.id ≠ answer.removedKnown

structure State where
  knownCreatureSet : List CreatureId
  client : List CreatureId

def State.start : State := { knownCreatureSet := [], client := [] }

def step (s : State) (call : Call) : Option (Answer × State) := do
  let (answer, set) ← checkCreatureAsKnown call s.knownCreatureSet
  pure (answer, { knownCreatureSet := set, client := answer.replay call.id s.client })

def run (s : State) : List Call → Option State
  | [] => some s
  | call :: calls => do
      let (_, s) ← step s call
      run s calls

/-! ### What a call does -/

/-- The set is one, has room, and is the client's. -/
structure Mirrored (s : State) : Prop where
  nodup : s.knownCreatureSet.Nodup
  size : s.knownCreatureSet.length ≤ 1300
  client : ∀ c, c ∈ s.client ↔ c ∈ s.knownCreatureSet

/-- The creature may be announced: it is known, or there is room for it, or the
player sees it, or another one comes first whom the player does not see. -/
def Call.Keeps (call : Call) (knownCreatureSet : List CreatureId) : Prop :=
  call.id ∈ knownCreatureSet ∨ knownCreatureSet.length < 1300 ∨ call.canSee call.id = true ∨
    ∃ before after c, call.inserted knownCreatureSet = before ++ call.id :: after ∧
      c ∈ before ∧ call.canSee c = false

section Call

variable {call : Call} {set : List CreatureId}

theorem length_inserted (call : Call) (set : List CreatureId) :
    (call.inserted set).length = set.length + 1 := by
  rw [Call.inserted, (call.container.perm _).length_eq, List.length_cons]

theorem mem_inserted {c : CreatureId} : c ∈ call.inserted set ↔ c = call.id ∨ c ∈ set := by
  rw [Call.inserted, (call.container.perm _).mem_iff, List.mem_cons]

theorem nodup_inserted (hset : set.Nodup) (hid : call.id ∉ set) : (call.inserted set).Nodup :=
  (call.container.perm _).nodup_iff.mpr (List.nodup_cons.mpr ⟨hid, hset⟩)

/-- What a call answers: the creature is known; or there is room; or one of the set
goes, the first that is not seen, and one that is seen only if all are, and then
another than the one that is announced. -/
theorem checkCreatureAsKnown_cases (call : Call) (hset : set.Nodup) :
    (call.id ∈ set ∧ checkCreatureAsKnown call set
      = some ({ known := true, removedKnown := none }, set)) ∨
    (call.id ∉ set ∧ set.length < 1300 ∧ checkCreatureAsKnown call set
      = some ({ known := false, removedKnown := some 0 }, call.inserted set)) ∨
    (call.id ∉ set ∧ 1300 ≤ set.length ∧ ∃ it ∈ call.inserted set,
      checkCreatureAsKnown call set = some (remove (call.inserted set) it) ∧
        ((call.inserted set).find? (fun c => !call.canSee c) = some it ∨
          (call.inserted set).find? (fun c => !call.canSee c) = none ∧ it ≠ call.id)) := by
  by_cases hid : call.id ∈ set
  · exact .inl ⟨hid, if_pos hid⟩
  · refine .inr ?_
    have hlen := length_inserted call set
    by_cases hroom : set.length < 1300
    · refine .inl ⟨hid, hroom, ?_⟩
      rw [checkCreatureAsKnown, if_neg hid]
      exact if_neg (by omega)
    · refine .inr ⟨hid, by omega, ?_⟩
      rw [checkCreatureAsKnown, if_neg hid]
      simp only [if_pos (by omega : (call.inserted set).length > 1300)]
      have hnodup := nodup_inserted hset hid
      revert hlen hnodup
      generalize call.inserted set = l
      intro hlen hnodup
      cases hfind : l.find? fun c => !call.canSee c with
      | some it => exact ⟨it, List.mem_of_find?_eq_some hfind, rfl, .inl rfl⟩
      | none =>
          match l, hlen, hnodup with
          | [], hlen, _ => simp at hlen
          | [it], hlen, _ =>
              rw [List.length_singleton] at hlen
              omega
          | it :: next :: rest, _, hnodup =>
              have hne : it ≠ next := fun h => (List.nodup_cons.mp hnodup).1 (h ▸ List.mem_cons_self)
              by_cases hit : it = call.id
              · refine ⟨next, List.mem_cons_of_mem _ List.mem_cons_self, ?_, .inr ⟨rfl, ?_⟩⟩
                · simp only [if_pos hit]
                · exact fun h => hne (hit.trans h.symm)
              · refine ⟨it, List.mem_cons_self, ?_, .inr ⟨rfl, hit⟩⟩
                simp only [if_neg hit]

/-- The first that is not seen is the one that is announced exactly if it is not seen
itself, and all in front of it are. -/
theorem find?_eq_id_iff (hset : set.Nodup) (hid : call.id ∉ set) :
    (call.inserted set).find? (fun c => !call.canSee c) = some call.id ↔
      call.canSee call.id = false ∧
        ¬∃ before after c, call.inserted set = before ++ call.id :: after ∧
          c ∈ before ∧ call.canSee c = false := by
  rw [List.find?_eq_some_iff_append]
  have hnodup := nodup_inserted hset hid
  -- the creature is in the set once
  have hsplit : ∀ {before after}, call.inserted set = before ++ call.id :: after →
      call.id ∉ before ∧ call.id ∉ after := by
    intro before after hl
    rw [hl] at hnodup
    exact ⟨fun hmem => List.disjoint_of_nodup_append hnodup hmem List.mem_cons_self,
      (List.nodup_cons.mp (List.nodup_append.mp hnodup).2.1).1⟩
  constructor
  · rintro ⟨hhidden, before, after, hl, hseen⟩
    refine ⟨by simpa using hhidden, ?_⟩
    rintro ⟨before', after', c, hl', hc, hcannot⟩
    have hsame : before = before' :=
      ((List.append_cons_inj_of_notMem (hsplit hl).1 (hsplit hl).2).mp (hl.symm.trans hl')).1
    have hsees := hseen c (hsame ▸ hc)
    rw [hcannot] at hsees
    cases hsees
  · rintro ⟨hhidden, hnone⟩
    obtain ⟨before, after, hl⟩ := List.append_of_mem (mem_inserted.mpr (.inl rfl))
    refine ⟨by rw [hhidden]; rfl, before, after, hl, fun c hc => ?_⟩
    cases hsees : call.canSee c with
    | true => rfl
    | false => exact absurd ⟨before, after, c, hl, hc, hsees⟩ hnone

/-- A call answers and keeps the two sets equal, and lets the creature that it has
announced in if it may. -/
theorem step_spec {s : State} (h : Mirrored s) (call : Call) :
    ∃ answer s', step s call = some (answer, s') ∧ Mirrored s' ∧
      (answer.known = true → call.id ∈ s.client) ∧
      (answer.removedKnown ≠ some call.id.id ↔ call.Keeps s.knownCreatureSet) := by
  obtain ⟨hnodup, hsize, hclient⟩ := h
  have hstep : ∀ {answer set}, checkCreatureAsKnown call s.knownCreatureSet = some (answer, set) →
      step s call = some (answer,
        { knownCreatureSet := set, client := answer.replay call.id s.client }) := by
    intro answer set hcheck
    rw [step, hcheck]
    rfl
  rcases checkCreatureAsKnown_cases call hnodup with
    ⟨hknown, hcheck⟩ | ⟨hnew, hroom, hcheck⟩ | ⟨hnew, hfull, it, hit, hcheck, hfind⟩
  · refine ⟨_, _, hstep hcheck, ⟨hnodup, hsize, hclient⟩, fun _ => (hclient _).mpr hknown, ?_⟩
    exact ⟨fun _ => .inl hknown, fun _ h => (by cases h)⟩
  · have hlen := length_inserted call s.knownCreatureSet
    refine ⟨_, _, hstep hcheck, ⟨nodup_inserted hnodup hnew, by simp only; omega, fun c => ?_⟩,
      fun h => (by cases h), fun _ => .inr (.inl hroom), fun _ h => ?_⟩
    · have hzero : some c.id ≠ some (0 : UInt32) := fun h => c.nonzero (Option.some.inj h)
      simp only [Answer.replay, Bool.false_eq_true, if_false, List.mem_filter, List.mem_cons,
        mem_inserted, hclient, decide_eq_true hzero, and_true]
    · exact call.id.nonzero (Option.some.inj h).symm
  · have hlen := length_inserted call s.knownCreatureSet
    have hnodup' := nodup_inserted hnodup hnew
    have heq : ∀ {c d : CreatureId}, some c.id = some d.id ↔ c = d := by
      intro c d
      rw [Option.some.injEq]
      exact ⟨fun h => by cases c; cases d; cases h; rfl, fun h => h ▸ rfl⟩
    refine ⟨_, _, hstep hcheck, ⟨hnodup'.erase _, ?_, fun c => ?_⟩, fun h => (by cases h), ?_⟩
    · simp only [List.length_erase_of_mem hit]
      omega
    · simp only [Answer.replay, Bool.false_eq_true, if_false, List.mem_filter,
        List.mem_cons, hnodup'.mem_erase_iff, mem_inserted, hclient, ne_eq, heq,
        decide_eq_true_eq]
      exact and_comm
    · have hevicted := find?_eq_id_iff hnodup hnew
      have hgone : it = call.id ↔
          (call.inserted s.knownCreatureSet).find? (fun c => !call.canSee c) = some call.id := by
        rcases hfind with hfind | ⟨hfind, hne⟩
        · rw [hfind, Option.some.injEq]
        · rw [hfind]
          exact ⟨fun h => absurd h hne, fun h => by cases h⟩
      simp only [ne_eq, heq, hgone, hevicted, Call.Keeps, hnew, false_or,
        Nat.not_lt.mpr hfull, not_and, not_not]
      cases call.canSee call.id with
      | true => simp
      | false => simp

end Call

theorem mirrored_start : Mirrored .start := by
  constructor
  · exact List.nodup_nil
  · exact Nat.zero_le _
  · exact fun c => Iff.rfl

/-- **After every sequence of calls the client's set is the set of the server, which
holds 1300 creatures at most; and the next call, whatever it is, answers, says that a
creature is known only if the client knows it, and does not have the client forget
the creature that it announces exactly if that may be announced.** -/
theorem known_creatures_mirrored (calls : List Call) :
    ∃ s, run .start calls = some s ∧ Mirrored s ∧
      ∀ call, ∃ answer s', step s call = some (answer, s') ∧ Mirrored s' ∧
        (answer.known = true → call.id ∈ s.client) ∧
        (answer.removedKnown ≠ some call.id.id ↔ call.Keeps s.knownCreatureSet) := by
  have hrun : ∀ (calls : List Call) (s : State), Mirrored s →
      ∃ s', run s calls = some s' ∧ Mirrored s' := by
    intro calls
    induction calls with
    | nil => exact fun s h => ⟨s, rfl, h⟩
    | cons call calls ih =>
        intro s h
        obtain ⟨answer, s', hstep, hs', -⟩ := step_spec h call
        obtain ⟨s'', hrest, hs''⟩ := ih s' hs'
        refine ⟨s'', ?_, hs''⟩
        rw [run, hstep]
        exact hrest
  obtain ⟨s, hs, hmirrored⟩ := hrun calls .start mirrored_start
  exact ⟨s, hs, hmirrored, fun call => step_spec hmirrored call⟩

/-! ### A set that is full -/

def nth (n : Nat) : CreatureId :=
  if h : UInt32.ofNat (n + 1) ≠ 0 then { id := UInt32.ofNat (n + 1), nonzero := h }
  else { id := 1, nonzero := by decide }

theorem nth_id {n : Nat} (h : n ≤ 1300) : (nth n).id.toNat = n + 1 := by
  have hval : (UInt32.ofNat (n + 1)).toNat = n + 1 := by
    rw [UInt32.toNat_ofNat']
    omega
  have hne : UInt32.ofNat (n + 1) ≠ 0 := by
    intro hzero
    rw [hzero] at hval
    exact absurd hval.symm (Nat.succ_ne_zero n)
  rw [nth, dif_pos hne, hval]

/-- A container that puts a new element first. -/
def inFront : Arrangement := { order := id, perm := fun _ => .refl _ }

/-- The player sees everyone but the one that `hidden` tells. -/
def callOf (hidden : CreatureId → Bool) (n : Nat) : Call :=
  { id := nth n, canSee := fun c => !hidden c, container := inFront }

theorem run_append (calls calls' : List Call) :
    ∀ s, run s (calls ++ calls') = (run s calls).bind fun s => run s calls' := by
  induction calls with
  | nil => exact fun s => rfl
  | cons call calls ih =>
      intro s
      rw [List.cons_append, run, run]
      cases step s call with
      | none => rfl
      | some r => exact ih r.2

/-- Creatures that are announced one after the other, as long as there is room. -/
theorem run_first (n : Nat) (hn : n ≤ 1300) :
    ∃ s, run .start ((List.range n).map (callOf fun _ => false)) = some s ∧ Mirrored s ∧
      s.knownCreatureSet.length = n ∧ ∀ c ∈ s.knownCreatureSet, c.id.toNat ≤ n := by
  induction n with
  | zero => exact ⟨.start, rfl, mirrored_start, rfl, fun c hc => absurd hc List.not_mem_nil⟩
  | succ n ih =>
      obtain ⟨s, hrun, hmirrored, hlen, hids⟩ := ih (by omega)
      have hid := nth_id (by omega : n ≤ 1300)
      have hnew : (callOf (fun _ => false) n).id ∉ s.knownCreatureSet := by
        intro hmem
        have hle := hids _ hmem
        rw [show (callOf (fun _ => false) n).id = nth n from rfl, hid] at hle
        omega
      obtain ⟨answer, s', hstep, hmirrored', -⟩ := step_spec hmirrored (callOf (fun _ => false) n)
      have hset : s'.knownCreatureSet = nth n :: s.knownCreatureSet := by
        rcases checkCreatureAsKnown_cases (callOf (fun _ => false) n) hmirrored.nodup with
          ⟨hknown, -⟩ | ⟨-, -, hcheck⟩ | ⟨-, hfull, -⟩
        · exact absurd hknown hnew
        · rw [step, hcheck, Option.bind_eq_bind, Option.bind_some, Option.pure_def,
            Option.some.injEq, Prod.mk.injEq] at hstep
          rw [← hstep.2]
          rfl
        · omega
      refine ⟨s', ?_, hmirrored', by rw [hset, List.length_cons, hlen], fun c hc => ?_⟩
      · rw [List.range_succ, List.map_append, run_append, hrun, Option.bind_some, List.map_cons,
          List.map_nil, run, hstep]
        rfl
      · rw [hset] at hc
        rcases List.mem_cons.mp hc with rfl | hc
        · exact Nat.le_of_eq hid
        · exact Nat.le_succ_of_le (hids c hc)

/-- With 1300 creatures known, all of them seen, the announcement of one that is not
has the client forget that one. -/
theorem announced_and_forgotten :
    ∃ calls s, run .start calls = some s ∧ ∃ call answer s', step s call = some (answer, s') ∧
      answer.known = false ∧ answer.removedKnown = some call.id.id := by
  obtain ⟨s, hrun, hmirrored, hlen, hids⟩ := run_first 1300 (Nat.le_refl _)
  have hid := nth_id (Nat.le_refl 1300)
  have hnew : nth 1300 ∉ s.knownCreatureSet := by
    intro hmem
    have hle := hids _ hmem
    omega
  obtain ⟨answer, s', hstep, -, hknown, hkeeps⟩ :=
    step_spec hmirrored (callOf (fun c => c == nth 1300) 1300)
  refine ⟨_, s, hrun, _, answer, s', hstep, ?_, ?_⟩
  · cases hanswer : answer.known with
    | false => rfl
    | true => exact absurd ((hmirrored.client _).mp (hknown hanswer)) hnew
  · by_contra hne
    have hhidden : ∀ {c}, (callOf (fun c => c == nth 1300) 1300).canSee c = false → c = nth 1300 := by
      intro c hc
      simpa [callOf] using hc
    rcases hkeeps.mp hne with hmem | hroom | hsees | ⟨before, after, c, hl, hc, hcannot⟩
    · exact hnew hmem
    · omega
    · simp [callOf] at hsees
    · -- whoever is not seen is the creature itself, which is in the set once
      have hnodup : ((callOf (fun c => c == nth 1300) 1300).inserted s.knownCreatureSet).Nodup :=
        nodup_inserted hmirrored.nodup hnew
      rw [hl] at hnodup
      rw [hhidden hcannot] at hc
      exact List.disjoint_of_nodup_append hnodup hc List.mem_cons_self

end Infernum.KnownCreatures
