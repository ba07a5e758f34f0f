import Infernum.CreatureCheck.CreatureCheck
import Mathlib.Algebra.Order.BigOperators.Group.Finset
import Mathlib.Data.List.Perm.Basic

/-!
# The check lists stay consistent

A creature stands in one list once, or in none, as its flag says, and the reference of
an insertion is held for as long as it stands there. Seen from one creature the lists are
an account of six entries. Each function changes the account of the creature it is called
for and no other, whichever moment of a walk it is called at.
-/

namespace Infernum.CreatureCheck

/-! ### The account of one creature -/

/-- What the lists say of one creature. -/
structure Account where
  creatureCheck : Bool
  inCheckCreaturesVector : Bool
  occurrences : Nat
  referenceCounter : Nat
  toRelease : Nat
  references : References

namespace Account

/-- The entries agree. -/
structure Balanced (a : Account) : Prop where
  flagged : a.occurrences = if a.inCheckCreaturesVector then 1 else 0
  checked : a.creatureCheck = true → a.inCheckCreaturesVector = true
  inserted : a.references.inserted = a.occurrences + a.references.takenOut
  counted : a.referenceCounter = a.references.elsewhere + a.occurrences + a.toRelease

def add (a : Account) : Account :=
  if a.inCheckCreaturesVector then { a with creatureCheck := true }
  else
    { a with
      creatureCheck := true
      inCheckCreaturesVector := true
      occurrences := a.occurrences + 1
      referenceCounter := a.referenceCounter + 1
      references.inserted := a.references.inserted + 1 }

def remove (a : Account) : Account :=
  if a.inCheckCreaturesVector then { a with creatureCheck := false } else a

def takeOut (a : Account) : Account :=
  { a with
    inCheckCreaturesVector := false
    occurrences := a.occurrences - 1
    toRelease := a.toRelease + 1
    references.takenOut := a.references.takenOut + 1 }

def take (a : Account) : Account :=
  { a with
    referenceCounter := a.referenceCounter + 1
    references.elsewhere := a.references.elsewhere + 1 }

def giveBack (a : Account) : Account :=
  { a with
    referenceCounter := a.referenceCounter - 1
    references.elsewhere := a.references.elsewhere - 1 }

def giveBackLater (a : Account) : Account :=
  { a with
    toRelease := a.toRelease + 1
    references.elsewhere := a.references.elsewhere - 1 }

def settle (a : Account) : Account :=
  { a with referenceCounter := a.referenceCounter - a.toRelease, toRelease := 0 }

variable {a : Account}

theorem Balanced.add (ha : a.Balanced) : a.add.Balanced := by
  obtain ⟨hflagged, hchecked, hinserted, hcounted⟩ := ha
  rw [Account.add]
  split
  · rename_i hflag
    exact ⟨hflagged, fun _ => hflag, hinserted, hcounted⟩
  · rename_i hflag
    rw [if_neg hflag] at hflagged
    constructor
    · simp [hflagged]
    · simp
    · simp [hinserted]
      omega
    · simp [hcounted]
      omega

theorem Balanced.remove (ha : a.Balanced) : a.remove.Balanced := by
  obtain ⟨hflagged, hchecked, hinserted, hcounted⟩ := ha
  rw [Account.remove]
  split
  · exact ⟨hflagged, fun h => by simp at h, hinserted, hcounted⟩
  · exact ⟨hflagged, hchecked, hinserted, hcounted⟩

/-- Taking a creature out ends what its insertion began. -/
theorem Balanced.takeOut (ha : a.Balanced) (hcheck : a.creatureCheck = false)
    (hpos : 0 < a.occurrences) : a.takeOut.Balanced := by
  obtain ⟨hflagged, hchecked, hinserted, hcounted⟩ := ha
  have hone : a.occurrences = 1 := by
    split at hflagged <;> omega
  constructor
  · simp [Account.takeOut, hone]
  · simp [Account.takeOut, hcheck]
  · simp [Account.takeOut, hinserted, hone]
    omega
  · simp [Account.takeOut, hcounted, hone]
    omega

theorem Balanced.take (ha : a.Balanced) : a.take.Balanced := by
  obtain ⟨hflagged, hchecked, hinserted, hcounted⟩ := ha
  refine ⟨hflagged, hchecked, hinserted, ?_⟩
  simp [Account.take, hcounted]
  omega

theorem Balanced.giveBack (ha : a.Balanced) (hpos : 0 < a.references.elsewhere) :
    a.giveBack.Balanced := by
  obtain ⟨hflagged, hchecked, hinserted, hcounted⟩ := ha
  refine ⟨hflagged, hchecked, hinserted, ?_⟩
  simp [Account.giveBack, hcounted]
  omega

theorem Balanced.giveBackLater (ha : a.Balanced) (hpos : 0 < a.references.elsewhere) :
    a.giveBackLater.Balanced := by
  obtain ⟨hflagged, hchecked, hinserted, hcounted⟩ := ha
  refine ⟨hflagged, hchecked, hinserted, ?_⟩
  simp [Account.giveBackLater, hcounted]
  omega

theorem Balanced.settle (ha : a.Balanced) : a.settle.Balanced := by
  obtain ⟨hflagged, hchecked, hinserted, hcounted⟩ := ha
  refine ⟨hflagged, hchecked, hinserted, ?_⟩
  simp [Account.settle, hcounted]

end Account

/-! ### The functions on the accounts -/

variable {Creature : Type*} [DecidableEq Creature]

namespace State

def account (s : State Creature) (c : Creature) : Account where
  creatureCheck := s.creatureCheck c
  inCheckCreaturesVector := s.inCheckCreaturesVector c
  occurrences := s.occurrences c
  referenceCounter := s.referenceCounter c
  toRelease := s.toReleaseCreatures.count c
  references := s.references c

theorem count_one (creature c : Creature) :
    [creature].count c = if c = creature then 1 else 0 := by
  rcases eq_or_ne c creature with rfl | hne
  · simp
  · simp [hne, hne.symm]

theorem sum_count_update (lists : ListIndex → List Creature) (index : ListIndex)
    (l : List Creature) (c : Creature) :
    (∑ i, (Function.update lists index l i).count c) + (lists index).count c =
      (∑ i, (lists i).count c) + l.count c := by
  have hmap : (fun i => (Function.update lists index l i).count c) =
      Function.update (fun i => (lists i).count c) index (l.count c) := by
    funext i
    exact Function.apply_update (fun _ (l : List Creature) => l.count c) lists index l i
  have hsplit := Finset.add_sum_erase Finset.univ (fun i => (lists i).count c)
    (Finset.mem_univ index)
  rw [hmap, Finset.sum_update_of_mem (Finset.mem_univ index),
    Finset.sdiff_singleton_eq_erase]
  omega

theorem occurrences_pushBack (s : State Creature) (index : ListIndex)
    (creature c : Creature) : (s.pushBack index creature).occurrences c =
      s.occurrences c + if c = creature then 1 else 0 := by
  have hsum := sum_count_update s.checkCreatureLists index
    (s.checkCreatureLists index ++ [creature]) c
  rw [List.count_append, count_one] at hsum
  simp only [occurrences, pushBack]
  omega

/-- What is erased at `it` is one occurrence of the creature there. -/
theorem occurrences_takeOut (s : State Creature) (w : Walk) (creature c : Creature)
    (hit : (s.checkCreatureLists w.index)[w.it]? = some creature) :
    s.occurrences c =
      (s.takeOut w creature).occurrences c + if c = creature then 1 else 0 := by
  have hsum := sum_count_update s.checkCreatureLists w.index
    ((s.checkCreatureLists w.index).eraseIdx w.it) c
  obtain ⟨hlt, hget⟩ := List.getElem?_eq_some_iff.mp hit
  have hperm := (List.getElem_cons_eraseIdx_perm hlt).count_eq c
  rw [hget, ← List.singleton_append, List.count_append, count_one] at hperm
  simp only [occurrences, takeOut, note, releaseCreature]
  omega

theorem account_addCreatureCheck (s : State Creature) (creature : Creature)
    (index : ListIndex) (c : Creature) :
    (s.addCreatureCheck creature index).account c =
      if c = creature then (s.account c).add else s.account c := by
  rw [addCreatureCheck]
  split
  · rename_i hflag
    have hflag : s.inCheckCreaturesVector creature = true := hflag
    rcases eq_or_ne c creature with rfl | hne
    · simp [account, Account.add, hflag, occurrences]
    · simp [account, hne, occurrences]
  · rename_i hflag
    have hflag : ¬ s.inCheckCreaturesVector creature = true := hflag
    have hoccurrences := s.occurrences_pushBack index creature c
    simp only [occurrences, pushBack] at hoccurrences
    rcases eq_or_ne c creature with rfl | hne
    · simp [account, Account.add, hflag, occurrences, note, increment, pushBack,
        hoccurrences]
    · simp [account, hne, occurrences, note, increment, pushBack, hoccurrences]

theorem account_removeCreatureCheck (s : State Creature) (creature c : Creature) :
    (s.removeCreatureCheck creature).account c =
      if c = creature then (s.account c).remove else s.account c := by
  rw [removeCreatureCheck]
  split
  · rename_i hflag
    rcases eq_or_ne c creature with rfl | hne
    · simp [account, Account.remove, hflag, occurrences]
    · simp [account, hne, occurrences]
  · rename_i hflag
    rcases eq_or_ne c creature with rfl | hne
    · simp [account, Account.remove, hflag]
    · simp [hne]

theorem account_takeOut (s : State Creature) (w : Walk) (creature c : Creature)
    (hit : (s.checkCreatureLists w.index)[w.it]? = some creature) :
    (s.takeOut w creature).account c =
      if c = creature then (s.account c).takeOut else s.account c := by
  have hoccurrences := s.occurrences_takeOut w creature c hit
  rcases eq_or_ne c creature with rfl | hne
  · simp only [if_true] at hoccurrences ⊢
    simp only [account, Account.takeOut, hoccurrences]
    simp [takeOut, note, releaseCreature, occurrences]
  · simp only [hne, if_false, Nat.add_zero] at hoccurrences ⊢
    simp only [account, hoccurrences]
    simp [takeOut, note, releaseCreature, hne, count_one, occurrences]

theorem account_take (s : State Creature) (creature c : Creature) :
    ((s.increment creature).note creature
      fun r => { r with elsewhere := r.elsewhere + 1 }).account c =
        if c = creature then (s.account c).take else s.account c := by
  rcases eq_or_ne c creature with rfl | hne
  · simp [account, Account.take, note, increment, occurrences]
  · simp [account, note, increment, occurrences, hne]

theorem account_giveBack (s : State Creature) (creature c : Creature) :
    ((s.decrement creature).note creature
      fun r => { r with elsewhere := r.elsewhere - 1 }).account c =
        if c = creature then (s.account c).giveBack else s.account c := by
  rcases eq_or_ne c creature with rfl | hne
  · simp [account, Account.giveBack, note, decrement, occurrences]
  · simp [account, note, decrement, occurrences, hne]

theorem account_giveBackLater (s : State Creature) (creature c : Creature) :
    ((s.releaseCreature creature).note creature
      fun r => { r with elsewhere := r.elsewhere - 1 }).account c =
        if c = creature then (s.account c).giveBackLater else s.account c := by
  rcases eq_or_ne c creature with rfl | hne
  · simp [account, Account.giveBackLater, note, releaseCreature, occurrences]
  · simp [account, note, releaseCreature, occurrences, hne, count_one]

/-- Decrementing for each of some creatures writes the counters alone. -/
theorem foldl_decrement (l : List Creature) (s : State Creature) :
    l.foldl decrement s =
      { s with referenceCounter := fun c => s.referenceCounter c - l.count c } := by
  induction l generalizing s with
  | nil => simp
  | cons creature l ih =>
      rw [List.foldl_cons, ih]
      have hcounter : (fun c => (s.decrement creature).referenceCounter c - l.count c) =
          fun c => s.referenceCounter c - (creature :: l).count c := by
        funext c
        rcases eq_or_ne c creature with rfl | hne
        · simp [decrement]
          omega
        · simp [decrement, hne, hne.symm]
      rw [hcounter]
      rfl

theorem account_cleanup (s : State Creature) (c : Creature) :
    s.cleanup.account c = (s.account c).settle := by
  rw [cleanup, foldl_decrement]
  simp [account, Account.settle, occurrences]

/-! ### Every step -/

/-- Every account is balanced, and nobody thought without its flag. -/
structure Consistent (s : State Creature) : Prop where
  balanced : ∀ c, (s.account c).Balanced
  thoughts : ∀ thought ∈ s.thoughts, thought.2 = true

variable {s t : State Creature}

/-- A step that is for one creature, and calls no `onThink`. -/
theorem Consistent.of_account (hs : s.Consistent) (creature : Creature)
    (f : Account → Account)
    (haccount : ∀ c, t.account c = if c = creature then f (s.account c) else s.account c)
    (hf : (f (s.account creature)).Balanced) (hthoughts : t.thoughts = s.thoughts) :
    t.Consistent := by
  refine ⟨?_, hthoughts ▸ hs.thoughts⟩
  intro c
  rw [haccount]
  split
  · rename_i heq
    exact heq ▸ hf
  · exact hs.balanced c

theorem count_le_occurrences (s : State Creature) (index : ListIndex) (c : Creature) :
    (s.checkCreatureLists index).count c ≤ s.occurrences c :=
  Finset.single_le_sum (f := fun i => (s.checkCreatureLists i).count c)
    (fun _ _ => Nat.zero_le _) (Finset.mem_univ index)

theorem occurrences_pos {index : ListIndex} {c : Creature}
    (hc : c ∈ s.checkCreatureLists index) : 0 < s.occurrences c := by
  have hpos := List.count_pos_iff.mpr hc
  have hle := s.count_le_occurrences index c
  omega

theorem Consistent.cleanup (hs : s.Consistent) : s.cleanup.Consistent := by
  refine ⟨?_, ?_⟩
  · intro c
    rw [account_cleanup]
    exact (hs.balanced c).settle
  · rw [State.cleanup, foldl_decrement]
    exact hs.thoughts

theorem Consistent.addCreatureCheck (hs : s.Consistent) (creature : Creature)
    (index : ListIndex) : (s.addCreatureCheck creature index).Consistent := by
  refine hs.of_account creature Account.add (s.account_addCreatureCheck creature index)
    (hs.balanced creature).add ?_
  rw [State.addCreatureCheck]
  split <;> rfl

theorem Consistent.removeCreatureCheck (hs : s.Consistent) (creature : Creature) :
    (s.removeCreatureCheck creature).Consistent := by
  refine hs.of_account creature Account.remove (s.account_removeCreatureCheck creature)
    (hs.balanced creature).remove ?_
  rw [State.removeCreatureCheck]
  split <;> rfl

/-- The head of the loop is the only place where creatures are made to think. -/
theorem Consistent.turn (hs : s.Consistent) (w : Walk) (alive : Bool) :
    (s.turn w alive).Consistent := by
  rw [State.turn]
  split
  · exact ⟨hs.cleanup.balanced, hs.cleanup.thoughts⟩
  · rename_i creature hit
    split
    · rename_i hcheck
      split
      · refine ⟨hs.balanced, ?_⟩
        intro thought hthought
        rcases List.mem_cons.mp hthought with rfl | hold
        · exact hcheck
        · exact hs.thoughts thought hold
      · exact ⟨hs.balanced, hs.thoughts⟩
    · rename_i hcheck
      have hpos : 0 < s.occurrences creature := occurrences_pos (List.mem_of_getElem? hit)
      exact hs.of_account creature Account.takeOut
        (fun c => s.account_takeOut w creature c hit)
        ((hs.balanced creature).takeOut (Bool.eq_false_iff.mpr hcheck) hpos) rfl

end State

open State in
theorem step_consistent {s t : State Creature} {act : Act Creature} (hs : s.Consistent)
    (hstep : step s act = some t) : t.Consistent := by
  cases act with
  | addCreatureCheck creature index =>
      obtain ⟨-, ⟨⟩⟩ := Option.ite_none_right_eq_some.mp hstep
      exact hs.addCreatureCheck creature index
  | removeCreatureCheck creature =>
      obtain ⟨-, ⟨⟩⟩ := Option.ite_none_right_eq_some.mp hstep
      exact hs.removeCreatureCheck creature
  | checkCreatures index =>
      simp only [step] at hstep
      split at hstep
      · cases hstep
        exact ⟨hs.balanced, hs.thoughts⟩
      · cases hstep
  | turn alive =>
      simp only [step] at hstep
      split at hstep
      · cases hstep
        exact hs.turn _ alive
      · cases hstep
  | callbackReturns =>
      simp only [step] at hstep
      split at hstep
      · rename_i callback _
        cases hstep
        -- the walk moves on, and the lists are as the callback has left them
        cases callback <;> exact ⟨hs.balanced, hs.thoughts⟩
      · cases hstep
  | incrementReferenceCounter creature =>
      obtain ⟨-, ⟨⟩⟩ := Option.ite_none_right_eq_some.mp hstep
      exact hs.of_account creature Account.take (s.account_take creature)
        (hs.balanced creature).take rfl
  | decrementReferenceCounter creature =>
      obtain ⟨⟨-, hheld⟩, ⟨⟩⟩ := Option.ite_none_right_eq_some.mp hstep
      exact hs.of_account creature Account.giveBack (s.account_giveBack creature)
        ((hs.balanced creature).giveBack hheld) rfl
  | releaseCreature creature =>
      obtain ⟨⟨-, hheld⟩, ⟨⟩⟩ := Option.ite_none_right_eq_some.mp hstep
      exact hs.of_account creature Account.giveBackLater (s.account_giveBackLater creature)
        ((hs.balanced creature).giveBackLater hheld) rfl
  | cleanup =>
      obtain ⟨-, ⟨⟩⟩ := Option.ite_none_right_eq_some.mp hstep
      exact hs.cleanup

theorem State.start_consistent : (State.start : State Creature).Consistent := by
  refine ⟨?_, fun _ h => by cases h⟩
  intro c
  constructor <;> simp [State.start, State.account, State.occurrences]

theorem consistent_of_reachable {s : State Creature}
    (h : (system Creature).Reachable s) : s.Consistent := by
  have ind : (system Creature).Inductive (fun _ _ => True) State.Consistent :=
    { init := by
        rintro _ rfl
        exact State.start_consistent
      step := fun _ _ _ hs _ hstep => step_consistent hs hstep }
  exact ind.invariant h

/-! ### What consistent lists are -/

namespace State

variable {s : State Creature}

/-- Two lists together hold a creature at most as often as all of them. -/
theorem count_add_count_le (s : State Creature) {i j : ListIndex} (hij : j ≠ i)
    (c : Creature) :
    (s.checkCreatureLists i).count c + (s.checkCreatureLists j).count c ≤
      s.occurrences c := by
  have hsplit := Finset.add_sum_erase Finset.univ
    (fun i => (s.checkCreatureLists i).count c) (Finset.mem_univ i)
  have hle := Finset.single_le_sum (f := fun i => (s.checkCreatureLists i).count c)
    (fun _ _ => Nat.zero_le _) (Finset.mem_erase.mpr ⟨hij, Finset.mem_univ j⟩)
  rw [occurrences]
  omega

/-- The creature is in one of the lists, and once. -/
def InOneListOnce (s : State Creature) (c : Creature) : Prop :=
  ∃ index, (s.checkCreatureLists index).count c = 1 ∧
    ∀ other, other ≠ index → c ∉ s.checkCreatureLists other

theorem inOneListOnce_of_occurrences {c : Creature} (h : s.occurrences c = 1) :
    s.InOneListOnce c := by
  have hne : s.occurrences c ≠ 0 := by omega
  obtain ⟨index, -, hindex⟩ := Finset.exists_ne_zero_of_sum_ne_zero hne
  have hle := s.count_le_occurrences index c
  refine ⟨index, by omega, ?_⟩
  intro other hother hmem
  have hpos := List.count_pos_iff.mpr hmem
  have htwo := s.count_add_count_le hother c
  omega

theorem Consistent.inCheckCreaturesVector_iff (hs : s.Consistent) (c : Creature) :
    s.inCheckCreaturesVector c = true ↔ s.InOneListOnce c := by
  have hflagged : s.occurrences c = if s.inCheckCreaturesVector c then 1 else 0 :=
    (hs.balanced c).flagged
  constructor
  · intro hflag
    rw [if_pos hflag] at hflagged
    exact inOneListOnce_of_occurrences hflagged
  · rintro ⟨index, hone, -⟩
    by_contra hflag
    rw [if_neg hflag] at hflagged
    have hle := s.count_le_occurrences index c
    omega

theorem Consistent.notMem_of_flag (hs : s.Consistent) {c : Creature}
    (hflag : s.inCheckCreaturesVector c = false) (index : ListIndex) :
    c ∉ s.checkCreatureLists index := by
  intro hmem
  have hpos := occurrences_pos hmem
  have hflagged : s.occurrences c = if s.inCheckCreaturesVector c then 1 else 0 :=
    (hs.balanced c).flagged
  simp [hflag] at hflagged
  omega

end State

/-- Whatever adds, removes, walks and callbacks came before: a creature has its flag if
and only if it is in one of the lists, and once; as many references have been released
as creatures taken out; and who was made to think had `creatureCheck`. -/
theorem check_lists_consistent {s : State Creature}
    (h : (system Creature).Reachable s) :
    (∀ c, s.inCheckCreaturesVector c = true ↔ s.InOneListOnce c) ∧
    (∀ c, s.inCheckCreaturesVector c = false → ∀ index, c ∉ s.checkCreatureLists index) ∧
    (∀ c, (s.references c).inserted = s.occurrences c + (s.references c).takenOut) ∧
    (∀ c, s.referenceCounter c =
      (s.references c).elsewhere + s.occurrences c + s.toReleaseCreatures.count c) ∧
    ∀ thought ∈ s.thoughts, thought.2 = true := by
  have hs := consistent_of_reachable h
  exact ⟨hs.inCheckCreaturesVector_iff, fun _ => hs.notMem_of_flag,
    fun c => (hs.balanced c).inserted, fun c => (hs.balanced c).counted, hs.thoughts⟩

/-- Creature 7 is removed in its own `onThink`, its neighbour 8 dies, and 7 is added
again in the `onDeath` of 8, when it has not been taken out yet. The next walk finds 8
without its flag. -/
def reentrant : List (Act Nat) :=
  [.addCreatureCheck 7 0, .addCreatureCheck 8 0, .checkCreatures 0,
    .turn true, .removeCreatureCheck 7,
    .callbackReturns, .callbackReturns, .callbackReturns,
    .turn false, .addCreatureCheck 7 3, .removeCreatureCheck 8, .callbackReturns,
    .turn true, .checkCreatures 0,
    .turn true, .callbackReturns, .callbackReturns, .callbackReturns, .turn true]

def afterReentrant : State Nat :=
  (Lib.TSys.runGuarded step (fun _ _ => True) State.start reentrant).getD State.start

theorem reentrant_reachable : (system Nat).Reachable afterReentrant := by
  have hrun : Lib.TSys.runGuarded step (fun _ _ => True) State.start reentrant =
      some afterReentrant := by
    rfl
  exact Lib.TSys.Reach.runGuarded (fun _ _ _ h => h) (.start rfl) hrun

theorem check_lists_consistent_reentrant :
    afterReentrant.checkCreatureLists 0 = [7] ∧
    (∀ c, afterReentrant.inCheckCreaturesVector c = true ↔ afterReentrant.InOneListOnce c) ∧
    (∀ c, afterReentrant.inCheckCreaturesVector c = false →
      ∀ index, c ∉ afterReentrant.checkCreatureLists index) ∧
    (∀ c, (afterReentrant.references c).inserted =
      afterReentrant.occurrences c + (afterReentrant.references c).takenOut) ∧
    (∀ c, afterReentrant.referenceCounter c = (afterReentrant.references c).elsewhere +
      afterReentrant.occurrences c + afterReentrant.toReleaseCreatures.count c) ∧
    ∀ thought ∈ afterReentrant.thoughts, thought.2 = true :=
  ⟨by rfl, check_lists_consistent reentrant_reachable⟩

end Infernum.CreatureCheck
