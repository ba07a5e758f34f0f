import Infernum.Lib.TransitionSystem
import Mathlib.Data.Finset.Card
import Mathlib.Data.Option.Basic

/-!
# The lock of the database

`databaseLock` is a recursive mutex: every query takes it and gives it back, a transaction keeps
it from `begin` on. `DBTransaction` notes that it has started before it knows that, so the
object of a failed `begin` still unlocks at its end.
-/

namespace Infernum.Database.Lock

open Lib

variable {T : Type} [DecidableEq T]

/-! ## The mutex -/

/-- `std::recursive_mutex`: who holds it, and how many times more than once. -/
inductive Mutex (T : Type)
  | free
  | held (owner : T) (more : Nat)

namespace Mutex

/-- How often a thread holds the mutex. -/
def count (t : T) : Mutex T → Nat
  | free => 0
  | held owner more => if owner = t then more + 1 else 0

def owner : Mutex T → Option T
  | free => none
  | held owner _ => some owner

/-- A thread waits while another one holds the mutex. -/
def lock (t : T) : Mutex T → Option (Mutex T)
  | free => some (held t 0)
  | held owner more => if owner = t then some (held t (more + 1)) else none

/-- Undefined for a thread that does not hold the mutex. -/
def unlock (t : T) : Mutex T → Option (Mutex T)
  | held owner (more + 1) => if owner = t then some (held t more) else none
  | held owner 0 => if owner = t then some free else none
  | free => none

variable {m m' : Mutex T} {t u : T}

theorem count_lock (h : m.lock t = some m') (u : T) :
    m'.count u = m.count u + if u = t then 1 else 0 := by
  cases m with
  | free =>
    obtain rfl := Option.some.inj h
    by_cases hu : u = t
    · simp [count, hu]
    · simp [count, hu, Ne.symm hu]
  | held owner more =>
    rw [lock] at h
    split at h
    · next howner =>
      obtain rfl := Option.some.inj h
      by_cases hu : u = t
      · simp [count, hu, howner]
      · simp [count, hu, howner, Ne.symm hu]
    · cases h

theorem count_unlock (h : m.unlock t = some m') (u : T) :
    m.count u = m'.count u + if u = t then 1 else 0 := by
  cases m with
  | free => cases h
  | held owner more =>
    cases more with
    | zero =>
      rw [unlock] at h
      split at h
      · next howner =>
        obtain rfl := Option.some.inj h
        by_cases hu : u = t
        · simp [count, hu, howner]
        · simp [count, hu, howner, Ne.symm hu]
      · cases h
    | succ more =>
      rw [unlock] at h
      split at h
      · next howner =>
        obtain rfl := Option.some.inj h
        by_cases hu : u = t
        · simp [count, hu, howner]
        · simp [count, hu, howner, Ne.symm hu]
      · cases h

theorem unlock_isSome (h : 0 < m.count t) : ∃ m', m.unlock t = some m' := by
  cases m with
  | free => cases h
  | held owner more =>
    have howner : owner = t := by
      by_contra hne
      simp [count, hne] at h
    cases more with
    | zero => exact ⟨free, if_pos howner⟩
    | succ more => exact ⟨held t more, if_pos howner⟩

theorem owner_of_count (h : 0 < m.count t) : m.owner = some t := by
  cases m with
  | free => cases h
  | held owner more =>
    have howner : owner = t := by
      by_contra hne
      simp [count, hne] at h
    rw [Mutex.owner, howner]

end Mutex

/-! ## Transactions -/

/-- `DBTransaction::TransactionStates_t`. -/
inductive TransactionStates_t
  | STATE_NO_START
  | STATE_START
  | STATE_COMMIT
  deriving DecidableEq

/-- Where a thread is in the functions of the database. -/
inductive Control
  /-- in none of them -/
  | running
  /-- between the two calls of the lock in a query -/
  | querying
  /-- the same in the `BEGIN` of a transaction -/
  | beginning (i : Nat)
  /-- behind it, before the lock is taken for the transaction -/
  | acquiring (i : Nat)
  deriving DecidableEq

/-- The lock, the threads and their transactions. -/
structure World (T : Type) where
  databaseLock : Mutex T
  control : T → Control
  /-- `state` of the transactions that are there -/
  state : T → Nat → Option TransactionStates_t
  /-- the transactions for which `begin` has returned true and that have not ended -/
  opened : T → Finset Nat

/-- What a thread does next, and what the database answers. -/
inductive Event (T : Type)
  | executeQuery (t : T)
  | storeQuery (t : T)
  | queried (t : T) (success : Bool)
  | construct (t : T) (i : Nat)
  | begin (t : T) (i : Nat)
  | began (t : T) (success : Bool)
  | acquire (t : T)
  | commit (t : T) (i : Nat) (success : Bool)
  | destruct (t : T) (i : Nat) (success : Bool)

/-- `Database::commit` and `Database::rollback` unlock whether the database answers or not. -/
def endTransaction (t : T) (success : Bool) (databaseLock : Mutex T) : Option (Mutex T) :=
  if success = false then databaseLock.unlock t else databaseLock.unlock t

namespace World

variable (w : World T)

def setControl (t : T) (c : Control) : World T :=
  { w with control := Function.update w.control t c }

def setState (t : T) (i : Nat) (state : Option TransactionStates_t) : World T :=
  { w with state := Function.update w.state t (Function.update (w.state t) i state) }

/-- Nothing is there yet, and nobody holds the lock. -/
def start : World T where
  databaseLock := .free
  control := fun _ => .running
  state := fun _ _ => none
  opened := fun _ => ∅

/-- The first call of the lock in a query. -/
def enter (t : T) (c : Control) : Option (World T) :=
  (w.databaseLock.lock t).map fun l => { w.setControl t c with databaseLock := l }

/-- One step: none if it has to wait or makes no sense, and then none again if it is
undefined. -/
def step : Event T → Option (Option (World T))
  | .executeQuery t =>
    if w.control t = .running then (w.enter t .querying).map some else none
  | .storeQuery t =>
    if w.control t = .running then (w.enter t .querying).map some else none
  | .queried t _ =>
    if w.control t = .querying then
      some ((w.databaseLock.unlock t).map fun l =>
        { w.setControl t .running with databaseLock := l })
    else none
  | .construct t i =>
    if w.control t = .running ∧ w.state t i = none then
      some (some (w.setState t i (some .STATE_NO_START)))
    else none
  | .begin t i =>
    if w.control t = .running ∧ (w.state t i).isSome then
      ((w.setState t i (some .STATE_START)).enter t (.beginning i)).map some
    else none
  | .began t success =>
    match w.control t with
    | .beginning i =>
      some ((w.databaseLock.unlock t).map fun l =>
        { w.setControl t (if success then .acquiring i else .running) with databaseLock := l })
    | _ => none
  | .acquire t =>
    match w.control t with
    | .acquiring i =>
      (w.databaseLock.lock t).map fun l =>
        some { w.setControl t .running with
          databaseLock := l
          opened := Function.update w.opened t (insert i (w.opened t)) }
    | _ => none
  | .commit t i success =>
    if w.control t = .running ∧ (w.state t i).isSome then
      if w.state t i ≠ some .STATE_START then some (some w)
      else
        some ((endTransaction t success w.databaseLock).map fun l =>
          { w.setState t i (some .STATE_COMMIT) with
            databaseLock := l
            opened := Function.update w.opened t ((w.opened t).erase i) })
    else none
  | .destruct t i success =>
    if w.control t = .running ∧ (w.state t i).isSome then
      if w.state t i = some .STATE_START then
        some ((endTransaction t success w.databaseLock).map fun l =>
          { w.setState t i none with
            databaseLock := l
            opened := Function.update w.opened t ((w.opened t).erase i) })
      else some (some (w.setState t i none))
    else none

end World

/-- A step from a state of the program; there is none from an undefined one. -/
def next (s : Option (World T)) (e : Event T) : Option (Option (World T)) :=
  s.bind fun w => w.step e

/-- All runs of all threads. -/
def system (T : Type) [DecidableEq T] : TSys (Option (World T)) (Event T) where
  init s := s = some .start
  step s e s' := next s e = some s'

/-- A transaction is not opened twice, and only what `begin` has opened is ended. -/
def Meets (s : Option (World T)) (e : Event T) : Prop :=
  ∀ w, s = some w →
    match e with
    | .began t true => ∀ i, w.control t = .beginning i → i ∉ w.opened t
    | .commit t i _ | .destruct t i _ => w.state t i = some .STATE_START → i ∈ w.opened t
    | _ => True

/-! ## What holds for a thread -/

/-- How often a query in progress holds the lock. -/
def Control.queries : Control → Nat
  | querying | beginning _ => 1
  | running | acquiring _ => 0

/-- A thread with the number of its locks, where it is, and its transactions. -/
structure Kept (count : Nat) (control : Control) (state : Nat → Option TransactionStates_t)
    (opened : Finset Nat) : Prop where
  count : count = opened.card + control.queries
  started : ∀ i ∈ opened, state i = some .STATE_START
  starting : ∀ i, control = .beginning i ∨ control = .acquiring i → state i = some .STATE_START
  fresh : ∀ i, control = .acquiring i → i ∉ opened

def World.Inv (w : World T) : Prop :=
  ∀ t, Kept (w.databaseLock.count t) (w.control t) (w.state t) (w.opened t)

/-- A step of one thread leaves the others alone. -/
structure World.Others (t : T) (w w' : World T) : Prop where
  count : ∀ u, u ≠ t → w'.databaseLock.count u = w.databaseLock.count u
  control : ∀ u, u ≠ t → w'.control u = w.control u
  state : ∀ u, u ≠ t → w'.state u = w.state u
  opened : ∀ u, u ≠ t → w'.opened u = w.opened u

variable {w w' : World T} {t : T} {l : Mutex T}

theorem World.Inv.step_of (h : w.Inv) (hothers : w.Others t w')
    (ht : Kept (w'.databaseLock.count t) (w'.control t) (w'.state t) (w'.opened t)) : w'.Inv := by
  intro u
  by_cases hu : u = t
  · rw [hu]
    exact ht
  · rw [hothers.count u hu, hothers.control u hu, hothers.state u hu, hothers.opened u hu]
    exact h u

theorem count_lock_self {m m' : Mutex T} (h : m.lock t = some m') :
    m'.count t = m.count t + 1 := by
  simp [Mutex.count_lock h]

theorem count_lock_of_ne {m m' : Mutex T} (h : m.lock t = some m') {u : T} (hu : u ≠ t) :
    m'.count u = m.count u := by
  simp [Mutex.count_lock h, hu]

theorem count_unlock_self {m m' : Mutex T} (h : m.unlock t = some m') :
    m.count t = m'.count t + 1 := by
  simp [Mutex.count_unlock h]

theorem count_unlock_of_ne {m m' : Mutex T} (h : m.unlock t = some m') {u : T} (hu : u ≠ t) :
    m'.count u = m.count u := by
  simp [Mutex.count_unlock h, hu]

/-- A query goes in. -/
theorem World.Inv.enter {c : Control} (h : w.Inv) (hcontrol : w.control t = .running)
    (hqueries : c.queries = 1) (hstarting : ∀ i, c = .beginning i → w.state t i = some .STATE_START)
    (hlock : w.enter t c = some w') : w'.Inv := by
  obtain ⟨l, hl, rfl⟩ := Option.map_eq_some_iff.mp hlock
  have ht := h t
  have hcount := ht.count
  refine h.step_of (t := t) ?_ ?_
  · exact
      { count := fun u hu => count_lock_of_ne hl hu
        control := fun u hu => Function.update_of_ne hu _ _
        state := fun _ _ => rfl
        opened := fun _ _ => rfl }
  · rw [hcontrol] at hcount
    show Kept (l.count t) (Function.update w.control t c t) (w.state t) (w.opened t)
    rw [Function.update_self, count_lock_self hl]
    constructor
    · rw [hcount, hqueries]
      rfl
    · exact ht.started
    · rintro i (hc | hc)
      · exact hstarting i hc
      · rw [hc] at hqueries
        cases hqueries
    · intro i hc
      rw [hc] at hqueries
      cases hqueries

/-- A query comes out. -/
theorem World.Inv.leave {c : Control} (h : w.Inv) (hqueries : (w.control t).queries = 1)
    (hc : c.queries = 0)
    (hstarting : ∀ i, c = .acquiring i → w.state t i = some .STATE_START ∧ i ∉ w.opened t) :
    ∃ l, w.databaseLock.unlock t = some l ∧
      World.Inv { w.setControl t c with databaseLock := l } := by
  have ht := h t
  have hcount := ht.count
  obtain ⟨l, hl⟩ := Mutex.unlock_isSome (m := w.databaseLock) (t := t) (by omega)
  refine ⟨l, hl, h.step_of (t := t) ?_ ?_⟩
  · exact
      { count := fun u hu => count_unlock_of_ne hl hu
        control := fun u hu => Function.update_of_ne hu _ _
        state := fun _ _ => rfl
        opened := fun _ _ => rfl }
  · show Kept (l.count t) (Function.update w.control t c t) (w.state t) (w.opened t)
    have hself := count_unlock_self hl
    rw [Function.update_self]
    constructor
    · omega
    · exact ht.started
    · rintro i (hi | hi)
      · rw [hi] at hc
        cases hc
      · exact (hstarting i hi).1
    · exact fun i hi => (hstarting i hi).2

/-- A transaction that was opened ends. -/
theorem World.Inv.finish {i : Nat} (state : Option TransactionStates_t) (h : w.Inv)
    (hcontrol : w.control t = .running) (hopened : i ∈ w.opened t) (success : Bool) :
    ∃ l, endTransaction t success w.databaseLock = some l ∧
      World.Inv { w.setState t i state with
        databaseLock := l
        opened := Function.update w.opened t ((w.opened t).erase i) } := by
  have ht := h t
  have hcount := ht.count
  have hpos : 0 < (w.opened t).card := Finset.card_pos.mpr ⟨i, hopened⟩
  obtain ⟨l, hl⟩ := Mutex.unlock_isSome (m := w.databaseLock) (t := t) (by omega)
  refine ⟨l, by rw [endTransaction, hl, ite_self], h.step_of (t := t) ?_ ?_⟩
  · exact
      { count := fun u hu => count_unlock_of_ne hl hu
        control := fun _ _ => rfl
        state := fun u hu => Function.update_of_ne hu _ _
        opened := fun u hu => Function.update_of_ne hu _ _ }
  · show Kept (l.count t) (w.control t)
      (Function.update w.state t (Function.update (w.state t) i state) t)
      (Function.update w.opened t ((w.opened t).erase i) t)
    have hself := count_unlock_self hl
    rw [Function.update_self, Function.update_self, hcontrol]
    rw [hcontrol] at hcount
    constructor
    · rw [Finset.card_erase_of_mem hopened]
      omega
    · intro j hj
      obtain ⟨hne, hj⟩ := Finset.mem_erase.mp hj
      rw [Function.update_of_ne hne]
      exact ht.started j hj
    · rintro j (hj | hj) <;> cases hj
    · rintro j hj
      cases hj

/-- A transaction changes its state outside the lock. -/
theorem World.Inv.setState {i : Nat} {state : Option TransactionStates_t} (h : w.Inv)
    (hcontrol : w.control t = .running)
    (hstate : i ∈ w.opened t → state = some .STATE_START) : (w.setState t i state).Inv := by
  have ht := h t
  refine h.step_of (t := t) ?_ ?_
  · exact
      { count := fun _ _ => rfl
        control := fun _ _ => rfl
        state := fun u hu => Function.update_of_ne hu _ _
        opened := fun _ _ => rfl }
  · show Kept (w.databaseLock.count t) (w.control t)
      (Function.update w.state t (Function.update (w.state t) i state) t) (w.opened t)
    rw [Function.update_self]
    constructor
    · exact ht.count
    · intro j hj
      by_cases hji : j = i
      · subst hji
        rw [Function.update_self]
        exact hstate hj
      · rw [Function.update_of_ne hji]
        exact ht.started j hj
    · rw [hcontrol]
      rintro j (hj | hj) <;> cases hj
    · rw [hcontrol]
      intro j hj
      cases hj

/-- The lock is taken for a transaction. -/
theorem World.Inv.acquire {i : Nat} (h : w.Inv) (hcontrol : w.control t = .acquiring i)
    (hl : w.databaseLock.lock t = some l) :
    World.Inv { w.setControl t .running with
      databaseLock := l
      opened := Function.update w.opened t (insert i (w.opened t)) } := by
  have ht := h t
  have hcount := ht.count
  refine h.step_of (t := t) ?_ ?_
  · exact
      { count := fun u hu => count_lock_of_ne hl hu
        control := fun u hu => Function.update_of_ne hu _ _
        state := fun _ _ => rfl
        opened := fun u hu => Function.update_of_ne hu _ _ }
  · show Kept (l.count t) (Function.update w.control t .running t) (w.state t)
      (Function.update w.opened t (insert i (w.opened t)) t)
    rw [Function.update_self, Function.update_self, count_lock_self hl]
    rw [hcontrol] at hcount
    constructor
    · rw [Finset.card_insert_of_notMem (ht.fresh i hcontrol), hcount]
      rfl
    · intro j hj
      rcases Finset.mem_insert.mp hj with rfl | hj
      · exact ht.starting j (.inr hcontrol)
      · exact ht.started j hj
    · rintro j (hj | hj) <;> cases hj
    · rintro j hj
      cases hj

/-! ## Every step -/

theorem World.Inv.step {e : Event T} {s' : Option (World T)} (h : w.Inv)
    (hmeets : Meets (some w) e) (hstep : w.step e = some s') : ∃ w', s' = some w' ∧ w'.Inv := by
  have hguard := hmeets w rfl
  cases e with
  | executeQuery t | storeQuery t =>
    rw [World.step] at hstep
    split at hstep
    · next hcontrol =>
      obtain ⟨w', hw', rfl⟩ := Option.map_eq_some_iff.mp hstep
      exact ⟨w', rfl, h.enter hcontrol rfl (fun i hi => by cases hi) hw'⟩
    · cases hstep
  | queried t success =>
    rw [World.step] at hstep
    split at hstep
    · next hcontrol =>
      obtain ⟨l, hl, hinv⟩ := h.leave (t := t) (c := .running) (by rw [hcontrol]; rfl) rfl nofun
      rw [hl] at hstep
      exact ⟨_, (Option.some.inj hstep).symm, hinv⟩
    · cases hstep
  | construct t i =>
    rw [World.step] at hstep
    split at hstep
    · next hnew =>
      refine ⟨_, (Option.some.inj hstep).symm, h.setState hnew.1 fun hopened => ?_⟩
      have hstarted := (h t).started i hopened
      rw [hnew.2] at hstarted
      cases hstarted
    · cases hstep
  | begin t i =>
    rw [World.step] at hstep
    split at hstep
    · next hthere =>
      obtain ⟨w', hw', rfl⟩ := Option.map_eq_some_iff.mp hstep
      have hset : (w.setState t i (some .STATE_START)).Inv := h.setState hthere.1 fun _ => rfl
      refine ⟨w', rfl, hset.enter hthere.1 rfl ?_ hw'⟩
      intro j hj
      obtain rfl := Control.beginning.inj hj
      simp [World.setState]
    · cases hstep
  | began t success =>
    rw [World.step] at hstep
    split at hstep
    · next i hcontrol =>
      have hstart := (h t).starting i (.inl hcontrol)
      cases success with
      | true =>
        have hfresh := hguard i hcontrol
        obtain ⟨l, hl, hinv⟩ := h.leave (t := t) (c := .acquiring i) (by rw [hcontrol]; rfl) rfl
          fun j hj => Control.acquiring.inj hj ▸ ⟨hstart, hfresh⟩
        rw [hl] at hstep
        exact ⟨_, (Option.some.inj hstep).symm, hinv⟩
      | false =>
        obtain ⟨l, hl, hinv⟩ := h.leave (t := t) (c := .running) (by rw [hcontrol]; rfl) rfl nofun
        rw [hl] at hstep
        exact ⟨_, (Option.some.inj hstep).symm, hinv⟩
    · cases hstep
  | acquire t =>
    rw [World.step] at hstep
    split at hstep
    · next i hcontrol =>
      obtain ⟨l, hl, rfl⟩ := Option.map_eq_some_iff.mp hstep
      exact ⟨_, rfl, h.acquire hcontrol hl⟩
    · cases hstep
  | commit t i success =>
    rw [World.step] at hstep
    split at hstep
    · next hthere =>
      split at hstep
      · exact ⟨w, (Option.some.inj hstep).symm, h⟩
      · next hstart =>
        rw [not_not] at hstart
        obtain ⟨l, hl, hinv⟩ := h.finish (some .STATE_COMMIT) hthere.1 (hguard hstart) success
        rw [hl] at hstep
        exact ⟨_, (Option.some.inj hstep).symm, hinv⟩
    · cases hstep
  | destruct t i success =>
    rw [World.step] at hstep
    split at hstep
    · next hthere =>
      split at hstep
      · next hstart =>
        obtain ⟨l, hl, hinv⟩ := h.finish none hthere.1 (hguard hstart) success
        rw [hl] at hstep
        exact ⟨_, (Option.some.inj hstep).symm, hinv⟩
      · next hstart =>
        refine ⟨_, (Option.some.inj hstep).symm, h.setState hthere.1 fun hopened => ?_⟩
        exact absurd ((h t).started i hopened) hstart
    · cases hstep

theorem inductive_inv :
    (system T).Inductive Meets fun s => ∃ w, s = some w ∧ w.Inv := by
  constructor
  · rintro s rfl
    refine ⟨.start, rfl, fun t => ?_⟩
    constructor
    · rfl
    · rintro i hi
      cases hi
    · rintro i (hi | hi) <;> cases hi
    · rintro i hi
      cases hi
  · rintro s e s' ⟨w, rfl, hinv⟩ hmeets hstep
    exact hinv.step hmeets hstep

/-! ## Balance -/

/-- The lock is held through every transaction, and by a thread that runs for nothing else. -/
structure World.Balanced (w : World T) : Prop where
  held : ∀ t, ∀ i ∈ w.opened t, w.databaseLock.owner = some t
  count : ∀ t, w.control t = .running → w.databaseLock.count t = (w.opened t).card

theorem World.Inv.balanced (h : w.Inv) : w.Balanced where
  held t i hi := by
    have hcount := (h t).count
    have hpos : 0 < (w.opened t).card := Finset.card_pos.mpr ⟨i, hi⟩
    exact Mutex.owner_of_count (by omega)
  count t hcontrol := by
    have hcount := (h t).count
    rw [hcontrol] at hcount
    exact hcount

/-- **In a run whose steps meet the condition nothing is undefined, every transaction holds the
lock until it ends, and the lock count comes back to what it was before.** -/
theorem databaseLock_balanced {s : Option (World T)} (h : (system T).Reach Meets s) :
    ∃ w, s = some w ∧ w.Balanced ∧
      ∀ w₀ t, (system T).Reach Meets (some w₀) → w₀.control t = .running →
        w.control t = .running → w₀.opened t = w.opened t →
        w.databaseLock.count t = w₀.databaseLock.count t := by
  obtain ⟨w, hw, hinv⟩ := inductive_inv.invariant h
  refine ⟨w, hw, hinv.balanced, fun w₀ t hreach hrunning₀ hrunning hopened => ?_⟩
  obtain ⟨w₁, hw₁, hinv₁⟩ := inductive_inv.invariant hreach
  obtain rfl := Option.some.inj hw₁
  rw [hinv.balanced.count t hrunning, hinv₁.balanced.count t hrunning₀, hopened]

/-- A transaction is opened and asks for something. -/
def saving : List (Event Bool) :=
  [.construct true 0, .begin true 0, .began true true, .acquire true, .executeQuery true]

theorem databaseLock_balanced_saving :
    ∃ s, TSys.runGuarded next (fun _ _ => True) (some .start) saving = some s ∧
      ∃ w, s = some w ∧ w.Balanced ∧
        ∀ w₀ t, (system Bool).Reach Meets (some w₀) → w₀.control t = .running →
          w.control t = .running → w₀.opened t = w.opened t →
          w.databaseLock.count t = w₀.databaseLock.count t := by
  refine ⟨_, rfl, databaseLock_balanced ?_⟩
  have hstart : (system Bool).Reach Meets (some .start) := .start rfl
  have hnew : (system Bool).Reach Meets _ :=
    .next (a := Event.construct true 0) hstart (fun _ _ => trivial) rfl
  have hbegin : (system Bool).Reach Meets _ :=
    .next (a := Event.begin true 0) hnew (fun _ _ => trivial) rfl
  have hbegan : (system Bool).Reach Meets _ :=
    .next (a := Event.began true true) hbegin (fun w hw i _ => by
      obtain rfl := Option.some.inj hw
      exact Finset.notMem_empty i) rfl
  have hacquired : (system Bool).Reach Meets _ :=
    .next (a := Event.acquire true) hbegan (fun _ _ => trivial) rfl
  exact .next (a := Event.executeQuery true) hacquired (fun _ _ => trivial) rfl

/-- A transaction whose `BEGIN` fails is destroyed: a lock is given back that was never
taken. -/
theorem begin_fails : (system Unit).Reachable none := by
  have hrun : TSys.runGuarded next (fun _ _ => True) (some (World.start : World Unit))
      [.construct () 0, .begin () 0, .began () false, .destruct () 0 true] = some none := rfl
  exact TSys.Reach.runGuarded (fun _ _ _ h => h) (.start rfl) hrun

end Infernum.Database.Lock
