import Mathlib.Data.List.Basic
import Mathlib.Data.List.Induction
import Mathlib.Data.List.Nodup
import Mathlib.Order.Basic
import Mathlib.Tactic.Common

/-!
# The waiting list

`WaitingList::clientLogin`: when the server is full, players wait in a priority list and
a list. Times are milliseconds as the 64-bit words that the code computes with. A
`std::list` is its entries and the length it keeps; to `erase` an iterator takes the node
out of the list that it is linked in, and one off the length of the list that `erase` was
called on.
-/

namespace Infernum.Waiting

structure Wait where
  timeout : BitVec 64
  playerGUID : BitVec 32
  deriving DecidableEq, Repr

structure WaitList where
  entries : List Wait
  size : BitVec 64
  deriving DecidableEq, Repr

namespace WaitList

def empty (list : WaitList) : Bool := list.entries.isEmpty

def emplaceBack (list : WaitList) (entry : Wait) : WaitList :=
  ⟨list.entries ++ [entry], list.size + 1⟩

/-- `cleanupList`: the loop from an entry of the list on. -/
def cleanupFrom (time : BitVec 64) : List Wait → BitVec 64 → WaitList
  | [], size => ⟨[], size⟩
  | entry :: rest, size =>
      if (entry.timeout - time).toNat ≤ 0 then cleanupFrom time rest (size - 1)
      else
        let list := cleanupFrom time rest size
        ⟨entry :: list.entries, list.size⟩

def cleanupList (list : WaitList) (time : BitVec 64) : WaitList :=
  cleanupFrom time list.entries list.size

end WaitList

def ACCOUNT_TYPE_GAMEMASTER : Nat := 4

/-- What `clientLogin` reads of a player. -/
structure Player where
  guid : BitVec 32
  canAlwaysLogin : Bool
  accountType : Nat
  isPremium : Bool
  deriving DecidableEq, Repr

/-- An iterator into one of the two lists. -/
inductive WaitIterator where
  | priority (index : Nat)
  | ordinary (index : Nat)
  | waitListEnd
  deriving DecidableEq, Repr

def getTime (slot : BitVec 64) : BitVec 64 :=
  if slot < 5 then 5
  else if slot < 10 then 10
  else if slot < 20 then 20
  else if slot < 50 then 60
  else 120

def getTimeout (slot : BitVec 64) : BitVec 64 := getTime slot + 15

structure WaitListInfo where
  priorityWaitList : WaitList
  waitList : WaitList
  deriving DecidableEq, Repr

/-- A call of `clientLogin`: the player, and what it finds on-line, in the configuration
and on the clock. -/
structure Call where
  player : Player
  playersOnline : Nat
  maxPlayers : BitVec 32
  time : BitVec 64

/-- The first test of `clientLogin`: the player never waits. -/
def Call.exempt (c : Call) : Bool :=
  c.player.canAlwaysLogin || ACCOUNT_TYPE_GAMEMASTER ≤ c.player.accountType

namespace WaitListInfo

def initial : WaitListInfo := ⟨⟨[], 0⟩, ⟨[], 0⟩⟩

/-- `findClient`: the entry of the player, and its place counted over both lists. -/
def findClient (info : WaitListInfo) (guid : BitVec 32) : WaitIterator × Nat :=
  let waits (entry : Wait) : Bool := entry.playerGUID = guid
  let first := info.priorityWaitList.entries
  let second := info.waitList.entries
  if first.any waits then (.priority (first.findIdx waits), first.findIdx waits + 1)
  else if second.any waits then
    (.ordinary (second.findIdx waits), first.length + second.findIdx waits + 1)
  else (.waitListEnd, first.length + second.length + 1)

/-- `waitList.erase(it)`. -/
def erase (info : WaitListInfo) : WaitIterator → WaitListInfo
  | .priority index =>
      { priorityWaitList :=
          { info.priorityWaitList with entries := info.priorityWaitList.entries.eraseIdx index }
        waitList := { info.waitList with size := info.waitList.size - 1 } }
  | .ordinary index =>
      { info with waitList := ⟨info.waitList.entries.eraseIdx index, info.waitList.size - 1⟩ }
  | .waitListEnd => info

/-- `it->timeout = timeout`. -/
def setTimeout (info : WaitListInfo) (timeout : BitVec 64) : WaitIterator → WaitListInfo
  | .priority index =>
      { info with priorityWaitList :=
          { info.priorityWaitList with
            entries := info.priorityWaitList.entries.modify index ({ · with timeout := timeout }) } }
  | .ordinary index =>
      { info with waitList :=
          { info.waitList with
            entries := info.waitList.entries.modify index ({ · with timeout := timeout }) } }
  | .waitListEnd => info

def cleanup (info : WaitListInfo) (time : BitVec 64) : WaitListInfo :=
  ⟨info.priorityWaitList.cleanupList time, info.waitList.cleanupList time⟩

/-- The player is let in without a look at the lists' entries. -/
def bypass (info : WaitListInfo) (c : Call) : Bool :=
  c.exempt || c.maxPlayers == 0 ||
    (info.priorityWaitList.empty && info.waitList.empty && c.playersOnline < c.maxPlayers.toNat)

/-- The lists when the decision is made. -/
def atDecision (info : WaitListInfo) (c : Call) : WaitListInfo :=
  if info.bypass c then info else info.cleanup c.time

/-- `clientLogin`: whether the player is let in. -/
def clientLogin (info : WaitListInfo) (c : Call) : WaitListInfo × Bool :=
  if info.bypass c then (info, true)
  else
    let info := info.cleanup c.time
    let (it, slot) := info.findClient c.player.guid
    if it ≠ .waitListEnd then
      if c.playersOnline + slot ≤ c.maxPlayers.toNat then (info.erase it, true)
      else (info.setTimeout (c.time + getTimeout slot * 1000) it, false)
    else if c.player.isPremium then
      let slot := info.priorityWaitList.size
      let entry : Wait := ⟨c.time + getTimeout (slot + 1) * 1000, c.player.guid⟩
      ({ info with priorityWaitList := info.priorityWaitList.emplaceBack entry }, false)
    else
      let slot := info.priorityWaitList.size + info.waitList.size
      let entry : Wait := ⟨c.time + getTimeout (slot + 1) * 1000, c.player.guid⟩
      ({ info with waitList := info.waitList.emplaceBack entry }, false)

/-- The lists after a sequence of calls. -/
def after (calls : List Call) : WaitListInfo :=
  calls.foldl (fun info c => (info.clientLogin c).1) initial

/-- Both lists as the one queue they stand for. -/
def queue (info : WaitListInfo) : List Wait :=
  info.priorityWaitList.entries ++ info.waitList.entries

end WaitListInfo

end Infernum.Waiting

/-!
## The discipline of the waiting list

A player has one entry at most, is let in for it in turn, and nobody who is new gets in
before those who wait, if he has to wait at all.
-/

namespace Infernum.Waiting

open WaitListInfo

/-- The entry of this player leaves the list that has it, and no other entry does. Its
place was counted over both lists. -/
inductive Removed (guid : BitVec 32) (info info' : WaitListInfo) (place : Nat) : Prop
  | priority {before after : List Wait} {entry : Wait}
      (hlist : info.priorityWaitList.entries = before ++ entry :: after)
      (hguid : entry.playerGUID = guid)
      (hgone : info'.priorityWaitList.entries = before ++ after)
      (hrest : info'.waitList.entries = info.waitList.entries)
      (hplace : place = before.length + 1)
  | ordinary {before after : List Wait} {entry : Wait}
      (hlist : info.waitList.entries = before ++ entry :: after)
      (hguid : entry.playerGUID = guid)
      (hgone : info'.waitList.entries = before ++ after)
      (hrest : info'.priorityWaitList.entries = info.priorityWaitList.entries)
      (hplace : place = info.priorityWaitList.entries.length + before.length + 1)

/-- One call keeps the discipline. Newcomers in `past` may be let in past the queue. -/
structure Discipline (past : Call → Prop) (info : WaitListInfo) (c : Call) : Prop where
  once : ((info.clientLogin c).1.queue.map Wait.playerGUID).Nodup
  removes : info.bypass c = false → (info.clientLogin c).2 = true →
    ∃ place, Removed c.player.guid (info.atDecision c) (info.clientLogin c).1 place ∧
      c.playersOnline + place ≤ c.maxPlayers.toNat
  newcomer : ¬past c → c.player.guid ∉ info.queue.map Wait.playerGUID → info.queue ≠ [] →
    (info.clientLogin c).2 = false

/-! ## Looking for a client -/

/-- What `findClient` finds. -/
inductive Client (info : WaitListInfo) (guid : BitVec 32) : WaitIterator × Nat → Prop
  | priority {before after : List Wait} {entry : Wait}
      (hlist : info.priorityWaitList.entries = before ++ entry :: after)
      (hguid : entry.playerGUID = guid) :
      Client info guid (.priority before.length, before.length + 1)
  | ordinary {before after : List Wait} {entry : Wait}
      (hlist : info.waitList.entries = before ++ entry :: after)
      (hguid : entry.playerGUID = guid) :
      Client info guid (.ordinary before.length,
        info.priorityWaitList.entries.length + before.length + 1)
  | none {slot : Nat} (hnone : guid ∉ info.queue.map Wait.playerGUID) :
      Client info guid (.waitListEnd, slot)

theorem sub_toNat_le_zero (a b : BitVec 64) : (a - b).toNat ≤ 0 ↔ a = b := by
  constructor
  · intro h
    bv_omega
  · rintro rfl
    simp

/-- Only the entries whose timeout is the current time go. -/
theorem entries_cleanupFrom (time size : BitVec 64) (entries : List Wait) :
    (WaitList.cleanupFrom time entries size).entries =
      entries.filter fun entry => entry.timeout ≠ time := by
  induction entries generalizing size with
  | nil => rfl
  | cons entry rest ih =>
      rw [WaitList.cleanupFrom]
      by_cases h : entry.timeout = time
      · rw [if_pos ((sub_toNat_le_zero _ _).mpr h), ih,
          List.filter_cons_of_neg (by simpa using h)]
      · rw [if_neg (mt (sub_toNat_le_zero _ _).mp h), List.filter_cons_of_pos (by simpa using h)]
        exact congrArg (entry :: ·) (ih size)

theorem queue_cleanup (info : WaitListInfo) (time : BitVec 64) :
    (info.cleanup time).queue = info.queue.filter fun entry => entry.timeout ≠ time := by
  rw [queue, queue, List.filter_append, cleanup, WaitList.cleanupList, WaitList.cleanupList,
    entries_cleanupFrom, entries_cleanupFrom]

/-! ## The three ways on -/

theorem Removed.mem {guid : BitVec 32} {info info' : WaitListInfo} {place : Nat}
    (h : Removed guid info info' place) : guid ∈ info.queue.map Wait.playerGUID := by
  cases h with
  | priority hlist hguid _ _ _ =>
      refine List.mem_map.mpr ⟨_, List.mem_append_left _ ?_, hguid⟩
      rw [hlist]
      exact List.mem_append_right _ List.mem_cons_self
  | ordinary hlist hguid _ _ _ =>
      refine List.mem_map.mpr ⟨_, List.mem_append_right _ ?_, hguid⟩
      rw [hlist]
      exact List.mem_append_right _ List.mem_cons_self

end Infernum.Waiting

/-!
## Abandoned entries

`cleanupList` subtracts the signed clock from the unsigned timeout: the difference is
unsigned, and at most zero only if it is zero. An entry goes only at the very millisecond
of its timeout.
-/

namespace Infernum.Waiting

open WaitListInfo

/-- No entry has a timeout at or before this time. -/
def Purged (info : WaitListInfo) (time : BitVec 64) : Prop :=
  ∀ entry ∈ info.queue, time < entry.timeout

/-- No entry's timeout passed before the call; nor is it now, if the call does not look at
the lists. -/
def Fresh (info : WaitListInfo) (c : Call) : Prop :=
  ∀ entry ∈ info.queue, c.time ≤ entry.timeout ∧
    (info.bypass c = true → entry.timeout ≠ c.time)

theorem purged_atDecision (info : WaitListInfo) (c : Call) :
    Purged (info.atDecision c) c.time ↔ Fresh info c := by
  have hlt : ∀ a b : BitVec 64, a < b ↔ a ≤ b ∧ b ≠ a := by
    intro a b
    constructor
    · intro h
      exact ⟨by bv_omega, by bv_omega⟩
    · rintro ⟨hle, hne⟩
      bv_omega
  rw [atDecision]
  split
  · next hlists => simp [Purged, Fresh, hlists, hlt]
  · next hlists =>
    rw [Purged, queue_cleanup, Fresh]
    constructor
    · intro h entry hentry
      refine ⟨?_, fun hbypass => absurd hbypass hlists⟩
      by_cases heq : entry.timeout = c.time
      · exact heq ▸ BitVec.le_refl _
      · exact ((hlt _ _).mp (h entry (List.mem_filter.mpr ⟨hentry, by simpa using heq⟩))).1
    · intro h entry hentry
      obtain ⟨hmem, hne⟩ := List.mem_filter.mp hentry
      exact (hlt _ _).mpr ⟨(h entry hmem).1, by simpa using hne⟩

/-- The decisions of a run are made without abandoned entries exactly if at none of them
an entry's timeout had passed before. -/
theorem purged_exact (calls : List Call) :
    (∀ done c, done ++ [c] <+: calls → Purged ((after done).atDecision c) c.time) ↔
      ∀ done c, done ++ [c] <+: calls → Fresh (after done) c :=
  forall_congr' fun done => forall_congr' fun c => forall_congr' fun _ =>
    purged_atDecision (after done) c

/-- A player who came at 1 s and was to retry before 21 s still waits at 30 s. -/
theorem abandoned_waits :
    ¬∀ calls done c, done ++ [c] <+: calls → Purged ((after done).atDecision c) c.time := by
  intro h
  have hpurged := h [⟨⟨1, false, 1, false⟩, 1, 1, 1000⟩, ⟨⟨2, false, 1, false⟩, 1, 1, 30000⟩]
    [⟨⟨1, false, 1, false⟩, 1, 1, 1000⟩] ⟨⟨2, false, 1, false⟩, 1, 1, 30000⟩ (List.prefix_refl _)
  exact absurd (hpurged ⟨21000, 1⟩ (by decide)) (by decide)

end Infernum.Waiting
