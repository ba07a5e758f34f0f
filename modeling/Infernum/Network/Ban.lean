import Infernum.Lib.Trie

/-!
# The connection limit

`Ban::acceptConnection` keeps a block for each address: its last attempt, the
time it is refused until and a count of attempts that came close together.
The attempts of many addresses interleave; what an address is answered depends
on its own attempts only (`timesOf_served`), and the bounds are proved of one
address.
-/

namespace Infernum.Bans

open Lib

/-- Times are milliseconds. -/
structure ConnectBlock where
  lastAttempt : Nat
  blockTime : Nat
  count : Nat
deriving DecidableEq

/-- What an attempt does to the block of its address, and its answer. -/
def ConnectBlock.attempt (connectBlock : ConnectBlock) (currentTime : Nat) :
    ConnectBlock × Bool :=
  if currentTime < connectBlock.blockTime then
    ({ connectBlock with blockTime := connectBlock.blockTime + 250 }, false)
  else
    let timeDiff : Int := currentTime - connectBlock.lastAttempt
    let connectBlock := { connectBlock with lastAttempt := currentTime }
    if timeDiff ≤ 5000 then
      let connectBlock := { connectBlock with count := connectBlock.count + 1 }
      if 5 < connectBlock.count then
        let connectBlock := { connectBlock with count := 0 }
        if timeDiff ≤ 500 then
          ({ connectBlock with blockTime := currentTime + 3000 }, false)
        else (connectBlock, true)
      else (connectBlock, true)
    else ({ connectBlock with count := 1 }, true)

/-- The first attempt of an address is accepted. -/
def attemptOf (connectBlock : Option ConnectBlock) (currentTime : Nat) : ConnectBlock × Bool :=
  match connectBlock with
  | none => (⟨currentTime, 0, 1⟩, true)
  | some connectBlock => connectBlock.attempt currentTime

abbrev IpConnectMap := List (UInt32 × ConnectBlock)

def acceptConnection (ipConnectMap : IpConnectMap) (clientIP : UInt32) (currentTime : Nat) :
    IpConnectMap × Bool :=
  let (connectBlock, accepted) := attemptOf (Assoc.get clientIP ipConnectMap) currentTime
  (Assoc.set clientIP connectBlock ipConnectMap, accepted)

/-- An attempt: the address and the time. -/
abbrev Attempt := UInt32 × Nat

/-- The attempts that are accepted, in their order. -/
def served (ipConnectMap : IpConnectMap) : List Attempt → List Attempt
  | [] => []
  | (clientIP, currentTime) :: rest =>
      let (ipConnectMap, accepted) := acceptConnection ipConnectMap clientIP currentTime
      if accepted then (clientIP, currentTime) :: served ipConnectMap rest
      else served ipConnectMap rest

/-! ## One address -/

/-- The attempts of one address that are accepted. -/
def admitted (connectBlock : Option ConnectBlock) : List Nat → List Nat
  | [] => []
  | currentTime :: rest =>
      let (connectBlock, accepted) := attemptOf connectBlock currentTime
      if accepted then currentTime :: admitted connectBlock rest else admitted connectBlock rest

theorem admitted_accepted {b : Option ConnectBlock} {b' : ConnectBlock} {now : Nat}
    (h : attemptOf b now = (b', true)) (rest : List Nat) :
    admitted b (now :: rest) = now :: admitted (some b') rest := by
  simp only [admitted, h, if_true]

theorem admitted_refused {b : Option ConnectBlock} {b' : ConnectBlock} {now : Nat}
    (h : attemptOf b now = (b', false)) (rest : List Nat) :
    admitted b (now :: rest) = admitted (some b') rest := by
  simp only [admitted, h, Bool.false_eq_true, if_false]

theorem admitted_none (now : Nat) (rest : List Nat) :
    admitted none (now :: rest) = now :: admitted (some ⟨now, 0, 1⟩) rest :=
  admitted_accepted rfl rest

/-- The times at which an address tries. -/
def timesOf (clientIP : UInt32) (attempts : List Attempt) : List Nat :=
  (attempts.filter fun attempt => attempt.1 = clientIP).map Prod.snd

theorem timesOf_cons_self (clientIP : UInt32) (currentTime : Nat) (rest : List Attempt) :
    timesOf clientIP ((clientIP, currentTime) :: rest) = currentTime :: timesOf clientIP rest := by
  rw [timesOf, List.filter_cons_of_pos (by simp), List.map_cons, timesOf]

theorem timesOf_cons_ne {clientIP ip : UInt32} (h : ip ≠ clientIP) (currentTime : Nat)
    (rest : List Attempt) :
    timesOf clientIP ((ip, currentTime) :: rest) = timesOf clientIP rest := by
  rw [timesOf, List.filter_cons_of_neg (by simpa using h), timesOf]

/-- What an address is answered depends on its own attempts only. -/
theorem timesOf_served (clientIP : UInt32) (ipConnectMap : IpConnectMap)
    (attempts : List Attempt) :
    timesOf clientIP (served ipConnectMap attempts) =
      admitted (Assoc.get clientIP ipConnectMap) (timesOf clientIP attempts) := by
  induction attempts generalizing ipConnectMap with
  | nil => rfl
  | cons attempt rest ih =>
      obtain ⟨ip, currentTime⟩ := attempt
      cases h : attemptOf (Assoc.get ip ipConnectMap) currentTime with
      | mk b accepted =>
          simp only [served, acceptConnection, h]
          by_cases hip : ip = clientIP
          · subst hip
            rw [timesOf_cons_self]
            cases accepted with
            | true => rw [if_pos rfl, timesOf_cons_self, ih, Assoc.get_set, if_pos rfl,
                admitted_accepted h]
            | false => rw [if_neg Bool.false_ne_true, ih, Assoc.get_set, if_pos rfl,
                admitted_refused h]
          · rw [timesOf_cons_ne hip]
            cases accepted with
            | true => rw [if_pos rfl, timesOf_cons_ne hip, ih, Assoc.get_set, if_neg (Ne.symm hip)]
            | false => rw [if_neg Bool.false_ne_true, ih, Assoc.get_set, if_neg (Ne.symm hip)]

/-- What an attempt can do to a block. -/
theorem attempt_cases (b : ConnectBlock) (now : Nat) :
    now < b.blockTime ∧ attemptOf (some b) now = ({ b with blockTime := b.blockTime + 250 }, false) ∨
      b.blockTime ≤ now ∧
        (b.lastAttempt + 500 < now ∧
            (∃ count ≤ 5, attemptOf (some b) now = (⟨now, b.blockTime, count⟩, true)) ∨
          now ≤ b.lastAttempt + 5000 ∧ b.count < 5 ∧
            attemptOf (some b) now = (⟨now, b.blockTime, b.count + 1⟩, true) ∨
          now ≤ b.lastAttempt + 500 ∧ 5 ≤ b.count ∧
            attemptOf (some b) now = (⟨now, now + 3000, 0⟩, false)) := by
  rw [attemptOf, ConnectBlock.attempt]
  by_cases hblocked : now < b.blockTime
  · rw [if_pos hblocked]
    exact .inl ⟨hblocked, rfl⟩
  · rw [if_neg hblocked]
    refine .inr ⟨by omega, ?_⟩
    by_cases hnear : (now : Int) - b.lastAttempt ≤ 5000
    · by_cases hcount : 5 < b.count + 1
      · by_cases hclose : (now : Int) - b.lastAttempt ≤ 500
        · simp only [if_pos hnear, if_pos hcount, if_pos hclose]
          exact .inr (.inr ⟨by omega, by omega, trivial⟩)
        · simp only [if_pos hnear, if_pos hcount, if_neg hclose]
          exact .inl ⟨by omega, 0, by omega, rfl⟩
      · simp only [if_pos hnear, if_neg hcount]
        exact .inr (.inl ⟨by omega, by omega, trivial⟩)
    · simp only [if_neg hnear]
      exact .inl ⟨by omega, 1, by omega, rfl⟩

/-! ## At most six in half a second -/

/-- How many attempts up to `horizon` a block still accepts, when its last
attempt is at most half a second before that. -/
def ConnectBlock.budget (horizon : Nat) (b : ConnectBlock) : Nat :=
  if horizon < b.blockTime then 0 else 5 - b.count

theorem admitted_le_budget {start : Nat} {b : ConnectBlock} {times : List Nat}
    (hlast : start ≤ b.lastAttempt) (hstart : ∀ now ∈ times, start ≤ now)
    (hend : ∀ now ∈ times, now ≤ start + 500) :
    (admitted (some b) times).length ≤ b.budget (start + 500) := by
  induction times generalizing b with
  | nil => exact Nat.zero_le _
  | cons now rest ih =>
      have hnow := hstart now List.mem_cons_self
      have hle := hend now List.mem_cons_self
      have hrest : ∀ {b' : ConnectBlock}, start ≤ b'.lastAttempt →
          (admitted (some b') rest).length ≤ b'.budget (start + 500) := fun hlast' =>
        ih hlast' (fun t ht => hstart t (List.mem_cons_of_mem _ ht))
          (fun t ht => hend t (List.mem_cons_of_mem _ ht))
      rcases attempt_cases b now with ⟨hblocked, heq⟩ | ⟨hfree, hcases⟩
      · have hnext := @hrest { b with blockTime := b.blockTime + 250 } hlast
        rw [admitted_refused heq]
        simp only [ConnectBlock.budget] at hnext ⊢
        split at hnext <;> split <;> omega
      · rcases hcases with ⟨hfar, -⟩ | ⟨-, hcount, heq⟩ | ⟨-, -, heq⟩
        · omega
        · have hnext := @hrest ⟨now, b.blockTime, b.count + 1⟩ hnow
          rw [admitted_accepted heq, List.length_cons]
          simp only [ConnectBlock.budget] at hnext ⊢
          split at hnext <;> split <;> omega
        · have hnext := @hrest ⟨now, now + 3000, 0⟩ hnow
          rw [admitted_refused heq]
          rw [ConnectBlock.budget, if_pos (show start + 500 < now + 3000 by omega)] at hnext
          omega

/-- The first attempt in the half second is the sixth at most to be accepted. -/
theorem admitted_window {start : Nat} (b : Option ConnectBlock) {times : List Nat}
    (hstart : ∀ now ∈ times, start ≤ now) (hend : ∀ now ∈ times, now ≤ start + 500) :
    (admitted b times).length ≤ 6 := by
  induction times generalizing b with
  | nil => exact Nat.zero_le _
  | cons now rest ih =>
      have hnow := hstart now List.mem_cons_self
      have hstart' : ∀ t ∈ rest, start ≤ t := fun t ht => hstart t (List.mem_cons_of_mem _ ht)
      have hend' : ∀ t ∈ rest, t ≤ start + 500 := fun t ht => hend t (List.mem_cons_of_mem _ ht)
      have hrest : ∀ b' : ConnectBlock, start ≤ b'.lastAttempt →
          (admitted (some b') rest).length ≤ 5 := by
        intro b' hlast
        have hbudget := admitted_le_budget hlast hstart' hend'
        rw [ConnectBlock.budget] at hbudget
        split at hbudget <;> omega
      cases b with
      | none =>
          rw [admitted_none, List.length_cons]
          exact Nat.succ_le_succ (hrest ⟨now, 0, 1⟩ hnow)
      | some b =>
          rcases attempt_cases b now with ⟨hblocked, heq⟩ | ⟨hfree, hcases⟩
          · rw [admitted_refused heq]
            exact ih (some _) hstart' hend'
          · rcases hcases with ⟨-, count, hcount, heq⟩ | ⟨-, hcount, heq⟩ | ⟨-, -, heq⟩
            · rw [admitted_accepted heq, List.length_cons]
              exact Nat.succ_le_succ (hrest ⟨now, b.blockTime, count⟩ hnow)
            · rw [admitted_accepted heq, List.length_cons]
              exact Nat.succ_le_succ (hrest ⟨now, b.blockTime, b.count + 1⟩ hnow)
            · rw [admitted_refused heq]
              exact Nat.le_succ_of_le (hrest ⟨now, now + 3000, 0⟩ hnow)

theorem admitted_sublist (b : Option ConnectBlock) (times : List Nat) :
    (admitted b times).Sublist times := by
  induction times generalizing b with
  | nil => exact List.Sublist.refl _
  | cons now rest ih =>
      cases h : attemptOf b now with
      | mk b' accepted =>
          cases accepted with
          | true =>
              rw [admitted_accepted h]
              exact (ih _).cons_cons now
          | false =>
              rw [admitted_refused h]
              exact (ih _).cons now

theorem le_of_mem_cons {now t : Nat} {rest : List Nat} (hnow : ∀ t ∈ rest, now ≤ t)
    (ht : t ∈ now :: rest) : now ≤ t := by
  rcases List.mem_cons.mp ht with rfl | hmem
  · exact Nat.le_refl t
  · exact hnow t hmem

/-- Later attempts do not change what came before. -/
theorem admitted_filter_le (b : Option ConnectBlock) {times : List Nat} (horizon : Nat)
    (hsorted : times.Pairwise (· ≤ ·)) :
    (admitted b times).filter (fun t => t ≤ horizon) =
      admitted b (times.filter fun t => t ≤ horizon) := by
  induction times generalizing b with
  | nil => rfl
  | cons now rest ih =>
      obtain ⟨hnow, hrest⟩ := List.pairwise_cons.mp hsorted
      by_cases hle : now ≤ horizon
      · rw [List.filter_cons_of_pos (p := fun t => decide (t ≤ horizon)) (decide_eq_true hle)]
        cases h : attemptOf b now with
        | mk b' accepted =>
            cases accepted with
            | true =>
                rw [admitted_accepted h, admitted_accepted h,
                  List.filter_cons_of_pos (p := fun t => decide (t ≤ horizon)) (decide_eq_true hle),
                  ih _ hrest]
            | false => rw [admitted_refused h, admitted_refused h, ih _ hrest]
      · have hnone : ∀ t ∈ now :: rest, ¬ t ≤ horizon := by
          intro t ht hbound
          exact hle (Nat.le_trans (le_of_mem_cons hnow ht) hbound)
        have hleft : (admitted b (now :: rest)).filter (fun t => t ≤ horizon) = [] := by
          refine List.filter_eq_nil_iff.mpr fun t ht => ?_
          simpa using hnone t ((admitted_sublist b _).subset ht)
        have hright : (now :: rest).filter (fun t => t ≤ horizon) = [] := by
          refine List.filter_eq_nil_iff.mpr fun t ht => ?_
          simpa using hnone t ht
        rw [hleft, hright]
        rfl

theorem admitted_half_second (b : Option ConnectBlock) {times : List Nat} (start : Nat)
    (hsorted : times.Pairwise (· ≤ ·)) :
    ((admitted b times).filter fun t => start ≤ t ∧ t ≤ start + 500).length ≤ 6 := by
  induction times generalizing b with
  | nil => exact Nat.zero_le _
  | cons now rest ih =>
      obtain ⟨hnow, hrest⟩ := List.pairwise_cons.mp hsorted
      by_cases hbefore : now < start
      · -- what came before the half second is not counted
        cases h : attemptOf b now with
        | mk b' accepted =>
            cases accepted with
            | true =>
                rw [admitted_accepted h, List.filter_cons_of_neg (by simp; omega)]
                exact ih _ hrest
            | false =>
                rw [admitted_refused h]
                exact ih _ hrest
      · have hstart : ∀ t ∈ now :: rest, start ≤ t := by
          intro t ht
          exact Nat.le_trans (Nat.le_of_not_lt hbefore) (le_of_mem_cons hnow ht)
        have hfilter : (admitted b (now :: rest)).filter (fun t => start ≤ t ∧ t ≤ start + 500) =
            (admitted b (now :: rest)).filter fun t => t ≤ start + 500 := by
          refine List.filter_congr fun t ht => ?_
          simp [hstart t ((admitted_sublist b _).subset ht)]
        rw [hfilter, admitted_filter_le b _ hsorted]
        refine admitted_window b (fun t ht => hstart t (List.mem_filter.mp ht).1) fun t ht => ?_
        exact of_decide_eq_true (List.mem_filter.mp ht).2

theorem timesOf_sorted {attempts : List Attempt} (h : attempts.Pairwise fun a b => a.2 ≤ b.2)
    (clientIP : UInt32) : (timesOf clientIP attempts).Pairwise (· ≤ ·) :=
  List.pairwise_map.mpr (h.filter _)

/-- Whoever else connects, an address is accepted at most six times in any
half second. -/
theorem served_half_second (ipConnectMap : IpConnectMap) {attempts : List Attempt}
    (hsorted : attempts.Pairwise fun a b => a.2 ≤ b.2) (clientIP : UInt32) (start : Nat) :
    ((timesOf clientIP (served ipConnectMap attempts)).filter
      fun t => start ≤ t ∧ t ≤ start + 500).length ≤ 6 := by
  rw [timesOf_served]
  exact admitted_half_second _ start (timesOf_sorted hsorted clientIP)

/-- Six attempts 600 ms apart, then five more at once: the six of the last
half second are accepted, the one after them is not. -/
def burst : List Attempt :=
  [(1, 0), (1, 600), (1, 1200), (1, 1800), (1, 2400), (1, 3000), (1, 3000), (1, 3000), (1, 3000),
    (1, 3000), (1, 3000), (1, 3000)]

theorem served_half_second_burst :
    (timesOf 1 (served [] burst)).length = 11 ∧
      ((timesOf 1 (served [] burst)).filter fun t => 2999 ≤ t ∧ t ≤ 2999 + 500).length ≤ 6 :=
  ⟨by decide, served_half_second [] (by decide) 1 2999⟩

/-! ## Who waits and who does not -/

theorem admitted_patient {b : ConnectBlock} {times : List Nat} (hfree : b.blockTime ≤ b.lastAttempt)
    (hgaps : (b.lastAttempt :: times).IsChain fun a b => a + 500 < b) :
    admitted (some b) times = times := by
  induction times generalizing b with
  | nil => rfl
  | cons now rest ih =>
      obtain ⟨hfar, hrest⟩ := List.isChain_cons_cons.mp hgaps
      rcases attempt_cases b now with ⟨hblocked, -⟩ | ⟨-, hcases⟩
      · omega
      · rcases hcases with ⟨-, count, -, heq⟩ | ⟨-, -, heq⟩ | ⟨hnear, -, -⟩
        · rw [admitted_accepted heq, ih (by show b.blockTime ≤ now; omega) hrest]
        · rw [admitted_accepted heq, ih (by show b.blockTime ≤ now; omega) hrest]
        · omega

/-- An address that leaves more than half a second between its attempts is
never refused, whatever the others do. -/
theorem served_patient {attempts : List Attempt} {clientIP : UInt32}
    (hgaps : (timesOf clientIP attempts).IsChain fun a b => a + 500 < b) :
    timesOf clientIP (served [] attempts) = timesOf clientIP attempts := by
  rw [timesOf_served, Assoc.get]
  cases htimes : timesOf clientIP attempts with
  | nil => rfl
  | cons now rest =>
      rw [htimes] at hgaps
      rw [admitted_none, admitted_patient (Nat.zero_le _) hgaps]

theorem served_patient_between :
    timesOf 1 (served [] [(1, 0), (2, 0), (2, 0), (1, 501), (2, 501)]) =
      timesOf 1 [(1, 0), (2, 0), (2, 0), (1, 501), (2, 501)] :=
  served_patient (by decide)

theorem admitted_hammering {b : ConnectBlock} {times : List Nat} {last : Nat}
    (hblocked : last + 250 < b.blockTime)
    (hgaps : (last :: times).IsChain fun a b => b ≤ a + 250) : admitted (some b) times = [] := by
  induction times generalizing b last with
  | nil => rfl
  | cons now rest ih =>
      obtain ⟨hnear, hrest⟩ := List.isChain_cons_cons.mp hgaps
      rcases attempt_cases b now with ⟨-, heq⟩ | ⟨hfree, -⟩
      · rw [admitted_refused heq]
        exact ih (by show now + 250 < b.blockTime + 250; omega) hrest
      · omega

/-- Once refused, an address that goes on trying at most 250 ms apart is never
accepted again. -/
theorem served_hammering {ipConnectMap : IpConnectMap} {clientIP : UInt32} {currentTime : Nat}
    (hrefused : (acceptConnection ipConnectMap clientIP currentTime).2 = false)
    {attempts : List Attempt}
    (hgaps : (currentTime :: timesOf clientIP attempts).IsChain fun a b => b ≤ a + 250) :
    timesOf clientIP
      (served (acceptConnection ipConnectMap clientIP currentTime).1 attempts) = [] := by
  rw [timesOf_served]
  rw [acceptConnection] at hrefused ⊢
  simp only [Assoc.get_set, if_true]
  cases hblock : Assoc.get clientIP ipConnectMap with
  | none =>
      rw [hblock] at hrefused
      cases hrefused
  | some b =>
      rw [hblock] at hrefused
      rcases attempt_cases b currentTime with ⟨hblocked, heq⟩ | ⟨-, hcases⟩
      · rw [heq]
        exact admitted_hammering (by show _ < b.blockTime + 250; omega) hgaps
      · rcases hcases with ⟨-, count, -, heq⟩ | ⟨-, -, heq⟩ | ⟨-, -, heq⟩
        · rw [heq] at hrefused
          cases hrefused
        · rw [heq] at hrefused
          cases hrefused
        · rw [heq]
          exact admitted_hammering (by show _ < currentTime + 3000; omega) hgaps

theorem served_hammering_sixth :
    timesOf 1 (served (acceptConnection [(1, ⟨1000, 0, 5⟩)] 1 1200).1
      [(1, 1450), (2, 1500), (1, 1700), (1, 1950)]) = [] :=
  served_hammering (by decide) (by decide)

end Infernum.Bans
