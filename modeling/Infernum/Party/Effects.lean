import Infernum.Party.Party
import Mathlib.Tactic.Common

/-!
# What the operations on parties do

The loops of `disband` in closed form, and the ways to leave a party.
-/

namespace Infernum.Parties

namespace World

variable {w : World} {ev : Events}

@[simp] theorem player_write (w : World) (p : Nat) (P : Party) : (w.write p P).player = w.player :=
  rfl

theorem player_setParty (w : World) (q r : Nat) (party : Option Nat) :
    (w.setParty q party).player r =
      if r = q then { w.player r with party := party } else w.player r := by
  rw [setParty]
  dsimp only
  rw [Function.update_apply]
  split
  · next h => rw [h]
  · rfl

theorem party_write (w : World) (p p' : Nat) (P : Party) :
    (w.write p P).party p' = if p' = p then some P else w.party p' := by
  exact Function.update_apply ..

theorem getChannelList_eq (w : World) (q : Nat) :
    ∃ partyChannels, w.getChannelList q = { w with partyChannels := partyChannels } := by
  rw [getChannelList]
  split
  · exact ⟨_, rfl⟩
  · exact ⟨w.partyChannels, rfl⟩

theorem addUserToChannel_eq (w : World) (q : Nat) :
    ∃ partyChannels, w.addUserToChannel q = { w with partyChannels := partyChannels } := by
  rw [addUserToChannel]
  cases w.getChannel q with
  | none => exact ⟨w.partyChannels, rfl⟩
  | some p =>
      dsimp only
      split
      · exact ⟨w.partyChannels, rfl⟩
      · exact ⟨_, rfl⟩

theorem removeUserFromChannel_eq (w : World) (q : Nat) :
    ∃ partyChannels, w.removeUserFromChannel q = { w with partyChannels := partyChannels } := by
  rw [removeUserFromChannel]
  cases w.getChannel q with
  | none => exact ⟨w.partyChannels, rfl⟩
  | some p => exact ⟨_, rfl⟩

/-- The channel of a party is looked up through the player's party. -/
theorem sendClosePrivate_of_none {q : Nat} (hnone : (w.player q).party = none) :
    w.sendClosePrivate q = w := by
  have hchannel : w.getChannel q = none := by
    rw [getChannel, hnone]
    rfl
  rw [sendClosePrivate, removeUserFromChannel, hchannel]

theorem party_player_setParty (w : World) (q : Nat) (party : Option Nat) :
    ((w.setParty q party).player q).party = party := by
  rw [player_setParty, if_pos rfl]

theorem sendClosePrivate_setParty (w : World) (q : Nat) :
    (w.setParty q none).sendClosePrivate q = w.setParty q none :=
  sendClosePrivate_of_none (party_player_setParty w q none)

theorem sendClosePrivate_write (w : World) (p q : Nat) (P : Party) :
    ((w.setParty q none).write p P).sendClosePrivate q = (w.setParty q none).write p P :=
  sendClosePrivate_of_none (party_player_setParty w q none)

theorem foldl_removePartyInvitation (p : Nat) (l : List Nat) (w : World) :
    l.foldl (fun w invitee => w.removePartyInvitation invitee p) w =
      { w with player := fun q =>
          if q ∈ l then
            ⟨(w.player q).party, (w.player q).invitePartyList.filter (· ≠ p)⟩
          else w.player q } := by
  induction l generalizing w with
  | nil => simp
  | cons i l ih =>
      rw [List.foldl_cons, ih]
      refine World.ext (funext fun q => ?_) rfl rfl rfl
      simp only [removePartyInvitation, Function.update_apply, List.mem_cons]
      by_cases hq : q = i
      · subst hq
        by_cases hmem : q ∈ l <;> simp [hmem, List.filter_filter]
      · by_cases hmem : q ∈ l <;> simp [hmem, hq]

theorem foldl_setParty (l : List Nat) (w : World) :
    l.foldl (fun w q => (w.setParty q none).sendClosePrivate q) w =
      { w with player := fun q =>
          if q ∈ l then ⟨none, (w.player q).invitePartyList⟩ else w.player q } := by
  induction l generalizing w with
  | nil => simp
  | cons i l ih =>
      rw [List.foldl_cons, ih, sendClosePrivate_setParty]
      refine World.ext (funext fun q => ?_) rfl rfl rfl
      simp only [player_setParty, List.mem_cons]
      by_cases hq : q = i
      · subst hq
        by_cases hmem : q ∈ l <;> simp [hmem]
      · by_cases hmem : q ∈ l <;> simp [hmem, hq]

/-- The world without a party. -/
def disbanded (w : World) (p : Nat) (P : Party) : World :=
  { w with
    player := fun q =>
      ⟨if q = P.leader ∨ q ∈ P.memberList then none else (w.player q).party,
        if q ∈ P.inviteList then (w.player q).invitePartyList.filter (· ≠ p)
        else (w.player q).invitePartyList⟩
    party := Function.update w.party p none }

theorem disband_eq {p : Nat} {P : Party} (hP : w.party p = some P) :
    w.disband ev p = if ev.eventPartyOnDisband p then w.disbanded p P else w := by
  rw [disband, hP]
  dsimp only
  cases ev.eventPartyOnDisband p with
  | false => rfl
  | true =>
      rw [sendClosePrivate_setParty, foldl_removePartyInvitation, foldl_setParty]
      refine World.ext (funext fun q => ?_) rfl rfl rfl
      simp only [delete, disbanded, player_setParty]
      by_cases hleader : q = P.leader
      · subst hleader
        by_cases hmember : P.leader ∈ P.memberList <;>
          by_cases hinvited : P.leader ∈ P.inviteList <;> simp [hmember, hinvited]
      · by_cases hmember : q ∈ P.memberList <;>
          by_cases hinvited : q ∈ P.inviteList <;> simp [hleader, hmember, hinvited]

/-- What is left of a party when a player leaves, and whether it has a leader. -/
inductive Left (w : World) (p player : Nat) (P : Party) : Party → Bool → Prop
  | member (hleader : P.leader ≠ player) :
      Left w p player P { P with memberList := P.memberList.erase player } false
  | missing (hleader : P.leader = player)
      (halone : P.memberList = [] ∨ P.memberList.length = 1 ∧ P.inviteList = []) :
      Left w p player P { P with memberList := P.memberList.erase player } true
  | passed {front : Nat} {rest : List Nat} (hleader : P.leader = player)
      (hmembers : P.memberList = front :: rest)
      (hmore : ¬(P.memberList.length = 1 ∧ P.inviteList = []))
      (hfront : front ≠ player ∧ (w.player front).party = some p) :
      Left w p player P { P with leader := front, memberList := rest } false
  /-- The member in front has another party, or none. -/
  | stuck {front : Nat} {rest : List Nat} (hleader : P.leader = player)
      (hmembers : P.memberList = front :: rest)
      (hmore : ¬(P.memberList.length = 1 ∧ P.inviteList = []))
      (hfront : ¬(front ≠ player ∧ (w.player front).party = some p)) :
      Left w p player P { P with memberList := P.memberList.erase player } false

theorem write_write (w : World) (p : Nat) (P P' : Party) :
    (w.write p P).write p P' = w.write p P' := by
  rw [write, write, write]
  exact World.ext rfl (Function.update_idem ..) rfl rfl

theorem write_setParty (w : World) (p q : Nat) (P : Party) (party : Option Nat) :
    (w.write p P).setParty q party = (w.setParty q party).write p P := rfl

theorem passPartyLeadership_eq {p player : Nat} {P : Party} (hP : w.party p = some P) :
    w.passPartyLeadership p player =
      if player ≠ P.leader ∧ (w.player player).party = some p then
        w.write p { P with leader := player, memberList := P.leader :: P.memberList.erase player }
      else w := by
  rw [passPartyLeadership, hP]
  dsimp only
  by_cases h : player ≠ P.leader ∧ (w.player player).party = some p
  · rw [if_pos h, if_neg (not_or.mpr ⟨Ne.symm h.1, not_not.mpr h.2⟩)]
  · rw [if_neg h, if_pos]
    by_contra hor
    obtain ⟨hleader, hparty⟩ := not_or.mp hor
    exact h ⟨Ne.symm hleader, not_not.mp hparty⟩

/-- A player leaves: what is left is written, and disbanded if it has no leader or nobody
else. -/
theorem leaveParty_eq (ev : Events) {p player : Nat} {P : Party} (hP : w.party p = some P)
    (hplayer : (w.player player).party = some p) :
    w.leaveParty ev p player = w ∧ ev.eventPartyOnLeave p player = false ∨
      ev.eventPartyOnLeave p player = true ∧ ∃ P' missingLeader,
        Left w p player P P' missingLeader ∧
        w.leaveParty ev p player =
          if missingLeader || P'.empty then ((w.setParty player none).write p P').disband ev p
          else (w.setParty player none).write p P' := by
  have hguard : ¬((w.player player).party ≠ some p ∧ P.leader ≠ player) := fun h => h.1 hplayer
  rw [leaveParty, hP]
  dsimp only
  rw [if_neg hguard]
  cases hevent : ev.eventPartyOnLeave p player with
  | false => exact .inl ⟨rfl, rfl⟩
  | true =>
      refine .inr ⟨rfl, ?_⟩
      rw [Bool.not_true, if_neg Bool.false_ne_true]
      by_cases hleader : P.leader = player
      · rw [if_pos hleader]
        cases hmembers : P.memberList with
        | nil =>
            refine ⟨_, true, .missing hleader (.inl hmembers), ?_⟩
            simp only [hP, hmembers, write_setParty, sendClosePrivate_write]
        | cons front rest =>
            dsimp only
            by_cases halone : (front :: rest).length = 1 ∧ P.inviteList = []
            · refine ⟨_, true, .missing hleader (.inr (hmembers ▸ halone)), ?_⟩
              simp only [if_pos halone, hP, hmembers, write_setParty, sendClosePrivate_write]
            · have hmore : ¬(P.memberList.length = 1 ∧ P.inviteList = []) := hmembers ▸ halone
              by_cases hfront : front ≠ player ∧ (w.player front).party = some p
              · refine ⟨_, false, .passed hleader hmembers hmore hfront, ?_⟩
                simp only [if_neg halone, passPartyLeadership_eq hP, hleader, if_pos hfront,
                  party_write, hmembers, List.erase_cons_head, if_true, write_setParty,
                  write_write, sendClosePrivate_write]
              · refine ⟨_, false, .stuck hleader hmembers hmore hfront, ?_⟩
                simp only [if_neg halone, passPartyLeadership_eq hP, hleader, if_neg hfront,
                  hP, hmembers, write_setParty, sendClosePrivate_write]
      · rw [if_neg hleader]
        refine ⟨_, false, .member hleader, ?_⟩
        simp only [hP, write_setParty, sendClosePrivate_write]

end World

end Infernum.Parties

/-!
## What the handlers of the players' requests do

A request is ignored, or it comes down to one operation on a party, under the guards that
the handler has checked.
-/

namespace Infernum.Parties

namespace World

variable (w : World) (ev : Events)

theorem party_eq_none {q : Nat} (h : ¬(w.player q).party.isSome = true) :
    (w.player q).party = none :=
  Option.not_isSome_iff_eq_none.mp h

theorem playerInviteToParty_cases (p player invited : Nat) :
    w.playerInviteToParty p player invited = w ∨
      player ≠ invited ∧ (w.player invited).party = none ∧
        ((w.player player).party = none ∧
            w.playerInviteToParty p player invited = (w.newParty p player).invitePlayer p invited ∨
          ∃ own P, w.party own = some P ∧
            w.playerInviteToParty p player invited = w.invitePlayer own invited) := by
  rw [playerInviteToParty]
  by_cases hself : player = invited
  · rw [if_pos hself]
    exact .inl rfl
  · rw [if_neg hself]
    split
    · exact .inl rfl
    · split
      · exact .inl rfl
      · split
        · exact .inl rfl
        · next hinvited =>
          cases hown : (w.player player).party with
          | none => exact .inr ⟨hself, w.party_eq_none hinvited, .inl ⟨rfl, rfl⟩⟩
          | some own =>
              dsimp only
              cases hP : w.party own with
              | none => exact .inl rfl
              | some P =>
                  dsimp only
                  split
                  · exact .inl rfl
                  · exact .inr ⟨hself, w.party_eq_none hinvited, .inr ⟨own, P, hP, rfl⟩⟩

theorem playerJoinParty_cases (player leader : Nat) :
    w.playerJoinParty ev player leader = w ∨
      ∃ p P, w.party p = some P ∧ (w.player player).party = none ∧
        w.playerJoinParty ev player leader = w.joinParty ev p player := by
  rw [playerJoinParty]
  split
  · exact .inl rfl
  · split
    · exact .inl rfl
    · cases (w.player leader).party with
      | none => exact .inl rfl
      | some p =>
          dsimp only
          cases hP : w.party p with
          | none => exact .inl rfl
          | some P =>
              dsimp only
              split
              · exact .inl rfl
              · split
                · exact .inl rfl
                · next hparty => exact .inr ⟨p, P, hP, w.party_eq_none hparty, rfl⟩

theorem playerRevokePartyInvitation_cases (player invited : Nat) :
    w.playerRevokePartyInvitation ev player invited = w ∨
      (w.online player = true ∧ w.online invited = true) ∧
        ∃ p P, (w.player player).party = some p ∧ w.party p = some P ∧ P.leader = player ∧
          w.playerRevokePartyInvitation ev player invited = w.revokeInvitation ev p invited := by
  rw [playerRevokePartyInvitation]
  split
  · exact .inl rfl
  · next hplayer =>
    cases (w.player player).party with
    | none => exact .inl rfl
    | some p =>
        dsimp only
        cases hP : w.party p with
        | none => exact .inl rfl
        | some P =>
            dsimp only
            split
            · exact .inl rfl
            · next hleader =>
              split
              · exact .inl rfl
              · next hinvited =>
                rw [Bool.or_eq_true, not_or] at hinvited
                refine .inr ⟨⟨?_, ?_⟩, p, P, rfl, hP, not_not.mp hleader, rfl⟩
                · simpa using hplayer
                · simpa using hinvited.1

theorem playerPassPartyLeadership_cases (player newLeader : Nat) :
    w.playerPassPartyLeadership player newLeader = w ∨
      ∃ p, w.playerPassPartyLeadership player newLeader = w.passPartyLeadership p newLeader := by
  rw [playerPassPartyLeadership]
  split
  · exact .inl rfl
  · cases (w.player player).party with
    | none => exact .inl rfl
    | some p =>
        dsimp only
        cases w.party p with
        | none => exact .inl rfl
        | some P =>
            dsimp only
            split
            · exact .inl rfl
            · split
              · exact .inl rfl
              · exact .inr ⟨p, rfl⟩

/-- A player who leaves is online and not in a fight. -/
theorem playerLeaveParty_eq (player : Nat) (inFight : Bool) :
    w.playerLeaveParty ev player inFight =
      if w.online player ∧ inFight = false then
        match (w.player player).party with
        | none => w
        | some p => w.leaveParty ev p player
      else w := by
  rw [playerLeaveParty]
  cases w.online player with
  | false => simp
  | true => cases inFight <;> cases (w.player player).party <;> simp

end World

end Infernum.Parties
