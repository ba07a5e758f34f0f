import Infernum.Party.Membership

/-!
# Leaving a party

A player who leaves hands the leadership on, or his party is disbanded. A callback can
keep the party from being disbanded when he already has no pointer to it.
-/

namespace Infernum.Parties

namespace World

variable {w : World} {ev : Events} {p q : Nat} {P : Party}

/-- A leader who leaves without anybody to take over is let go and the party with him. -/
def KeepsLeader (w : World) (ev : Events) (q : Nat) : Prop :=
  ∀ p P, (w.player q).party = some p → w.party p = some P → P.leader = q →
    (P.memberList = [] ∨ P.memberList.length = 1 ∧ P.inviteList = []) →
    ev.eventPartyOnLeave p q = true → ev.eventPartyOnDisband p = true

theorem not_consistent_of_stray (hP : w.party p = some P) (hq : P.Has q)
    (hstray : (w.player q).party ≠ some p) : ¬w.Consistent :=
  fun h => hstray ((h.pointer q p).mpr ⟨P, hP, hq⟩)

/-- Nobody but the leaver is missing from what is left, unless the leader is. -/
theorem Left.has_iff {P' : Party} (hsound : P.Sound) (hleft : Left w p q P P' false)
    (hmember : ∀ r ∈ P.memberList, (w.player r).party = some p) (r : Nat) :
    P'.Has r ↔ P.Has r ∧ r ≠ q := by
  cases hleft with
  | member hleader =>
      show r = P.leader ∨ r ∈ P.memberList.erase q ↔ (r = P.leader ∨ r ∈ P.memberList) ∧ r ≠ q
      rw [hsound.members.mem_erase_iff]
      constructor
      · rintro (rfl | ⟨hne, hr⟩)
        · exact ⟨.inl rfl, hleader⟩
        · exact ⟨.inr hr, hne⟩
      · rintro ⟨hr | hr, hne⟩
        · exact .inl hr
        · exact .inr ⟨hne, hr⟩
  | @passed front rest hleader hmembers hmore hfront =>
      show r = front ∨ r ∈ rest ↔ (r = P.leader ∨ r ∈ P.memberList) ∧ r ≠ q
      rw [hmembers, List.mem_cons]
      have hout : q ∉ front :: rest := by
        rw [← hmembers, ← hleader]
        exact hsound.leaderOut
      constructor
      · intro hr
        exact ⟨.inr hr, fun heq => hout (heq ▸ List.mem_cons.mpr hr)⟩
      · rintro ⟨hr | hr, hne⟩
        · exact absurd (hr.trans hleader) hne
        · exact hr
  | @stuck front rest hleader hmembers hmore hfront =>
      have hin : front ∈ P.memberList := hmembers ▸ List.mem_cons_self
      refine absurd ⟨fun heq => ?_, hmember front hin⟩ hfront
      exact hsound.leaderOut (hleader.trans heq.symm ▸ hin)

theorem Left.sound {P' : Party} (hsound : P.Sound) (hleft : Left w p q P P' false)
    (hmember : ∀ r ∈ P.memberList, (w.player r).party = some p) : P'.Sound := by
  have hhas := hleft.has_iff hsound hmember
  have hinvites : P'.inviteList = P.inviteList := by cases hleft <;> rfl
  have hapart : ∀ r, P'.Has r → r ∉ P'.inviteList := fun r hr =>
    hinvites ▸ hsound.apart r ((hhas r).mp hr).1
  cases hleft with
  | member hleader =>
      exact ⟨fun hmem => hsound.leaderOut (List.mem_of_mem_erase hmem), hsound.members.erase q,
        hsound.invites, hapart⟩
  | passed hleader hmembers hmore hfront =>
      have hnodup := hsound.members
      rw [hmembers, List.nodup_cons] at hnodup
      exact ⟨hnodup.1, hnodup.2, hsound.invites, hapart⟩
  | stuck hleader hmembers hmore hfront =>
      exact ⟨fun hmem => hsound.leaderOut (List.mem_of_mem_erase hmem), hsound.members.erase q,
        hsound.invites, hapart⟩

/-- A party goes on without a player. -/
theorem Inv.left {P' : Party} (h : w.Inv w.invitations) (hP : w.party p = some P)
    (hq : (w.player q).party = some p) (hleft : Left w p q P P' false) :
    ((w.setParty q none).write p P').Inv ((w.setParty q none).write p P').invitations := by
  have hsound := h.sound p P hP
  have hmember : ∀ r ∈ P.memberList, (w.player r).party = some p := fun r hr =>
    (h.has_iff hP r).mp (.inr hr)
  have hhas := hleft.has_iff hsound hmember
  have hinvites : P'.inviteList = P.inviteList := by cases hleft <;> rfl
  have hinv : ((w.setParty q none).write p P').invitations = w.invitations := by
    funext r
    rw [invitations, player_write, player_setParty]
    split <;> rfl
  rw [hinv]
  refine h.replace p (some P') (fun p' => party_write ..) ?_ ?_ ?_ (fun _ _ _ => Iff.rfl) ?_
    h.distinct
  · rintro _ ⟨⟩
    exact hleft.sound hsound hmember
  · rintro r _ ⟨⟩ hr
    obtain ⟨hold, hne⟩ := (hhas r).mp hr
    have hpointer := (h.has_iff hP r).mp hold
    rw [player_write, player_setParty, if_neg hne]
    exact ⟨hpointer, .inl hpointer⟩
  · intro r hnone
    rw [player_write, player_setParty]
    by_cases heq : r = q
    · rw [if_pos heq, heq, if_pos hq]
    · have hold : (w.player r).party ≠ some p := fun hold =>
        hnone P' rfl ((hhas r).mpr ⟨(h.has_iff hP r).mpr hold, heq⟩)
      rw [if_neg heq, if_neg hold]
  · intro r
    rw [h.invited_iff hP r, ← hinvites]
    simp

/-- The leader goes, and his party with him. -/
theorem Inv.gone (h : w.Inv w.invitations) (hP : w.party p = some P) (hleader : P.leader = q) :
    (((w.setParty q none).write p { P with memberList := P.memberList.erase q }).disbanded p
      { P with memberList := P.memberList.erase q }).Inv
      (((w.setParty q none).write p { P with memberList := P.memberList.erase q }).disbanded p
        { P with memberList := P.memberList.erase q }).invitations := by
  have hsound := h.sound p P hP
  have hmembers : P.memberList.erase q = P.memberList :=
    List.erase_of_not_mem (hleader ▸ hsound.leaderOut)
  rw [hmembers]
  have hsame : ((w.setParty q none).write p P).disbanded p P = w.disbanded p P := by
    refine World.ext (funext fun r => ?_) (Function.update_idem ..) rfl rfl
    show Player.mk _ _ = Player.mk _ _
    rw [player_write, player_setParty]
    by_cases heq : r = q
    · simp [heq, hleader]
    · simp [heq]
  rw [hsame]
  exact h.disbanded hP

/-- A player is in no party after he has left. -/
theorem party_player_left (P' : Party) :
    (((w.setParty q none).write p P').player q).party = none := by
  rw [player_write]
  exact party_player_setParty ..

theorem party_player_disband {p : Nat} (hnone : (w.player q).party = none) :
    ((w.disband ev p).player q).party = none := by
  cases hP : w.party p with
  | none =>
      rw [disband, hP]
      exact hnone
  | some P =>
      rw [disband_eq hP]
      split
      · show (if _ then none else (w.player q).party) = none
        rw [hnone, ite_self]
      · exact hnone

theorem party_player_leaveParty (hP : w.party p = some P) (hq : (w.player q).party = some p)
    (hevent : ev.eventPartyOnLeave p q = true) :
    ((w.leaveParty ev p q).player q).party = none := by
  rcases leaveParty_eq ev hP hq with ⟨_, hveto⟩ | ⟨_, P', missingLeader, _, heq⟩
  · rw [hevent] at hveto
    cases hveto
  · rw [heq]
    split
    · exact party_player_disband (party_player_left P')
    · exact party_player_left P'

/-- Whoever leaves with a leader left keeps the invariant. -/
theorem inv_leaveParty (h : w.Inv w.invitations) (hq : (w.player q).party = some p)
    (hkeeps : w.KeepsLeader ev q) :
    (w.leaveParty ev p q).Inv (w.leaveParty ev p q).invitations := by
  obtain ⟨P, hP, _⟩ := (h.pointer q p).mp hq
  rcases leaveParty_eq ev hP hq with ⟨heq, _⟩ | ⟨hevent, P', missingLeader, hleft, heq⟩
  · rw [heq]
    exact h
  · rw [heq]
    cases missingLeader with
    | false =>
        have hrest := h.left hP hq hleft
        split
        · exact inv_disband hrest p
        · exact hrest
    | true =>
        cases hleft with
        | missing hleader halone =>
            rw [Bool.true_or, if_pos rfl,
              disband_eq (show World.party (World.write _ p _) p = some _ by
                rw [party_write, if_pos rfl]),
              if_pos (hkeeps p P hq hP hleader halone hevent)]
            exact h.gone hP hleader

/-- A leader who leaves a party that is not disbanded stays its leader. -/
theorem stray_leaveParty (hq : (w.player q).party = some p)
    (hP : w.party p = some P) (hleader : P.leader = q)
    (halone : P.memberList = [] ∨ P.memberList.length = 1 ∧ P.inviteList = [])
    (hevent : ev.eventPartyOnLeave p q = true) (hdisband : ev.eventPartyOnDisband p = false) :
    ∃ P', (w.leaveParty ev p q).party p = some P' ∧ P'.Has q := by
  rcases leaveParty_eq ev hP hq with ⟨_, hveto⟩ | ⟨_, P', missingLeader, hleft, heq⟩
  · rw [hevent] at hveto
    cases hveto
  · have hwritten : ((w.setParty q none).write p P').party p = some P' := by
      rw [party_write, if_pos rfl]
    have hsame : w.leaveParty ev p q = (w.setParty q none).write p P' := by
      rw [heq, disband_eq hwritten, hdisband, if_neg Bool.false_ne_true, ite_self]
    rw [hsame]
    refine ⟨P', hwritten, ?_⟩
    cases hleft with
    | member hother => exact absurd hleader hother
    | missing => exact .inl hleader.symm
    | passed _ hmembers hmore _ =>
        rcases halone with hnil | hone
        · rw [hnil] at hmembers
          cases hmembers
        · exact absurd hone hmore
    | stuck => exact .inl hleader.symm

theorem not_keepsLeader_iff : ¬w.KeepsLeader ev q ↔
    ∃ p P, (w.player q).party = some p ∧ w.party p = some P ∧ P.leader = q ∧
      (P.memberList = [] ∨ P.memberList.length = 1 ∧ P.inviteList = []) ∧
      ev.eventPartyOnLeave p q = true ∧ ev.eventPartyOnDisband p = false := by
  simp only [KeepsLeader, not_forall, exists_prop, Bool.not_eq_true]

/-- What `onRemoveCreature` does to the parties. -/
def parting (w : World) (ev : Events) (q : Nat) : World :=
  match ((w.clearPartyInvitations ev q).player q).party with
  | none => w.clearPartyInvitations ev q
  | some p => (w.clearPartyInvitations ev q).leaveParty ev p q

theorem party_onRemoveCreature (w : World) (ev : Events) (q : Nat) :
    (w.onRemoveCreature ev q).party = (w.parting ev q).party := rfl

theorem player_onRemoveCreature (w : World) (ev : Events) (q : Nat) :
    (w.onRemoveCreature ev q).player = (w.parting ev q).player := rfl

end World

end Infernum.Parties
