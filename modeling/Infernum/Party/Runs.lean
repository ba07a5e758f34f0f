import Infernum.Party.Effects
import Infernum.Party.Leaving
import Mathlib.Data.List.Induction

/-!
# Membership over runs

One lemma for each thing that players do, then the runs.
-/

namespace Infernum.Parties

namespace World

variable {w : World} {ev : Events}

theorem inv_playerInviteToParty (h : w.Inv w.invitations) {p : Nat} (hfree : w.party p = none)
    (player invited : Nat) :
    (w.playerInviteToParty p player invited).Inv
      (w.playerInviteToParty p player invited).invitations := by
  rcases w.playerInviteToParty_cases p player invited with
    heq | ⟨hself, hinvited, ⟨hown, heq⟩ | ⟨own, P, hP, heq⟩⟩
  · rw [heq]
    exact h
  · rw [heq]
    refine inv_invitePlayer (inv_newParty h hfree hown) (P := ⟨player, [], []⟩)
      ((party_write w p p _).trans (if_pos rfl)) ?_
    rw [newParty, player_setParty, if_neg (Ne.symm hself)]
    show (w.player invited).party ≠ some p
    rw [hinvited]
    simp
  · rw [heq]
    refine inv_invitePlayer h hP ?_
    rw [hinvited]
    simp

theorem inv_playerJoinParty (h : w.Inv w.invitations) (player leader : Nat) :
    (w.playerJoinParty ev player leader).Inv (w.playerJoinParty ev player leader).invitations := by
  rcases w.playerJoinParty_cases ev player leader with heq | ⟨p, P, hP, hout, heq⟩
  · rw [heq]
    exact h
  · rw [heq]
    exact inv_joinParty h hP hout

theorem inv_playerRevokePartyInvitation (h : w.Inv w.invitations) (player invited : Nat) :
    (w.playerRevokePartyInvitation ev player invited).Inv
      (w.playerRevokePartyInvitation ev player invited).invitations := by
  rcases w.playerRevokePartyInvitation_cases ev player invited with
    heq | ⟨_, p, _, _, _, _, heq⟩
  · rw [heq]
    exact h
  · rw [heq]
    exact inv_revokeInvitation h p invited

theorem inv_playerPassPartyLeadership (h : w.Inv w.invitations) (player newLeader : Nat) :
    (w.playerPassPartyLeadership player newLeader).Inv
      (w.playerPassPartyLeadership player newLeader).invitations := by
  rcases w.playerPassPartyLeadership_cases player newLeader with heq | ⟨p, heq⟩
  · rw [heq]
    exact h
  · rw [heq]
    exact inv_passPartyLeadership h p newLeader

theorem inv_luaPartyCreate (h : w.Inv w.invitations) {p : Nat} (hfree : w.party p = none)
    (player : Nat) : (w.luaPartyCreate p player).Inv (w.luaPartyCreate p player).invitations := by
  rw [luaPartyCreate]
  split
  · exact h
  · next hparty => exact inv_newParty h hfree (w.party_eq_none hparty)

/-! ## Leaving and logging out -/

theorem consistent_leaveParty_iff (h : w.Inv w.invitations) {p q : Nat}
    (hq : (w.player q).party = some p) :
    (w.leaveParty ev p q).Consistent ↔ w.KeepsLeader ev q := by
  constructor
  · intro hcons
    by_contra hkeeps
    obtain ⟨p', P, hp', hP, hleader, halone, hleave, hdisband⟩ := not_keepsLeader_iff.mp hkeeps
    obtain rfl : p = p' := Option.some.inj (hq.symm.trans hp')
    obtain ⟨P', hP', hstray⟩ := stray_leaveParty hq hP hleader halone hleave hdisband
    refine not_consistent_of_stray hP' hstray ?_ hcons
    rw [party_player_leaveParty hP hq hleave]
    exact nofun
  · intro hkeeps
    exact (inv_leaveParty h hq hkeeps).consistent

/-- The callbacks let a player go who logs out. -/
structure LetsGo (w : World) (ev : Events) (q : Nat) : Prop where
  leave : ∀ p, (w.player q).party = some p → ev.eventPartyOnLeave p q = true
  keeps : w.KeepsLeader ev q

theorem keepsLeader_clear (ev : Events) (h : w.Inv w.invitations) (q : Nat) :
    (w.clearPartyInvitations ev q).KeepsLeader ev q ↔ w.KeepsLeader ev q := by
  obtain ⟨hpointer, hparty⟩ := own_clearPartyInvitations ev h q
  constructor
  · intro hkeeps p P hp hP
    exact hkeeps p P (hpointer.trans hp) ((hparty p hp).trans hP)
  · intro hkeeps p P hp hP
    have hp' := hpointer.symm.trans hp
    exact hkeeps p P hp' ((hparty p hp').symm.trans hP)

/-- The player objects and the chat channels do not matter to the parties. -/
theorem inv_rest (h : w.Inv w.invitations) {w' : World} (hparty : w'.party = w.party)
    (hplayer : w'.player = w.player) : w'.Inv w'.invitations := by
  have hinv : w'.invitations = w.invitations := by
    funext q
    rw [invitations, hplayer]
    rfl
  rw [hinv]
  exact h.congr hparty fun q => by rw [hplayer]

theorem inv_releasePlayer (h : w.Inv w.invitations) {q : Nat} (hparty : (w.player q).party = none)
    (hinvitations : w.invitations q = []) :
    (w.releasePlayer q).Inv (w.releasePlayer q).invitations := by
  have hsame : w.releasePlayer q = w := by
    refine World.ext (Function.update_eq_self_iff.mpr ?_) rfl rfl rfl
    cases hplayer : w.player q with
    | mk party list =>
        rw [hplayer] at hparty
        rw [invitations, hplayer] at hinvitations
        exact congr (congrArg Player.mk hparty.symm) hinvitations.symm
  rw [hsame]
  exact h

theorem invitations_disband (w : World) (ev : Events) (p q : Nat)
    (hnil : w.invitations q = []) : (w.disband ev p).invitations q = [] := by
  cases hP : w.party p with
  | none =>
      rw [disband, hP]
      exact hnil
  | some P =>
      rw [disband_eq hP]
      split
      · show (if q ∈ P.inviteList then (w.invitations q).filter _ else w.invitations q) = []
        rw [hnil, List.filter_nil, ite_self]
      · exact hnil

theorem invitations_leaveParty {p q : Nat} {P : Party} (hP : w.party p = some P)
    (hq : (w.player q).party = some p) (hnil : w.invitations q = []) :
    (w.leaveParty ev p q).invitations q = [] := by
  rcases leaveParty_eq ev hP hq with ⟨heq, _⟩ | ⟨_, P', missingLeader, _, heq⟩
  · rw [heq]
    exact hnil
  · have hwritten : ((w.setParty q none).write p P').invitations q = [] := by
      rw [invitations, player_write, player_setParty, if_pos rfl]
      exact hnil
    rw [heq]
    split
    · exact invitations_disband _ ev p q hwritten
    · exact hwritten

theorem inv_logout (h : w.Inv w.invitations) {q : Nat} (hgo : w.LetsGo ev q) :
    ((w.onRemoveCreature ev q).releasePlayer q).Inv
      ((w.onRemoveCreature ev q).releasePlayer q).invitations := by
  obtain ⟨hpointer, hparty⟩ := own_clearPartyInvitations ev h q
  have hclear := inv_clearPartyInvitations ev h q
  have hnil := invitations_clearPartyInvitations w ev q
  have hkeeps := (keepsLeader_clear ev h q).mpr hgo.keeps
  have hparting : (w.parting ev q).Inv (w.parting ev q).invitations ∧
      ((w.parting ev q).player q).party = none ∧ (w.parting ev q).invitations q = [] := by
    rw [parting]
    cases hp : ((w.clearPartyInvitations ev q).player q).party with
    | none => exact ⟨hclear, hp, hnil⟩
    | some p =>
        obtain ⟨P, hP, _⟩ := (hclear.pointer q p).mp hp
        refine ⟨inv_leaveParty hclear hp hkeeps, ?_, invitations_leaveParty hP hp hnil⟩
        exact party_player_leaveParty hP hp (hgo.leave p (hpointer.symm.trans hp))
  obtain ⟨hinv, hnone, hlist⟩ := hparting
  have hremoved := inv_rest hinv (party_onRemoveCreature w ev q) (player_onRemoveCreature w ev q)
  refine inv_releasePlayer hremoved ?_ ?_
  · rw [player_onRemoveCreature]
    exact hnone
  · rw [invitations, player_onRemoveCreature]
    exact hlist

theorem consistent_logout_iff (h : w.Inv w.invitations) (q : Nat) :
    ((w.onRemoveCreature ev q).releasePlayer q).Consistent ↔ w.LetsGo ev q := by
  refine ⟨fun hcons => ?_, fun hgo => (inv_logout h hgo).consistent⟩
  obtain ⟨hpointer, hparty⟩ := own_clearPartyInvitations ev h q
  have hclear := inv_clearPartyInvitations ev h q
  -- the new player at the address is in no party
  have hreleased : (((w.onRemoveCreature ev q).releasePlayer q).player q).party = none := by
    show (Function.update (w.onRemoveCreature ev q).player q ⟨none, []⟩ q).party = none
    rw [Function.update_self]
  have hstray : ∀ p P, (w.parting ev q).party p = some P → ¬P.Has q := by
    intro p P hP hq
    refine not_consistent_of_stray (w := (w.onRemoveCreature ev q).releasePlayer q) hP hq ?_ hcons
    rw [hreleased]
    exact nofun
  have hown : ∀ p, (w.player q).party = some p →
      w.parting ev q = (w.clearPartyInvitations ev q).leaveParty ev p q := by
    intro p hp
    rw [parting, hpointer.trans hp]
  constructor
  · intro p hp
    obtain ⟨P, hP, hq⟩ := (h.pointer q p).mp hp
    have hP' := (hparty p hp).trans hP
    rcases leaveParty_eq ev hP' (hpointer.trans hp) with ⟨heq, _⟩ | ⟨hleave, _⟩
    · refine absurd hq (hstray p P ?_)
      rw [hown p hp, heq]
      exact hP'
    · exact hleave
  · by_contra hkeeps
    obtain ⟨p, P, hp, hP, hleader, halone, hleave, hdisband⟩ := not_keepsLeader_iff.mp hkeeps
    obtain ⟨P', hP', hq⟩ := stray_leaveParty (hpointer.trans hp) ((hparty p hp).trans hP) hleader
      halone hleave hdisband
    refine hstray p P' ?_ hq
    rw [hown p hp]
    exact hP'

/-! ## Runs -/

/-- The callbacks do not keep a party that has no leader left, nor one that a player is
still in who logs out. -/
def Ok (w : World) (ev : Events) : Step → Prop
  | .leave q inFight => w.online q = true ∧ inFight = false → w.KeepsLeader ev q
  | .logout q => w.online q = true → w.LetsGo ev q
  | _ => True

theorem inv_step (h : w.Inv w.invitations) (s : Step) (hok : w.Ok ev s) :
    (w.step ev s).Inv (w.step ev s).invitations := by
  cases s with
  | login player => exact inv_rest h rfl rfl
  | create p player =>
      rw [step]
      split
      · next hcan =>
        rw [Bool.and_eq_true] at hcan
        exact inv_luaPartyCreate h (Option.isNone_iff_eq_none.mp hcan.2) player
      · exact h
  | invite p player invited =>
      rw [step]
      split
      · next hfree =>
        exact inv_playerInviteToParty h (Option.isNone_iff_eq_none.mp hfree) player invited
      · exact h
  | revoke player invited => exact inv_playerRevokePartyInvitation h player invited
  | join player leader => exact inv_playerJoinParty h player leader
  | leave player inFight =>
      rw [step, playerLeaveParty_eq]
      split
      · next hcan =>
        cases hp : (w.player player).party with
        | none => exact h
        | some p => exact inv_leaveParty h hp (hok hcan)
      · exact h
  | passLeadership player newLeader => exact inv_playerPassPartyLeadership h player newLeader
  | disband p => exact inv_disband h p
  | logout player =>
      rw [step]
      split
      · next honline => exact inv_logout h (hok honline)
      · exact h
  | requestChannels player =>
      rw [step]
      split
      · obtain ⟨_, heq⟩ := w.getChannelList_eq player
        rw [heq]
        exact inv_rest h rfl rfl
      · exact h
  | openChannel player =>
      rw [step]
      split
      · obtain ⟨_, heq⟩ := w.addUserToChannel_eq player
        rw [heq]
        exact inv_rest h rfl rfl
      · exact h
  | closeChannel player =>
      rw [step]
      split
      · obtain ⟨_, heq⟩ := w.removeUserFromChannel_eq player
        rw [heq]
        exact inv_rest h rfl rfl
      · exact h

theorem consistent_step_iff (h : w.Inv w.invitations) (s : Step) :
    (w.step ev s).Consistent ↔ w.Ok ev s := by
  refine ⟨fun hcons => ?_, fun hok => (inv_step h s hok).consistent⟩
  cases s with
  | leave q inFight =>
      intro hcan
      rw [step, playerLeaveParty_eq, if_pos hcan] at hcons
      cases hp : (w.player q).party with
      | none => exact fun p P hp' => absurd (hp.symm.trans hp') nofun
      | some p =>
          rw [hp] at hcons
          exact (consistent_leaveParty_iff h hp).mp hcons
  | logout q =>
      intro honline
      rw [step, if_pos honline] at hcons
      exact (consistent_logout_iff h q).mp hcons
  | _ => trivial

theorem inv_initial : initial.Inv initial.invitations where
  pointer q p := by simp [initial]
  sound p P hP := by cases hP
  invited q p := by simp [initial, invitations]
  distinct q := List.nodup_nil

theorem after_append (done : List (Events × Step)) (a : Events × Step) :
    after (done ++ [a]) = (after done).step a.1 a.2 := by
  rw [after, List.foldl_append]
  rfl

theorem inv_after (steps : List (Events × Step))
    (hok : ∀ done a, done ++ [a] <+: steps → (after done).Ok a.1 a.2) :
    (after steps).Inv (after steps).invitations := by
  induction steps using List.reverseRecOn with
  | nil => exact inv_initial
  | append_singleton done a ih =>
      rw [after_append]
      have hprefix : done <+: done ++ [a] := List.prefix_append _ _
      exact inv_step (ih fun done' a' hmem => hok done' a' (hmem.trans hprefix)) a.2
        (hok done a (List.prefix_refl _))

/-- Pointers and lists agree after every step of a run exactly if no callback keeps a party
whose leader has left it, or a player in a party who has logged out. -/
theorem membership_exact (steps : List (Events × Step)) :
    (∀ done, done <+: steps → (after done).Consistent) ↔
      ∀ done a, done ++ [a] <+: steps → (after done).Ok a.1 a.2 := by
  constructor
  · intro hcons
    induction steps using List.reverseRecOn with
    | nil => exact fun done a hmem => absurd (List.prefix_nil.mp hmem) (by simp)
    | append_singleton steps a ih =>
        have hbefore : ∀ done a', done ++ [a'] <+: steps → (after done).Ok a'.1 a'.2 :=
          ih fun done hmem => hcons done (hmem.trans (List.prefix_append _ _))
        intro done a' hmem
        rcases List.prefix_concat_iff.mp hmem with heq | hshorter
        · obtain ⟨rfl, hlast⟩ := List.append_inj' heq rfl
          obtain rfl : a' = a := List.singleton_inj.mp hlast
          have hafter := hcons _ (List.prefix_refl _)
          rw [after_append] at hafter
          exact (consistent_step_iff (inv_after _ hbefore) _).mp hafter
        · exact hbefore done a' hshorter
  · intro hok done hmem
    exact (inv_after done fun done' a hmem' => hok done' a (hmem'.trans hmem)).consistent

/-- A leader leaves his party of one, which a callback does not let be disbanded. -/
theorem leaderless_party : ¬∀ steps, (after steps).Consistent := by
  intro h
  let ev : Events := ⟨fun _ _ => true, fun _ _ => true, fun _ => false⟩
  have hcons := h [(ev, .login 1), (ev, .create 7 1), (ev, .leave 1 false)]
  have hpointer := (hcons.pointer 1 7).mpr ⟨⟨1, [], []⟩, rfl, .inl rfl⟩
  exact absurd hpointer (by decide)

end World

end Infernum.Parties
