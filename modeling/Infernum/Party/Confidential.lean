import Infernum.Party.Linked
import Infernum.Party.Runs

/-!
# Party channels over runs

`leaveParty` and `disband` clear a player's pointer before they close his channel, which
is then no longer found, and nothing deletes the channel of a party. The channels are
used by the players of their parties only as long as neither matters.
-/

namespace Infernum.Parties

namespace World

variable {w : World} {ev : Events} {p q : Nat} {P P' : Party}

/-! ## Leaving -/

theorem Left.keeps {missingLeader : Bool} (hleft : Left w p q P P' missingLeader) {r : Nat}
    (hr : P.Has r) (hne : r ≠ q) : P'.Has r := by
  have herase : r ∈ P.memberList → r ∈ P.memberList.erase q := (List.mem_erase_of_ne hne).mpr
  cases hleft with
  | member _ => exact hr.imp_right herase
  | missing _ _ => exact hr.imp_right herase
  | stuck _ _ _ _ => exact hr.imp_right herase
  | passed hleader hmembers _ _ =>
      have hin := hr.resolve_left fun heq => hne (heq.trans hleader)
      rw [hmembers] at hin
      exact List.mem_cons.mp hin

theorem Left.invites {missingLeader : Bool} (hleft : Left w p q P P' missingLeader) :
    P'.inviteList = P.inviteList := by
  cases hleft <;> rfl

/-- The leader leaves and there is nobody to take over. -/
def Alone (P : Party) (q : Nat) : Prop :=
  P.leader = q ∧ (P.memberList = [] ∨ P.memberList.length = 1 ∧ P.inviteList = [])

/-- The party is disbanded when this player leaves. -/
def Ends (ev : Events) (p q : Nat) (P : Party) : Prop :=
  ev.eventPartyOnDisband p = true ∧
    (Alone P q ∨ P.memberList.erase q = [] ∧ P.inviteList = [])

theorem Left.ends {missingLeader : Bool} (hleft : Left w p q P P' missingLeader)
    (hgone : (missingLeader || P'.empty) = true) (hevent : ev.eventPartyOnDisband p = true) :
    Ends ev p q P := by
  refine ⟨hevent, ?_⟩
  have hnobody : P'.empty = true → P'.memberList = [] ∧ P'.inviteList = [] := by
    intro hempty
    rw [Party.empty, Bool.and_eq_true, List.isEmpty_iff, List.isEmpty_iff] at hempty
    exact hempty
  cases hleft with
  | member _ => exact .inr (hnobody hgone)
  | missing hleader halone => exact .inl ⟨hleader, halone⟩
  | stuck _ _ _ _ => exact .inr (hnobody hgone)
  | passed _ hmembers hmore _ =>
      obtain ⟨hrest, hinvites⟩ := hnobody hgone
      refine absurd ⟨?_, hinvites⟩ hmore
      rw [hmembers]
      exact congrArg (List.length · + 1) hrest

theorem Left.has_of_missing (hleft : Left w p q P P' true) : P'.Has q := by
  cases hleft with
  | missing hleader _ => exact .inl hleader.symm

theorem Left.not_alone (hleft : Left w p q P P' false) : ¬Alone P q := by
  rintro ⟨hleader, halone⟩
  cases hleft with
  | member hother => exact hother hleader
  | passed _ hmembers hmore _ =>
      rcases halone with hnil | hone
      · cases hmembers.symm.trans hnil
      · exact hmore hone
  | stuck _ hmembers hmore _ =>
      rcases halone with hnil | hone
      · cases hmembers.symm.trans hnil
      · exact hmore hone

/-- What is left of a party keeps everybody else, and the channel's users with them. -/
theorem Linked.leave (h : w.Linked w.invitations) (hP : w.party p = some P)
    (hkeeps : ∀ r, P.Has r → r ≠ q → P'.Has r) (hinvites : P'.inviteList = P.inviteList)
    (husers : ∀ users, w.partyChannels p = some users → q ∈ users → P'.Has q) :
    ((w.setParty q none).write p P').Linked ((w.setParty q none).write p P').invitations := by
  have hpointer : ∀ r, (((w.setParty q none).write p P').player r).party =
      if r = q then none else (w.player r).party := by
    intro r
    rw [player_write, player_setParty]
    split <;> rfl
  have hinv : ((w.setParty q none).write p P').invitations = w.invitations := by
    funext r
    rw [invitations, player_write, player_setParty]
    split <;> rfl
  rw [hinv]
  refine h.replace p (some P') rfl (fun p' => party_write ..) ?_ ?_ ?_ (fun _ _ _ hr => hr)
    h.distinct ?_
  · intro r hr
    rw [hpointer] at hr
    split at hr
    · cases hr
    · next hne => exact ⟨P', rfl, hkeeps r (h.has hP hr) hne⟩
  · intro r p' _ hr
    rw [hpointer] at hr
    split at hr
    · cases hr
    · exact hr
  · intro r hr
    refine ⟨?_, P', rfl, hinvites ▸ h.guest hP hr⟩
    rw [hpointer]
    split
    · simp
    · exact h.apart r p hr
  · intro users hchannel
    refine ⟨P', rfl, fun r hr => ?_⟩
    by_cases heq : r = q
    · exact heq ▸ husers users hchannel (heq ▸ hr)
    · exact hkeeps r (h.user hP hchannel hr) heq

/-- If a player leaves he has closed the party channel, and if his party ends with that
nobody has ever opened it. -/
def LeavesChannel (w : World) (ev : Events) (q : Nat) : Prop :=
  ∀ p P, (w.player q).party = some p → w.party p = some P → ev.eventPartyOnLeave p q = true →
    (Ends ev p q P → w.partyChannels p = none) ∧
    (¬Alone P q → ∀ users, w.partyChannels p = some users → q ∉ users)

theorem linked_leaveParty (h : w.Linked w.invitations) (hq : (w.player q).party = some p)
    (hchannel : w.LeavesChannel ev q) :
    (w.leaveParty ev p q).Linked (w.leaveParty ev p q).invitations := by
  obtain ⟨P, hP, _⟩ := h.member q p hq
  rcases leaveParty_eq ev hP hq with ⟨heq, _⟩ | ⟨hevent, P', missingLeader, hleft, heq⟩
  · rw [heq]
    exact h
  · obtain ⟨hends, hclosed⟩ := hchannel p P hq hP hevent
    have hrest := h.leave hP (fun r => hleft.keeps) hleft.invites fun users husers hmem => by
      cases missingLeader with
      | true => exact hleft.has_of_missing
      | false => exact absurd hmem (hclosed hleft.not_alone users husers)
    rw [heq]
    split
    · next hgone => exact linked_disband hrest p fun hdisband => hends (hleft.ends hgone hdisband)
    · exact hrest

/-! ## Logging out -/

/-- Disbanding a party leaves the channels alone. -/
theorem disband_removeUserFromAllChannels (w : World) (ev : Events) (p q : Nat) :
    (w.removeUserFromAllChannels q).disband ev p =
      (w.disband ev p).removeUserFromAllChannels q := by
  cases hP : w.party p with
  | none =>
      rw [disband, disband, hP, show (w.removeUserFromAllChannels q).party p = none from hP]
  | some P =>
      rw [disband_eq hP, disband_eq (show (w.removeUserFromAllChannels q).party p = some P from hP)]
      split <;> rfl

theorem linked_removeUserFromAllChannels {inv : Nat → List Nat} (h : w.Linked inv) (q : Nat) :
    (w.removeUserFromAllChannels q).Linked inv where
  member := h.member
  apart := h.apart
  alive := h.alive
  distinct := h.distinct
  users p users hp := by
    obtain ⟨all, hall, heq⟩ := Option.map_eq_some_iff.mp hp
    obtain ⟨P, hP, hhas⟩ := h.users p all hall
    refine ⟨P, hP, fun r hr => hhas r ?_⟩
    rw [← heq] at hr
    exact (List.mem_filter.mp hr).1

theorem not_user_of_removed {users : List Nat}
    (husers : (w.removeUserFromAllChannels q).partyChannels p = some users) : q ∉ users := by
  obtain ⟨all, _, heq⟩ := Option.map_eq_some_iff.mp husers
  rw [← heq]
  simp

theorem linked_releasePlayer (h : w.Linked w.invitations) (q : Nat) :
    (w.releasePlayer q).Linked (w.releasePlayer q).invitations := by
  have hplayer : ∀ r, (w.releasePlayer q).player r = if r = q then ⟨none, []⟩ else w.player r :=
    fun r => Function.update_apply ..
  have hinv : ∀ r p, p ∈ (w.releasePlayer q).invitations r → r ≠ q ∧ p ∈ w.invitations r := by
    intro r p hr
    rw [invitations, hplayer] at hr
    split at hr
    · cases hr
    · next hne => exact ⟨hne, hr⟩
  refine ⟨?_, ?_, fun r p hr => h.alive r p (hinv r p hr).2, ?_, h.users⟩
  · intro r p hr
    rw [hplayer] at hr
    split at hr
    · cases hr
    · exact h.member r p hr
  · intro r p hr
    obtain ⟨hne, hold⟩ := hinv r p hr
    rw [hplayer, if_neg hne]
    exact h.apart r p hold
  · intro r
    rw [invitations, hplayer]
    split
    · exact List.nodup_nil
    · exact h.distinct r

/-- No party that ends with this logout has a channel. -/
structure LogsOut (w : World) (ev : Events) (q : Nat) : Prop where
  invited : ∀ p ∈ w.invitations q, w.Empties ev p q → w.partyChannels p = none
  own : ∀ p P, (w.player q).party = some p → w.party p = some P →
    ev.eventPartyOnLeave p q = true → Ends ev p q P → w.partyChannels p = none

theorem linked_logout (h : w.Linked w.invitations) (hout : w.LogsOut ev q) :
    ((w.onRemoveCreature ev q).releasePlayer q).Linked
      ((w.onRemoveCreature ev q).releasePlayer q).invitations := by
  obtain ⟨hclear, hchannels, hown⟩ := linked_clearPartyInvitations ev h q hout.invited
  -- the channels are left before the party instead of after it
  let c := w.clearPartyInvitations ev q
  have hparting : ∃ w' : World, w'.Linked w'.invitations ∧
      w' = (w.parting ev q).removeUserFromAllChannels q := by
    cases hp : (c.player q).party with
    | none =>
        refine ⟨c.removeUserFromAllChannels q, linked_removeUserFromAllChannels hclear q, ?_⟩
        rw [parting, hp]
    | some p =>
        obtain ⟨P, hP, _⟩ := hclear.member q p hp
        obtain ⟨hpointer, hparty⟩ := hown p hp
        have hremoved := linked_removeUserFromAllChannels hclear q
        have heq : w.parting ev q = c.leaveParty ev p q := by rw [parting, hp]
        rw [heq]
        rcases leaveParty_eq ev hP hp with ⟨heq, _⟩ | ⟨hevent, P', missingLeader, hleft, heq⟩
        · rw [heq]
          exact ⟨_, hremoved, rfl⟩
        · have hrest := hremoved.leave hP (fun r => hleft.keeps) hleft.invites
            fun users husers hmem => absurd hmem (not_user_of_removed husers)
          rw [heq]
          split
          · next hgone =>
            rw [← disband_removeUserFromAllChannels]
            refine ⟨_, linked_disband hrest p fun hdisband => ?_, rfl⟩
            have hnone := hout.own p P hpointer (hparty.symm.trans hP) hevent
              (hleft.ends hgone hdisband)
            show (c.partyChannels p).map _ = none
            rw [hchannels, hnone]
            rfl
          · exact ⟨_, hrest, rfl⟩
  obtain ⟨w', hlinked, heq⟩ := hparting
  have hsame : w.onRemoveCreature ev q =
      { w' with online := Function.update w'.online q false } := by
    rw [heq]
    rfl
  have hremoved : (w.onRemoveCreature ev q).Linked (w.onRemoveCreature ev q).invitations := by
    rw [hsame]
    exact hlinked.congr rfl rfl fun _ => rfl
  exact linked_releasePlayer hremoved q

/-! ## Opening and closing the channel -/

theorem linked_getChannelList (h : w.Linked w.invitations) (q : Nat) :
    (w.getChannelList q).Linked (w.getChannelList q).invitations := by
  rw [getChannelList]
  cases hp : (w.player q).party with
  | none => exact h
  | some p =>
      cases w.getChannel q with
      | some _ => exact h
      | none =>
          refine ⟨h.member, h.apart, h.alive, h.distinct, ?_⟩
          intro p' users hp'
          change Function.update w.partyChannels p (some []) p' = some users at hp'
          rw [Function.update_apply] at hp'
          split at hp'
          · next heq =>
            obtain ⟨P, hP, _⟩ := h.member q p hp
            refine ⟨P, heq ▸ hP, fun r hr => ?_⟩
            rw [← Option.some.inj hp'] at hr
            cases hr
          · exact h.users p' users hp'

/-- A channel that is found is that of the player's party. -/
theorem getChannel_eq_some (h : w.getChannel q = some p) :
    (w.player q).party = some p ∧ ∃ users, w.partyChannels p = some users := by
  obtain ⟨hparty, hchannel⟩ := Option.filter_eq_some_iff.mp h
  exact ⟨hparty, Option.isSome_iff_exists.mp hchannel⟩

/-- The users of one channel are replaced by players of its party. -/
theorem Linked.setUsers {inv : Nat → List Nat} (h : w.Linked inv) (hP : w.party p = some P)
    {users : List Nat} (husers : ∀ r ∈ users, P.Has r) :
    (World.mk w.player w.party (Function.update w.partyChannels p (some users)) w.online).Linked
      inv where
  member := h.member
  apart := h.apart
  alive := h.alive
  distinct := h.distinct
  users p' users' hp' := by
    change Function.update w.partyChannels p (some users) p' = some users' at hp'
    rw [Function.update_apply] at hp'
    split at hp'
    · next heq =>
      refine ⟨P, heq ▸ hP, ?_⟩
      rw [← Option.some.inj hp']
      exact husers
    · exact h.users p' users' hp'

theorem linked_addUserToChannel (h : w.Linked w.invitations) (q : Nat) :
    (w.addUserToChannel q).Linked (w.addUserToChannel q).invitations := by
  rw [addUserToChannel]
  cases hchannel : w.getChannel q with
  | none => exact h
  | some p =>
      obtain ⟨hp, users, husers⟩ := getChannel_eq_some hchannel
      obtain ⟨P, hP, hq⟩ := h.member q p hp
      simp only [husers, Option.getD_some]
      split
      · exact h
      · refine h.setUsers hP fun r hr => ?_
        rcases List.mem_cons.mp hr with heq | hold
        · exact heq ▸ hq
        · exact h.user hP husers hold

theorem linked_removeUserFromChannel (h : w.Linked w.invitations) (q : Nat) :
    (w.removeUserFromChannel q).Linked (w.removeUserFromChannel q).invitations := by
  rw [removeUserFromChannel]
  cases hchannel : w.getChannel q with
  | none => exact h
  | some p =>
      obtain ⟨hp, users, husers⟩ := getChannel_eq_some hchannel
      obtain ⟨P, hP, _⟩ := h.member q p hp
      simp only [husers, Option.getD_some]
      exact h.setUsers hP fun r hr => h.user hP husers (List.mem_filter.mp hr).1

/-! ## Runs -/

/-- Who leaves has closed the channel, and a party that ends has none. -/
def Private (w : World) (ev : Events) : Step → Prop
  | .revoke player invited => w.online player = true ∧ w.online invited = true →
      ∀ p P, (w.player player).party = some p → w.party p = some P → P.leader = player →
        w.Empties ev p invited → w.partyChannels p = none
  | .leave q inFight => w.online q = true ∧ inFight = false → w.LeavesChannel ev q
  | .disband p => (w.party p).isSome = true → ev.eventPartyOnDisband p = true →
      w.partyChannels p = none
  | .logout q => w.online q = true → w.LogsOut ev q
  | _ => True

theorem linked_step (h : w.Linked w.invitations) (s : Step) (hprivate : w.Private ev s) :
    (w.step ev s).Linked (w.step ev s).invitations := by
  cases s with
  | login player => exact h.congr rfl rfl fun _ => rfl
  | create p player =>
      rw [step, luaPartyCreate]
      split
      · next hcan =>
        rw [Bool.and_eq_true] at hcan
        split
        · exact h
        · exact linked_newParty h (Option.isNone_iff_eq_none.mp hcan.2) player
      · exact h
  | invite p player invited =>
      rw [step]
      split
      · next hfree =>
        rw [Option.isNone_iff_eq_none] at hfree
        rcases w.playerInviteToParty_cases p player invited with
          heq | ⟨hself, hinvited, ⟨hown, heq⟩ | ⟨own, P, hP, heq⟩⟩
        · rw [heq]
          exact h
        · rw [heq]
          refine linked_invitePlayer (linked_newParty h hfree player) (P := ⟨player, [], []⟩)
            ((party_write w p p _).trans (if_pos rfl)) ?_
          rw [newParty, player_setParty, if_neg (Ne.symm hself)]
          show (w.player invited).party ≠ some p
          rw [hinvited]
          simp
        · rw [heq]
          refine linked_invitePlayer h hP ?_
          rw [hinvited]
          simp
      · exact h
  | revoke player invited =>
      rw [step]
      rcases w.playerRevokePartyInvitation_cases ev player invited with
        heq | ⟨honline, p, P, hp, hP, hleader, heq⟩
      · rw [heq]
        exact h
      · rw [heq]
        exact linked_revokeInvitation h p invited (hprivate honline p P hp hP hleader)
  | join player leader =>
      rw [step]
      rcases w.playerJoinParty_cases ev player leader with heq | ⟨p, P, hP, _, heq⟩
      · rw [heq]
        exact h
      · rw [heq]
        exact linked_joinParty h hP
  | leave player inFight =>
      rw [step, playerLeaveParty_eq]
      split
      · next hcan =>
        cases hp : (w.player player).party with
        | none => exact h
        | some p => exact linked_leaveParty h hp (hprivate hcan)
      · exact h
  | passLeadership player newLeader =>
      rw [step]
      rcases w.playerPassPartyLeadership_cases player newLeader with heq | ⟨p, heq⟩
      · rw [heq]
        exact h
      · rw [heq]
        exact linked_passPartyLeadership h p newLeader
  | disband p =>
      rw [step]
      cases hP : w.party p with
      | none =>
          rw [disband, hP]
          exact h
      | some P => exact linked_disband h p (hprivate (by rw [hP]; rfl))
  | logout player =>
      rw [step]
      split
      · next honline => exact linked_logout h (hprivate honline)
      · exact h
  | requestChannels player =>
      rw [step]
      split
      · exact linked_getChannelList h player
      · exact h
  | openChannel player =>
      rw [step]
      split
      · exact linked_addUserToChannel h player
      · exact h
  | closeChannel player =>
      rw [step]
      split
      · exact linked_removeUserFromChannel h player
      · exact h

theorem linked_initial : initial.Linked initial.invitations :=
  ⟨nofun, nofun, nofun, fun _ => List.nodup_nil, nofun⟩

theorem linked_after (steps : List (Events × Step))
    (hprivate : ∀ done a, done ++ [a] <+: steps → (after done).Private a.1 a.2) :
    (after steps).Linked (after steps).invitations := by
  induction steps using List.reverseRecOn with
  | nil => exact linked_initial
  | append_singleton done a ih =>
      rw [after_append]
      have hprefix : done <+: done ++ [a] := List.prefix_append _ _
      exact linked_step (ih fun done' a' hmem => hprivate done' a' (hmem.trans hprefix)) a.2
        (hprivate done a (List.prefix_refl _))

/-- In a run in which players close the channel before they leave, and no party with a
channel ends, the channels are used by the players of their parties only. -/
theorem confidential_after (steps : List (Events × Step))
    (hprivate : ∀ done a, done ++ [a] <+: steps → (after done).Private a.1 a.2) :
    (after steps).Confidential :=
  (linked_after steps hprivate).users

/-- The callbacks let everything happen. -/
def allow : Events := ⟨fun _ _ => true, fun _ _ => true, fun _ => true⟩

theorem confidential_open :
    (after [(allow, .login 1), (allow, .create 7 1), (allow, .requestChannels 1),
      (allow, .openChannel 1)]).Confidential := by
  refine confidential_after _ fun done a hmem => ?_
  have ha := hmem.subset (List.mem_append_right done (List.mem_singleton.mpr rfl))
  simp only [List.mem_cons, List.not_mem_nil, or_false] at ha
  rcases ha with rfl | rfl | rfl | rfl <;> trivial

/-- A member opens the channel, leaves the party and still hears what is said there. -/
theorem eavesdropper : ¬∀ steps, (after steps).Confidential := by
  intro h
  have hconf := h [(allow, .login 1), (allow, .login 2), (allow, .login 3),
    (allow, .invite 7 1 2), (allow, .invite 8 1 3), (allow, .join 2 1), (allow, .join 3 1),
    (allow, .requestChannels 2), (allow, .openChannel 2), (allow, .leave 2 false)]
  obtain ⟨P, hP, hhas⟩ := hconf 7 [2] (by decide)
  have hstay : some P = some ⟨1, [3], []⟩ := hP.symm.trans (by decide)
  obtain rfl := Option.some.inj hstay
  exact absurd (hhas 2 (List.mem_singleton.mpr rfl)) (by decide)

end World

end Infernum.Parties
