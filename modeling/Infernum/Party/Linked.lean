import Infernum.Party.Membership

/-!
# Party channels and the operations on parties

A pointer of a player is always backed by the party, also where a callback has left a
party without a leader. The users of a channel are looked at together with the pointers:
an operation replaces one party, and its channel stays as it is.
-/

namespace Infernum.Parties

namespace World

/-- Every channel is kept for a party and used by its players only. -/
def Confidential (w : World) : Prop :=
  ∀ p users, w.partyChannels p = some users → ∃ P, w.party p = some P ∧ ∀ q ∈ users, P.Has q

/-- Pointers, invitations and channel users are backed by the lists of the parties. -/
structure Linked (w : World) (invitations : Nat → List Nat) : Prop where
  member : ∀ q p, (w.player q).party = some p → ∃ P, w.party p = some P ∧ P.Has q
  apart : ∀ q p, p ∈ invitations q → (w.player q).party ≠ some p
  alive : ∀ q p, p ∈ invitations q → ∃ P, w.party p = some P ∧ q ∈ P.inviteList
  distinct : ∀ q, (invitations q).Nodup
  users : w.Confidential

variable {w w' : World} {ev : Events} {p q : Nat} {P : Party} {inv inv' : Nat → List Nat}

theorem Linked.has (h : w.Linked inv) (hP : w.party p = some P)
    (hq : (w.player q).party = some p) : P.Has q := by
  obtain ⟨P₀, hP₀, hhas⟩ := h.member q p hq
  obtain rfl : P₀ = P := Option.some.inj (hP₀.symm.trans hP)
  exact hhas

theorem Linked.guest (h : w.Linked inv) (hP : w.party p = some P) (hq : p ∈ inv q) :
    q ∈ P.inviteList := by
  obtain ⟨P₀, hP₀, hmem⟩ := h.alive q p hq
  obtain rfl : P₀ = P := Option.some.inj (hP₀.symm.trans hP)
  exact hmem

theorem Linked.user (h : w.Linked inv) (hP : w.party p = some P) {users : List Nat}
    (husers : w.partyChannels p = some users) (hq : q ∈ users) : P.Has q := by
  obtain ⟨P₀, hP₀, hall⟩ := h.users p users husers
  obtain rfl : P₀ = P := Option.some.inj (hP₀.symm.trans hP)
  exact hall q hq

/-- One party is replaced, or deleted, under the same channels. -/
theorem Linked.replace (h : w.Linked inv) (p : Nat) (P' : Option Party)
    (hchannels : w'.partyChannels = w.partyChannels)
    (hparty : ∀ p', w'.party p' = if p' = p then P' else w.party p')
    (hin : ∀ q, (w'.player q).party = some p → ∃ P, P' = some P ∧ P.Has q)
    (hother : ∀ q p', p' ≠ p → (w'.player q).party = some p' → (w.player q).party = some p')
    (hguests : ∀ q, p ∈ inv' q → (w'.player q).party ≠ some p ∧ ∃ P, P' = some P ∧ q ∈ P.inviteList)
    (hinv : ∀ q p', p' ≠ p → p' ∈ inv' q → p' ∈ inv q) (hdistinct : ∀ q, (inv' q).Nodup)
    (husers : ∀ users, w.partyChannels p = some users →
      ∃ P, P' = some P ∧ ∀ q ∈ users, P.Has q) : w'.Linked inv' where
  member q p' hp' := by
    rw [hparty]
    by_cases heq : p' = p
    · rw [if_pos heq]
      exact hin q (heq ▸ hp')
    · rw [if_neg heq]
      exact h.member q p' (hother q p' heq hp')
  apart q p' hp' := by
    by_cases heq : p' = p
    · rw [heq] at hp' ⊢
      exact (hguests q hp').1
    · exact fun hpointer => h.apart q p' (hinv q p' heq hp') (hother q p' heq hpointer)
  alive q p' hp' := by
    rw [hparty]
    by_cases heq : p' = p
    · rw [if_pos heq]
      exact (hguests q (heq ▸ hp')).2
    · rw [if_neg heq]
      exact h.alive q p' (hinv q p' heq hp')
  distinct := hdistinct
  users p' users hp' := by
    rw [hchannels] at hp'
    rw [hparty]
    by_cases heq : p' = p
    · rw [if_pos heq]
      exact husers users (heq ▸ hp')
    · rw [if_neg heq]
      exact h.users p' users hp'

/-- A party is replaced by one that has at least the same players. -/
theorem Linked.replace_guests (h : w.Linked inv) (hP : w.party p = some P) (P' : Party)
    (hchannels : w'.partyChannels = w.partyChannels)
    (hparty : ∀ p', w'.party p' = if p' = p then some P' else w.party p')
    (hplayers : ∀ q, P.Has q → P'.Has q)
    (hpointers : ∀ q, (w'.player q).party = (w.player q).party)
    (hguests : ∀ q, p ∈ inv' q → (w.player q).party ≠ some p ∧ q ∈ P'.inviteList)
    (hinv : ∀ q p', p' ≠ p → p' ∈ inv' q → p' ∈ inv q) (hdistinct : ∀ q, (inv' q).Nodup) :
    w'.Linked inv' := by
  refine h.replace p (some P') hchannels hparty ?_ ?_ ?_ hinv hdistinct ?_
  · intro q hq
    exact ⟨P', rfl, hplayers q (h.has hP ((hpointers q).symm.trans hq))⟩
  · exact fun q p' _ hp' => (hpointers q).symm.trans hp'
  · intro q hq
    rw [hpointers]
    exact ⟨(hguests q hq).1, P', rfl, (hguests q hq).2⟩
  · intro users husers
    exact ⟨P', rfl, fun q hq => hplayers q (h.user hP husers hq)⟩

/-- Only the pointers and the invitations of the players matter. -/
theorem Linked.congr (h : w.Linked inv) (hparty : w'.party = w.party)
    (hchannels : w'.partyChannels = w.partyChannels)
    (hpointers : ∀ q, (w'.player q).party = (w.player q).party) : w'.Linked inv where
  member q p hq := by
    rw [hparty]
    exact h.member q p ((hpointers q).symm.trans hq)
  apart q p hq := by
    rw [hpointers]
    exact h.apart q p hq
  alive q p hq := by
    rw [hparty]
    exact h.alive q p hq
  distinct := h.distinct
  users p users hp := by
    rw [hparty]
    exact h.users p users (hchannels ▸ hp)

theorem linked_newParty (h : w.Linked w.invitations) (hfree : w.party p = none) (q : Nat) :
    (w.newParty p q).Linked (w.newParty p q).invitations := by
  have hinv : (w.newParty p q).invitations = w.invitations := by
    funext r
    rw [invitations, newParty, player_setParty]
    split <;> rfl
  have hplayer : ∀ r, ((w.newParty p q).player r).party =
      if r = q then some p else (w.player r).party := by
    intro r
    rw [newParty, player_setParty]
    split <;> rfl
  rw [hinv]
  refine h.replace p (some ⟨q, [], []⟩) rfl (fun p' => party_write w p p' _) ?_ ?_ ?_
    (fun _ _ _ hp' => hp') h.distinct ?_
  · intro r hr
    rw [hplayer] at hr
    split at hr
    · next heq => exact ⟨_, rfl, .inl heq⟩
    · obtain ⟨P, hP, _⟩ := h.member r p hr
      cases hfree.symm.trans hP
  · intro r p' hne hr
    rw [hplayer] at hr
    split at hr
    · exact absurd (Option.some.inj hr).symm hne
    · exact hr
  · intro r hr
    obtain ⟨P, hP, _⟩ := h.alive r p hr
    cases hfree.symm.trans hP
  · intro users husers
    obtain ⟨P, hP, _⟩ := h.users p users husers
    cases hfree.symm.trans hP

theorem linked_invitePlayer (h : w.Linked w.invitations) (hP : w.party p = some P)
    (hout : (w.player q).party ≠ some p) :
    (w.invitePlayer p q).Linked (w.invitePlayer p q).invitations := by
  rw [invitePlayer, hP]
  dsimp only
  split
  · exact h
  · next hinvited =>
    have hold : p ∉ w.invitations q := fun hmem => hinvited (decide_eq_true (h.guest hP hmem))
    have hplayer : ∀ r, ((w.write p { P with inviteList := P.inviteList ++ [q] }).addPartyInvitation
        q p).player r = if r = q then ⟨(w.player q).party, p :: w.invitations q⟩ else w.player r :=
      player_addPartyInvitation hold
    refine h.replace_guests hP { P with inviteList := P.inviteList ++ [q] }
      ?_ ?_ (fun _ hr => hr) ?_ ?_ ?_ ?_
    · exact partyChannels_addPartyInvitation ..
    · intro p'
      rw [party_addPartyInvitation, party_write]
    · intro r
      rw [hplayer]
      split
      · next heq => rw [heq]
      · rfl
    · intro r hr
      rw [invitations, hplayer] at hr
      rw [List.mem_append, List.mem_singleton]
      split at hr
      · next heq =>
        rw [heq]
        exact ⟨hout, .inr rfl⟩
      · exact ⟨h.apart r p hr, .inl (h.guest hP hr)⟩
    · intro r p' hne hr
      rw [invitations, hplayer] at hr
      split at hr
      · next heq =>
        rw [heq]
        exact (List.mem_cons.mp hr).resolve_left hne
      · exact hr
    · intro r
      rw [invitations, hplayer]
      split
      · exact List.nodup_cons.mpr ⟨hold, h.distinct q⟩
      · exact h.distinct r

theorem linked_passPartyLeadership (h : w.Linked w.invitations) (p q : Nat) :
    (w.passPartyLeadership p q).Linked (w.passPartyLeadership p q).invitations := by
  cases hP : w.party p with
  | none =>
      rw [passPartyLeadership, hP]
      exact h
  | some P =>
      rw [passPartyLeadership_eq hP]
      split
      · refine h.replace_guests hP _ rfl (fun p' => party_write ..) ?_ (fun _ => rfl) ?_
          (fun _ _ _ hr => hr) h.distinct
        · intro r hr
          show r = q ∨ r ∈ P.leader :: P.memberList.erase q
          by_cases heq : r = q
          · exact .inl heq
          · rw [List.mem_cons, List.mem_erase_of_ne heq]
            exact .inr hr
        · exact fun r hr => ⟨h.apart r p hr, (h.guest hP hr : r ∈ P.inviteList)⟩
      · exact h

/-- A party that is ended has no channel. -/
theorem Linked.disbanded (h : w.Linked inv) (hP : w.party p = some P)
    (hchannel : w.partyChannels p = none) :
    (w.disbanded p P).Linked fun q =>
      if q ∈ P.inviteList then (inv q).filter (· ≠ p) else inv q := by
  have hpointer : ∀ r, ((w.disbanded p P).player r).party =
      if r = P.leader ∨ r ∈ P.memberList then none else (w.player r).party := fun _ => rfl
  have hsub : ∀ r p', p' ∈ (if r ∈ P.inviteList then (inv r).filter (· ≠ p) else inv r) →
      p' ∈ inv r := by
    intro r p' hr
    split at hr
    · exact (List.mem_filter.mp hr).1
    · exact hr
  refine h.replace p none rfl (fun p' => Function.update_apply ..) ?_ ?_ ?_
    (fun r p' _ hr => hsub r p' hr) ?_ ?_
  · intro r hr
    rw [hpointer] at hr
    split at hr
    · cases hr
    · next hnot => exact absurd (h.has hP hr) hnot
  · intro r p' _ hr
    rw [hpointer] at hr
    split at hr
    · cases hr
    · exact hr
  · intro r hr
    have hmem := h.guest hP (hsub r p hr)
    rw [if_pos hmem, List.mem_filter] at hr
    exact absurd rfl (of_decide_eq_true hr.2)
  · intro r
    split
    · exact (h.distinct r).filter _
    · exact h.distinct r
  · intro users husers
    cases hchannel.symm.trans husers

theorem linked_disband (h : w.Linked w.invitations) (p : Nat)
    (hchannel : ev.eventPartyOnDisband p = true → w.partyChannels p = none) :
    (w.disband ev p).Linked (w.disband ev p).invitations := by
  cases hP : w.party p with
  | none =>
      rw [disband, hP]
      exact h
  | some P =>
      rw [disband_eq hP]
      split
      · next hevent => exact h.disbanded hP (hchannel hevent)
      · exact h

theorem linked_joinParty (h : w.Linked w.invitations) (hP : w.party p = some P) :
    (w.joinParty ev p q).Linked (w.joinParty ev p q).invitations := by
  rw [joinParty, hP]
  dsimp only
  split
  · exact h
  · split
    · exact h
    · rw [write_setParty, write_write]
      generalize hP' : Party.mk _ _ _ = P'
      have hplayers : ∀ r, P.Has r → P'.Has r := by
        intro r hr
        rw [← hP']
        exact hr.imp_right fun hr => List.mem_append_left _ hr
      have hjoined : P'.Has q := by
        rw [← hP']
        exact .inr (List.mem_append_right _ (List.mem_singleton.mpr rfl))
      have hguests : P'.inviteList = P.inviteList.erase q := by rw [← hP']
      generalize hw' : World.removePartyInvitation _ q p = w'
      have hinv : w'.invitations = forget w.invitations q p := by
        funext r
        rw [← hw', invitations_removePartyInvitation, forget, invitations, player_write,
          player_setParty]
        split <;> rfl
      have hpointer : ∀ r, (w'.player r).party = if r = q then some p else (w.player r).party := by
        intro r
        rw [← hw', party_player_removePartyInvitation, player_write, player_setParty]
        split <;> rfl
      rw [hinv]
      refine h.replace p (some P') (by rw [← hw']; rfl)
        (fun p' => by rw [← hw']; exact party_write ..) ?_ ?_ ?_ ?_ (nodup_forget h.distinct q p) ?_
      · intro r hr
        rw [hpointer] at hr
        split at hr
        · next heq => exact ⟨P', rfl, heq ▸ hjoined⟩
        · exact ⟨P', rfl, hplayers r (h.has hP hr)⟩
      · intro r p' hne hr
        rw [hpointer] at hr
        split at hr
        · exact absurd (Option.some.inj hr).symm hne
        · exact hr
      · intro r hr
        obtain ⟨hold, hother⟩ := mem_forget.mp hr
        have hne : r ≠ q := fun heq => hother heq rfl
        rw [hpointer, if_neg hne]
        refine ⟨h.apart r p hold, P', rfl, ?_⟩
        rw [hguests, List.mem_erase_of_ne hne]
        exact h.guest hP hold
      · exact fun r p' _ hr => (mem_forget.mp hr).1
      · exact fun users husers => ⟨P', rfl, fun r hr => hplayers r (h.user hP husers hr)⟩

/-- A guest is no longer invited, and neither does he count the invitation. -/
theorem Linked.uninvited (h : w.Linked inv) (hP : w.party p = some P)
    (hchannels : w'.partyChannels = w.partyChannels)
    (hparty : w'.party = (w.write p { P with inviteList := P.inviteList.erase q }).party)
    (hpointers : ∀ r, (w'.player r).party = (w.player r).party) :
    w'.Linked (forget inv q p) := by
  refine h.replace_guests hP { P with inviteList := P.inviteList.erase q } hchannels ?_
    (fun _ hr => hr) hpointers ?_ (fun r p' _ hr => (mem_forget.mp hr).1)
    (nodup_forget h.distinct q p)
  · intro p'
    rw [hparty, party_write]
  · intro r hr
    obtain ⟨hold, hother⟩ := mem_forget.mp hr
    have hne : r ≠ q := fun heq => hother heq rfl
    rw [List.mem_erase_of_ne hne]
    exact ⟨h.apart r p hold, h.guest hP hold⟩

/-- Taking back this invitation leaves the leader alone. -/
def Empties (w : World) (ev : Events) (p q : Nat) : Prop :=
  ∃ P, w.party p = some P ∧ q ∈ P.inviteList ∧ P.memberList = [] ∧ P.inviteList.erase q = [] ∧
    ev.eventPartyOnDisband p = true

theorem linked_revokeInvitation (h : w.Linked w.invitations) (p q : Nat)
    (hchannel : w.Empties ev p q → w.partyChannels p = none) :
    (w.revokeInvitation ev p q).Linked (w.revokeInvitation ev p q).invitations := by
  cases hP : w.party p with
  | none =>
      rw [revokeInvitation, World.removeInvite, hP]
      exact h
  | some P =>
      rw [revokeInvitation, World.removeInvite, hP]
      dsimp only
      split
      · exact h
      · next hguest =>
        rw [if_pos rfl]
        generalize hw' : World.removePartyInvitation _ q p = w'
        have hinv : w'.invitations = forget w.invitations q p := by
          rw [← hw', invitations_uninvited]
        have hnew : w'.Linked w'.invitations := by
          rw [hinv]
          refine h.uninvited hP (by rw [← hw']; rfl) (hw' ▸ rfl) fun r => ?_
          rw [← hw', party_player_removePartyInvitation]
          rfl
        split
        · next hempty =>
          rw [Party.empty, Bool.and_eq_true, List.isEmpty_iff, List.isEmpty_iff] at hempty
          refine linked_disband hnew p fun hevent => ?_
          rw [← hw']
          exact hchannel ⟨P, hP, not_not.mp hguest, hempty.1, hempty.2, hevent⟩
        · exact hnew

/-- Without word to the player, who forgets the invitation himself. -/
theorem Linked.removeInvite (ev : Events) (h : w.Linked inv) (hmem : p ∈ inv q)
    (hchannel : w.Empties ev p q → w.partyChannels p = none) :
    (w.removeInvite ev p q false).Linked (forget inv q p) ∧
      (w.removeInvite ev p q false).invitations = w.invitations ∧
      (w.removeInvite ev p q false).partyChannels = w.partyChannels ∧
      (∀ r p', ((w.removeInvite ev p q false).player r).party = some p' →
        (w.player r).party = some p') ∧
      ∀ p', p' ≠ p → (w.removeInvite ev p q false).party p' = w.party p' := by
  obtain ⟨P, hP, hguest⟩ := h.alive q p hmem
  rw [World.removeInvite, hP]
  dsimp only
  rw [if_neg (not_not.mpr hguest), if_neg Bool.false_ne_true]
  have hgone : w.Empties ev p q ↔ P.memberList = [] ∧ P.inviteList.erase q = [] ∧
      ev.eventPartyOnDisband p = true := by
    simp [Empties, hP, hguest]
  generalize hP' : { P with inviteList := P.inviteList.erase q } = P'
  have hnew : (w.write p P').Linked (forget inv q p) :=
    h.uninvited hP rfl (by rw [hP']) fun _ => rfl
  have hsame : ∀ p', p' ≠ p → (w.write p P').party p' = w.party p' :=
    fun p' hne => by rw [party_write, if_neg hne]
  split
  · next hempty =>
    rw [Party.empty, Bool.and_eq_true, List.isEmpty_iff, List.isEmpty_iff] at hempty
    have hparty : (w.write p P').party p = some P' := by rw [party_write, if_pos rfl]
    rw [disband_eq hparty]
    split
    · next hevent =>
      have hnone : w.partyChannels p = none := by
        rw [← hP'] at hempty
        exact hchannel (hgone.mpr ⟨hempty.1, hempty.2, hevent⟩)
      refine ⟨?_, disbanded_of_no_guests hempty.2, rfl, ?_, ?_⟩
      · have hdisbanded := hnew.disbanded hparty hnone
        simp only [hempty.2, List.not_mem_nil, if_false] at hdisbanded
        exact hdisbanded
      · intro r p' hr
        change (if _ then none else (w.player r).party) = some p' at hr
        split at hr
        · cases hr
        · exact hr
      · intro p' hne
        exact (Function.update_of_ne hne ..).trans (hsame p' hne)
    · exact ⟨hnew, rfl, rfl, fun _ _ hr => hr, hsame⟩
  · exact ⟨hnew, rfl, rfl, fun _ _ hr => hr, hsame⟩

theorem Empties.congr (hparty : w'.party p = w.party p) (h : w'.Empties ev p q) :
    w.Empties ev p q := by
  obtain ⟨P, hP, hrest⟩ := h
  exact ⟨P, hparty.symm.trans hP, hrest⟩

theorem Linked.foldl_removeInvite (ev : Events) (l : List Nat) (h : w.Linked inv) (hl : inv q = l)
    (hchannel : ∀ p ∈ l, w.Empties ev p q → w.partyChannels p = none) :
    (l.foldl (fun w p => w.removeInvite ev p q false) w).Linked
        (fun r => if r = q then [] else inv r) ∧
      (l.foldl (fun w p => w.removeInvite ev p q false) w).invitations = w.invitations ∧
      (l.foldl (fun w p => w.removeInvite ev p q false) w).partyChannels = w.partyChannels ∧
      (∀ r p, ((l.foldl (fun w p => w.removeInvite ev p q false) w).player r).party = some p →
        (w.player r).party = some p) ∧
      ∀ p, p ∉ l → (l.foldl (fun w p => w.removeInvite ev p q false) w).party p = w.party p := by
  induction l generalizing w inv with
  | nil =>
      rw [eq_of_nil hl]
      exact ⟨h, rfl, rfl, fun _ _ hr => hr, fun _ _ => rfl⟩
  | cons p l ih =>
      have hmem : p ∈ inv q := hl ▸ List.mem_cons_self
      have hnodup := h.distinct q
      rw [hl] at hnodup
      obtain ⟨hp, -⟩ := List.nodup_cons.mp hnodup
      have hrest : forget inv q p q = l := forget_head hl hp
      obtain ⟨hnext, hsame, hchannels, hpointer, hparty⟩ :=
        h.removeInvite ev hmem (hchannel p List.mem_cons_self)
      obtain ⟨hlast, hall, hlastChannels, hlastPointer, hlastParty⟩ :=
        ih hnext hrest fun p' hp' hempties => by
          have hne : p' ≠ p := fun heq => hp (heq ▸ hp')
          rw [hchannels]
          exact hchannel p' (List.mem_cons_of_mem _ hp') (hempties.congr (hparty p' hne))
      rw [List.foldl_cons]
      refine ⟨?_, hall.trans hsame, hlastChannels.trans hchannels,
        fun r p' hr => hpointer r p' (hlastPointer r p' hr), ?_⟩
      · rw [← forget_then_nil inv q p]
        exact hlast
      · intro p' hp'
        obtain ⟨hne, hnot⟩ := not_or.mp (List.mem_cons.not.mp hp')
        rw [hlastParty p' hnot, hparty p' hne]

theorem linked_clearPartyInvitations (ev : Events) (h : w.Linked w.invitations) (q : Nat)
    (hchannel : ∀ p ∈ w.invitations q, w.Empties ev p q → w.partyChannels p = none) :
    (w.clearPartyInvitations ev q).Linked (w.clearPartyInvitations ev q).invitations ∧
      (w.clearPartyInvitations ev q).partyChannels = w.partyChannels ∧
      ∀ p, ((w.clearPartyInvitations ev q).player q).party = some p →
        (w.player q).party = some p ∧ (w.clearPartyInvitations ev q).party p = w.party p := by
  obtain ⟨hall, hsame, hchannels, hpointer, hparty⟩ :=
    h.foldl_removeInvite ev (w.invitations q) rfl hchannel
  rw [clearPartyInvitations_eq]
  generalize List.foldl _ w _ = w' at hall hsame hchannels hpointer hparty ⊢
  refine ⟨?_, hchannels, ?_⟩
  · rw [invitations_forgetAll, hsame]
    exact hall.congr rfl rfl (party_player_forgetAll w' q)
  · intro p hp
    rw [party_player_forgetAll] at hp
    have hold := hpointer q p hp
    exact ⟨hold, hparty p fun hmem => h.apart q p hmem hold⟩

end World

end Infernum.Parties
