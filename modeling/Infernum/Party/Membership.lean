import Infernum.Party.Effects
import Mathlib.Data.List.Nodup

/-!
# Membership of parties

The pointers of the players follow from the lists of the parties, and the other way
round. An operation replaces one party and the pointers that go with it; what holds of
the new party and of these pointers then holds of the whole world.
-/

namespace Infernum.Parties

namespace Party

/-- The leader or a member. -/
def Has (P : Party) (q : Nat) : Prop := q = P.leader ∨ q ∈ P.memberList

instance (P : Party) (q : Nat) : Decidable (P.Has q) :=
  inferInstanceAs (Decidable (q = P.leader ∨ q ∈ P.memberList))

/-- Nobody is in a party twice, and nobody in it is invited. -/
structure Sound (P : Party) : Prop where
  leaderOut : P.leader ∉ P.memberList
  members : P.memberList.Nodup
  invites : P.inviteList.Nodup
  apart : ∀ q, P.Has q → q ∉ P.inviteList

end Party

namespace World

/-- Pointers and lists of parties and players agree. -/
structure Consistent (w : World) : Prop where
  pointer : ∀ q p, (w.player q).party = some p ↔ ∃ P, w.party p = some P ∧ P.Has q
  leaderOut : ∀ p P, w.party p = some P → P.leader ∉ P.memberList
  members : ∀ p P, w.party p = some P → P.memberList.Nodup
  invites : ∀ p P, w.party p = some P → P.inviteList.Nodup
  invited : ∀ q p, p ∈ (w.player q).invitePartyList ↔ ∃ P, w.party p = some P ∧ q ∈ P.inviteList
  /-- No pointer or invitation refers to a party that was destroyed. -/
  alive : ∀ q p, (w.player q).party = some p ∨ p ∈ (w.player q).invitePartyList →
    (w.party p).isSome = true

/-- The invariant, for these invitation lists of the players. -/
structure Inv (w : World) (invitations : Nat → List Nat) : Prop where
  pointer : ∀ q p, (w.player q).party = some p ↔ ∃ P, w.party p = some P ∧ P.Has q
  sound : ∀ p P, w.party p = some P → P.Sound
  invited : ∀ q p, p ∈ invitations q ↔ ∃ P, w.party p = some P ∧ q ∈ P.inviteList
  distinct : ∀ q, (invitations q).Nodup

/-- The invitation lists as they are. -/
def invitations (w : World) (q : Nat) : List Nat := (w.player q).invitePartyList

theorem Inv.consistent {w : World} (h : w.Inv w.invitations) : w.Consistent where
  pointer := h.pointer
  leaderOut p P hP := (h.sound p P hP).leaderOut
  members p P hP := (h.sound p P hP).members
  invites p P hP := (h.sound p P hP).invites
  invited := h.invited
  alive q p hrefers := by
    rcases hrefers with hpointer | hinvited
    · obtain ⟨P, hP, _⟩ := (h.pointer q p).mp hpointer
      rw [hP]
      rfl
    · obtain ⟨P, hP, _⟩ := (h.invited q p).mp hinvited
      rw [hP]
      rfl

/-- One party is replaced, or deleted, and its players and its guests know. -/
theorem Inv.replace {w w' : World} {inv inv' : Nat → List Nat} (h : w.Inv inv) (p : Nat)
    (P' : Option Party) (hparty : ∀ p', w'.party p' = if p' = p then P' else w.party p')
    (hsound : ∀ P, P' = some P → P.Sound)
    (hin : ∀ q P, P' = some P → P.Has q → (w'.player q).party = some p ∧
      ((w.player q).party = some p ∨ (w.player q).party = none))
    (hout : ∀ q, (∀ P, P' = some P → ¬P.Has q) → (w'.player q).party =
      if (w.player q).party = some p then none else (w.player q).party)
    (hothers : ∀ q p', p' ≠ p → (p' ∈ inv' q ↔ p' ∈ inv q))
    (hguests : ∀ q, p ∈ inv' q ↔ ∃ P, P' = some P ∧ q ∈ P.inviteList)
    (hdistinct : ∀ q, (inv' q).Nodup) : w'.Inv inv' where
  pointer q p' := by
    rw [hparty]
    by_cases hhas : ∃ P, P' = some P ∧ P.Has q
    · obtain ⟨P, hP, hq⟩ := hhas
      obtain ⟨hnew, hold⟩ := hin q P hP hq
      by_cases hp : p' = p
      · rw [if_pos hp, hnew, hp]
        exact ⟨fun _ => ⟨P, hP, hq⟩, fun _ => rfl⟩
      · rw [if_neg hp, hnew, ← h.pointer q p']
        constructor
        · intro heq
          exact absurd (Option.some.inj heq).symm hp
        · intro heq
          rcases hold with hold | hold
          · exact absurd (Option.some.inj (heq.symm.trans hold)) hp
          · cases heq.symm.trans hold
    · have hnone : ∀ P, P' = some P → ¬P.Has q := fun P hP hq => hhas ⟨P, hP, hq⟩
      rw [hout q hnone]
      by_cases hp : p' = p
      · rw [if_pos hp, hp]
        refine ⟨fun heq => ?_, fun hq => absurd hq hhas⟩
        split at heq
        · cases heq
        · next hne => exact absurd heq hne
      · rw [if_neg hp, ← h.pointer q p']
        split
        · next hold =>
          rw [hold]
          exact ⟨nofun, fun heq => absurd (Option.some.inj heq).symm hp⟩
        · rfl
  sound p' P hP := by
    rw [hparty] at hP
    split at hP
    · exact hsound P hP
    · exact h.sound p' P hP
  invited q p' := by
    rw [hparty]
    by_cases hp : p' = p
    · rw [if_pos hp, hp]
      exact hguests q
    · rw [if_neg hp, hothers q p' hp]
      exact h.invited q p'
  distinct := hdistinct

/-- A party is replaced by one with the same players. -/
theorem Inv.replace_guests {w w' : World} {inv inv' : Nat → List Nat} (h : w.Inv inv) {p : Nat}
    {P : Party} (hP : w.party p = some P) (P' : Party)
    (hparty : ∀ p', w'.party p' = if p' = p then some P' else w.party p')
    (hplayers : ∀ q, P'.Has q ↔ P.Has q)
    (hpointers : ∀ q, (w'.player q).party = (w.player q).party) (hsound : P'.Sound)
    (hothers : ∀ q p', p' ≠ p → (p' ∈ inv' q ↔ p' ∈ inv q))
    (hguests : ∀ q, p ∈ inv' q ↔ q ∈ P'.inviteList)
    (hdistinct : ∀ q, (inv' q).Nodup) : w'.Inv inv' := by
  have hpointer : ∀ q, P.Has q ↔ (w.player q).party = some p := by
    intro q
    rw [h.pointer q p, hP]
    simp
  refine h.replace p (some P') hparty ?_ ?_ ?_ hothers ?_ hdistinct
  · rintro _ ⟨⟩
    exact hsound
  · rintro q _ ⟨⟩ hq
    have hold := (hpointer q).mp ((hplayers q).mp hq)
    exact ⟨(hpointers q).trans hold, .inl hold⟩
  · intro q hnone
    have hold : (w.player q).party ≠ some p := fun hold =>
      hnone P' rfl ((hplayers q).mpr ((hpointer q).mpr hold))
    rw [hpointers, if_neg hold]
  · intro q
    rw [hguests q]
    simp

end World

end Infernum.Parties

/-!
## The operations keep the membership invariant

Every operation on a party is a replacement. The one way to break the invariant is to
leave as the leader with nobody to take over, if the callback then keeps the party from
being disbanded.
-/

namespace Infernum.Parties

namespace Party

theorem Sound.setInvites {P : Party} (h : P.Sound) {inviteList : List Nat}
    (hnodup : inviteList.Nodup) (hapart : ∀ q, P.Has q → q ∉ inviteList) :
    ({ P with inviteList := inviteList } : Party).Sound where
  leaderOut := h.leaderOut
  members := h.members
  invites := hnodup
  apart := hapart

theorem Sound.erase_invite {P : Party} (h : P.Sound) (q : Nat) :
    ({ P with inviteList := P.inviteList.erase q } : Party).Sound :=
  h.setInvites (h.invites.erase q) fun r hr hmem => h.apart r hr (List.mem_of_mem_erase hmem)

end Party

namespace World

variable {w : World} {ev : Events} {p q : Nat} {P : Party}

theorem Inv.has_iff {inv : Nat → List Nat} (h : w.Inv inv) (hP : w.party p = some P) (q : Nat) :
    P.Has q ↔ (w.player q).party = some p := by
  rw [h.pointer q p, hP]
  simp

theorem Inv.invited_iff {inv : Nat → List Nat} (h : w.Inv inv) (hP : w.party p = some P) (q : Nat) :
    p ∈ inv q ↔ q ∈ P.inviteList := by
  rw [h.invited q p, hP]
  simp

/-! ## Invitations -/

theorem inv_newParty (h : w.Inv w.invitations) (hfree : w.party p = none)
    (hq : (w.player q).party = none) :
    (w.newParty p q).Inv (w.newParty p q).invitations := by
  have hinv : (w.newParty p q).invitations = w.invitations := by
    funext r
    rw [invitations, newParty, player_setParty]
    split <;> rfl
  have hnobody : ∀ r, (w.player r).party ≠ some p := by
    intro r hr
    obtain ⟨P, hP, _⟩ := (h.pointer r p).mp hr
    rw [hfree] at hP
    cases hP
  refine h.replace p (some ⟨q, [], []⟩) (fun p' => party_write w p p' _) ?_ ?_ ?_ ?_ ?_ ?_
  · rintro _ ⟨⟩
    exact ⟨List.not_mem_nil, List.nodup_nil, List.nodup_nil, fun _ _ => List.not_mem_nil⟩
  · rintro r _ ⟨⟩ hr
    obtain rfl : r = q := hr.resolve_right List.not_mem_nil
    exact ⟨party_player_setParty .., .inr hq⟩
  · intro r hnone
    have hne : r ≠ q := fun heq => hnone _ rfl (.inl heq)
    rw [newParty, player_setParty, if_neg hne, if_neg (hnobody r)]
    rfl
  · exact fun r p' _ => by rw [hinv]
  · intro r
    rw [hinv, h.invited r p, hfree]
    simp
  · rw [hinv]
    exact h.distinct

theorem party_addPartyInvitation (w : World) (q p : Nat) :
    (w.addPartyInvitation q p).party = w.party := by
  rw [addPartyInvitation]
  split <;> rfl

theorem partyChannels_addPartyInvitation (w : World) (q p : Nat) :
    (w.addPartyInvitation q p).partyChannels = w.partyChannels := by
  rw [addPartyInvitation]
  split <;> rfl

theorem player_addPartyInvitation (hnew : p ∉ w.invitations q) (r : Nat) :
    (w.addPartyInvitation q p).player r =
      if r = q then ⟨(w.player q).party, p :: w.invitations q⟩ else w.player r := by
  rw [addPartyInvitation, if_neg (show p ∉ (w.player q).invitePartyList from hnew)]
  exact Function.update_apply ..

theorem inv_invitePlayer (h : w.Inv w.invitations) (hP : w.party p = some P)
    (hout : (w.player q).party ≠ some p) :
    (w.invitePlayer p q).Inv (w.invitePlayer p q).invitations := by
  rw [invitePlayer, hP]
  dsimp only
  split
  · exact h
  · next hinvited =>
    have hnew : q ∉ P.inviteList := fun hmem => hinvited (decide_eq_true hmem)
    have hold : p ∉ w.invitations q := fun hmem => hnew ((h.invited_iff hP q).mp hmem)
    have hplayer : ∀ r, ((w.write p { P with inviteList := P.inviteList ++ [q] }).addPartyInvitation
        q p).player r = if r = q then ⟨(w.player q).party, p :: w.invitations q⟩ else w.player r :=
      player_addPartyInvitation hold
    refine h.replace_guests hP { P with inviteList := P.inviteList ++ [q] } ?_ ?_ ?_ ?_ ?_ ?_ ?_
    · intro p'
      rw [party_addPartyInvitation, party_write]
    · exact fun _ => Iff.rfl
    · intro r
      rw [hplayer]
      split
      · next heq => rw [heq]
      · rfl
    · refine (h.sound p P hP).setInvites ?_ fun r hr hmem => ?_
      · refine List.nodup_append.mpr ⟨(h.sound p P hP).invites, List.nodup_singleton _, ?_⟩
        rintro r hr _ hq rfl
        exact hnew (List.mem_singleton.mp hq ▸ hr)
      · rcases List.mem_append.mp hmem with hin | hlast
        · exact (h.sound p P hP).apart r hr hin
        · rw [List.mem_singleton.mp hlast] at hr
          exact hout ((h.has_iff hP q).mp hr)
    · intro r p' hne
      rw [invitations, hplayer]
      split
      · next heq =>
        rw [heq, List.mem_cons, or_iff_right hne]
      · rfl
    · intro r
      rw [invitations, hplayer, List.mem_append, List.mem_singleton]
      split
      · next heq => simp [heq]
      · next hne =>
        rw [or_iff_left hne]
        exact h.invited_iff hP r
    · intro r
      rw [invitations, hplayer]
      split
      · exact List.nodup_cons.mpr ⟨hold, h.distinct q⟩
      · exact h.distinct r

/-! ## Disbanding -/

/-- A party is gone; its guests no longer count it. -/
theorem Inv.disbanded {inv : Nat → List Nat} (h : w.Inv inv) (hP : w.party p = some P) :
    (w.disbanded p P).Inv fun q =>
      if q ∈ P.inviteList then (inv q).filter (· ≠ p) else inv q := by
  refine h.replace p none (fun p' => Function.update_apply ..) nofun nofun ?_ ?_ ?_ ?_
  · intro r _
    have hiff : (r = P.leader ∨ r ∈ P.memberList) ↔ (w.player r).party = some p :=
      h.has_iff hP r
    show (if r = P.leader ∨ r ∈ P.memberList then none else (w.player r).party) = _
    rw [if_congr hiff rfl rfl]
  · intro r p' hne
    split
    · rw [List.mem_filter, and_iff_left (decide_eq_true hne)]
    · rfl
  · intro r
    split
    · simp
    · next hmem =>
      rw [h.invited_iff hP r]
      simp [hmem]
  · intro r
    split
    · exact (h.distinct r).filter _
    · exact h.distinct r

theorem inv_disband (h : w.Inv w.invitations) (p : Nat) :
    (w.disband ev p).Inv (w.disband ev p).invitations := by
  cases hP : w.party p with
  | none =>
      rw [disband, hP]
      exact h
  | some P =>
      rw [disband_eq hP]
      split
      · exact h.disbanded hP
      · exact h

theorem inv_passPartyLeadership (h : w.Inv w.invitations) (p q : Nat) :
    (w.passPartyLeadership p q).Inv (w.passPartyLeadership p q).invitations := by
  cases hP : w.party p with
  | none =>
      rw [passPartyLeadership, hP]
      exact h
  | some P =>
      rw [passPartyLeadership_eq hP]
      split
      · next hpass =>
        have hsound := h.sound p P hP
        have hmember : q ∈ P.memberList := ((h.has_iff hP q).mpr hpass.2).resolve_left hpass.1
        have hplayers : ∀ r, (r = q ∨ r ∈ P.leader :: P.memberList.erase q) ↔ P.Has r := by
          intro r
          rw [Party.Has, List.mem_cons, hsound.members.mem_erase_iff]
          by_cases heq : r = q <;> simp [heq, hmember]
        refine h.replace_guests hP _ (fun p' => party_write ..) hplayers (fun _ => rfl) ?_
          (fun _ _ _ => Iff.rfl) (fun r => h.invited_iff hP r) h.distinct
        refine ⟨?_, ?_, hsound.invites, fun r hr => hsound.apart r ((hplayers r).mp hr)⟩
        · show q ∉ P.leader :: P.memberList.erase q
          rw [List.mem_cons, hsound.members.mem_erase_iff]
          rintro (heq | ⟨hne, _⟩)
          · exact hpass.1 heq
          · exact hne rfl
        · exact List.nodup_cons.mpr
            ⟨fun hmem => hsound.leaderOut (List.mem_of_mem_erase hmem), hsound.members.erase q⟩
      · exact h

/-! ## Joining and taking invitations back -/

theorem invitations_removePartyInvitation (w : World) (q p r : Nat) :
    (w.removePartyInvitation q p).invitations r =
      if r = q then (w.invitations r).filter (· ≠ p) else w.invitations r := by
  rw [invitations, removePartyInvitation]
  dsimp only
  rw [Function.update_apply]
  split
  · next heq => rw [heq]; rfl
  · rfl

theorem party_player_removePartyInvitation (w : World) (q p r : Nat) :
    ((w.removePartyInvitation q p).player r).party = (w.player r).party := by
  rw [removePartyInvitation]
  dsimp only
  rw [Function.update_apply]
  split
  · next heq => rw [heq]
  · rfl

/-- The invitation lists once one player no longer counts a party. -/
def forget (inv : Nat → List Nat) (q p r : Nat) : List Nat :=
  if r = q then (inv r).filter (· ≠ p) else inv r

theorem mem_forget {inv : Nat → List Nat} {q p r p' : Nat} :
    p' ∈ forget inv q p r ↔ p' ∈ inv r ∧ (r = q → p' ≠ p) := by
  rw [forget]
  split
  · next heq => simp [heq]
  · next hne => simp [hne]

theorem nodup_forget {inv : Nat → List Nat} (h : ∀ r, (inv r).Nodup) (q p r : Nat) :
    (forget inv q p r).Nodup := by
  rw [forget]
  split
  · exact (h r).filter _
  · exact h r

theorem forget_head {inv : Nat → List Nat} {q p : Nat} {l : List Nat} (hl : inv q = p :: l)
    (hp : p ∉ l) : forget inv q p q = l := by
  rw [forget, if_pos rfl, hl, List.filter_cons_of_neg (by simp)]
  refine List.filter_eq_self.mpr fun p' hp' => ?_
  have hne : p' ≠ p := fun heq => hp (heq ▸ hp')
  simpa using hne

theorem forget_then_nil (inv : Nat → List Nat) (q p : Nat) :
    (fun r => if r = q then [] else forget inv q p r) = fun r => if r = q then [] else inv r := by
  funext r
  by_cases heq : r = q
  · rw [if_pos heq, if_pos heq]
  · rw [if_neg heq, if_neg heq, forget, if_neg heq]

theorem eq_of_nil {inv : Nat → List Nat} {q : Nat} (h : inv q = []) :
    (fun r => if r = q then [] else inv r) = inv := by
  funext r
  split
  · next heq => rw [heq, h]
  · rfl

theorem inv_joinParty (h : w.Inv w.invitations) (hP : w.party p = some P)
    (hout : (w.player q).party = none) :
    (w.joinParty ev p q).Inv (w.joinParty ev p q).invitations := by
  rw [joinParty, hP]
  dsimp only
  split
  · exact h
  · split
    · exact h
    · next hinvited =>
      have hsound := h.sound p P hP
      have hguest : q ∈ P.inviteList := not_not.mp hinvited
      have hnot : ¬P.Has q := fun hq => hsound.apart q hq hguest
      have hmembers : ∀ r, r ∈ P.memberList ++ [q] ↔ r ∈ P.memberList ∨ r = q := by simp
      rw [write_setParty, write_write]
      generalize hw' : World.removePartyInvitation _ q p = w'
      have hinv : w'.invitations = forget w.invitations q p := by
        funext r
        rw [← hw', invitations_removePartyInvitation, forget]
        have hsame : ∀ r, ((w.setParty q (some p)).write p
            { P with
              inviteList := P.inviteList.erase q
              memberList := P.memberList ++ [q] }).invitations r = w.invitations r := by
          intro r
          rw [invitations, player_write, player_setParty]
          split <;> rfl
        rw [hsame]
      have hpointer : ∀ r, (w'.player r).party = if r = q then some p else (w.player r).party := by
        intro r
        rw [← hw', party_player_removePartyInvitation, player_write, player_setParty]
        split <;> rfl
      refine h.replace p (some _) (fun p' => by rw [← hw']; exact party_write ..) ?_ ?_ ?_ ?_ ?_ ?_
      · rintro _ ⟨⟩
        refine ⟨?_, ?_, hsound.invites.erase q, ?_⟩
        · intro hmem
          rcases (hmembers _).mp hmem with hold | heq
          · exact hsound.leaderOut hold
          · exact hnot (.inl heq.symm)
        · refine List.nodup_append.mpr ⟨hsound.members, List.nodup_singleton q, ?_⟩
          rintro r hr _ hq rfl
          exact hnot (.inr (List.mem_singleton.mp hq ▸ hr))
        · rintro r hr hmem
          obtain ⟨hne, hin⟩ := hsound.invites.mem_erase_iff.mp hmem
          refine hsound.apart r ?_ hin
          exact hr.imp_right fun hr => ((hmembers r).mp hr).resolve_right hne
      · rintro r _ ⟨⟩ hr
        rw [hpointer]
        by_cases heq : r = q
        · rw [if_pos heq, heq]
          exact ⟨rfl, .inr hout⟩
        · have hold := (h.has_iff hP r).mp
            (hr.imp_right fun hr => ((hmembers r).mp hr).resolve_right heq)
          rw [if_neg heq]
          exact ⟨hold, .inl hold⟩
      · intro r hnone
        have hr := hnone _ rfl
        have hne : r ≠ q := fun heq => hr (.inr ((hmembers r).mpr (.inr heq)))
        have hold : (w.player r).party ≠ some p := by
          intro hold
          refine hr (((h.has_iff hP r).mpr hold).imp_right fun hr => ?_)
          exact (hmembers r).mpr (.inl hr)
        rw [hpointer, if_neg hne, if_neg hold]
      · intro r p' hne
        rw [hinv, mem_forget]
        exact and_iff_left fun _ => hne
      · intro r
        rw [hinv, mem_forget, h.invited_iff hP r]
        have herase : r ∈ P.inviteList.erase q ↔ r ≠ q ∧ r ∈ P.inviteList :=
          hsound.invites.mem_erase_iff
        simp [herase, and_comm]
      · rw [hinv]
        exact nodup_forget h.distinct q p

/-- A guest is no longer invited, and neither does he count the invitation. -/
theorem Inv.uninvited {inv : Nat → List Nat} (h : w.Inv inv) (hP : w.party p = some P)
    {w' : World} (hparty : w'.party = (w.write p { P with inviteList := P.inviteList.erase q }).party)
    (hpointers : ∀ r, (w'.player r).party = (w.player r).party) :
    w'.Inv (forget inv q p) := by
  have hsound := h.sound p P hP
  refine h.replace_guests hP { P with inviteList := P.inviteList.erase q } ?_ (fun _ => Iff.rfl)
    hpointers (hsound.erase_invite q) ?_ ?_ (nodup_forget h.distinct q p)
  · intro p'
    rw [hparty, party_write]
  · intro r p' hne
    rw [mem_forget]
    exact and_iff_left fun _ => hne
  · intro r
    rw [mem_forget, h.invited_iff hP r, hsound.invites.mem_erase_iff]
    simp [and_comm]

theorem invitations_uninvited (w : World) (p q : Nat) (P : Party) :
    ((w.write p P).removePartyInvitation q p).invitations = forget w.invitations q p := by
  funext r
  rw [invitations_removePartyInvitation]
  rfl

theorem inv_revokeInvitation (h : w.Inv w.invitations) (p q : Nat) :
    (w.revokeInvitation ev p q).Inv (w.revokeInvitation ev p q).invitations := by
  cases hP : w.party p with
  | none =>
      rw [revokeInvitation, removeInvite, hP]
      exact h
  | some P =>
      rw [revokeInvitation, removeInvite, hP]
      dsimp only
      split
      · exact h
      · rw [if_pos rfl]
        generalize hw' : World.removePartyInvitation _ q p = w'
        have hinv : w'.invitations = forget w.invitations q p := by
          rw [← hw', invitations_uninvited]
        have hnew : w'.Inv w'.invitations := by
          rw [hinv]
          refine h.uninvited hP (hw' ▸ rfl) fun r => ?_
          rw [← hw', party_player_removePartyInvitation]
          rfl
        split
        · exact inv_disband hnew p
        · exact hnew

theorem disbanded_of_no_guests (hguests : P.inviteList = []) :
    (w.disbanded p P).invitations = w.invitations := by
  funext r
  show (if r ∈ P.inviteList then _ else _) = _
  rw [hguests, if_neg List.not_mem_nil]
  rfl

/-- Without word to the player, who forgets the invitation himself. -/
theorem Inv.removeInvite (ev : Events) {inv : Nat → List Nat} (h : w.Inv inv) (hmem : p ∈ inv q) :
    (w.removeInvite ev p q false).Inv (forget inv q p) ∧
      (w.removeInvite ev p q false).invitations = w.invitations ∧
      ((w.removeInvite ev p q false).player q).party = (w.player q).party ∧
      ∀ p', p' ≠ p → (w.removeInvite ev p q false).party p' = w.party p' := by
  obtain ⟨P, hP, hguest⟩ := (h.invited q p).mp hmem
  rw [World.removeInvite, hP]
  dsimp only
  rw [if_neg (not_not.mpr hguest), if_neg Bool.false_ne_true]
  have hnot : ¬P.Has q := fun hq => (h.sound p P hP).apart q hq hguest
  generalize hP' : { P with inviteList := P.inviteList.erase q } = P'
  have hnew : (w.write p P').Inv (forget inv q p) :=
    h.uninvited hP (by rw [hP']) fun _ => rfl
  have hsame : ∀ p', p' ≠ p → (w.write p P').party p' = w.party p' := fun p' hne => by
    rw [party_write, if_neg hne]
  split
  · next hempty =>
    have hguests : P'.inviteList = [] := by
      rw [Party.empty, Bool.and_eq_true, List.isEmpty_iff, List.isEmpty_iff] at hempty
      exact hempty.2
    have hparty : (w.write p P').party p = some P' := by rw [party_write, if_pos rfl]
    rw [disband_eq hparty]
    split
    · refine ⟨?_, disbanded_of_no_guests hguests, ?_, ?_⟩
      · have hgone := hnew.disbanded hparty
        simp only [hguests, List.not_mem_nil, if_false] at hgone
        exact hgone
      · have hout : ¬(q = P'.leader ∨ q ∈ P'.memberList) := by
          rw [← hP']
          exact hnot
        exact if_neg hout
      · intro p' hne
        exact (Function.update_of_ne hne ..).trans (hsame p' hne)
    · exact ⟨hnew, rfl, rfl, hsame⟩
  · exact ⟨hnew, rfl, rfl, hsame⟩

theorem Inv.congr {w' : World} {inv : Nat → List Nat} (h : w.Inv inv) (hparty : w'.party = w.party)
    (hpointers : ∀ q, (w'.player q).party = (w.player q).party) : w'.Inv inv where
  pointer q p := by rw [hpointers, hparty]; exact h.pointer q p
  sound p P hP := h.sound p P (hparty ▸ hP)
  invited q p := by rw [hparty]; exact h.invited q p
  distinct := h.distinct

theorem Inv.foldl_removeInvite (ev : Events) (l : List Nat) {inv : Nat → List Nat} (h : w.Inv inv)
    (hl : inv q = l) :
    (l.foldl (fun w p => w.removeInvite ev p q false) w).Inv
        (fun r => if r = q then [] else inv r) ∧
      (l.foldl (fun w p => w.removeInvite ev p q false) w).invitations = w.invitations ∧
      ((l.foldl (fun w p => w.removeInvite ev p q false) w).player q).party =
        (w.player q).party ∧
      ∀ p, p ∉ l → (l.foldl (fun w p => w.removeInvite ev p q false) w).party p = w.party p := by
  induction l generalizing w inv with
  | nil =>
      rw [eq_of_nil hl]
      exact ⟨h, rfl, rfl, fun _ _ => rfl⟩
  | cons p l ih =>
      obtain ⟨hnext, hsame, hpointer, hparty⟩ := h.removeInvite ev (hl ▸ List.mem_cons_self : p ∈ inv q)
      have hnodup := h.distinct q
      rw [hl] at hnodup
      have hrest : forget inv q p q = l := forget_head hl (List.nodup_cons.mp hnodup).1
      obtain ⟨hlast, hall, hlastPointer, hlastParty⟩ := ih hnext hrest
      rw [List.foldl_cons]
      refine ⟨?_, hall.trans hsame, hlastPointer.trans hpointer, ?_⟩
      swap
      · intro p' hp'
        obtain ⟨hne, hnot⟩ := not_or.mp (List.mem_cons.not.mp hp')
        rw [hlastParty p' hnot, hparty p' hne]
      rw [← forget_then_nil inv q p]
      exact hlast

/-- The invitation list of a player is emptied. -/
def forgetAll (w : World) (q : Nat) : World :=
  { w with player := Function.update w.player q { w.player q with invitePartyList := [] } }

theorem clearPartyInvitations_eq (w : World) (ev : Events) (q : Nat) :
    w.clearPartyInvitations ev q =
      ((w.invitations q).foldl (fun w p => w.removeInvite ev p q false) w).forgetAll q := rfl

theorem player_forgetAll (w : World) (q r : Nat) :
    (w.forgetAll q).player r = if r = q then ⟨(w.player q).party, []⟩ else w.player r :=
  Function.update_apply ..

theorem invitations_forgetAll (w : World) (q : Nat) :
    (w.forgetAll q).invitations = fun r => if r = q then [] else w.invitations r := by
  funext r
  rw [invitations, player_forgetAll]
  split <;> rfl

theorem party_player_forgetAll (w : World) (q r : Nat) :
    ((w.forgetAll q).player r).party = (w.player r).party := by
  rw [player_forgetAll]
  split
  · next heq => rw [heq]
  · rfl

theorem inv_clearPartyInvitations (ev : Events) (h : w.Inv w.invitations) (q : Nat) :
    (w.clearPartyInvitations ev q).Inv (w.clearPartyInvitations ev q).invitations := by
  obtain ⟨hall, hsame, _, _⟩ := h.foldl_removeInvite (q := q) ev (w.invitations q) rfl
  rw [clearPartyInvitations_eq]
  generalize List.foldl _ w _ = w' at hall hsame ⊢
  rw [invitations_forgetAll, hsame]
  exact hall.congr rfl (party_player_forgetAll w' q)

/-- Who forgets his invitations stays in his party. -/
theorem own_clearPartyInvitations (ev : Events) (h : w.Inv w.invitations) (q : Nat) :
    ((w.clearPartyInvitations ev q).player q).party = (w.player q).party ∧
      ∀ p, (w.player q).party = some p → (w.clearPartyInvitations ev q).party p = w.party p := by
  obtain ⟨_, _, hpointer, hparty⟩ := h.foldl_removeInvite (q := q) ev (w.invitations q) rfl
  rw [clearPartyInvitations_eq]
  generalize List.foldl _ w _ = w' at hpointer hparty ⊢
  constructor
  · rw [party_player_forgetAll]
    exact hpointer
  · intro p hp
    obtain ⟨P, hP, hq⟩ := (h.pointer q p).mp hp
    exact hparty p fun hmem => (h.sound p P hP).apart q hq ((h.invited_iff hP q).mp hmem)

theorem invitations_clearPartyInvitations (w : World) (ev : Events) (q : Nat) :
    (w.clearPartyInvitations ev q).invitations q = [] := by
  rw [clearPartyInvitations_eq, invitations, player_forgetAll, if_pos rfl]

end World

end Infernum.Parties
