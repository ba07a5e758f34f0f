import Infernum.Trade.Invariant

/-!
# Trades over whole runs

Starting, accepting and carrying out a trade change the fields of two players
at once. `Wf.updatePair` says when such a change keeps the trade fields
well-formed; with it each operation is checked, and the run rule carries the
invariant to every reachable state.
-/

namespace Infernum.Trade

open Infernum.Lib

namespace Game

/-! ## Changing two partners at once -/

/-- Fields that two players may have together: both idle, or partners of each
other. -/
structure Pair (p q : PlayerId) (fp fq : Player) : Prop where
  partner : (fp = {} ∧ fq = {}) ∨ (fp.tradePartner = some q ∧ fq.tradePartner = some p ∧
    fp.tradeState ≠ .none ∧ fq.tradeState ≠ .none)
  ackLeft : fp.tradeState = .acknowledge → fp.tradeItem = none
  ackRight : fq.tradeState = .acknowledge → fq.tradeItem = none
  transfer : fp.tradeState = .transfer ↔ fq.tradeState = .transfer

/-- The map entries of `g'` are those of `g` outside `p` and `q`, and the ones
the fields of `p` and `q` ask for. -/
structure PairKeys (g g' : Game) (p q : PlayerId) (fp fq : Player) : Prop where
  left : ∀ it, g'.tradeItems.lookup it = some p ↔
    fp.tradeItem = some it ∧ fp.tradeState ≠ .transfer
  right : ∀ it, g'.tradeItems.lookup it = some q ↔
    fq.tradeItem = some it ∧ fq.tradeState ≠ .transfer
  others : ∀ it r, r ≠ p → r ≠ q →
    (g'.tradeItems.lookup it = some r ↔ g.tradeItems.lookup it = some r)

/-- Two players with no partner but each other may change their fields
together. -/
theorem Wf.updatePair {g g' : Game} (wf : g.Wf) {p q : PlayerId} {fp fq : Player} (hpq : p ≠ q)
    (hp : ∀ r, (g.player p).tradePartner = some r → r = q)
    (hq : ∀ r, (g.player q).tradePartner = some r → r = p)
    (hplayer : ∀ r, g'.player r = if r = p then fp else if r = q then fq else g.player r)
    (hpair : Pair p q fp fq) (hkeys : PairKeys g g' p q fp fq) : g'.Wf := by
  have hplayerP : g'.player p = fp := by rw [hplayer, if_pos rfl]
  have hplayerQ : g'.player q = fq := by rw [hplayer, if_neg hpq.symm, if_pos rfl]
  have hplayerR : ∀ r, r ≠ p → r ≠ q → g'.player r = g.player r := by
    intro r hrp hrq
    rw [hplayer, if_neg hrp, if_neg hrq]
  -- a third player's partner is again a third player
  have hthird : ∀ r s, r ≠ p → r ≠ q → (g.player r).tradePartner = some s → s ≠ p ∧ s ≠ q := by
    intro r s hrp hrq hrs
    have hsr := wf.symm r s hrs
    refine ⟨?_, ?_⟩
    · rintro rfl
      exact hrq (hp r hsr)
    · rintro rfl
      exact hrp (hq r hsr)
  have hpartnerP : ∀ s, fp.tradePartner = some s → s = q ∧ fq.tradePartner = some p := by
    intro s hs
    rcases hpair.partner with ⟨h, _⟩ | ⟨h1, h2, _⟩
    · simp [h] at hs
    · rw [h1] at hs
      exact ⟨(Option.some.inj hs).symm, h2⟩
  have hpartnerQ : ∀ s, fq.tradePartner = some s → s = p ∧ fp.tradePartner = some q := by
    intro s hs
    rcases hpair.partner with ⟨_, h⟩ | ⟨h1, h2, _⟩
    · simp [h] at hs
    · rw [h2] at hs
      exact ⟨(Option.some.inj hs).symm, h1⟩
  -- every field of the invariant: first `p`, then `q`, then a third player
  constructor
  · intro r s hrs
    by_cases hrp : r = p
    · subst hrp
      rw [hplayerP] at hrs
      obtain ⟨rfl, h⟩ := hpartnerP s hrs
      rw [hplayerQ, h]
    · by_cases hrq : r = q
      · subst hrq
        rw [hplayerQ] at hrs
        obtain ⟨rfl, h⟩ := hpartnerQ s hrs
        rw [hplayerP, h]
      · rw [hplayerR r hrp hrq] at hrs
        obtain ⟨hsp, hsq⟩ := hthird r s hrp hrq hrs
        rw [hplayerR s hsp hsq]
        exact wf.symm r s hrs
  · intro r hrr
    by_cases hrp : r = p
    · subst hrp
      rw [hplayerP] at hrr
      exact hpq (hpartnerP r hrr).1
    · by_cases hrq : r = q
      · subst hrq
        rw [hplayerQ] at hrr
        exact hpq (hpartnerQ r hrr).1.symm
      · rw [hplayerR r hrp hrq] at hrr
        exact wf.irrefl r hrr
  · intro r hr
    by_cases hrp : r = p
    · subst hrp
      rw [hplayerP] at hr ⊢
      rcases hpair.partner with ⟨h, _⟩ | ⟨h, _⟩
      · exact h
      · simp [h] at hr
    · by_cases hrq : r = q
      · subst hrq
        rw [hplayerQ] at hr ⊢
        rcases hpair.partner with ⟨_, h⟩ | ⟨_, h, _⟩
        · exact h
        · simp [h] at hr
      · rw [hplayerR r hrp hrq] at hr ⊢
        exact wf.idle r hr
  · intro r hr
    by_cases hrp : r = p
    · subst hrp
      rw [hplayerP] at hr ⊢
      rcases hpair.partner with ⟨h, _⟩ | ⟨_, _, h, _⟩
      · rw [h]
      · exact absurd hr h
    · by_cases hrq : r = q
      · subst hrq
        rw [hplayerQ] at hr ⊢
        rcases hpair.partner with ⟨_, h⟩ | ⟨_, _, _, h⟩
        · rw [h]
        · exact absurd hr h
      · rw [hplayerR r hrp hrq] at hr ⊢
        exact wf.busy r hr
  · intro r hr
    by_cases hrp : r = p
    · subst hrp
      rw [hplayerP] at hr ⊢
      exact hpair.ackLeft hr
    · by_cases hrq : r = q
      · subst hrq
        rw [hplayerQ] at hr ⊢
        exact hpair.ackRight hr
      · rw [hplayerR r hrp hrq] at hr ⊢
        exact wf.ack r hr
  · intro r s hrs ht
    by_cases hrp : r = p
    · subst hrp
      rw [hplayerP] at hrs ht
      obtain ⟨rfl, _⟩ := hpartnerP s hrs
      rw [hplayerQ]
      exact hpair.transfer.mp ht
    · by_cases hrq : r = q
      · subst hrq
        rw [hplayerQ] at hrs ht
        obtain ⟨rfl, _⟩ := hpartnerQ s hrs
        rw [hplayerP]
        exact hpair.transfer.mpr ht
      · rw [hplayerR r hrp hrq] at hrs ht
        obtain ⟨hsp, hsq⟩ := hthird r s hrp hrq hrs
        rw [hplayerR s hsp hsq]
        exact wf.both r s hrs ht
  · intro it r
    by_cases hrp : r = p
    · subst hrp
      rw [hplayerP]
      exact hkeys.left it
    · by_cases hrq : r = q
      · subst hrq
        rw [hplayerQ]
        exact hkeys.right it
      · rw [hplayerR r hrp hrq, hkeys.others it r hrp hrq]
        exact wf.keys it r

/-! ## Starting a trade -/

/-- What `internalStartTrade` does: it refuses, opens a trade between two idle
players, or adds the counter offer of a player that was asked. -/
theorem internalStartTrade_cases {g : Game} (wf : g.Wf) {p q : PlayerId} (hpq : p ≠ q)
    (it : ItemRef) :
    (g.internalStartTrade p q it).2 = g ∨
    (g.player p = {} ∧ g.player q = {} ∧ (g.internalStartTrade p q it).2 =
      (g.offerItem p q it).setPlayer q ⟨some p, none, .acknowledge⟩) ∨
    ((g.player p).tradeState = .acknowledge ∧ (g.player p).tradePartner = some q ∧
      (g.internalStartTrade p q it).2 = g.offerItem p q it) := by
  have hq' : (g.offerItem p q it).player q = g.player q :=
    setPlayer_player_of_ne g _ hpq.symm
  unfold internalStartTrade
  split
  · exact .inl rfl
  rename_i hp
  split
  · exact .inl rfl
  rename_i hq
  simp only [hq']
  by_cases hqn : (g.player q).tradeState = .none
  · have hqidle : g.player q = {} := wf.idle q (wf.busy q hqn)
    -- an idle partner has no one as partner, so the player was idle as well
    have hpn : (g.player p).tradeState = .none := by
      by_contra hne
      have hpart : (g.player p).tradePartner = some q := by
        by_contra hno
        exact hp ⟨hne, fun h => hno h.2⟩
      have := wf.symm p q hpart
      rw [hqidle] at this
      simp at this
    refine .inr (.inl ⟨wf.idle p (wf.busy p hpn), hqidle, ?_⟩)
    rw [if_pos hqn, hqidle]
  · have hqp : (g.player q).tradePartner = some p := by
      by_contra hno
      exact hq ⟨hqn, hno⟩
    have hpart := wf.symm q p hqp
    have hpn : (g.player p).tradeState ≠ .none := by
      intro hn
      rw [wf.busy p hn] at hpart
      simp at hpart
    have hack : (g.player p).tradeState = .acknowledge := by
      by_contra hno
      exact hp ⟨hpn, fun h => hno h.1⟩
    refine .inr (.inr ⟨hack, hpart, ?_⟩)
    rw [if_neg hqn]

theorem offerItem_lookup (g : Game) (p q : PlayerId) (it i : ItemRef) :
    (g.offerItem p q it).tradeItems.lookup i =
      if i = it then some p else g.tradeItems.lookup i := by
  by_cases hi : i = it
  · subst hi
    simp [offerItem]
  · simp [offerItem, hi]

theorem offerItem_player (g : Game) (p q : PlayerId) (it : ItemRef) (r : PlayerId) :
    (g.offerItem p q it).player r =
      if r = p then ⟨some q, some it, .initiated⟩ else g.player r := by
  simp [offerItem, setPlayer, Function.update_apply]

/-- A trade may start with an item that is in no trade. -/
theorem internalStartTrade_wf {g : Game} (wf : g.Wf) (quiet : g.Quiet) {p q : PlayerId}
    (hpq : p ≠ q) {it : ItemRef} (hit : it ∉ g.tradeItems) :
    (g.internalStartTrade p q it).2.Wf ∧ (g.internalStartTrade p q it).2.Quiet := by
  have hfresh : g.tradeItems.lookup it = none := AList.lookup_eq_none.mpr hit
  rcases internalStartTrade_cases wf hpq it with heq | ⟨hp, hq, heq⟩ | ⟨hack, hpart, heq⟩
  · rw [heq]
    exact ⟨wf, quiet⟩
  · rw [heq]
    have hplayer : ∀ r, ((g.offerItem p q it).setPlayer q ⟨some p, none, .acknowledge⟩).player r =
        if r = p then ⟨some q, some it, .initiated⟩
        else if r = q then ⟨some p, none, .acknowledge⟩ else g.player r := by
      intro r
      by_cases hrq : r = q
      · subst hrq
        rw [setPlayer_player_self, if_neg hpq.symm, if_pos rfl]
      · rw [setPlayer_player_of_ne _ _ hrq, offerItem_player, if_neg hrq]
    have hnone : ∀ i r, g.player r = {} → g.tradeItems.lookup i ≠ some r := by
      intro i r hr hlook
      have := ((wf.keys i r).mp hlook).1
      rw [hr] at this
      simp at this
    refine ⟨wf.updatePair (p := p) (q := q) hpq (by simp [hp]) (by simp [hq]) hplayer ?_ ?_, ?_⟩
    · exact ⟨.inr (by simp), by simp, by simp, by simp⟩
    · constructor
      · intro i
        rw [setPlayer_tradeItems, offerItem_lookup]
        by_cases hi : i = it
        · simp [hi]
        · simp [hi, hnone i p hp, Ne.symm hi]
      · intro i
        rw [setPlayer_tradeItems, offerItem_lookup]
        by_cases hi : i = it
        · simp [hi, hpq]
        · simp [hi, hnone i q hq]
      · intro i r hrp hrq
        rw [setPlayer_tradeItems, offerItem_lookup]
        by_cases hi : i = it
        · subst hi
          simp [hfresh, Ne.symm hrp]
        · simp [hi]
    · intro r
      rw [hplayer]
      split
      · simp
      · split
        · simp
        · exact quiet r
  · rw [heq]
    have hqp := wf.symm p q hpart
    have hqn : (g.player q).tradeState ≠ .none := by
      intro hn
      rw [wf.busy q hn] at hqp
      simp at hqp
    have hplayer : ∀ r, (g.offerItem p q it).player r =
        if r = p then ⟨some q, some it, .initiated⟩
        else if r = q then g.player q else g.player r := by
      intro r
      rw [offerItem_player]
      by_cases hrq : r = q
      · simp [hrq]
      · simp [hrq]
    refine ⟨wf.updatePair (p := p) (q := q) hpq (by simp [hpart]) (by simp [hqp]) hplayer ?_ ?_, ?_⟩
    · exact ⟨.inr ⟨rfl, hqp, by simp, hqn⟩, by simp, wf.ack q, by simp [quiet q]⟩
    · constructor
      · intro i
        rw [offerItem_lookup]
        by_cases hi : i = it
        · simp [hi]
        · -- the asked player had offerItem nothing yet
          have : g.tradeItems.lookup i ≠ some p := by
            intro hlook
            have := ((wf.keys i p).mp hlook).1
            rw [wf.ack p hack] at this
            simp at this
          simp [hi, this, Ne.symm hi]
      · intro i
        rw [offerItem_lookup]
        by_cases hi : i = it
        · subst hi
          have : ¬((g.player q).tradeItem = some i ∧ (g.player q).tradeState ≠ .transfer) := by
            intro h
            have := (wf.keys i q).mpr h
            rw [hfresh] at this
            simp at this
          simpa [hpq] using this
        · rw [if_neg hi]
          exact wf.keys i q
      · intro i r hrp hrq
        rw [offerItem_lookup]
        by_cases hi : i = it
        · subst hi
          simp [hfresh, Ne.symm hrp]
        · simp [hi]
    · intro r
      rw [offerItem_player]
      split
      · simp
      · exact quiet r

/-- `playerRequestTrade` only offers an item that is not a key of the map. -/
theorem not_mem_of_not_alreadyTraded {g : Game} {c : Contents} {it : ItemRef}
    (h : g.alreadyTraded c it = false) : it ∉ g.tradeItems := by
  intro hmem
  have hkey : it ∈ g.tradeItems.keys := hmem
  unfold alreadyTraded at h
  split at h
  all_goals
    rw [List.any_eq_false] at h
    exact absurd (h it hkey) (by simp)

/-! ## Accepting a trade -/

theorem setTradeState_player (g : Game) (p : PlayerId) (state : TradeState) (r : PlayerId) :
    (g.setTradeState p state).player r =
      if r = p then { g.player p with tradeState := state } else g.player r := by
  simp [setTradeState, setPlayer, Function.update_apply]

/-- A player that has a partner may accept. -/
theorem setTradeState_accept_wf {g : Game} (wf : g.Wf) (quiet : g.Quiet) {p q : PlayerId}
    (hpart : (g.player p).tradePartner = some q) :
    (g.setTradeState p .accept).Wf ∧ (g.setTradeState p .accept).Quiet := by
  have hqp := wf.symm p q hpart
  have hpq : p ≠ q := by
    rintro rfl
    exact wf.irrefl p hpart
  have hqn : (g.player q).tradeState ≠ .none := by
    intro hn
    rw [wf.busy q hn] at hqp
    simp at hqp
  have hplayer : ∀ r, (g.setTradeState p .accept).player r =
      if r = p then { g.player p with tradeState := .accept }
      else if r = q then g.player q else g.player r := by
    intro r
    rw [setTradeState_player]
    by_cases hrq : r = q
    · simp [hrq]
    · simp [hrq]
  refine ⟨wf.updatePair (p := p) (q := q) hpq (by simp [hpart]) (by simp [hqp]) hplayer ?_ ?_, ?_⟩
  · exact ⟨.inr ⟨hpart, hqp, by simp, hqn⟩, by simp, wf.ack q, by simp [quiet q]⟩
  · refine ⟨fun it => ?_, fun it => wf.keys it q, fun it r _ _ => Iff.rfl⟩
    simpa [quiet p] using wf.keys it p
  · intro r
    rw [setTradeState_player]
    split
    · simp
    · exact quiet r

/-- Both parties enter `TRADE_TRANSFER` and their items leave the map. -/
def beginTransfer (g : Game) (p q : PlayerId) : Game :=
  (((g.setTradeState p .transfer).setTradeState q .transfer).releaseTradeItem
    (g.player p).tradeItem).releaseTradeItem (g.player q).tradeItem

theorem beginTransfer_player {g : Game} {p q : PlayerId} (hpq : p ≠ q) (r : PlayerId) :
    (g.beginTransfer p q).player r =
      if r = p then { g.player p with tradeState := .transfer }
      else if r = q then { g.player q with tradeState := .transfer } else g.player r := by
  simp only [beginTransfer, releaseTradeItem_player, setTradeState_player, if_neg hpq.symm]
  by_cases hrq : r = q
  · simp [hrq, hpq.symm]
  · simp [hrq]

theorem beginTransfer_wf {g : Game} (wf : g.Wf) (quiet : g.Quiet) {p q : PlayerId}
    (hpart : (g.player p).tradePartner = some q) : (g.beginTransfer p q).Wf := by
  have hqp := wf.symm p q hpart
  have hpq : p ≠ q := by
    rintro rfl
    exact wf.irrefl p hpart
  have hlookup : ∀ it, (g.beginTransfer p q).tradeItems.lookup it =
      if (g.player q).tradeItem = some it then none
      else if (g.player p).tradeItem = some it then none else g.tradeItems.lookup it := by
    intro it
    simp only [beginTransfer, releaseTradeItem_lookup, setTradeState_tradeItems]
  -- an entry that is left belongs to neither party
  have hkept : ∀ it r, (g.beginTransfer p q).tradeItems.lookup it = some r →
      g.tradeItems.lookup it = some r ∧ r ≠ p ∧ r ≠ q := by
    intro it r hlook
    rw [hlookup] at hlook
    split at hlook
    · simp at hlook
    split at hlook
    · simp at hlook
    rename_i hnq hnp
    refine ⟨hlook, ?_, ?_⟩
    · rintro rfl
      exact hnp ((wf.keys it r).mp hlook).1
    · rintro rfl
      exact hnq ((wf.keys it r).mp hlook).1
  refine wf.updatePair (p := p) (q := q) hpq (by simp [hpart]) (by simp [hqp])
    (beginTransfer_player hpq) ⟨.inr ⟨hpart, hqp, by simp, by simp⟩, by simp, by simp, by simp⟩ ?_
  constructor
  · intro it
    simp only [ne_eq, not_true_eq_false, and_false, iff_false]
    exact fun hlook => (hkept it p hlook).2.1 rfl
  · intro it
    simp only [ne_eq, not_true_eq_false, and_false, iff_false]
    exact fun hlook => (hkept it q hlook).2.2 rfl
  · intro it r hrp hrq
    refine ⟨fun hlook => (hkept it r hlook).1, fun hlook => ?_⟩
    have hitem := (wf.keys it r).mp hlook
    rw [hlookup, if_neg, if_neg, hlook]
    · intro h
      exact hrp (wf.item_unique hitem.1 hitem.2 h (quiet p))
    · intro h
      exact hrq (wf.item_unique hitem.1 hitem.2 h (quiet q))

/-- Both parties are reset once the items have moved. -/
theorem endTransfer_wf {g : Game} (wf : g.Wf) {p q : PlayerId}
    (hpart : (g.player p).tradePartner = some q)
    (htransfer : ∀ r, (g.player r).tradeState = .transfer ↔ r = p ∨ r = q) :
    ((g.setPlayer p {}).setPlayer q {}).Wf ∧ ((g.setPlayer p {}).setPlayer q {}).Quiet := by
  have hqp := wf.symm p q hpart
  have hpq : p ≠ q := by
    rintro rfl
    exact wf.irrefl p hpart
  have hplayer : ∀ r, ((g.setPlayer p {}).setPlayer q {}).player r =
      if r = p then {} else if r = q then {} else g.player r := by
    intro r
    by_cases hrq : r = q
    · subst hrq
      simp
    · rw [setPlayer_player_of_ne _ _ hrq, if_neg hrq]
      by_cases hrp : r = p
      · subst hrp
        simp
      · rw [setPlayer_player_of_ne _ _ hrp, if_neg hrp]
  have hnoEntry : ∀ it r, r = p ∨ r = q → g.tradeItems.lookup it ≠ some r :=
    fun it r hr hlook => ((wf.keys it r).mp hlook).2 ((htransfer r).mpr hr)
  refine ⟨wf.updatePair (p := p) (q := q) hpq (by simp [hpart]) (by simp [hqp]) hplayer
    ⟨.inl ⟨rfl, rfl⟩, by simp, by simp, by simp⟩ ?_, ?_⟩
  · refine ⟨fun it => ?_, fun it => ?_, fun it r _ _ => Iff.rfl⟩
    · simpa using hnoEntry it p (.inl rfl)
    · simpa using hnoEntry it q (.inr rfl)
  · intro r
    rw [hplayer]
    split
    · simp
    · split
      · simp
      · rename_i hrp hrq
        intro hr
        rcases (htransfer r).mp hr with h | h
        · exact hrp h
        · exact hrq h

/-- An accepted trade leaves well-formed fields, whatever trades the movement
of its items closes on the way. -/
theorem playerAcceptTrade_wf {g : Game} (wf : g.Wf) (quiet : g.Quiet) (env : AcceptEnv)
    (p : PlayerId) : (g.playerAcceptTrade env p).Wf ∧ (g.playerAcceptTrade env p).Quiet := by
  unfold playerAcceptTrade
  split
  · exact ⟨wf, quiet⟩
  split
  · exact ⟨wf, quiet⟩
  cases hpart : (g.player p).tradePartner with
  | none => exact ⟨wf, quiet⟩
  | some q =>
      dsimp only
      split
      · exact ⟨wf, quiet⟩
      obtain ⟨wf1, quiet1⟩ := setTradeState_accept_wf wf quiet hpart
      generalize hg1 : g.setTradeState p .accept = g1 at wf1 quiet1
      have hpart1 : (g1.player p).tradePartner = some q := by
        rw [← hg1, setTradeState_player, if_pos rfl]
        exact hpart
      split
      · split
        · exact ⟨internalCloseTrade_wf wf1 p,
            fun r hr => quiet1 r ((internalCloseTrade_transfer wf1 p r).mp hr)⟩
        · have hpq : p ≠ q := by
            rintro rfl
            exact wf1.irrefl p hpart1
          obtain ⟨wf2, hiff, hkeep⟩ :=
            (runHooks_closes env.hooks (g1.beginTransfer p q)).preserves
              (beginTransfer_wf wf1 quiet1 hpart1)
          have htransfer : ∀ r, ((g1.beginTransfer p q).player r).tradeState = .transfer ↔
              r = p ∨ r = q := by
            intro r
            rw [beginTransfer_player hpq]
            by_cases hrp : r = p
            · simp [hrp]
            · by_cases hrq : r = q
              · simp [hrq, hpq.symm]
              · simp [hrp, hrq, quiet1 r]
          refine endTransfer_wf wf2 ?_ fun r => by rw [hiff, htransfer]
          rw [hkeep p ((htransfer p).mpr (.inl rfl)), beginTransfer_player hpq, if_pos rfl]
          exact hpart1
      · exact ⟨wf1, quiet1⟩

/-! ## Every operation -/

theorem Closes.wf_quiet {g g' : Game} (hrun : Closes g g') (wf : g.Wf) (quiet : g.Quiet) :
    g'.Wf ∧ g'.Quiet := by
  obtain ⟨wf', hiff, _⟩ := hrun.preserves wf
  exact ⟨wf', fun r hr => quiet r ((hiff r).mp hr)⟩

/-- A change of the on-line list alone keeps the trade fields well-formed. -/
theorem Wf.online {g : Game} (wf : g.Wf) (online : PlayerId → Bool) :
    ({ g with online := online } : Game).Wf :=
  ⟨wf.symm, wf.irrefl, wf.idle, wf.busy, wf.ack, wf.both, wf.keys⟩

/-- A check that ends a request early leaves the game as it is. -/
theorem guard_wf {g g' : Game} {c : Prop} [Decidable c] (h : g.Wf ∧ g.Quiet)
    (hpassed : ¬c → g'.Wf ∧ g'.Quiet) :
    (if c then g else g').Wf ∧ (if c then g else g').Quiet := by
  split
  · exact h
  · next hnot => exact hpassed hnot

theorem playerRequestTrade_wf {g : Game} (wf : g.Wf) (quiet : g.Quiet) (env : RequestEnv)
    (p q : PlayerId) :
    (g.playerRequestTrade env p q).Wf ∧ (g.playerRequestTrade env p q).Quiet := by
  unfold playerRequestTrade
  refine guard_wf ⟨wf, quiet⟩ fun _ => ?_
  refine guard_wf ⟨wf, quiet⟩ fun hself => ?_
  refine guard_wf ⟨wf, quiet⟩ fun _ => ?_
  refine guard_wf ⟨wf, quiet⟩ fun _ => ?_
  cases env.tradeThing with
  | none => exact ⟨wf, quiet⟩
  | some it =>
      refine guard_wf ⟨wf, quiet⟩ fun _ => ?_
      refine guard_wf ⟨wf, quiet⟩ fun _ => ?_
      refine guard_wf ⟨wf, quiet⟩ fun _ => ?_
      refine guard_wf ⟨wf, quiet⟩ fun hfree => ?_
      refine guard_wf ⟨wf, quiet⟩ fun _ => ?_
      refine guard_wf ⟨wf, quiet⟩ fun _ => ?_
      have hpq : p ≠ q := by
        rintro rfl
        simp at hself
      exact internalStartTrade_wf wf quiet hpq
        (not_mem_of_not_alreadyTraded (Bool.not_eq_true _ ▸ hfree))

theorem houseStartTrade_wf {g : Game} (wf : g.Wf) (quiet : g.Quiet) (env : HouseEnv)
    (p q : PlayerId) (hfresh : ∀ item, env.transferItem = some item → item ∉ g.tradeItems) :
    (g.houseStartTrade env p q).Wf ∧ (g.houseStartTrade env p q).Quiet := by
  unfold houseStartTrade
  refine guard_wf ⟨wf, quiet⟩ fun _ => ?_
  refine guard_wf ⟨wf, quiet⟩ fun howner => ?_
  refine guard_wf ⟨wf, quiet⟩ fun hhouse => ?_
  refine guard_wf ⟨wf, quiet⟩ fun _ => ?_
  cases hitem : env.transferItem with
  | none => exact ⟨wf, quiet⟩
  | some it =>
      -- the owner has a house and the partner has none
      have hpq : p ≠ q := by
        rintro rfl
        exact hhouse (env.ownsHouse_of_isOwner p (by simpa using howner))
      exact internalStartTrade_wf wf quiet hpq (hfresh it hitem)

/-- One operation keeps the trade fields well-formed and finishes every
transfer it begins. -/
theorem run_wf {g : Game} (wf : g.Wf) (quiet : g.Quiet) (op : Op) (halloc : g.Allocates op) :
    (g.run op).Wf ∧ (g.run op).Quiet := by
  cases op with
  | login p => exact ⟨wf.online _, quiet⟩
  | logout p =>
      have h := (Closes.ite (c := (g.player p).tradePartner.isSome = true) (.close g p)
        (.refl g)).wf_quiet wf quiet
      exact ⟨h.1.online _, h.2⟩
  | requestTrade env p q => exact playerRequestTrade_wf wf quiet env p q
  | houseStartTrade env p q => exact houseStartTrade_wf wf quiet env p q halloc
  | acceptTrade env p => exact playerAcceptTrade_wf wf quiet env p
  | closeTrade p =>
      have hcloses : Closes g (g.playerCloseTrade p) := .ite (.refl g) (.close g p)
      exact hcloses.wf_quiet wf quiet
  | hook c h => exact (runHook_closes g c h).wf_quiet wf quiet

theorem initial_wf : initial.Wf ∧ initial.Quiet := by
  refine ⟨⟨?_, ?_, ?_, ?_, ?_, ?_, ?_⟩, ?_⟩ <;> simp [initial, Quiet]

end Game

/-! ## Runs -/

/-- The trade system: any order of operations from the start of the server. -/
def system : TSys Game Op where
  init g := g = Game.initial
  step g op g' := g.Allocates op ∧ g' = g.run op

theorem reachable_run {g : Game} (hreach : system.Reachable g) (op : Op)
    (halloc : g.Allocates op) : system.Reachable (g.run op) :=
  .next hreach trivial ⟨halloc, rfl⟩

/-- The trade fields are well-formed in every reachable state, and no trade is
left half carried out. -/
theorem reachable_wf {g : Game} (hreach : system.Reachable g) : g.Wf ∧ g.Quiet := by
  have ind : system.Inductive (fun _ _ => True) fun g => g.Wf ∧ g.Quiet := by
    refine ⟨?_, ?_⟩
    · rintro g rfl
      exact Game.initial_wf
    · rintro g op g' ⟨wf, quiet⟩ _ ⟨halloc, rfl⟩
      exact Game.run_wf wf quiet op halloc
  exact ind.invariant hreach

/-- The trade state invariant. Partners point at each other, a player without
a partner is idle, and `tradeItems` maps exactly the items of the players in a
trade, each to its owner. -/
theorem trade_fields_consistent {g : Game} (hreach : system.Reachable g) :
    (∀ p q, (g.player p).tradeItem.isSome → (g.player q).tradeItem.isSome →
      ((g.player p).tradePartner = some q ↔ (g.player q).tradePartner = some p)) ∧
    (∀ p, (g.player p).tradePartner = none →
      (g.player p).tradeState = .none ∧ (g.player p).tradeItem = none) ∧
    (∀ it p, g.tradeItems.lookup it = some p ↔
      (g.player p).tradePartner.isSome ∧ (g.player p).tradeItem = some it) := by
  obtain ⟨wf, quiet⟩ := reachable_wf hreach
  refine ⟨fun p q _ _ => ⟨wf.symm p q, wf.symm q p⟩, fun p hp => ?_, fun it p => ?_⟩
  · rw [wf.idle p hp]
    exact ⟨rfl, rfl⟩
  · rw [wf.keys]
    refine ⟨fun h => ⟨?_, h.1⟩, fun h => ⟨h.2, quiet p⟩⟩
    -- a player that holds a trade item is not idle
    by_contra hno
    rw [Option.not_isSome_iff_eq_none] at hno
    have hitem := h.1
    rw [wf.idle p hno] at hitem
    simp at hitem

/-- Player 1 shows item 7, which lies on the ground, to player 2. -/
def offerEnv : RequestEnv where
  isContainer _ := false
  isHoldingItem _ _ := false
  getItemHoldingCount _ := 0
  parentContainers _ := []
  inRange := true
  canThrowObjectTo := true
  tradeThing := some 7
  tradeable := true
  sameFloor := true
  adjacent := true
  onTradeRequest := true

/-- The state after two logins and a trade request. -/
def offerState : Game :=
  ((Game.initial.run (.login 1)).run (.login 2)).run (.requestTrade offerEnv 1 2)

theorem offerState_reachable : system.Reachable offerState := by
  have h0 : system.Reachable Game.initial := .start rfl
  have h1 := reachable_run h0 (.login 1) trivial
  have h2 := reachable_run h1 (.login 2) trivial
  exact reachable_run h2 (.requestTrade offerEnv 1 2) trivial

theorem trade_fields_consistent_offer :
    (offerState.player 1).tradeItem = some 7 ∧
    (∀ p q, (offerState.player p).tradeItem.isSome → (offerState.player q).tradeItem.isSome →
      ((offerState.player p).tradePartner = some q ↔
        (offerState.player q).tradePartner = some p)) ∧
    (∀ p, (offerState.player p).tradePartner = none →
      (offerState.player p).tradeState = .none ∧ (offerState.player p).tradeItem = none) ∧
    (∀ it p, offerState.tradeItems.lookup it = some p ↔
      (offerState.player p).tradePartner.isSome ∧ (offerState.player p).tradeItem = some it) :=
  ⟨by decide, trade_fields_consistent offerState_reachable⟩

end Infernum.Trade
