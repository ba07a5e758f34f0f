import Infernum.Lib.TransitionSystem
import Infernum.Trade.State
import Mathlib.Tactic.Common

/-!
# The trade fields are consistent in every reachable state

`Wf` is the invariant that also holds in the middle of an accepted trade,
while the two parties are in `TRADE_TRANSFER` and their entries of
`tradeItems` are already gone. Everything but the start and the acceptance of
a trade acts on the fields through `internalCloseTrade` alone (`Closes`), so
`Wf` is shown once for that function and carried along `Closes`.
-/

namespace Infernum.Trade

open Infernum.Lib

namespace Game

/-- Well-formed trade fields. A party in `TRADE_TRANSFER` has its item out of
the map already. -/
structure Wf (g : Game) : Prop where
  symm : ∀ p q, (g.player p).tradePartner = some q → (g.player q).tradePartner = some p
  irrefl : ∀ p, (g.player p).tradePartner ≠ some p
  idle : ∀ p, (g.player p).tradePartner = none → g.player p = {}
  busy : ∀ p, (g.player p).tradeState = .none → (g.player p).tradePartner = none
  ack : ∀ p, (g.player p).tradeState = .acknowledge → (g.player p).tradeItem = none
  both : ∀ p q, (g.player p).tradePartner = some q →
    (g.player p).tradeState = .transfer → (g.player q).tradeState = .transfer
  keys : ∀ it p, g.tradeItems.lookup it = some p ↔
    (g.player p).tradeItem = some it ∧ (g.player p).tradeState ≠ .transfer

/-- No trade is being carried out. -/
def Quiet (g : Game) : Prop := ∀ p, (g.player p).tradeState ≠ .transfer

/-- An item belongs to one player only, as far as the map is concerned. -/
theorem Wf.item_unique {g : Game} (wf : g.Wf) {p q : PlayerId} {it : ItemRef}
    (hp : (g.player p).tradeItem = some it) (hpt : (g.player p).tradeState ≠ .transfer)
    (hq : (g.player q).tradeItem = some it) (hqt : (g.player q).tradeState ≠ .transfer) :
    p = q := by
  have h1 := (wf.keys it p).mpr ⟨hp, hpt⟩
  have h2 := (wf.keys it q).mpr ⟨hq, hqt⟩
  rw [h1] at h2
  exact Option.some.inj h2

/-! ## Leaving and closing a trade -/

theorem leaveTrade_player (g : Game) (p r : PlayerId) :
    (g.leaveTrade p).player r = if r = p then {} else g.player r := by
  by_cases hr : r = p
  · subst hr
    simp [leaveTrade]
  · simp [leaveTrade, setPlayer_player_of_ne _ _ hr, hr]

theorem leaveTrade_lookup (g : Game) (p : PlayerId) (it : ItemRef) :
    (g.leaveTrade p).tradeItems.lookup it =
      if (g.player p).tradeItem = some it then none else g.tradeItems.lookup it := by
  simp [leaveTrade, releaseTradeItem_lookup]

/-- What closing does, in two cases: nothing when one side is in
`TRADE_TRANSFER`, otherwise both sides (the second one if it exists) leave. -/
theorem internalCloseTrade_cases {g : Game} (wf : g.Wf) (p : PlayerId) :
    ((g.player p).tradeState = .transfer ∧ g.internalCloseTrade p = g) ∨
    ((g.player p).tradeState ≠ .transfer ∧
      (∀ q, (g.player p).tradePartner = some q → (g.player q).tradeState ≠ .transfer) ∧
      g.internalCloseTrade p = match (g.player p).tradePartner with
        | none => g.leaveTrade p
        | some q => (g.leaveTrade p).leaveTrade q) := by
  by_cases hp : (g.player p).tradeState = .transfer
  · refine .inl ⟨hp, ?_⟩
    simp [internalCloseTrade, hp]
  · have hq : ∀ q, (g.player p).tradePartner = some q → (g.player q).tradeState ≠ .transfer :=
      fun q hpq hqt => hp (wf.both q p (wf.symm p q hpq) hqt)
    refine .inr ⟨hp, hq, ?_⟩
    cases hpart : (g.player p).tradePartner with
    | none => simp [internalCloseTrade, hp, hpart]
    | some q => simp [internalCloseTrade, hp, hpart, hq q hpart]

/-- The fields after closing: the player and the partner are reset, everyone
else is untouched. -/
theorem internalCloseTrade_player {g : Game} (wf : g.Wf) {p : PlayerId}
    (hp : (g.player p).tradeState ≠ .transfer) (r : PlayerId) :
    (g.internalCloseTrade p).player r =
      if r = p ∨ (g.player p).tradePartner = some r then {} else g.player r := by
  rcases internalCloseTrade_cases wf p with ⟨ht, _⟩ | ⟨_, _, heq⟩
  · exact absurd ht hp
  · rw [heq]
    cases hpart : (g.player p).tradePartner with
    | none => simp [leaveTrade_player]
    | some q =>
        simp only [leaveTrade_player, Option.some.injEq]
        by_cases hrq : r = q <;> by_cases hrp : r = p <;> simp [hrq, hrp, eq_comm]

/-- The map after closing: the two trade items are gone, nothing else is. -/
theorem internalCloseTrade_lookup {g : Game} (wf : g.Wf) {p : PlayerId}
    (hp : (g.player p).tradeState ≠ .transfer) (it : ItemRef) :
    (g.internalCloseTrade p).tradeItems.lookup it =
      if (g.player p).tradeItem = some it ∨
          ∃ q, (g.player p).tradePartner = some q ∧ (g.player q).tradeItem = some it then none
      else g.tradeItems.lookup it := by
  rcases internalCloseTrade_cases wf p with ⟨ht, _⟩ | ⟨_, _, heq⟩
  · exact absurd ht hp
  · rw [heq]
    cases hpart : (g.player p).tradePartner with
    | none => simp [leaveTrade_lookup]
    | some q =>
        have hqp : q ≠ p := fun h => wf.irrefl p (h ▸ hpart)
        simp only [leaveTrade_lookup, leaveTrade_player, if_neg hqp, Option.some.injEq,
          exists_eq_left']
        by_cases h1 : (g.player p).tradeItem = some it <;>
          by_cases h2 : (g.player q).tradeItem = some it <;> simp [h1, h2]

/-- Closing a trade keeps the fields well-formed. -/
theorem internalCloseTrade_wf {g : Game} (wf : g.Wf) (p : PlayerId) :
    (g.internalCloseTrade p).Wf := by
  rcases internalCloseTrade_cases wf p with ⟨_, heq⟩ | ⟨hp, hq, _⟩
  · rw [heq]
    exact wf
  have hplayer := internalCloseTrade_player wf hp
  -- a player that still has a partner is neither side of the closed trade
  have hpartner : ∀ {r s}, ((g.internalCloseTrade p).player r).tradePartner = some s →
      (r ≠ p ∧ (g.player p).tradePartner ≠ some r) ∧ (g.player r).tradePartner = some s := by
    intro r s hrs
    rw [hplayer] at hrs
    split at hrs
    · simp at hrs
    · rename_i hnot
      rw [not_or] at hnot
      exact ⟨hnot, hrs⟩
  have huntouched : ∀ {r s}, ((g.internalCloseTrade p).player r).tradePartner = some s →
      (g.internalCloseTrade p).player s = g.player s := by
    intro r s hrs
    obtain ⟨⟨hrp, hrq⟩, hrs'⟩ := hpartner hrs
    have hsr := wf.symm r s hrs'
    rw [hplayer, if_neg]
    rintro (rfl | hps)
    · exact hrq hsr
    · have := wf.symm p s hps
      rw [hsr] at this
      exact hrp (Option.some.inj this)
  constructor
  · intro r s hrs
    rw [huntouched hrs]
    exact wf.symm r s (hpartner hrs).2
  · intro r hrr
    exact wf.irrefl r (hpartner hrr).2
  · intro r hr
    rw [hplayer] at hr ⊢
    split
    · rfl
    · rename_i hnot
      rw [if_neg hnot] at hr
      exact wf.idle r hr
  · intro r hr
    rw [hplayer] at hr ⊢
    split
    · rfl
    · rename_i hnot
      rw [if_neg hnot] at hr
      exact wf.busy r hr
  · intro r hr
    rw [hplayer] at hr ⊢
    split
    · rfl
    · rename_i hnot
      rw [if_neg hnot] at hr
      exact wf.ack r hr
  · intro r s hrs ht
    rw [huntouched hrs]
    obtain ⟨hnot, hrs'⟩ := hpartner hrs
    rw [hplayer, if_neg (by rw [not_or]; exact hnot)] at ht
    exact wf.both r s hrs' ht
  · intro it r
    rw [hplayer, internalCloseTrade_lookup wf hp]
    by_cases hr : r = p ∨ (g.player p).tradePartner = some r
    · -- the sides of the closed trade own nothing, and no entry names them
      rw [if_pos hr]
      simp only [reduceCtorEq, ne_eq, false_and, iff_false]
      intro hlook
      split at hlook
      · simp at hlook
      · rename_i hnot
        rw [not_or] at hnot
        have hitem := ((wf.keys it r).mp hlook).1
        rcases hr with rfl | hr
        · exact hnot.1 hitem
        · exact hnot.2 ⟨r, hr, hitem⟩
    · rw [if_neg hr, ← wf.keys]
      rw [not_or] at hr
      refine ⟨fun hlook => ?_, fun hlook => ?_⟩
      · split at hlook
        · simp at hlook
        · exact hlook
      · obtain ⟨hri, hrt⟩ := (wf.keys it r).mp hlook
        rw [if_neg, hlook]
        rintro (hpi | ⟨q, hpq, hqi⟩)
        · exact hr.1 (wf.item_unique hri hrt hpi hp)
        · exact hr.2 (by rw [wf.item_unique hri hrt hqi (hq q hpq)]; exact hpq)

/-- Closing never puts anyone into `TRADE_TRANSFER`, and leaves those who are
there alone. -/
theorem internalCloseTrade_transfer {g : Game} (wf : g.Wf) (p r : PlayerId) :
    ((g.internalCloseTrade p).player r).tradeState = .transfer ↔
      (g.player r).tradeState = .transfer := by
  rcases internalCloseTrade_cases wf p with ⟨_, heq⟩ | ⟨hp, hq, _⟩
  · rw [heq]
  · rw [internalCloseTrade_player wf hp]
    split
    · rename_i hr
      simp only [reduceCtorEq, false_iff]
      rcases hr with rfl | hr
      · exact hp
      · exact hq r hr
    · rfl

/-- A party in `TRADE_TRANSFER` keeps all its fields when any trade closes. -/
theorem internalCloseTrade_player_transfer {g : Game} (wf : g.Wf) (p : PlayerId) {r : PlayerId}
    (hr : (g.player r).tradeState = .transfer) :
    (g.internalCloseTrade p).player r = g.player r := by
  rcases internalCloseTrade_cases wf p with ⟨_, heq⟩ | ⟨hp, hq, _⟩
  · rw [heq]
  · rw [internalCloseTrade_player wf hp, if_neg]
    rintro (rfl | hpr)
    · exact hp hr
    · exact hq r hpr hr

/-! ## Runs of closes -/

/-- `g'` comes from `g` by closing trades, any number of times. -/
def Closes : Game → Game → Prop := Relation.ReflTransGen fun g g' => ∃ p, g' = g.internalCloseTrade p

theorem Closes.refl (g : Game) : Closes g g := Relation.ReflTransGen.refl

theorem Closes.close (g : Game) (p : PlayerId) : Closes g (g.internalCloseTrade p) :=
  Relation.ReflTransGen.single ⟨p, rfl⟩

theorem Closes.trans {g g' g'' : Game} (h1 : Closes g g') (h2 : Closes g' g'') : Closes g g'' :=
  Relation.ReflTransGen.trans h1 h2

/-- What a run of closes preserves, all at once. -/
theorem Closes.preserves {g g' : Game} (hrun : Closes g g') (wf : g.Wf) :
    g'.Wf ∧
    (∀ r, (g'.player r).tradeState = .transfer ↔ (g.player r).tradeState = .transfer) ∧
    (∀ r, (g.player r).tradeState = .transfer → g'.player r = g.player r) := by
  induction hrun with
  | refl => exact ⟨wf, fun _ => Iff.rfl, fun _ _ => rfl⟩
  | tail _ hstep ih =>
      obtain ⟨p, rfl⟩ := hstep
      obtain ⟨wfm, hiff, hkeep⟩ := ih
      refine ⟨internalCloseTrade_wf wfm p, fun r => ?_, fun r hr => ?_⟩
      · rw [internalCloseTrade_transfer wfm, hiff]
      · rw [internalCloseTrade_player_transfer wfm p ((hiff r).mpr hr)]
        exact hkeep r hr

/-! ## Notifications only close trades -/

theorem Closes.ite {c : Prop} [Decidable c] {g a b : Game} (ha : Closes g a) (hb : Closes g b) :
    Closes g (if c then a else b) := by
  split
  · exact ha
  · exact hb

theorem checkTradeState_closes (g : Game) (c : Contents) (p : PlayerId) (item : ItemRef) :
    Closes g (g.checkTradeState c p item) := by
  unfold checkTradeState
  cases (g.player p).tradeItem with
  | none => exact .refl g
  | some tradeItem => exact .ite (.refl g) (.ite (.close g p) (.ite (.close g p) (.refl g)))

theorem closeIfHeld_closes (g : Game) (p : PlayerId) (held : ItemRef → Bool) :
    Closes g (g.closeIfHeld p held) := by
  unfold closeIfHeld
  cases (g.player p).tradeItem with
  | none => exact .refl g
  | some tradeItem => exact .ite (.close g p) (.refl g)

theorem onRemoveItem_closes (g : Game) (c : Contents) (p : PlayerId) (item : ItemRef) :
    Closes g (g.onRemoveItem c p item) :=
  .ite (.refl g) ((checkTradeState_closes g c p item).trans (closeIfHeld_closes _ p _))

theorem onRemoveContainerItem_closes (g : Game) (c : Contents) (p : PlayerId)
    (container item : ItemRef) : Closes g (g.onRemoveContainerItem c p container item) :=
  .ite (.refl g) ((checkTradeState_closes g c p item).trans (closeIfHeld_closes _ p _))

theorem onUpdateTileItem_closes (g : Game) (c : Contents) (p : PlayerId)
    (oldItem newItem : ItemRef) : Closes g (g.onUpdateTileItem c p oldItem newItem) := by
  have hfirst : Closes g (if oldItem ≠ newItem then g.onRemoveItem c p oldItem else g) :=
    .ite (onRemoveItem_closes g c p oldItem) (.refl g)
  exact .ite hfirst (hfirst.trans (closeIfHeld_closes _ p _))

theorem onUpdateContainerItem_closes (g : Game) (c : Contents) (p : PlayerId)
    (container oldItem newItem : ItemRef) :
    Closes g (g.onUpdateContainerItem c p container oldItem newItem) := by
  have hfirst : Closes g
      (if oldItem ≠ newItem then g.onRemoveContainerItem c p container oldItem else g) :=
    .ite (onRemoveContainerItem_closes g c p container oldItem) (.refl g)
  exact .ite hfirst (hfirst.trans (checkTradeState_closes _ c p oldItem))

theorem onUpdateInventoryItem_closes (g : Game) (c : Contents) (p : PlayerId)
    (oldItem newItem : ItemRef) : Closes g (g.onUpdateInventoryItem c p oldItem newItem) := by
  have hfirst : Closes g (if oldItem ≠ newItem then g.onRemoveItem c p oldItem else g) :=
    .ite (onRemoveItem_closes g c p oldItem) (.refl g)
  exact .ite hfirst (hfirst.trans (checkTradeState_closes _ c p oldItem))

theorem onCreatureMove_closes (g : Game) (p : PlayerId) (itemInRange partnerInRange : Bool) :
    Closes g (g.onCreatureMove p itemInRange partnerInRange) := by
  have hfirst := closeIfHeld_closes g p fun _ => !itemInRange
  exact .ite (.refl g) (.ite (hfirst.trans (.close _ p)) hfirst)

/-- Every notification is a run of closes. -/
theorem runHook_closes (g : Game) (c : Contents) (h : Hook) : Closes g (g.runHook c h) := by
  cases h with
  | onUpdateTileItem p oldItem newItem => exact onUpdateTileItem_closes g c p oldItem newItem
  | onRemoveTileItem p item => exact onRemoveItem_closes g c p item
  | onAddContainerItem p item => exact checkTradeState_closes g c p item
  | onUpdateContainerItem p container oldItem newItem =>
      exact onUpdateContainerItem_closes g c p container oldItem newItem
  | onRemoveContainerItem p container item => exact onRemoveContainerItem_closes g c p container item
  | onUpdateInventoryItem p oldItem newItem =>
      exact onUpdateInventoryItem_closes g c p oldItem newItem
  | onRemoveInventoryItem p item => exact onRemoveItem_closes g c p item
  | onCreatureMove p itemInRange partnerInRange =>
      exact onCreatureMove_closes g p itemInRange partnerInRange

theorem runHooks_closes (hooks : List (Contents × Hook)) (g : Game) :
    Closes g (g.runHooks hooks) := by
  induction hooks generalizing g with
  | nil => exact .refl g
  | cons hook rest ih => exact (runHook_closes g hook.1 hook.2).trans (ih _)

end Game

end Infernum.Trade
