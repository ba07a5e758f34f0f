import Infernum.Decay.Decay
import Mathlib.Tactic.Common

/-!
# What decaying one item changes

A transformed item and what comes of it are the only things that change, and only the
list of new decaying items grows.
-/

namespace Infernum.Decay

open ItemDecayState

variable {types : Nat → ItemType}

namespace Item

/-- The type that an item changes to decides about its decay state. -/
def Resets (types : Nat → ItemType) (item : Item) (newid : Nat) : Prop :=
  (types newid).duration = 0 ∧ (types newid).stopTime = false ∧ (types newid).decayTo < 0 ∨
    (types newid).duration > 0 ∧ ((types item.id).stopTime = false ∨ item.duration = none)

theorem setID_removed (item : Item) (newid : Nat) :
    (item.setID types newid).removed = item.removed := by
  simp only [setID, setDecaying, setDuration]
  split <;> split <;> rfl

theorem getDecaying_setID (types : Nat → ItemType) (item : Item) (newid : Nat) :
    (item.setID types newid).getDecaying = item.getDecaying ∧ ¬item.Resets types newid ∨
      (item.setID types newid).getDecaying = .DECAYING_FALSE ∧ item.Resets types newid := by
  by_cases hzero : (types newid).duration = 0
  · have hnot : ¬(types newid).duration > 0 := by omega
    by_cases hclear : (types newid).stopTime = false ∧ (types newid).decayTo < 0
    · refine .inr ⟨?_, .inl ⟨hzero, hclear⟩⟩
      simp [setID, hzero, hclear, getDecaying]
    · refine .inl ⟨?_, ?_⟩
      · simp [setID, hzero, hclear, getDecaying]
      · rintro (⟨_, hreset⟩ | ⟨hpos, _⟩)
        · exact hclear hreset
        · exact hnot hpos
  · have hpos : (types newid).duration > 0 := by omega
    by_cases hreset : (types item.id).stopTime = false ∨ item.duration = none
    · refine .inr ⟨?_, .inr ⟨hpos, hreset⟩⟩
      simp [setID, hzero, hpos, hreset, getDecaying, setDecaying, setDuration]
    · refine .inl ⟨?_, ?_⟩
      · simp [setID, hzero, hreset, getDecaying]
      · rintro (⟨heq, _⟩ | ⟨_, h⟩)
        · exact hzero heq
        · exact hreset h

theorem create_unmarked {id : Nat} {removed : Bool} {item : Item}
    (h : create types id removed = some item) : item.getDecaying ≠ .DECAYING_TRUE := by
  simp only [create] at h
  split at h
  · cases h
  · split at h
    · cases h
    · rw [← Option.some.inj h]
      exact nofun

end Item

namespace World

variable {env : Env} {w w' : World} {x : Nat}

/-- Only one item, and new ones, are changed and queued. -/
structure Frame (w : World) (x : Nat) (w' : World) : Prop where
  items : ∀ y, y ≠ x → y < w.next → w'.items y = w.items y
  next : w.next ≤ w'.next
  decayItems : w'.decayItems = w.decayItems
  lastBucket : w'.lastBucket = w.lastBucket
  toDecayItems : ∃ l, w'.toDecayItems = l ++ w.toDecayItems ∧ ∀ y ∈ l, y = x ∨ w.next ≤ y

theorem Frame.refl (w : World) (x : Nat) : Frame w x w :=
  ⟨fun _ _ _ => rfl, Nat.le_refl _, rfl, rfl, [], rfl, nofun⟩

theorem Frame.trans {w'' : World} {y : Nat} (h : Frame w x w') (hy : y = x ∨ w.next ≤ y)
    (h' : Frame w' y w'') : Frame w x w'' where
  items z hz hlt := by
    have hne : z ≠ y := by
      rcases hy with rfl | hle
      · exact hz
      · omega
    rw [h'.items z hne (Nat.lt_of_lt_of_le hlt h.next), h.items z hz hlt]
  next := Nat.le_trans h.next h'.next
  decayItems := h'.decayItems.trans h.decayItems
  lastBucket := h'.lastBucket.trans h.lastBucket
  toDecayItems := by
    obtain ⟨l, heq, hl⟩ := h.toDecayItems
    obtain ⟨l', heq', hl'⟩ := h'.toDecayItems
    refine ⟨l' ++ l, by rw [heq', heq, List.append_assoc], fun z hz => ?_⟩
    rcases List.mem_append.mp hz with hz | hz
    · rcases hl' z hz with rfl | hle
      · exact hy
      · exact .inr (Nat.le_trans h.next hle)
    · exact hl z hz

theorem frame_set (w : World) (x : Nat) (item : Item) : Frame w x (w.set x item) :=
  ⟨fun _ hne _ => Function.update_of_ne hne .., Nat.le_refl _, rfl, rfl, [], rfl, nofun⟩

theorem frame_new (w : World) (x : Nat) (item : Item) : Frame w x (w.new item) :=
  ⟨fun _ _ hlt => Function.update_of_ne (Nat.ne_of_lt hlt) .., Nat.le_succ _, rfl, rfl, [], rfl,
    nofun⟩

theorem frame_internalRemoveItem (e : Surroundings) (w : World) (x : Nat) :
    Frame w x (w.internalRemoveItem e x) := by
  rw [internalRemoveItem]
  cases w.items x with
  | none => exact .refl w x
  | some item =>
      dsimp only
      split
      · exact .refl w x
      · exact frame_set ..

@[simp] theorem toDecayItems_internalRemoveItem (e : Surroundings) (w : World) (x : Nat) :
    (w.internalRemoveItem e x).toDecayItems = w.toDecayItems := by
  rw [internalRemoveItem]
  cases w.items x with
  | none => rfl
  | some item =>
      dsimp only
      split <;> rfl

@[simp] theorem toDecayItems_transformItem (e : Surroundings) (w : World) (x newId : Nat)
    (newCount : Int) : (w.transformItem types e x newId newCount).1.toDecayItems =
      w.toDecayItems := by
  rw [transformItem]
  cases w.items x with
  | none => rfl
  | some item =>
      dsimp only
      cases change types e item newId newCount with
      | unchanged => rfl
      | noItem => rfl
      | putBack itemId =>
          dsimp only
          split <;> rfl
      | update itemId => rfl
      | remove => exact toDecayItems_internalRemoveItem e w x
      | replace itemId =>
          dsimp only
          cases Item.create types itemId (item.removed || !e.accepted) <;> rfl

/-- A transformed item is the item itself or a new one. -/
theorem frame_transformItem (types : Nat → ItemType) (e : Surroundings) (w : World) (x newId : Nat) (newCount : Int) :
    Frame w x (w.transformItem types e x newId newCount).1 ∧
      ∀ y, (w.transformItem types e x newId newCount).2 = some y → y = x ∨ w.next ≤ y := by
  rw [transformItem]
  cases w.items x with
  | none => exact ⟨.refl w x, nofun⟩
  | some item =>
      dsimp only
      cases change types e item newId newCount with
      | unchanged => exact ⟨.refl w x, fun y hy => .inl (Option.some.inj hy).symm⟩
      | noItem => exact ⟨.refl w x, nofun⟩
      | putBack itemId =>
          dsimp only
          split
          · exact ⟨frame_set .., fun y hy => .inl (Option.some.inj hy).symm⟩
          · exact ⟨frame_set .., nofun⟩
      | update itemId => exact ⟨frame_set .., fun y hy => .inl (Option.some.inj hy).symm⟩
      | remove => exact ⟨frame_internalRemoveItem .., nofun⟩
      | replace itemId =>
          dsimp only
          cases Item.create types itemId (item.removed || !e.accepted) with
          | none => exact ⟨.refl w x, nofun⟩
          | some newItem =>
              refine ⟨(frame_set w x _).trans (.inl rfl) (frame_new _ x newItem), fun y hy => ?_⟩
              exact .inr (Nat.le_of_eq (Option.some.inj hy))

theorem frame_internalDecayItem {startDecay : World → Option Nat → Option World}
    (hstart : ∀ w y w', startDecay w (some y) = some w' → Frame w y w')
    (hnone : ∀ w w', startDecay w none = some w' → w' = w)
    (h : internalDecayItem types env startDecay w x = some w') : Frame w x w' := by
  rw [internalDecayItem] at h
  cases hx : w.items x with
  | none =>
      rw [hx] at h
      exact Option.some.inj h ▸ .refl w x
  | some item =>
      simp only [hx] at h
      split at h
      · obtain ⟨hframe, hitem⟩ := frame_transformItem types
          (env x ((types item.id).decayTo % 65536).toNat) w x
          ((types item.id).decayTo % 65536).toNat (-1)
        generalize transformItem types _ w x _ (-1) = result at h hframe hitem
        obtain ⟨w₁, newItem⟩ := result
        cases newItem with
        | none => exact hnone _ _ h ▸ hframe
        | some y => exact hframe.trans (hitem y rfl) (hstart _ _ _ h)
      · exact Option.some.inj h ▸ frame_internalRemoveItem ..

theorem startDecay_none {fuel : Nat} (h : startDecay types env fuel w none = some w') : w' = w := by
  cases fuel with
  | zero => cases h
  | succ fuel => exact (Option.some.inj h).symm

theorem frame_startDecay {fuel : Nat} (h : startDecay types env fuel w (some x) = some w') :
    Frame w x w' := by
  induction fuel generalizing w x w' with
  | zero => cases h
  | succ fuel ih =>
      rw [startDecay] at h
      cases hx : w.items x with
      | none =>
          rw [hx] at h
          exact Option.some.inj h ▸ .refl w x
      | some item =>
          simp only [hx] at h
          split at h
          · exact Option.some.inj h ▸ .refl w x
          · split at h
            · exact Option.some.inj h ▸ .refl w x
            · split at h
              · refine Option.some.inj h ▸ ?_
                refine ⟨(frame_set w x _).items, Nat.le_refl _, rfl, rfl, [x], rfl, fun y hy => ?_⟩
                exact .inl (List.mem_singleton.mp hy)
              · exact frame_internalDecayItem (fun _ _ _ h => ih h) (fun _ _ => startDecay_none) h

theorem frame_decay {fuel : Nat}
    (h : internalDecayItem types env (startDecay types env fuel) w x = some w') : Frame w x w' :=
  frame_internalDecayItem (fun _ _ _ => frame_startDecay) (fun _ _ => startDecay_none) h

/-- `visit` moves an item to another bucket or leaves its mark. -/
theorem visit_spec (types : Nat → ItemType) (bucket : Nat) (item : Item) :
    (visit types bucket item).1.removed = item.removed ∧
      match (visit types bucket item).2 with
      | .released => (visit types bucket item).1.getDecaying = .DECAYING_FALSE
      | .moved newBucket => newBucket < 4 ∧ newBucket ≠ bucket ∧
          (visit types bucket item).1.getDecaying = item.getDecaying
      | _ => (visit types bucket item).1.getDecaying = item.getDecaying := by
  rw [visit]
  cases item.canDecay types with
  | false => exact ⟨rfl, rfl⟩
  | true =>
      simp only [Bool.not_true, Bool.false_eq_true, if_false]
      generalize toInt32 item.getDuration = duration
      generalize hbucket : (bucket + ((duration - min _ duration).toNat + EVENT_DECAYINTERVAL / 2) /
        1000) % EVENT_DECAY_BUCKETS = newBucket
      have hlt : newBucket < 4 := hbucket ▸ Nat.mod_lt _ (by decide)
      split
      · exact ⟨rfl, rfl⟩
      · split
        · split
          · exact ⟨rfl, rfl⟩
          · next hne => exact ⟨rfl, hlt, hne, rfl⟩
        · exact ⟨rfl, rfl⟩

/-- One visit of the loop of `checkDecay`. -/
theorem checkBucket_cases {fuel bucket : Nat} {rest kept calls : List Nat} {item : Item}
    (hx : w.items x = some item)
    (hrun : checkBucket types env fuel bucket (x :: rest) kept w = some (w', calls)) :
    (∃ item', visit types bucket item = (item', .released) ∧
        checkBucket types env fuel bucket rest kept (w.set x item') = some (w', calls)) ∨
      (∃ item' newBucket, visit types bucket item = (item', .moved newBucket) ∧
        checkBucket types env fuel bucket rest kept ((w.set x item').pushBack newBucket x) =
          some (w', calls)) ∨
      (∃ item', visit types bucket item = (item', .kept) ∧
        checkBucket types env fuel bucket rest (kept ++ [x]) (w.set x item') = some (w', calls)) ∨
      ∃ item' w₁ calls', visit types bucket item = (item', .decayed) ∧
        internalDecayItem types env (startDecay types env fuel) (w.set x item') x = some w₁ ∧
        checkBucket types env fuel bucket rest kept w₁ = some (w', calls') ∧ calls = x :: calls' := by
  rw [checkBucket] at hrun
  simp only [hx] at hrun
  cases hvisit : visit types bucket item with
  | mk item' visited =>
      rw [hvisit] at hrun
      cases visited with
      | released => exact .inl ⟨item', rfl, hrun⟩
      | moved newBucket => exact .inr (.inl ⟨item', newBucket, rfl, hrun⟩)
      | kept => exact .inr (.inr (.inl ⟨item', rfl, hrun⟩))
      | decayed =>
          obtain ⟨w₁, hdecay, hrun⟩ := Option.bind_eq_some_iff.mp hrun
          obtain ⟨⟨w₂, calls'⟩, hrest, hlast⟩ := Option.bind_eq_some_iff.mp hrun
          obtain ⟨rfl, rfl⟩ := Prod.mk.inj (Option.some.inj hlast)
          exact .inr (.inr (.inr ⟨item', w₁, calls', rfl, hdecay, hrest, rfl⟩))

end World

end Infernum.Decay
