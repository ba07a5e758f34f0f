import Infernum.Lib.TransitionSystem
import Infernum.Tile.Edits
import Mathlib.Data.List.Nodup

/-!
# Tiles over whole runs

The operations on a tile, in any order. Each is a sequence of valid edits: what is put
on the tile was not there, what is taken off was, and an item that stays keeps its
class and its unique id. `Runs.preserved` is the rule for what every edit keeps.
-/

namespace Infernum.Tile

open Lib

variable {I C : Type} [DecidableEq I] (w : TileWorld)

def OnTile (t : Tile I C) (i : I) : Prop := t.ground = some i ∨ i ∈ t.items.items

/-- The places of a tile are in order: no item has two of them. -/
structure Proper (t : Tile I C) : Prop where
  nodup : t.items.items.Nodup
  ground : ∀ g, t.ground = some g → g ∉ t.items.items
  count : t.items.downItemCount ≤ t.items.items.length
  size : t.items.items.length ≤ 0xFFFF

namespace Edit

/-- What the operations see to before an edit. -/
def Valid (t : Tile I C) : Edit I C → Prop
  | .setGround item => ¬t.OnTile item
  | .removeGround => True
  | .insertTop _ item => ¬t.OnTile item ∧ t.items.items.length < 0xFFFF ∧
      (t.object item).isAlwaysOnTop w = true ∧ ((t.object item).itemType w).isGroundTile = false
  | .insertDown item => ¬t.OnTile item ∧ t.items.items.length < 0xFFFF ∧
      (t.object item).isAlwaysOnTop w = false ∧ ((t.object item).itemType w).isGroundTile = false
  | .eraseTop item => item ∈ t.items.topItems
  | .eraseDown item => item ∈ t.items.downItems
  | .replaceAt _ item => ¬t.OnTile item
  | .update item o => t.OnTile item ∧ Object.Alike (t.object item) o
  | .setObject item o => ¬t.OnTile item ∨ ((t.object item).id = o.id ∧ Object.Alike (t.object item) o)
  | .setCreatures _ => True

end Edit

/-- Every edit of a sequence meets a condition when its turn comes. -/
def All (G : Tile I C → Edit I C → Prop) : Tile I C → List (Edit I C) → Prop
  | _, [] => True
  | t, e :: edits => G t e ∧ All G (t.apply w e) edits

theorem All.append {G : Tile I C → Edit I C → Prop} {t : Tile I C} {edits edits' : List (Edit I C)}
    (h : All w G t edits) (h' : All w G (t.applyAll w edits) edits') :
    All w G t (edits ++ edits') := by
  induction edits generalizing t with
  | nil => exact h'
  | cons e edits ih => exact ⟨h.1, ih h.2 h'⟩

theorem All.ite {G : Tile I C → Edit I C → Prop} {t : Tile I C} {c : Prop} [Decidable c]
    {edits edits' : List (Edit I C)} (h : c → All w G t edits) (h' : ¬c → All w G t edits') :
    All w G t (if c then edits else edits') := by
  split
  case isTrue hc => exact h hc
  case isFalse hc => exact h' hc

/-! ## The parts of the vector -/

omit [DecidableEq I] in
theorem downItems_append_topItems (t : Tile I C) :
    t.items.downItems ++ t.items.topItems = t.items.items :=
  List.take_append_drop ..

omit [DecidableEq I] in
theorem Proper.length_downItems {t : Tile I C} (h : t.Proper) :
    t.items.downItems.length = t.items.downItemCount := by
  rw [TileItemVector.downItems, List.length_take]
  exact Nat.min_eq_left h.count

omit [DecidableEq I] in
theorem insertBefore_perm (later : I → Bool) (item : I) (items : List I) :
    (insertBefore later item items).Perm (item :: items) := by
  induction items with
  | nil => exact .refl _
  | cons i items ih =>
      rw [insertBefore]
      split
      · exact .refl _
      · exact (ih.cons i).trans (.swap ..)

omit [DecidableEq I] in
theorem insertTop_perm (t : Tile I C) (later : I → Bool) (item : I) :
    (t.insertTop later item).items.items.Perm (item :: t.items.items) := by
  show (t.items.downItems ++ insertBefore later item t.items.topItems).Perm _
  refine ((insertBefore_perm later item t.items.topItems).append_left _).trans ?_
  rw [← t.downItems_append_topItems]
  exact List.perm_middle

theorem Proper.eraseTop_items {t : Tile I C} (h : t.Proper) {item : I}
    (hitem : item ∈ t.items.topItems) :
    (t.eraseTop item).items.items = t.items.items.erase item := by
  have hnot : item ∉ t.items.downItems := by
    intro hdown
    have hnodup := h.nodup
    rw [← t.downItems_append_topItems] at hnodup
    exact (List.nodup_append.mp hnodup).2.2 item hdown item hitem rfl
  rw [← t.downItems_append_topItems, List.erase_append_right _ hnot]
  rfl

theorem eraseDown_items (t : Tile I C) {item : I} (hitem : item ∈ t.items.downItems) :
    (t.eraseDown item).items.items = t.items.items.erase item := by
  rw [← t.downItems_append_topItems, List.erase_append_left _ hitem]
  rfl

omit [DecidableEq I] in
theorem mem_of_mem_topItems {t : Tile I C} {item : I} (h : item ∈ t.items.topItems) :
    item ∈ t.items.items := List.mem_of_mem_drop h

omit [DecidableEq I] in
theorem mem_of_mem_downItems {t : Tile I C} {item : I} (h : item ∈ t.items.downItems) :
    item ∈ t.items.items := List.mem_of_mem_take h

theorem replaceAt_items (t : Tile I C) (k : Nat) (item : I) :
    (t.replaceAt w k item).items = { t.items with items := t.items.items.set k item } := by
  rw [replaceAt]
  cases hold : t.items.items[k]? with
  | none =>
      have hlength := List.getElem?_eq_none_iff.mp hold
      rw [List.set_eq_of_length_le hlength]
  | some oldItem => rfl

theorem replaceAt_ground (t : Tile I C) (k : Nat) (item : I) :
    (t.replaceAt w k item).ground = t.ground := by
  rw [replaceAt]
  cases t.items.items[k]? <;> rfl

theorem replaceAt_object (t : Tile I C) (k : Nat) (item : I) :
    (t.replaceAt w k item).object = t.object := by
  rw [replaceAt]
  cases t.items.items[k]? <;> rfl

/-! ## Valid edits -/

theorem apply_setGround (t : Tile I C) (item : I) :
    (t.apply w (.setGround item)).ground = some item ∧
      (t.apply w (.setGround item)).items = t.items ∧
      (t.apply w (.setGround item)).object = t.object := by
  rw [apply]
  cases t.ground <;> exact ⟨rfl, rfl, rfl⟩

theorem apply_removeGround (t : Tile I C) :
    (t.apply w .removeGround).ground = none ∧ (t.apply w .removeGround).items = t.items ∧
      (t.apply w .removeGround).object = t.object := by
  rw [apply]
  cases hground : t.ground with
  | none => exact ⟨hground, rfl, rfl⟩
  | some ground => exact ⟨rfl, rfl, rfl⟩

/-- No valid edit gives an item two places. -/
theorem Proper.apply {t : Tile I C} (h : t.Proper) {e : Edit I C} (hvalid : e.Valid w t) :
    (t.apply w e).Proper := by
  cases e with
  | setGround item =>
      obtain ⟨hground, hitems, _⟩ := t.apply_setGround w item
      refine ⟨hitems ▸ h.nodup, ?_, hitems ▸ h.count, hitems ▸ h.size⟩
      intro g hg
      rw [hground] at hg
      rw [hitems, ← Option.some.inj hg]
      exact fun hmem => hvalid (.inr hmem)
  | removeGround =>
      obtain ⟨hground, hitems, _⟩ := t.apply_removeGround w
      refine ⟨hitems ▸ h.nodup, ?_, hitems ▸ h.count, hitems ▸ h.size⟩
      intro g hg
      rw [hground] at hg
      cases hg
  | insertTop strict item =>
      obtain ⟨hnew, hsize, _, _⟩ := hvalid
      have hperm := t.insertTop_perm (t.later w strict item) item
      refine ⟨?_, ?_, ?_, ?_⟩
      · exact hperm.nodup_iff.mpr (List.nodup_cons.mpr ⟨fun hmem => hnew (.inr hmem), h.nodup⟩)
      · intro g hg hmem
        rcases List.mem_cons.mp (hperm.mem_iff.mp hmem) with rfl | hmem
        · exact hnew (.inl hg)
        · exact h.ground g hg hmem
      · exact Nat.le_trans h.count (hperm.length_eq ▸ Nat.le_succ _)
      · exact hperm.length_eq ▸ hsize
  | insertDown item =>
      obtain ⟨hnew, hsize, _, _⟩ := hvalid
      refine ⟨?_, ?_, Nat.succ_le_succ h.count, hsize⟩
      · exact List.nodup_cons.mpr ⟨fun hmem => hnew (.inr hmem), h.nodup⟩
      · intro g hg hmem
        rcases List.mem_cons.mp hmem with rfl | hmem
        · exact hnew (.inl hg)
        · exact h.ground g hg hmem
  | eraseTop item =>
      have hitems := h.eraseTop_items hvalid
      refine ⟨?_, ?_, ?_, ?_⟩
      · exact hitems ▸ h.nodup.erase item
      · intro g hg hmem
        exact h.ground g hg (List.mem_of_mem_erase (hitems ▸ hmem))
      · show t.items.downItemCount ≤ (t.items.downItems ++ t.items.topItems.erase item).length
        rw [List.length_append, h.length_downItems]
        omega
      · show (t.eraseTop item).items.items.length ≤ _
        rw [hitems]
        exact Nat.le_trans (List.length_erase_le ..) h.size
  | eraseDown item =>
      have hitems := t.eraseDown_items hvalid
      refine ⟨?_, ?_, ?_, ?_⟩
      · exact hitems ▸ h.nodup.erase item
      · intro g hg hmem
        exact h.ground g hg (List.mem_of_mem_erase (hitems ▸ hmem))
      · show t.items.downItemCount - 1 ≤ (t.items.downItems.erase item ++ t.items.topItems).length
        rw [List.length_append, List.length_erase_of_mem hvalid, h.length_downItems]
        omega
      · show (t.eraseDown item).items.items.length ≤ _
        rw [hitems]
        exact Nat.le_trans (List.length_erase_le ..) h.size
  | replaceAt k item =>
      have hitems := t.replaceAt_items w k item
      refine ⟨?_, ?_, ?_, ?_⟩
      · show (t.replaceAt w k item).items.items.Nodup
        rw [hitems]
        exact h.nodup.set fun hmem => hvalid (.inr hmem)
      · intro g hg hmem
        change (t.replaceAt w k item).ground = some g at hg
        change g ∈ (t.replaceAt w k item).items.items at hmem
        rw [replaceAt_ground] at hg
        rw [hitems] at hmem
        rcases List.mem_or_eq_of_mem_set hmem with hmem | rfl
        · exact h.ground g hg hmem
        · exact hvalid (.inl hg)
      · show (t.replaceAt w k item).items.downItemCount ≤ (t.replaceAt w k item).items.items.length
        rw [hitems, List.length_set]
        exact h.count
      · show (t.replaceAt w k item).items.items.length ≤ _
        rw [hitems, List.length_set]
        exact h.size
  | update item o => exact ⟨h.nodup, h.ground, h.count, h.size⟩
  | setObject item o => exact ⟨h.nodup, h.ground, h.count, h.size⟩
  | setCreatures creatures => exact ⟨h.nodup, h.ground, h.count, h.size⟩

/-! ## The edits of the operations are valid -/

section Operations

variable [DecidableEq C] {t : Tile I C}

/-- An item with an index is on the tile, in the part that its type asks for. -/
theorem of_getThingIndex {item : I} (h : t.getThingIndex w (.item item) ≠ none) :
    t.ground = some item ∨
      ((t.object item).isAlwaysOnTop w = true ∧ item ∈ t.items.topItems) ∨
      ((t.object item).isAlwaysOnTop w = false ∧ item ∈ t.items.downItems) := by
  rw [getThingIndex] at h
  by_cases hground : t.ground = some item
  · exact .inl hground
  right
  rw [if_neg hground] at h
  by_cases htop : (t.object item).isAlwaysOnTop w = true
  · refine .inl ⟨htop, ?_⟩
    rw [if_pos htop] at h
    by_contra hmem
    refine h ?_
    rw [Option.map_eq_none_iff, List.findIdx?_eq_none_iff]
    intro i hi
    exact decide_eq_false fun heq => hmem (heq ▸ hi)
  · refine .inr ⟨Bool.eq_false_iff.mpr htop, ?_⟩
    rw [if_neg htop] at h
    by_contra hmem
    refine h ?_
    rw [Option.map_eq_none_iff, List.findIdx?_eq_none_iff]
    intro i hi
    exact decide_eq_false fun heq => hmem (heq ▸ hi)

theorem onTile_of_getThingIndex {item : I} (h : t.getThingIndex w (.item item) ≠ none) :
    t.OnTile item := by
  rcases of_getThingIndex w h with hground | ⟨_, hmem⟩ | ⟨_, hmem⟩
  · exact .inl hground
  · exact .inr (mem_of_mem_topItems hmem)
  · exact .inr (mem_of_mem_downItems hmem)

/-- An edit that takes an item off. -/
def Removes (t : Tile I C) (item : I) (e : Edit I C) : Prop :=
  (e = .removeGround ∧ t.ground = some item) ∨ (e = .eraseTop item ∧ item ∈ t.items.topItems) ∨
    (e = .eraseDown item ∧ item ∈ t.items.downItems)

/-- What removing an item comes to: nothing, the item off, or a smaller count. -/
theorem removeEdits_cases (t : Tile I C) (item : I) (count : BitVec 32) :
    t.removeEdits w (.item item) count = [] ∨
      (∃ e, t.removeEdits w (.item item) count = [e] ∧ Removes t item e) ∨
      ∃ o, t.removeEdits w (.item item) count = [.setObject item o] ∧
        (t.object item).id = o.id ∧ Object.Alike (t.object item) o := by
  rw [removeEdits]
  split
  · exact .inl rfl
  split
  case isTrue hground => exact .inr (.inl ⟨_, rfl, .inl ⟨rfl, hground⟩⟩)
  dsimp only
  split
  · split
    · exact .inl rfl
    case isFalse hmem => exact .inr (.inl ⟨_, rfl, .inr (.inl ⟨rfl, not_not.mp hmem⟩)⟩)
  split
  · exact .inl rfl
  case isFalse hmem =>
  split
  · exact .inr (.inr ⟨_, rfl, rfl, rfl, rfl⟩)
  · exact .inr (.inl ⟨_, rfl, .inr (.inr ⟨rfl, not_not.mp hmem⟩)⟩)

omit [DecidableEq I] [DecidableEq C] in
theorem Removes.valid {item : I} {e : Edit I C} (h : Removes t item e) : e.Valid w t := by
  rcases h with ⟨rfl, _⟩ | ⟨rfl, hmem⟩ | ⟨rfl, hmem⟩
  · trivial
  · exact hmem
  · exact hmem

omit [DecidableEq C] in
/-- Objects keep their values, and nothing else comes or goes. -/
theorem Removes.frame {item : I} {e : Edit I C} (h : Removes t item e) (hproper : t.Proper) :
    (t.apply w e).object = t.object ∧ (∀ i, (t.apply w e).OnTile i → t.OnTile i ∧ i ≠ item) ∧
      (t.apply w e).items.items.length ≤ t.items.items.length := by
  rcases h with ⟨rfl, hg⟩ | ⟨rfl, hmem⟩ | ⟨rfl, hmem⟩
  · obtain ⟨hground, hitems, hobject⟩ := t.apply_removeGround w
    refine ⟨hobject, ?_, hitems ▸ Nat.le_refl _⟩
    intro i hi
    rcases hi with hi | hi
    · rw [hground] at hi
      cases hi
    · rw [hitems] at hi
      exact ⟨.inr hi, fun heq => hproper.ground item hg (heq ▸ hi)⟩
  · have hitems := hproper.eraseTop_items hmem
    refine ⟨rfl, ?_, ?_⟩
    · intro i hi
      rcases hi with hi | hi
      · refine ⟨.inl hi, ?_⟩
        rintro rfl
        exact hproper.ground i hi (mem_of_mem_topItems hmem)
      · change i ∈ (t.eraseTop item).items.items at hi
        rw [hitems] at hi
        exact ⟨.inr (List.mem_of_mem_erase hi), (hproper.nodup.mem_erase_iff.mp hi).1⟩
    · show (t.eraseTop item).items.items.length ≤ _
      rw [hitems]
      exact List.length_erase_le ..
  · have hitems := t.eraseDown_items hmem
    refine ⟨rfl, ?_, ?_⟩
    · intro i hi
      rcases hi with hi | hi
      · refine ⟨.inl hi, ?_⟩
        rintro rfl
        exact hproper.ground i hi (mem_of_mem_downItems hmem)
      · change i ∈ (t.eraseDown item).items.items at hi
        rw [hitems] at hi
        exact ⟨.inr (List.mem_of_mem_erase hi), (hproper.nodup.mem_erase_iff.mp hi).1⟩
    · show (t.eraseDown item).items.items.length ≤ _
      rw [hitems]
      exact List.length_erase_le ..

theorem removeEdits_valid (t : Tile I C) (thing : Thing I C) (count : BitVec 32) :
    All w (Edit.Valid w) t (t.removeEdits w thing count) := by
  cases thing with
  | creature creature => exact ⟨trivial, trivial⟩
  | item item =>
      rcases t.removeEdits_cases w item count with hnil | ⟨e, he, hremoves⟩ | ⟨o, ho, hid, halike⟩
      · rw [hnil]
        trivial
      · rw [he]
        exact ⟨hremoves.valid w, trivial⟩
      · rw [ho]
        exact ⟨.inr ⟨hid, halike⟩, trivial⟩

/-- What removing an item leaves as it was for another one that is not on the
tile. -/
theorem removeEdits_frame (hproper : t.Proper) (item : I) (count : BitVec 32) {i : I}
    (hi : ¬t.OnTile i) :
    ¬(t.applyAll w (t.removeEdits w (.item item) count)).OnTile i ∧
      ((t.applyAll w (t.removeEdits w (.item item) count)).object i).id = (t.object i).id ∧
      (t.applyAll w (t.removeEdits w (.item item) count)).items.items.length ≤
        t.items.items.length := by
  rcases t.removeEdits_cases w item count with hnil | ⟨e, he, hremoves⟩ | ⟨o, ho, hid, _⟩
  · rw [hnil]
    exact ⟨hi, rfl, Nat.le_refl _⟩
  · rw [he]
    obtain ⟨hobject, honTile, hlength⟩ := hremoves.frame w hproper
    exact ⟨fun h => hi (honTile i h).1, congrArg (fun f => (f i).id) hobject, hlength⟩
  · rw [ho]
    refine ⟨hi, ?_, Nat.le_refl _⟩
    show (Function.update t.object item o i).id = _
    rw [Function.update_apply]
    split
    case isTrue heq => exact heq ▸ hid.symm
    case isFalse => rfl

theorem addEdits_valid (hproper : t.Proper) {thing : Thing I C}
    (hnew : ∀ item, thing = .item item → ¬t.OnTile item) :
    All w (Edit.Valid w) t (t.addEdits w thing) := by
  cases thing with
  | creature creature => exact ⟨trivial, trivial⟩
  | item item =>
      have hitem := hnew item rfl
      rw [addEdits]
      split
      · trivial
      case isFalse hsize =>
      have hlength : t.items.items.length < 0xFFFF := Nat.lt_of_not_le hsize
      dsimp only
      split
      · exact ⟨hitem, trivial⟩
      case isFalse hground =>
      have hground' : ((t.object item).itemType w).isGroundTile = false :=
        Bool.eq_false_iff.mpr hground
      -- the insertion after an old item was removed
      have hinsert : ∀ old : I, ∀ count, let t' := t.applyAll w (t.removeEdits w (.item old) count)
          ¬t'.OnTile item ∧ t'.items.items.length < 0xFFFF ∧
            (t'.object item).isAlwaysOnTop w = (t.object item).isAlwaysOnTop w ∧
            ((t'.object item).itemType w).isGroundTile = false := by
        intro old count
        obtain ⟨honTile, hid, hle⟩ := removeEdits_frame w hproper old count hitem
        refine ⟨honTile, Nat.lt_of_le_of_lt hle hlength, ?_, ?_⟩
        · rw [Object.isAlwaysOnTop, Object.isAlwaysOnTop, Object.itemType, Object.itemType, hid]
        · rw [Object.itemType, hid]
          exact hground'
      split
      case isTrue htop =>
        rw [splashEdits]
        split
        · cases t.items.topItems.find? fun i => ((t.object i).itemType w).isSplash with
          | none => exact ⟨⟨hitem, hlength, htop, hground'⟩, trivial⟩
          | some oldSplash =>
              obtain ⟨h1, h2, h3, h4⟩ := hinsert oldSplash 1
              exact All.append w (removeEdits_valid w t _ _) ⟨⟨h1, h2, h3.trans htop, h4⟩, trivial⟩
        · exact ⟨⟨hitem, hlength, htop, hground'⟩, trivial⟩
      case isFalse hdown =>
      have hdown' : (t.object item).isAlwaysOnTop w = false := Bool.eq_false_iff.mpr hdown
      split
      · cases t.items.downItems.find? fun i => (t.object i).cls == .magicField with
        | none => exact ⟨⟨hitem, hlength, hdown', hground'⟩, trivial⟩
        | some oldField =>
            dsimp only
            split
            · obtain ⟨h1, h2, h3, h4⟩ := hinsert oldField 1
              exact All.append w (removeEdits_valid w t _ _) ⟨⟨h1, h2, h3.trans hdown', h4⟩, trivial⟩
            · trivial
      · exact ⟨⟨hitem, hlength, hdown', hground'⟩, trivial⟩

omit [DecidableEq C] in
theorem internalAddEdits_valid {thing : Thing I C}
    (hnew : ∀ item, thing = .item item → ¬t.OnTile item) :
    All w (Edit.Valid w) t (t.internalAddEdits w thing) := by
  cases thing with
  | creature creature => exact ⟨trivial, trivial⟩
  | item item =>
      have hitem := hnew item rfl
      rw [internalAddEdits]
      split
      · split
        · exact ⟨hitem, trivial⟩
        · trivial
      case isFalse hground =>
      have hground' : ((t.object item).itemType w).isGroundTile = false :=
        Bool.eq_false_iff.mpr hground
      split
      · trivial
      case isFalse hsize =>
      have hlength : t.items.items.length < 0xFFFF := Nat.lt_of_not_le hsize
      split
      case isTrue htop => exact ⟨⟨hitem, hlength, htop, hground'⟩, trivial⟩
      case isFalse hdown =>
        exact ⟨⟨hitem, hlength, Bool.eq_false_iff.mpr hdown, hground'⟩, trivial⟩

theorem updateEdits_valid (t : Tile I C) (item : I) (itemId : BitVec 16) (count : BitVec 32) :
    All w (Edit.Valid w) t (t.updateEdits w item itemId count) := by
  rw [updateEdits]
  split
  · trivial
  case isFalse hindex =>
  exact ⟨⟨onTile_of_getThingIndex w hindex,
    ((t.object item).alike_setID w itemId).trans (Object.alike_setSubType w _ _).2⟩, trivial⟩

omit [DecidableEq C] in
theorem replaceEdits_valid {item : I} (hnew : ¬t.OnTile item) (index : Nat) :
    All w (Edit.Valid w) t (t.replaceEdits index item) := by
  unfold replaceEdits
  split
  · exact ⟨hnew, trivial⟩
  refine All.ite w (fun _ => ⟨hnew, trivial⟩) fun _ => ?_
  refine All.ite w (fun _ => trivial) fun _ => ?_
  exact All.ite w (fun _ => ⟨hnew, trivial⟩) fun _ => trivial

theorem internalRemoveEdits_valid (t : Tile I C) (item : I) :
    All w (Edit.Valid w) t (t.internalRemoveEdits w item) := by
  rw [internalRemoveEdits]
  split
  · trivial
  split
  · trivial
  · exact removeEdits_valid w t _ _

omit [DecidableEq C] in
theorem newEdits_valid {newItem : I} (hnew : ¬t.OnTile newItem) (itemIndex : Nat)
    (newId newCount : BitVec 16) :
    All w (Edit.Valid w) t (t.newEdits w itemIndex newItem newId newCount) := by
  rw [newEdits]
  cases Item.createItem w.toWorld newId newCount with
  | none => trivial
  | some i =>
      have hnew' : ¬(t.setObject newItem (newObject w i newId)).OnTile newItem := hnew
      exact ⟨.inl hnew, replaceEdits_valid w hnew' itemIndex⟩

theorem inPlaceEdits_valid (t : Tile I C) (item : I) (newId : BitVec 16) (newCount : Int) :
    All w (Edit.Valid w) t (t.inPlaceEdits w item newId newCount) := by
  have hdefault := (t.object item).alike_setDefaultSubtype w
  rw [inPlaceEdits]
  refine All.ite w (fun _ => ?_) fun _ => updateEdits_valid w t _ _ _
  refine All.ite w (fun _ => ?_) fun _ => updateEdits_valid w t _ _ _
  exact ⟨.inr ⟨hdefault.1.symm, hdefault.2⟩, updateEdits_valid w _ _ _ _⟩

/-- An item with an index is taken off if it is removed with all of its count. -/
theorem removes_of_getThingIndex {item : I}
    (hindex : t.getThingIndex w (.item item) ≠ none) :
    ∃ e, t.removeEdits w (.item item) ((t.object item).count.setWidth 32) = [e] ∧
      Removes t item e := by
  have hcases := of_getThingIndex w hindex
  rw [removeEdits, if_neg hindex]
  by_cases hground : t.ground = some item
  · rw [if_pos hground]
    exact ⟨_, rfl, .inl ⟨rfl, hground⟩⟩
  rw [if_neg hground]
  dsimp only
  rcases hcases with h | ⟨htop, hmem⟩ | ⟨hdown, hmem⟩
  · exact absurd h hground
  · rw [if_pos htop, if_neg (not_not.mpr hmem)]
    exact ⟨_, rfl, .inr (.inl ⟨rfl, hmem⟩)⟩
  · rw [if_neg (Bool.eq_false_iff.mp hdown), if_neg (not_not.mpr hmem), if_neg fun h => h.2 rfl]
    exact ⟨_, rfl, .inr (.inr ⟨rfl, hmem⟩)⟩

theorem moveEdits_valid (hproper : t.Proper) {item : I}
    (hindex : t.getThingIndex w (.item item) ≠ none) (newId : BitVec 16) (newCount : Int) :
    All w (Edit.Valid w) t (t.moveEdits w item newId newCount) := by
  obtain ⟨e, he, hremoves⟩ := removes_of_getThingIndex w hindex
  have hoff : ¬(t.apply w e).OnTile item := fun h =>
    ((hremoves.frame w hproper).2.1 item h).2 rfl
  have hproper' := hproper.apply w (hremoves.valid w)
  rw [moveEdits, he]
  refine ⟨hremoves.valid w, .inl hoff, addEdits_valid w ?_ fun i hi => ?_⟩
  · exact ⟨hproper'.nodup, hproper'.ground, hproper'.count, hproper'.size⟩
  · obtain rfl : item = i := Thing.item.inj hi
    exact hoff

theorem transformEdits_valid (hproper : t.Proper) (item : I) (newId : BitVec 16) (newCount : Int)
    {newItem : I} (hnew : ¬t.OnTile newItem) :
    All w (Edit.Valid w) t (t.transformEdits w item newId newCount newItem) := by
  rw [transformEdits]
  refine All.ite w (fun _ => trivial) fun _ => ?_
  cases hindex : t.getThingIndex w (.item item) with
  | none => trivial
  | some itemIndex =>
      have hon : t.getThingIndex w (.item item) ≠ none := by
        rw [hindex]
        simp
      refine All.ite w (fun _ => trivial) fun _ => ?_
      refine All.ite w (fun _ => trivial) fun _ => ?_
      refine All.ite w (fun _ => moveEdits_valid w hproper hon newId newCount) fun _ => ?_
      refine All.ite w (fun _ => ?_) fun _ => newEdits_valid w hnew itemIndex newId _
      refine All.ite w (fun _ => ?_) fun _ => inPlaceEdits_valid w t item newId newCount
      refine All.ite w (fun _ => internalRemoveEdits_valid w t item) fun _ => ?_
      refine All.ite w (fun _ => internalRemoveEdits_valid w t item) fun _ => ?_
      refine All.ite w (fun _ => newEdits_valid w hnew itemIndex _ _) fun _ => ?_
      exact All.ite w (fun _ => trivial) fun _ => inPlaceEdits_valid w t item newId (-1)

end Operations

/-! ## Runs -/

/-- What is done with a tile, and `setObject`: an item elsewhere gets new values. -/
inductive Op (I C : Type) where
  | addThing (thing : Thing I C)
  | internalAddThing (thing : Thing I C)
  | updateThing (item : I) (itemId : BitVec 16) (count : BitVec 32)
  | replaceThing (index : Nat) (item : I)
  | removeThing (thing : Thing I C) (count : BitVec 32)
  | transformItem (item : I) (newId : BitVec 16) (newCount : Int) (newItem : I)
  | setObject (item : I) (o : Object)

/-- An item that is put on the tile, or gets new values, is not on it yet. -/
def Allows (t : Tile I C) : Op I C → Prop
  | .addThing (.item item) => ¬t.OnTile item
  | .internalAddThing (.item item) => ¬t.OnTile item
  | .replaceThing _ item => ¬t.OnTile item
  | .transformItem _ _ _ newItem => ¬t.OnTile newItem
  | .setObject item _ => ¬t.OnTile item
  | _ => True

section Runs

variable [DecidableEq C]

def run (t : Tile I C) : Op I C → Tile I C
  | .addThing thing => t.addThing w thing
  | .internalAddThing thing => t.internalAddThing w thing
  | .updateThing item itemId count => t.updateThing w item itemId count
  | .replaceThing index item => t.replaceThing w index item
  | .removeThing thing count => t.removeThing w thing count
  | .transformItem item newId newCount newItem => t.transformItem w item newId newCount newItem
  | .setObject item o => t.setObject item o

def edits (t : Tile I C) : Op I C → List (Edit I C)
  | .addThing thing => t.addEdits w thing
  | .internalAddThing thing => t.internalAddEdits w thing
  | .updateThing item itemId count => t.updateEdits w item itemId count
  | .replaceThing index item => t.replaceEdits index item
  | .removeThing thing count => t.removeEdits w thing count
  | .transformItem item newId newCount newItem => t.transformEdits w item newId newCount newItem
  | .setObject item o => [.setObject item o]

/-- An operation is its edits. -/
theorem run_eq (t : Tile I C) (op : Op I C) : t.run w op = t.applyAll w (t.edits w op) := by
  cases op with
  | addThing thing => exact addThing_eq w t thing
  | internalAddThing thing => exact internalAddThing_eq w t thing
  | updateThing item itemId count => exact updateThing_eq w t item itemId count
  | replaceThing index item => exact replaceThing_eq w t index item
  | removeThing thing count => exact removeThing_eq w t thing count
  | transformItem item newId newCount newItem => exact transformItem_eq w t item newId newCount newItem
  | setObject item o => rfl

/-- The edits of an operation are valid. -/
theorem edits_valid {t : Tile I C} (hproper : t.Proper) {op : Op I C} (hallows : t.Allows op) :
    All w (Edit.Valid w) t (t.edits w op) := by
  cases op with
  | addThing thing =>
      refine addEdits_valid w hproper fun item hitem => ?_
      subst hitem
      exact hallows
  | internalAddThing thing =>
      refine internalAddEdits_valid w fun item hitem => ?_
      subst hitem
      exact hallows
  | updateThing item itemId count => exact updateEdits_valid w t item itemId count
  | replaceThing index item => exact replaceEdits_valid w hallows index
  | removeThing thing count => exact removeEdits_valid w t thing count
  | transformItem item newId newCount newItem =>
      exact transformEdits_valid w hproper item newId newCount hallows
  | setObject item o => exact ⟨.inl hallows, trivial⟩

/-- The flags of the zones, which the map sets. -/
def ZONES : BitVec 32 := 0x780

/-- A run starts with an empty tile. -/
def system : TSys (Tile I C) (Op I C) where
  init t := t.ground = none ∧ t.items = {} ∧ t.creatures = [] ∧ t.flags &&& ~~~ZONES = 0
  step t op t' := t.Allows op ∧ t' = t.run w op

theorem reach_run {G : Tile I C → Op I C → Prop} {t : Tile I C} (hreach : (system w).Reach G t)
    (op : Op I C) (hguard : G t op) (hallows : t.Allows op) : (system w).Reach G (t.run w op) :=
  .next hreach hguard ⟨hallows, rfl⟩

omit [DecidableEq C] in
theorem applyAll_preserves {P : Tile I C → Prop} {G : Tile I C → Edit I C → Prop}
    (hstep : ∀ t e, t.Proper → e.Valid w t → G t e → P t → P (t.apply w e)) {t : Tile I C}
    {edits : List (Edit I C)} (hproper : t.Proper) (hvalid : All w (Edit.Valid w) t edits)
    (hguard : All w G t edits) (h : P t) :
    (t.applyAll w edits).Proper ∧ P (t.applyAll w edits) := by
  induction edits generalizing t with
  | nil => exact ⟨hproper, h⟩
  | cons e edits ih =>
      exact ih (hproper.apply w hvalid.1) hvalid.2 hguard.2
        (hstep t e hproper hvalid.1 hguard.1 h)

/-- What holds of an empty tile and is kept by every edit that meets a condition
holds in every run whose edits meet it. -/
theorem preserved {P : Tile I C → Prop} {G : Tile I C → Edit I C → Prop}
    (hinit : ∀ t, (system w).init t → P t)
    (hstep : ∀ t e, t.Proper → e.Valid w t → G t e → P t → P (t.apply w e)) {t : Tile I C}
    (hreach : (system w).Reach (fun t op => All w G t (t.edits w op)) t) : t.Proper ∧ P t := by
  have ind : (system w).Inductive (fun t op => All w G t (t.edits w op))
      fun t : Tile I C => t.Proper ∧ P t := by
    refine ⟨?_, ?_⟩
    · intro t hinit'
      obtain ⟨hground, hitems, _, _⟩ := id hinit'
      refine ⟨⟨?_, ?_, ?_, ?_⟩, hinit t hinit'⟩
      · rw [hitems]
        exact List.nodup_nil
      · intro g hg
        rw [hground] at hg
        cases hg
      · rw [hitems]
        exact Nat.le_refl _
      · rw [hitems]
        exact Nat.zero_le _
    · rintro t op t' ⟨hproper, h⟩ hguard ⟨hallows, rfl⟩
      rw [run_eq]
      exact applyAll_preserves w hstep hproper (edits_valid w hproper hallows) hguard h
  exact ind.invariant hreach

end Runs

end Infernum.Tile
