import Infernum.Cylinder.Move
import Mathlib.Algebra.BigOperators.Fin

/-!
# What cylinders hold

The units of a kind of item that lie in a set of cylinders, and how many more there are
when an item is put into a cylinder, when the number of one changes, and when one is made.
-/

namespace Infernum.Heap

variable {σ : Type} {o : Others σ}

section Holdings

variable (o) (h : Heap σ)

/-- The cylinder that an item lies in: its parent, if that has an index for it. Nothing
lies in the virtual cylinder. -/
def location (i : Nat) : Option Cylinder :=
  (h.parent i).filter fun c => c != .virtualCylinder && h.getThingIndex o c i != -1

def unitsOf (S : Cylinder → Bool) (id : BitVec 16) (i : Nat) : Nat :=
  if (h.location o i).any S = true ∧ (h.object i).id = id then (h.getItemCount i).toNat else 0

/-- The units of an item type that lie in one of the cylinders. -/
def holds (S : Cylinder → Bool) (id : BitVec 16) : Nat :=
  ∑ i ∈ Finset.range h.next, h.unitsOf o S id i

end Holdings

variable {h h' h'' : Heap σ} {S : Cylinder → Bool} {id : BitVec 16}

theorem location_congr {i : Nat} (hparent : h'.parent i = h.parent i)
    (hindex : ∀ c, h.parent i = some c →
      (h'.getThingIndex o c i = -1 ↔ h.getThingIndex o c i = -1)) :
    h'.location o i = h.location o i := by
  rw [location, location, hparent]
  cases hc : h.parent i with
  | none => rfl
  | some c =>
      have hsame : (h'.getThingIndex o c i != -1) = (h.getThingIndex o c i != -1) := by
        rw [Bool.eq_iff_iff, bne_iff_ne, bne_iff_ne, ne_eq, ne_eq, hindex c hc]
      simp only [Option.filter_some, hsame]

/-- An item is put into a cylinder, and nothing else. -/
structure Puts (o : Others σ) (h h' : Heap σ) (c : Cylinder) (item : Nat) : Prop where
  next : h'.next = h.next
  location : h'.location o = Function.update (h.location o) item (some c)
  id : ∀ i, (h'.object i).id = (h.object i).id
  count : ∀ i, h'.getItemCount i = h.getItemCount i

/-- An item gets a new number, and nothing else. -/
structure Recounts (o : Others σ) (h h' : Heap σ) (item : Nat) (n : BitVec 8) : Prop where
  next : h'.next = h.next
  parent : h'.parent = h.parent
  container : h'.container = h.container
  location : h'.location o = h.location o
  id : ∀ i, (h'.object i).id = (h.object i).id
  count : ∀ i, h'.getItemCount i = if i = item then n else h.getItemCount i

/-- An item that is no container is made, and nothing else. -/
structure Makes (o : Others σ) (h h' : Heap σ) (item : Nat) (id : BitVec 16) (n : BitVec 8) :
    Prop where
  fresh : item = h.next
  next : h'.next = h.next + 1
  parent : h'.parent = Function.update h.parent item none
  container : h'.container = h.container
  location : h'.location o = Function.update (h.location o) item none
  object : ∀ i, i ≠ item → h'.object i = h.object i
  id : (h'.object item).id = id
  count : h'.getItemCount item = n

/-! ## More units in some cylinders -/

/-- The cylinders hold that many more units of the item type together, nothing else of
theirs has changed, and neither have the other cylinders. -/
structure Accounted (o : Others σ) (h h' : Heap σ) (cylinders : Cylinder → Prop)
    (id : BitVec 16) (n : Nat) : Prop where
  inside : ∀ S, (∀ c, cylinders c → S c = true) → h'.holds o S id = h.holds o S id + n
  others : ∀ S id', id' ≠ id → h'.holds o S id' = h.holds o S id'
  outside : ∀ S id', (∀ c, cylinders c → S c = false) → h'.holds o S id' = h.holds o S id'

variable {P Q : Cylinder → Prop}

theorem Accounted.trans {m n : Nat} (hm : Accounted o h h' P id m) (hn : Accounted o h' h'' Q id n)
    (hQ : ∀ c, Q c → P c) : Accounted o h h'' P id (m + n) where
  inside S hS := by
    rw [hn.inside S fun c hc => hS c (hQ c hc), hm.inside S hS]
    omega
  others S id' hid := (hn.others S id' hid).trans (hm.others S id' hid)
  outside S id' hS := by
    rw [hn.outside S id' fun c hc => hS c (hQ c hc), hm.outside S id' hS]

theorem Accounted.mono {n : Nat} (hn : Accounted o h h' Q id n) (hQ : ∀ c, Q c → P c) :
    Accounted o h h' P id n where
  inside S hS := hn.inside S fun c hc => hS c (hQ c hc)
  others := hn.others
  outside S id' hS := hn.outside S id' fun c hc => hS c (hQ c hc)

end Infernum.Heap
