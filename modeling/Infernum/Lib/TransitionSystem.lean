import Mathlib.Logic.Relation

/-!
# Labelled transition systems and guarded runs

A system is a set of initial states and a labelled step relation. A *guard*
selects the steps a run may take; `Reach` collects the states of all runs
whose every step meets the guard. One induction rule (`Inductive.invariant`)
serves every safety theorem stated over a system.
-/

namespace Infernum.Lib

/-- A labelled transition system. -/
structure TSys (σ : Type*) (ι : Type*) where
  init : σ → Prop
  step : σ → ι → σ → Prop

namespace TSys

variable {σ ι : Type*} (M : TSys σ ι) (C : σ → ι → Prop)

/-- States reached by runs all of whose steps meet the guard `C`. -/
inductive Reach : σ → Prop
  | start {s} : M.init s → Reach s
  | next {s a t} : Reach s → C s a → M.step s a t → Reach t

/-- States reached by any run. -/
abbrev Reachable : σ → Prop := M.Reach fun _ _ => True

/-- `P` holds initially and is preserved by every guarded step. -/
structure Inductive (P : σ → Prop) : Prop where
  init : ∀ s, M.init s → P s
  step : ∀ s a t, P s → C s a → M.step s a t → P t

variable {M C}

/-- The run rule: an inductive property holds in every state of every
guarded run. -/
theorem Inductive.invariant {P : σ → Prop} (ind : M.Inductive C P) {s : σ}
    (hreach : M.Reach C s) : P s := by
  induction hreach with
  | start hinit => exact ind.init _ hinit
  | next _ hguard hstep ih => exact ind.step _ _ _ ih hguard hstep

/-- A stronger guard reaches fewer states. -/
theorem Reach.mono {C' : σ → ι → Prop} (hC : ∀ s a, C s a → C' s a) {s : σ}
    (hreach : M.Reach C s) : M.Reach C' s := by
  induction hreach with
  | start hinit => exact .start hinit
  | next _ hguard hstep ih => exact .next ih (hC _ _ hguard) hstep

/-- The run over some labels where the step is a function, as long as every
step meets a guard. -/
def runGuarded (step : σ → ι → Option σ) (C : σ → ι → Prop) [∀ s a, Decidable (C s a)] :
    σ → List ι → Option σ
  | s, [] => some s
  | s, a :: labels =>
      if C s a then (step s a).bind fun t => runGuarded step C t labels else none

theorem Reach.runGuarded {step : σ → ι → Option σ} [∀ s a, Decidable (C s a)]
    (hM : ∀ s a t, step s a = some t → M.step s a t) {s t : σ} {labels : List ι}
    (hs : M.Reach C s) (h : TSys.runGuarded step C s labels = some t) : M.Reach C t := by
  induction labels generalizing s with
  | nil =>
      cases h
      exact hs
  | cons a labels ih =>
      rw [TSys.runGuarded] at h
      split at h
      · rename_i hguard
        obtain ⟨mid, hmid, hrest⟩ := Option.bind_eq_some_iff.mp h
        exact ih (.next hs hguard (hM s a mid hmid)) hrest
      · cases h

end TSys

end Infernum.Lib
