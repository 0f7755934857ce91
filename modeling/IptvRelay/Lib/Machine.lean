import Mathlib.Logic.Function.Basic
import Mathlib.Data.List.Basic

/-!
# Labelled machines and their runs

A machine has one start state and a partial step function. Every choice that a
scheduler or an environment makes is part of the label, so a run is a list of
labels and can be evaluated. Safety results quantify over the reachable states;
`ReachableWhere ok` keeps only the runs whose steps all satisfy `ok` in the
state they start from.
-/

namespace Transition

universe u v

/-- A machine whose labels resolve every choice; `none` means not enabled. -/
structure Machine (σ : Type u) (ℓ : Type v) where
  start : σ
  step : σ → ℓ → Option σ

namespace Machine

variable {σ : Type u} {ℓ : Type v} (M : Machine σ ℓ)

/-- Execute a list of labels, checking the side condition before each step. -/
def runWhere (okb : σ → ℓ → Bool) (s : σ) : List ℓ → Option σ
  | [] => some s
  | a :: as => if okb s a then (M.step s a).bind fun t => runWhere okb t as else none

/-- Execute a list of labels from the start state. -/
def run (as : List ℓ) : Option σ := M.runWhere (fun _ _ => true) M.start as

/-- States reached by runs whose steps all satisfy `ok`. -/
inductive ReachableWhere (ok : σ → ℓ → Prop) : σ → Prop where
  | start : ReachableWhere ok M.start
  | step {s t : σ} {a : ℓ} :
      ReachableWhere ok s → ok s a → M.step s a = some t → ReachableWhere ok t

/-- States reached by any run. -/
abbrev Reachable : σ → Prop := M.ReachableWhere fun _ _ => True

/-- States that a run from `s` can still reach, all of its steps satisfying `ok`. -/
inductive LeadsWhere (ok : σ → ℓ → Prop) (s : σ) : σ → Prop where
  | refl : LeadsWhere ok s s
  | step {t u : σ} {a : ℓ} :
      LeadsWhere ok s t → ok t a → M.step t a = some u → LeadsWhere ok s u

variable {M} {ok : σ → ℓ → Prop}

/-- A predicate that holds initially and survives every admitted step is an invariant. -/
theorem ReachableWhere.invariant {I : σ → Prop} (base : I M.start)
    (preserved : ∀ s a t, I s → ok s a → M.step s a = some t → I t) {s : σ}
    (h : M.ReachableWhere ok s) : I s := by
  induction h with
  | start => exact base
  | step _ hok hstep ih => exact preserved _ _ _ ih hok hstep

/-- Restricting the steps only removes runs. -/
theorem ReachableWhere.mono {ok' : σ → ℓ → Prop} (sub : ∀ s a, ok s a → ok' s a) {s : σ}
    (h : M.ReachableWhere ok s) : M.ReachableWhere ok' s := by
  induction h with
  | start => exact .start
  | step _ hok hstep ih => exact .step ih (sub _ _ hok) hstep

theorem ReachableWhere.reachable {s : σ} (h : M.ReachableWhere ok s) : M.Reachable s :=
  h.mono fun _ _ _ => trivial

theorem ReachableWhere.leads {s t : σ} (h : M.ReachableWhere ok s)
    (path : M.LeadsWhere ok s t) : M.ReachableWhere ok t := by
  induction path with
  | refl => exact h
  | step _ hok hstep ih => exact .step ih hok hstep

/-- A relation to a fixed state that is reflexive there and survives every admitted step
from the reachable states relates the whole future of that state. -/
theorem LeadsWhere.relates {R : σ → Prop} {s t : σ} (reach : M.ReachableWhere ok s)
    (path : M.LeadsWhere ok s t) (base : R s)
    (preserved : ∀ t a u, M.ReachableWhere ok t → R t → ok t a → M.step t a = some u → R u) :
    R t := by
  induction path with
  | refl => exact base
  | step before hok hstep ih => exact preserved _ _ _ (reach.leads before) ih hok hstep

/-- Evaluating a checked run exhibits a reachable state. -/
theorem ReachableWhere.of_runWhere {s t : σ} (h : M.ReachableWhere ok s) {okb : σ → ℓ → Bool}
    (sound : ∀ s a, M.Reachable s → okb s a = true → ok s a) {as : List ℓ}
    (hrun : M.runWhere okb s as = some t) : M.ReachableWhere ok t := by
  induction as generalizing s with
  | nil =>
    cases hrun
    exact h
  | cons a as ih =>
    simp only [runWhere] at hrun
    split at hrun
    · rename_i hok
      obtain ⟨u, hu, hrest⟩ := Option.bind_eq_some_iff.mp hrun
      exact ih (.step h (sound _ _ h.reachable hok) hu) hrest
    · cases hrun

theorem LeadsWhere.of_runWhere {s t : σ} (h : M.LeadsWhere ok s t) {okb : σ → ℓ → Bool}
    (sound : ∀ s a, okb s a = true → ok s a) {as : List ℓ} {u : σ}
    (hrun : M.runWhere okb t as = some u) : M.LeadsWhere ok s u := by
  induction as generalizing t with
  | nil =>
    cases hrun
    exact h
  | cons a as ih =>
    simp only [runWhere] at hrun
    split at hrun
    · rename_i hok
      obtain ⟨v, hv, hrest⟩ := Option.bind_eq_some_iff.mp hrun
      exact ih (.step h (sound _ _ hok) hv) hrest
    · cases hrun

variable (M) (ok)

/-- A decidable property of the final state of a checked run holds of a reachable state. -/
theorem exists_reachableWhere_of_run (okb : σ → ℓ → Bool) (as : List ℓ) (p : σ → Bool)
    (sound : ∀ s a, M.Reachable s → okb s a = true → ok s a)
    (h : (M.runWhere okb M.start as).any p = true) : ∃ s, M.ReachableWhere ok s ∧ p s = true := by
  obtain ⟨s, hrun, hp⟩ := (Option.any_eq_true _ _).mp h
  exact ⟨s, ReachableWhere.start.of_runWhere sound hrun, hp⟩

/-- The same for a checked run in two parts, of the states after each of them. -/
theorem exists_leadsWhere_of_run (okb : σ → ℓ → Bool) (as bs : List ℓ) (p : σ → σ → Bool)
    (sound : ∀ s a, okb s a = true → ok s a)
    (h : (M.runWhere okb M.start as).any (fun s => (M.runWhere okb s bs).any (p s)) = true) :
    ∃ s t, M.ReachableWhere ok s ∧ M.LeadsWhere ok s t ∧ p s t = true := by
  obtain ⟨s, hrun, hrest⟩ := (Option.any_eq_true _ _).mp h
  obtain ⟨t, hrun', hp⟩ := (Option.any_eq_true _ _).mp hrest
  exact ⟨s, t, ReachableWhere.start.of_runWhere (fun s a _ => sound s a) hrun,
    LeadsWhere.refl.of_runWhere sound hrun', hp⟩

theorem exists_reachable_of_run (as : List ℓ) (p : σ → Bool)
    (h : (M.run as).any p = true) : ∃ s, M.Reachable s ∧ p s = true :=
  M.exists_reachableWhere_of_run _ _ as p (fun _ _ _ _ => trivial) h

end Machine

end Transition
