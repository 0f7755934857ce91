import Mathlib.Data.List.MinMax

/-!
# Keeping the best so far

A loop that keeps the better of what it has and what it meets. If the comparison is the strict
order of a rank on the elements of the list, the loop finds the first element of least rank, and
the order of the list matters only among elements of one rank.
-/

namespace RunningBest

universe u v

variable {α : Type u} {κ : Type v} [LinearOrder κ] {better : α → α → Bool} {rank : α → κ}
  {xs ys : List α}

def keep (better : α → α → Bool) (best : Option α) (entry : α) : Option α :=
  if best.all (better entry) then some entry else best

def run (better : α → α → Bool) (xs : List α) : Option α := xs.foldl (keep better) none

theorem run_concat (xs : List α) (entry : α) :
    run better (xs ++ [entry]) = keep better (run better xs) entry := by
  rw [run, List.foldl_concat]
  rfl

theorem run_eq_argmin (h : ∀ a ∈ xs, ∀ b ∈ xs, better a b = true ↔ rank a < rank b) :
    run better xs = xs.argmin rank := by
  induction xs using List.reverseRecOn with
  | nil => rfl
  | append_singleton xs entry ih =>
    have hpast : ∀ a ∈ xs, ∀ b ∈ xs, better a b = true ↔ rank a < rank b := fun a ha b hb =>
      h a (List.mem_append_left _ ha) b (List.mem_append_left _ hb)
    rw [run_concat, ih hpast, List.argmin_concat, keep]
    cases hbest : xs.argmin rank with
    | none => rfl
    | some best =>
      have hmem := List.mem_append_left [entry] (List.argmin_mem hbest)
      have hentry := h entry (List.mem_append_right _ List.mem_cons_self) best hmem
      by_cases hrank : rank entry < rank best
      · simp [hentry.mpr hrank, hrank]
      · simp [mt hentry.mp hrank, hrank]

theorem isSome_argmin : (xs.argmin rank).isSome = true ↔ xs ≠ [] := by
  rw [← not_iff_not, Option.not_isSome_iff_eq_none, List.argmin_eq_none, not_not]

/-- Elements that their ranks determine have one best. -/
theorem argmin_eq_of_perm (hperm : xs.Perm ys)
    (hrank : ∀ a ∈ xs, ∀ b ∈ xs, rank a = rank b → a = b) : xs.argmin rank = ys.argmin rank := by
  cases hx : xs.argmin rank with
  | none =>
    rw [List.argmin_eq_none] at hx
    subst hx
    rw [List.nil_perm.mp hperm]
    rfl
  | some a =>
    cases hy : ys.argmin rank with
    | none =>
      rw [List.argmin_eq_none] at hy
      subst hy
      rw [List.perm_nil.mp hperm] at hx
      cases hx
    | some b =>
      have ha := List.argmin_mem hx
      have hb := hperm.mem_iff.mpr (List.argmin_mem hy)
      have hab : rank a ≤ rank b := List.le_of_mem_argmin hb hx
      have hba : rank b ≤ rank a := List.le_of_mem_argmin (hperm.mem_iff.mp ha) hy
      rw [hrank a ha b hb (le_antisymm hab hba)]

end RunningBest
