import Mathlib.Data.List.Count
import Mathlib.Data.List.Nodup
import Mathlib.Logic.Function.Basic

/-!
# Occurrences in a list

Each element of a list with the number of times that it came before. Names that are made from an
element and this number are distinct as long as names of different occurrences are.
-/

namespace Occurrences

universe u v

variable {α : Type u} [DecidableEq α]

/-- The elements with the numbers of their earlier occurrences, behind `seen` ones. -/
def numberedFrom (seen : α → Nat) : List α → List (α × Nat)
  | [] => []
  | a :: rest => (a, seen a) :: numberedFrom (Function.update seen a (seen a + 1)) rest

theorem mem_numberedFrom {seen : α → Nat} {xs : List α} {a : α} {k : Nat} :
    (a, k) ∈ numberedFrom seen xs ↔ seen a ≤ k ∧ k < seen a + xs.count a := by
  induction xs generalizing seen with
  | nil =>
    rw [numberedFrom, List.count_nil, Nat.add_zero]
    exact ⟨nofun, fun h => absurd h.2 (Nat.not_lt.mpr h.1)⟩
  | cons b rest ih =>
    rw [numberedFrom, List.mem_cons, ih, List.count_cons, Prod.mk.injEq]
    by_cases hab : a = b
    · subst hab
      rw [Function.update_self]
      simp only [true_and, beq_self_eq_true, if_true]
      omega
    · rw [Function.update_of_ne hab]
      simp [hab, Ne.symm hab]

theorem nodup_numberedFrom (seen : α → Nat) (xs : List α) : (numberedFrom seen xs).Nodup := by
  induction xs generalizing seen with
  | nil => exact List.nodup_nil
  | cons a rest ih =>
    refine List.nodup_cons.mpr ⟨fun hmem => ?_, ih _⟩
    have hle := (mem_numberedFrom.mp hmem).1
    rw [Function.update_self] at hle
    omega

/-- Names are distinct when no two occurrences share one. -/
theorem nodup_map_numberedFrom_iff {β : Type v} (name : α × Nat → β) (xs : List α) :
    ((numberedFrom (fun _ => 0) xs).map name).Nodup ↔
      ∀ a k b l, k < xs.count a → l < xs.count b → name (a, k) = name (b, l) → (a, k) = (b, l) := by
  rw [List.nodup_map_iff_inj_on (nodup_numberedFrom _ xs)]
  constructor
  · intro h a k b l hk hl
    exact h _ (mem_numberedFrom.mpr (by omega)) _ (mem_numberedFrom.mpr (by omega))
  · intro h x hx y hy
    exact h x.1 x.2 y.1 y.2 (by simpa using (mem_numberedFrom.mp hx).2)
      (by simpa using (mem_numberedFrom.mp hy).2)

end Occurrences
