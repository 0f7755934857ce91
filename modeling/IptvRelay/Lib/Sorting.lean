import Mathlib.Data.List.Nodup
import Mathlib.Data.List.Sort

/-!
# Sorting by a key

A stable sort by a key in a linear order. The order of the input can matter only among
elements with one key, so what is a function of the key alone never depends on it.
-/

namespace Sorting

universe u v w

variable {α : Type u} {κ : Type v} [LinearOrder κ] {key : α → κ} {xs ys : List α}

def sortBy (key : α → κ) (xs : List α) : List α :=
  xs.insertionSort fun a b => key a ≤ key b

theorem sortBy_perm (key : α → κ) (xs : List α) : (sortBy key xs).Perm xs :=
  List.perm_insertionSort _ xs

theorem sortBy_sorted (key : α → κ) (xs : List α) :
    (sortBy key xs).Pairwise fun a b => key a ≤ key b := by
  have : IsTrans α fun a b => key a ≤ key b := ⟨fun _ _ _ => le_trans⟩
  have : Std.Total fun a b : α => key a ≤ key b := ⟨fun a b => le_total (key a) (key b)⟩
  exact List.pairwise_insertionSort _ xs

/-- Elements that their keys determine have one sorted order. -/
theorem sortBy_eq_of_perm (hperm : xs.Perm ys)
    (hkey : ∀ a ∈ xs, ∀ b ∈ xs, key a = key b → a = b) : sortBy key xs = sortBy key ys := by
  have hboth : (sortBy key xs).Perm (sortBy key ys) :=
    ((sortBy_perm key xs).trans hperm).trans (sortBy_perm key ys).symm
  refine hboth.eq_of_pairwise ?_ (sortBy_sorted key xs) (sortBy_sorted key ys)
  intro a b ha hb hab hba
  have ha' := (sortBy_perm key xs).mem_iff.mp ha
  have hb' := hperm.mem_iff.mpr ((sortBy_perm key ys).mem_iff.mp hb)
  exact hkey a ha' b hb' (le_antisymm hab hba)

/-- A function of the key sees the sorted keys. -/
theorem map_sortBy {β : Type w} (f : κ → β) (xs : List α) :
    (sortBy key xs).map (fun a => f (key a)) = (sortBy id (xs.map key)).map f := by
  have hkeys : (sortBy key xs).map key = sortBy id (xs.map key) :=
    List.map_insertionSort _ _ key xs fun _ _ _ _ => Iff.rfl
  rw [← hkeys, List.map_map]
  rfl

theorem map_sortBy_eq_of_perm {β : Type w} (f : κ → β) (hperm : xs.Perm ys) :
    (sortBy key xs).map (fun a => f (key a)) = (sortBy key ys).map fun a => f (key a) := by
  have hsorted : sortBy id (xs.map key) = sortBy id (ys.map key) :=
    sortBy_eq_of_perm (hperm.map key) fun _ _ _ _ h => h
  rw [map_sortBy, map_sortBy, hsorted]

/-- Distinct keys are sorted strictly. -/
theorem sortBy_strict (h : (xs.map key).Nodup) :
    (sortBy key xs).Pairwise fun a b => key a < key b := by
  have hnodup : ((sortBy key xs).map key).Nodup :=
    ((sortBy_perm key xs).map key).nodup_iff.mpr h
  refine ((sortBy_sorted key xs).and (List.pairwise_map.mp hnodup)).imp ?_
  exact fun hboth => lt_of_le_of_ne hboth.1 hboth.2

/-- In a strictly sorted list, the smaller key is in front. -/
theorem lt_iff_of_strict (h : xs.Pairwise fun a b => key a < key b) {i j : Nat} {a b : α}
    (ha : xs[i]? = some a) (hb : xs[j]? = some b) : i < j ↔ key a < key b := by
  obtain ⟨hi, rfl⟩ := List.getElem?_eq_some_iff.mp ha
  obtain ⟨hj, rfl⟩ := List.getElem?_eq_some_iff.mp hb
  have hsorted := List.pairwise_iff_getElem.mp h
  constructor
  · exact hsorted i j hi hj
  · intro hlt
    by_contra hge
    rcases Nat.lt_or_eq_of_le (Nat.le_of_not_lt hge) with hji | rfl
    · exact lt_asymm hlt (hsorted j i hj hi hji)
    · exact lt_irrefl _ hlt

/-- The only strictly sorted order. -/
theorem sortBy_eq_of_strict (hperm : xs.Perm ys) (h : ys.Pairwise fun a b => key a < key b) :
    sortBy key xs = ys := by
  have hboth : (sortBy key xs).Perm ys := (sortBy_perm key xs).trans hperm
  refine hboth.eq_of_pairwise ?_ (sortBy_sorted key xs) (h.imp le_of_lt)
  intro a b ha hb hab hba
  have hsame : key a = key b := le_antisymm hab hba
  have hnodup : (ys.map key).Nodup := List.pairwise_map.mpr (h.imp ne_of_lt)
  exact List.inj_on_of_nodup_map hnodup (hboth.mem_iff.mp ha) hb hsame

end Sorting
