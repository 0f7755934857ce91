import IptvRelay.Lib.Sorting

/-!
# The median by counting

Where the median of a list lies is told by how many elements lie below; the
order of the list does not matter.
-/

namespace Sorting

universe u

variable {α : Type u} [LinearOrder α]

/-- In a sorted list the elements of a lower set come first. -/
theorem getElem_mem_lower_iff {xs : List α} (hsorted : xs.Pairwise (· ≤ ·)) {p : α → Bool}
    (hlower : ∀ a b, a ≤ b → p b = true → p a = true) {k : Nat} (hk : k < xs.length) :
    p xs[k] = true ↔ k < xs.countP p := by
  induction xs generalizing k with
  | nil => cases hk
  | cons a rest ih =>
    obtain ⟨hhead, htail⟩ := List.pairwise_cons.mp hsorted
    cases ha : p a with
    | true =>
      rw [List.countP_cons_of_pos ha]
      cases k with
      | zero => simp [ha]
      | succ k =>
        rw [List.getElem_cons_succ, ih htail (Nat.lt_of_succ_lt_succ hk)]
        omega
    | false =>
      -- nothing behind the head is in the lower set
      have hnone : ∀ b ∈ a :: rest, ¬ p b = true := by
        intro b hb hpb
        rcases List.mem_cons.mp hb with rfl | hrest
        · simp [ha] at hpb
        · simp [hlower a b (hhead b hrest) hpb] at ha
      rw [List.countP_eq_zero.mpr hnone]
      exact iff_of_false (hnone _ (List.getElem_mem hk)) (Nat.not_lt_zero k)

/-- The element in the middle of the sorted list; of two, the upper one. -/
def median [Inhabited α] (xs : List α) : α := (sortBy id xs)[xs.length / 2]!

theorem median_eq_getElem [Inhabited α] {xs : List α} (hne : xs ≠ []) :
    ∃ hk : xs.length / 2 < (sortBy id xs).length, median xs = (sortBy id xs)[xs.length / 2] := by
  have hpos := List.length_pos_of_ne_nil hne
  have hk : xs.length / 2 < (sortBy id xs).length := by
    rw [(sortBy_perm id xs).length_eq]
    omega
  exact ⟨hk, getElem!_pos (sortBy id xs) _ hk⟩

theorem median_mem_lower_iff [Inhabited α] {xs : List α} (hne : xs ≠ []) {p : α → Bool}
    (hlower : ∀ a b, a ≤ b → p b = true → p a = true) :
    p (median xs) = true ↔ xs.length / 2 < xs.countP p := by
  obtain ⟨hk, hmedian⟩ := median_eq_getElem hne
  rw [hmedian, getElem_mem_lower_iff (sortBy_sorted id xs) hlower hk,
    (sortBy_perm id xs).countP_eq]

theorem median_mem [Inhabited α] {xs : List α} (hne : xs ≠ []) : median xs ∈ xs := by
  obtain ⟨hk, hmedian⟩ := median_eq_getElem hne
  rw [hmedian]
  exact (sortBy_perm id xs).mem_iff.mp (List.getElem_mem hk)

/-- More than half of the list is at most `hi` and at most half of it is below `lo`. -/
def CentredIn (lo hi : α) (xs : List α) : Prop :=
  xs.countP (fun x => x < lo) ≤ xs.length / 2 ∧ xs.length / 2 < xs.countP (fun x => x ≤ hi)

instance (lo hi : α) (xs : List α) : Decidable (CentredIn lo hi xs) :=
  inferInstanceAs (Decidable (_ ∧ _))

theorem centredIn_iff [Inhabited α] {xs : List α} (hne : xs ≠ []) (lo hi : α) :
    CentredIn lo hi xs ↔ lo ≤ median xs ∧ median xs ≤ hi := by
  have hbelow := median_mem_lower_iff hne (p := fun x => x < lo)
    fun a b hab hb => by simpa using lt_of_le_of_lt hab (by simpa using hb)
  have hatMost := median_mem_lower_iff hne (p := fun x => x ≤ hi)
    fun a b hab hb => by simpa using le_trans hab (by simpa using hb)
  rw [CentredIn, ← hatMost, ← not_lt, ← hbelow]
  simp

end Sorting
