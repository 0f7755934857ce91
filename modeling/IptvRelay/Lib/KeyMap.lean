import Mathlib.Data.List.AList
import Mathlib.Data.List.MinMax

/-!
# Hash maps

A hash map is an association list without repeated keys; lookups, inserts and removals
are those of `AList`. Added here are the removal of all entries that fail a test and
the number of entries.
-/

namespace KeyMap

universe u v

variable {κ : Type u} {β : Type v}

/-- `HashMap::retain`. -/
def retain (p : β → Bool) (m : AList fun _ : κ => β) : AList fun _ : κ => β where
  entries := m.entries.filter fun entry => p entry.2
  nodupKeys := m.nodupKeys.sublist List.filter_sublist

/-- `HashMap::len`. -/
def size (m : AList fun _ : κ => β) : Nat := m.entries.length

theorem size_retain_le (p : β → Bool) (m : AList fun _ : κ => β) : size (retain p m) ≤ size m :=
  List.length_filter_le _ _

variable [DecidableEq κ] {p : β → Bool} {m : AList fun _ : κ => β} {key : κ} {value : β}

theorem lookup_retain_eq_some :
    (retain p m).lookup key = some value ↔ m.lookup key = some value ∧ p value = true := by
  rw [← Option.mem_def, ← Option.mem_def, AList.mem_lookup_iff, AList.mem_lookup_iff]
  simp [retain]

/-- An entry behind a removal is an entry with another key. -/
theorem lookup_erase_eq_some {other : κ} :
    (m.erase other).lookup key = some value ↔ key ≠ other ∧ m.lookup key = some value := by
  by_cases hkey : key = other
  · subst hkey
    simp
  · simp [AList.lookup_erase_ne hkey, hkey]

/-- An entry behind an insert is the new one or one with another key. -/
theorem lookup_insert_eq_some {other : κ} {new : β} :
    (m.insert other new).lookup key = some value ↔
      (key = other ∧ new = value) ∨ (key ≠ other ∧ m.lookup key = some value) := by
  by_cases hkey : key = other
  · subst hkey
    simp
  · simp [AList.lookup_insert_ne hkey, hkey]

omit [DecidableEq κ] in
theorem size_eq_keys (m : AList fun _ : κ => β) : size m = m.keys.length :=
  (List.length_map _).symm

theorem size_erase_le (other : κ) (m : AList fun _ : κ => β) : size (m.erase other) ≤ size m := by
  rw [size_eq_keys, size_eq_keys, AList.keys_erase]
  exact List.length_erase_le

theorem size_erase_of_mem (h : key ∈ m) : size (m.erase key) + 1 = size m := by
  rw [size_eq_keys, size_eq_keys, AList.keys_erase, List.length_erase_of_mem h]
  have hpos := List.length_pos_of_mem h
  omega

theorem size_insert_le (key : κ) (value : β) (m : AList fun _ : κ => β) :
    size (m.insert key value) ≤ size m + 1 := by
  rw [size_eq_keys, size_eq_keys, AList.keys_insert, List.length_cons]
  have hle : (m.keys.erase key).length ≤ m.keys.length := List.length_erase_le
  omega

end KeyMap
