import Mathlib.Order.Lattice
import Mathlib.Order.MinMax
import Mathlib.Tactic.SplitIfs

/-!
# Time on a circle

A clock of `m` ticks shows readings below `m`. Of two readings the one that is less
than half a round ahead counts as the later one. That order is not transitive, but it
is the order of the line for readings that lie within half a round of a common
reading.
-/

namespace Circular

/-- How far the reading `b` is ahead of the reading `a`. -/
def ahead (m a b : Nat) : Nat := if a ≤ b then b - a else b + m - a

/-- The later of two readings. -/
def later (m a b : Nat) : Nat := if ahead m b a < m / 2 then a else b

variable {m a b c r : Nat}

theorem ahead_lt (ha : a < m) (hb : b < m) : ahead m a b < m := by
  unfold ahead
  split_ifs <;> omega

theorem ahead_add (ha : a < m) (hb : b < m) (h : ahead m a b + ahead m b c < m) :
    ahead m a c = ahead m a b + ahead m b c := by
  unfold ahead at h ⊢
  split_ifs at h ⊢ <;> omega

/-- Seen from a common reading, distances subtract. -/
theorem ahead_sub (hr : r < m) (ha : a < m) (hb : b < m) (h : ahead m r a ≤ ahead m r b) :
    ahead m a b = ahead m r b - ahead m r a := by
  unfold ahead at h ⊢
  split_ifs at h ⊢ <;> omega

/-- The reading that is `d` ticks ahead. -/
theorem ahead_mod (ha : a < m) {d : Nat} (hd : d < m) : ahead m a ((a + d) % m) = d := by
  rcases Nat.lt_or_ge (a + d) m with h | h
  · rw [Nat.mod_eq_of_lt h, ahead, if_pos (by omega)]
    omega
  · rw [Nat.mod_eq_sub_mod h, Nat.mod_eq_of_lt (by omega), ahead]
    split_ifs <;> omega

/-- Between two positions on the line that are less than a round apart. -/
theorem ahead_positions {p q : Nat} (hm : 0 < m) (hle : p ≤ q) (hnear : q < p + m) :
    ahead m (p % m) (q % m) = q - p := by
  have hq : q % m = (p % m + (q - p)) % m := by
    rw [Nat.mod_add_mod, Nat.add_sub_cancel' hle]
  rw [hq, ahead_mod (Nat.mod_lt _ hm) (by omega)]

/-- A position on the line shows the reading it is measured to. -/
theorem add_ahead_mod (ha : a < m) (hb : b < m) : (a + ahead m a b) % m = b := by
  unfold ahead
  split_ifs with h
  · rw [Nat.add_sub_cancel' h, Nat.mod_eq_of_lt hb]
  · rw [show a + (b + m - a) = b + m by omega, Nat.add_mod_right, Nat.mod_eq_of_lt hb]

theorem later_eq_right (ha : a < m) (hb : b < m) (h : ahead m a b ≤ m / 2) : later m a b = b := by
  unfold later ahead at *
  split_ifs at h ⊢ <;> omega

/-- Within half a round of a common reading the later one is the one further ahead. -/
theorem ahead_later (hr : r < m) (ha : a < m) (hb : b < m) (hra : ahead m r a < m / 2)
    (hrb : ahead m r b < m / 2) : ahead m r (later m a b) = max (ahead m r a) (ahead m r b) := by
  rcases le_total (ahead m r a) (ahead m r b) with h | h
  · rw [max_eq_right h, later_eq_right ha hb (by rw [ahead_sub hr ha hb h]; omega)]
  · rw [max_eq_left h, later, if_pos (by rw [ahead_sub hr hb ha h]; omega)]

end Circular
