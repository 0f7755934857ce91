import IptvRelay.Lib.Blocks

/-!
# The complete blocks of a growing list

A buffer that is filled by chunks of any size hands on its complete blocks and
keeps the shorter tail. The blocks handed on and those still to come are the
blocks of the whole list.
-/

namespace Blocks

universe u

variable {α : Type u} {n : Nat}

/-- The length of the complete blocks of a list. -/
def alignedLength (n : Nat) (bs : List α) : Nat := bs.length / n * n

theorem alignedLength_le (n : Nat) (bs : List α) : alignedLength n bs ≤ bs.length :=
  Nat.div_mul_le_self _ _

theorem dvd_alignedLength (n : Nat) (bs : List α) : n ∣ alignedLength n bs :=
  Nat.dvd_mul_left _ _

theorem length_take_aligned (n : Nat) (bs : List α) :
    (bs.take (alignedLength n bs)).length = alignedLength n bs :=
  List.length_take_of_le (alignedLength_le n bs)

/-- What is left behind the complete blocks is shorter than one block. -/
theorem length_drop_aligned_lt (hn : 0 < n) (bs : List α) :
    (bs.drop (alignedLength n bs)).length < n := by
  have hmod := Nat.mod_lt bs.length hn
  have hsplit := Nat.div_add_mod' bs.length n
  rw [List.length_drop, alignedLength]
  omega

theorem alignedLength_eq_zero {bs : List α} (h : bs.length < n) : alignedLength n bs = 0 := by
  rw [alignedLength, Nat.div_eq_of_lt h, Nat.zero_mul]

theorem chunksExact_eq_nil {bs : List α} (h : bs.length < n) : chunksExact n bs = [] := by
  rw [chunksExact, Nat.div_eq_of_lt h, List.range_zero, List.map_nil]

theorem blockAt_append_left {a : List α} {i : Nat} (h : i * n + n ≤ a.length) (b : List α) :
    blockAt n (a ++ b) i = blockAt n a i := by
  rw [blockAt, blockAt, List.drop_append_of_le_length (by omega),
    List.take_append_of_le_length (by rw [List.length_drop]; omega)]

theorem blockAt_append_right {a : List α} {q : Nat} (h : a.length = q * n) (b : List α) (i : Nat) :
    blockAt n (a ++ b) (q + i) = blockAt n b i := by
  rw [blockAt, blockAt, Nat.add_mul, ← h, List.drop_length_add_append]

/-- The blocks of an aligned list come first. -/
theorem chunksExact_append (hn : 0 < n) {a : List α} (h : n ∣ a.length) (b : List α) :
    chunksExact n (a ++ b) = chunksExact n a ++ chunksExact n b := by
  obtain ⟨q, hq⟩ := h
  have hlen : a.length = q * n := by rw [hq, Nat.mul_comm]
  have hdiv : (a ++ b).length / n = q + b.length / n := by
    rw [List.length_append, hq, Nat.mul_add_div hn]
  have hdiva : a.length / n = q := by rw [hlen, Nat.mul_div_cancel _ hn]
  rw [chunksExact, chunksExact, chunksExact, hdiv, hdiva, List.range_add, List.map_append,
    List.map_map]
  congr 1
  · refine List.map_congr_left fun i hi => blockAt_append_left ?_ b
    rw [hlen]
    exact block_fits (List.mem_range.mp hi)
  · exact List.map_congr_left fun i _ => blockAt_append_right hlen b i

/-- The complete blocks and the tail: the tail has no block of its own. -/
theorem chunksExact_take_aligned (hn : 0 < n) (bs : List α) :
    chunksExact n (bs.take (alignedLength n bs)) = chunksExact n bs := by
  conv_rhs => rw [← List.take_append_drop (alignedLength n bs) bs]
  rw [chunksExact_append hn (by rw [length_take_aligned]; exact dvd_alignedLength n bs),
    chunksExact_eq_nil (length_drop_aligned_lt hn bs), List.append_nil]

/-- The blocks put together are the aligned prefix. -/
theorem flatten_chunksExact_aligned (n : Nat) (bs : List α) :
    (chunksExact n bs).flatten = bs.take (alignedLength n bs) :=
  flatten_map_blockAt n _ bs

/-- Handing on the complete blocks early does not change the blocks of the whole. -/
theorem chunksExact_handover (hn : 0 < n) (a b : List α) :
    chunksExact n (a ++ b) =
      chunksExact n a ++ chunksExact n (a.drop (alignedLength n a) ++ b) := by
  have hsplit : a ++ b =
      a.take (alignedLength n a) ++ (a.drop (alignedLength n a) ++ b) := by
    rw [← List.append_assoc, List.take_append_drop]
  conv_lhs => rw [hsplit]
  rw [chunksExact_append hn (by rw [length_take_aligned]; exact dvd_alignedLength n a),
    chunksExact_take_aligned hn]

/-- The aligned prefix of the whole, by what was handed on and what is still there. -/
theorem take_handover (hn : 0 < n) (a b : List α) :
    (a ++ b).take (alignedLength n (a ++ b)) = a.take (alignedLength n a) ++
      (a.drop (alignedLength n a) ++ b).take
        (alignedLength n (a.drop (alignedLength n a) ++ b)) := by
  rw [← flatten_chunksExact_aligned, ← flatten_chunksExact_aligned, ← flatten_chunksExact_aligned,
    chunksExact_handover hn, List.flatten_append]

theorem drop_handover (hn : 0 < n) (a b : List α) :
    (a ++ b).drop (alignedLength n (a ++ b)) = (a.drop (alignedLength n a) ++ b).drop
      (alignedLength n (a.drop (alignedLength n a) ++ b)) := by
  have hwhole := List.take_append_drop (alignedLength n (a ++ b)) (a ++ b)
  have hpart := List.take_append_drop (alignedLength n (a.drop (alignedLength n a) ++ b))
    (a.drop (alignedLength n a) ++ b)
  rw [take_handover hn, List.append_assoc] at hwhole
  have hsplit : a ++ b =
      a.take (alignedLength n a) ++ (a.drop (alignedLength n a) ++ b) := by
    rw [← List.append_assoc, List.take_append_drop]
  rw [hsplit] at hwhole
  have htail := List.append_cancel_left hwhole
  rw [← hsplit] at htail
  exact List.append_cancel_left (htail.trans hpart.symm)

/-- An element of a concatenation with its predecessors: it is in the second part or the first. -/
theorem append_eq_split {a b good more : List α} {bad : α} (h : a ++ b = good ++ bad :: more) :
    (∃ later, good = a ++ later ∧ b = later ++ bad :: more) ∨
      ∃ rest, a = good ++ bad :: rest := by
  rcases List.append_eq_append_iff.mp h with ⟨later, hgood, hb⟩ | ⟨left, ha, hmore⟩
  · exact .inl ⟨later, hgood, hb⟩
  · cases left with
    | nil => exact .inl ⟨[], by simpa using ha.symm, by simpa using hmore.symm⟩
    | cons first left =>
      rw [List.cons_append, List.cons.injEq] at hmore
      exact .inr ⟨left, by rw [ha, hmore.1]⟩

end Blocks
