import Mathlib.Data.List.Basic
import Mathlib.Tactic

/-!
# Fixed-size blocks in a flat list

A buffer of `m` blocks of `n` elements is kept as one flat list. Block `i` is the
slice `[i * n, i * n + n)`; writing a block replaces exactly that slice. The last
section numbers an unbounded stream of blocks and keeps the newest ones in slots
modulo the capacity.
-/

namespace Blocks

universe u

variable {α : Type u}

/-! ## Reading and writing one block -/

/-- The slice of `n` elements that starts at `i * n`. -/
def blockAt (n : Nat) (buf : List α) (i : Nat) : List α := (buf.drop (i * n)).take n

/-- Overwrite the slice that starts at `i * n` by `blk`. -/
def setBlock (n : Nat) (buf : List α) (i : Nat) (blk : List α) : List α :=
  buf.take (i * n) ++ blk ++ buf.drop (i * n + n)

/-- The complete blocks of a list; a shorter tail is dropped. -/
def chunksExact (n : Nat) (bs : List α) : List (List α) :=
  (List.range (bs.length / n)).map (blockAt n bs)

theorem block_fits {n m i : Nat} (hi : i < m) : i * n + n ≤ m * n := by
  calc i * n + n = (i + 1) * n := by rw [Nat.succ_mul]
    _ ≤ m * n := Nat.mul_le_mul_right n hi

theorem length_blockAt {n m i : Nat} {buf : List α} (hbuf : buf.length = m * n) (hi : i < m) :
    (blockAt n buf i).length = n := by
  have := block_fits (n := n) hi
  simp only [blockAt, List.length_take, List.length_drop]
  omega

theorem length_setBlock {n m i : Nat} {buf blk : List α} (hbuf : buf.length = m * n)
    (hblk : blk.length = n) (hi : i < m) : (setBlock n buf i blk).length = m * n := by
  have := block_fits (n := n) hi
  simp only [setBlock, List.length_append, List.length_take, List.length_drop]
  omega

theorem blockAt_setBlock_self {n m i : Nat} {buf blk : List α} (hbuf : buf.length = m * n)
    (hblk : blk.length = n) (hi : i < m) : blockAt n (setBlock n buf i blk) i = blk := by
  have hfit := block_fits (n := n) hi
  have hlen : (buf.take (i * n)).length = i * n := by simp; omega
  rw [blockAt, setBlock, List.append_assoc, List.drop_append_of_le_length hlen.ge,
    List.drop_of_length_le hlen.le, List.nil_append, List.take_append_of_le_length hblk.ge,
    List.take_of_length_le hblk.le]

theorem getElem?_blockAt (n : Nat) (buf : List α) (i k : Nat) :
    (blockAt n buf i)[k]? = if k < n then buf[i * n + k]? else none := by
  simp only [blockAt, List.getElem?_take, List.getElem?_drop]

theorem getElem?_setBlock {n m i : Nat} {buf blk : List α} (hbuf : buf.length = m * n)
    (hblk : blk.length = n) (hi : i < m) {k : Nat} (hk : k < i * n ∨ i * n + n ≤ k) :
    (setBlock n buf i blk)[k]? = buf[k]? := by
  have hfit := block_fits (n := n) hi
  have hlen : (buf.take (i * n)).length = i * n := by simp; omega
  rw [setBlock, List.append_assoc, List.getElem?_append]
  split
  · rename_i hlt
    rw [List.getElem?_take, if_pos (by omega)]
  · rename_i hge
    rw [List.getElem?_append_right (by omega), List.getElem?_drop]
    congr 1
    omega

/-- Writing one block leaves every other block unchanged. -/
theorem blockAt_setBlock_ne {n m i j : Nat} {buf blk : List α} (hbuf : buf.length = m * n)
    (hblk : blk.length = n) (hi : i < m) (hne : j ≠ i) :
    blockAt n (setBlock n buf i blk) j = blockAt n buf j := by
  apply List.ext_getElem?
  intro k
  rw [getElem?_blockAt, getElem?_blockAt]
  split
  · rename_i hk
    apply getElem?_setBlock hbuf hblk hi
    rcases Nat.lt_or_gt_of_ne hne with hlt | hgt
    · left
      have := block_fits (n := n) hlt
      omega
    · right
      have := block_fits (n := n) hgt
      omega
  · rfl

/-! ## Splitting a list into blocks -/

theorem length_chunksExact (n : Nat) (bs : List α) : (chunksExact n bs).length = bs.length / n := by
  simp [chunksExact]

/-- A single block is its own only block. -/
theorem chunksExact_of_length {n : Nat} {bs : List α} (hn : 0 < n) (h : bs.length = n) :
    chunksExact n bs = [bs] := by
  simp [chunksExact, blockAt, h, Nat.div_self hn, List.take_of_length_le h.le]

theorem length_of_mem_chunksExact {n : Nat} {bs blk : List α} (h : blk ∈ chunksExact n bs) :
    blk.length = n := by
  simp only [chunksExact, List.mem_map, List.mem_range] at h
  obtain ⟨i, hi, rfl⟩ := h
  have hfit := block_fits (n := n) hi
  have hle := Nat.div_mul_le_self bs.length n
  simp only [blockAt, List.length_take, List.length_drop]
  omega

theorem flatten_map_blockAt (n k : Nat) (buf : List α) :
    ((List.range k).map (blockAt n buf)).flatten = buf.take (k * n) := by
  induction k with
  | zero => simp
  | succ k ih =>
    rw [List.range_succ, List.map_append, List.flatten_append, ih, Nat.succ_mul, List.take_add]
    simp [blockAt]

/-- The blocks of an aligned list put together give the list. -/
theorem flatten_chunksExact {n : Nat} {bs : List α} (h : n ∣ bs.length) :
    (chunksExact n bs).flatten = bs := by
  rw [chunksExact, flatten_map_blockAt, Nat.div_mul_cancel h, List.take_length]

/-! ## A stream of blocks in a circular buffer -/

/-- Slots of two different stream positions less than one capacity apart differ. -/
theorem slot_ne {cap s t : Nat} (hst : s < t) (hcap : t < s + cap) : s % cap ≠ t % cap := by
  intro h
  have hdvd : cap ∣ t - s := Nat.dvd_of_mod_eq_zero (Nat.sub_mod_eq_zero_of_mod_eq h.symm)
  have := Nat.le_of_dvd (by omega) hdvd
  omega

/-- The buffer holds block `s` of the stream in slot `s % cap`, for the newest `cap` blocks. -/
structure Holds (n cap : Nat) (buf : List α) (stream : List (List α)) : Prop where
  length : buf.length = cap * n
  slot : ∀ s blk, stream.length ≤ s + cap → stream[s]? = some blk → blockAt n buf (s % cap) = blk

theorem Holds.empty {n cap : Nat} {buf : List α} (h : buf.length = cap * n) :
    Holds n cap buf [] :=
  ⟨h, by simp⟩

/-- Writing the next block of the stream into its slot keeps the newest blocks. -/
theorem Holds.push {n cap : Nat} {buf : List α} {stream : List (List α)} {blk : List α}
    (h : Holds n cap buf stream) (hcap : 0 < cap) (hblk : blk.length = n) :
    Holds n cap (setBlock n buf (stream.length % cap) blk) (stream ++ [blk]) := by
  have hslot : stream.length % cap < cap := Nat.mod_lt _ hcap
  refine ⟨length_setBlock h.length hblk hslot, ?_⟩
  intro s b hs hget
  rw [List.length_append, List.length_singleton] at hs
  rcases Nat.lt_trichotomy s stream.length with hlt | rfl | hgt
  · rw [List.getElem?_append_left hlt] at hget
    rw [blockAt_setBlock_ne h.length hblk hslot (slot_ne hlt (by omega))]
    exact h.slot s b (by omega) hget
  · rw [List.getElem?_append_right le_rfl] at hget
    simp only [Nat.sub_self, List.getElem?_cons_zero, Option.some.injEq] at hget
    rw [blockAt_setBlock_self h.length hblk hslot, hget]
  · rw [List.getElem?_eq_none (by simp; omega)] at hget
    cases hget

end Blocks
