import Mathlib.Tactic

/-!
# Cyclic redundancy checks

A division register of any width takes a message from its high end, a byte at a time. As long as
the bits that leave the register are zero it only shifts, so a message followed by its own
remainder leaves the register empty.
-/

namespace IptvRelay.Crc

variable {w : Nat} (poly : BitVec w)

/-- One bit leaves the register at the high end. -/
def shift (register : BitVec w) : BitVec w :=
  if register.msb then (register <<< 1) ^^^ poly else register <<< 1

/-- The bits of a byte aligned with the high end. -/
def align (byte : BitVec 8) : BitVec w := byte.setWidth w <<< (w - 8)

def absorb (register : BitVec w) (byte : BitVec 8) : BitVec w :=
  (shift poly)^[8] (register ^^^ align byte)

def remainder (register : BitVec w) (message : List (BitVec 8)) : BitVec w :=
  message.foldl (absorb poly) register

/-- The byte at the high end. -/
def topByte (register : BitVec w) : BitVec 8 := register.extractLsb' (w - 8) 8

/-- The first `n` bytes of the register, from the high end. -/
def bytes : Nat → BitVec w → List (BitVec 8)
  | 0, _ => []
  | n + 1, register => topByte register :: bytes n (register <<< 8)

theorem remainder_append (register : BitVec w) (left right : List (BitVec 8)) :
    remainder poly register (left ++ right) =
      remainder poly (remainder poly register left) right := by
  simp [remainder]

/-- Zero bits leave the register without feedback. -/
theorem shift_iterate (k : Nat) {register : BitVec w}
    (h : ∀ i, w - k ≤ i → register.getLsbD i = false) :
    (shift poly)^[k] register = register <<< k := by
  induction k generalizing register with
  | zero => simp
  | succ k ih =>
    have hmsb : register.msb = false := by
      rw [BitVec.msb_eq_getLsbD_last]
      exact h _ (by omega)
    have hshift : shift poly register = register <<< 1 := by simp [shift, hmsb]
    rw [Function.iterate_succ_apply, hshift, ih, ← BitVec.shiftLeft_add, Nat.add_comm]
    intro i hi
    rw [BitVec.getLsbD_shiftLeft]
    by_cases hzero : i < 1
    · simp [hzero]
    · rw [h (i - 1) (by omega)]
      simp

/-- Absorbing the byte at the high end empties that end. -/
theorem absorb_topByte (hw : 8 ≤ w) (register : BitVec w) :
    absorb poly register (topByte register) = register <<< 8 := by
  have hbits : ∀ i, (align (topByte register) : BitVec w).getLsbD i =
      (decide (w - 8 ≤ i) && register.getLsbD i) := by
    intro i
    simp only [align, topByte, BitVec.getLsbD_shiftLeft, BitVec.getLsbD_setWidth,
      BitVec.getLsbD_extractLsb']
    by_cases hi : i < w
    · by_cases hlow : i < w - 8
      · simp [hi, hlow, Nat.not_le.mpr hlow]
      · have hadd : w - 8 + (i - (w - 8)) = i := by omega
        simp [hi, hlow, hadd, show w - 8 ≤ i by omega, show i - (w - 8) < w by omega,
          show i - (w - 8) < 8 by omega]
    · rw [BitVec.getLsbD_of_ge register i (by omega)]
      simp [hi]
  rw [absorb, shift_iterate]
  · apply BitVec.eq_of_getLsbD_eq
    intro i hi
    rw [BitVec.getLsbD_shiftLeft, BitVec.getLsbD_shiftLeft, BitVec.getLsbD_xor, hbits]
    by_cases hlow : i < 8
    · simp [hlow]
    · simp [show ¬ w - 8 ≤ i - 8 by omega]
  · intro i hi
    rw [BitVec.getLsbD_xor, hbits]
    simp [hi]

theorem remainder_bytes (hw : 8 ≤ w) (n : Nat) (register : BitVec w) :
    remainder poly register (bytes n register) = register <<< (8 * n) := by
  induction n generalizing register with
  | zero => simp [remainder, bytes]
  | succ n ih =>
    have hstep : remainder poly register (bytes (n + 1) register) =
        remainder poly (register <<< 8) (bytes n (register <<< 8)) := by
      simp only [remainder, bytes, List.foldl_cons, absorb_topByte poly hw]
    rw [hstep, ih, ← BitVec.shiftLeft_add]
    congr 1
    omega

/-- **The residue law.** A message followed by its remainder leaves an empty register. -/
theorem remainder_self (hw : 8 ≤ w) {n : Nat} (hn : w ≤ 8 * n) (register : BitVec w)
    (message : List (BitVec 8)) :
    remainder poly register (message ++ bytes n (remainder poly register message)) = 0 := by
  rw [remainder_append, remainder_bytes poly hw]
  exact BitVec.shiftLeft_eq_zero hn

end IptvRelay.Crc
