import IptvRelay.Slate.Trace
import Mathlib.Tactic

/-!
# Clock fields of a packet

The PCR base and the PES timestamps are 33-bit numbers spread over five bytes. Writing
one of them and reading it back gives the value, and rebasing a packet moves exactly
its clock fields.
-/

namespace IptvRelay.Slate

open Transition Blocks Media Psi Muxing

/-! ## Numbers in bytes -/

theorem or_eq_add (k x y : Nat) (hx : 2 ^ k ∣ x) (hy : y < 2 ^ k) : x ||| y = x + y := by
  obtain ⟨z, rfl⟩ := hx
  rw [Nat.mul_comm, ← Nat.shiftLeft_eq, Nat.shiftLeft_add_eq_or_of_lt hy]

theorem toNat_toUInt64_shiftLeft (x : UInt8) {k : UInt64} (hk : k.toNat < 40) :
    (x.toUInt64 <<< k).toNat = x.toNat * 2 ^ k.toNat := by
  have hx := x.toNat_lt
  rw [UInt64.toNat_shiftLeft, UInt8.toNat_toUInt64, Nat.mod_eq_of_lt (a := k.toNat) (by omega),
    Nat.shiftLeft_eq, Nat.mod_eq_of_lt]
  calc x.toNat * 2 ^ k.toNat ≤ 2 ^ 8 * 2 ^ 39 :=
        Nat.mul_le_mul (by omega) (Nat.pow_le_pow_right (by decide) (by omega))
    _ < 2 ^ 64 := by decide

theorem toNat_lowByte_shiftRight (v : UInt64) {k : UInt64} (hk : k.toNat < 64) :
    (lowByte (v >>> k)).toNat = v.toNat / 2 ^ k.toNat % 256 := by
  rw [lowByte, UInt64.toNat_toUInt8, UInt64.toNat_shiftRight, Nat.mod_eq_of_lt hk,
    Nat.shiftRight_eq_div_pow]

/-- The PCR base that five bytes hold. -/
theorem toNat_pcr_fields (a b c d e : UInt8) :
    ((a.toUInt64 <<< 25) ||| (b.toUInt64 <<< 17) ||| (c.toUInt64 <<< 9) ||| (d.toUInt64 <<< 1) |||
      (e.toUInt64 >>> 7)).toNat =
      a.toNat * 2 ^ 25 + b.toNat * 2 ^ 17 + c.toNat * 2 ^ 9 + d.toNat * 2 + e.toNat / 2 ^ 7 := by
  have ha := a.toNat_lt
  have hb := b.toNat_lt
  have hc := c.toNat_lt
  have hd := d.toNat_lt
  have he := e.toNat_lt
  simp only [UInt64.toNat_or, toNat_toUInt64_shiftLeft a (k := 25) (by decide),
    toNat_toUInt64_shiftLeft b (k := 17) (by decide),
    toNat_toUInt64_shiftLeft c (k := 9) (by decide), toNat_toUInt64_shiftLeft d (k := 1) (by decide),
    UInt64.toNat_shiftRight, UInt8.toNat_toUInt64, Nat.shiftRight_eq_div_pow, UInt64.reduceToNat,
    Nat.reducePow, Nat.reduceMod]
  rw [or_eq_add 25 (a.toNat * 33554432) _ (by omega) (by omega),
    or_eq_add 17 (_ + _) _ (by omega) (by omega),
    or_eq_add 9 (_ + _ + _) _ (by omega) (by omega),
    or_eq_add 1 (_ + _ + _ + _) _ (by omega) (by omega)]

/-- The low bit of the PCR base stands in front of reserved bits. -/
theorem pcr_low_bit (x low : UInt8) (hx : x = 0 ∨ x = 1) :
    ((x <<< 7) ||| (low &&& 0x7f)) >>> 7 = x := by
  apply UInt8.eq_of_toBitVec_eq
  rcases hx with rfl | rfl <;>
    simp only [UInt8.toBitVec_and, UInt8.toBitVec_or, UInt8.toBitVec_shiftRight] <;> ext i hi <;>
    interval_cases i <;> simp

/-- Five bytes that were written for `v` are read as `v`. -/
theorem readPcrBase_written {v : UInt64} (hv : v.toNat < 2 ^ 33) {packet : Bytes} (low : UInt8)
    (hpcr : hasPcr packet = true) (h6 : packet[6]! = lowByte (v >>> 25))
    (h7 : packet[7]! = lowByte (v >>> 17)) (h8 : packet[8]! = lowByte (v >>> 9))
    (h9 : packet[9]! = lowByte (v >>> 1))
    (h10 : packet[10]! = (lowByte (v &&& 1) <<< 7) ||| (low &&& (0x7f : UInt8))) :
    readPcrBase packet = some v := by
  have hbit : (lowByte (v &&& 1)).toNat = v.toNat % 2 := by
    rw [lowByte, UInt64.toNat_toUInt8, UInt64.toNat_and]
    simp only [UInt64.reduceToNat, Nat.and_one_is_mod]
    omega
  have hlow : ((lowByte (v &&& 1) <<< 7) ||| (low &&& 0x7f)).toNat / 2 ^ 7 = v.toNat % 2 := by
    have hsmall : lowByte (v &&& 1) = 0 ∨ lowByte (v &&& 1) = 1 := by
      rcases Nat.mod_two_eq_zero_or_one v.toNat with h | h
      · exact .inl (UInt8.toNat_inj.mp (hbit.trans h))
      · exact .inr (UInt8.toNat_inj.mp (hbit.trans h))
    have hshift := congrArg UInt8.toNat (pcr_low_bit _ low hsmall)
    rw [UInt8.toNat_shiftRight, hbit, Nat.shiftRight_eq_div_pow] at hshift
    exact hshift
  rw [readPcrBase, if_pos hpcr, h6, h7, h8, h9, h10]
  apply congrArg some
  apply UInt64.toNat_inj.mp
  rw [toNat_pcr_fields, hlow, toNat_lowByte_shiftRight v (k := 25) (by decide),
    toNat_lowByte_shiftRight v (k := 17) (by decide), toNat_lowByte_shiftRight v (k := 9) (by decide),
    toNat_lowByte_shiftRight v (k := 1) (by decide)]
  simp only [UInt64.reduceToNat, Nat.reducePow] at hv ⊢
  omega

/-- The timestamp that five bytes hold. -/
theorem toNat_timestamp_fields (a b c d e : UInt8) (hc : c.toNat < 128) :
    ((a.toUInt64 <<< 30) ||| (b.toUInt64 <<< 22) ||| (c.toUInt64 <<< 15) ||| (d.toUInt64 <<< 7) |||
      (e.toUInt64 >>> 1)).toNat =
      a.toNat * 2 ^ 30 + b.toNat * 2 ^ 22 + c.toNat * 2 ^ 15 + d.toNat * 2 ^ 7 + e.toNat / 2 := by
  have hb := b.toNat_lt
  have hd := d.toNat_lt
  have he := e.toNat_lt
  simp only [UInt64.toNat_or, toNat_toUInt64_shiftLeft a (k := 30) (by decide),
    toNat_toUInt64_shiftLeft b (k := 22) (by decide),
    toNat_toUInt64_shiftLeft c (k := 15) (by decide),
    toNat_toUInt64_shiftLeft d (k := 7) (by decide), UInt64.toNat_shiftRight, UInt8.toNat_toUInt64,
    Nat.shiftRight_eq_div_pow, UInt64.reduceToNat, Nat.reducePow, Nat.reduceMod]
  rw [or_eq_add 30 (a.toNat * 1073741824) _ (by omega) (by omega),
    or_eq_add 22 (_ + _) _ (by omega) (by omega),
    or_eq_add 15 (_ + _ + _) _ (by omega) (by omega),
    or_eq_add 7 (_ + _ + _ + _) _ (by omega) (by omega)]

theorem timestamp_top (keep top : UInt8) :
    ((((keep &&& 0xf0) ||| (top &&& 0x0e) ||| 0x01) >>> 1) &&& 0x07 : UInt8) =
      (top >>> 1) &&& 0x07 := by
  apply UInt8.eq_of_toBitVec_eq
  simp only [UInt8.toBitVec_and, UInt8.toBitVec_or, UInt8.toBitVec_shiftRight]
  ext i hi
  interval_cases i <;> simp

theorem timestamp_marker (x : UInt8) : (((x &&& 0xfe) ||| 0x01) >>> 1 : UInt8) = x >>> 1 := by
  apply UInt8.eq_of_toBitVec_eq
  simp only [UInt8.toBitVec_and, UInt8.toBitVec_or, UInt8.toBitVec_shiftRight]
  ext i hi
  interval_cases i <;> simp

/-- The three bits between the prefix and the marker. -/
theorem toNat_timestamp_top (x : UInt8) : ((x >>> 1) &&& 0x07).toNat = x.toNat / 2 % 8 := by
  rw [UInt8.toNat_and, UInt8.toNat_shiftRight]
  exact Nat.and_two_pow_sub_one_eq_mod (x.toNat / 2) 3

/-- Five bytes that were written for `v` are read as `v`. -/
theorem readTimestamp_written {v : UInt64} (hv : v.toNat < 2 ^ 33) {bytes : Bytes} (keep : UInt8)
    (h0 : bytes[0]! = (keep &&& (0xf0 : UInt8)) ||| (lowByte (v >>> 29) &&& (0x0e : UInt8)) ||| 0x01)
    (h1 : bytes[1]! = lowByte (v >>> 22))
    (h2 : bytes[2]! = ((lowByte (v >>> 14) &&& 0xfe) ||| 0x01 : UInt8))
    (h3 : bytes[3]! = lowByte (v >>> 7))
    (h4 : bytes[4]! = ((lowByte (v <<< 1) &&& 0xfe) ||| 0x01 : UInt8)) : readTimestamp bytes = v := by
  have htop : ((lowByte (v >>> 29) >>> 1) &&& 0x07).toNat = v.toNat / 2 ^ 30 % 8 := by
    rw [toNat_timestamp_top, toNat_lowByte_shiftRight v (k := 29) (by decide)]
    simp only [UInt64.reduceToNat]
    omega
  have hmiddle : (lowByte (v >>> 14) >>> 1).toNat = v.toNat / 2 ^ 15 % 128 := by
    rw [UInt8.toNat_shiftRight, toNat_lowByte_shiftRight v (k := 14) (by decide)]
    simp only [UInt64.reduceToNat, UInt8.reduceToNat, Nat.reduceMod, Nat.shiftRight_eq_div_pow,
      Nat.reducePow]
    omega
  have hbottom : ((lowByte (v <<< 1) &&& 0xfe) ||| 0x01).toNat / 2 = v.toNat % 128 := by
    have hmarker := congrArg UInt8.toNat (timestamp_marker (lowByte (v <<< 1)))
    rw [UInt8.toNat_shiftRight, UInt8.toNat_shiftRight, lowByte, UInt64.toNat_toUInt8,
      UInt64.toNat_shiftLeft] at hmarker
    simp only [UInt64.reduceToNat, UInt8.reduceToNat, Nat.reduceMod, Nat.shiftRight_eq_div_pow,
      Nat.shiftLeft_eq, Nat.reducePow] at hmarker
    rw [lowByte]
    omega
  apply UInt64.toNat_inj.mp
  rw [readTimestamp, h0, h1, h2, h3, h4, timestamp_top, timestamp_marker, toNat_timestamp_fields _ _ _ _ _ (by omega), htop,
    hmiddle, hbottom, toNat_lowByte_shiftRight v (k := 22) (by decide),
    toNat_lowByte_shiftRight v (k := 7) (by decide)]
  simp only [UInt64.reduceToNat, Nat.reducePow] at hv ⊢
  omega

/-! ## Bytes of a packet -/

theorem getElem!_set_self {packet : Bytes} {i : Nat} (hi : i < packet.length) (value : UInt8) :
    (packet.set i value)[i]! = value := by
  simp [hi]

theorem getElem!_drop (packet : Bytes) (start i : Nat) :
    (packet.drop start)[i]! = packet[start + i]! := by
  simp only [List.getElem!_eq_getElem?_getD, List.getElem?_drop]

/-- Two packets that agree byte for byte from `start` on. -/
theorem drop_congr {a b : Bytes} (hlength : a.length = b.length) {start : Nat}
    (h : ∀ j, start ≤ j → a[j]! = b[j]!) : a.drop start = b.drop start := by
  apply List.ext_getElem (by simp [hlength])
  intro i hi hi'
  have hbyte := h (start + i) (Nat.le_add_right ..)
  rw [← getElem!_drop, ← getElem!_drop] at hbyte
  simpa only [List.getElem!_eq_getElem?_getD, List.getElem?_eq_getElem hi,
    List.getElem?_eq_getElem hi', Option.getD_some] using hbyte

theorem length_writeTimestamp (packet : Bytes) (start : Nat) (value : UInt64) :
    (writeTimestamp packet start value).length = packet.length := by
  simp [writeTimestamp]

/-- Writing a timestamp touches its five bytes only. -/
theorem writeTimestamp_other (packet : Bytes) {start j : Nat} (value : UInt64)
    (hj : j < start ∨ start + 5 ≤ j) : (writeTimestamp packet start value)[j]! = packet[j]! := by
  unfold writeTimestamp
  rw [getElem!_set_ne _ _ (by omega), getElem!_set_ne _ _ (by omega),
    getElem!_set_ne _ _ (by omega), getElem!_set_ne _ _ (by omega),
    getElem!_set_ne _ _ (by omega)]

theorem readTimestamp_writeTimestamp {packet : Bytes} {start : Nat} {value : UInt64}
    (hvalue : value.toNat < 2 ^ 33) (hlength : start + 5 ≤ packet.length) :
    readTimestamp ((writeTimestamp packet start value).drop start) = value := by
  refine readTimestamp_written hvalue packet[start]! ?_ ?_ ?_ ?_ ?_ <;>
    rw [getElem!_drop] <;> unfold writeTimestamp
  · rw [getElem!_set_ne _ _ (by omega), getElem!_set_ne _ _ (by omega),
      getElem!_set_ne _ _ (by omega), getElem!_set_ne _ _ (by omega), Nat.add_zero,
      getElem!_set_self (by omega)]
  · rw [getElem!_set_ne _ _ (by omega), getElem!_set_ne _ _ (by omega),
      getElem!_set_ne _ _ (by omega), getElem!_set_self (by simp; omega)]
  · rw [getElem!_set_ne _ _ (by omega), getElem!_set_ne _ _ (by omega),
      getElem!_set_self (by simp; omega)]
  · rw [getElem!_set_ne _ _ (by omega), getElem!_set_self (by simp; omega)]
  · rw [getElem!_set_self (by simp; omega)]

theorem readTimestamp_congr {a b : Bytes} {start : Nat}
    (h : ∀ j, start ≤ j → j < start + 5 → a[j]! = b[j]!) :
    readTimestamp (a.drop start) = readTimestamp (b.drop start) := by
  simp only [readTimestamp, getElem!_drop]
  rw [h _ (by omega) (by omega), h _ (by omega) (by omega), h _ (by omega) (by omega),
    h _ (by omega) (by omega), h _ (by omega) (by omega)]

theorem length_writePcrBase (packet : Bytes) (base : UInt64) :
    (writePcrBase packet base).length = packet.length := by
  simp [writePcrBase]

theorem writePcrBase_other (packet : Bytes) {j : Nat} (base : UInt64) (hj : j < 6 ∨ 11 ≤ j) :
    (writePcrBase packet base)[j]! = packet[j]! := by
  unfold writePcrBase
  rw [getElem!_set_ne _ _ (by omega), getElem!_set_ne _ _ (by omega),
    getElem!_set_ne _ _ (by omega), getElem!_set_ne _ _ (by omega),
    getElem!_set_ne _ _ (by omega)]

theorem hasPcr_congr {a b : Bytes} (h3 : a[3]! &&& (0x20 : UInt8) = b[3]! &&& (0x20 : UInt8)) (h4 : a[4]! = b[4]!)
    (h5 : a[5]! = b[5]!) : hasPcr a = hasPcr b := by
  simp only [hasPcr, h3, h4, h5]

theorem readPcrBase_congr {a b : Bytes} (h3 : a[3]! &&& (0x20 : UInt8) = b[3]! &&& (0x20 : UInt8))
    (h : ∀ j, 4 ≤ j → j < 11 → a[j]! = b[j]!) : readPcrBase a = readPcrBase b := by
  simp only [readPcrBase, hasPcr_congr h3 (h 4 (by omega) (by omega)) (h 5 (by omega) (by omega))]
  rw [h 6 (by omega) (by omega), h 7 (by omega) (by omega), h 8 (by omega) (by omega),
    h 9 (by omega) (by omega), h 10 (by omega) (by omega)]

theorem readPcrBase_writePcrBase {packet : Bytes} {base : UInt64} (hbase : base.toNat < 2 ^ 33)
    (hlength : packet.length = mpegTsPacketSize) (hpcr : hasPcr packet = true) :
    readPcrBase (writePcrBase packet base) = some base := by
  have hlong : 11 ≤ packet.length := by rw [hlength]; decide
  have hkeeps : hasPcr (writePcrBase packet base) = true := by
    rw [hasPcr_congr (b := packet), hpcr]
    all_goals rw [writePcrBase_other _ _ (by omega)]
  refine readPcrBase_written hbase packet[10]! hkeeps ?_ ?_ ?_ ?_ ?_ <;> unfold writePcrBase
  · rw [getElem!_set_ne _ _ (by decide), getElem!_set_ne _ _ (by decide),
      getElem!_set_ne _ _ (by decide), getElem!_set_ne _ _ (by decide),
      getElem!_set_self (by omega)]
  · rw [getElem!_set_ne _ _ (by decide), getElem!_set_ne _ _ (by decide),
      getElem!_set_ne _ _ (by decide), getElem!_set_self (by simp; omega)]
  · rw [getElem!_set_ne _ _ (by decide), getElem!_set_ne _ _ (by decide),
      getElem!_set_self (by simp; omega)]
  · rw [getElem!_set_ne _ _ (by decide), getElem!_set_self (by simp; omega)]
  · rw [getElem!_set_self (by simp; omega)]

/-! ## PES timestamps -/

/-- A timestamp field of a PES start, `place` bytes behind the start of the PES packet. -/
def pesField (present : UInt8 → Bool) (place : Nat) (packet : Bytes) : Option UInt64 :=
  if payloadUnitStart packet then
    (pesHeader packet).bind fun header =>
      if present (packet[header.1 + 7]! >>> 6) && decide (header.1 + place + 5 ≤ mpegTsPacketSize)
      then some (readTimestamp (packet.drop (header.1 + place)))
      else none
  else none

def hasPts (flags : UInt8) : Bool := flags &&& 0x02 ≠ 0

def hasDts (flags : UInt8) : Bool := flags = 0x03

def ptsOf (packet : Bytes) : Option UInt64 := pesField hasPts 9 packet

def dtsOf (packet : Bytes) : Option UInt64 := pesField hasDts 14 packet

/-- The latest timestamp of a PES start. -/
def latestOf (packet : Bytes) : Option UInt64 :=
  (ptsOf packet).map fun pts => (dtsOf packet).elim pts (laterTimestamp pts)

/-- A timestamp on the timeline of the output. -/
def rebase (offset value : UInt64) : UInt64 := (value + offset) &&& timestampMask

theorem toNat_mask (value : UInt64) : (value &&& timestampMask).toNat = value.toNat % 2 ^ 33 := by
  rw [UInt64.toNat_and]
  exact Nat.and_two_pow_sub_one_eq_mod value.toNat 33

theorem rebase_lt (offset value : UInt64) : (rebase offset value).toNat < 2 ^ 33 := by
  rw [rebase, toNat_mask]
  exact Nat.mod_lt _ (by decide)

theorem four_le_payloadOffset {packet : Bytes} {start : Nat} (h : payloadOffset packet = some start) :
    4 ≤ start := by
  unfold payloadOffset at h
  dsimp only at h
  split_ifs at h
  · cases h
    omega
  · cases h
    omega

/-- A packet with payload alone has no adaptation field. -/
theorem adaptation_flag {control : UInt8} (h : (control >>> 4) &&& 0x03 = 1) :
    control &&& 0x20 = 0 := by
  have hbit := congrArg (fun x => x.toBitVec.getLsbD 1) h
  simp [UInt8.toBitVec_and, UInt8.toBitVec_shiftRight] at hbit
  apply UInt8.eq_of_toBitVec_eq
  rw [UInt8.toBitVec_and]
  ext i hi
  interval_cases i <;> simp [hbit]

/-- With a PCR the payload begins behind it. -/
theorem payloadOffset_of_hasPcr {packet : Bytes} {start : Nat} (hpcr : hasPcr packet = true)
    (h : payloadOffset packet = some start) : 12 ≤ start := by
  obtain ⟨hcontrol, hlength, -⟩ := of_decide_eq_true hpcr
  unfold payloadOffset at h
  dsimp only at h
  split_ifs at h with h1 h3 hfits
  · exact absurd (adaptation_flag h1) hcontrol
  · cases h
    have : (7 : UInt8).toNat ≤ packet[4]!.toNat := hlength
    simp only [UInt8.reduceToNat] at this
    omega

theorem payloadOffset_congr {a b : Bytes} (h3 : (a[3]! >>> 4 : UInt8) = b[3]! >>> 4)
    (h4 : a[4]! = b[4]!) : payloadOffset a = payloadOffset b := by
  simp only [payloadOffset, h3, h4]

/-- The optional header is read from the first nine bytes of the payload. -/
theorem pesHeader_congr {a b : Bytes} (hlength : a.length = b.length)
    (hoffset : payloadOffset a = payloadOffset b)
    (h : ∀ start, payloadOffset a = some start → ∀ j, start ≤ j → j < start + 9 → a[j]! = b[j]!) :
    pesHeader a = pesHeader b := by
  unfold pesHeader
  rw [← hoffset]
  cases hstart : payloadOffset a with
  | none => rfl
  | some start =>
    have hbytes := h start hstart
    have htake : (a.drop start).take 3 = (b.drop start).take 3 ∨ (a.drop start).length < 9 := by
      by_cases hlong : (a.drop start).length < 9
      · exact .inr hlong
      refine .inl (List.ext_getElem (by simp [hlength]) fun i hi hi' => ?_)
      have hbyte := hbytes (start + i) (by omega) (by simp at hi; omega)
      simp only [List.getElem_take]
      rw [← getElem!_drop, ← getElem!_drop] at hbyte
      simp only [List.length_take, lt_inf_iff] at hi hi'
      simpa only [List.getElem!_eq_getElem?_getD, List.getElem?_eq_getElem hi.2,
        List.getElem?_eq_getElem hi'.2, Option.getD_some] using hbyte
    have hlength' : (b.drop start).length = (a.drop start).length := by simp [hlength]
    have h3 : (b.drop start)[3]! = (a.drop start)[3]! := by
      rw [getElem!_drop, getElem!_drop, hbytes _ (by omega) (by omega)]
    have h8 : (b.drop start)[8]! = (a.drop start)[8]! := by
      rw [getElem!_drop, getElem!_drop, hbytes _ (by omega) (by omega)]
    show (if _ then none else if _ then none else some _) =
      (if _ then none else if _ then none else some _)
    rw [hlength', h3, h8]
    rcases htake with htake | hshort
    · rw [htake]
    · rw [if_pos (.inl hshort), if_pos (.inl hshort)]

theorem pesHeader_start {packet : Bytes} {start headerLength : Nat}
    (h : pesHeader packet = some (start, headerLength)) : payloadOffset packet = some start := by
  unfold pesHeader at h
  obtain ⟨other, hother, h⟩ := Option.bind_eq_some_iff.mp h
  dsimp only at h
  split_ifs at h
  cases h
  exact hother

theorem pesField_congr {a b : Bytes} (present : UInt8 → Bool) (place : Nat)
    (hlength : a.length = b.length) (hunit : payloadUnitStart a = payloadUnitStart b)
    (hoffset : payloadOffset a = payloadOffset b)
    (h : ∀ start, payloadOffset a = some start → ∀ j, start ≤ j → a[j]! = b[j]!) :
    pesField present place a = pesField present place b := by
  unfold pesField
  rw [hunit, pesHeader_congr hlength hoffset fun start hstart j hj _ => h start hstart j hj]
  split
  · cases hheader : pesHeader b with
    | none => rfl
    | some header =>
      have hstart := hoffset.trans (pesHeader_start hheader)
      have hflags := h header.1 hstart (header.1 + 7) (by omega)
      have hread : readTimestamp (a.drop (header.1 + place)) =
          readTimestamp (b.drop (header.1 + place)) :=
        readTimestamp_congr fun j hj _ => h header.1 hstart j (by omega)
      simp only [Option.bind_some, hflags, hread]
  · rfl

/-- A packet whose PES header is the one of `packet`. -/
structure SamePes (packet other : Bytes) : Prop where
  length : other.length = packet.length
  unit : payloadUnitStart other = payloadUnitStart packet
  header : pesHeader other = pesHeader packet
  flags : ∀ start headerLength, pesHeader packet = some (start, headerLength) →
    other[start + 7]! = packet[start + 7]!
  clock : readPcrBase other = readPcrBase packet

theorem SamePes.refl (packet : Bytes) : SamePes packet packet := ⟨rfl, rfl, rfl, fun _ _ _ => rfl, rfl⟩

theorem SamePes.trans {a b c : Bytes} (h : SamePes a b) (h' : SamePes b c) : SamePes a c where
  length := h'.length.trans h.length
  unit := h'.unit.trans h.unit
  header := h'.header.trans h.header
  flags start headerLength hheader :=
    (h'.flags start headerLength (h.header.trans hheader)).trans (h.flags start headerLength hheader)
  clock := h'.clock.trans h.clock

/-- Timestamps stand behind the fields that say where they are. -/
theorem samePes_writeTimestamp {packet : Bytes} {start headerLength : Nat}
    (hheader : pesHeader packet = some (start, headerLength)) {place : Nat} (hplace : 9 ≤ place)
    (value : UInt64) : SamePes packet (writeTimestamp packet (start + place) value) := by
  have hstart := pesHeader_start hheader
  have hfour := four_le_payloadOffset hstart
  have hother : ∀ j, j < start + 9 → (writeTimestamp packet (start + place) value)[j]! = packet[j]! :=
    fun j hj => writeTimestamp_other packet value (by omega)
  refine ⟨length_writeTimestamp .., ?_, ?_, fun other otherLength hsame => ?_, ?_⟩
  · rw [payloadUnitStart, payloadUnitStart, hother 1 (by omega)]
  · have hoffset : payloadOffset (writeTimestamp packet (start + place) value) =
        payloadOffset packet :=
      payloadOffset_congr (by rw [hother 3 (by omega)]) (hother 4 (by omega))
    refine pesHeader_congr (length_writeTimestamp ..) hoffset fun other hsame j _ hj => ?_
    rw [hoffset, hstart] at hsame
    cases hsame
    exact hother j hj
  · rw [hheader] at hsame
    cases hsame
    exact hother _ (by omega)
  · refine readPcrBase_congr (by rw [hother 3 (by omega)]) fun j hj hj' => hother j (by omega)

/-- What a field reads once the header is known. -/
theorem pesField_eq {packet : Bytes} (hunit : payloadUnitStart packet = true)
    {start headerLength : Nat} (hheader : pesHeader packet = some (start, headerLength))
    (present : UInt8 → Bool) (place : Nat) :
    pesField present place packet =
      if present (packet[start + 7]! >>> 6) && decide (start + place + 5 ≤ mpegTsPacketSize)
      then some (readTimestamp (packet.drop (start + place))) else none := by
  rw [pesField, if_pos hunit, hheader, Option.bind_some]

theorem rebaseField_eq (present : Bool) (start : Nat) (offset : UInt64)
    (rebased : Bytes × Option UInt64) :
    rebaseField present start offset rebased =
      if present && decide (start + 5 ≤ mpegTsPacketSize) then
        (writeTimestamp rebased.1 start (rebase offset (readTimestamp (rebased.1.drop start))),
          some (rebased.2.elim (rebase offset (readTimestamp (rebased.1.drop start)))
            fun previous => laterTimestamp previous
              (rebase offset (readTimestamp (rebased.1.drop start)))))
      else rebased := by
  unfold rebaseField rebase
  cases present with
  | false => simp
  | true =>
    by_cases hfits : start + 5 ≤ mpegTsPacketSize
    · simp [hfits, Nat.not_lt.mpr hfits]
    · simp [hfits, Nat.lt_of_not_le hfits]

theorem dts_has_pts {flags : UInt8} (h : hasDts flags = true) : hasPts flags = true := by
  rw [of_decide_eq_true h]
  rfl

/-- Rebasing moves the PTS and the DTS of a PES start and returns the later one. -/
theorem rebasePesTimestamps_fields {packet : Bytes} (hlength : packet.length = mpegTsPacketSize)
    (hunit : payloadUnitStart packet = true) (offset : UInt64) :
    SamePes packet (rebasePesTimestamps packet offset).1 ∧
      ptsOf (rebasePesTimestamps packet offset).1 = (ptsOf packet).map (rebase offset) ∧
      dtsOf (rebasePesTimestamps packet offset).1 = (dtsOf packet).map (rebase offset) ∧
      (rebasePesTimestamps packet offset).2 = latestOf (rebasePesTimestamps packet offset).1 := by
  unfold rebasePesTimestamps
  cases hheader : pesHeader packet with
  | none =>
    have hnone : ∀ present place, pesField present place packet = none := by
      intro present place
      rw [pesField, if_pos hunit, hheader]
      rfl
    exact ⟨.refl packet, by simp [ptsOf, hnone], by simp [dtsOf, hnone], by simp [latestOf, ptsOf, hnone]⟩
  | some header =>
    obtain ⟨start, headerLength⟩ := header
    have hfield : ∀ other, SamePes packet other → ∀ present place, pesField present place other =
        if present (packet[start + 7]! >>> 6) && decide (start + place + 5 ≤ mpegTsPacketSize)
        then some (readTimestamp (other.drop (start + place))) else none := by
      intro other hsame present place
      rw [pesField_eq (hsame.unit.trans hunit) (hsame.header.trans hheader),
        hsame.flags start headerLength hheader]
    have hptsAt : ∀ other, SamePes packet other → ptsOf other = _ := fun other hsame =>
      hfield other hsame hasPts 9
    have hdtsAt : ∀ other, SamePes packet other → dtsOf other = _ := fun other hsame =>
      hfield other hsame hasDts 14
    have hfits : (hasPts (packet[start + 7]! >>> 6) && decide (start + 9 + 5 ≤ mpegTsPacketSize)) =
        true → start + 9 + 5 ≤ packet.length := fun h => by
      rw [hlength]
      exact of_decide_eq_true (Bool.and_eq_true_iff.mp h).2
    have hfits2 : (hasDts (packet[start + 7]! >>> 6) &&
        decide (start + 14 + 5 ≤ mpegTsPacketSize)) = true → start + 14 + 5 ≤ packet.length ∧
        (hasPts (packet[start + 7]! >>> 6) && decide (start + 9 + 5 ≤ mpegTsPacketSize)) = true := by
      intro h
      obtain ⟨hdts, hlong⟩ := Bool.and_eq_true_iff.mp h
      have hlong := of_decide_eq_true hlong
      exact ⟨by omega, Bool.and_eq_true_iff.mpr ⟨dts_has_pts hdts, decide_eq_true (by omega)⟩⟩
    dsimp only
    rw [show decide (packet[start + 7]! >>> 6 &&& 0x02 ≠ 0) = hasPts (packet[start + 7]! >>> 6) from rfl,
      show decide (packet[start + 7]! >>> 6 = 0x03) = hasDts (packet[start + 7]! >>> 6) from rfl,
      rebaseField_eq (hasPts _), rebaseField_eq (hasDts _)]
    generalize (hasPts (packet[start + 7]! >>> 6) && decide (start + 9 + 5 ≤ mpegTsPacketSize)) = pts
      at hptsAt hfits hfits2 ⊢
    generalize (hasDts (packet[start + 7]! >>> 6) && decide (start + 14 + 5 ≤ mpegTsPacketSize)) =
      dts at hdtsAt hfits2 ⊢
    cases pts with
    | false =>
      have hdts : dts = false := by
        by_contra hdts
        cases (hfits2 (by simpa using hdts)).2
      subst hdts
      have hnone := hptsAt packet (.refl packet)
      have hnone' := hdtsAt packet (.refl packet)
      rw [if_neg Bool.false_ne_true] at hnone hnone' ⊢
      exact ⟨.refl packet, by simp [hnone], by simp [hnone'], by simp [latestOf, hnone]⟩
    | true =>
      have hptsIn := hptsAt packet (.refl packet)
      rw [if_pos rfl] at hptsIn ⊢
      dsimp only
      generalize hv1 : rebase offset (readTimestamp (packet.drop (start + 9))) = v1
      have hv1lt : v1.toNat < 2 ^ 33 := hv1 ▸ rebase_lt _ _
      have hsame1 := samePes_writeTimestamp hheader (le_refl 9) v1
      have hread1 := readTimestamp_writeTimestamp hv1lt (hfits rfl)
      have hdtsRead : readTimestamp ((writeTimestamp packet (start + 9) v1).drop (start + 14)) =
          readTimestamp (packet.drop (start + 14)) :=
        readTimestamp_congr fun j hj _ => writeTimestamp_other _ _ (by omega)
      generalize writeTimestamp packet (start + 9) v1 = w1 at hsame1 hread1 hdtsRead
      have hdtsIn := hdtsAt packet (.refl packet)
      cases dts with
      | false =>
        have hptsOut := hptsAt w1 hsame1
        have hdtsOut := hdtsAt w1 hsame1
        rw [if_pos rfl, hread1] at hptsOut
        rw [if_neg Bool.false_ne_true] at hdtsIn hdtsOut ⊢
        refine ⟨hsame1, ?_, ?_, ?_⟩
        · rw [hptsOut, hptsIn, Option.map_some, hv1]
        · rw [hdtsOut, hdtsIn, Option.map_none]
        · rw [latestOf, hptsOut, hdtsOut]
          rfl
      | true =>
        rw [if_pos rfl] at hdtsIn ⊢
        rw [hdtsRead]
        dsimp only
        generalize hv2 : rebase offset (readTimestamp (packet.drop (start + 14))) = v2
        have hv2lt : v2.toNat < 2 ^ 33 := hv2 ▸ rebase_lt _ _
        have hsame2 := hsame1.trans
          (samePes_writeTimestamp (hsame1.header.trans hheader) (show 9 ≤ 14 by decide) v2)
        have hread2 := readTimestamp_writeTimestamp hv2lt (hsame1.length.symm ▸ (hfits2 rfl).1)
        have hkeep : readTimestamp ((writeTimestamp w1 (start + 14) v2).drop (start + 9)) = v1 := by
          rw [← hread1]
          exact readTimestamp_congr fun j _ hj => writeTimestamp_other _ _ (by omega)
        generalize writeTimestamp w1 (start + 14) v2 = w2 at hsame2 hread2 hkeep
        have hptsOut := hptsAt w2 hsame2
        have hdtsOut := hdtsAt w2 hsame2
        rw [if_pos rfl, hkeep] at hptsOut
        rw [if_pos rfl, hread2] at hdtsOut
        refine ⟨hsame2, ?_, ?_, ?_⟩
        · rw [hptsOut, hptsIn, Option.map_some, hv1]
        · rw [hdtsOut, hdtsIn, Option.map_some, hv2]
        · rw [latestOf, hptsOut, hdtsOut]
          rfl

/-! ## A forwarded packet -/

/-- The clock fields of `other` are those of `packet`, moved by `offset`. -/
structure Moved (offset : UInt64) (packet other : Bytes) : Prop where
  pcr : readPcrBase other = (readPcrBase packet).map (rebase offset)
  pts : ptsOf other = (ptsOf packet).map (rebase offset)
  dts : dtsOf other = (dtsOf packet).map (rebase offset)

structure SameClocks (packet other : Bytes) : Prop where
  length : other.length = packet.length
  pcr : readPcrBase other = readPcrBase packet
  pts : ptsOf other = ptsOf packet
  dts : dtsOf other = dtsOf packet

theorem Moved.congr {offset : UInt64} {packet other output : Bytes} (h : Moved offset other output)
    (hsame : SameClocks packet other) : Moved offset packet output :=
  ⟨hsame.pcr ▸ h.pcr, hsame.pts ▸ h.pts, hsame.dts ▸ h.dts⟩

theorem counter_keeps_control (control counter : UInt8) :
    ((control &&& 0xf0) ||| (counter &&& 0x0f)) >>> 4 = control >>> 4 ∧
      ((control &&& 0xf0) ||| (counter &&& 0x0f)) &&& 0x20 = control &&& 0x20 := by
  constructor <;> apply UInt8.eq_of_toBitVec_eq <;>
    simp only [UInt8.toBitVec_and, UInt8.toBitVec_or, UInt8.toBitVec_shiftRight] <;>
    ext i hi <;> interval_cases i <;> simp

theorem pid_keeps_unit (flags pid : UInt8) :
    ((flags &&& 0xe0) ||| (pid &&& 0x1f)) &&& 0x40 = flags &&& 0x40 := by
  apply UInt8.eq_of_toBitVec_eq
  simp only [UInt8.toBitVec_and, UInt8.toBitVec_or]
  ext i hi
  interval_cases i <;> simp

/-- A new PID and a new counter do not touch the clocks. -/
theorem sameClocks_retarget {packet : Bytes} (hlength : packet.length = mpegTsPacketSize) (role : Role)
    (counter : UInt8) : SameClocks packet (setCounter (retarget packet role) (counter &&& 0x0f)) := by
  have hlong : 4 ≤ packet.length := by rw [hlength]; decide
  generalize hresult : setCounter (retarget packet role) (counter &&& 0x0f) = result
  have hother : ∀ j, 4 ≤ j → result[j]! = packet[j]! := by
    intro j hj
    rw [← hresult, setCounter, retarget, getElem!_set_ne _ _ (by omega),
      getElem!_set_ne _ _ (by omega), getElem!_set_ne _ _ (by omega)]
  have hcontrol : result[3]! = (packet[3]! &&& 0xf0) ||| (counter &&& 0x0f) := by
    rw [← hresult, setCounter, getElem!_set_self (by simp [retarget]; omega), retarget,
      getElem!_set_ne _ _ (by decide), getElem!_set_ne _ _ (by decide)]
  have hflags : result[1]! = (packet[1]! &&& 0xe0) ||| (highByte role.outputPid &&& 0x1f) := by
    rw [← hresult, setCounter, getElem!_set_ne _ _ (by decide), retarget,
      getElem!_set_ne _ _ (by decide), getElem!_set_self (by omega)]
  obtain ⟨hhigh, hpcr⟩ := counter_keeps_control packet[3]! counter
  have hsize : result.length = packet.length := by rw [← hresult]; simp [setCounter, retarget]
  have hunit : payloadUnitStart result = payloadUnitStart packet := by
    rw [payloadUnitStart, payloadUnitStart, hflags, pid_keeps_unit]
  have hoffset : payloadOffset result = payloadOffset packet :=
    payloadOffset_congr (by rw [hcontrol, hhigh]) (hother 4 (by omega))
  have hfield : ∀ present place, pesField present place result = pesField present place packet :=
    fun present place => pesField_congr present place hsize hunit hoffset fun start hstart j hj =>
      hother j ((four_le_payloadOffset hstart).trans hj)
  exact ⟨hsize, readPcrBase_congr (by rw [hcontrol, hpcr]) fun j hj _ => hother j hj,
    hfield _ _, hfield _ _⟩

/-- The PCR stands in front of the payload. -/
theorem rebasePcr_fields (mux : SpliceMuxer) (offset : UInt64) {packet : Bytes}
    (hlength : packet.length = mpegTsPacketSize) :
    (rebasePcr mux offset packet).2.length = packet.length ∧
      readPcrBase (rebasePcr mux offset packet).2 = (readPcrBase packet).map (rebase offset) ∧
      ptsOf (rebasePcr mux offset packet).2 = ptsOf packet ∧
      dtsOf (rebasePcr mux offset packet).2 = dtsOf packet := by
  unfold rebasePcr
  cases hbase : readPcrBase packet with
  | none => exact ⟨rfl, hbase, rfl, rfl⟩
  | some base =>
    have hpcr : hasPcr packet = true := by
      by_contra hnot
      rw [readPcrBase, if_neg hnot] at hbase
      cases hbase
    have hother : ∀ j, j < 6 ∨ 11 ≤ j →
        (writePcrBase packet (rebase offset base))[j]! = packet[j]! :=
      fun j hj => writePcrBase_other packet _ hj
    have hunit : payloadUnitStart (writePcrBase packet (rebase offset base)) =
        payloadUnitStart packet := by
      rw [payloadUnitStart, payloadUnitStart, hother 1 (by omega)]
    have hoffset : payloadOffset (writePcrBase packet (rebase offset base)) =
        payloadOffset packet :=
      payloadOffset_congr (by rw [hother 3 (by omega)]) (hother 4 (by omega))
    have hfield : ∀ present place, pesField present place
        (writePcrBase packet (rebase offset base)) = pesField present place packet :=
      fun present place => pesField_congr present place (length_writePcrBase ..) hunit hoffset
        fun start hstart j hj => hother j (.inr (by
          have := payloadOffset_of_hasPcr hpcr (hoffset.symm.trans hstart)
          omega))
    exact ⟨length_writePcrBase ..,
      readPcrBase_writePcrBase (rebase_lt offset base) hlength hpcr, hfield _ _, hfield _ _⟩

/-- The clock of a muxer after it has sent a packet. -/
def SpliceMuxer.tick (mux : SpliceMuxer) (role : Role) (packet : Bytes) : SpliceMuxer :=
  let clocked := { mux with lastPcr := (readPcrBase packet).or mux.lastPcr }
  (latestOf packet).elim clocked (notePesTime clocked role)

theorem rebasePcr_fst (mux : SpliceMuxer) (offset : UInt64) (packet : Bytes) :
    (rebasePcr mux offset packet).1 =
      { mux with lastPcr := ((readPcrBase packet).map (rebase offset)).or mux.lastPcr } := by
  unfold rebasePcr
  cases readPcrBase packet with
  | none => rfl
  | some base => rfl

theorem rebasePes_fields (mux : SpliceMuxer) (role : Role) (offset : UInt64) {packet : Bytes}
    (hlength : packet.length = mpegTsPacketSize) :
    readPcrBase (rebasePes mux role offset packet).2 = readPcrBase packet ∧
      ptsOf (rebasePes mux role offset packet).2 = (ptsOf packet).map (rebase offset) ∧
      dtsOf (rebasePes mux role offset packet).2 = (dtsOf packet).map (rebase offset) ∧
      (rebasePes mux role offset packet).1 =
        (latestOf (rebasePes mux role offset packet).2).elim mux (notePesTime mux role) := by
  unfold rebasePes
  split
  · rename_i hunit
    obtain ⟨hsame, hpts, hdts, hlatest⟩ := rebasePesTimestamps_fields hlength hunit offset
    exact ⟨hsame.clock, hpts, hdts, by rw [← hlatest]⟩
  · rename_i hunit
    have hnone : ∀ present place, pesField present place packet = none := fun present place => by
      rw [pesField, if_neg hunit]
    refine ⟨rfl, ?_, ?_, ?_⟩
    · rw [ptsOf, hnone, Option.map_none]
    · rw [dtsOf, hnone, Option.map_none]
    · rw [latestOf, ptsOf, hnone]
      rfl

/-- Both clocks of a packet together. -/
theorem rebase_clock (mux : SpliceMuxer) (role : Role) (offset : UInt64) {packet : Bytes}
    (hlength : packet.length = mpegTsPacketSize) :
    Moved offset packet (rebasePes (rebasePcr mux offset packet).1 role offset
        (rebasePcr mux offset packet).2).2 ∧
      (rebasePes (rebasePcr mux offset packet).1 role offset (rebasePcr mux offset packet).2).1 =
        mux.tick role (rebasePes (rebasePcr mux offset packet).1 role offset
          (rebasePcr mux offset packet).2).2 := by
  obtain ⟨hsize, hpcr, hpts, hdts⟩ := rebasePcr_fields mux offset hlength
  obtain ⟨hpcr', hpts', hdts', hmux⟩ := rebasePes_fields (rebasePcr mux offset packet).1 role offset
    (hsize.trans hlength)
  refine ⟨⟨hpcr'.trans hpcr, by rw [hpts', hpts], by rw [hdts', hdts]⟩, ?_⟩
  rw [SpliceMuxer.tick, hpcr', hpcr]
  refine hmux.trans ?_
  rw [rebasePcr_fst]

/-- `forward` moves every clock field of a packet by the offset of the segment and runs the clock of
the muxer with what it sends. -/
theorem forward_clock (s : Muxing) (segment : Segment) (role : Role) {packet : Bytes}
    (hlength : packet.length = mpegTsPacketSize) :
    ∃ output outputCc, (s.forward segment role packet).1.out = s.out ++ [.stream role output] ∧
      Moved segment.offset packet output ∧
      (s.forward segment role packet).1.mux = { s.mux with outputCc }.tick role output := by
  unfold forward
  dsimp only
  generalize s.counterDelta segment role (retarget packet role) = delta
  generalize ((retarget packet role)[3]! &&& 0x0f) + delta = counter
  have hsame := sameClocks_retarget hlength role counter
  obtain ⟨hmoved, hmux⟩ := rebase_clock
    { s.mux with outputCc := Function.update s.mux.outputCc role (some (counter &&& 0x0f)) } role
    segment.offset (hsame.length.trans hlength)
  exact ⟨_, _, rfl, hmoved.congr hsame, hmux⟩

end IptvRelay.Slate
