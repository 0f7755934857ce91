import IptvRelay.Media.Meter
import IptvRelay.Slate.ClockFields

/-!
# The clock fields as three modules read them

The splicer re-encodes a clock field in place, the pacer and the rate meter read it
with code of their own. All of them mean the same 33-bit number.
-/

namespace IptvRelay.Slate

open Media

/-! ## Written timestamps -/

theorem marker_first (keep top : UInt8) :
    ((keep &&& 0xf0) ||| (top &&& 0x0e) ||| 0x01) &&& 0x01 = 0x01 := by
  apply UInt8.eq_of_toBitVec_eq
  simp only [UInt8.toBitVec_and, UInt8.toBitVec_or]
  ext i hi
  interval_cases i <;> simp

theorem marker_later (x : UInt8) : ((x &&& 0xfe) ||| 0x01) &&& 0x01 = 0x01 := by
  apply UInt8.eq_of_toBitVec_eq
  simp only [UInt8.toBitVec_and, UInt8.toBitVec_or]
  ext i hi
  interval_cases i <;> simp

theorem upper_nibble (keep top : UInt8) :
    ((keep &&& 0xf0) ||| (top &&& 0x0e) ||| 0x01) &&& 0xf0 = keep &&& 0xf0 := by
  apply UInt8.eq_of_toBitVec_eq
  simp only [UInt8.toBitVec_and, UInt8.toBitVec_or]
  ext i hi
  interval_cases i <;> simp

/-- `written` is `bytes` with the timestamp `value` in the field at `start`. -/
structure TimestampWritten (bytes written : Bytes) (start : Nat) (value : UInt64) : Prop where
  value : readTimestamp (written.drop start) = value
  markers : ∀ j ∈ [0, 2, 4], written[start + j]! &&& (0x01 : UInt8) = 0x01
  upper : written[start]! &&& (0xf0 : UInt8) = bytes[start]! &&& 0xf0
  others : ∀ j, j < start ∨ start + 5 ≤ j → written[j]! = bytes[j]!

theorem timestampWritten {bytes : Bytes} {start : Nat} {value : UInt64}
    (hvalue : value.toNat < 2 ^ 33) (hlength : start + 5 ≤ bytes.length) :
    TimestampWritten bytes (writeTimestamp bytes start value) start value where
  value := readTimestamp_writeTimestamp hvalue hlength
  others j hj := writeTimestamp_other bytes value hj
  upper := by
    unfold writeTimestamp
    rw [getElem!_set_ne _ _ (by omega), getElem!_set_ne _ _ (by omega),
      getElem!_set_ne _ _ (by omega), getElem!_set_ne _ _ (by omega),
      getElem!_set_self (by omega)]
    exact upper_nibble _ _
  markers j hj := by
    unfold writeTimestamp
    simp only [List.mem_cons, List.not_mem_nil, or_false] at hj
    rcases hj with rfl | rfl | rfl
    · rw [getElem!_set_ne _ _ (by omega), getElem!_set_ne _ _ (by omega),
        getElem!_set_ne _ _ (by omega), getElem!_set_ne _ _ (by omega), Nat.add_zero,
        getElem!_set_self (by omega)]
      exact marker_first _ _
    · rw [getElem!_set_ne _ _ (by omega), getElem!_set_ne _ _ (by omega),
        getElem!_set_self (by simp; omega)]
      exact marker_later _
    · rw [getElem!_set_self (by simp; omega)]
      exact marker_later _

/-! ## Written PCR bases -/

/-- A base is written without the bits above its 33. -/
theorem writePcrBase_mask (packet : Bytes) (base : UInt64) :
    writePcrBase packet (base &&& timestampMask) = writePcrBase packet base := by
  have hbyte : ∀ k : UInt64, k.toNat ≤ 25 →
      lowByte ((base &&& timestampMask) >>> k) = lowByte (base >>> k) := by
    intro k hk
    have hsplit : 2 ^ 33 = 2 ^ k.toNat * 2 ^ (33 - k.toNat) := by
      rw [← Nat.pow_add]
      congr 1
      omega
    have hbyte : 256 ∣ 2 ^ (33 - k.toNat) := Nat.pow_dvd_pow 2 (show 8 ≤ 33 - k.toNat by omega)
    apply UInt8.toNat_inj.mp
    rw [toNat_lowByte_shiftRight _ (by omega), toNat_lowByte_shiftRight _ (by omega), toNat_mask,
      hsplit, Nat.mod_mul_right_div_self, Nat.mod_mod_of_dvd _ hbyte]
  have hbit : base &&& timestampMask &&& 1 = base &&& 1 := by
    rw [UInt64.and_assoc]
    rfl
  unfold writePcrBase
  rw [hbyte 25 (by decide), hbyte 17 (by decide), hbyte 9 (by decide), hbyte 1 (by decide), hbit]

theorem reserved_kept (bit low : UInt8) :
    ((bit <<< 7) ||| (low &&& 0x7f)) &&& 0x7f = low &&& 0x7f := by
  apply UInt8.eq_of_toBitVec_eq
  simp only [UInt8.toBitVec_and, UInt8.toBitVec_or, UInt8.toBitVec_shiftLeft]
  ext i hi
  interval_cases i <;> simp

/-- `written` is `packet` with another PCR base; the reserved bits and the extension stay. -/
structure PcrWritten (packet written : Bytes) (base : UInt64) : Prop where
  base : readPcrBase written =
    if hasPcr packet then some (base &&& timestampMask) else none
  extension : written[10]! &&& (0x7f : UInt8) = packet[10]! &&& 0x7f
  others : ∀ j, j < 6 ∨ 11 ≤ j → written[j]! = packet[j]!

theorem pcrWritten {packet : Bytes} (hlength : packet.length = mpegTsPacketSize) (base : UInt64) :
    PcrWritten packet (writePcrBase packet base) base where
  others j hj := writePcrBase_other packet base hj
  extension := by
    have hlong : 11 ≤ packet.length := by
      rw [hlength]
      decide
    unfold writePcrBase
    rw [getElem!_set_self (by simp; omega)]
    exact reserved_kept _ _
  base := by
    by_cases hpcr : hasPcr packet = true
    · have hsmall : (base &&& timestampMask).toNat < 2 ^ 33 := by
        rw [toNat_mask]
        exact Nat.mod_lt _ (by decide)
      rw [if_pos hpcr, ← writePcrBase_mask]
      exact readPcrBase_writePcrBase hsmall hlength hpcr
    · rw [if_neg hpcr, readPcrBase, if_neg]
      rw [hasPcr_congr (b := packet)]
      · exact hpcr
      all_goals rw [writePcrBase_other _ _ (by omega)]

/-! ## The other readers -/

/-- The pacer finds a PCR in the same packets and reads the same base. -/
theorem readPcrBase_parsePcr {packet : Bytes} (hlength : packet.length = mpegTsPacketSize) :
    (readPcrBase packet).map UInt64.toNat =
      (Pacing.parsePcr packet).map fun clock => clock.1 / 300 := by
  have hlong : ¬ packet.length < 12 := by
    rw [hlength]
    decide
  by_cases hpcr : hasPcr packet = true
  · obtain ⟨hcontrol, hsize, hflag⟩ := of_decide_eq_true hpcr
    have hsize : (7 : UInt8).toNat ≤ packet[4]!.toNat := hsize
    simp only [UInt8.reduceToNat] at hsize
    have h7 := packet[7]!.toNat_lt
    have h8 := packet[8]!.toNat_lt
    have h9 := packet[9]!.toNat_lt
    have h10 := packet[10]!.toNat_lt
    have hbase : (packet[6]!.toNat <<< 25) ||| (packet[7]!.toNat <<< 17) |||
        (packet[8]!.toNat <<< 9) ||| (packet[9]!.toNat <<< 1) ||| (packet[10]!.toNat >>> 7) =
        packet[6]!.toNat * 2 ^ 25 + packet[7]!.toNat * 2 ^ 17 + packet[8]!.toNat * 2 ^ 9 +
          packet[9]!.toNat * 2 + packet[10]!.toNat / 2 ^ 7 := by
      simp only [Nat.shiftLeft_eq, Nat.shiftRight_eq_div_pow]
      rw [or_eq_add 25 (_ * 2 ^ 25) _ (by omega) (by omega),
        or_eq_add 17 (_ + _) _ (by omega) (by omega),
        or_eq_add 9 (_ + _ + _) _ (by omega) (by omega),
        or_eq_add 1 (_ + _ + _ + _) _ (by omega) (by omega)]
    rw [readPcrBase, if_pos hpcr, Pacing.parsePcr, if_neg (not_or.mpr ⟨hlong, hcontrol⟩),
      if_neg (not_or.mpr ⟨by omega, hflag⟩), Option.map_some, Option.map_some, toNat_pcr_fields]
    dsimp only
    rw [hbase]
    apply congrArg some
    omega
  · rw [readPcrBase, if_neg hpcr, Pacing.parsePcr]
    split_ifs with hnone hshort
    · rfl
    · rfl
    · refine absurd (decide_eq_true ⟨fun h => hnone (.inr h), ?_, fun h => hshort (.inr h)⟩) hpcr
      have hsize : 7 ≤ packet[4]!.toNat := by
        apply Nat.le_of_not_lt
        exact fun h => hshort (.inl h)
      exact hsize

/-- The meter reads a field as the splicer does. -/
theorem meter_readTimestamp (bytes : Bytes) (offset : Nat) :
    Meter.readTimestamp bytes offset = (readTimestamp (bytes.drop offset)).toNat := by
  have hmiddle : (bytes[offset + 2]! >>> 1).toNat = bytes[offset + 2]!.toNat >>> 1 := by
    rw [UInt8.toNat_shiftRight]
    rfl
  have h1 := bytes[offset + 1]!.toNat_lt
  have h2 := bytes[offset + 2]!.toNat_lt
  have h3 := bytes[offset + 3]!.toNat_lt
  have h4 := bytes[offset + 4]!.toNat_lt
  rw [Nat.shiftRight_eq_div_pow] at hmiddle
  simp only [readTimestamp, getElem!_drop, Nat.add_zero]
  rw [toNat_timestamp_fields _ _ _ _ _ (by omega), hmiddle]
  simp only [Meter.readTimestamp, Nat.shiftLeft_eq, Nat.shiftRight_eq_div_pow]
  rw [or_eq_add 30 (_ * 2 ^ 30) _ (by omega) (by omega),
    or_eq_add 22 (_ + _) _ (by omega) (by omega),
    or_eq_add 15 (_ + _ + _) _ (by omega) (by omega),
    or_eq_add 7 (_ + _ + _ + _) _ (by omega) (by omega)]

/-- A packet with an adaptation field and payload. -/
theorem adaptation_flag_of_both {control : UInt8} (h : (control >>> 4) &&& 0x03 = 3) :
    control &&& 0x20 ≠ 0 := by
  intro hzero
  have hbit := congrArg (fun x => x.toBitVec.getLsbD 1) h
  have hclear := congrArg (fun x => x.toBitVec.getLsbD 5) hzero
  simp [UInt8.toBitVec_and, UInt8.toBitVec_shiftRight] at hbit hclear
  rw [hbit] at hclear
  cases hclear

/-- The meter looks for the PES packet where the splicer does. -/
theorem pesHeader_meterStart {packet : Bytes} {start headerLength : Nat}
    (h : pesHeader packet = some (start, headerLength)) :
    (if packet[3]! &&& 0x20 ≠ 0 then 5 + packet[4]!.toNat else 4) = start := by
  have hstart := pesHeader_start h
  unfold payloadOffset at hstart
  dsimp only at hstart
  split_ifs at hstart with hplain hboth hfits
  · cases hstart
    exact if_neg (not_not.mpr (adaptation_flag hplain))
  · cases hstart
    exact if_pos (adaptation_flag_of_both hboth)

/-- `ticks` is the number in the decode timestamp field of a PES packet at `start`: the DTS if it
has both fields, else the PTS. -/
def DecodeField (packet : Bytes) (start ticks : Nat) : Prop :=
  (packet[start + 7]! >>> 6 = 0x03 ∧ ticks = (readTimestamp (packet.drop (start + 14))).toNat) ∨
    (packet[start + 7]! >>> 6 = 0x02 ∧ (readPesPts packet).map UInt64.toNat = some ticks)

/-- The two flag bits of a header with a PTS alone. -/
theorem pts_flag {flags : UInt8} (h : flags >>> 6 = 2) : flags &&& 0x80 ≠ 0 := by
  intro hzero
  have hbit := congrArg (fun x => x.toBitVec.getLsbD 1) h
  have hclear := congrArg (fun x => x.toBitVec.getLsbD 7) hzero
  simp [UInt8.toBitVec_and, UInt8.toBitVec_shiftRight] at hbit hclear
  rw [hbit] at hclear
  cases hclear

theorem pesDecodeTimestamp_field {packet : Bytes} {start headerLength ticks : Nat}
    (hheader : pesHeader packet = some (start, headerLength))
    (hticks : Meter.pesDecodeTimestamp packet = some ticks) : DecodeField packet start ticks := by
  have hplace := pesHeader_meterStart hheader
  unfold Meter.pesDecodeTimestamp at hticks
  dsimp only at hticks
  rw [hplace] at hticks
  split_ifs at hticks with hpacket hlong hpes hdts hshort hpts
  · rw [getElem!_drop] at hdts
    refine .inl ⟨hdts, ?_⟩
    rw [← Option.some.inj hticks, meter_readTimestamp, List.drop_drop]
  · rw [getElem!_drop] at hpts
    have hbytes : 14 ≤ (packet.drop start).length := by
      apply Nat.le_of_not_lt
      exact fun h => hpes (.inl h)
    refine .inr ⟨hpts, ?_⟩
    rw [← Option.some.inj hticks, meter_readTimestamp]
    unfold readPesPts
    rw [hheader]
    show (if _ then _ else none : Option UInt64).map UInt64.toNat = _
    rw [getElem!_drop, if_pos ⟨pts_flag hpts, hbytes⟩]
    rfl

/-- What is written into a clock field is read back, nothing else of the packet changes, and the
pacer and the meter read the same number. -/
theorem clock_fields :
    (∀ (bytes : Bytes) (start : Nat) (value : UInt64), start + 5 ≤ bytes.length →
      value.toNat < 2 ^ 33 →
      TimestampWritten bytes (writeTimestamp bytes start value) start value) ∧
    (∀ (packet : Bytes) (base : UInt64), packet.length = mpegTsPacketSize →
      PcrWritten packet (writePcrBase packet base) base) ∧
    (∀ (bytes : Bytes) (offset : Nat),
      Meter.readTimestamp bytes offset = (readTimestamp (bytes.drop offset)).toNat) ∧
    ∀ packet : Bytes, packet.length = mpegTsPacketSize →
      (readPcrBase packet).map UInt64.toNat =
        (Pacing.parsePcr packet).map (fun clock => clock.1 / 300) ∧
      ∀ start headerLength ticks, pesHeader packet = some (start, headerLength) →
        Meter.pesDecodeTimestamp packet = some ticks → DecodeField packet start ticks :=
  ⟨fun _ _ _ hlength hvalue => timestampWritten hvalue hlength,
    fun _ base hlength => pcrWritten hlength base, meter_readTimestamp,
    fun _ hlength => ⟨readPcrBase_parsePcr hlength,
      fun _ _ _ hheader hticks => pesDecodeTimestamp_field hheader hticks⟩⟩

/-- A packet with a PCR field and one with payload alone. -/
def clockPacket : Bytes := [0x47, 0x01, 0x00, 0x20, 0xb7, 0x10] ++ List.replicate 182 0x00

def payloadPacket : Bytes := [0x47, 0x01, 0x00, 0x10] ++ List.replicate 184 0xff

theorem clock_fields_at_limit :
    readTimestamp ((writeTimestamp [0x31, 0x00, 0x01, 0x00, 0x01] 0 0x1ffffffff).drop 0) =
        0x1ffffffff ∧
      readPcrBase (writePcrBase clockPacket 0x1ffffffff) =
        (if hasPcr clockPacket then some (0x1ffffffff &&& timestampMask) else none) ∧
      hasPcr clockPacket = true :=
  ⟨(clock_fields.1 [0x31, 0x00, 0x01, 0x00, 0x01] 0 0x1ffffffff (by decide) (by decide)).value,
    (clock_fields.2.1 clockPacket 0x1ffffffff rfl).base, by decide⟩

/-- Without a PCR field the five bytes are overwritten all the same, and no base is read. -/
theorem base_not_read_back :
    ¬ ∀ (packet : Bytes) (base : UInt64), packet.length = mpegTsPacketSize →
      base.toNat < 2 ^ 33 → readPcrBase (writePcrBase packet base) = some base := by
  intro h
  have hread := h payloadPacket 1 rfl (by decide)
  have hnone : readPcrBase (writePcrBase payloadPacket 1) = none := rfl
  rw [hnone] at hread
  cases hread

end IptvRelay.Slate
