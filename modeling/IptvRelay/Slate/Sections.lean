import IptvRelay.Lib.Crc
import IptvRelay.Media.Transport
import IptvRelay.Slate.PmtReaders

/-!
# Sections that the muxer writes

The checksum of the PSI tables is a division register of 32 bits, so a section with its checksum
behind it passes the check. The stream entries of a written PMT read back as they were written.
-/

namespace IptvRelay.Slate

open Media Psi

/-! ## The checksum -/

def crcPolynomial : BitVec 32 := 0x04c11db7#32

theorem and_msb_ne_zero (crc : UInt32) :
    crc &&& 0x80000000 ≠ 0 ↔ crc.toBitVec.msb = true := by
  have hmask : (crc &&& 0x80000000).toBitVec =
      if crc.toBitVec.msb then 0x80000000#32 else 0#32 := by
    apply BitVec.eq_of_getLsbD_eq
    intro i hi
    have hbit : (0x80000000#32).getLsbD i = decide (i = 31) := by
      revert hi
      revert i
      decide
    rw [UInt32.toBitVec_and, BitVec.getLsbD_and]
    change (crc.toBitVec.getLsbD i && (0x80000000#32).getLsbD i) = _
    rw [hbit, BitVec.msb_eq_getLsbD_last]
    by_cases hlast : i = 31
    · subst hlast
      cases crc.toBitVec.getLsbD 31 <;> rfl
    · cases crc.toBitVec.getLsbD (32 - 1) <;> simp [hlast, hbit]
  rw [← not_iff_not, not_not, ← UInt32.toBitVec_inj, hmask]
  cases crc.toBitVec.msb <;> decide

theorem mpegCrc32Bit_toBitVec (crc : UInt32) :
    (mpegCrc32Bit crc).toBitVec = Crc.shift crcPolynomial crc.toBitVec := by
  unfold mpegCrc32Bit Crc.shift
  by_cases h : crc &&& 0x80000000 ≠ 0
  · rw [if_pos h, if_pos ((and_msb_ne_zero crc).mp h)]
    rfl
  · rw [if_neg h, if_neg (mt (and_msb_ne_zero crc).mpr h)]
    rfl

theorem mpegCrc32Byte_toBitVec (crc : UInt32) (byte : UInt8) :
    (mpegCrc32Byte crc byte).toBitVec = Crc.absorb crcPolynomial crc.toBitVec byte.toBitVec := by
  have hsteps : ∀ (n : Nat) (crc : UInt32), (mpegCrc32Bit^[n] crc).toBitVec =
      (Crc.shift crcPolynomial)^[n] crc.toBitVec := by
    intro n
    induction n with
    | zero => exact fun _ => rfl
    | succ n ih =>
      intro crc
      rw [Function.iterate_succ_apply, Function.iterate_succ_apply, ih, mpegCrc32Bit_toBitVec]
  exact hsteps 8 _

theorem mpegCrc32_toBitVec (bytes : Bytes) :
    (mpegCrc32 bytes).toBitVec =
      Crc.remainder crcPolynomial 0xffffffff#32 (bytes.map UInt8.toBitVec) := by
  have hfold : ∀ (bytes : Bytes) (crc : UInt32), (bytes.foldl mpegCrc32Byte crc).toBitVec =
      Crc.remainder crcPolynomial crc.toBitVec (bytes.map UInt8.toBitVec) := by
    intro bytes
    induction bytes with
    | nil => exact fun _ => rfl
    | cons byte rest ih =>
      intro crc
      rw [List.foldl_cons, ih, mpegCrc32Byte_toBitVec]
      rfl
  exact hfold bytes _

theorem topByte_shiftLeft (value : BitVec 32) {k : Nat} (hk : k ≤ 24) :
    Crc.topByte (value <<< (24 - k)) = (value >>> k).setWidth 8 := by
  apply BitVec.eq_of_getLsbD_eq
  intro i hi
  have hadd : 24 + i - (24 - k) = k + i := by omega
  simp only [Crc.topByte, BitVec.getLsbD_extractLsb', BitVec.getLsbD_shiftLeft,
    BitVec.getLsbD_setWidth, BitVec.getLsbD_ushiftRight, hi, decide_true, Bool.true_and,
    show 32 - 8 + i - (24 - k) = k + i by omega, show 32 - 8 + i < 32 by omega,
    show ¬ 32 - 8 + i < 24 - k by omega, decide_false, Bool.not_false]

theorem beBytes_toBitVec (value : UInt32) :
    (beBytes value).map UInt8.toBitVec = Crc.bytes 4 value.toBitVec := by
  have hfirst := topByte_shiftLeft value.toBitVec (show 24 ≤ 24 by decide)
  have hsecond := topByte_shiftLeft value.toBitVec (show 16 ≤ 24 by decide)
  have hthird := topByte_shiftLeft value.toBitVec (show 8 ≤ 24 by decide)
  have hlast := topByte_shiftLeft value.toBitVec (show 0 ≤ 24 by decide)
  simp only [Nat.sub_self, BitVec.shiftLeft_zero, Nat.reduceSub] at hfirst hsecond hthird hlast
  simp only [beBytes, Crc.bytes, List.map_cons, List.map_nil, ← BitVec.shiftLeft_add,
    Nat.reduceAdd, hfirst, hsecond, hthird, hlast]
  rfl

/-- **The residue law** of the PSI checksum. -/
theorem mpegCrc32_appendCrc (sect : Bytes) : mpegCrc32 (appendCrc sect) = 0 := by
  apply UInt32.toBitVec_inj.mp
  rw [mpegCrc32_toBitVec, appendCrc, List.map_append, beBytes_toBitVec, mpegCrc32_toBitVec]
  exact Crc.remainder_self crcPolynomial (by decide) (by decide) _ _

/-! ## Stream entries -/

theorem reserved_bits : (∀ high : Fin 16, (0xf0 ||| .ofNat high.val) &&& 0x0f =
      (.ofNat high.val : UInt8)) ∧
    ∀ high : Fin 32, (0xe0 ||| .ofNat high.val) &&& 0x1f = (.ofNat high.val : UInt8) := by
  decide

theorem u16OrZero_toNat {n : Nat} (h : n < 2 ^ 16) : (u16OrZero n).toNat = n := by
  rw [u16OrZero, if_pos h, UInt16.toNat_ofNat', Nat.mod_eq_of_lt h]

theorem highByte_toNat (value : UInt16) : (highByte value).toNat = value.toNat / 2 ^ 8 := by
  have := value.toNat_lt
  simp only [highByte, UInt16.toNat_toUInt8, UInt16.toNat_shiftRight, Nat.shiftRight_eq_div_pow]
  change value.toNat / 2 ^ 8 % 2 ^ 8 = _
  omega

theorem lengthField_split {n : Nat} (h : n < 2 ^ 12) :
    lengthField (0xf0 ||| highByte (u16OrZero n)) (u16OrZero n).toUInt8 = n := by
  have hn : (u16OrZero n).toNat = n := u16OrZero_toNat (by omega)
  have hhigh : (highByte (u16OrZero n)).toNat = n / 2 ^ 8 := by rw [highByte_toNat, hn]
  have hmask : (0xf0 ||| highByte (u16OrZero n)) &&& 0x0f = highByte (u16OrZero n) := by
    have := reserved_bits.1 ⟨(highByte (u16OrZero n)).toNat, by omega⟩
    simpa only [UInt8.ofNat_toNat] using this
  have hlow : (u16OrZero n).toUInt8.toNat = n % 2 ^ 8 := by rw [UInt16.toNat_toUInt8, hn]
  rw [lengthField, hmask, hhigh, hlow, ← Nat.shiftLeft_add_eq_or_of_lt (by omega),
    Nat.shiftLeft_eq]
  omega

theorem pidOf_split {pid : UInt16} (h : pid < 0x2000) :
    pidOf (0xe0 ||| highByte pid) pid.toUInt8 = pid := by
  have hlt := UInt8.lt_iff_toNat_lt.mp (highByte_lt h)
  have hmask : (0xe0 ||| highByte pid) &&& 0x1f = highByte pid := by
    have := reserved_bits.2 ⟨(highByte pid).toNat, hlt⟩
    simpa only [UInt8.ofNat_toNat] using this
  have hpid : pidOf (0xe0 ||| highByte pid) pid.toUInt8 = be16 (highByte pid) pid.toUInt8 := by
    rw [pidOf, hmask]
    rfl
  rw [hpid]
  exact be16_split pid

/-- An entry as `pmt_section` writes it. -/
def encodeEntry (entry : EsEntry) : Bytes :=
  [entry.streamType, 0xe0 ||| highByte entry.pid, entry.pid.toUInt8,
    0xf0 ||| highByte (u16OrZero entry.descriptors.length),
    (u16OrZero entry.descriptors.length).toUInt8] ++ entry.descriptors

/-- The fields of the entry fit in their bits. -/
structure EsEntry.Fits (entry : EsEntry) : Prop where
  pid : entry.pid < 0x2000
  length : entry.descriptors.length < 2 ^ 12

theorem length_encodeEntry (entry : EsEntry) :
    (encodeEntry entry).length = 5 + entry.descriptors.length := by
  simp only [encodeEntry, List.length_append, List.length_cons, List.length_nil]

theorem getElem!_append_add {before after : Bytes} {offset : Nat}
    (h : before.length = offset) (i : Nat) : (before ++ after)[offset + i]! = after[i]! := by
  subst h
  simp [List.getElem!_eq_getElem?_getD, List.getElem?_append_right]

theorem slice_append (before middle after : Bytes) :
    ((before ++ (middle ++ after)).take (before.length + middle.length)).drop before.length =
      middle := by
  simp [List.take_append]

/-- Both loops read the entries back, whatever stands before and behind them. -/
theorem read_entries (entries : List EsEntry) (hfits : ∀ entry ∈ entries, entry.Fits)
    (before after : Bytes) {offset streamsEnd : Nat} (fuel : Nat) (hoffset : before.length = offset)
    (hend : streamsEnd = offset + (entries.flatMap encodeEntry).length)
    (hfuel : entries.length < fuel) :
    pmtStreamsFrom (before ++ entries.flatMap encodeEntry ++ after) streamsEnd fuel offset =
        some (entries.map EsEntry.info) ∧
      pmtEntriesFrom (before ++ entries.flatMap encodeEntry ++ after) streamsEnd fuel offset =
        entries := by
  induction entries generalizing before offset fuel with
  | nil =>
    obtain ⟨fuel, rfl⟩ := Nat.exists_eq_succ_of_ne_zero (Nat.ne_of_gt hfuel)
    have : streamsEnd = offset := by simpa using hend
    simp [pmtStreamsFrom, pmtEntriesFrom, this]
  | cons entry rest ih =>
    obtain ⟨fuel, rfl⟩ := Nat.exists_eq_succ_of_ne_zero (Nat.ne_of_gt (Nat.zero_lt_of_lt hfuel))
    have hfit := hfits entry (by simp)
    have hlen := length_encodeEntry entry
    rw [List.flatMap_cons, List.length_append, hlen] at hend
    rw [List.length_cons] at hfuel
    have hsect : before ++ (entry :: rest).flatMap encodeEntry ++ after =
        before ++ encodeEntry entry ++ rest.flatMap encodeEntry ++ after := by
      simp
    have hgrown : (before ++ encodeEntry entry).length = offset + 5 + entry.descriptors.length := by
      rw [List.length_append, hlen]
      omega
    obtain ⟨ihStreams, ihEntries⟩ := ih (fun other h => hfits other (by simp [h])) _ fuel hgrown
      (by omega) (by omega)
    have hget : ∀ i, (before ++ encodeEntry entry ++ rest.flatMap encodeEntry ++ after)[offset + i]!
        = (encodeEntry entry ++ (rest.flatMap encodeEntry ++ after))[i]! := by
      intro i
      simp only [List.append_assoc]
      exact getElem!_append_add hoffset i
    have hnext : offset + 5 + lengthField
        (before ++ encodeEntry entry ++ rest.flatMap encodeEntry ++ after)[offset + 3]!
        (before ++ encodeEntry entry ++ rest.flatMap encodeEntry ++ after)[offset + 4]! =
          offset + 5 + entry.descriptors.length := by
      rw [hget 3, hget 4]
      exact congrArg (offset + 5 + ·) (lengthField_split hfit.length)
    have hpid : pidOf
        (before ++ encodeEntry entry ++ rest.flatMap encodeEntry ++ after)[offset + 1]!
        (before ++ encodeEntry entry ++ rest.flatMap encodeEntry ++ after)[offset + 2]! =
          entry.pid := by
      rw [hget 1, hget 2]
      exact pidOf_split hfit.pid
    have htype : (before ++ encodeEntry entry ++ rest.flatMap encodeEntry ++ after)[offset]! =
        entry.streamType := hget 0
    have hdescriptors : ((before ++ encodeEntry entry ++ rest.flatMap encodeEntry ++ after).take
        (offset + 5 + entry.descriptors.length)).drop (offset + 5) = entry.descriptors := by
      have hsplit : before ++ encodeEntry entry ++ rest.flatMap encodeEntry ++ after =
          (before ++ (encodeEntry entry).take 5) ++
            (entry.descriptors ++ (rest.flatMap encodeEntry ++ after)) := by
        simp [encodeEntry]
      have hhead : (before ++ (encodeEntry entry).take 5).length = offset + 5 := by
        simp [encodeEntry, hoffset]
      rw [hsplit, ← hhead]
      exact slice_append _ _ _
    have hroom : ¬ (before ++ encodeEntry entry ++ rest.flatMap encodeEntry ++ after).length <
        offset + 5 := by
      simp only [List.length_append, hlen]
      omega
    rw [hsect]
    simp only [pmtStreamsFrom, pmtEntriesFrom, hnext, hpid, htype, hdescriptors]
    rw [if_pos (by omega), if_neg hroom, if_neg (by omega), if_pos (by omega), ihStreams,
      ihEntries]
    exact ⟨rfl, rfl⟩

end IptvRelay.Slate
