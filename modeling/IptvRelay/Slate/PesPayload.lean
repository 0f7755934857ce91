import IptvRelay.Media.Transport
import IptvRelay.Slate.ClockFields

/-!
# The payload of a forwarded packet

Forwarding changes the PID, the counter and the PCR in front of the payload, and the timestamps
of a PES header that the payload begins with. `rebaseUnit` is what it does to such a payload.
-/

namespace IptvRelay.Slate

open Media Psi Muxing

/-- The packet that `forward` writes for a stream packet. -/
def forwardedPacket (offset : UInt64) (role : Role) (counter : UInt8) (packet : Bytes) : Bytes :=
  (rebasePes {} role offset
    (rebasePcr {} offset (setCounter (retarget packet role) (counter &&& 0x0f))).2).2

/-- The payload of a packet with a usable header. -/
def payloadOf (packet : Bytes) : Bytes := (packetHeader packet).elim [] PacketHeader.payload

/-- The PTS and DTS flags of a PES packet that begins with these bytes. -/
def pesFlags (pes : Bytes) : Option UInt8 :=
  if pes.length < 9 ∨ pes.take 3 ≠ [0x00, 0x00, 0x01] ∨ plainStreamIds.contains pes[3]! = true then
    none
  else some (pes[7]! >>> 6)

def rebaseAt (present : Bool) (place : Nat) (offset : UInt64) (payload : Bytes) : Bytes :=
  if present && decide (place + 5 ≤ payload.length) then
    writeTimestamp payload place (rebase offset (readTimestamp (payload.drop place)))
  else payload

/-- Rebase the timestamps that lie in the payload of a PES start. -/
def rebaseUnit (offset : UInt64) (payload : Bytes) : Bytes :=
  (pesFlags payload).elim payload fun flags =>
    rebaseAt (hasDts flags) 14 offset (rebaseAt (hasPts flags) 9 offset payload)

/-! ## Writing behind a header -/

theorem set_behind (head tail : Bytes) (i : Nat) (value : UInt8) :
    (head ++ tail).set (head.length + i) value = head ++ tail.set i value := by
  simp [List.set_append_right]

theorem get_behind (head tail : Bytes) (i : Nat) : (head ++ tail)[head.length + i]! = tail[i]! := by
  simp [List.getElem!_eq_getElem?_getD, List.getElem?_append_right]

theorem writeTimestamp_behind (head tail : Bytes) (place : Nat) (value : UInt64) :
    writeTimestamp (head ++ tail) (head.length + place) value =
      head ++ writeTimestamp tail place value := by
  simp only [writeTimestamp, get_behind, set_behind, Nat.add_assoc]

theorem drop_behind (head tail : Bytes) (place : Nat) :
    (head ++ tail).drop (head.length + place) = tail.drop place := by
  simp [List.drop_append]

theorem length_rebaseAt (present : Bool) (place : Nat) (offset : UInt64) (payload : Bytes) :
    (rebaseAt present place offset payload).length = payload.length := by
  unfold rebaseAt
  split
  · exact length_writeTimestamp _ _ _
  · rfl

theorem length_rebaseUnit (offset : UInt64) (payload : Bytes) :
    (rebaseUnit offset payload).length = payload.length := by
  unfold rebaseUnit
  cases pesFlags payload with
  | none => rfl
  | some flags => simp [length_rebaseAt]

/-- The first nine bytes of a PES packet are in front of the timestamps. -/
theorem rebaseUnit_early (offset : UInt64) (payload : Bytes) {j : Nat} (hj : j < 9) :
    (rebaseUnit offset payload)[j]! = payload[j]! := by
  have hfield : ∀ (present : Bool) (place : Nat) (bytes : Bytes), 9 ≤ place →
      (rebaseAt present place offset bytes)[j]! = bytes[j]! := by
    intro present place bytes hplace
    unfold rebaseAt
    split
    · exact writeTimestamp_other _ _ (by omega)
    · rfl
  unfold rebaseUnit
  cases pesFlags payload with
  | none => rfl
  | some flags =>
    rw [Option.elim_some, hfield _ _ _ (by decide), hfield _ _ _ (by decide)]

theorem rebaseField_behind (present : Bool) (head tail : Bytes) (place : Nat) (offset : UInt64)
    (latest : Option UInt64) (hlength : (head ++ tail).length = mpegTsPacketSize) :
    (rebaseField present (head.length + place) offset (head ++ tail, latest)).1 =
      head ++ rebaseAt present place offset tail := by
  rw [List.length_append] at hlength
  have hfits : decide (head.length + place + 5 ≤ mpegTsPacketSize) =
      decide (place + 5 ≤ tail.length) := decide_eq_decide.mpr (by omega)
  rw [rebaseField_eq, hfits, rebaseAt, drop_behind]
  split
  · exact writeTimestamp_behind _ _ _ _
  · rfl

theorem pesHeader_behind {head tail : Bytes}
    (hoffset : payloadOffset (head ++ tail) = some head.length) :
    (pesHeader (head ++ tail)).map Prod.fst = (pesFlags tail).map fun _ => head.length := by
  have hdrop : (head ++ tail).drop head.length = tail := List.drop_left
  unfold pesHeader pesFlags
  simp only [hoffset, Option.bind_eq_bind, Option.bind_some, hdrop]
  by_cases hshort : tail.length < 9 ∨ tail.take 3 ≠ [0x00, 0x00, 0x01]
  · rw [if_pos hshort, if_pos (by tauto)]
    rfl
  · rw [if_neg hshort]
    by_cases hplain : plainStreamIds.contains tail[3]! = true
    · rw [if_pos hplain, if_pos (by tauto)]
      rfl
    · rw [if_neg hplain, if_neg (by tauto)]
      rfl

/-- The timestamps of a PES start are those of its payload. -/
theorem rebasePesTimestamps_behind {head tail : Bytes} (offset : UInt64)
    (hoffset : payloadOffset (head ++ tail) = some head.length)
    (hlength : (head ++ tail).length = mpegTsPacketSize) :
    (rebasePesTimestamps (head ++ tail) offset).1 = head ++ rebaseUnit offset tail := by
  have hheader := pesHeader_behind hoffset
  unfold rebasePesTimestamps rebaseUnit
  cases hfound : pesHeader (head ++ tail) with
  | none =>
    rw [hfound, Option.map_none] at hheader
    rw [Option.map_eq_none_iff.mp hheader.symm]
    rfl
  | some header =>
    obtain ⟨start, headerLength⟩ := header
    rw [hfound, Option.map_some] at hheader
    obtain ⟨flags, hflags, hstart⟩ := Option.map_eq_some_iff.mp hheader.symm
    have hvalue : flags = (head ++ tail)[head.length + 7]! >>> 6 := by
      rw [get_behind]
      unfold pesFlags at hflags
      split at hflags
      · cases hflags
      · exact (Option.some.inj hflags).symm
    dsimp only at hstart
    subst hstart
    rw [hflags, hvalue]
    have hpts := rebaseField_behind (hasPts ((head ++ tail)[head.length + 7]! >>> 6)) head tail 9
      offset none hlength
    simp only [Option.elim_some]
    rw [show decide ((head ++ tail)[head.length + 7]! >>> 6 &&& 0x02 ≠ 0) =
        hasPts ((head ++ tail)[head.length + 7]! >>> 6) from rfl,
      show decide ((head ++ tail)[head.length + 7]! >>> 6 = 0x03) =
        hasDts ((head ++ tail)[head.length + 7]! >>> 6) from rfl]
    generalize hfield : rebaseField (hasPts ((head ++ tail)[head.length + 7]! >>> 6))
      (head.length + 9) offset (head ++ tail, none) = rebased at hpts ⊢
    obtain ⟨bytes, latest⟩ := rebased
    dsimp only at hpts
    subst hpts
    refine rebaseField_behind _ head _ 14 offset latest ?_
    rw [List.length_append, length_rebaseAt, ← List.length_append, hlength]

/-! ## Forwarding -/

/-- Where the payload of a packet begins. -/
def payloadStart (packet : TransportPacket) : Nat := mpegTsPacketSize - packet.payload.length

/-- A packet with the layout of `packet`. -/
structure SameLayout (packet : TransportPacket) (output : Bytes) : Prop where
  length : output.length = mpegTsPacketSize
  sync : output[0]! = 0x47
  flags : output[1]! &&& (0xc0 : UInt8) = packet.encode[1]! &&& (0xc0 : UInt8)
  control : output[3]! >>> 4 = packet.encode[3]! >>> 4
  field : output[4]! = packet.encode[4]!

theorem masks_of_high {a b : UInt8} (h : a &&& (0xc0 : UInt8) = b &&& (0xc0 : UInt8)) :
    a &&& (0x80 : UInt8) = b &&& (0x80 : UInt8) ∧ a &&& (0x40 : UInt8) = b &&& (0x40 : UInt8) := by
  have hsplit : ∀ x : UInt8, x &&& (0x80 : UInt8) = (x &&& 0xc0) &&& 0x80 ∧
      x &&& (0x40 : UInt8) = (x &&& 0xc0) &&& 0x40 := by
    intro x
    rw [UInt8.and_assoc, UInt8.and_assoc]
    exact ⟨rfl, rfl⟩
  rw [(hsplit a).1, (hsplit a).2, h, ← (hsplit b).1, ← (hsplit b).2]
  exact ⟨rfl, rfl⟩

theorem scrambling_of_control {a b : UInt8} (h : a >>> 4 = b >>> 4) :
    a &&& (0xc0 : UInt8) = b &&& (0xc0 : UInt8) := by
  have hsplit : ∀ x : UInt8, x &&& (0xc0 : UInt8) = ((x >>> 4) <<< 4) &&& (0xc0 : UInt8) := by
    intro x
    apply UInt8.eq_of_toBitVec_eq
    simp only [UInt8.toBitVec_and, UInt8.toBitVec_shiftRight, UInt8.toBitVec_shiftLeft]
    ext i hi
    interval_cases i <;> simp
  rw [hsplit a, h, ← hsplit b]

/-- The fields of the encoded packet that say where the payload begins. -/
theorem encode_layout (packet : TransportPacket) :
    packet.encode[0]! = 0x47 ∧ packet.encode[1]! &&& 0x80 = 0 ∧
      (packet.encode[1]! &&& 0x40 ≠ 0 ↔ packet.payloadUnitStart = true) ∧
      packet.encode[3]! &&& 0xc0 = 0 ∧
      ((packet.encode[3]! >>> 4) &&& 0x03 = 1 ∧ payloadStart packet = 4 ∨
        (packet.encode[3]! >>> 4) &&& 0x03 = 3 ∧
          payloadStart packet = 5 + packet.encode[4]!.toNat) := by
  obtain ⟨_, hstart, herror⟩ := packet.flags_high
  obtain ⟨_, hscrambling, hcontrol⟩ := packet.control_counter
  have hsize := packet.size
  refine ⟨rfl, herror, hstart, hscrambling, ?_⟩
  cases hfield : packet.adaptation with
  | none =>
    rw [hfield] at hcontrol hsize
    refine .inl ⟨hcontrol, ?_⟩
    rw [Option.elim_none] at hsize
    unfold payloadStart
    omega
  | some field =>
    rw [hfield] at hcontrol hsize
    refine .inr ⟨hcontrol, ?_⟩
    rw [Option.elim_some] at hsize
    have hbyte : packet.encode[4]! = .ofNat field.length := by
      simp [TransportPacket.encode, TransportPacket.header, TransportPacket.adaptationField, hfield]
    have hcount : (UInt8.ofNat field.length).toNat = field.length := by
      have : mpegTsPacketSize = 188 := rfl
      simp
      omega
    rw [hbyte, hcount]
    unfold payloadStart
    omega

theorem SameLayout.payloadOf {packet : TransportPacket} {output : Bytes}
    (h : SameLayout packet output) : payloadOf output = output.drop (payloadStart packet) := by
  obtain ⟨-, herror, -, hscrambling, hcontrol⟩ := encode_layout packet
  have hstart : payloadStart packet ≤ mpegTsPacketSize := Nat.sub_le _ _
  have hhead : ¬ (output.length ≠ mpegTsPacketSize ∨ output[0]! ≠ 0x47 ∨ output[1]! &&& 0x80 ≠ 0 ∨
      output[3]! &&& 0xc0 ≠ 0) := by
    rintro (hne | hne | hne | hne)
    · exact hne h.length
    · exact hne h.sync
    · exact hne ((masks_of_high h.flags).1.trans herror)
    · exact hne ((scrambling_of_control h.control).trans hscrambling)
  unfold Slate.payloadOf packetHeader
  rw [if_neg hhead]
  simp only [h.control, h.field, h.length]
  rcases hcontrol with ⟨hcontrol, hfour⟩ | ⟨hcontrol, hfield⟩
  · have hone : ¬ (1 : UInt8) = 3 := by decide
    rw [hcontrol, if_neg (by decide), if_neg hone, if_neg (by decide), hfour]
    rfl
  · rw [hcontrol, if_neg (by decide), if_pos rfl, if_neg (by omega), hfield]
    rfl

/-- The muxer finds the payload where it is, if there is one. -/
theorem SameLayout.payloadOffset {packet : TransportPacket} {output : Bytes}
    (h : SameLayout packet output) : payloadOffset output =
      if packet.payload = [] then none else some (payloadStart packet) := by
  obtain ⟨-, -, -, -, hcontrol⟩ := encode_layout packet
  have hpayload := packet.length_payload_le
  have hsize : mpegTsPacketSize = 188 := rfl
  unfold Slate.payloadOffset
  simp only [h.control, h.field]
  by_cases hempty : packet.payload = []
  · have hstart : payloadStart packet = mpegTsPacketSize := by simp [payloadStart, hempty]
    rcases hcontrol with ⟨hcontrol, hfour⟩ | ⟨hcontrol, hfield⟩
    · omega
    · rw [hcontrol, if_neg (by decide), if_pos rfl, if_neg (by omega), if_pos hempty]
  · have hlong : 0 < packet.payload.length := List.length_pos_iff.mpr hempty
    have hstart : payloadStart packet < mpegTsPacketSize := by
      unfold payloadStart
      omega
    rw [if_neg hempty]
    rcases hcontrol with ⟨hcontrol, hfour⟩ | ⟨hcontrol, hfield⟩
    · rw [hcontrol, if_pos rfl, hfour]
    · rw [hcontrol, if_neg (by decide), if_pos rfl, if_pos (by omega), hfield]

theorem sameLayout_encode (packet : TransportPacket) : SameLayout packet packet.encode :=
  ⟨packet.length_encode, rfl, rfl, rfl, rfl⟩

/-- Bytes of a packet with a new PID and a new counter. -/
theorem retargeted_bytes (packet : Bytes) (hlength : packet.length = mpegTsPacketSize) (role : Role)
    (counter : UInt8) :
    (setCounter (retarget packet role) counter)[1]! =
        (packet[1]! &&& 0xe0) ||| (highByte role.outputPid &&& 0x1f) ∧
      (setCounter (retarget packet role) counter)[3]! = (packet[3]! &&& 0xf0) ||| counter ∧
      ∀ j, j = 0 ∨ 4 ≤ j → (setCounter (retarget packet role) counter)[j]! = packet[j]! := by
  have hsize : mpegTsPacketSize = 188 := rfl
  refine ⟨?_, ?_, fun j hj => ?_⟩
  · rw [setCounter, getElem!_set_ne _ _ (by decide), retarget, getElem!_set_ne _ _ (by decide),
      getElem!_set_self (by omega)]
  · rw [setCounter, getElem!_set_self (by simp [retarget]; omega), retarget,
      getElem!_set_ne _ _ (by decide), getElem!_set_ne _ _ (by decide)]
  · rw [setCounter, retarget, getElem!_set_ne _ _ (by omega), getElem!_set_ne _ _ (by omega),
      getElem!_set_ne _ _ (by omega)]

theorem SameLayout.retarget {packet : TransportPacket} (role : Role) (counter : UInt8) :
    SameLayout packet (setCounter (Muxing.retarget packet.encode role) (counter &&& 0x0f)) := by
  obtain ⟨hflags, hcontrol, hother⟩ :=
    retargeted_bytes packet.encode packet.length_encode role (counter &&& 0x0f)
  refine ⟨?_, ?_, ?_, ?_, hother 4 (.inr (le_refl 4))⟩
  · simp [setCounter, Muxing.retarget, packet.length_encode]
  · rw [hother 0 (.inl rfl)]
    rfl
  · rw [hflags]
    rw [or_and, UInt8.and_assoc, UInt8.and_assoc]
    exact (congrArg (_ ||| ·) UInt8.and_zero).trans UInt8.or_zero
  · rw [hcontrol, (counter_keeps_control packet.encode[3]! counter).1]

/-- A new PCR leaves the layout and everything behind the adaptation field alone. -/
theorem SameLayout.rebasePcr {packet : TransportPacket} {output : Bytes}
    (h : SameLayout packet output) (offset : UInt64) :
    SameLayout packet (Muxing.rebasePcr {} offset output).2 ∧
      ((Muxing.rebasePcr {} offset output).2).drop (payloadStart packet) =
        output.drop (payloadStart packet) := by
  unfold Muxing.rebasePcr
  cases hbase : readPcrBase output with
  | none => exact ⟨h, rfl⟩
  | some base =>
    have hpcr : hasPcr output = true := by
      by_contra hnot
      rw [readPcrBase, if_neg hnot] at hbase
      cases hbase
    have hother : ∀ j, j < 6 ∨ 11 ≤ j →
        (writePcrBase output (rebase offset base))[j]! = output[j]! :=
      fun j hj => writePcrBase_other output _ hj
    have hbehind : 12 ≤ payloadStart packet := by
      have hoffset := h.payloadOffset
      by_cases hempty : packet.payload = []
      · simp [payloadStart, hempty, mpegTsPacketSize]
      · rw [if_neg hempty] at hoffset
        exact payloadOffset_of_hasPcr hpcr hoffset
    refine ⟨⟨(length_writePcrBase ..).trans h.length, ?_, ?_, ?_, ?_⟩,
      drop_congr (length_writePcrBase ..) fun j hj => hother j (.inr (by omega))⟩
    · exact (hother 0 (by omega)).trans h.sync
    · exact (congrArg (· &&& (0xc0 : UInt8)) (hother 1 (by omega))).trans h.flags
    · exact (congrArg (fun byte : UInt8 => byte >>> 4) (hother 3 (by omega))).trans h.control
    · exact (hother 4 (by omega)).trans h.field

theorem SameLayout.payloadUnitStart {packet : TransportPacket} {output : Bytes}
    (h : SameLayout packet output) :
    Slate.payloadUnitStart output = packet.payloadUnitStart := by
  obtain ⟨-, -, hstart, -, -⟩ := encode_layout packet
  rw [Slate.payloadUnitStart, Bool.eq_iff_iff, decide_eq_true_eq, (masks_of_high h.flags).2, hstart]

/-- The timestamps of a PES start lie in the payload. -/
theorem SameLayout.rebasePes {packet : TransportPacket} {output : Bytes}
    (h : SameLayout packet output) (role : Role) (offset : UInt64) :
    SameLayout packet (Muxing.rebasePes {} role offset output).2 ∧
      ((Muxing.rebasePes {} role offset output).2).drop (payloadStart packet) =
        if packet.payloadUnitStart then rebaseUnit offset (output.drop (payloadStart packet))
        else output.drop (payloadStart packet) := by
  unfold Muxing.rebasePes
  rw [h.payloadUnitStart]
  cases packet.payloadUnitStart with
  | false => exact ⟨h, rfl⟩
  | true =>
    have hle : payloadStart packet ≤ output.length := by
      rw [h.length]
      exact Nat.sub_le _ _
    have hhead : (output.take (payloadStart packet)).length = payloadStart packet := by
      rw [List.length_take]
      omega
    have hsplit : output.take (payloadStart packet) ++ output.drop (payloadStart packet) = output :=
      List.take_append_drop _ _
    by_cases hempty : packet.payload = []
    · have hnone : Slate.payloadOffset output = none := by rw [h.payloadOffset, if_pos hempty]
      have hdrop : output.drop (payloadStart packet) = [] :=
        List.drop_eq_nil_of_le (by rw [h.length]; simp [payloadStart, hempty])
      have hsame : (rebasePesTimestamps output offset).1 = output := by
        simp [rebasePesTimestamps, pesHeader, hnone]
      simp only [if_true]
      rw [hsame, hdrop]
      exact ⟨h, by simp [rebaseUnit, pesFlags]⟩
    · have hoffset := h.payloadOffset
      rw [if_neg hempty] at hoffset
      have hfour := four_le_payloadOffset hoffset
      have hbehind := rebasePesTimestamps_behind offset
        (by rw [hsplit, hhead, hoffset]) (hsplit.symm ▸ h.length :
          (output.take (payloadStart packet) ++ output.drop (payloadStart packet)).length = _)
      rw [hsplit] at hbehind
      have hsize : (rebasePesTimestamps output offset).1.length = mpegTsPacketSize := by
        rw [hbehind, List.length_append, length_rebaseUnit, ← List.length_append, hsplit, h.length]
      have hearly : ∀ k, k < payloadStart packet + 9 →
          (rebasePesTimestamps output offset).1[k]! = output[k]! := by
        intro k hk
        conv_rhs => rw [← hsplit]
        rw [hbehind]
        by_cases hk' : k < payloadStart packet
        · simp only [List.getElem!_eq_getElem?_getD]
          rw [List.getElem?_append_left (by omega), List.getElem?_append_left (by omega)]
        · obtain ⟨i, rfl⟩ := Nat.exists_eq_add_of_le (Nat.le_of_not_lt hk')
          have hget := fun tail => get_behind (output.take (payloadStart packet)) tail i
          rw [hhead] at hget
          rw [hget, hget, rebaseUnit_early offset _ (by omega)]
      refine ⟨⟨hsize, ?_, ?_, ?_, ?_⟩, ?_⟩
      · exact (hearly 0 (by omega)).trans h.sync
      · exact (congrArg (· &&& (0xc0 : UInt8)) (hearly 1 (by omega))).trans h.flags
      · exact (congrArg (fun byte : UInt8 => byte >>> 4) (hearly 3 (by omega))).trans h.control
      · exact (hearly 4 (by omega)).trans h.field
      · simp only [if_true]
        rw [hbehind]
        exact (congrArg (List.drop · _) hhead.symm).trans List.drop_left

/-- What a receiver finds in a forwarded packet. -/
theorem payloadOf_forwarded (packet : TransportPacket) (offset : UInt64) (role : Role)
    (counter : UInt8) :
    payloadOf (forwardedPacket offset role counter packet.encode) =
      if packet.payloadUnitStart then rebaseUnit offset packet.payload else packet.payload := by
  have hretarget := @SameLayout.retarget packet role counter
  obtain ⟨hclocked, hsame⟩ := hretarget.rebasePcr offset
  obtain ⟨hsent, hpayload⟩ := hclocked.rebasePes role offset
  have hbytes : (setCounter (Muxing.retarget packet.encode role) (counter &&& 0x0f)).drop
      (payloadStart packet) = packet.payload := by
    by_cases hempty : packet.payload = []
    · rw [hempty]
      exact List.drop_eq_nil_of_le (by rw [hretarget.length]; simp [payloadStart, hempty])
    · have hinput : packet.encode.drop (payloadStart packet) = packet.payload := by
        have := (sameLayout_encode packet).payloadOf
        rw [← this, payloadOf, packet.packetHeader_encode]
        rfl
      rw [← hinput]
      have hoffset := hretarget.payloadOffset
      rw [if_neg hempty] at hoffset
      have hfour := four_le_payloadOffset hoffset
      refine drop_congr (hretarget.length.trans packet.length_encode.symm) fun j hj => ?_
      exact (retargeted_bytes packet.encode packet.length_encode role _).2.2 j (.inr (by omega))
  rw [hsame, hbytes] at hpayload
  rw [forwardedPacket, hsent.payloadOf, hpayload]

theorem forward_output (s : Muxing) (segment : Segment) (role : Role) (packet : Bytes) :
    ∃ counter, (s.forward segment role packet).1.out =
      s.out ++ [.stream role (forwardedPacket segment.offset role counter packet)] := by
  have hpcr : ∀ (mux : SpliceMuxer) packet, (Muxing.rebasePcr mux segment.offset packet).2 =
      (Muxing.rebasePcr {} segment.offset packet).2 := by
    intro mux packet
    unfold Muxing.rebasePcr
    cases readPcrBase packet <;> rfl
  have hpes : ∀ (mux : SpliceMuxer) packet, (Muxing.rebasePes mux role segment.offset packet).2 =
      (Muxing.rebasePes {} role segment.offset packet).2 := by
    intro mux packet
    unfold Muxing.rebasePes
    split <;> rfl
  unfold forward forwardedPacket
  dsimp only
  rw [hpes, hpcr]
  exact ⟨_, rfl⟩

end IptvRelay.Slate
