import IptvRelay.Slate.Splice

/-!
# Headers of output packets

What the muxer writes are complete packets on known PIDs, and rewriting the clock
fields of a packet leaves its header alone.
-/

namespace IptvRelay.Slate

open Media Psi Muxing

/-- A complete packet on a PID. -/
structure PacketOn (pid : UInt16) (packet : Bytes) : Prop where
  length : packet.length = mpegTsPacketSize
  sync : packet[0]! = 0x47
  pid : packetPid packet = pid

def continuityCounter (packet : Bytes) : UInt8 := packet[3]! &&& 0x0f

/-- The version field of a PMT that begins right after the pointer field. -/
def pmtVersionOf (packet : Bytes) : UInt8 := (packet[10]! >>> 1) &&& 0x1f

/-- A packet without a payload. -/
def AdaptationOnly (packet : Bytes) : Prop := packet[3]! &&& 0x30 = 0x20

/-! ## Bytes -/

theorem or_and (a b mask : UInt8) : (a ||| b) &&& mask = (a &&& mask) ||| (b &&& mask) := by
  apply UInt8.eq_of_toBitVec_eq
  simp only [UInt8.toBitVec_and, UInt8.toBitVec_or]
  ext i
  simp [Bool.and_or_distrib_right]

/-- A bit that one side has is in the disjunction. -/
theorem or_and_ne_zero {a mask : UInt8} (b : UInt8) (h : a &&& mask ≠ 0) :
    (a ||| b) &&& mask ≠ 0 := by
  rw [or_and]
  exact fun hzero => h (UInt8.or_eq_zero_iff.mp hzero).1

theorem counter_field (counter : UInt8) :
    (0x10 ||| (counter &&& 0x0f)) &&& 0x0f = counter &&& 0x0f := by
  rw [or_and, UInt8.and_assoc]
  exact UInt8.zero_or

theorem adaptation_control (counter : UInt8) : (0x20 ||| (counter &&& 0x0f)) &&& 0x30 = 0x20 := by
  rw [or_and, UInt8.and_assoc]
  exact (congrArg (0x20 ||| ·) UInt8.and_zero).trans UInt8.or_zero

theorem version_field (version : UInt8) :
    (((0xc1 : UInt8) ||| ((version &&& 0x1f) <<< 1)) >>> 1) &&& 0x1f = version &&& 0x1f := by
  apply UInt8.eq_of_toBitVec_eq
  simp only [UInt8.toBitVec_and, UInt8.toBitVec_or, UInt8.toBitVec_shiftRight,
    UInt8.toBitVec_shiftLeft]
  ext i hi
  interval_cases i <;> simp

theorem pidOf_retarget (role : Role) (high : UInt8) :
    pidOf ((high &&& 0xe0) ||| (highByte role.outputPid &&& 0x1f)) role.outputPid.toUInt8 =
      role.outputPid := by
  rw [pidOf, or_and, UInt8.and_assoc, UInt8.and_assoc]
  have hmasked : high &&& ((0xe0 : UInt8) &&& 0x1f) = 0 := UInt8.and_zero
  rw [hmasked]
  cases role <;> rfl

theorem start_retarget (role : Role) (high : UInt8) :
    ((high &&& 0xe0) ||| (highByte role.outputPid &&& 0x1f)) &&& 0x40 = high &&& 0x40 := by
  rw [or_and, UInt8.and_assoc, UInt8.and_assoc]
  exact (congrArg (_ ||| ·) UInt8.and_zero).trans UInt8.or_zero

/-! ## Written packets -/

theorem length_psiPacket (pid : UInt16) (counter : UInt8) (sect : Bytes) :
    (psiPacket pid counter sect).length = mpegTsPacketSize := by
  simp only [psiPacket, List.length_append, List.length_cons, List.length_nil, List.length_take,
    List.length_replicate, maxSinglePacketSection, mpegTsPacketSize]
  omega

theorem continuityCounter_psiPacket (pid : UInt16) (counter : UInt8) (sect : Bytes) :
    continuityCounter (psiPacket pid counter sect) = counter &&& 0x0f :=
  counter_field counter

theorem packetPid_psiPacket (pid : UInt16) (counter : UInt8) (sect : Bytes) :
    packetPid (psiPacket pid counter sect) =
      pidOf (0x40 ||| (highByte pid &&& 0x1f)) pid.toUInt8 := rfl

theorem packetOn_pat (counter : UInt8) (sect : Bytes) :
    PacketOn patPid (psiPacket patPid counter sect) :=
  ⟨length_psiPacket _ _ _, rfl, by rw [packetPid_psiPacket]; decide⟩

theorem packetOn_pmt (counter : UInt8) (sect : Bytes) :
    PacketOn slatePmtPid (psiPacket slatePmtPid counter sect) :=
  ⟨length_psiPacket _ _ _, rfl, by rw [packetPid_psiPacket]; decide⟩

theorem pmtVersionOf_psiPacket (counter : UInt8) (map : ProgramMap) (version : UInt8) :
    pmtVersionOf (psiPacket slatePmtPid counter (pmtSection map version)) = version &&& 0x1f :=
  version_field version

theorem packetPid_discontinuityPacket (pid : UInt16) (counter : UInt8) :
    packetPid (discontinuityPacket pid counter) = pidOf (highByte pid &&& 0x1f) pid.toUInt8 := rfl

theorem packetOn_discontinuity (role : Role) (counter : UInt8) :
    PacketOn role.outputPid (discontinuityPacket role.outputPid counter) := by
  refine ⟨?_, rfl, ?_⟩
  · simp only [discontinuityPacket, List.length_append, List.length_cons, List.length_nil,
      List.length_replicate]
    rfl
  · rw [packetPid_discontinuityPacket]
    cases role <;> decide

theorem adaptationOnly_discontinuity (role : Role) (counter : UInt8) :
    AdaptationOnly (discontinuityPacket role.outputPid counter) :=
  adaptation_control counter

/-! ## Rewritten packets -/

/-- The length and the first three bytes agree. -/
structure SameHead (a b : Bytes) : Prop where
  length : b.length = a.length
  sync : b[0]! = a[0]!
  high : b[1]! = a[1]!
  low : b[2]! = a[2]!

theorem SameHead.refl (a : Bytes) : SameHead a a := ⟨rfl, rfl, rfl, rfl⟩

theorem SameHead.trans {a b c : Bytes} (h : SameHead a b) (h' : SameHead b c) : SameHead a c :=
  ⟨h'.length.trans h.length, h'.sync.trans h.sync, h'.high.trans h.high, h'.low.trans h.low⟩

theorem getElem!_set_ne (packet : Bytes) {i j : Nat} (value : UInt8) (h : i ≠ j) :
    (packet.set i value)[j]! = packet[j]! := by
  simp only [List.getElem!_eq_getElem?_getD, List.getElem?_set_ne h]

theorem SameHead.set {a b : Bytes} (h : SameHead a b) {i : Nat} (hi : 3 ≤ i) (value : UInt8) :
    SameHead a (b.set i value) := by
  refine ⟨by simpa using h.length, ?_, ?_, ?_⟩ <;> rw [getElem!_set_ne _ _ (by omega)]
  exacts [h.sync, h.high, h.low]

theorem sameHead_writePcrBase (packet : Bytes) (base : UInt64) :
    SameHead packet (writePcrBase packet base) :=
  (((((SameHead.refl packet).set (by decide) _).set (by decide) _).set (by decide) _).set
    (by decide) _).set (by decide) _

theorem sameHead_writeTimestamp (packet : Bytes) {start : Nat} (hstart : 3 ≤ start)
    (value : UInt64) : SameHead packet (writeTimestamp packet start value) :=
  (((((SameHead.refl packet).set hstart _).set (by omega) _).set (by omega) _).set
    (by omega) _).set (by omega) _

theorem sameHead_rebaseField (present : Bool) {start : Nat} (hstart : 3 ≤ start)
    (offset : UInt64) {packet : Bytes} {rebased : Bytes × Option UInt64}
    (h : SameHead packet rebased.1) :
    SameHead packet (rebaseField present start offset rebased).1 := by
  unfold rebaseField
  split
  · exact h
  · exact h.trans (sameHead_writeTimestamp _ hstart _)

theorem sameHead_rebasePesTimestamps (packet : Bytes) (offset : UInt64) :
    SameHead packet (rebasePesTimestamps packet offset).1 := by
  unfold rebasePesTimestamps
  split
  · exact .refl packet
  · exact sameHead_rebaseField _ (by omega) _ (sameHead_rebaseField _ (by omega) _ (.refl packet))

theorem PacketOn.of_sameHead {pid : UInt16} {a b : Bytes} (h : PacketOn pid a)
    (hsame : SameHead a b) : PacketOn pid b := by
  refine ⟨hsame.length.trans h.length, hsame.sync.trans h.sync, ?_⟩
  rw [packetPid, hsame.high, hsame.low]
  exact h.pid

theorem retarget_high {packet : Bytes} (hlength : packet.length = mpegTsPacketSize)
    (role : Role) : (retarget packet role)[1]! =
      (packet[1]! &&& 0xe0) ||| (highByte role.outputPid &&& 0x1f) := by
  rw [retarget, getElem!_set_ne _ _ (by decide)]
  simp [show 1 < packet.length by rw [hlength]; decide]

theorem packetOn_retarget {packet : Bytes} (hlength : packet.length = mpegTsPacketSize)
    (hsync : packet[0]! = 0x47) (role : Role) : PacketOn role.outputPid (retarget packet role) := by
  have hlong : 2 < packet.length := by rw [hlength]; decide
  refine ⟨by simpa [retarget] using hlength, ?_, ?_⟩
  · rw [retarget, getElem!_set_ne _ _ (by decide), getElem!_set_ne _ _ (by decide), hsync]
  · have hlow : (retarget packet role)[2]! = role.outputPid.toUInt8 := by
      simp [retarget, List.getElem!_eq_getElem?_getD, hlong]
    rw [packetPid, retarget_high hlength, hlow]
    exact pidOf_retarget role _

theorem payloadUnitStart_retarget {packet : Bytes} (hlength : packet.length = mpegTsPacketSize)
    (role : Role) : payloadUnitStart (retarget packet role) = payloadUnitStart packet := by
  rw [payloadUnitStart, payloadUnitStart, retarget_high hlength, start_retarget]

theorem SameHead.payloadUnitStart {a b : Bytes} (h : SameHead a b) :
    payloadUnitStart b = payloadUnitStart a := by
  rw [Slate.payloadUnitStart, Slate.payloadUnitStart, h.high]

end IptvRelay.Slate
