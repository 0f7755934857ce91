import IptvRelay.Media.Psi
import Mathlib.Tactic

/-!
# Transport packets

A transport packet with a payload in the fields of its layout, apart from the code that
reads it. `packetHeader` finds the same fields in the encoded packet.
-/

namespace IptvRelay.Media

open Psi

/-- `adaptation` is the adaptation field after its length byte. -/
structure TransportPacket where
  pid : UInt16
  payloadUnitStart : Bool
  transportPriority : Bool
  continuityCounter : UInt8
  adaptation : Option Bytes
  payload : Bytes
  pid_lt : pid < 0x2000
  counter_lt : continuityCounter < 0x10
  size : 4 + (adaptation.elim 0 fun field => 1 + field.length) + payload.length = mpegTsPacketSize

namespace TransportPacket

def flags (self : TransportPacket) : UInt8 :=
  (if self.payloadUnitStart then 0x40 else 0) ||| (if self.transportPriority then 0x20 else 0)

def controlBits (self : TransportPacket) : UInt8 := if self.adaptation.isSome then 0x30 else 0x10

/-- The four bytes before the adaptation field. -/
def header (self : TransportPacket) : Bytes :=
  [0x47, self.flags ||| (self.pid >>> 8).toUInt8, self.pid.toUInt8,
    self.controlBits ||| self.continuityCounter]

def adaptationField (self : TransportPacket) : Bytes :=
  self.adaptation.elim [] fun field => .ofNat field.length :: field

def encode (self : TransportPacket) : Bytes :=
  self.header ++ (self.adaptationField ++ self.payload)

end TransportPacket

/-! ## Bits of the header -/

theorem be16_split (value : UInt16) : be16 (value >>> 8).toUInt8 value.toUInt8 = value := by
  unfold be16
  apply UInt16.toBitVec_inj.mp
  simp only [UInt16.toBitVec_or, UInt16.toBitVec_shiftLeft, UInt8.toBitVec_toUInt16,
    UInt16.toBitVec_toUInt8, UInt16.toBitVec_shiftRight]
  apply BitVec.eq_of_getLsbD_eq
  intro i hi
  have hshift : (UInt16.toBitVec 8 % 16).toNat = 8 := by decide
  by_cases hlow : i < 8
  · simp [hlow, BitVec.getLsbD_setWidth]
    exact fun _ => hi
  · simp [hlow, BitVec.getLsbD_setWidth, hi, show i - 8 < 8 by omega,
      show 8 + (i - 8) = i by omega]

theorem highByte_lt {pid : UInt16} (h : pid < 0x2000) : (pid >>> 8).toUInt8 < 0x20 := by
  rw [UInt16.lt_iff_toNat_lt] at h
  rw [UInt8.lt_iff_toNat_lt]
  simp [Nat.shiftRight_eq_div_pow] at h ⊢
  omega

/-- The flags stay out of the five bits that hold the upper part of the PID. -/
theorem flags_disjoint : ∀ start priority : Bool, ∀ high : Fin 32,
    let bits : UInt8 := (if start then 0x40 else 0) ||| (if priority then 0x20 else 0)
    (bits ||| .ofNat high.val) &&& 0x1f = .ofNat high.val ∧
      ((bits ||| .ofNat high.val) &&& 0x40 ≠ 0 ↔ start = true) ∧
      (bits ||| .ofNat high.val) &&& 0x80 = 0 := by
  decide

theorem control_disjoint : ∀ field : Bool, ∀ counter : Fin 16,
    let byte : UInt8 := (if field then 0x30 else 0x10) ||| .ofNat counter.val
    byte &&& 0x0f = .ofNat counter.val ∧ byte &&& 0xc0 = 0 ∧
      (byte >>> 4) &&& 0x03 = if field then 3 else 1 := by
  decide

namespace TransportPacket

theorem length_adaptationField (self : TransportPacket) :
    self.adaptationField.length = self.adaptation.elim 0 fun field => 1 + field.length := by
  unfold adaptationField
  cases self.adaptation with
  | none => rfl
  | some field => simp [Nat.add_comm]

theorem length_encode (self : TransportPacket) : self.encode.length = mpegTsPacketSize := by
  have := self.size
  simp only [encode, header, List.length_append, List.length_cons, List.length_nil,
    self.length_adaptationField]
  omega

theorem length_payload_le (self : TransportPacket) : self.payload.length ≤ 184 := by
  have := self.size
  have : mpegTsPacketSize = 188 := rfl
  omega

theorem flags_high (self : TransportPacket) :
    (self.flags ||| (self.pid >>> 8).toUInt8) &&& (0x1f : UInt8) = (self.pid >>> 8).toUInt8 ∧
      ((self.flags ||| (self.pid >>> 8).toUInt8) &&& 0x40 ≠ 0 ↔ self.payloadUnitStart = true) ∧
      (self.flags ||| (self.pid >>> 8).toUInt8) &&& 0x80 = 0 := by
  have hlt := UInt8.lt_iff_toNat_lt.mp (highByte_lt self.pid_lt)
  have := flags_disjoint self.payloadUnitStart self.transportPriority
    ⟨(self.pid >>> 8).toUInt8.toNat, hlt⟩
  simp only [UInt8.ofNat_toNat] at this
  exact this

theorem control_counter (self : TransportPacket) :
    (self.controlBits ||| self.continuityCounter) &&& 0x0f = self.continuityCounter ∧
      (self.controlBits ||| self.continuityCounter) &&& 0xc0 = 0 ∧
      ((self.controlBits ||| self.continuityCounter) >>> 4) &&& 0x03 =
        if self.adaptation.isSome then 3 else 1 := by
  have hlt := UInt8.lt_iff_toNat_lt.mp self.counter_lt
  have := control_disjoint self.adaptation.isSome ⟨self.continuityCounter.toNat, hlt⟩
  simpa [controlBits] using this

theorem packetPid_encode (self : TransportPacket) : packetPid self.encode = self.pid := by
  have : packetPid self.encode = be16 (self.pid >>> 8).toUInt8 self.pid.toUInt8 := by
    simp [packetPid, pidOf, be16, encode, header, self.flags_high.1]
  rw [this, be16_split]

/-- The reader finds the fields of the layout. -/
theorem packetHeader_encode (self : TransportPacket) :
    packetHeader self.encode = some
      { pid := self.pid
        payloadUnitStart := self.payloadUnitStart
        continuityCounter := self.continuityCounter
        payload := self.payload } := by
  obtain ⟨_, hstart, herror⟩ := self.flags_high
  obtain ⟨hcounter, hscrambling, hcontrol⟩ := self.control_counter
  have hlength := self.length_encode
  have hsize := self.size
  have hbyte1 : self.encode[1]! = self.flags ||| (self.pid >>> 8).toUInt8 := rfl
  have hbyte3 : self.encode[3]! = self.controlBits ||| self.continuityCounter := rfl
  unfold packetHeader
  rw [if_neg (by simp [hlength, hbyte1, hbyte3, herror, hscrambling]; rfl)]
  simp only [hbyte1, hbyte3, hcontrol, hcounter, self.packetPid_encode]
  cases hfield : self.adaptation with
  | none =>
    have hpayload : self.encode.drop 4 = self.payload := by
      simp [encode, header, adaptationField, hfield]
    simp [hlength, mpegTsPacketSize, hpayload, hstart]
  | some field =>
    rw [hfield, Option.elim_some] at hsize
    have hbyte4 : self.encode[4]! = .ofNat field.length := by
      simp [encode, header, adaptationField, hfield]
    have hcount : (UInt8.ofNat field.length).toNat = field.length := by
      simp [mpegTsPacketSize] at hsize ⊢
      omega
    have hpayload : self.encode.drop (5 + field.length) = self.payload := by
      rw [show 5 + field.length = self.header.length + (1 + field.length) by simp [header]; omega,
        encode, List.drop_append]
      simp [adaptationField, hfield, Nat.add_comm 1]
    have hfits : ¬ 5 + field.length > mpegTsPacketSize := by omega
    simp [hlength, hbyte4, hcount, hpayload, hstart, hfits]

end TransportPacket

end IptvRelay.Media
