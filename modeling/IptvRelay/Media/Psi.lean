import IptvRelay.Lib.Blocks

/-!
# PAT/PMT inspection

Model of `psi.rs`. A slice is a list of bytes and an index that the source has
checked is read with `[i]!`. The tracker watches one PAT and the PMT it refers
to; when the PMT is validated it reports the sequence of the packet in which
that PAT began.
-/

namespace IptvRelay.Media

open Blocks

abbrev Bytes := List UInt8

def mpegTsPacketSize : Nat := 188

/-- The 13-bit PID in the second and third header byte. -/
def pidOf (high low : UInt8) : UInt16 := ((high &&& 0x1f).toUInt16 <<< 8) ||| low.toUInt16

def packetPid (packet : Bytes) : UInt16 := pidOf packet[1]! packet[2]!

/-- A 12-bit length field whose upper four bits are reserved. -/
def lengthField (high low : UInt8) : Nat := ((high &&& 0x0f).toNat <<< 8) ||| low.toNat

namespace Psi

def patPid : UInt16 := 0
def patTableId : UInt8 := 0x00
def pmtTableId : UInt8 := 0x02
def maxSectionBytes : Nat := 1024

/-! ## Packet headers -/

structure PacketHeader where
  pid : UInt16
  payloadUnitStart : Bool
  continuityCounter : UInt8
  payload : Bytes
  deriving DecidableEq, Repr

/-- Packets with a transport error, scrambling or no payload have no usable header. -/
def packetHeader (packet : Bytes) : Option PacketHeader :=
  if packet.length ≠ mpegTsPacketSize ∨ packet[0]! ≠ 0x47 ∨ packet[1]! &&& 0x80 ≠ 0 ∨
      packet[3]! &&& 0xc0 ≠ 0 then none
  else
    let adaptationControl := (packet[3]! >>> 4) &&& 0x03
    if adaptationControl = 0 ∨ adaptationControl = 2 then none
    else
      let payloadOffset := if adaptationControl = 3 then 5 + packet[4]!.toNat else 4
      if payloadOffset > packet.length then none
      else some
        { pid := packetPid packet
          payloadUnitStart := packet[1]! &&& 0x40 ≠ 0
          continuityCounter := packet[3]! &&& 0x0f
          payload := packet.drop payloadOffset }

/-! ## Section reassembly -/

structure SectionAssembler where
  bytes : Bytes := []
  expectedLen : Option Nat := none
  startSequence : Option Nat := none
  lastContinuityCounter : Option UInt8 := none
  deriving DecidableEq, Repr

structure CompletedSection where
  bytes : Bytes
  startSequence : Nat
  deriving DecidableEq, Repr

namespace SectionAssembler

/-- `clear`: every field is reset, so the result does not depend on the old state. -/
def clear : SectionAssembler := {}

/-- Emit the section once all of its announced bytes are there. -/
def finish (self : SectionAssembler) : SectionAssembler × Option CompletedSection :=
  match self.expectedLen, self.startSequence with
  | some expected, some startSequence =>
    if self.bytes.length < expected then (self, none)
    else (clear, some { bytes := self.bytes, startSequence })
  | _, _ => (self, none)

/-- Add payload bytes and read the length field as soon as it is complete. -/
def extend (self : SectionAssembler) (payload : Bytes) :
    SectionAssembler × Option CompletedSection :=
  let remaining := self.expectedLen.elim maxSectionBytes fun expected =>
    expected - self.bytes.length
  let bytes := self.bytes ++ payload.take remaining
  if self.expectedLen = none ∧ 3 ≤ bytes.length then
    let expected := 3 + lengthField bytes[1]! bytes[2]!
    if 4 ≤ expected ∧ expected ≤ maxSectionBytes then
      finish { self with bytes := bytes.take expected, expectedLen := some expected }
    else (clear, none)
  else finish { self with bytes }

def observe (self : SectionAssembler) (header : PacketHeader) (sequence : Nat) :
    SectionAssembler × Option CompletedSection :=
  if header.payloadUnitStart then
    match header.payload with
    | [] => (clear, none)
    | pointer :: rest =>
      if pointer.toNat > rest.length then (clear, none)
      else
        extend { clear with
          startSequence := some sequence
          lastContinuityCounter := some header.continuityCounter } (rest.drop pointer.toNat)
  else
    match self.startSequence with
    | none => (self, none)
    | some _ =>
      if self.lastContinuityCounter.all fun previous =>
          (previous + 1) &&& 0x0f ≠ header.continuityCounter then (clear, none)
      else
        extend { self with lastContinuityCounter := some header.continuityCounter } header.payload

end SectionAssembler

/-! ## PAT and PMT sections -/

def mpegCrc32Bit (crc : UInt32) : UInt32 :=
  if crc &&& 0x80000000 ≠ 0 then (crc <<< 1) ^^^ 0x04c11db7 else crc <<< 1

def mpegCrc32Byte (crc : UInt32) (byte : UInt8) : UInt32 :=
  Nat.iterate mpegCrc32Bit 8 (crc ^^^ (byte.toUInt32 <<< 24))

def mpegCrc32 (bytes : Bytes) : UInt32 := bytes.foldl mpegCrc32Byte 0xffffffff

/-- Two bytes in network order. -/
def be16 (high low : UInt8) : UInt16 := (high.toUInt16 <<< 8) ||| low.toUInt16

/-- The program number and PMT PID of the first usable entry of a valid PAT. -/
def parsePat (sect : Bytes) : Option (UInt16 × UInt16) :=
  if sect.length < 16 ∨ sect[0]! ≠ patTableId ∨ sect[1]! &&& 0x80 = 0 ∨
      sect[5]! &&& 0x01 = 0 ∨ mpegCrc32 sect ≠ 0 then none
  else
    let entries := (sect.take (sect.length - 4)).drop 8
    if entries.length % 4 ≠ 0 then none
    else (chunksExact 4 entries).findSome? fun entry =>
      let programNumber := be16 entry[0]! entry[1]!
      let pid := pidOf entry[2]! entry[3]!
      if programNumber ≠ 0 ∧ pid ≠ 0 ∧ pid ≠ 0x1fff then some (programNumber, pid) else none

structure ElementaryStreamInfo where
  streamType : UInt8
  pid : UInt16
  deriving DecidableEq, Repr

/-- The entry loop of `parse_pmt_elementary_streams`. Every iteration moves the offset by at
least five bytes, so the section length is enough fuel. -/
def pmtStreamsFrom (sect : Bytes) (streamsEnd : Nat) :
    Nat → Nat → Option (List ElementaryStreamInfo)
  | 0, _ => none
  | fuel + 1, offset =>
    if offset < streamsEnd then
      if sect.length < offset + 5 then none
      else
        let next := offset + 5 + lengthField sect[offset + 3]! sect[offset + 4]!
        if next > streamsEnd then none
        else (pmtStreamsFrom sect streamsEnd fuel next).map fun streams =>
          { streamType := sect[offset]!
            pid := pidOf sect[offset + 1]! sect[offset + 2]! } :: streams
    else if offset ≠ streamsEnd then none
    else some []

def parsePmtElementaryStreams (sect : Bytes) (expectedProgram : UInt16) :
    Option (List ElementaryStreamInfo) :=
  if sect.length < 16 ∨ sect[0]! ≠ pmtTableId ∨ sect[1]! &&& 0x80 = 0 ∨
      sect[5]! &&& 0x01 = 0 ∨ be16 sect[3]! sect[4]! ≠ expectedProgram then none
  else
    let offset := 12 + lengthField sect[10]! sect[11]!
    let streamsEnd := sect.length - 4
    if offset > streamsEnd then none
    else pmtStreamsFrom sect streamsEnd sect.length offset

/-- The entry loop of `is_matching_pmt`. -/
def pmtEntriesEndAt (sect : Bytes) (streamsEnd : Nat) : Nat → Nat → Bool
  | 0, _ => false
  | fuel + 1, offset =>
    if offset < streamsEnd then
      if sect.length < offset + 5 then false
      else
        let next := offset + 5 + lengthField sect[offset + 3]! sect[offset + 4]!
        if next > streamsEnd then false
        else pmtEntriesEndAt sect streamsEnd fuel next
    else offset == streamsEnd

def isMatchingPmt (sect : Bytes) (expectedProgram : UInt16) : Bool :=
  if sect.length < 16 ∨ sect[0]! ≠ pmtTableId ∨ sect[1]! &&& 0x80 = 0 ∨
      sect[5]! &&& 0x01 = 0 ∨ be16 sect[3]! sect[4]! ≠ expectedProgram ∨
      mpegCrc32 sect ≠ 0 then false
  else
    let offset := 12 + lengthField sect[10]! sect[11]!
    let streamsEnd := sect.length - 4
    if offset > streamsEnd then false
    else pmtEntriesEndAt sect streamsEnd sect.length offset

theorem pmtEntriesEndAt_eq (sect : Bytes) (streamsEnd fuel offset : Nat) :
    pmtEntriesEndAt sect streamsEnd fuel offset =
      (pmtStreamsFrom sect streamsEnd fuel offset).isSome := by
  induction fuel generalizing offset with
  | zero => rfl
  | succ fuel ih =>
    simp only [pmtEntriesEndAt, pmtStreamsFrom]
    by_cases hmore : offset < streamsEnd
    · simp only [if_pos hmore, ih]
      split_ifs <;> simp
    · simp only [if_neg hmore]
      by_cases hend : offset = streamsEnd <;> simp [hend]

theorem isMatchingPmt_iff (sect : Bytes) (program : UInt16) :
    isMatchingPmt sect program = true ↔
      (parsePmtElementaryStreams sect program).isSome = true ∧ mpegCrc32 sect = 0 := by
  unfold isMatchingPmt parsePmtElementaryStreams
  by_cases hhead : sect.length < 16 ∨ sect[0]! ≠ pmtTableId ∨ sect[1]! &&& 0x80 = 0 ∨
      sect[5]! &&& 0x01 = 0 ∨ be16 sect[3]! sect[4]! ≠ program
  · rw [if_pos (by tauto), if_pos hhead]
    simp
  · rw [if_neg hhead]
    by_cases hcrc : mpegCrc32 sect = 0
    · rw [if_neg (by tauto)]
      simp only [pmtEntriesEndAt_eq]
      split_ifs <;> simp [hcrc]
    · rw [if_pos (by tauto)]
      simp [hcrc]

/-! ## The tracker -/

structure PmtCandidate where
  programNumber : UInt16
  pid : UInt16
  patStartSequence : Nat
  assembler : SectionAssembler := {}
  deriving DecidableEq, Repr

structure PatPmtTracker where
  pat : SectionAssembler := {}
  candidate : Option PmtCandidate := none
  lastPmtSection : Option Bytes := none
  lastProgramNumber : Option UInt16 := none
  deriving DecidableEq, Repr

namespace PatPmtTracker

/-- A completed PAT replaces the candidate. -/
def observePat (self : PatPmtTracker) (header : PacketHeader) (sequence : Nat) : PatPmtTracker :=
  if header.pid = patPid then
    let (pat, completed) := self.pat.observe header sequence
    match completed.bind fun sect => (parsePat sect.bytes).map (sect, ·) with
    | none => { self with pat }
    | some (sect, programNumber, pid) =>
      { self with
        pat
        candidate := some { programNumber, pid, patStartSequence := sect.startSequence } }
  else self

/-- A packet of the candidate's PMT PID may complete the PMT and confirm the PAT. -/
def observePmt (self : PatPmtTracker) (header : PacketHeader) (sequence : Nat) :
    PatPmtTracker × Option Nat :=
  match self.candidate with
  | none => (self, none)
  | some candidate =>
    if header.pid ≠ candidate.pid then (self, none)
    else
      match candidate.assembler.observe header sequence with
      | (assembler, none) => ({ self with candidate := some { candidate with assembler } }, none)
      | (assembler, some sect) =>
        if isMatchingPmt sect.bytes candidate.programNumber then
          ({ self with
              candidate := none
              lastPmtSection := some sect.bytes
              lastProgramNumber := some candidate.programNumber },
            some candidate.patStartSequence)
        else ({ self with candidate := some { candidate with assembler } }, none)

/-- Observe one packet; the result is the start of a PAT whose PMT is now validated. -/
def observe (self : PatPmtTracker) (packet : Bytes) (sequence : Nat) :
    PatPmtTracker × Option Nat :=
  match packetHeader packet with
  | none => (self, none)
  | some header => (self.observePat header sequence).observePmt header sequence

def candidateStart (self : PatPmtTracker) : Option Nat :=
  self.candidate.map PmtCandidate.patStartSequence

def completedPmt (self : PatPmtTracker) : Option (Bytes × UInt16) :=
  match self.lastPmtSection, self.lastProgramNumber with
  | some sect, some program => some (sect, program)
  | _, _ => none

/-- The PCR PID of the most recently validated PMT. -/
def pcrPid (self : PatPmtTracker) : Option UInt16 := do
  let (sect, _) ← self.completedPmt
  let high ← sect[8]?
  let low ← sect[9]?
  let pid := pidOf high low
  if pid ≠ 0x1fff then some pid else none

/-- `reset`: back to the default tracker. -/
def reset : PatPmtTracker := {}

end PatPmtTracker

end Psi

/-! ## A sample program -/

/-- A one-packet PAT that names PMT PID `0x1000` for program 1. -/
def samplePat : Bytes :=
  [0x47, 0x40, 0x00, 0x10, 0x00, 0x00, 0xb0, 0x0d, 0x00, 0x01, 0xc1, 0x00, 0x00, 0x00, 0x01,
    0xf0, 0x00, 0x2a, 0xb1, 0x04, 0xb2] ++ List.replicate 167 0xff

/-- The matching PMT, with one video stream on PID `0x100`. -/
def samplePmt : Bytes :=
  [0x47, 0x50, 0x00, 0x10, 0x00, 0x02, 0xb0, 0x12, 0x00, 0x01, 0xc1, 0x00, 0x00, 0xe1, 0x00,
    0xf0, 0x00, 0x1b, 0xe1, 0x00, 0xf0, 0x00, 0x15, 0xbd, 0x4d, 0x56] ++ List.replicate 162 0xff

end IptvRelay.Media
