import IptvRelay.Media.Psi

/-!
# Packets of the splice muxer

Model of the packet level of `slate.rs`: the program map of an input, the PSI
packets of the output, and the clock fields that a splice rebases. Timestamps are
33 bits wide and kept in 64-bit words, with the wrapping of the source.
-/

namespace IptvRelay.Slate

open Media Psi

def nullPid : UInt16 := 0x1fff
def slatePmtPid : UInt16 := 0x1000
def slateVideoPid : UInt16 := 0x100
def slateAudioPid : UInt16 := 0x101
def slatePcrPid : UInt16 := 0x102
def programNumber : UInt16 := 1
def transportStreamId : UInt16 := 1
def timestampMask : UInt64 := ((1 : UInt64) <<< 33) - 1
def timestampHalfRange : UInt64 := (1 : UInt64) <<< 32
def spliceStepTicks : UInt64 := 3003
def maxPesStepTicks : UInt64 := 90000
def keyframeFallbackTicks : UInt64 := 3 * 90000
def noPcrPacketBudget : Nat := 20000
def audioGateLimitTicks : UInt64 := 10 * 90000

/-! ## Programs -/

inductive Role where
  | video
  | audio
  | pcr
  deriving DecidableEq, Repr

namespace Role

def all : List Role := [.video, .audio, .pcr]

def outputPid : Role → UInt16
  | .video => slateVideoPid
  | .audio => slateAudioPid
  | .pcr => slatePcrPid

end Role

structure EsEntry where
  pid : UInt16
  streamType : UInt8
  descriptors : Bytes
  deriving DecidableEq, Repr

/-- The first video stream, the first audio stream and the PCR PID of an input program. -/
structure ProgramMap where
  video : Option EsEntry := none
  audio : Option EsEntry := none
  pcrPid : Option UInt16 := none
  deriving DecidableEq, Repr

def isVideoStreamType (streamType : UInt8) : Bool :=
  [0x01, 0x02, 0x10, 0x1b, 0x24].contains streamType

/-- The tags of a descriptor loop; a cut descriptor ends it. The length is enough fuel. -/
def descriptorTagsFrom : Nat → Bytes → List UInt8
  | fuel + 1, tag :: length :: rest => tag :: descriptorTagsFrom fuel (rest.drop length.toNat)
  | _, _ => []

def descriptorTags (descriptors : Bytes) : List UInt8 :=
  descriptorTagsFrom descriptors.length descriptors

def isAudioStream (streamType : UInt8) (descriptors : Bytes) : Bool :=
  if [0x03, 0x04, 0x0f, 0x11, 0x81, 0x82, 0x83, 0x84, 0x87].contains streamType then true
  -- DVB private data: AC-3, E-AC-3, DTS and AAC descriptors.
  else if streamType = 0x06 then
    (descriptorTags descriptors).any fun tag => [0x6a, 0x7a, 0x7b, 0x7c].contains tag
  else false

namespace ProgramMap

/-- A stream becomes the video or the audio if it is the first of its kind. -/
def add (self : ProgramMap) (entry : EsEntry) : ProgramMap :=
  if self.video = none ∧ isVideoStreamType entry.streamType then { self with video := some entry }
  else if self.audio = none ∧ isAudioStream entry.streamType entry.descriptors then
    { self with audio := some entry }
  else self

/-- The stream loop of `from_pmt`. It moves by at least five bytes, so the section length is enough
fuel. -/
def addStreams (sect : Bytes) (streamsEnd : Nat) : Nat → Nat → ProgramMap → Option ProgramMap
  | 0, _, _ => none
  | fuel + 1, offset, map =>
    if offset + 5 ≤ streamsEnd then
      let next := offset + 5 + lengthField sect[offset + 3]! sect[offset + 4]!
      if sect.length < next ∨ streamsEnd < next then none
      else addStreams sect streamsEnd fuel next (map.add
        { pid := pidOf sect[offset + 1]! sect[offset + 2]!
          streamType := sect[offset]!
          descriptors := (sect.take next).drop (offset + 5) })
    else some map

def fromPmt (sect : Bytes) : Option ProgramMap :=
  if sect.length < 16 ∨ sect[0]! ≠ 0x02 then none
  else
    let pcrPid := pidOf sect[8]! sect[9]!
    let offset := 12 + lengthField sect[10]! sect[11]!
    (addStreams sect (sect.length - 4) sect.length offset
      { pcrPid := if pcrPid ≠ nullPid then some pcrPid else none }).filter fun map =>
        map.video.isSome || map.audio.isSome

def roleOf (self : ProgramMap) (pid : UInt16) : Option Role :=
  if self.video.any fun entry => entry.pid = pid then some .video
  else if self.audio.any fun entry => entry.pid = pid then some .audio
  else if self.pcrPid = some pid then some .pcr
  else none

def roles (self : ProgramMap) : List Role :=
  Role.all.filter fun role =>
    match role with
    | .video => self.video.isSome
    | .audio => self.audio.isSome
    | .pcr => self.pcrPid.any fun pid => self.roleOf pid = some .pcr

def outputPcrPid (self : ProgramMap) : UInt16 :=
  (self.pcrPid.bind self.roleOf).elim nullPid Role.outputPid

end ProgramMap

/-! ## PSI packets -/

def beBytes (value : UInt32) : Bytes :=
  [(value >>> 24).toUInt8, (value >>> 16).toUInt8, (value >>> 8).toUInt8, value.toUInt8]

def appendCrc (sect : Bytes) : Bytes := sect ++ beBytes (mpegCrc32 sect)

/-- `u16::try_from(n).unwrap_or(0)`. -/
def u16OrZero (n : Nat) : UInt16 := if n < 2 ^ 16 then .ofNat n else 0

def highByte (value : UInt16) : UInt8 := (value >>> 8).toUInt8

/-- The largest section that fits in one packet after the pointer field. -/
def maxSinglePacketSection : Nat := mpegTsPacketSize - 5

def patSection : Bytes :=
  appendCrc [0x00, 0xb0, 0x0d, highByte transportStreamId, transportStreamId.toUInt8, 0xc1, 0x00,
    0x00, highByte programNumber, programNumber.toUInt8, 0xe0 ||| highByte slatePmtPid,
    slatePmtPid.toUInt8]

/-- The entry of one stream; its descriptors are dropped when they do not fit. -/
def pmtEntry (keepDescriptors : Bool) (role : Role) (entry : EsEntry) : Bytes :=
  let descriptors := if keepDescriptors then entry.descriptors else []
  let length := u16OrZero descriptors.length
  [entry.streamType, 0xe0 ||| highByte role.outputPid, role.outputPid.toUInt8,
    0xf0 ||| highByte length, length.toUInt8] ++ descriptors

def pmtSection (map : ProgramMap) (version : UInt8) : Bytes :=
  let entries := [(Role.video, map.video), (Role.audio, map.audio)].filterMap fun (role, entry) =>
    entry.map fun entry => (role, entry)
  let fixed := 12 + 4 + 5 * entries.length
  let descriptorBytes := (entries.map fun entry => entry.2.descriptors.length).sum
  let keepDescriptors := decide (fixed + descriptorBytes ≤ maxSinglePacketSection)
  let pcrPid := map.outputPcrPid
  let rest := [highByte programNumber, programNumber.toUInt8,
      (0xc1 : UInt8) ||| ((version &&& 0x1f) <<< 1), 0x00, 0x00, 0xe0 ||| highByte pcrPid,
      pcrPid.toUInt8, 0xf0, 0x00] ++
    (entries.map fun entry => pmtEntry keepDescriptors entry.1 entry.2).flatten
  let sectionLength := u16OrZero (rest.length + 4)
  appendCrc ([0x02, 0xb0 ||| (highByte sectionLength &&& 0x0f), sectionLength.toUInt8] ++ rest)

def psiPacket (pid : UInt16) (counter : UInt8) (sect : Bytes) : Bytes :=
  let payload := sect.take maxSinglePacketSection
  [0x47, 0x40 ||| (highByte pid &&& 0x1f), pid.toUInt8, 0x10 ||| (counter &&& 0x0f), 0x00] ++
    payload ++ List.replicate (maxSinglePacketSection - payload.length) 0xff

/-- An adaptation-only packet with `discontinuity_indicator` set. -/
def discontinuityPacket (pid : UInt16) (counter : UInt8) : Bytes :=
  [0x47, highByte pid &&& 0x1f, pid.toUInt8, 0x20 ||| (counter &&& 0x0f), 183, 0x80] ++
    List.replicate (mpegTsPacketSize - 6) 0xff

/-! ## Fields of a packet -/

def payloadUnitStart (packet : Bytes) : Bool := packet[1]! &&& 0x40 ≠ 0

def payloadOffset (packet : Bytes) : Option Nat :=
  let control := (packet[3]! >>> 4) &&& 0x03
  if control = 1 then some 4
  else if control = 3 then
    let offset := 5 + packet[4]!.toNat
    if offset < mpegTsPacketSize then some offset else none
  else none

def hasPcr (packet : Bytes) : Bool :=
  packet[3]! &&& 0x20 ≠ 0 ∧ packet[4]! ≥ 7 ∧ packet[5]! &&& 0x10 ≠ 0

def readPcrBase (packet : Bytes) : Option UInt64 :=
  if hasPcr packet then
    some ((packet[6]!.toUInt64 <<< 25) ||| (packet[7]!.toUInt64 <<< 17) |||
      (packet[8]!.toUInt64 <<< 9) ||| (packet[9]!.toUInt64 <<< 1) ||| (packet[10]!.toUInt64 >>> 7))
  else none

def lowByte (value : UInt64) : UInt8 := value.toUInt8

def writePcrBase (packet : Bytes) (base : UInt64) : Bytes :=
  ((((packet.set 6 (lowByte (base >>> 25))).set 7 (lowByte (base >>> 17))).set 8
    (lowByte (base >>> 9))).set 9 (lowByte (base >>> 1))).set 10
      ((lowByte (base &&& 1) <<< 7) ||| (packet[10]! &&& 0x7f))

def isRandomAccess (packet : Bytes) : Bool :=
  packet[3]! &&& 0x20 ≠ 0 ∧ packet[4]! > 0 ∧ packet[5]! &&& 0x40 ≠ 0

/-- Stream ids whose PES packets have no optional header. -/
def plainStreamIds : List UInt8 := [0xbc, 0xbe, 0xbf, 0xf0, 0xf1, 0xf2, 0xf8, 0xff]

/-- The start of the PES packet and the length of its optional header. -/
def pesHeader (packet : Bytes) : Option (Nat × Nat) := do
  let start ← payloadOffset packet
  let pes := packet.drop start
  if pes.length < 9 ∨ pes.take 3 ≠ [0x00, 0x00, 0x01] then none
  else if plainStreamIds.contains pes[3]! then none
  else some (start, pes[8]!.toNat)

def readTimestamp (bytes : Bytes) : UInt64 :=
  (((bytes[0]! >>> 1) &&& 0x07).toUInt64 <<< 30) ||| (bytes[1]!.toUInt64 <<< 22) |||
    ((bytes[2]! >>> 1).toUInt64 <<< 15) ||| (bytes[3]!.toUInt64 <<< 7) |||
    (bytes[4]!.toUInt64 >>> 1)

/-- Write the five bytes of a timestamp at `start`. -/
def writeTimestamp (packet : Bytes) (start : Nat) (value : UInt64) : Bytes :=
  let top := lowByte (value >>> 29)
  let middle := lowByte (value >>> 14)
  let bottom := lowByte (value <<< 1)
  ((((packet.set start ((packet[start]! &&& 0xf0) ||| (top &&& 0x0e) ||| 0x01)).set (start + 1)
    (lowByte (value >>> 22))).set (start + 2) ((middle &&& 0xfe) ||| 0x01)).set (start + 3)
    (lowByte (value >>> 7))).set (start + 4) ((bottom &&& 0xfe) ||| 0x01)

def readPesPts (packet : Bytes) : Option UInt64 := do
  let (start, _) ← pesHeader packet
  let pes := packet.drop start
  if pes[7]! &&& 0x80 ≠ 0 ∧ 14 ≤ pes.length then some (readTimestamp (pes.drop 9)) else none

/-- The later of two 33-bit timestamps, with wrap. -/
def laterTimestamp (left right : UInt64) : UInt64 :=
  if (left - right) &&& timestampMask < timestampHalfRange then left else right

/-- Rebase one timestamp field if it is present and inside the packet. -/
def rebaseField (present : Bool) (start : Nat) (offset : UInt64)
    (rebased : Bytes × Option UInt64) : Bytes × Option UInt64 :=
  if !present || mpegTsPacketSize < start + 5 then rebased
  else
    let value := (readTimestamp (rebased.1.drop start) + offset) &&& timestampMask
    (writeTimestamp rebased.1 start value,
      some (rebased.2.elim value fun previous => laterTimestamp previous value))

/-- Add `offset` to the PTS and DTS of a PES start; the result has the latest of them. -/
def rebasePesTimestamps (packet : Bytes) (offset : UInt64) : Bytes × Option UInt64 :=
  match pesHeader packet with
  | none => (packet, none)
  | some (start, _) =>
    let flags := packet[start + 7]! >>> 6
    rebaseField (flags = 0x03) (start + 14) offset
      (rebaseField (flags &&& 0x02 ≠ 0) (start + 9) offset (packet, none))

/-- A start code of a picture or a parameter set that a decoder can begin with. -/
def startsKeyframe (streamType code : UInt8) : Bool :=
  if streamType = 0x1b then code &&& 0x1f = 5 ∨ code &&& 0x1f = 7
  else if streamType = 0x24 then
    let kind := (code >>> 1) &&& 0x3f
    (16 ≤ kind ∧ kind ≤ 21) ∨ (32 ≤ kind ∧ kind ≤ 34)
  else if streamType = 0x01 ∨ streamType = 0x02 then code = 0xb3
  else false

def isKeyframe (packet : Bytes) (streamType : UInt8) : Bool :=
  if isRandomAccess packet then true
  else (pesHeader packet).any fun (start, headerLength) =>
    let offset := start + 9 + headerLength
    let payload := packet.drop offset
    decide (offset ≤ packet.length) && (List.range (payload.length - 3)).any fun i =>
      decide ((payload.drop i).take 3 = [0x00, 0x00, 0x01]) &&
        startsKeyframe streamType payload[i + 3]!

end IptvRelay.Slate
