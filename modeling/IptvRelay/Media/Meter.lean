import IptvRelay.Media.Pacing

/-!
# The rate meter of a ring generation

Model of `RateMeter` in `meter.rs`: the state that `MpegTsRing::push` feeds with
every PCR and every video packet.
-/

namespace IptvRelay.Media

/-- `u64::saturating_add`. -/
def satAdd64 (a b : Nat) : Nat := min (a + b) (2 ^ 64 - 1)

/-- The nearest `i64`. -/
def clampI64 (x : Int) : Int := max (-2 ^ 63) (min x (2 ^ 63 - 1))

namespace Meter

open Pacing

def windowSeconds : Nat := 120
def frameSamples : Nat := 120
def ptsWrap : Nat := 2 ^ 33
def ptsTicksPerSecond : Nat := 90000

def isVideoStreamType (streamType : UInt8) : Bool :=
  streamType ∈ ([0x01, 0x02, 0x10, 0x1b, 0x24] : List UInt8)

/-- The five-byte PTS or DTS field at `offset`. -/
def readTimestamp (bytes : Bytes) (offset : Nat) : Nat :=
  (((bytes[offset]! >>> 1) &&& 0x07).toNat <<< 30) ||| (bytes[offset + 1]!.toNat <<< 22) |||
    ((bytes[offset + 2]!.toNat >>> 1) <<< 15) ||| (bytes[offset + 3]!.toNat <<< 7) |||
    (bytes[offset + 4]!.toNat >>> 1)

/-- The decode timestamp of a PES that starts in this packet: the DTS, or else the PTS. -/
def pesDecodeTimestamp (packet : Bytes) : Option Nat :=
  if packet.length ≠ mpegTsPacketSize ∨ packet[1]! &&& 0x40 = 0 ∨ packet[3]! &&& 0x10 = 0 then none
  else
    let start := if packet[3]! &&& 0x20 ≠ 0 then 5 + packet[4]!.toNat else 4
    if start > packet.length then none
    else
      let pes := packet.drop start
      if pes.length < 14 ∨ pes.take 3 ≠ [0, 0, 1] then none
      else
        let flags := pes[7]! >>> 6
        if flags = 3 then (if pes.length < 19 then none else some (readTimestamp pes 14))
        else if flags = 2 then some (readTimestamp pes 9)
        else none

structure ClockMark where
  ticks : Nat
  sequence : Nat
  deriving DecidableEq, Repr

structure RateMeter where
  last : Option ClockMark := none
  origin : Option (Nat × Instant) := none
  seconds : List Nat := []
  currentSecond : Nat := 0
  measuredTicks : Nat := 0
  minOffsetMillis : Int := 0
  maxOffsetMillis : Int := 0
  videoPid : Option UInt16 := none
  lastDecode : Option Nat := none
  frameGaps : List Nat := []
  deriving DecidableEq, Repr

namespace RateMeter

def setVideoPid (self : RateMeter) (pid : Option UInt16) : RateMeter :=
  if self.videoPid ≠ pid then { self with videoPid := pid, lastDecode := none, frameGaps := [] }
  else self

/-- The histogram after `packets` more packets that end in media second `second`. -/
def countPackets (self : RateMeter) (packets second : Nat) : List Nat :=
  let opened := self.seconds ++
    List.replicate (min (second - self.currentSecond) windowSeconds) 0
  let counted := opened.dropLast ++
    opened.getLast?.toList.map fun current => satAdd64 current packets
  counted.drop (counted.length - windowSeconds)

/-- The media time ahead of the wall clock since the origin, in milliseconds. -/
def offsetMillis (origin : Nat × Instant) (ticks : Nat) (now : Instant) : Int :=
  let media := (ticks - origin.1) / (pcrTicksPerSecond / 1000)
  let wall := (now - origin.2) / 1000000
  clampI64 (clampI64 media - clampI64 wall)

def observeClock (self : RateMeter) (ticks sequence : Nat) (now : Instant) : RateMeter :=
  match self.last with
  | none =>
    { self with
      last := some { ticks, sequence }
      origin := some (ticks, now)
      currentSecond := ticks / pcrTicksPerSecond
      seconds := self.seconds ++ [0] }
  | some last =>
    if sequence ≤ last.sequence then self
    else
      let second := ticks / pcrTicksPerSecond
      let offset := self.origin.map fun origin => offsetMillis origin ticks now
      { self with
        last := some { ticks, sequence }
        seconds := self.countPackets (sequence - last.sequence) second
        currentSecond := max self.currentSecond second
        measuredTicks := satAdd64 self.measuredTicks (ticks - last.ticks)
        minOffsetMillis := offset.elim self.minOffsetMillis (min self.minOffsetMillis)
        maxOffsetMillis := offset.elim self.maxOffsetMillis (max self.maxOffsetMillis) }

def observeVideo (self : RateMeter) (packet : Bytes) : RateMeter :=
  match pesDecodeTimestamp packet with
  | none => self
  | some decode =>
    let gap := self.lastDecode.map fun last => (decode + ptsWrap - last) % ptsWrap
    let gaps := self.frameGaps ++
      (gap.filter fun gap => decide (0 < gap ∧ gap < ptsTicksPerSecond)).toList
    { self with
      lastDecode := some decode
      frameGaps := gaps.drop (gaps.length - frameSamples) }

end RateMeter

end Meter

end IptvRelay.Media
