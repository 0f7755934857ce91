import IptvRelay.Media.Psi

/-!
# The PCR timeline of a ring generation

Model of `PcrTimeline` in `pacing.rs`. Ticks are natural numbers; the raw PCR
wraps at `pcrWrapTicks`. The unwrapped ticks are a `u64` in the source, so the model holds
below `2 ^ 64` ticks (some 21 thousand years of a stream without discontinuities).
-/

namespace IptvRelay.Media

/-- A monotonic clock reading, in nanoseconds. -/
abbrev Instant := Nat

/-- A length of time, in nanoseconds. -/
abbrev Duration := Nat

namespace Pacing

def pcrTicksPerSecond : Nat := 27000000
def pcrWrapTicks : Nat := 2 ^ 33 * 300
def maxForwardJumpTicks : Nat := 10 * pcrTicksPerSecond
def maxBackwardJitterTicks : Nat := pcrTicksPerSecond
def sampleSpacingTicks : Nat := pcrTicksPerSecond / 10

structure PcrSample where
  sequence : Nat
  ticks : Nat
  deriving DecidableEq, Repr

structure PcrTimeline where
  lastRaw : Option Nat := none
  unwrapped : Nat := 0
  latestSequence : Nat := 0
  hasSample : Bool := false
  samples : List PcrSample := []
  deriving DecidableEq, Repr

/-- The raw 27 MHz PCR and the discontinuity flag, if the packet has a PCR. -/
def parsePcr (packet : Bytes) : Option (Nat × Bool) :=
  if packet.length < 12 ∨ packet[3]! &&& 0x20 = 0 then none
  else if packet[4]!.toNat < 7 ∨ packet[5]! &&& 0x10 = 0 then none
  else
    let discontinuity := packet[5]! &&& 0x80 ≠ 0
    let base := (packet[6]!.toNat <<< 25) ||| (packet[7]!.toNat <<< 17) |||
      (packet[8]!.toNat <<< 9) ||| (packet[9]!.toNat <<< 1) ||| (packet[10]!.toNat >>> 7)
    let extension := ((packet[10]! &&& 0x01).toNat <<< 8) ||| packet[11]!.toNat
    some (base * 300 + min extension 299, discontinuity)

namespace PcrTimeline

/-- Accept a raw PCR at media time `unwrapped`; the index keeps one sample per 100 ms. -/
def accept (self : PcrTimeline) (raw sequence unwrapped : Nat) : PcrTimeline :=
  let spaced := self.samples.getLast?.all fun last =>
    decide (last.ticks + sampleSpacingTicks ≤ unwrapped)
  { lastRaw := some raw
    unwrapped
    latestSequence := sequence
    hasSample := true
    samples := if spaced then self.samples ++ [{ sequence, ticks := unwrapped }]
      else self.samples }

def observe (self : PcrTimeline) (packet : Bytes) (sequence : Nat) : PcrTimeline :=
  match parsePcr packet with
  | none => self
  | some (raw, discontinuity) =>
    match self.lastRaw with
    | none => self.accept raw sequence self.unwrapped
    | some last =>
      if discontinuity then self.accept raw sequence self.unwrapped
      else
        let forward := (raw + pcrWrapTicks - last) % pcrWrapTicks
        if forward ≤ maxForwardJumpTicks then
          self.accept raw sequence (self.unwrapped + forward)
        -- A small backward step is jitter: keep the older reference.
        else if pcrWrapTicks - forward ≤ maxBackwardJitterTicks then self
        else self.accept raw sequence self.unwrapped

/-- Drop index entries before `firstSequence` but keep one of them for lookups near the tail. -/
def pruneSamples (firstSequence : Nat) : List PcrSample → List PcrSample
  | sample :: next :: rest =>
    if next.sequence ≤ firstSequence then pruneSamples firstSequence (next :: rest)
    else sample :: next :: rest
  | samples => samples

def prune (self : PcrTimeline) (firstSequence : Nat) : PcrTimeline :=
  { self with samples := pruneSamples firstSequence self.samples }

def headTicks (self : PcrTimeline) : Option Nat :=
  if self.hasSample then some self.unwrapped else none

/-- The newest indexed media time at or before `sequence`. -/
def ticksAt (self : PcrTimeline) (sequence : Nat) : Option Nat :=
  if self.hasSample ∧ self.latestSequence ≤ sequence then some self.unwrapped
  else
    let index := (self.samples.takeWhile fun sample => sample.sequence ≤ sequence).length
    self.samples[index - 1]?.map PcrSample.ticks

/-- The first indexed sequence whose media time is at least `ticks`. -/
def sequenceAtOrAfter (self : PcrTimeline) (ticks : Nat) : Option Nat :=
  (self.samples.dropWhile fun sample => sample.ticks < ticks).head?.map PcrSample.sequence

end PcrTimeline

/-- Nanoseconds to 27 MHz ticks, saturating at 64 bits. -/
def durationToTicks (duration : Duration) : Nat :=
  min (duration * pcrTicksPerSecond / 1000000000) (2 ^ 64 - 1)

end Pacing

end IptvRelay.Media
