import IptvRelay.Lib.Machine
import IptvRelay.Media.Meter

/-!
# The MPEG-TS ring

Model of `ring.rs`. Every method of the ring runs under its state mutex, so each
one is a function on `RingState`. Sequences and generations are 64-bit counters:
the source checks each addition, and so does the model. Both clock readings of
one `push` are the argument `now`.
-/

namespace IptvRelay.Media

open Blocks Psi Pacing Meter

/-! ## Configuration -/

/-- A valid configuration; `MpegTsRingConfig.new` is the only way to get one from numbers. -/
structure MpegTsRingConfig where
  capacityPackets : Nat
  preRollPackets : Nat
  capacity_pos : 0 < capacityPackets
  capacity_fits : capacityPackets * mpegTsPacketSize < 2 ^ 64
  preRoll_le : preRollPackets ≤ capacityPackets

inductive RingConfigError where
  | emptyCapacity
  | preRollExceedsCapacity (capacityPackets preRollPackets : Nat)
  | zeroBitrate
  | capacityOverflow
  deriving DecidableEq, Repr

def MpegTsRingConfig.new (capacityPackets preRollPackets : Nat) :
    Except RingConfigError MpegTsRingConfig :=
  if hpos : capacityPackets = 0 then .error .emptyCapacity
  else if hfits : capacityPackets * mpegTsPacketSize < 2 ^ 64 then
    if hle : preRollPackets ≤ capacityPackets then
      .ok ⟨capacityPackets, preRollPackets, Nat.pos_of_ne_zero hpos, hfits, hle⟩
    else .error (.preRollExceedsCapacity capacityPackets preRollPackets)
  else .error .capacityOverflow

/-! ## State -/

inductive RingCloseReason where
  | endOfStream
  | shutdown
  | upstreamError (message : String)
  | recoveryExpired (attempts : Nat)
  deriving DecidableEq, Repr

structure RingState where
  storage : Bytes
  generation : Nat := 0
  firstSequence : Nat := 0
  nextSequence : Nat := 0
  safeBoundaries : List Nat := []
  psi : PatPmtTracker := {}
  pcrPid : Option UInt16 := none
  pcr : PcrTimeline := {}
  meter : RateMeter := {}
  firstWrite : Option Instant := none
  bytesWritten : Nat := 0
  closed : Option RingCloseReason := none
  deriving DecidableEq, Repr

structure MpegTsRing where
  config : MpegTsRingConfig
  state : RingState

inductive RingWriteError where
  | unaligned (bytes : Nat)
  | invalidSyncByte (packetIndex : Nat) (actual : UInt8)
  | closed (generation : Nat) (reason : RingCloseReason)
  | sequenceExhausted
  deriving DecidableEq, Repr

structure WriteOutcome where
  generation : Nat
  packetsWritten : Nat
  packetsOverwritten : Nat
  firstSequence : Nat
  nextSequence : Nat
  deriving DecidableEq, Repr

/-! ## Writing -/

/-- The PID of the first video elementary stream in the newest PMT. -/
def videoPid (psi : PatPmtTracker) : Option UInt16 := do
  let (sect, program) ← psi.completedPmt
  let streams ← parsePmtElementaryStreams sect program
  let stream ← streams.find? fun stream => isVideoStreamType stream.streamType
  some stream.pid

namespace RingState

/-- Feed the PSI tracker. A confirmed boundary also selects the PCR and video PIDs. -/
def observePsi (state : RingState) (packet : Bytes) : RingState :=
  match state.psi.observe packet state.nextSequence with
  | (psi, none) => { state with psi }
  | (psi, some boundary) =>
    { state with
      psi
      safeBoundaries := state.safeBoundaries ++ [boundary]
      pcrPid := psi.pcrPid
      meter := state.meter.setVideoPid (videoPid psi) }

/-- Feed the PCR timeline and the rate meter. -/
def observeClock (state : RingState) (packet : Bytes) (now : Instant) : RingState :=
  let pid := packetPid packet
  let state :=
    if state.pcrPid = some pid then
      let pcr := state.pcr.observe packet state.nextSequence
      { state with
        pcr
        meter := pcr.headTicks.elim state.meter fun head =>
          state.meter.observeClock head state.nextSequence now }
    else state
  if state.meter.videoPid = some pid then
    { state with meter := state.meter.observeVideo packet }
  else state

/-- Copy the packet into its slot and advance the window. -/
def store (state : RingState) (capacityPackets : Nat) (packet : Bytes) : RingState :=
  { state with
    storage := setBlock mpegTsPacketSize state.storage (state.nextSequence % capacityPackets) packet
    nextSequence := state.nextSequence + 1
    firstSequence := state.nextSequence + 1 - capacityPackets }

/-- The body of the packet loop of `push`. -/
def pushPacket (capacityPackets : Nat) (now : Instant) (state : RingState) (packet : Bytes) :
    RingState :=
  ((state.observePsi packet).observeClock packet now).store capacityPackets packet

/-- What `push` does after the loop: account for the write and forget overwritten boundaries. -/
def settle (state : RingState) (bytes packetCount : Nat) (now : Instant) : RingState :=
  { state with
    pcr := state.pcr.prune state.firstSequence
    firstWrite := if state.firstWrite = none ∧ 0 < packetCount then some now else state.firstWrite
    bytesWritten := satAdd64 state.bytesWritten bytes
    safeBoundaries := state.safeBoundaries.dropWhile fun boundary =>
      decide (boundary < state.firstSequence)
    psi := if state.psi.candidateStart.any fun boundary => boundary < state.firstSequence
      then PatPmtTracker.reset else state.psi }

end RingState

/-- The index and sync byte of the first packet that does not start with `0x47`. -/
def invalidSync (packets : List Bytes) : Option (Nat × UInt8) :=
  (packets.zipIdx.find? fun entry => entry.1[0]! ≠ 0x47).map fun entry => (entry.2, entry.1[0]!)

namespace MpegTsRing

def new (config : MpegTsRingConfig) : MpegTsRing where
  config := config
  state := { storage := List.replicate (config.capacityPackets * mpegTsPacketSize) 0 }

/-- Write complete packets, overwriting old data when necessary. -/
def push (self : MpegTsRing) (bytes : Bytes) (now : Instant) :
    MpegTsRing × Except RingWriteError WriteOutcome :=
  if bytes.length % mpegTsPacketSize ≠ 0 then (self, .error (.unaligned bytes.length))
  else
    let packets := chunksExact mpegTsPacketSize bytes
    match invalidSync packets with
    | some (packetIndex, actual) => (self, .error (.invalidSyncByte packetIndex actual))
    | none =>
      match self.state.closed with
      | some reason => (self, .error (.closed self.state.generation reason))
      | none =>
        if self.state.nextSequence + packets.length < 2 ^ 64 then
          let state := (packets.foldl (RingState.pushPacket self.config.capacityPackets now)
            self.state).settle bytes.length packets.length now
          ({ self with state }, .ok
            { generation := state.generation
              packetsWritten := packets.length
              packetsOverwritten := state.firstSequence - self.state.firstSequence
              firstSequence := state.firstSequence
              nextSequence := state.nextSequence })
        else (self, .error .sequenceExhausted)

/-- Start a clean generation; the storage is kept and the closed flag is cleared. -/
def startNewGeneration (self : MpegTsRing) : MpegTsRing × Except RingWriteError Nat :=
  if self.state.generation + 1 < 2 ^ 64 then
    let generation := self.state.generation + 1
    ({ self with state := { storage := self.state.storage, generation } }, .ok generation)
  else (self, .error .sequenceExhausted)

/-- Mark the current generation closed; the first reason wins. -/
def close (self : MpegTsRing) (reason : RingCloseReason) : MpegTsRing × Bool :=
  match self.state.closed with
  | some _ => (self, false)
  | none => ({ self with state := { self.state with closed := some reason } }, true)

end MpegTsRing

/-! ## Reading -/

/-- One reader's position. -/
structure RingCursor where
  generation : Nat
  nextSequence : Nat
  waitingForSafeBoundary : Bool
  deriving DecidableEq, Repr

inductive RingRead where
  | packets (generation firstSequence : Nat) (bytes : Bytes)
  | lagged (generation skippedPackets resumeAt : Nat)
  | generationBoundary (previousGeneration generation : Nat)
  | closed (generation : Nat) (reason : RingCloseReason)
  deriving DecidableEq, Repr

inductive RingReadError where
  | emptyRead
  deriving DecidableEq, Repr

/-- The next confirmed boundary, else the unconfirmed PAT, else the live edge. -/
def safeResumePosition (state : RingState) (target : Nat) : Nat × Bool :=
  match state.safeBoundaries.find? fun boundary => target ≤ boundary with
  | some boundary => (boundary, false)
  | none =>
    match state.psi.candidateStart.filter fun candidate => target ≤ candidate with
    | some candidate => (candidate, true)
    | none => (state.nextSequence, true)

namespace MpegTsRing

/-- A cursor `preRollPackets` behind the live edge, capped to the retained data. -/
def subscribeWithPreRoll (self : MpegTsRing) (preRollPackets : Nat) : RingCursor :=
  let target := max (self.state.nextSequence - preRollPackets) self.state.firstSequence
  let (nextSequence, waitingForSafeBoundary) := safeResumePosition self.state target
  { generation := self.state.generation, nextSequence, waitingForSafeBoundary }

def subscribe (self : MpegTsRing) : RingCursor :=
  self.subscribeWithPreRoll self.config.preRollPackets

def subscribeAtLiveEdge (self : MpegTsRing) : RingCursor := self.subscribeWithPreRoll 0

/-- Average write rate of this generation. Needs two seconds of history and one MiB. -/
def byteRateBps (self : MpegTsRing) (now : Instant) : Option Nat := do
  let firstWrite ← self.state.firstWrite
  let elapsed := now - firstWrite
  if elapsed < 2000000000 ∨ self.state.bytesWritten < 1048576 then none
  else
    let rate := self.state.bytesWritten * 8 * 1000000000 / max elapsed 1
    if rate < 2 ^ 64 then some rate else none

/-- A cursor `delay` of media time behind the newest PCR. -/
def subscribeWithDelay (self : MpegTsRing) (delay : Duration) (now : Instant) : RingCursor :=
  let retained := self.state.nextSequence - self.state.firstSequence
  let byClock := self.state.pcr.headTicks.bind fun head =>
    (self.state.pcr.sequenceAtOrAfter (head - durationToTicks delay)).map fun sequence =>
      self.state.nextSequence - sequence
  let byRate := (self.byteRateBps now).map fun rate =>
    rate / 8 * (delay / 1000000000) / mpegTsPacketSize
  let packets := ((byClock.or byRate).getD self.config.preRollPackets)
  self.subscribeWithPreRoll (min packets retained)

/-- The bytes of `count` packets from `firstSequence` on. -/
def readPackets (self : MpegTsRing) (firstSequence count : Nat) : Bytes :=
  ((List.range count).map fun i =>
    blockAt mpegTsPacketSize self.state.storage
      ((firstSequence + i) % self.config.capacityPackets)).flatten

end MpegTsRing

namespace RingCursor

/-- The part of `try_next` after the boundary wait: read data, or report the end. -/
def read (self : RingCursor) (ring : MpegTsRing) (maxPackets : Nat) :
    RingCursor × Option RingRead :=
  if self.nextSequence < ring.state.nextSequence then
    let count := min (ring.state.nextSequence - self.nextSequence) maxPackets
    ({ self with nextSequence := self.nextSequence + count },
      some (.packets ring.state.generation self.nextSequence
        (ring.readPackets self.nextSequence count)))
  else (self, ring.state.closed.map (.closed ring.state.generation))

/-- Non-blocking read; `none` means that the cursor is at a live, open edge. -/
def tryNext (self : RingCursor) (ring : MpegTsRing) (maxPackets : Nat) :
    RingCursor × Except RingReadError (Option RingRead) :=
  let state := ring.state
  if maxPackets = 0 then (self, .error .emptyRead)
  else if self.generation ≠ state.generation then
    let (nextSequence, waitingForSafeBoundary) := safeResumePosition state state.firstSequence
    ({ generation := state.generation, nextSequence, waitingForSafeBoundary },
      .ok (some (.generationBoundary self.generation state.generation)))
  else if self.nextSequence < state.firstSequence then
    let (nextSequence, waitingForSafeBoundary) := safeResumePosition state state.firstSequence
    ({ self with nextSequence, waitingForSafeBoundary },
      .ok (some (.lagged state.generation (nextSequence - self.nextSequence) nextSequence)))
  else if self.waitingForSafeBoundary then
    match state.safeBoundaries.find? fun boundary => self.nextSequence ≤ boundary with
    | some boundary =>
      let (cursor, event) := read
        { self with nextSequence := boundary, waitingForSafeBoundary := false } ring maxPackets
      (cursor, .ok event)
    | none =>
      let nextSequence := (state.psi.candidateStart.filter fun candidate =>
        self.nextSequence ≤ candidate).getD state.nextSequence
      ({ self with nextSequence }, .ok (state.closed.map (.closed state.generation)))
  else
    let (cursor, event) := read self ring maxPackets
    (cursor, .ok event)

end RingCursor

end IptvRelay.Media
