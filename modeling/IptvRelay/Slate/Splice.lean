import IptvRelay.Lib.Machine
import IptvRelay.Slate.Packets

/-!
# The splice muxer

Model of `SpliceMuxer` in `slate.rs`, which joins slate and live segments into one
program. The output buffer is the list of what each write appended; a write is
tagged with the place that made it, and the start of a segment leaves a mark of no
bytes. Tags and marks are read by the specification only.
-/

namespace IptvRelay.Slate

open Transition Blocks Media Psi

/-! ## Segments -/

structure Segment where
  tracker : PatPmtTracker := {}
  map : Option ProgramMap := none
  started : Bool := false
  packetsSeen : Nat := 0
  firstPcr : Option UInt64 := none
  latestPcr : Option UInt64 := none
  latestPts : Option UInt64 := none
  offset : UInt64 := 0
  /-- The input PTS of the first video frame; audio starts at the first PES that is not before. -/
  audioGate : Option UInt64 := none
  ccDelta : Role → Option UInt8 := fun _ => none
  roleStarted : Role → Bool := fun _ => false

namespace Segment

def audioReachedGate (self : Segment) (packet : Bytes) : Bool :=
  match self.audioGate, readPesPts packet with
  | some gate, some pts =>
    let ahead := (pts - gate) &&& timestampMask
    let behind := (gate - pts) &&& timestampMask
    ahead < timestampHalfRange ∨ behind > audioGateLimitTicks
  | _, _ => true

/-- Feed the PSI tracker; a program map is returned when the input PMT changed. -/
def observePsi (self : Segment) (packet : Bytes) : Segment × Option ProgramMap :=
  let observed := self.tracker.observe packet self.packetsSeen
  ({ self with tracker := observed.1, packetsSeen := self.packetsSeen + 1 },
    observed.2.bind fun _ => observed.1.completedPmt.bind fun pmt =>
      (ProgramMap.fromPmt pmt.1).filter fun map => self.map ≠ some map)

/-- The first packet of a role must start a PES, and audio must have reached the gate. -/
def admits (self : Segment) (role : Role) (packet : Bytes) : Bool :=
  self.roleStarted role ||
    ((decide (role = .pcr) || payloadUnitStart packet) &&
      (decide (role ≠ .audio) || self.audioReachedGate packet))

/-- A new program map restarts every stream at its next PES start. -/
def restart (self : Segment) (map : ProgramMap) : Segment :=
  { self with
    map := some map
    ccDelta := fun _ => none
    roleStarted := fun _ => false
    audioGate := none }

end Segment

/-! ## The muxer and its output -/

structure SpliceMuxer where
  current : Option Segment := none
  pending : Option Segment := none
  outputCc : Role → Option UInt8 := fun _ => none
  patCc : UInt8 := 0
  pmtCc : UInt8 := 0
  pmtVersion : UInt8 := 0
  outputMap : Option ProgramMap := none
  lastPcr : Option UInt64 := none
  /-- The latest PTS or DTS of each output stream. -/
  pesTime : Role → Option UInt64 := fun _ => none
  /-- The last step between two PES starts of each output stream. -/
  pesStep : Role → UInt64 := fun _ => 0
  /-- The estimated end of all output media. -/
  mediaEnd : Option UInt64 := none
  splices : Nat := 0

namespace SpliceMuxer

def outputReference (self : SpliceMuxer) : Option UInt64 :=
  match self.lastPcr, self.mediaEnd with
  | some pcr, some pts => some (laterTimestamp pcr pts)
  | pcr, pts => pcr.or pts

/-- The offset that maps `inputReference` one frame behind the last output timestamp. -/
def offsetFor (self : SpliceMuxer) (inputReference : UInt64) : UInt64 :=
  self.outputReference.elim 0 fun last =>
    (last + spliceStepTicks - inputReference) &&& timestampMask

/-- Note the PCR and the latest PTS of a packet of a pending segment. -/
def noteClock (segment : Segment) (map : ProgramMap) (packet : Bytes) : Segment :=
  let pid := packetPid packet
  let pcr := if map.pcrPid = some pid then readPcrBase packet else none
  let pts := if payloadUnitStart packet ∧ (map.roleOf pid).isSome then readPesPts packet else none
  { segment with
    latestPcr := pcr.or segment.latestPcr
    firstPcr := segment.firstPcr.or pcr
    latestPts := pts.or segment.latestPts }

/-- The input time that the splice maps to the end of the output. -/
def reference (segment : Segment) (map : ProgramMap) : Option UInt64 :=
  segment.latestPcr.or
    (if map.pcrPid = none ∨ noPcrPacketBudget ≤ segment.packetsSeen then
      segment.latestPts.map fun pts => (pts - 90000) &&& timestampMask
    else none)

/-- The packet can be the first one of the segment. -/
def accepts (segment : Segment) (map : ProgramMap) (packet : Bytes) : Bool :=
  let pid := packetPid packet
  match map.video with
  | some video =>
    decide (video.pid = pid) &&
      (isKeyframe packet video.streamType ||
        match segment.firstPcr, segment.latestPcr with
        | some first, some latest =>
          decide ((latest - first) &&& timestampMask ≥ keyframeFallbackTicks)
        | _, _ => decide (noPcrPacketBudget ≤ segment.packetsSeen))
  | none => map.audio.any fun audio => audio.pid = pid

/-- Look for the start point of a pending segment. -/
def seek (self : SpliceMuxer) (segment : Segment) (packet : Bytes) : Segment × Bool :=
  if packet.length ≠ mpegTsPacketSize ∨ packet[0]! ≠ 0x47 then (segment, false)
  else
    let observed := segment.observePsi packet
    let segment := { observed.1 with map := observed.2.or observed.1.map }
    match segment.map with
    | none => (segment, false)
    | some map =>
      let segment := noteClock segment map packet
      match reference segment map with
      | none => (segment, false)
      | some reference =>
        if payloadUnitStart packet ∧ accepts segment map packet then
          ({ segment with
              offset := self.offsetFor reference
              audioGate := if map.video.any fun video => video.pid = packetPid packet
                then readPesPts packet else segment.audioGate }, true)
        else (segment, false)

end SpliceMuxer

/-- What one write appends to the output. -/
inductive Emitted where
  | segmentStart
  | pat (packet : Bytes)
  | pmt (packet : Bytes)
  | discontinuity (role : Role) (packet : Bytes)
  | stream (role : Role) (packet : Bytes)
  | null (packet : Bytes)
  deriving DecidableEq, Repr

def Emitted.packet : Emitted → Option Bytes
  | .segmentStart => none
  | .pat packet | .pmt packet | .discontinuity _ packet | .stream _ packet | .null packet =>
    some packet

/-- A muxer with its output buffer. -/
structure Muxing where
  mux : SpliceMuxer := {}
  out : List Emitted := []

namespace Muxing

/-- The packets of the output, and its bytes. -/
def packets (self : Muxing) : List Bytes := self.out.filterMap Emitted.packet

def bytes (self : Muxing) : Bytes := self.packets.flatten

/-! ## Writing -/

def writePat (self : Muxing) : Muxing where
  mux := { self.mux with patCc := (self.mux.patCc + 1) &&& 0x0f }
  out := self.out ++ [.pat (psiPacket patPid self.mux.patCc patSection)]

def writePmt (self : Muxing) : Muxing :=
  match self.mux.outputMap with
  | none => self
  | some map =>
    { mux := { self.mux with pmtCc := (self.mux.pmtCc + 1) &&& 0x0f }
      out := self.out ++
        [.pmt (psiPacket slatePmtPid self.mux.pmtCc (pmtSection map self.mux.pmtVersion))] }

/-- Advance the PMT version for a new layout. -/
def adoptMap (self : Muxing) (map : Option ProgramMap) : Muxing :=
  { self with mux := { self.mux with
      pmtVersion := (self.mux.pmtVersion + 1) &&& 0x1f
      outputMap := map } }

/-- An adaptation-only packet does not advance the counter. -/
def writeDiscontinuity (self : Muxing) (role : Role) : Muxing :=
  let counter := (self.mux.outputCc role).getD 0x0f
  { mux := { self.mux with outputCc := Function.update self.mux.outputCc role (some counter) }
    out := self.out ++ [.discontinuity role (discontinuityPacket role.outputPid counter)] }

def startSegment (self : Muxing) (segment : Segment) : Muxing × Segment :=
  let marked : Muxing :=
    { mux := { self.mux with splices := self.mux.splices + 1 }, out := self.out ++ [.segmentStart] }
  let announced := (marked.adoptMap segment.map).writePat.writePmt
  let roles := if self.mux.outputMap.isSome then segment.map.elim [] ProgramMap.roles else []
  (roles.foldl writeDiscontinuity announced, { segment with started := true })

/-- Put a packet on the PID of its role. -/
def retarget (packet : Bytes) (role : Role) : Bytes :=
  (packet.set 1 ((packet[1]! &&& 0xe0) ||| (highByte role.outputPid &&& 0x1f))).set 2
    role.outputPid.toUInt8

/-- The counter shift of a stream, chosen at its first packet. -/
def counterDelta (self : Muxing) (segment : Segment) (role : Role) (packet : Bytes) : UInt8 :=
  let inputCounter := packet[3]! &&& 0x0f
  let target := (self.mux.outputCc role).elim inputCounter fun last =>
    if packet[3]! &&& 0x10 ≠ 0 then (last + 1) &&& 0x0f else last
  (segment.ccDelta role).getD ((target - inputCounter) &&& 0x0f)

def setCounter (packet : Bytes) (counter : UInt8) : Bytes :=
  packet.set 3 ((packet[3]! &&& 0xf0) ||| counter)

/-- Rebase the PCR of a packet and remember it. -/
def rebasePcr (mux : SpliceMuxer) (offset : UInt64) (packet : Bytes) : SpliceMuxer × Bytes :=
  match readPcrBase packet with
  | none => (mux, packet)
  | some base =>
    let rebased := (base + offset) &&& timestampMask
    ({ mux with lastPcr := some rebased }, writePcrBase packet rebased)

/-- Account for the latest timestamp of a PES. -/
def notePesTime (mux : SpliceMuxer) (role : Role) (latest : UInt64) : SpliceMuxer :=
  let pesStep := (mux.pesTime role).elim mux.pesStep fun previous =>
    let step := (latest - previous) &&& timestampMask
    if 0 < step ∧ step ≤ maxPesStepTicks then Function.update mux.pesStep role step
    else mux.pesStep
  let final := (latest + pesStep role) &&& timestampMask
  { mux with
    pesStep
    pesTime := Function.update mux.pesTime role
      (some ((mux.pesTime role).elim latest fun previous => laterTimestamp previous latest))
    mediaEnd := some (mux.mediaEnd.elim final fun previous => laterTimestamp previous final) }

/-- Rebase the timestamps of a PES start and remember them. -/
def rebasePes (mux : SpliceMuxer) (role : Role) (offset : UInt64) (packet : Bytes) :
    SpliceMuxer × Bytes :=
  if payloadUnitStart packet then
    let rebased := rebasePesTimestamps packet offset
    (rebased.2.elim mux (notePesTime mux role), rebased.1)
  else (mux, packet)

/-- Send a packet of a stream with its new PID, counter and timestamps. -/
def forward (self : Muxing) (segment : Segment) (role : Role) (packet : Bytes) :
    Muxing × Segment :=
  let output := retarget packet role
  let delta := self.counterDelta segment role output
  let counter := ((output[3]! &&& 0x0f) + delta) &&& 0x0f
  let mux := { self.mux with outputCc := Function.update self.mux.outputCc role (some counter) }
  let clocked := rebasePcr mux segment.offset (setCounter output counter)
  let sent := rebasePes clocked.1 role segment.offset clocked.2
  ({ mux := sent.1, out := self.out ++ [.stream role sent.2] },
    { segment with
      ccDelta := Function.update segment.ccDelta role (some delta)
      roleStarted := Function.update segment.roleStarted role true })

/-- A packet after the PSI tracker has seen it. -/
def route (self : Muxing) (segment : Segment) (packet : Bytes) : Muxing × Segment :=
  let pid := packetPid packet
  if pid = patPid then
    (if payloadUnitStart packet then self.writePat.writePmt else self, segment)
  else
    match segment.map.bind fun map => map.roleOf pid with
    | none => (self, segment)
    | some role =>
      if segment.admits role packet then self.forward segment role packet else (self, segment)

def runningPacket (self : Muxing) (segment : Segment) (packet : Bytes) : Muxing × Segment :=
  if packet.length ≠ mpegTsPacketSize ∨ packet[0]! ≠ 0x47 then (self, segment)
  else if packetPid packet = nullPid then
    ({ self with out := self.out ++ [.null packet] }, segment)
  else
    let observed := segment.observePsi packet
    match observed.2 with
    | none => self.route observed.1 packet
    | some map => (self.adoptMap (some map)).writePmt.route (observed.1.restart map) packet

/-! ## Calls -/

def beginPending (self : Muxing) : Muxing :=
  { self with mux := { self.mux with pending := some {} } }

def cancelPending (self : Muxing) : Muxing :=
  { self with mux := { self.mux with pending := none } }

def pushCurrent (self : Muxing) (chunk : Bytes) : Muxing :=
  match self.mux.current with
  | none => self
  | some segment =>
    let taken : Muxing := { self with mux := { self.mux with current := none } }
    let pushed := (chunksExact mpegTsPacketSize chunk).foldl
      (fun state packet => state.1.runningPacket state.2 packet) (taken, segment)
    { pushed.1 with mux := { pushed.1.mux with current := some pushed.2 } }

/-- The loop body of `push_pending`. -/
def pendingPacket (self : Muxing) (segment : Segment) (packet : Bytes) : Muxing × Segment :=
  if segment.started then self.runningPacket segment packet
  else
    let sought := self.mux.seek segment packet
    if sought.2 then
      let begun := self.startSegment sought.1
      begun.1.runningPacket begun.2 packet
    else (self, sought.1)

/-- The result says that the pending segment has become the current one. -/
def pushPending (self : Muxing) (chunk : Bytes) : Muxing × Bool :=
  match self.mux.pending with
  | none => (self, false)
  | some segment =>
    let taken : Muxing := { self with mux := { self.mux with pending := none } }
    let pushed := (chunksExact mpegTsPacketSize chunk).foldl
      (fun state packet => state.1.pendingPacket state.2 packet) (taken, segment)
    if pushed.2.started then
      ({ pushed.1 with mux := { pushed.1.mux with current := some pushed.2 } }, true)
    else ({ pushed.1 with mux := { pushed.1.mux with pending := some pushed.2 } }, false)

end Muxing

inductive MuxOp where
  | beginPending
  | cancelPending
  | pushCurrent (chunk : Bytes)
  | pushPending (chunk : Bytes)
  deriving DecidableEq, Repr

/-- Every sequence of calls on one muxer and one output buffer. -/
def muxMachine : Machine Muxing MuxOp where
  start := {}
  step s
    | .beginPending => some s.beginPending
    | .cancelPending => some s.cancelPending
    | .pushCurrent chunk => some (s.pushCurrent chunk)
    | .pushPending chunk => some (s.pushPending chunk).1

end IptvRelay.Slate
