import IptvRelay.Media.RingReaders

/-!
# A native HTTP-TS session

Model of the running part of `session.rs` with the diagnostics of `recovery.rs`:
the pump task and its recovery loop, the keepalive task of a recovery, any number
of viewers, and the two ways to stop a session. The tasks share the ring and the
diagnostics only. A step makes at most one access to what another task also
writes, so the runs of the machine are the interleavings of the tasks. Deadlines,
timers and upstream results are chosen by the environment.
-/

namespace IptvRelay.Recovery

open Transition Media

/-! ## Diagnostics and configuration -/

inductive SessionState where
  | idle
  | reserving
  | starting
  | priming
  | streaming
  | recovering
  | failingOver
  | stopping
  | failed
  deriving DecidableEq, Repr

/-- What the tasks read of the source specification. -/
structure SessionConfig where
  ring : MpegTsRingConfig
  endpoints : Nat
  viewerBatchPackets : Nat
  /-- `recovery.max_window()` is not zero. -/
  recovers : Bool
  endpoints_pos : 0 < endpoints
  batch_pos : 0 < viewerBatchPackets

structure ViewerPosition where
  generation : Nat
  nextSequence : Nat
  deriving DecidableEq, Repr

/-! ## The tasks -/

/-- The payload of a `RingRead::Packets`. -/
structure Batch where
  generation : Nat
  firstSequence : Nat
  bytes : Bytes
  deriving DecidableEq, Repr

/-- Where a viewer is in `ViewerHandle::new` and in the loop of `into_byte_stream`. A pacing hold
is spent at `holding`. -/
inductive ViewerPhase where
  | registering
  | reading
  | holding (batch : Batch)
  | yielding (batch : Batch)
  | lagged
  | crossing (generation : Nat)
  | ended
  deriving DecidableEq, Repr

/-- A viewer and its entry in the table of positions. Its cursor is the reader of the same index.
For the specification, `parked` is where its cursor was last placed by a subscription, a lag or a
generation boundary, and `yielded` is what it has sent. -/
structure Viewer where
  phase : ViewerPhase := .registering
  position : Option ViewerPosition := none
  parked : Nat
  yielded : List Batch := []

/-- The drain snapshot of a recovery and its number of finished attempts. -/
structure RecoveryRun where
  generation : Nat
  target : Nat
  attempt : Nat := 0
  deriving DecidableEq, Repr

/-- Where the pump is in `pump_http_ts` and `recover_session`. -/
inductive PumpPc where
  | start
  | primeInitial
  | pushInitial (packets : Bytes)
  | markStreaming
  | streaming
  | failed
  | checkViewers
  | markStopping
  | closeShutdown
  | recover
  | attempt (run : RecoveryRun)
  | markAttempt (run : RecoveryRun)
  | acquire (run : RecoveryRun)
  | request (run : RecoveryRun)
  | response (run : RecoveryRun)
  | markPriming (run : RecoveryRun)
  | prime (run : RecoveryRun)
  | drain (run : RecoveryRun) (primed : Bytes)
  | finalNull (run : RecoveryRun) (primed : Bytes)
  | stopKeepalive (run : RecoveryRun) (primed : Bytes)
  | rotate (run : RecoveryRun) (primed : Bytes)
  | pushPrimed (endpoint : Nat) (primed : Bytes)
  | markFailed
  | closeExpired
  | done
  deriving DecidableEq, Repr

/-- The keepalive task. An abort takes effect at its next `tick().await`, so a task that has passed
the drain check still pushes its packet. -/
inductive Keepalive where
  | off
  | waiting (generation target : Nat) (continuity : UInt8)
  | pushing (generation target : Nat) (continuity : UInt8) (aborted : Bool)
  deriving DecidableEq, Repr

def Keepalive.abort : Keepalive → Keepalive
  | .off | .waiting .. => .off
  | .pushing generation target continuity _ => .pushing generation target continuity true

/-- The viewers that were registered when a drain loop ended. -/
structure Drain where
  generation : Nat
  target : Nat
  viewers : List Nat
  deriving DecidableEq, Repr

/-- A session. The last four fields are for the specification only: upstream requests, calls of
`terminate` begun and returned, and drain loops that ended. -/
structure HttpTsSession where
  core : RingSystem
  state : SessionState := .starting
  upstreamGeneration : Nat := 0
  reconnectAttempts : Nat := 0
  failoverAttempts : Nat := 0
  viewers : List Viewer := []
  pump : PumpPc := .start
  currentEndpoint : Nat := 0
  keepalive : Keepalive := .off
  released : Bool := false
  /-- Calls of `terminate` or `drop` that have not closed the ring yet. -/
  closing : Nat := 0
  requests : Nat := 1
  stopRequested : Bool := false
  terminated : Bool := false
  drained : List Drain := []

/-- A keepalive packet. -/
def nullPacket (continuityCounter : UInt8) : Bytes :=
  0x47 :: 0x1f :: 0xff :: (0x10 ||| (continuityCounter &&& 0x0f)) ::
    List.replicate (mpegTsPacketSize - 4) 0xff

namespace HttpTsSession

/-! ## Accesses to the shared state -/

def setState (s : HttpTsSession) (state : SessionState) : HttpTsSession := { s with state }

def isStopping (s : HttpTsSession) : Bool := s.state = .stopping

def hasViewers (s : HttpTsSession) : Bool := s.viewers.any fun viewer => viewer.position.isSome

def viewersDrained (s : HttpTsSession) (generation targetSequence : Nat) : Bool :=
  s.viewers.all fun viewer => viewer.position.all fun position =>
    generation < position.generation ∨
      (position.generation = generation ∧ targetSequence ≤ position.nextSequence)

def recordReconnect (s : HttpTsSession) (failover : Bool) : HttpTsSession :=
  { s with
    reconnectAttempts := satAdd64 s.reconnectAttempts 1
    failoverAttempts := if failover then satAdd64 s.failoverAttempts 1
      else s.failoverAttempts }

def pushRing (s : HttpTsSession) (bytes : Bytes) (now : Instant) : HttpTsSession :=
  { s with core := { s.core with
      ring := (s.core.ring.push bytes now).1
      log := RingSystem.logPush s.core.log bytes (s.core.ring.push bytes now).2 } }

/-- The ring takes these packets. -/
def accepts (s : HttpTsSession) (bytes : Bytes) (now : Instant) : Bool :=
  match (s.core.ring.push bytes now).2 with
  | .ok _ => true
  | .error _ => false

/-- `push_packets`: nothing is pushed for an empty slice, which is no error. -/
def pushPackets (s : HttpTsSession) (packets : Bytes) (now : Instant) : HttpTsSession × Bool :=
  if packets = [] then (s, true) else (s.pushRing packets now, s.accepts packets now)

def closeRing (s : HttpTsSession) (reason : RingCloseReason) : HttpTsSession :=
  { s with core := { s.core with ring := (s.core.ring.close reason).1 } }

/-! ## The pump -/

def goto (s : HttpTsSession) (pump : PumpPc) : HttpTsSession := { s with pump }

/-- `recover_session` returns `None` and drops the keepalive task. -/
def expire (s : HttpTsSession) : HttpTsSession :=
  { s with keepalive := s.keepalive.abort, pump := .markFailed }

/-- The drain snapshot and the start of the keepalive task. -/
def beginRecovery (s : HttpTsSession) : HttpTsSession :=
  let generation := s.core.ring.state.generation
  let target := s.core.ring.state.nextSequence
  { s with keepalive := .waiting generation target 0, pump := .attempt { generation, target } }

/-- The endpoint of a recovery attempt. -/
def endpointIndex (c : SessionConfig) (s : HttpTsSession) (run : RecoveryRun) : Nat :=
  let failoverOffset := if 1 < c.endpoints then 1 else 0
  (s.currentEndpoint + failoverOffset + run.attempt) % c.endpoints

/-- The state of an attempt and its counters, which only the pump writes. -/
def markAttempt (c : SessionConfig) (s : HttpTsSession) (run : RecoveryRun) : HttpTsSession :=
  let isFailover : Bool := s.endpointIndex c run ≠ s.currentEndpoint
  ((s.setState (if isFailover then .failingOver else .recovering)).recordReconnect isFailover).goto
    (.acquire run)

def retry (s : HttpTsSession) (run : RecoveryRun) : HttpTsSession :=
  s.goto (.attempt { run with attempt := run.attempt + 1 })

def openRequest (s : HttpTsSession) : HttpTsSession := { s with requests := s.requests + 1 }

def registeredViewers (s : HttpTsSession) : List Nat :=
  (List.range s.viewers.length).filter fun i => s.viewers[i]?.any fun viewer => viewer.position.isSome

/-- The drain loop ends. -/
def finishDrain (s : HttpTsSession) (run : RecoveryRun) (primed : Bytes) : HttpTsSession :=
  { s with
    drained := s.drained ++ [⟨run.generation, run.target, s.registeredViewers⟩]
    pump := .finalNull run primed }

/-- `keepalive.stop().await`: wait until the task is between two ticks. -/
def stopKeepalive (s : HttpTsSession) (run : RecoveryRun) (primed : Bytes) :
    Option HttpTsSession :=
  match s.keepalive with
  | .pushing .. => none
  | .off | .waiting .. => some { s with keepalive := .off, pump := .rotate run primed }

/-- `start_new_generation` and `set_generation`, which only the pump calls. -/
def rotate (c : SessionConfig) (s : HttpTsSession) (run : RecoveryRun) (primed : Bytes) :
    HttpTsSession :=
  match s.core.ring.startNewGeneration.2 with
  | .error _ => s.expire
  | .ok generation =>
    { s with
      core := { s.core with ring := s.core.ring.startNewGeneration.1 }
      upstreamGeneration := generation
      pump := .pushPrimed (s.endpointIndex c run) primed }

end HttpTsSession

/-- What the environment decides: the step succeeds, the upstream delivers complete packets or
fails, or the recovery deadline has passed. -/
inductive PumpInput where
  | go
  | packets (bytes : Bytes)
  | fail
  | expire
  deriving DecidableEq, Repr

namespace HttpTsSession

/-- One step of `pump_http_ts`. `prime_body` never returns an empty slice. -/
def pumpStep (c : SessionConfig) (s : HttpTsSession) (now : Instant) (input : PumpInput) :
    Option HttpTsSession :=
  match s.pump, input with
  | .start, .go => some ((s.setState .priming).goto .primeInitial)
  | .primeInitial, .packets packets =>
    if packets = [] then none else some (s.goto (.pushInitial packets))
  | .primeInitial, .fail => some (s.goto .failed)
  | .pushInitial packets, .go =>
    let pushed := s.pushPackets packets now
    some (pushed.1.goto (if pushed.2 then .markStreaming else .failed))
  | .markStreaming, .go => some ((s.setState .streaming).goto .streaming)
  | .streaming, .packets packets =>
    let pushed := s.pushPackets packets now
    some (pushed.1.goto (if pushed.2 then .streaming else .failed))
  | .streaming, .fail => some (s.goto .failed)
  | .failed, .go => some (s.goto (if s.isStopping then .done else .checkViewers))
  | .checkViewers, .go => some (s.goto (if s.hasViewers then .recover else .markStopping))
  | .markStopping, .go => some ((s.setState .stopping).goto .closeShutdown)
  | .closeShutdown, .go => some ((s.closeRing .shutdown).goto .done)
  | .recover, .go => some (if c.recovers then s.beginRecovery else s.expire)
  | .attempt run, .go => some (if s.hasViewers then s.goto (.markAttempt run) else s.expire)
  | .attempt _, .expire => some s.expire
  | .markAttempt run, .go => some (s.markAttempt c run)
  | .acquire run, .go => some (s.goto (.request run))
  | .acquire run, .fail => some (s.retry run)
  | .request run, .go => some (s.openRequest.goto (.response run))
  | .response run, .go => some (s.goto (.markPriming run))
  | .response run, .fail => some (s.retry run)
  | .markPriming run, .go => some ((s.setState .priming).goto (.prime run))
  | .prime run, .packets primed =>
    if primed = [] then none else some (s.goto (.drain run primed))
  | .prime run, .fail => some (s.retry run)
  | .drain run primed, .go =>
    some (if s.viewersDrained run.generation run.target then s.finishDrain run primed else s)
  | .drain run primed, .expire =>
    some (if s.viewersDrained run.generation run.target then s.finishDrain run primed
      else s.expire)
  | .finalNull run primed, .go =>
    some ((s.pushRing (nullPacket 0) now).goto (.stopKeepalive run primed))
  | .stopKeepalive run primed, .go => s.stopKeepalive run primed
  | .rotate run primed, .go => some (s.rotate c run primed)
  | .pushPrimed endpoint primed, .go =>
    let pushed := s.pushPackets primed now
    some (if pushed.2 then { pushed.1 with currentEndpoint := endpoint, pump := .markStreaming }
      else pushed.1.expire)
  | .markFailed, .go => some ((s.setState .failed).goto .closeExpired)
  | .closeExpired, .go => some ((s.closeRing (.recoveryExpired s.reconnectAttempts)).goto .done)
  | _, _ => none

/-! ## The keepalive task -/

def keepaliveStep (s : HttpTsSession) (now : Instant) : Option HttpTsSession :=
  match s.keepalive with
  | .off => none
  | .waiting generation target continuity =>
    some (if s.viewersDrained generation target then
        { s with keepalive := .pushing generation target continuity false }
      else s)
  | .pushing generation target continuity aborted =>
    let pushed := s.pushRing (nullPacket continuity) now
    some { pushed with
      keepalive := if s.accepts (nullPacket continuity) now ∧ ¬ aborted then
          .waiting generation target ((continuity + 1) &&& 0x0f)
        else .off }

end HttpTsSession

/-! ## Viewers -/

namespace Viewer

/-- `registration.update`, which changes an existing entry only. -/
def update (self : Viewer) (generation nextSequence : Nat) (phase : ViewerPhase) : Viewer :=
  { self with position := self.position.map fun _ => { generation, nextSequence }, phase }

/-- The match on the event of a read; `cursor` is the cursor after it. -/
def onRead (self : Viewer) (cursor : RingCursor) : Except RingReadError (Option RingRead) → Viewer
  | .ok (some (.packets generation firstSequence bytes)) =>
    { self with phase := .holding { generation, firstSequence, bytes } }
  | .ok (some (.lagged ..)) => { self with phase := .lagged, parked := cursor.nextSequence }
  | .ok (some (.generationBoundary _ generation)) =>
    { self with phase := .crossing generation, parked := cursor.nextSequence }
  | .ok (some (.closed ..)) | .error _ => { self with phase := .ended }
  | .ok none => self

end Viewer

namespace HttpTsSession

def setViewer (s : HttpTsSession) (i : Nat) (viewer : Viewer) : HttpTsSession :=
  { s with viewers := s.viewers.set i viewer }

/-- `ViewerHandle::new` up to its registration. -/
def subscribe (s : HttpTsSession) (preRollPackets : Nat) : HttpTsSession :=
  let cursor := s.core.ring.subscribeWithPreRoll preRollPackets
  { s with
    core := { s.core with readers := s.core.readers ++ [{ cursor }] }
    viewers := s.viewers ++ [{ parked := cursor.nextSequence }] }

/-- The viewer calls `try_next`, alone or inside of `next`. -/
def readViewer (c : SessionConfig) (s : HttpTsSession) (i : Nat) (viewer : Viewer)
    (reader : Reader) : HttpTsSession :=
  let read := reader.cursor.tryNext s.core.ring c.viewerBatchPackets
  { s with
    core := { s.core with
      readers := s.core.readers.set i
        (RingSystem.receive reader s.core.ring c.viewerBatchPackets) }
    viewers := s.viewers.set i (viewer.onRead read.1 read.2) }

/-- One step of a viewer. A viewer that has ended still has to drop its registration. -/
def viewerStep (c : SessionConfig) (s : HttpTsSession) (i : Nat) (viewer : Viewer)
    (reader : Reader) : Option HttpTsSession :=
  let cursor := reader.cursor
  match viewer.phase with
  | .registering => some (s.setViewer i { viewer with
      position := some { generation := cursor.generation, nextSequence := cursor.nextSequence }
      phase := .reading })
  | .reading => some (s.readViewer c i viewer reader)
  | .holding batch =>
    some (s.setViewer i (viewer.update batch.generation cursor.nextSequence (.yielding batch)))
  | .yielding batch =>
    some (s.setViewer i { viewer with yielded := viewer.yielded ++ [batch], phase := .reading })
  | .lagged => some (s.setViewer i (viewer.update cursor.generation cursor.nextSequence .reading))
  | .crossing generation =>
    some (s.setViewer i (viewer.update generation cursor.nextSequence .reading))
  | .ended => some (s.setViewer i { viewer with position := none })

/-- The handle or the stream of the viewer is dropped. -/
def leave (s : HttpTsSession) (i : Nat) (viewer : Viewer) : Option HttpTsSession :=
  if viewer.phase = .registering then none
  else some (s.setViewer i { viewer with phase := .ended })

end HttpTsSession

/-! ## The machine -/

inductive SessionOp where
  | pump (input : PumpInput) (now : Instant)
  | keepalive (now : Instant)
  | subscribe (preRollPackets : Nat)
  | viewer (i : Nat)
  | leave (i : Nat)
  /-- The first half of `terminate`, and of `drop` for the last handle. -/
  | terminate
  | release
  /-- The second half of either. -/
  | close
  /-- `drop` has aborted the pump, which drops the keepalive task. -/
  | abort
  deriving DecidableEq, Repr

namespace HttpTsSession

def step (c : SessionConfig) (s : HttpTsSession) : SessionOp → Option HttpTsSession
  | .pump input now => s.pumpStep c now input
  | .keepalive now => s.keepaliveStep now
  | .subscribe preRollPackets => if s.released then none else some (s.subscribe preRollPackets)
  | .viewer i => s.viewers[i]?.bind fun viewer =>
    s.core.readers[i]?.bind fun reader => s.viewerStep c i viewer reader
  | .leave i => s.viewers[i]?.bind fun viewer => s.leave i viewer
  | .terminate =>
    if s.released then none
    else some { s.setState .stopping with closing := s.closing + 1, stopRequested := true }
  | .release =>
    -- A running `terminate` holds a handle, and so does every viewer.
    if s.released ∨ s.closing ≠ 0 ∨ ∃ viewer ∈ s.viewers, viewer.phase ≠ .ended then none
    else some { s.setState .stopping with closing := 1, released := true }
  | .close =>
    if s.closing = 0 then none
    else some { s.closeRing .shutdown with closing := s.closing - 1, terminated := s.stopRequested }
  | .abort =>
    if s.released ∧ s.closing = 0 then
      some { s with pump := .done, keepalive := s.keepalive.abort }
    else none

end HttpTsSession

/-- A session from the moment that its pump task is spawned. -/
def sessionMachine (c : SessionConfig) : Machine HttpTsSession SessionOp where
  start := { core := (ringMachine c.ring).start }
  step := HttpTsSession.step c

end IptvRelay.Recovery
