import IptvRelay.Broker.Broker
import IptvRelay.Media.Ring
import IptvRelay.Slate.WellFormed

/-!
# The slate driver

Model of `SlateDriver` in `slate.rs`, which shows a slate until the live stream can
be spliced in. One pass of its loop is two steps: `ensure_slate`, then one event that
the state can produce. The clock, the provider, the slate processes and what they
send are the environment's and come with the step. The muxer is wrapped so that it
also records, for the specification only, which feeder gave bytes to which segment.
-/

namespace IptvRelay.Slate

open Transition Media

/-! ## Slate selection and retry rules -/

inductive SlateKind where
  | starting
  | tunersBusy
  | retrying
  deriving DecidableEq, Repr

inductive SessionInputAdapter where
  | nativeTs
  | ffmpeg
  | vlc
  deriving DecidableEq, Repr

inductive SessionStartError where
  | unknownProvider (poolId : String)
  | provider (error : Broker.AcquireError)
  | startupTimeout
  | http (message : String)
  | process (adapter : SessionInputAdapter)
  | processInputRequiresProcessAdapter
  deriving DecidableEq, Repr

inductive StartFailure where
  | capacity
  | provider
  | configuration
  deriving DecidableEq, Repr

namespace StartFailure

def classify : SessionStartError → StartFailure
  | .provider (.atCapacity ..) => .capacity
  | .startupTimeout | .http _ | .process _ => .provider
  | .unknownProvider _ | .provider .leaseIdExhausted | .processInputRequiresProcessAdapter =>
    .configuration

def slate : StartFailure → SlateKind
  | .capacity => .tunersBusy
  | .provider | .configuration => .retrying

end StartFailure

def seconds (n : Nat) : Duration := n * 1000000000

def capacityRetryInterval : Duration := 500000000
def providerRetryInitial : Duration := seconds 1
def providerRetryMax : Duration := seconds 30
def startingCountdownFloor : Duration := seconds 3
def leadWaitLimit : Duration := seconds 10
def noMediaLimit : Duration := seconds 30
def slateRestartInterval : Duration := seconds 2

/-- The retry intervals of one viewer. -/
structure RetrySchedule where
  providerFailures : Nat := 0
  deriving DecidableEq, Repr

namespace RetrySchedule

/-- The delay before the next attempt; the failure is recorded. -/
def nextDelay (self : RetrySchedule) : StartFailure → RetrySchedule × Duration
  | .capacity => (self, capacityRetryInterval)
  | .provider | .configuration =>
    let exponent := min self.providerFailures 16
    ({ providerFailures := min (self.providerFailures + 1) (2 ^ 32 - 1) },
      min (providerRetryInitial * 2 ^ exponent) providerRetryMax)

def reset (_ : RetrySchedule) : RetrySchedule := { providerFailures := 0 }

end RetrySchedule

structure ViewerStartupStatus where
  buffered : Bool
  lead : Option Duration
  closed : Bool
  deriving DecidableEq, Repr

inductive Readiness where
  | ready
  | waiting (remaining : Duration)
  | failed
  deriving DecidableEq, Repr

/-- Decides if a viewer can start live output. -/
def viewerReadiness (target : Duration) (status : ViewerStartupStatus) (waited : Duration) :
    Readiness :=
  if status.closed then .failed
  else if !status.buffered then
    if noMediaLimit ≤ waited then .failed else .waiting (max target startingCountdownFloor)
  else if target = 0 then .ready
  else
    match status.lead with
    | some lead =>
      if target ≤ lead then .ready
      else if target + leadWaitLimit ≤ waited then .ready
      else .waiting (target - lead)
    | none => if target ≤ waited then .ready else .waiting (target - waited)

/-- Whole seconds on the slate, rounded up and at least one. -/
def countdownSeconds (remaining : Duration) : Nat :=
  max (min ((remaining / 1000000 + 999) / 1000) (2 ^ 32 - 1)) 1

/-! ## The muxer and its feeders -/

inductive Feeder where
  | slate
  | live
  deriving DecidableEq, Repr

/-- A muxer whose segments are numbered in the order of `begin_pending`. -/
structure FedMuxer where
  muxing : Muxing := {}
  pendingId : Option Nat := none
  currentId : Option Nat := none
  nextId : Nat := 0
  /-- Which feeder has pushed into which segment. -/
  feeds : List (Nat × Feeder) := []

namespace FedMuxer

def beginPending (self : FedMuxer) : FedMuxer :=
  { self with
    muxing := self.muxing.beginPending
    pendingId := some self.nextId
    nextId := self.nextId + 1 }

def cancelPending (self : FedMuxer) : FedMuxer :=
  { self with muxing := self.muxing.cancelPending, pendingId := none }

def pushCurrent (self : FedMuxer) (feeder : Feeder) (chunk : Bytes) : FedMuxer :=
  { self with
    muxing := self.muxing.pushCurrent chunk
    feeds := self.feeds ++ self.currentId.toList.map fun id => (id, feeder) }

def pushPending (self : FedMuxer) (feeder : Feeder) (chunk : Bytes) : FedMuxer × Bool :=
  let pushed := self.muxing.pushPending chunk
  let fed : FedMuxer :=
    { self with
      muxing := pushed.1
      feeds := self.feeds ++ self.pendingId.toList.map fun id => (id, feeder) }
  if pushed.2 then ({ fed with currentId := self.pendingId, pendingId := none }, true)
  else (fed, false)

end FedMuxer

/-! ## The driver -/

/-- Viewers and their byte streams are numbered by the environment that opens them. -/
inductive LiveState where
  | opening
  | waiting (viewer : Nat) (since : Instant)
  | idle (retryAt : Instant) (failure : StartFailure)
  | splicing (stream : Nat)
  | live (stream : Nat)
  deriving DecidableEq, Repr

namespace LiveState

def isSplicing : LiveState → Bool
  | .splicing _ => true
  | _ => false

def isLive : LiveState → Bool
  | .live _ => true
  | _ => false

end LiveState

structure RunningSlate where
  kind : SlateKind
  deriving DecidableEq, Repr

structure SlateDriver where
  target : Duration
  muxer : FedMuxer := {}
  retry : RetrySchedule := {}
  live : LiveState
  /-- The slate that feeds the current muxer segment. -/
  active : Option RunningSlate := none
  /-- A new slate that feeds the pending muxer segment. -/
  incoming : Option RunningSlate := none
  /-- The latest requested slate. -/
  shown : Option SlateKind := none
  lastSlateStart : Option Instant := none
  finished : Bool := false
  /-- An `unreachable!` was evaluated. -/
  unreachable : Bool := false

/-- What a slate process or the live side reports, with the readings its handler takes. -/
inductive DriverEvent where
  | active (read : Except RingReadError RingRead)
  | incoming (read : Except RingReadError RingRead)
  | opened (result : Except SessionStartError Nat) (status : ViewerStartupStatus) (now : Instant)
  | media (item : Option (Except String Bytes)) (now : Instant)
  | tick (status : ViewerStartupStatus) (now : Instant)

namespace SlateDriver

/-- The slate that the current live state needs. -/
def desiredSlate (self : SlateDriver) : Option SlateKind :=
  match self.live with
  | .live _ => none
  | .splicing _ => self.shown
  | .waiting .. => some .starting
  | .opening => some (self.shown.getD .starting)
  | .idle _ failure => some failure.slate

def countdown (self : SlateDriver) (status : ViewerStartupStatus) (now : Instant) : Nat :=
  countdownSeconds <|
    match self.live with
    | .waiting _ since =>
      match viewerReadiness self.target status (now - since) with
      | .waiting remaining => remaining
      | .ready | .failed => 0
    | _ => max self.target startingCountdownFloor

/-- A slate process failed a short time ago. -/
def restartsTooSoon (self : SlateDriver) (now : Instant) : Bool :=
  (self.lastSlateStart.any fun last => now - last < slateRestartInterval) &&
    self.active.isNone && self.incoming.isNone && self.shown.isNone

/-- Start a new slate when the needed slate changes. `startSlate` says for a kind and a countdown
whether the process starts. -/
def ensureSlate (self : SlateDriver) (now : Instant) (status : ViewerStartupStatus)
    (startSlate : SlateKind → Nat → Bool) : SlateDriver :=
  match self.desiredSlate with
  | none => self
  | some kind =>
    if self.shown = some kind then self
    else if self.restartsTooSoon now then self
    else
      let self := { self with lastSlateStart := some now, shown := some kind }
      if startSlate kind (self.countdown status now) then
        { self with incoming := some { kind }, muxer := self.muxer.beginPending }
      else { self with incoming := none, muxer := self.muxer.cancelPending }

def onActiveRead (self : SlateDriver) : Except RingReadError RingRead → SlateDriver
  | .ok (.packets _ _ bytes) => { self with muxer := self.muxer.pushCurrent .slate bytes }
  | .ok (.lagged ..) | .ok (.generationBoundary ..) => self
  | .ok (.closed ..) | .error _ =>
    { self with active := none, shown := if self.incoming.isNone then none else self.shown }

def onIncomingRead (self : SlateDriver) : Except RingReadError RingRead → SlateDriver
  | .ok (.packets _ _ bytes) =>
    let pushed := self.muxer.pushPending .slate bytes
    if pushed.2 then { self with muxer := pushed.1, active := self.incoming, incoming := none }
    else { self with muxer := pushed.1 }
  | .ok (.lagged ..) | .ok (.generationBoundary ..) => self
  | .ok (.closed ..) | .error _ =>
    { self with
      incoming := none
      muxer := self.muxer.cancelPending
      shown := self.active.map RunningSlate.kind }

/-- Live media takes the pending segment. -/
def beginSplice (self : SlateDriver) (viewer : Nat) : SlateDriver :=
  { self with
    incoming := none
    shown := self.active.map RunningSlate.kind
    muxer := self.muxer.beginPending
    live := .splicing viewer }

/-- A failed live stream that fed the pending segment cannot finish it. -/
def fail (self : SlateDriver) (failure : StartFailure) (now : Instant) : SlateDriver :=
  let delayed := self.retry.nextDelay failure
  { self with
    muxer := if self.live.isSplicing then self.muxer.cancelPending else self.muxer
    retry := delayed.1
    live := .idle (now + delayed.2) failure }

def onOpened (self : SlateDriver) (result : Except SessionStartError Nat)
    (status : ViewerStartupStatus) (now : Instant) : SlateDriver :=
  match result with
  | .error error => self.fail (.classify error) now
  | .ok viewer =>
    match viewerReadiness self.target status 0 with
    | .ready => self.beginSplice viewer
    | .waiting _ => { self with live := .waiting viewer now }
    | .failed => self.fail .provider now

/-- The pending segment of the live stream has started. -/
def spliced (self : SlateDriver) (now : Instant) : SlateDriver :=
  let taken := self.live
  let self := { self with live := .idle now .provider }
  match taken with
  | .splicing stream =>
    { self with
      live := .live stream
      active := none
      incoming := none
      shown := none
      retry := self.retry.reset }
  | _ => { self with unreachable := true }

def onMedia (self : SlateDriver) (item : Option (Except String Bytes)) (now : Instant) :
    SlateDriver :=
  match item with
  | some (.ok bytes) =>
    match self.live with
    | .splicing _ =>
      let pushed := self.muxer.pushPending .live bytes
      let self := { self with muxer := pushed.1 }
      if pushed.2 then self.spliced now else self
    | _ => { self with muxer := self.muxer.pushCurrent .live bytes }
  | some (.error _) => self.fail .provider now
  | none => if self.live.isLive then { self with finished := true } else self.fail .provider now

/-- The viewer of a `Waiting` state that became ready is spliced in. -/
def spliceWaiting (self : SlateDriver) (now : Instant) : SlateDriver :=
  let taken := self.live
  let self := { self with live := .idle now .provider }
  match taken with
  | .waiting viewer _ => self.beginSplice viewer
  | _ => { self with unreachable := true }

def onTick (self : SlateDriver) (status : ViewerStartupStatus) (now : Instant) : SlateDriver :=
  match self.live with
  | .waiting _ since =>
    match viewerReadiness self.target status (now - since) with
    | .ready => self.spliceWaiting now
    | .failed => self.fail .provider now
    | .waiting _ => self
  | .idle retryAt _ => if retryAt ≤ now then { self with live := .opening } else self
  | _ => self

/-- The events that the `select!` of the loop can yield: a read needs its slate, an open result
needs an open call in progress, and media need a stream. -/
def offers (self : SlateDriver) : DriverEvent → Bool
  | .active _ => self.active.isSome
  | .incoming _ => self.incoming.isSome
  | .opened .. => self.live = .opening
  | .media .. => self.live.isSplicing || self.live.isLive
  | .tick .. => true

def handle (self : SlateDriver) : DriverEvent → SlateDriver
  | .active read => self.onActiveRead read
  | .incoming read => self.onIncomingRead read
  | .opened result status now => self.onOpened result status now
  | .media item now => self.onMedia item now
  | .tick status now => self.onTick status now

end SlateDriver

/-- The driver inside its loop; `ensured` says that `ensure_slate` of this pass has run. -/
structure DriverLoop where
  driver : SlateDriver
  ensured : Bool := false

inductive DriverStep where
  | ensure (now : Instant) (status : ViewerStartupStatus) (startSlate : SlateKind → Nat → Bool)
  | event (event : DriverEvent)

/-- What `open_with_slates` hands to the driver. -/
inductive StartLive where
  | opening
  | waiting (viewer : Nat) (since : Instant)
  | idle (retryAt : Instant) (failure : StartFailure)
  deriving DecidableEq, Repr

def StartLive.live : StartLive → LiveState
  | .opening => .opening
  | .waiting viewer since => .waiting viewer since
  | .idle retryAt failure => .idle retryAt failure

/-- The loop of `into_stream` until the driver has finished. -/
def driverMachine (target : Duration) (retry : RetrySchedule) (start : StartLive) :
    Machine DriverLoop DriverStep where
  start := { driver := { target, retry, live := start.live } }
  step s
    | .ensure now status startSlate =>
      if s.ensured || s.driver.finished then none
      else some { driver := s.driver.ensureSlate now status startSlate, ensured := true }
    | .event event =>
      if s.ensured && s.driver.offers event then
        some { driver := s.driver.handle event, ensured := false }
      else none

end IptvRelay.Slate
