import IptvRelay.Lib.Checked
import IptvRelay.Lib.Machine
import IptvRelay.Playback.Ranks

/-!
# Health probes of several workers

Model of `run_health_probe_with_core_config` in the server's `main.rs`, with the claims, the
results and the recovery of claims in the database. Each statement is a step, and any number of
probes run between each other; a probe can end without a result at any time. What a worker sees
of the provider is open, and so is whether its account is enabled.
-/

namespace IptvRelay.Playback

open Transition Checked StreamTables

inductive StreamProbeFailure where
  | capacityFull
  | startupTimeout
  | http
  | httpStatus
  | noPat
  | noPmt
  | noVideo
  | noAudio
  | insufficientPackets (seen required : Nat)
  | malformedTransport
  deriving DecidableEq, Repr

inductive StreamProbeOutcome where
  | alive (videoCodec audioCodec : Option String) (durationMs : Nat)
  | dead (failure : StreamProbeFailure)
  | skipped
  deriving DecidableEq, Repr

def redactedFailureMessage : StreamProbeFailure → String
  | .capacityFull => "provider pool at capacity"
  | .startupTimeout => "upstream startup timeout"
  | .http => "upstream HTTP request failed"
  | .httpStatus => "upstream returned an unsuccessful status"
  | .noPat => "no PAT section observed"
  | .noPmt => "no PMT section observed"
  | .noVideo => "no video elementary stream declared"
  | .noAudio => "no audio elementary stream declared"
  | .insufficientPackets seen required =>
    "insufficient packet flow: saw " ++ toString seen ++ " of " ++ toString required ++
      " required packets"
  | .malformedTransport => "transport stream data was malformed"

/-- A probe that was skipped has no result. A duration beyond `i32` is cut off. -/
def streamHealthUpdateFor (providerStreamId : Uuid) : StreamProbeOutcome → Option StreamHealthUpdate
  | .alive videoCodec audioCodec durationMs =>
    some {
      providerStreamId, status := .alive, videoCodec, audioCodec
      checkDurationMs := some (min durationMs (2 ^ 31 - 1)) }
  | .dead failure =>
    some { providerStreamId, status := .dead, error := some (redactedFailureMessage failure) }
  | .skipped => none

/-- `HEALTH_PROBE_STRANDED_TIMEOUT_SECONDS`. -/
def strandedTimeout : Time := seconds 300

/-- Where a probe is: the target is loaded, the stream is claimed, the provider slot is reserved,
and the result is stored, logged and ranked. -/
inductive ProbePlace where
  | loaded
  | claimed (since : Time)
  | probing (since : Time)
  | storing (since : Time) (update : StreamHealthUpdate)
  | logging (update : StreamHealthUpdate)
  | listing
  | ranking (channels : List Uuid)
  deriving DecidableEq, Repr

structure Probe where
  stream : Uuid
  place : ProbePlace
  deriving DecidableEq, Repr

/-- When the probe claimed its stream, while it holds the claim. -/
def Probe.heldSince (probe : Probe) : Option Time :=
  match probe.place with
  | .claimed since | .probing since | .storing since _ => some since
  | .loaded | .logging _ | .listing | .ranking _ => none

/-- The stream that the probe has claimed. -/
def Probe.held (probe : Probe) : Option Uuid := probe.heldSince.map fun _ => probe.stream

/-- The result that the probe has not logged yet. -/
def Probe.result (probe : Probe) : Option StreamHealthUpdate :=
  match probe.place with
  | .storing _ update | .logging update => some update
  | .loaded | .claimed _ | .probing _ | .listing | .ranking _ => none

structure ProbeRun where
  tables : StreamTables
  probes : List Probe := []

/-- What happens to the tables besides the probes. -/
inductive TableChange where
  | workerStart
  | recoverStranded (now : Time)
  | recordPassive (now : Time) (update : StreamHealthUpdate) (minAge : Time)
  | recordMeasurement (sample : StreamMeasurement)
  | rankAll
  | insertStream (row : ProviderStream)
  | deleteStream (id : Uuid)
  | setLinks (links : List ChannelStream)

inductive ProbeOp where
  | load (id : Uuid)
  | claim (probe : Probe) (now : Time)
  | stop (probe : Probe)
  | reserved (probe : Probe)
  | conflict (probe : Probe)
  | probed (probe : Probe) (outcome : StreamProbeOutcome)
  | store (probe : Probe) (now : Time)
  | log (probe : Probe) (now : Time)
  | list (probe : Probe)
  | rank (probe : Probe)
  | change (change : TableChange)

namespace ProbeRun

variable (s : ProbeRun)

/-- A probe goes on, or it ends. -/
def move (probe : Probe) (next : Option ProbePlace) : List Probe :=
  (next.map fun place => { probe with place }).toList ++ s.probes.erase probe

def change : TableChange → Option ProbeRun
  | .workerStart => some { s with tables := s.tables.resetStrandedCheckingStreams }
  | .recoverStranded now =>
    some { s with tables := s.tables.recoverStrandedCheckingStreams now strandedTimeout }
  | .recordPassive now update minAge =>
    some { s with tables := (s.tables.recordPassiveStreamInfo now update minAge).1 }
  | .recordMeasurement sample =>
    (s.tables.recordStreamMeasurement sample).map fun stored => { s with tables := stored.1 }
  | .rankAll => some { s with tables := s.tables.rankAllChannelStreamsByQuality }
  | .insertStream row => do
    -- A new row has a new id.
    guard (row.id ∉ s.tables.streams.map ProviderStream.id ∧ row.id ∉ s.probes.map Probe.stream)
    return { s with tables := { s.tables with streams := s.tables.streams ++ [row] } }
  | .deleteStream id =>
    some { s with tables := { s.tables with
      streams := Table.delete (fun stream => stream.id = id) s.tables.streams
      links := Table.delete (fun link => link.providerStreamId = id) s.tables.links
      checks := Table.delete (fun check => check.providerStreamId = id) s.tables.checks } }
  | .setLinks links => some { s with tables := { s.tables with links } }

def step : ProbeOp → Option ProbeRun
  | .load id => do
    let target ← s.tables.find id
    guard (target.supported = true)
    return { s with probes := { stream := id, place := .loaded } :: s.probes }
  | .claim probe now => do
    guard (probe ∈ s.probes ∧ probe.place = .loaded)
    let (tables, claimed) := s.tables.tryMarkStreamChecking now probe.stream
    return {
      tables
      probes := s.move probe (if claimed then some (.claimed now) else none) }
  | .stop probe => do
    guard (probe ∈ s.probes)
    return { s with probes := s.move probe none }
  | .reserved probe => do
    guard (probe ∈ s.probes)
    match probe.place with
    | .claimed since => return { s with probes := s.move probe (some (.probing since)) }
    | _ => none
  | .conflict probe => do
    guard (probe ∈ s.probes)
    match probe.place with
    | .claimed _ => return {
        tables := s.tables.releaseStreamCheckingClaim probe.stream
        probes := s.move probe none }
    | _ => none
  | .probed probe outcome => do
    guard (probe ∈ s.probes)
    match probe.place with
    | .probing since => return { s with
        probes := s.move probe
          ((streamHealthUpdateFor probe.stream outcome).map (.storing since)) }
    | _ => none
  | .store probe now => do
    guard (probe ∈ s.probes)
    match probe.place with
    | .storing _ update => return {
        tables := s.tables.setStreamHealth now update
        probes := s.move probe (some (.logging update)) }
    | _ => none
  | .log probe now => do
    guard (probe ∈ s.probes)
    match probe.place with
    | .logging update => do
      let tables ← s.tables.logStreamHealth now update
      return { tables, probes := s.move probe (some .listing) }
    | _ => none
  | .list probe => do
    guard (probe ∈ s.probes ∧ probe.place = .listing)
    return { s with
      probes := s.move probe (some (.ranking (s.tables.channelsForStream probe.stream))) }
  | .rank probe => do
    guard (probe ∈ s.probes)
    match probe.place with
    | .ranking (channel :: rest) => return {
        tables := s.tables.rankChannelStreamsByQuality channel
        probes := s.move probe (some (.ranking rest)) }
    | _ => none
  | .change change => s.change change

end ProbeRun

/-- From a database whose streams have different ids and whose claims are all gone. -/
def probeMachine (tables : StreamTables) : Machine ProbeRun ProbeOp where
  start := { tables }
  step := ProbeRun.step

end IptvRelay.Playback
