import IptvRelay.Lib.Sorting
import IptvRelay.Lib.Table
import Mathlib.Data.Prod.Lex
import Mathlib.Data.Rat.Defs
import Mathlib.Algebra.Order.Ring.Rat

/-!
# Stream health and quality ranks

Model of the health statements of `persistence/src/catalog.rs`: the columns of
`provider_streams` and `channel_streams` that they read or write, the claims and results of
probes, and the ranking of the streams of a channel. Uuids are 128-bit numbers, times are ticks
of the database clock in nanoseconds, and a frame rate is a rational number.
-/

namespace IptvRelay.Playback

abbrev Uuid := BitVec 128
abbrev Time := Nat

def seconds (n : Nat) : Time := n * 1000000000

inductive HealthStatus where
  | alive
  | dead
  | unknown
  | checking
  deriving DecidableEq, Repr

/-- `provider_streams`. -/
structure ProviderStream where
  id : Uuid
  providerAccountId : Uuid
  snapshotId : Uuid
  stableKey : String
  supported : Bool
  urlTemplate : String
  urlSecretCiphertext : Option (List UInt8)
  healthStatus : HealthStatus := .unknown
  healthCheckedAt : Option Time := none
  healthError : Option String := none
  videoCodec : Option String := none
  videoResolution : Option String := none
  videoWidth : Option Int := none
  videoHeight : Option Int := none
  videoFps : Option ℚ := none
  audioCodec : Option String := none
  audioChannels : Option Int := none
  audioSampleRate : Option Int := none
  bitrateKbps : Option Int := none
  deriving DecidableEq, Repr

/-- `channel_streams`. -/
structure ChannelStream where
  channelId : Uuid
  providerStreamId : Uuid
  priority : Nat
  qualityRank : Nat := 0
  deriving DecidableEq, Repr

/-- `stream_health_checks`. -/
structure StreamHealthCheck where
  providerStreamId : Uuid
  status : HealthStatus
  errorMessage : Option String
  checkDurationMs : Option Int
  checkedAt : Time
  deriving DecidableEq, Repr

structure StreamHealthUpdate where
  providerStreamId : Uuid
  status : HealthStatus
  error : Option String := none
  videoCodec : Option String := none
  videoResolution : Option String := none
  videoWidth : Option Int := none
  videoHeight : Option Int := none
  videoFps : Option ℚ := none
  audioCodec : Option String := none
  audioChannels : Option Int := none
  audioSampleRate : Option Int := none
  bitrateKbps : Option Int := none
  checkDurationMs : Option Int := none
  deriving DecidableEq, Repr

/-- `stream_measurements`: one row for each account and stable key. -/
structure StreamMeasurementRow where
  providerAccountId : Uuid
  stableKey : String
  averageBitrateKbps : Int
  peakBitrateKbps : Int
  burstMs : Int
  frameRate : Option ℚ
  samples : Nat := 1
  deriving DecidableEq, Repr

structure StreamMeasurement where
  providerStreamId : Uuid
  averageBitrateKbps : Int
  peakBitrateKbps : Int
  burstMs : Int
  frameRate : Option ℚ := none
  deriving DecidableEq, Repr

structure StreamTables where
  streams : List ProviderStream
  links : List ChannelStream
  checks : List StreamHealthCheck := []
  measurements : List StreamMeasurementRow := []

/-- The keys of the schema, and the references of the links. -/
structure StreamTables.Valid (tables : StreamTables) : Prop where
  streams : (tables.streams.map ProviderStream.id).Nodup
  links : (tables.links.map fun link => (link.channelId, link.providerStreamId)).Nodup
  priorities : (tables.links.map fun link => (link.channelId, link.priority)).Nodup
  references : ∀ link ∈ tables.links, link.providerStreamId ∈ tables.streams.map ProviderStream.id

namespace StreamTables

variable (tables : StreamTables)

/-- `UPDATE provider_streams SET … WHERE …`. -/
def updateStreams (p : ProviderStream → Bool) (f : ProviderStream → ProviderStream) :
    StreamTables :=
  { tables with streams := Table.update p f tables.streams }

def find (id : Uuid) : Option ProviderStream := tables.streams.find? fun stream => stream.id = id

/-! ## Claims -/

/-- The claim of a probe; the second part says whether a row was claimed. -/
def tryMarkStreamChecking (now : Time) (id : Uuid) : StreamTables × Bool :=
  let claimable (stream : ProviderStream) : Bool :=
    stream.id = id ∧ (stream.healthStatus = .unknown ∨ stream.healthStatus = .dead)
  (tables.updateStreams claimable fun stream =>
      { stream with healthStatus := .checking, healthCheckedAt := some now },
    tables.streams.any claimable)

def releaseStreamCheckingClaim (id : Uuid) : StreamTables :=
  tables.updateStreams (fun stream => stream.id = id ∧ stream.healthStatus = .checking)
    fun stream => { stream with healthStatus := .unknown }

def recoverStrandedCheckingStreams (now : Time) (strandedTimeout : Time) : StreamTables :=
  tables.updateStreams
    (fun stream => stream.healthStatus = .checking ∧
      stream.healthCheckedAt.any fun checkedAt => checkedAt + strandedTimeout < now)
    fun stream => { stream with healthStatus := .unknown }

def resetStrandedCheckingStreams : StreamTables :=
  tables.updateStreams (fun stream => stream.healthStatus = .checking)
    fun stream => { stream with healthStatus := .unknown }

/-! ## Results -/

/-- The `UPDATE` of `update_stream_health`. -/
def setStreamHealth (now : Time) (update : StreamHealthUpdate) : StreamTables :=
  tables.updateStreams (fun stream => stream.id = update.providerStreamId) fun stream =>
    { stream with
      healthStatus := update.status
      healthCheckedAt := some now
      healthError := update.error
      videoCodec := update.videoCodec
      videoResolution := update.videoResolution
      videoWidth := update.videoWidth
      videoHeight := update.videoHeight
      videoFps := update.videoFps
      audioCodec := update.audioCodec
      audioChannels := update.audioChannels
      audioSampleRate := update.audioSampleRate
      bitrateKbps := update.bitrateKbps }

/-- The `INSERT` of `update_stream_health`, which refers to the stream. -/
def logStreamHealth (now : Time) (update : StreamHealthUpdate) : Option StreamTables :=
  if ∃ stream ∈ tables.streams, stream.id = update.providerStreamId then
    some { tables with
      checks := tables.checks ++ [{
        providerStreamId := update.providerStreamId
        status := update.status
        errorMessage := update.error
        checkDurationMs := update.checkDurationMs
        checkedAt := now }] }
  else none

/-! ## Ranks -/

/-- `CASE ps.health_status` of the ranking statements. -/
def rankedHealth : HealthStatus → Nat
  | .alive => 0
  | .unknown => 1
  | .dead => 2
  | .checking => 3

/-- The priority of a link, with its stream. -/
abbrev Joined := Nat × ProviderStream

abbrev SizeKey := ℤᵒᵈ ×ₗ ℤᵒᵈ ×ₗ ℚᵒᵈ

/-- Larger and faster streams first; what has not been measured counts as zero. -/
def sizeKey (stream : ProviderStream) : SizeKey :=
  toLex (OrderDual.toDual (stream.videoWidth.getD 0),
    toLex (OrderDual.toDual (stream.videoHeight.getD 0), OrderDual.toDual (stream.videoFps.getD 0)))

abbrev RankKey := SizeKey ×ₗ Nat ×ₗ Nat

/-- `ORDER BY` of the ranking statements. -/
def rankKey (joined : Joined) : RankKey :=
  toLex (sizeKey joined.2, toLex (rankedHealth joined.2.healthStatus, joined.1))

/-- The streams of a channel. -/
def joinedStreams (channelId : Uuid) : List Joined :=
  (tables.links.filter fun link => link.channelId = channelId).filterMap fun link =>
    (tables.find link.providerStreamId).map fun stream => (link.priority, stream)

/-- The streams of a channel, best first. -/
def rankedStreams (channelId : Uuid) : List Joined :=
  Sorting.sortBy rankKey (tables.joinedStreams channelId)

/-- `ROW_NUMBER()` of a stream in its channel. -/
def newRank (channelId streamId : Uuid) : Option Nat :=
  ((tables.rankedStreams channelId).findIdx? fun joined => joined.2.id = streamId).map (· + 1)

def rerank (link : ChannelStream) : ChannelStream :=
  match tables.newRank link.channelId link.providerStreamId with
  | some rank => { link with qualityRank := rank }
  | none => link

def rankChannelStreamsByQuality (channelId : Uuid) : StreamTables :=
  { tables with
    links := Table.update (fun link => link.channelId = channelId) tables.rerank tables.links }

/-- All channels in one statement. -/
def rankAllChannelStreamsByQuality : StreamTables :=
  { tables with links := tables.links.map tables.rerank }

def channelsForStream (streamId : Uuid) : List Uuid :=
  (tables.links.filter fun link => link.providerStreamId = streamId).map ChannelStream.channelId

/-- An error keeps what the statements before it have done. -/
def updateStreamHealthAndRank (now : Time) (update : StreamHealthUpdate) : StreamTables :=
  let updated := tables.setStreamHealth now update
  match updated.logStreamHealth now update with
  | none => updated
  | some logged =>
    (logged.channelsForStream update.providerStreamId).foldl rankChannelStreamsByQuality logged

/-! ## Passive data -/

/-- The row of a stream in `stream_measurements`. -/
def measurementOf (stream : ProviderStream) : Option StreamMeasurementRow :=
  tables.measurements.find? fun row =>
    row.providerAccountId = stream.providerAccountId ∧ row.stableKey = stream.stableKey

/-- What a live session has seen is stored when nothing is known or the last update is old. -/
def recordPassiveStreamInfo (now : Time) (update : StreamHealthUpdate) (minAge : Time) :
    StreamTables × Bool :=
  let stale (stream : ProviderStream) : Bool :=
    stream.id = update.providerStreamId ∧ stream.healthStatus ≠ .checking ∧
      (stream.videoWidth = none ∨
        stream.healthCheckedAt.all fun checkedAt => checkedAt + minAge < now)
  if tables.streams.any stale then
    let updated := tables.updateStreams stale fun stream =>
      { stream with
        healthCheckedAt := some now
        videoCodec := update.videoCodec
        videoResolution := update.videoResolution
        videoWidth := update.videoWidth
        videoHeight := update.videoHeight
        videoFps := ((tables.measurementOf stream).bind StreamMeasurementRow.frameRate).or
          update.videoFps
        audioCodec := update.audioCodec
        audioChannels := update.audioChannels
        audioSampleRate := update.audioSampleRate }
    ((updated.channelsForStream update.providerStreamId).foldl rankChannelStreamsByQuality updated,
      true)
  else (tables, false)

/-- `(value * 0.8)::integer`, rounded to the nearest integer. -/
def faded (value : Int) : Int := (8 * value + 5) / 10

/-- `ON CONFLICT … DO UPDATE`. -/
def merged (row : StreamMeasurementRow) (sample : StreamMeasurement) : StreamMeasurementRow :=
  { row with
    averageBitrateKbps := max 1 ((row.averageBitrateKbps + sample.averageBitrateKbps) / 2)
    peakBitrateKbps := max sample.peakBitrateKbps (faded row.peakBitrateKbps)
    burstMs := max sample.burstMs (faded row.burstMs)
    frameRate := sample.frameRate.or row.frameRate
    samples := row.samples + 1 }

/-- The `CHECK` constraints of the table. -/
def allowed (sample : StreamMeasurement) : Bool :=
  0 < sample.averageBitrateKbps ∧ 0 < sample.peakBitrateKbps ∧ 0 ≤ sample.burstMs ∧
    sample.frameRate.all fun rate => 0 < rate

/-- The row that a sample of the stream leaves. -/
def storeMeasurement (stream : ProviderStream) (sample : StreamMeasurement) :
    List StreamMeasurementRow :=
  let conflicts (row : StreamMeasurementRow) : Bool :=
    row.providerAccountId = stream.providerAccountId ∧ row.stableKey = stream.stableKey
  if tables.measurements.any conflicts then
    Table.update conflicts (merged · sample) tables.measurements
  else
    tables.measurements ++ [{
      providerAccountId := stream.providerAccountId
      stableKey := stream.stableKey
      averageBitrateKbps := sample.averageBitrateKbps
      peakBitrateKbps := sample.peakBitrateKbps
      burstMs := sample.burstMs
      frameRate := sample.frameRate }]

/-- `none` is a statement that fails. -/
def recordStreamMeasurement (sample : StreamMeasurement) : Option (StreamTables × Bool) :=
  match tables.find sample.providerStreamId with
  | none => some (tables, false)
  | some source =>
    if allowed sample then
      let stored := { tables with measurements := tables.storeMeasurement source sample }
      some (match sample.frameRate with
        | none => stored
        | some rate =>
          stored.updateStreams
            (fun target => target.providerAccountId = source.providerAccountId ∧
              target.stableKey = source.stableKey)
            fun target => { target with videoFps := some rate }, true)
    else none

end StreamTables

/-- A stream of account 1 in snapshot 5. -/
def exampleStream (id : Uuid) (width : Option Int) : ProviderStream where
  id
  providerAccountId := 1
  snapshotId := 5
  stableKey := "key"
  supported := true
  urlTemplate := "http://provider/live"
  urlSecretCiphertext := none
  videoWidth := width

end IptvRelay.Playback
