import IptvRelay.Lib.Table

/-!
# The database of the ingest store

The tables that staging, reconciliation and the job queue share, with the columns that
their statements read or write. Uuids are numbers, `timestamptz` values are ticks, and a
SHA-256 is a number. The log of activations is read by the specification only.
-/

namespace IptvRelay.Store

abbrev Uuid := Nat
abbrev Time := Nat
abbrev Checksum := Nat
abbrev WorkerId := String

/-! ## Snapshots -/

/-- `provider_account_id` or `epg_source_id`; the owner check makes it exactly one. -/
inductive SnapshotOwner where
  | providerAccount (id : Uuid)
  | epgSource (id : Uuid)
  deriving DecidableEq, Repr

def SnapshotOwner.id : SnapshotOwner → Uuid
  | .providerAccount id | .epgSource id => id

def SnapshotOwner.isProvider : SnapshotOwner → Bool
  | .providerAccount _ => true
  | .epgSource _ => false

inductive SnapshotKind where
  | m3u
  | xtream
  | xtreamEpg
  | xmltv
  deriving DecidableEq, Repr

inductive SnapshotStatus where
  | staging
  | active
  | rejected
  | superseded
  deriving DecidableEq, Repr

/-- `source_snapshots`. -/
structure SnapshotRow where
  id : Uuid
  owner : SnapshotOwner
  kind : SnapshotKind
  status : SnapshotStatus := .staging
  checksum : Checksum
  byteCount : Nat
  recordCount : Nat
  diagnosticCount : Nat
  fetchedAt : Time
  stagedAt : Option Time := none
  activatedAt : Option Time := none
  deriving DecidableEq, Repr

/-- `provider_streams`. -/
structure StreamRow where
  id : Uuid
  snapshot : Uuid
  stableKey : String
  name : String
  groupName : Option String := none
  tvgId : Option String := none
  logoUrl : Option String := none
  channelNumber : Option String := none
  supported : Bool := true
  deriving DecidableEq, Repr

/-- `epg_channels`. -/
structure EpgChannelRow where
  id : Uuid
  snapshot : Uuid
  xmltvId : String
  deriving DecidableEq, Repr

/-- `programmes`. -/
structure ProgrammeRow where
  id : Uuid
  snapshot : Uuid
  epgChannel : Uuid
  deriving DecidableEq, Repr

/-! ## Reconciliation -/

inductive RunStatus where
  | queued
  | processing
  | failed
  | published
  | cancelled
  deriving DecidableEq, Repr

/-- `provider_reconciliation_runs`. -/
structure RunRow where
  id : Uuid
  account : Uuid
  snapshot : Uuid
  parent : Option Uuid
  status : RunStatus := .processing
  partitionCount : Nat
  totalKeys : Nat
  completedKeys : Nat := 0
  createdAt : Time
  updatedAt : Time
  deriving DecidableEq, Repr

inductive PartitionStatus where
  | queued
  | processing
  | succeeded
  | failed
  | cancelled
  deriving DecidableEq, Repr

/-- `provider_reconciliation_partitions`. -/
structure PartitionRow where
  run : Uuid
  number : Nat
  status : PartitionStatus := .queued
  keyCount : Nat
  completedKeys : Nat := 0
  attempts : Nat := 0
  worker : Option WorkerId := none
  deriving DecidableEq, Repr

/-- `provider_reconciliation_candidates`. -/
structure CandidateRow where
  run : Uuid
  canonicalKey : String
  name : String
  groupName : Option String
  logoUrl : Option String
  preferredNumber : Option String
  deriving DecidableEq, Repr

/-- `provider_reconciliation_candidate_streams`. -/
structure CandidateStreamRow where
  run : Uuid
  canonicalKey : String
  stream : Uuid
  deriving DecidableEq, Repr

/-! ## Jobs -/

inductive JobKind where
  | refreshSource
  | reconcileProviderPartition
  | finalizeProviderReconciliation
  /-- The kinds that no statement here names. -/
  | other (name : String)
  deriving DecidableEq, Repr

inductive JobStatus where
  | queued
  | running
  | succeeded
  | failed
  | cancelled
  deriving DecidableEq, Repr

/-- `status IN ('queued', 'running')`. -/
def JobStatus.isOpen : JobStatus → Bool
  | .queued | .running => true
  | .succeeded | .failed | .cancelled => false

/-- The keys of `payload` that the statements read. -/
structure JobPayload where
  sourceId : Option Uuid := none
  snapshotId : Option Uuid := none
  sourceSnapshotId : Option Uuid := none
  runId : Option Uuid := none
  partitionNumber : Option Nat := none
  parentJobId : Option Uuid := none
  deriving DecidableEq, Repr

/-- `jobs`, with the keys `activationLocked` and `runId` of `progress`. -/
structure JobRow where
  id : Uuid
  kind : JobKind
  status : JobStatus := .queued
  priority : Int := 0
  payload : JobPayload := {}
  activationLocked : Bool := false
  progressRun : Option Uuid := none
  attempts : Int := 0
  maxAttempts : Int := 3
  availableAt : Time := 0
  lockedBy : Option WorkerId := none
  lockedAt : Option Time := none
  heartbeatAt : Option Time := none
  createdAt : Time
  deriving DecidableEq, Repr

/-- The columns that every statement that ends an attempt writes. -/
def JobRow.finish (job : JobRow) (status : JobStatus) : JobRow :=
  { job with status, lockedBy := none, lockedAt := none, heartbeatAt := none }

/-- `id = $1 AND status = 'running' AND locked_by = $2`. -/
def JobRow.ownedBy (job : JobRow) (jobId : Uuid) (workerId : WorkerId) : Bool :=
  job.id = jobId ∧ job.status = .running ∧ job.lockedBy = some workerId

inductive ErrorCategory where
  | timeout
  | cancelled
  | transient
  | permanent
  deriving DecidableEq, Repr

/-- `dead_letter_jobs`. -/
structure DeadLetterRow where
  originalJobId : Uuid
  kind : JobKind
  payload : JobPayload
  errorCategory : ErrorCategory
  attemptCount : Int
  maxAttempts : Int
  firstFailedAt : Time
  lastFailedAt : Time
  deriving DecidableEq, Repr

inductive IntentKind where
  | prepareProviderReconciliation
  | reconcileProviderPartition
  | finalizeProviderReconciliation
  deriving DecidableEq, Repr

/-- The texts `stage:…`, `partition:…` and `finalizer:…`. -/
inductive DedupKey where
  | stage (parent snapshot : Uuid)
  | partition (parent run : Uuid) (number : Nat)
  | finalizer (run : Uuid)
  deriving DecidableEq, Repr

/-- `job_outbox`. The payload of a preparation has `snapshotId` and `partitionCount`, the other
payloads are those of the jobs. -/
structure IntentRow where
  id : Uuid
  parent : Uuid
  kind : IntentKind
  payload : JobPayload
  partitionCount : Option Int := none
  priority : Int := 0
  dedupKey : DedupKey
  createdAt : Time
  dispatchedAt : Option Time := none
  deriving DecidableEq, Repr

/-! ## All tables -/

/-- A snapshot became active: what its status was, how many rows it had and how many its header
promised. -/
structure Activation where
  snapshot : Uuid
  before : SnapshotStatus
  rows : Nat
  recordCount : Nat
  deriving DecidableEq, Repr

structure Database where
  snapshots : List SnapshotRow := []
  streams : List StreamRow := []
  epgChannels : List EpgChannelRow := []
  programmes : List ProgrammeRow := []
  runs : List RunRow := []
  partitions : List PartitionRow := []
  candidates : List CandidateRow := []
  candidateStreams : List CandidateStreamRow := []
  jobs : List JobRow := []
  outbox : List IntentRow := []
  deadLetters : List DeadLetterRow := []
  activations : List Activation := []
  deriving DecidableEq, Repr

namespace Database

def snapshot (db : Database) (id : Uuid) : Option SnapshotRow :=
  db.snapshots.find? fun row => row.id = id

def job (db : Database) (id : Uuid) : Option JobRow := db.jobs.find? fun row => row.id = id

def run (db : Database) (id : Uuid) : Option RunRow := db.runs.find? fun row => row.id = id

/-- `UPDATE source_snapshots SET … WHERE …`. -/
def updateSnapshots (db : Database) (p : SnapshotRow → Bool) (f : SnapshotRow → SnapshotRow) :
    Database :=
  { db with snapshots := Table.update p f db.snapshots }

def updateJobs (db : Database) (p : JobRow → Bool) (f : JobRow → JobRow) : Database :=
  { db with jobs := Table.update p f db.jobs }

def updateRuns (db : Database) (p : RunRow → Bool) (f : RunRow → RunRow) : Database :=
  { db with runs := Table.update p f db.runs }

/-- `staged_row_count`. -/
def stagedRowCount (db : Database) (id : Uuid) : Nat :=
  Table.count (fun row => row.snapshot = id) db.streams +
    Table.count (fun row => row.snapshot = id) db.epgChannels +
    Table.count (fun row => row.snapshot = id) db.programmes

/-- `UPDATE source_snapshots SET status = 'active', activated_at = now() WHERE …`. A row that was
not active yet leaves a record. -/
def setActive (db : Database) (p : SnapshotRow → Bool) (now : Time) : Database :=
  { db.updateSnapshots p fun row => { row with status := .active, activatedAt := some now } with
    activations := db.activations ++
      (db.snapshots.filter fun row => p row && decide (row.status ≠ .active)).map fun row =>
        ⟨row.id, row.status, db.stagedRowCount row.id, row.recordCount⟩ }

/-- `ON DELETE CASCADE` of `source_snapshots`. -/
def deleteSnapshots (db : Database) (p : SnapshotRow → Bool) : Database :=
  let gone := (db.snapshots.filter p).map SnapshotRow.id
  let runs := (db.runs.filter fun row => gone.contains row.snapshot).map RunRow.id
  let channels :=
    (db.epgChannels.filter fun row => gone.contains row.snapshot).map EpgChannelRow.id
  { db with
    snapshots := Table.delete p db.snapshots
    streams := Table.delete (fun row => gone.contains row.snapshot) db.streams
    epgChannels := Table.delete (fun row => gone.contains row.snapshot) db.epgChannels
    programmes := Table.delete
      (fun row => gone.contains row.snapshot || channels.contains row.epgChannel) db.programmes
    runs := Table.delete (fun row => runs.contains row.id) db.runs
    partitions := Table.delete (fun row => runs.contains row.run) db.partitions
    candidates := Table.delete (fun row => runs.contains row.run) db.candidates
    candidateStreams := Table.delete (fun row => runs.contains row.run) db.candidateStreams }

/-- `INSERT INTO job_outbox … ON CONFLICT (dedup_key) DO NOTHING`. -/
def insertIntent (db : Database) (intent : IntentRow) : Database :=
  if db.outbox.any fun row => row.dedupKey = intent.dedupKey then db
  else { db with outbox := db.outbox ++ [intent] }

theorem insertIntent_tables (db : Database) (intent : IntentRow) :
    db.insertIntent intent = { db with outbox := (db.insertIntent intent).outbox } := by
  unfold insertIntent
  split <;> rfl

end Database

end IptvRelay.Store
