import IptvRelay.Lib.Checked
import IptvRelay.Store.Database

/-!
# Staging and activation of snapshots

Model of `PgSnapshotStore` in `ingest/src/store.rs` and of
`IngestCleanupRepository::cleanup_batch`. Every call is one transaction, which an error
rolls back. `LIMIT` without a total order may pick any rows, so what it picks is part of
the label of a cleanup.
-/

namespace IptvRelay.Store

open Checked

inductive IngestError where
  | emptySnapshot (format : SnapshotKind)
  | invalidRequest (message : String)
  /-- A constraint of the database. -/
  | storage
  | cancelled
  | deadline
  | ownershipLost
  deriving DecidableEq, Repr

/-- An error rolls the transaction back. -/
def transact {ε α : Type} (db : Database) (body : Except ε (Database × α)) :
    Database × Except ε α :=
  match body with
  | .ok (after, result) => (after, .ok result)
  | .error error => (db, .error error)

/-- A prepared snapshot. The rows get its id when they are inserted. -/
structure PreparedSnapshot where
  id : Uuid
  owner : SnapshotOwner
  kind : SnapshotKind
  checksum : Checksum
  byteCount : Nat
  recordCount : Nat
  diagnosticCount : Nat := 0
  providerStreams : List StreamRow := []
  epgChannels : List EpgChannelRow := []
  programmes : List ProgrammeRow := []
  deriving DecidableEq, Repr

/-- A report of a written batch; an error stops the transaction. -/
abbrev ActivationProgress := Nat → Nat → Except IngestError Unit

def noopActivationProgress : ActivationProgress := fun _ _ => .ok ()

structure PgSnapshotStore where
  reconciliationParent : Option (Uuid × Int) := none

def providerStreamBatch : Nat := 500
def epgChannelBatch : Nat := 1000
def programmeBatch : Nat := 1000

/-! ## Checks -/

def PreparedSnapshot.isNonempty (snapshot : PreparedSnapshot) : Bool :=
  !snapshot.providerStreams.isEmpty || !snapshot.epgChannels.isEmpty ||
    !snapshot.programmes.isEmpty

def validateOwner (snapshot : PreparedSnapshot) : Except IngestError Unit :=
  match snapshot.owner, snapshot.kind with
  | .providerAccount _, .m3u | .providerAccount _, .xtream | .providerAccount _, .xtreamEpg
  | .epgSource _, .xmltv => .ok ()
  | _, _ => .error (.invalidRequest "snapshot owner does not match source format")

def i64Max : Nat := 9223372036854775807

def toI64 (value : Nat) : Except IngestError Unit :=
  ensure (value ≤ i64Max) (.invalidRequest "snapshot count exceeds bigint")

def validateSnapshot (snapshot : PreparedSnapshot) : Except IngestError Unit := do
  ensure snapshot.isNonempty (IngestError.emptySnapshot snapshot.kind)
  validateOwner snapshot
  toI64 snapshot.byteCount
  toI64 snapshot.recordCount
  toI64 snapshot.diagnosticCount

/-! ## Inserts -/

/-- `PRIMARY KEY` and `UNIQUE`. -/
def insertUnique {α κ : Type} [DecidableEq κ] (key : α → κ) (table rows : List α) :
    Except IngestError Unit :=
  ensure ((table ++ rows).map key).Nodup .storage

def checkpointStaging (progress : ActivationProgress) (staged batchLength total : Nat) :
    Except IngestError Nat := do
  ensure (staged + batchLength ≤ total)
    (IngestError.invalidRequest "snapshot staging count exceeds record count")
  progress (staged + batchLength) total
  return staged + batchLength

/-- The checkpoints after the batches of `rows` rows. Every batch has a row, so the number of rows
is enough fuel. -/
def checkpointBatches (progress : ActivationProgress) (batch total : Nat) :
    Nat → Nat → Nat → Except IngestError Nat
  | 0, _, staged => .ok staged
  | fuel + 1, rows, staged =>
    if rows = 0 then .ok staged
    else do
      let staged ← checkpointStaging progress staged (min batch rows) total
      checkpointBatches progress batch total fuel (rows - batch) staged

def insertSnapshotHeader (db : Database) (now : Time) (snapshot : PreparedSnapshot) :
    Except IngestError Database := do
  let row : SnapshotRow :=
    { id := snapshot.id
      owner := snapshot.owner
      kind := snapshot.kind
      checksum := snapshot.checksum
      byteCount := snapshot.byteCount
      recordCount := snapshot.recordCount
      diagnosticCount := snapshot.diagnosticCount
      fetchedAt := now }
  insertUnique SnapshotRow.id db.snapshots [row]
  insertUnique (fun row => (row.owner, row.kind, row.checksum)) db.snapshots [row]
  return { db with snapshots := db.snapshots ++ [row] }

def insertProviderStreams (db : Database) (snapshot : PreparedSnapshot)
    (progress : ActivationProgress) (staged : Nat) : Except IngestError (Database × Nat) :=
  if snapshot.providerStreams.isEmpty then .ok (db, staged)
  else do
    ensure snapshot.owner.isProvider
      (IngestError.invalidRequest "provider streams require a provider owner")
    let rows := snapshot.providerStreams.map fun row => { row with snapshot := snapshot.id }
    insertUnique StreamRow.id db.streams rows
    insertUnique (fun row => (row.snapshot, row.stableKey)) db.streams rows
    let staged ← checkpointBatches progress providerStreamBatch snapshot.recordCount rows.length
      rows.length staged
    return ({ db with streams := db.streams ++ rows }, staged)

def insertEpgChannels (db : Database) (snapshot : PreparedSnapshot)
    (progress : ActivationProgress) (staged : Nat) : Except IngestError (Database × Nat) :=
  if snapshot.epgChannels.isEmpty then .ok (db, staged)
  else do
    -- The type of the owner excludes the error for none or two owners.
    ensure (snapshot.kind = .xmltv ∨ snapshot.kind = .xtreamEpg)
      (IngestError.invalidRequest "EPG channels are not valid for this snapshot kind")
    let rows := snapshot.epgChannels.map fun row => { row with snapshot := snapshot.id }
    insertUnique EpgChannelRow.id db.epgChannels rows
    insertUnique (fun row => (row.snapshot, row.xmltvId)) db.epgChannels rows
    let staged ← checkpointBatches progress epgChannelBatch snapshot.recordCount rows.length
      rows.length staged
    return ({ db with epgChannels := db.epgChannels ++ rows }, staged)

def insertProgrammes (db : Database) (snapshot : PreparedSnapshot)
    (progress : ActivationProgress) (staged : Nat) : Except IngestError (Database × Nat) := do
  let rows := snapshot.programmes.map fun row => { row with snapshot := snapshot.id }
  insertUnique ProgrammeRow.id db.programmes rows
  -- The foreign key to `epg_channels`.
  ensure (∀ row ∈ rows, ∃ channel ∈ db.epgChannels, channel.id = row.epgChannel) IngestError.storage
  let staged ← checkpointBatches progress programmeBatch snapshot.recordCount rows.length
    rows.length staged
  return ({ db with programmes := db.programmes ++ rows }, staged)

/-- The header and all rows of a new snapshot. -/
def insertSnapshot (db : Database) (now : Time) (snapshot : PreparedSnapshot)
    (progress : ActivationProgress) : Except IngestError Database := do
  let db ← insertSnapshotHeader db now snapshot
  let (db, staged) ← insertProviderStreams db snapshot progress 0
  let (db, staged) ← insertEpgChannels db snapshot progress staged
  let (db, staged) ← insertProgrammes db snapshot progress staged
  ensure (staged = snapshot.recordCount)
    (IngestError.invalidRequest "snapshot staging count does not match record count")
  return db

/-! ## Staging -/

/-- The snapshot of the same owner and kind with the same checksum. -/
def Database.matching (db : Database) (snapshot : PreparedSnapshot) : Option SnapshotRow :=
  db.snapshots.find? fun row =>
    row.owner = snapshot.owner ∧ row.kind = snapshot.kind ∧ row.checksum = snapshot.checksum

/-- The intent for the coordinator, in the transaction that stages. -/
def PgSnapshotStore.stageDispatch (store : PgSnapshotStore) (db : Database) (now : Time)
    (intentId snapshotId : Uuid) : Database :=
  match store.reconciliationParent with
  | none => db
  | some (parent, partitions) =>
    db.insertIntent
      { id := intentId
        parent
        kind := .prepareProviderReconciliation
        payload := { snapshotId := some snapshotId }
        partitionCount := some partitions
        dedupKey := .stage parent snapshotId
        createdAt := now }

theorem PgSnapshotStore.stageDispatch_tables (store : PgSnapshotStore) (db : Database) (now : Time)
    (intentId snapshotId : Uuid) :
    store.stageDispatch db now intentId snapshotId =
      { db with outbox := (store.stageDispatch db now intentId snapshotId).outbox } := by
  unfold PgSnapshotStore.stageDispatch
  split
  · rfl
  · exact db.insertIntent_tables _

/-- The result says whether the snapshot existed before. -/
def PgSnapshotStore.stageTransaction (store : PgSnapshotStore) (db : Database) (now : Time)
    (intentId : Uuid) (snapshot : PreparedSnapshot) (progress : ActivationProgress) :
    Except IngestError (Database × Uuid × Bool) := do
  validateSnapshot snapshot
  match db.matching snapshot with
  | some existing =>
    match existing.status with
    | .active => return (db, existing.id, true)
    | .staging =>
      ensure (db.stagedRowCount existing.id = snapshot.recordCount) (IngestError.invalidRequest
        "matching staged snapshot is incomplete; discard it before retrying")
      return (store.stageDispatch db now intentId existing.id, existing.id, true)
    | .superseded =>
      ensure (db.stagedRowCount existing.id = snapshot.recordCount)
        (IngestError.invalidRequest "matching superseded snapshot is incomplete")
      -- `fetched_at` keeps the time of the first fetch.
      let db := db.updateSnapshots (fun row => row.id = existing.id) fun row =>
        { row with status := .staging, stagedAt := some now, activatedAt := none }
      return (store.stageDispatch db now intentId existing.id, existing.id, true)
    | .rejected =>
      throw (.invalidRequest "matching snapshot already exists in a terminal state")
  | none =>
    let db ← insertSnapshot db now snapshot progress
    let db := db.updateSnapshots (fun row => row.id = snapshot.id) fun row =>
      { row with stagedAt := some now }
    return (store.stageDispatch db now intentId snapshot.id, snapshot.id, false)

/-- A snapshot that existed is reported after the commit. -/
def PgSnapshotStore.stageWithProgress (store : PgSnapshotStore) (db : Database) (now : Time)
    (intentId : Uuid) (snapshot : PreparedSnapshot) (progress : ActivationProgress) :
    Database × Except IngestError Uuid :=
  match transact db (store.stageTransaction db now intentId snapshot progress) with
  | (db, .ok (id, existed)) =>
    (db, if existed then (progress snapshot.recordCount snapshot.recordCount).map fun _ => id
      else .ok id)
  | (db, .error error) => (db, .error error)

def discardStaged (db : Database) (snapshotId : Uuid) : Database :=
  db.deleteSnapshots fun row => row.id = snapshotId ∧ row.status = .staging

/-- `UPDATE source_snapshots SET status = 'rejected' WHERE id = $1 AND status = 'staging'`. -/
def rejectStaged (db : Database) (snapshotId : Uuid) : Database :=
  db.updateSnapshots (fun row => row.id = snapshotId ∧ row.status = .staging) fun row =>
    { row with status := .rejected }

/-! ## Activation -/

def supersedeCurrent (db : Database) (owner : SnapshotOwner) (kind : SnapshotKind)
    (replacement : Uuid) : Database :=
  db.updateSnapshots
    (fun row => row.owner = owner ∧ row.kind = kind ∧ row.status = .active ∧ row.id ≠ replacement)
    fun row => { row with status := .superseded }

/-- `UPDATE … WHERE id = $1 AND status = 'staging'`, which must change one row. -/
def activateStaging (db : Database) (snapshotId : Uuid) (now : Time) :
    Except IngestError Database := do
  let target := fun row : SnapshotRow =>
    decide (row.id = snapshotId ∧ row.status = .staging)
  ensure (Table.count target db.snapshots = 1)
    (IngestError.invalidRequest "staged snapshot was not activatable")
  return db.setActive target now

def activateStaged (db : Database) (snapshotId : Uuid) (now : Time) :
    Except IngestError (Database × Uuid) := do
  match db.snapshot snapshotId with
  | none => throw (.invalidRequest "staged snapshot was not found")
  | some row =>
    if row.status = .active then return (db, snapshotId)
    else
      ensure (row.status = .staging ∧ row.stagedAt.isSome)
        (IngestError.invalidRequest "snapshot is not ready for activation")
      ensure (db.stagedRowCount snapshotId = row.recordCount)
        (IngestError.invalidRequest "staged snapshot record count does not match its header")
      let db ← activateStaging (supersedeCurrent db row.owner row.kind snapshotId) snapshotId now
      return (db, snapshotId)

def activateWithProgress (db : Database) (now : Time) (snapshot : PreparedSnapshot)
    (progress : ActivationProgress) : Except IngestError (Database × Uuid) := do
  validateSnapshot snapshot
  match db.matching snapshot with
  | some existing =>
    -- The status and the rows of the existing snapshot are not read.
    let db := (supersedeCurrent db snapshot.owner snapshot.kind existing.id).setActive
      (fun row => row.id = existing.id) now
    progress snapshot.recordCount snapshot.recordCount
    return (db, existing.id)
  | none =>
    let db ← insertSnapshot db now snapshot progress
    let db ← activateStaging (supersedeCurrent db snapshot.owner snapshot.kind snapshot.id)
      snapshot.id now
    return (db, snapshot.id)

/-! ## Cleanup -/

/-- What `LIMIT` can pick of the rows that qualify. -/
def LimitPick {α : Type} (limit : Nat) (eligible picked : List α) : Prop :=
  picked.Sublist eligible ∧ picked.length = min limit eligible.length

instance {α : Type} [DecidableEq α] (limit : Nat) (eligible picked : List α) :
    Decidable (LimitPick limit eligible picked) := inferInstanceAs (Decidable (_ ∧ _))

/-- With `ORDER BY` the rows left out are not earlier than the rows picked. -/
def OrderedPick {α : Type} [DecidableEq α] (at_ : α → Time) (limit : Nat)
    (eligible picked : List α) : Prop :=
  LimitPick limit eligible picked ∧
    ∀ row ∈ picked, ∀ left ∈ eligible, left ∉ picked → at_ row ≤ at_ left

instance {α : Type} [DecidableEq α] (at_ : α → Time) (limit : Nat) (eligible picked : List α) :
    Decidable (OrderedPick at_ limit eligible picked) := inferInstanceAs (Decidable (_ ∧ _))

/-- The rows that each statement of a cleanup picks. -/
structure CleanupPick where
  intents : List IntentRow := []
  runs : List RunRow := []
  candidateStreams : List CandidateStreamRow := []
  candidates : List CandidateRow := []
  snapshots : List SnapshotRow := []
  programmes : List ProgrammeRow := []
  epgChannels : List EpgChannelRow := []
  streams : List StreamRow := []
  deriving DecidableEq, Repr

namespace Database

/-- `status IN ('queued', 'running') OR locked_by IS NOT NULL`. -/
def busyJobs (db : Database) : List JobRow :=
  db.jobs.filter fun job => job.status.isOpen || job.lockedBy.isSome

def pendingIntents (db : Database) : List IntentRow :=
  db.outbox.filter fun intent => intent.dispatchedAt.isNone

/-- Intents whose parent has ended. -/
def endedIntents (db : Database) : List IntentRow :=
  db.outbox.filter fun intent => db.jobs.any fun job =>
    decide (job.id = intent.parent) && !job.status.isOpen && job.lockedBy.isNone

def obsoleteRuns (db : Database) (now retention : Time) : List RunRow :=
  db.runs.filter fun run =>
    decide (run.updatedAt + retention < now) &&
      (!db.busyJobs.any fun job => run.parent = some job.id ∨ job.payload.runId = some run.id) &&
      !db.pendingIntents.any fun intent =>
        intent.payload.runId = some run.id ∨ intent.payload.snapshotId = some run.snapshot

/-- `linked` are the snapshots whose streams or guide channels a public channel uses. -/
def obsoleteSnapshots (db : Database) (now retention : Time) (linked : List Uuid) :
    List SnapshotRow :=
  db.snapshots.filter fun row =>
    decide (row.status ≠ .active) && decide (row.fetchedAt + retention < now) &&
      (!db.busyJobs.any fun job => job.payload.sourceId = some row.owner.id ∨
        job.payload.snapshotId = some row.id ∨ job.payload.sourceSnapshotId = some row.id) &&
      (!db.pendingIntents.any fun intent => intent.payload.snapshotId = some row.id) &&
      (!db.runs.any fun run => run.snapshot = row.id) && !linked.contains row.id

/-- Intents, and runs with their candidates. -/
def cleanupRuns (db : Database) (now retention : Time) (batch : Nat) (pick : CleanupPick) :
    Option Database := do
  guard (OrderedPick IntentRow.createdAt batch db.endedIntents pick.intents)
  let db := { db with outbox := Table.delete (fun row => pick.intents.contains row) db.outbox }
  guard (OrderedPick RunRow.updatedAt batch (db.obsoleteRuns now retention) pick.runs)
  let ids := pick.runs.map RunRow.id
  guard (LimitPick batch (db.candidateStreams.filter fun row => ids.contains row.run)
    pick.candidateStreams)
  let db := { db with
    candidateStreams :=
      Table.delete (fun row => pick.candidateStreams.contains row) db.candidateStreams }
  guard (LimitPick batch (db.candidates.filter fun row => ids.contains row.run &&
    !db.candidateStreams.any fun link =>
      link.run = row.run ∧ link.canonicalKey = row.canonicalKey) pick.candidates)
  let db := { db with
    candidates := Table.delete (fun row => pick.candidates.contains row) db.candidates }
  let gone := (db.runs.filter fun row => ids.contains row.id &&
    !db.candidates.any fun candidate => candidate.run = row.id).map RunRow.id
  return { db with
    runs := Table.delete (fun row => gone.contains row.id) db.runs
    partitions := Table.delete (fun row => gone.contains row.run) db.partitions }

/-- Snapshots with their rows; a header goes when it has none left. -/
def cleanupSnapshots (db : Database) (now retention : Time) (batch : Nat) (linked : List Uuid)
    (pick : CleanupPick) : Option Database := do
  guard (OrderedPick SnapshotRow.fetchedAt batch (db.obsoleteSnapshots now retention linked)
    pick.snapshots)
  let ids := pick.snapshots.map SnapshotRow.id
  guard (LimitPick batch (db.programmes.filter fun row => ids.contains row.snapshot)
    pick.programmes)
  let db := { db with
    programmes := Table.delete (fun row => pick.programmes.contains row) db.programmes }
  guard (LimitPick batch (db.epgChannels.filter fun row => ids.contains row.snapshot &&
    !db.programmes.any fun programme => programme.epgChannel = row.id) pick.epgChannels)
  let db := { db with
    epgChannels := Table.delete (fun row => pick.epgChannels.contains row) db.epgChannels }
  guard (LimitPick batch (db.streams.filter fun row => ids.contains row.snapshot) pick.streams)
  let db := { db with streams := Table.delete (fun row => pick.streams.contains row) db.streams }
  return db.deleteSnapshots fun row => ids.contains row.id && decide (db.stagedRowCount row.id = 0)

/-- The bounds that `cleanup_batch` puts on its arguments. -/
def cleanupBatch (db : Database) (now : Time) (retentionSeconds batchSize : Int)
    (linked : List Uuid) (pick : CleanupPick) : Option Database := do
  let retention := (max retentionSeconds 60).toNat
  let batch := (max 1 (min batchSize 5000)).toNat
  let db ← db.cleanupRuns now retention batch pick
  db.cleanupSnapshots now retention batch linked pick

end Database

end IptvRelay.Store
