import Mathlib.Algebra.GroupWithZero.Nat
import Mathlib.Data.List.Dedup
import Mathlib.Data.List.Sort
import IptvRelay.Store.Snapshots

/-!
# Reconciliation of a staged provider snapshot

Model of `create_or_load_provider_reconciliation_run`,
`process_provider_reconciliation_partition` and `finalize_provider_reconciliation` in
`persistence/src/catalog.rs`, and of `queue_reconciliation` in `outbox.rs`. The hash of
the database is a parameter. The statements that write the public channels only say
whether they succeed.
-/

namespace IptvRelay.Store

open Checked

inductive PersistenceError where
  | invalidSource (message : String)
  | jobNotFound (jobId : Uuid)
  | jobOwnership (jobId : Uuid) (workerId : WorkerId)
  /-- A constraint of the database, or a lost connection. -/
  | database
  /-- Not an error of the source: the task panics before its first statement. -/
  | overflow
  deriving DecidableEq, Repr

/-! ## Canonical keys -/

/-- `COALESCE(NULLIF(tvg_id, ''), 'stream:' || stable_key)`. -/
def StreamRow.canonicalKey (row : StreamRow) : String :=
  match row.tvgId.filter (fun tvgId => tvgId ≠ "") with
  | some tvgId => tvgId
  | none => "stream:" ++ row.stableKey

/-- `mod(mod(hashtextextended(key, 0), n) + n, n)`. -/
def partitionOf (hash : String → Int) (partitionCount : Nat) (key : String) : Int :=
  ((hash key).tmod partitionCount + partitionCount).tmod partitionCount

namespace Database

/-- `WHERE snapshot_id = $1 AND supported`. -/
def supportedStreams (db : Database) (snapshotId : Uuid) : List StreamRow :=
  db.streams.filter fun row => row.snapshot = snapshotId ∧ row.supported

/-- `GROUP BY canonical_key`. -/
def canonicalKeys (db : Database) (snapshotId : Uuid) : List String :=
  ((db.supportedStreams snapshotId).map StreamRow.canonicalKey).dedup

/-- `ORDER BY created_at DESC, id DESC LIMIT 1`. -/
def latestRun (db : Database) (snapshotId : Uuid) : Option RunRow :=
  (db.runs.filter fun row => row.snapshot = snapshotId).foldr
    (fun row latest => match latest with
      | none => some row
      | some other =>
        if other.createdAt < row.createdAt ∨
            (other.createdAt = row.createdAt ∧ other.id < row.id) then some row
        else some other) none

def partition (db : Database) (runId : Uuid) (number : Nat) : Option PartitionRow :=
  db.partitions.find? fun row => row.run = runId ∧ row.number = number

def updatePartitions (db : Database) (p : PartitionRow → Bool)
    (f : PartitionRow → PartitionRow) : Database :=
  { db with partitions := Table.update p f db.partitions }

/-- Both candidate tables. -/
def deleteCandidates (db : Database) (p : Uuid → Bool) : Database :=
  { db with
    candidateStreams := Table.delete (fun row => p row.run) db.candidateStreams
    candidates := Table.delete (fun row => p row.run) db.candidates }

end Database

/-! ## Runs -/

/-- Uuids come from `fresh`, one for each number. -/
def queueReconciliation (db : Database) (now : Time) (fresh : Nat → Uuid) (run : RunRow) :
    Database :=
  match run.parent with
  | none => db
  | some parent =>
    (List.range run.partitionCount).foldl (fun db number => db.insertIntent
      { id := fresh number
        parent
        kind := .reconcileProviderPartition
        payload :=
          { runId := some run.id
            partitionNumber := some number
            sourceId := some run.account
            parentJobId := some parent }
        dedupKey := .partition parent run.id number
        createdAt := now }) db

/-- What a committed preparation found. -/
inductive Preparation where
  | alreadyActive
  | prepared (run : RunRow)
  | noSupportedChannels
  deriving DecidableEq, Repr

/-- The foreign key `parent_job_id`. -/
def referencesJob (db : Database) (jobId : Uuid) : Except PersistenceError Unit :=
  ensure (∃ job ∈ db.jobs, job.id = jobId) .database

/-- The run as it starts again under a new parent. -/
def RunRow.restart (run : RunRow) (parentJobId : Uuid) (now : Time) : RunRow :=
  { run with
    status := .processing
    parent := some parentJobId
    completedKeys := 0
    updatedAt := now }

/-- A failed or published run of the same snapshot starts again. -/
def rebuildRun (db : Database) (now : Time) (fresh : Nat → Uuid) (run : RunRow)
    (parentJobId : Uuid) : Except PersistenceError (Database × Preparation) := do
  referencesJob db parentJobId
  let db := db.deleteCandidates fun runId => runId = run.id
  let db := db.updatePartitions (fun row => row.run = run.id) fun row =>
    { row with status := .queued, completedKeys := 0, attempts := 0, worker := none }
  let db := db.updateRuns (fun row => row.id = run.id) fun row => row.restart parentJobId now
  let run := run.restart parentJobId now
  return (queueReconciliation db now fresh run, .prepared run)

/-- `INSERT INTO provider_reconciliation_partitions … generate_series`. -/
def partitionRows (hash : String → Int) (runId : Uuid) (partitionCount : Nat)
    (keys : List String) : List PartitionRow :=
  (List.range partitionCount).map fun number =>
    { run := runId
      number
      keyCount := Table.count (fun key => partitionOf hash partitionCount key = number) keys }

def insertRun (db : Database) (hash : String → Int) (now : Time) (fresh : Nat → Uuid)
    (account snapshotId parentJobId : Uuid) (partitionCount : Nat) :
    Except PersistenceError (Database × Preparation) := do
  let keys := db.canonicalKeys snapshotId
  let run : RunRow :=
    { id := fresh 0
      account
      snapshot := snapshotId
      parent := some parentJobId
      partitionCount
      totalKeys := keys.length
      createdAt := now
      updatedAt := now }
  referencesJob db parentJobId
  ensure (∀ row ∈ db.runs, row.id ≠ run.id) PersistenceError.database
  let db := { db with
    runs := db.runs ++ [run]
    partitions := db.partitions ++ partitionRows hash run.id partitionCount keys }
  return (queueReconciliation db now (fun number => fresh (number + 1)) run, .prepared run)

/-- A new run, or the end of a snapshot that has nothing to reconcile. -/
def createRun (db : Database) (hash : String → Int) (now : Time) (fresh : Nat → Uuid)
    (account snapshotId parentJobId : Uuid) (partitionCount : Nat) :
    Except PersistenceError (Database × Preparation) :=
  if (db.canonicalKeys snapshotId).length = 0 then
    .ok (rejectStaged db snapshotId, .noSupportedChannels)
  else insertRun db hash now fresh account snapshotId parentJobId partitionCount

/-- The transaction of `create_or_load_provider_reconciliation_run`. -/
def prepareReconciliation (hash : String → Int) (db : Database) (now : Time)
    (fresh : Nat → Uuid) (snapshotId parentJobId : Uuid) (requestedPartitions : Int) :
    Except PersistenceError (Database × Preparation) := do
  let partitionCount := (max 1 (min requestedPartitions 64)).toNat
  match db.snapshot snapshotId with
  | none => throw (.invalidSource "staged provider snapshot was not found")
  | some snapshot =>
    ensure (snapshot.kind = .m3u ∨ snapshot.kind = .xtream)
      (PersistenceError.invalidSource "parallel reconciliation requires an M3U or Xtream snapshot")
    if snapshot.status = .active then return (db, .alreadyActive)
    else
      ensure (snapshot.status = .staging ∧ snapshot.stagedAt.isSome)
        (PersistenceError.invalidSource "provider snapshot is not ready for reconciliation")
      match db.latestRun snapshotId with
      | none =>
        createRun db hash now fresh snapshot.owner.id snapshotId parentJobId partitionCount
      | some run =>
        match run.status with
        | .cancelled =>
          createRun db hash now fresh snapshot.owner.id snapshotId parentJobId partitionCount
        -- The intents keep the parent that the run has.
        | .processing => return (queueReconciliation db now fresh run, .prepared run)
        | .queued | .failed | .published => rebuildRun db now fresh run parentJobId

/-- A snapshot without supported channels is rejected in a committed transaction. -/
def createOrLoadProviderReconciliationRun (hash : String → Int) (db : Database) (now : Time)
    (fresh : Nat → Uuid) (snapshotId parentJobId : Uuid) (requestedPartitions : Int) :
    Database × Except PersistenceError (Option RunRow) :=
  match prepareReconciliation hash db now fresh snapshotId parentJobId requestedPartitions with
  | .ok (db, .alreadyActive) => (db, .ok none)
  | .ok (db, .prepared run) => (db, .ok (some run))
  | .ok (db, .noSupportedChannels) => (db, .error
      (.invalidSource "staged provider snapshot contains no supported channels"))
  | .error error => (db, .error error)

/-! ## Partitions -/

structure ProviderReconciliationPartitionResult where
  run : Uuid
  partitionNumber : Nat
  keysCompleted : Nat
  totalKeys : Nat
  alreadyCompleted : Bool
  deriving DecidableEq, Repr

/-- The aggregates of one group, in the order of the stream ids. -/
def candidateOf (runId : Uuid) (key : String) (streams : List StreamRow) : CandidateRow :=
  { run := runId
    canonicalKey := key
    name := (streams.head?.map StreamRow.name).getD ""
    groupName := streams.findSome? StreamRow.groupName
    logoUrl := streams.findSome? fun row => row.logoUrl.filter (fun url => url ≠ "")
    preferredNumber :=
      streams.findSome? fun row => row.channelNumber.filter (fun number => number ≠ "") }

/-- `GROUP BY canonical_key`, each group `ORDER BY ps.id`. -/
def groupCandidates (runId : Uuid) (rows : List StreamRow) : List CandidateRow :=
  (rows.map StreamRow.canonicalKey).dedup.map fun key => candidateOf runId key
    ((rows.filter fun row => row.canonicalKey = key).insertionSort fun a b => a.id ≤ b.id)

/-- `ON CONFLICT (run_id, canonical_key) DO UPDATE`. -/
def upsertCandidate (rows : List CandidateRow) (candidate : CandidateRow) : List CandidateRow :=
  if rows.any fun row => row.run = candidate.run ∧ row.canonicalKey = candidate.canonicalKey then
    Table.update
      (fun row => row.run = candidate.run ∧ row.canonicalKey = candidate.canonicalKey)
      (fun _ => candidate) rows
  else rows ++ [candidate]

/-- `ON CONFLICT DO NOTHING`. -/
def insertCandidateStream (rows : List CandidateStreamRow) (link : CandidateStreamRow) :
    List CandidateStreamRow :=
  if rows.contains link then rows else rows ++ [link]

/-- The row of `provider_reconciliation_candidate_streams`. -/
def StreamRow.link (row : StreamRow) (runId : Uuid) : CandidateStreamRow :=
  { run := runId, canonicalKey := row.canonicalKey, stream := row.id }

/-- The candidates of one partition, written over those of an earlier attempt. -/
def writePartition (hash : String → Int) (db : Database) (runId snapshotId : Uuid)
    (partitionCount number : Nat) : Database :=
  let rows := (db.supportedStreams snapshotId).filter fun row =>
    partitionOf hash partitionCount row.canonicalKey = number
  { db with
    candidates := (groupCandidates runId rows).foldl upsertCandidate db.candidates
    candidateStreams :=
      (rows.map fun row => row.link runId).foldl insertCandidateStream db.candidateStreams }

/-- `completed_keys` of the run, from its partitions. -/
def sumCompletedKeys (db : Database) (runId : Uuid) : Nat :=
  ((db.partitions.filter fun row => row.run = runId).map PartitionRow.completedKeys).sum

/-- With a job the worker must own it. -/
def ensureOwnedJob (db : Database) (workerId : WorkerId) :
    Option Uuid → Except PersistenceError Unit
  | none => .ok ()
  | some jobId =>
    ensure (∃ job ∈ db.jobs, job.ownedBy jobId workerId) (.jobOwnership jobId workerId)

/-- The transaction of `process_provider_reconciliation_partition`. -/
def processPartition (hash : String → Int) (db : Database) (now : Time) (runId : Uuid)
    (number : Nat) (workerId : WorkerId) (jobId : Option Uuid) :
    Except PersistenceError (Database × ProviderReconciliationPartitionResult) := do
  ensureOwnedJob db workerId jobId
  match db.partition runId number, db.run runId with
  | some partition, some run =>
    match db.snapshot run.snapshot with
    | none => throw (.invalidSource "reconciliation partition was not found")
    | some snapshot =>
      if partition.status = .succeeded then
        return (db, ⟨runId, number, partition.keyCount, partition.keyCount, true⟩)
      else
        ensure (run.status = .processing ∧ snapshot.status = .staging ∧ snapshot.stagedAt.isSome)
          (PersistenceError.invalidSource "reconciliation run is not ready for partition work")
        let mine := fun row : PartitionRow => decide (row.run = runId ∧ row.number = number)
        let db := db.updatePartitions mine fun row =>
          { row with
            status := .processing, attempts := row.attempts + 1, worker := some workerId }
        let db := writePartition hash db runId run.snapshot run.partitionCount number
        ensure (Table.count (fun row => row.run = runId ∧
            partitionOf hash run.partitionCount row.canonicalKey = number) db.candidates =
              partition.keyCount)
          (PersistenceError.invalidSource
            "reconciliation candidate count does not match its partition")
        let db := db.updatePartitions mine fun row =>
          { row with status := .succeeded, completedKeys := row.keyCount }
        let db := db.updateRuns (fun row => row.id = runId) fun row =>
          { row with completedKeys := sumCompletedKeys db runId, updatedAt := now }
        return (db, ⟨runId, number, partition.keyCount, partition.keyCount, false⟩)
  | _, _ => throw (.invalidSource "reconciliation partition was not found")

/-! ## Publication -/

structure ProviderReconciliationRunProgress where
  run : Uuid
  status : RunStatus
  partitionCount : Nat
  partitionsCompleted : Nat
  totalKeys : Nat
  completedKeys : Nat
  deriving DecidableEq, Repr

def providerReconciliationProgress (db : Database) (run : RunRow) :
    ProviderReconciliationRunProgress :=
  { run := run.id
    status := run.status
    partitionCount := run.partitionCount
    partitionsCompleted :=
      Table.count (fun row => row.run = run.id ∧ row.status = .succeeded) db.partitions
    totalKeys := run.totalKeys
    completedKeys := sumCompletedKeys db run.id }

inductive ProviderReconciliationFinalization where
  | pending (progress : ProviderReconciliationRunProgress)
  | cancelled
  | published
  | alreadyPublished
  | superseded
  deriving DecidableEq, Repr

/-- `fetched_at > $3 OR (fetched_at = $3 AND id > $4)`. -/
def SnapshotRow.newerThan (row : SnapshotRow) (fetchedAt : Time) (id : Uuid) : Prop :=
  fetchedAt < row.fetchedAt ∨ (row.fetchedAt = fetchedAt ∧ id < row.id)

instance (row : SnapshotRow) (fetchedAt : Time) (id : Uuid) :
    Decidable (row.newerThan fetchedAt id) := inferInstanceAs (Decidable (_ ∨ _))

/-- The work of a refresh that has ended stops. -/
def abandonRun (db : Database) (now : Time) (runId finalizerJobId : Uuid) : Database :=
  let db := db.updateJobs (fun job => job.id = finalizerJobId ∧
      job.kind = .finalizeProviderReconciliation ∧ job.status.isOpen) fun job =>
    job.finish .cancelled
  let db := db.updateRuns (fun row => row.id = runId ∧
      (row.status = .queued ∨ row.status = .processing)) fun row =>
    { row with status := .cancelled, updatedAt := now }
  db.deleteCandidates fun other => other = runId

/-- A newer snapshot is public already. -/
def supersedeRun (db : Database) (now : Time) (runId snapshotId : Uuid) : Database :=
  let db := db.updateSnapshots (fun row => row.id = snapshotId ∧ row.status = .staging) fun row =>
    { row with status := .superseded }
  let db := db.updateRuns (fun row => row.id = runId ∧ row.status = .processing) fun row =>
    { row with status := .cancelled, updatedAt := now }
  db.deleteCandidates fun other => other = runId

/-- The last statements of the finalizer, after the public channels are written. -/
def publishRun (db : Database) (now : Time) (runId snapshotId account : Uuid) :
    Except PersistenceError Database := do
  let db := db.updateSnapshots (fun row => row.owner = .providerAccount account ∧
      (row.kind = .m3u ∨ row.kind = .xtream) ∧ row.status = .active ∧ row.id ≠ snapshotId)
    fun row => { row with status := .superseded }
  let target := fun row : SnapshotRow =>
    decide (row.id = snapshotId ∧ row.status = .staging)
  ensure (Table.count target db.snapshots = 1)
    (PersistenceError.invalidSource "staged provider snapshot was not activatable")
  let db := (db.setActive target now).deleteCandidates fun other => other = runId
  return db.updateRuns (fun row => row.id = runId ∧ row.status = .processing) fun row =>
    { row with status := .published, completedKeys := row.totalKeys, updatedAt := now }

/-- `progress || jsonb_build_object('activationLocked', true)`. -/
def lockActivation (db : Database) (jobId : Uuid) : Database :=
  db.updateJobs (fun job => job.id = jobId ∧ job.status ≠ .cancelled) fun job =>
    { job with activationLocked := true }

/-- All partitions have succeeded; the jobs are locked against cancellation. -/
def publishSnapshot (db : Database) (now : Time) (run : RunRow) (channelsOk : Bool) :
    Except PersistenceError (Database × ProviderReconciliationFinalization) := do
  match db.snapshots.find? fun row =>
      row.id = run.snapshot ∧ row.owner = .providerAccount run.account with
  | none => throw (.invalidSource "staged provider snapshot was not found")
  | some snapshot =>
    ensure ((snapshot.kind = .m3u ∨ snapshot.kind = .xtream) ∧ snapshot.status = .staging ∧
        snapshot.stagedAt.isSome)
      (PersistenceError.invalidSource "staged provider snapshot is not ready for publication")
    if ∃ row ∈ db.snapshots, row.owner = .providerAccount run.account ∧ row.kind = snapshot.kind ∧
        row.status = .active ∧ row.newerThan snapshot.fetchedAt run.snapshot then
      return (supersedeRun db now run.id run.snapshot, .superseded)
    else
      ensure (Table.count (fun row => row.snapshot = run.snapshot) db.streams =
          snapshot.recordCount)
        (PersistenceError.invalidSource
          "staged provider snapshot record count does not match its streams")
      ensure (Table.count (fun row => row.run = run.id) db.candidates = run.totalKeys)
        (PersistenceError.invalidSource "reconciliation candidates are incomplete")
      ensure (channelsOk = true) PersistenceError.database
      let db ← publishRun db now run.id run.snapshot run.account
      return (db, .published)

/-- The transaction of `finalize_provider_reconciliation`. With a worker the finalizer job must be
its own. -/
def finalizeReconciliation (db : Database) (now : Time) (runId parentJobId finalizerJobId : Uuid)
    (workerId : Option WorkerId) (channelsOk : Bool) :
    Except PersistenceError (Database × ProviderReconciliationFinalization) := do
  match db.jobs.find? fun job => job.id = parentJobId ∧ job.kind = .refreshSource with
  | none => throw (.jobNotFound parentJobId)
  | some parent =>
    if parent.status ≠ .running then
      return (abandonRun db now runId finalizerJobId, .cancelled)
    else
      match db.jobs.find? fun job => job.id = finalizerJobId ∧
          job.kind = .finalizeProviderReconciliation ∧
          (workerId.isNone ∨ (job.status = .running ∧ job.lockedBy = workerId)) with
      | none => throw (.jobNotFound finalizerJobId)
      | some finalizer =>
        if finalizer.status = .cancelled then return (db, .cancelled)
        else
          match db.run runId with
          | none => throw (.invalidSource "reconciliation run was not found")
          | some run =>
            ensure (∃ row ∈ db.snapshots, row.id = run.snapshot ∧
                row.owner = .providerAccount run.account)
              (PersistenceError.invalidSource "staged provider snapshot was not found")
            if run.status = .published then return (db, .alreadyPublished)
            else
              ensure (run.status = .processing)
                (PersistenceError.invalidSource "reconciliation run is not ready for publication")
              if 0 < Table.count (fun row => row.run = runId ∧ row.status ≠ .succeeded)
                  db.partitions then
                return (db, .pending (providerReconciliationProgress db run))
              else
                let db := lockActivation (lockActivation db parentJobId) finalizerJobId
                publishSnapshot db now run channelsOk

def processProviderReconciliationPartition (hash : String → Int) (db : Database) (now : Time)
    (runId : Uuid) (number : Nat) (workerId : WorkerId) (jobId : Option Uuid) :
    Database × Except PersistenceError ProviderReconciliationPartitionResult :=
  transact db (processPartition hash db now runId number workerId jobId)

def finalizeProviderReconciliation (db : Database) (now : Time)
    (runId parentJobId finalizerJobId : Uuid) (workerId : Option WorkerId) (channelsOk : Bool) :
    Database × Except PersistenceError ProviderReconciliationFinalization :=
  transact db (finalizeReconciliation db now runId parentJobId finalizerJobId workerId channelsOk)

end IptvRelay.Store
