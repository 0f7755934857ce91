import Mathlib.Data.List.Infix
import IptvRelay.Store.Reconciliation

/-!
# The job queue

Model of `JobRepository` in `persistence/src/lib.rs`, as far as refreshes and their
reconciliation use it. Every function is one transaction, except `cancel`, which reads its
job without a lock before the statements that take locks. `SKIP LOCKED` may pass over any
row, so the job that a claim takes is a choice of the environment. Error texts are left out,
apart from the category that a dead letter is filed under.
-/

namespace IptvRelay.Store

open Checked

/-- The unique indexes over open jobs. -/
inductive OpenKey where
  | refresh (source : Uuid)
  | partition (run : Uuid) (number : Nat)
  | finalizer (run : Uuid)
  deriving DecidableEq, Repr

def JobRow.openKey (job : JobRow) : Option OpenKey :=
  if job.status.isOpen then
    match job.kind with
    | .refreshSource => job.payload.sourceId.map .refresh
    | .reconcileProviderPartition => do
      let run ← job.payload.runId
      let number ← job.payload.partitionNumber
      return .partition run number
    | .finalizeProviderReconciliation => job.payload.runId.map .finalizer
    | .other _ => none
  else none

def JobRow.conflictsWith (job other : JobRow) : Bool :=
  other.id = job.id ∨ (job.openKey.isSome ∧ other.openKey = job.openKey)

namespace Database

/-- `INSERT INTO jobs … ON CONFLICT DO NOTHING`. -/
def insertJob (db : Database) (job : JobRow) : Database :=
  if db.jobs.any job.conflictsWith then db else { db with jobs := db.jobs ++ [job] }

/-- An update by the owner, or an error when no row has changed. -/
def updateOwned (db : Database) (jobId : Uuid) (workerId : WorkerId) (f : JobRow → JobRow) :
    Except PersistenceError Database := do
  ensure (∃ job ∈ db.jobs, job.ownedBy jobId workerId)
    (PersistenceError.jobOwnership jobId workerId)
  return db.updateJobs (fun job => job.ownedBy jobId workerId) f

theorem updateOwned_ok {db after : Database} {jobId : Uuid} {workerId : WorkerId}
    {f : JobRow → JobRow} (h : db.updateOwned jobId workerId f = .ok after) :
    (∃ job ∈ db.jobs, job.ownedBy jobId workerId = true) ∧
      after = db.updateJobs (fun job => job.ownedBy jobId workerId) f := by
  obtain ⟨_, howned, hrest⟩ := of_bind h
  exact ⟨of_ensure howned, (of_pure hrest).symm⟩

/-- `SET status = 'cancelled' …` for open jobs. -/
def cancelJobs (db : Database) (p : JobRow → Bool) : Database :=
  db.updateJobs (fun job => p job && job.status.isOpen) fun job => job.finish .cancelled

/-- The rows of `kind IN ('reconcile-provider-partition', 'finalize-provider-reconciliation')` of
one parent. -/
def isChildOf (job : JobRow) (parentJobId : Uuid) : Bool :=
  job.payload.parentJobId = some parentJobId ∧
    (job.kind = .reconcileProviderPartition ∨ job.kind = .finalizeProviderReconciliation)

/-- Children that have not begun to activate. -/
def cancelChildren (db : Database) (parentJobId : Uuid) : Database :=
  db.cancelJobs fun job => isChildOf job parentJobId && !job.activationLocked

def cancelRuns (db : Database) (now : Time) (parentJobId : Uuid) : Database :=
  db.updateRuns (fun run => run.parent = some parentJobId ∧
    (run.status = .queued ∨ run.status = .processing)) fun run =>
    { run with status := .cancelled, updatedAt := now }

end Database

/-! ## Queue -/

/-- What a caller of `enqueue` chooses. -/
structure NewJob where
  kind : JobKind
  priority : Int := 0
  payload : JobPayload := {}
  maxAttempts : Int := 3
  availableAt : Time
  deriving DecidableEq, Repr

/-- A plain insert: the check of `max_attempts` and the unique indexes are errors. -/
def enqueue (db : Database) (now : Time) (id : Uuid) (new : NewJob) :
    Except PersistenceError Database := do
  let job : JobRow :=
    { id
      kind := new.kind
      priority := new.priority
      payload := new.payload
      maxAttempts := new.maxAttempts
      availableAt := new.availableAt
      createdAt := now }
  ensure (0 < new.maxAttempts) PersistenceError.database
  ensure (db.jobs.any job.conflictsWith = false) PersistenceError.database
  return { db with jobs := db.jobs ++ [job] }

def enqueueSourceRefreshIfIdle (db : Database) (now : Time) (id sourceId : Uuid) : Database :=
  db.insertJob
    { id
      kind := .refreshSource
      payload := { sourceId := some sourceId }
      availableAt := now
      createdAt := now }

def claim (db : Database) (now : Time) (jobId : Uuid) (workerId : WorkerId) : Option Database := do
  let claimable := fun job : JobRow => decide (job.id = jobId ∧ job.status = .queued ∧
    job.availableAt ≤ now ∧ job.attempts < job.maxAttempts)
  guard (∃ job ∈ db.jobs, claimable job)
  return db.updateJobs claimable fun job =>
    { job with
      status := .running
      lockedBy := some workerId
      lockedAt := some now
      heartbeatAt := some now
      attempts := job.attempts + 1 }

/-- `progress` is replaced, but a lock in it stays. -/
def heartbeat (db : Database) (now : Time) (jobId : Uuid) (workerId : WorkerId)
    (activationLocked : Bool) (progressRun : Option Uuid) : Except PersistenceError Database :=
  db.updateOwned jobId workerId fun job =>
    { job with
      heartbeatAt := some now
      activationLocked := job.activationLocked || activationLocked
      progressRun }

def touchHeartbeat (db : Database) (now : Time) (jobId : Uuid) (workerId : WorkerId) :
    Except PersistenceError Database :=
  db.updateOwned jobId workerId fun job => { job with heartbeatAt := some now }

def succeed (db : Database) (jobId : Uuid) (workerId : WorkerId) :
    Except PersistenceError Database :=
  db.updateOwned jobId workerId fun job => job.finish .succeeded

/-- The delay before the next attempt, in seconds. The power is an `i64` that wraps; at its least
value the conversion to a duration panics. -/
def retryDelay (attempts : Int) : Except PersistenceError Time := do
  let exponent := attempts.toNat
  ensure (exponent ≠ 63) PersistenceError.overflow
  return if exponent < 63 then min (Nat.pow 2 exponent) 300 else 0

def categorizeError (error : String) : ErrorCategory :=
  let lower := error.toLower
  let contains := fun text : String => decide (text.toList <:+: lower.toList)
  if contains "timeout" || contains "timed out" then .timeout
  else if contains "cancelled" || contains "canceled" then .cancelled
  else if contains "connect" || contains "dns" || contains "temporarily" || contains "503" ||
      contains "502" || contains "429" then .transient
  else .permanent

/-- The row that archives a job. -/
def JobRow.deadLetter (job : JobRow) (now : Time) (error : String) : DeadLetterRow :=
  { originalJobId := job.id
    kind := job.kind
    payload := job.payload
    errorCategory := categorizeError error
    attemptCount := job.attempts
    maxAttempts := job.maxAttempts
    firstFailedAt := job.createdAt
    lastFailedAt := now }

/-- `INSERT INTO dead_letter_jobs … SELECT … FROM jobs WHERE id = $1`. -/
def Database.archive (db : Database) (now : Time) (jobId : Uuid) (error : String) : Database :=
  { db with
    deadLetters := db.deadLetters ++
      (db.jobs.filter fun job => job.id = jobId).map fun job => job.deadLetter now error }

/-- The columns that `fail` writes. -/
def JobRow.endAttempt (job : JobRow) (status : JobStatus) (availableAt : Time) : JobRow :=
  { job.finish status with availableAt }

@[simp] theorem JobRow.endAttempt_id (job : JobRow) (status : JobStatus) (availableAt : Time) :
    (job.endAttempt status availableAt).id = job.id := rfl

@[simp] theorem JobRow.endAttempt_status (job : JobRow) (status : JobStatus) (availableAt : Time) :
    (job.endAttempt status availableAt).status = status := rfl

/-- The attempts are those of the record that the worker has claimed. -/
def fail (db : Database) (now : Time) (jobId : Uuid) (workerId : WorkerId)
    (attempts maxAttempts : Int) (error : String) : Except PersistenceError Database :=
  if attempts < maxAttempts then do
    let delay ← retryDelay attempts
    db.updateOwned jobId workerId fun job => job.endAttempt .queued (now + delay)
  else do
    let db ← db.updateOwned jobId workerId fun job => job.endAttempt .failed now
    return db.archive now jobId error

/-- The lease of a running job has expired. -/
def JobRow.isStale (job : JobRow) (now lease : Time) : Bool :=
  decide (job.status = .running) &&
    (job.heartbeatAt.or job.lockedAt).any fun beat => decide (beat + lease < now)

def recoverStaleJobs (db : Database) (now lease : Time) : Database :=
  db.updateJobs (fun job => job.isStale now lease) fun job =>
    job.finish (if job.attempts < job.maxAttempts then .queued else .failed)

/-! ## Refreshes and their children -/

/-- `progress || $2`, with the keys of `$2` that the model has. -/
def heartbeatReconciliationParent (db : Database) (now : Time) (parentJobId : Uuid)
    (progressRun : Option Uuid) : Database :=
  db.updateJobs
    (fun job => job.id = parentJobId ∧ job.kind = .refreshSource ∧ job.status = .running)
    fun job =>
      { job with
        heartbeatAt := some now
        progressRun := progressRun.or job.progressRun }

def canCompleteReconciliationParent (job : JobRow) (runId : Uuid) : Bool :=
  job.progressRun = some runId ∧
    (job.status = .running ∨ job.status = .queued ∨ job.status = .failed) ∧
    (job.status = .running ∨ job.lockedBy = none)

def completeReconciliationParent (db : Database) (parentJobId runId : Uuid) : Database × Bool :=
  match db.jobs.find? fun job => job.id = parentJobId ∧ job.kind = .refreshSource with
  | none => (db, false)
  | some parent =>
    if canCompleteReconciliationParent parent runId then
      (db.updateJobs (fun job => job.id = parentJobId) fun job =>
        { job.finish .succeeded with activationLocked := false }, true)
    else (db, false)

/-- The runs that fail are all runs of the parent, or only the one given. -/
def failReconciliationParent (db : Database) (now : Time) (parentJobId : Uuid)
    (runId progressRun : Option Uuid) : Database × Bool :=
  match db.jobs.find? fun job => job.id = parentJobId ∧ job.kind = .refreshSource with
  | none => (db, false)
  | some parent =>
    if parent.status = .cancelled ∨ parent.status = .succeeded then (db, false)
    else
      let failing := fun run : RunRow => decide (run.parent = some parentJobId ∧
        run.status = .processing ∧ (runId = none ∨ runId = some run.id))
      let failed := db.updateRuns failing fun run =>
        { run with status := .failed, updatedAt := now }
      let ended := failed.updateJobs (fun job => job.id = parentJobId ∧
          job.kind = .refreshSource ∧ job.status.isOpen) fun job =>
        { job.finish .failed with activationLocked := false, progressRun }
      let orphans := ended.jobs.any fun job =>
        Database.isChildOf job parentJobId && !job.activationLocked && job.status.isOpen
      (ended.cancelChildren parentJobId,
        db.runs.any failing || parent.status.isOpen || orphans)

def failReconciliationParentIfExhausted (db : Database) (now : Time) (parentJobId runId : Uuid)
    (progressRun : Option Uuid) : Database × Bool :=
  failReconciliationParent db now parentJobId (some runId) progressRun

def failReconciliationParentForTerminalChild (db : Database) (now : Time) (parentJobId : Uuid)
    (progressRun : Option Uuid) : Database × Bool :=
  failReconciliationParent db now parentJobId none progressRun

/-- The job ends and the finalizer is queued in one transaction. -/
def completeProviderReconciliationPartition (db : Database) (now : Time) (intentId jobId : Uuid)
    (workerId : WorkerId) (runId sourceId parentJobId : Uuid) :
    Except PersistenceError Database := do
  ensure (∃ job ∈ db.jobs, job.id = parentJobId ∧ job.kind = .refreshSource)
    (PersistenceError.jobNotFound parentJobId)
  let db ← db.updateOwned jobId workerId fun job => job.finish .succeeded
  if ∃ job ∈ db.jobs, job.id = parentJobId ∧ job.status = .cancelled then return db
  else
    return db.insertIntent
      { id := intentId
        parent := parentJobId
        kind := .finalizeProviderReconciliation
        payload :=
          { runId := some runId
            sourceId := some sourceId
            parentJobId := some parentJobId }
        dedupKey := .finalizer runId
        createdAt := now }

/-! ## Cancellation and activation -/

/-- What `cancel` has read without a lock. -/
structure CancelTarget where
  kind : JobKind
  payload : JobPayload
  deriving DecidableEq, Repr

/-- The parent whose lock decides. -/
def CancelTarget.parent (target : CancelTarget) (jobId : Uuid) : Option Uuid :=
  match target.kind with
  | .refreshSource => some jobId
  | .reconcileProviderPartition | .finalizeProviderReconciliation => target.payload.parentJobId
  | .other _ => none

/-- The first statement of `cancel`. With no target the call returns false. -/
def cancelRead (db : Database) (jobId : Uuid) : Except PersistenceError (Option CancelTarget) :=
  match db.job jobId with
  | none => .error (.jobNotFound jobId)
  | some job =>
    if !job.status.isOpen || job.activationLocked then .ok none
    else .ok (some ⟨job.kind, job.payload⟩)

/-- `id = $1 AND coalesce(progress->>'activationLocked', 'false') <> 'true'`. -/
def isUnlocked (jobId : Uuid) (job : JobRow) : Bool :=
  decide (job.id = jobId) && !job.activationLocked

def cancelParent (db : Database) (parent : JobRow) : Database :=
  if parent.status.isOpen then db.cancelJobs fun job => job.id = parent.id else db

/-- The children of a refresh, its runs and their candidates. -/
def cancelFamily (db : Database) (now : Time) (parentJobId : Uuid) : Database :=
  let db := (db.cancelChildren parentJobId).cancelRuns now parentJobId
  let runs := (db.runs.filter fun run => run.parent = some parentJobId).map RunRow.id
  db.deleteCandidates runs.contains

/-- The statements of `cancel` after the parent is locked. For a refresh the parent is the target. -/
def cancelWithParent (db : Database) (now : Time) (jobId : Uuid) (target : CancelTarget)
    (parent : JobRow) : Database × Bool :=
  if parent.activationLocked then (db, false)
  else
    let stopped := cancelParent db parent
    let child := decide (target.kind ≠ .refreshSource)
    let final := if child then stopped.cancelJobs (isUnlocked jobId) else stopped
    let targetCanceled := child && stopped.jobs.any fun job =>
      isUnlocked jobId job && job.status.isOpen
    if parent.status.isOpen || targetCanceled then (cancelFamily final now parent.id, true)
    else (final, false)

/-- The statements of `cancel` that take locks. -/
def cancelUpdate (db : Database) (now : Time) (jobId : Uuid) (target : CancelTarget) :
    Database × Bool :=
  match target.parent jobId with
  | none =>
    -- The flag is not read again.
    (db.cancelJobs fun job => job.id = jobId,
      db.jobs.any fun job => decide (job.id = jobId) && job.status.isOpen)
  | some parentJobId =>
    match db.jobs.find? fun job => job.id = parentJobId ∧ job.kind = .refreshSource with
    | none =>
      (db.cancelJobs (isUnlocked jobId),
        db.jobs.any fun job => isUnlocked jobId job && job.status.isOpen)
    | some parent => cancelWithParent db now jobId target parent

def cancelSourceSync (db : Database) (now : Time) (parentJobId : Uuid) : Database × Bool :=
  if db.jobs.any fun job => isUnlocked parentJobId job && job.status.isOpen then
    (((db.cancelJobs (isUnlocked parentJobId)).cancelChildren parentJobId).cancelRuns now
      parentJobId, true)
  else (db, false)

def beginActivation (db : Database) (now : Time) (jobId : Uuid) (workerId : WorkerId) :
    Except PersistenceError Database :=
  db.updateOwned jobId workerId fun job =>
    { job with heartbeatAt := some now, activationLocked := true }

end IptvRelay.Store
