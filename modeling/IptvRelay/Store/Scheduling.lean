import IptvRelay.Store.DeadLetters
import Mathlib.Algebra.Group.Int.Defs

/-!
# Scheduled refreshes

Model of the columns of `provider_accounts` and `epg_sources` that `refresh_scheduler` and the
circuit breaker use, with the statements of `SourceRepository` and `JobRepository` on them. A cycle
of the scheduler is a transaction that other statements run between: its query sees what has been
committed, its jobs are seen when it commits, and an insert that conflicts with one of them waits
for its end. The advisory lock lets one cycle run at a time. A worker reports on a refresh with
separate statements, any of which may be lost.
-/

namespace IptvRelay.Store

open Transition Checked

/-! ## Sources -/

inductive SourceError where
  | sourceNotFound (id : Uuid)
  | sourceConflict
  /-- A constraint of the database. -/
  | database
  deriving DecidableEq, Repr

/-- A row of `provider_accounts` or `epg_sources`. -/
structure SourceRow where
  id : Uuid
  enabled : Bool := true
  refreshIntervalSeconds : Nat := 0
  lastRefreshedAt : Option Time := none
  cbConsecutiveFailures : Int := 0
  cbOpenedAt : Option Time := none
  deriving DecidableEq, Repr

/-- The columns that `record_refresh_failure` writes. -/
def SourceRow.countFailure (failureThreshold : Int) (now : Time) (row : SourceRow) : SourceRow :=
  { row with
    cbConsecutiveFailures := row.cbConsecutiveFailures + 1
    cbOpenedAt :=
      if failureThreshold ≤ row.cbConsecutiveFailures + 1 then some now else row.cbOpenedAt }

@[simp] theorem SourceRow.countFailure_id (failureThreshold : Int) (now : Time) (row : SourceRow) :
    (row.countFailure failureThreshold now).id = row.id := rfl

inductive SourceTable where
  | providerAccounts
  | epgSources
  deriving DecidableEq, Repr

structure SourceTables where
  providerAccounts : List SourceRow := []
  epgSources : List SourceRow := []

namespace SourceTables

variable (tables : SourceTables)

/-- `provider_accounts UNION ALL epg_sources`. -/
def rows : List SourceRow := tables.providerAccounts ++ tables.epgSources

/-- A pair of statements with one condition, on the one table and on the other. -/
def update (id : Uuid) (f : SourceRow → SourceRow) : SourceTables where
  providerAccounts := Table.update (fun row => row.id = id) f tables.providerAccounts
  epgSources := Table.update (fun row => row.id = id) f tables.epgSources

/-- The second statement runs if the first has found no row. -/
def updateFirst (id : Uuid) (f : SourceRow → SourceRow) :
    Except SourceError SourceTables :=
  if tables.providerAccounts.any fun row => row.id = id then
    .ok { tables with
      providerAccounts := Table.update (fun row => row.id = id) f tables.providerAccounts }
  else if tables.epgSources.any fun row => row.id = id then
    .ok { tables with epgSources := Table.update (fun row => row.id = id) f tables.epgSources }
  else .error (.sourceNotFound id)

def insert (row : SourceRow) : SourceTable → SourceTables
  | .providerAccounts => { tables with providerAccounts := tables.providerAccounts ++ [row] }
  | .epgSources => { tables with epgSources := tables.epgSources ++ [row] }

def delete (id : Uuid) : SourceTables where
  providerAccounts := Table.delete (fun row => row.id = id) tables.providerAccounts
  epgSources := Table.delete (fun row => row.id = id) tables.epgSources

def updateRefreshInterval (id : Uuid) (intervalSeconds : Int) :
    Except SourceError SourceTables := do
  ensure (0 ≤ intervalSeconds) SourceError.sourceConflict
  tables.updateFirst id fun row => { row with refreshIntervalSeconds := intervalSeconds.toNat }

/-- The column `enabled` of `update_source`. -/
def updateSource (id : Uuid) (enabled : Option Bool) : Except SourceError SourceTables :=
  tables.updateFirst id fun row => { row with enabled := enabled.getD row.enabled }

def markSourceRefreshed (id : Uuid) (refreshedAt : Time) : SourceTables :=
  tables.update id fun row => { row with lastRefreshedAt := some refreshedAt }

def recordRefreshSuccess (id : Uuid) : SourceTables :=
  tables.update id fun row => { row with cbConsecutiveFailures := 0, cbOpenedAt := none }

def resetCircuitBreaker (id : Uuid) : SourceTables :=
  tables.update id fun row => { row with cbConsecutiveFailures := 0, cbOpenedAt := none }

/-- The counter is an `integer`, and a statement that would take it beyond fails. -/
def recordRefreshFailure (failureThreshold : Int) (now : Time) (id : Uuid) :
    Except SourceError (SourceTables × Bool) := do
  ensure (∀ row ∈ tables.rows, row.id = id → row.cbConsecutiveFailures < 2 ^ 31 - 1)
    SourceError.database
  let updated := tables.update id (SourceRow.countFailure failureThreshold now)
  let newCount := ((updated.rows.find? fun row => row.id = id).map
    SourceRow.cbConsecutiveFailures).getD 0
  return (updated, failureThreshold ≤ newCount)

end SourceTables

/-- What the query of a cycle asks of a source. -/
def SourceRow.isDue (cooldownSeconds : Int) (now : Time) (row : SourceRow) : Bool :=
  row.enabled ∧ 0 < row.refreshIntervalSeconds ∧
    (row.lastRefreshedAt.all fun time => time + row.refreshIntervalSeconds ≤ now) ∧
    (row.cbOpenedAt.all fun time => (time : Int) + cooldownSeconds ≤ now)

/-- `ORDER BY id`. -/
def SourceTables.dueSources (tables : SourceTables) (cooldownSeconds : Int) (now : Time) :
    List SourceRow :=
  (tables.rows.filter (SourceRow.isDue cooldownSeconds now)).mergeSort fun a b => a.id ≤ b.id

/-! ## Jobs of a source -/

/-- The source of a refresh that is queued or running. -/
def JobRow.openRefresh (job : JobRow) : Option Uuid :=
  if job.kind = .refreshSource ∧ job.status.isOpen then job.payload.sourceId else none

def openRefreshes (jobs : List JobRow) : List Uuid := jobs.filterMap JobRow.openRefresh

/-- The statements of `delete` on jobs, runs and snapshots. -/
def deleteSource (db : Database) (now : Time) (sourceId : Uuid) : Database :=
  let refreshes := (db.jobs.filter fun job =>
    job.kind = .refreshSource ∧ job.payload.sourceId = some sourceId).map JobRow.id
  let db := db.cancelJobs fun job => (job.kind = .refreshSource ∨
    job.kind = .other "refresh-xtream-short-epg") ∧ job.payload.sourceId = some sourceId
  let db := db.cancelJobs fun job => (job.kind = .reconcileProviderPartition ∨
    job.kind = .finalizeProviderReconciliation) ∧ (job.payload.sourceId = some sourceId ∨
      ∃ parent ∈ job.payload.parentJobId, parent ∈ refreshes)
  let db := db.updateRuns (fun run => run.account = sourceId ∧
    (run.status = .queued ∨ run.status = .processing)) fun run =>
      { run with status := .cancelled, updatedAt := now }
  db.deleteSnapshots fun row => row.owner.id = sourceId

/-! ## Cycles -/

/-- The transaction of `enqueue_due_source_refreshes`. The lists `found`, of all sources that its
query has returned, and `met`, of those with an open refresh at their turn, are read by the
specification. -/
structure Cycle where
  now : Time
  queried : Bool := false
  due : List Uuid := []
  inserted : List JobRow := []
  found : List Uuid := []
  met : List Uuid := []

/-- What has happened to a source. A statement that finds no row leaves no event. -/
inductive ScheduleEvent where
  | created (source : Uuid)
  | refreshed (source : Uuid) (time : Time)
  | failed (source : Uuid) (time : Time) (opened : Bool)
  | reset (source : Uuid)
  | taken (row : SourceRow) (now : Time)
  deriving DecidableEq, Repr

/-- The job queue with the sources, the running cycle and the dead letters that have been resolved.
The history is read by the specification. -/
structure Schedule where
  queue : Queue := {}
  sources : SourceTables := {}
  leader : Option Cycle := none
  resolutions : List (Nat × String) := []
  history : List ScheduleEvent := []

inductive ScheduleOp where
  | queue (op : QueueOp)
  | heartbeatParent (now : Time) (parentJobId : Uuid) (progressRun : Option Uuid)
  | completeParent (parentJobId runId : Uuid)
  | failParent (now : Time) (parentJobId : Uuid) (runId progressRun : Option Uuid)
  | cancelSourceSync (now : Time) (parentJobId : Uuid)
  | beginActivation (now : Time) (jobId : Uuid) (workerId : WorkerId)
  | finalize (now : Time) (runId parentJobId finalizerJobId : Uuid) (workerId : Option WorkerId)
      (channelsOk : Bool)
  | elsewhere (db : Database)
  | replay (now : Time) (letter : Nat) (jobId : Uuid)
  | close (letter : Nat) (resolution : String)
  | create (table : SourceTable) (now : Time) (id jobId : Uuid)
  | delete (now : Time) (id : Uuid)
  | updateRefreshInterval (id : Uuid) (intervalSeconds : Int)
  | updateSource (id : Uuid) (enabled : Option Bool)
  | markSourceRefreshed (id : Uuid) (refreshedAt : Time)
  | recordRefreshSuccess (id : Uuid)
  | recordRefreshFailure (now : Time) (id : Uuid)
  | resetCircuitBreaker (id : Uuid)
  | begin (now : Time)
  | select
  | insert (jobId : Uuid)
  | commit
  | rollback

namespace Schedule

variable (s : Schedule)

/-- The sources whose new jobs nobody else sees yet. -/
def pending : List Uuid := (s.leader.map fun cycle => openRefreshes cycle.inserted).getD []

def withDb (db : Database) : Schedule := { s with queue := { s.queue with db } }

/-- An insert waits while a cycle holds a job for the same source. -/
def waitsFor (source : Option Uuid) : Bool := source.any fun source => source ∈ s.pending

/-- The source that a job of the queue is to refresh. -/
def newRefresh : QueueOp → Option Uuid
  | .enqueue _ _ new => if new.kind = .refreshSource then new.payload.sourceId else none
  | .enqueueSourceRefreshIfIdle _ _ sourceId => some sourceId
  | _ => none

/-- An event about a source, if there is one. -/
def log (id : Uuid) (event : ScheduleEvent) : List ScheduleEvent :=
  if s.sources.rows.any fun row => row.id = id then s.history ++ [event] else s.history

def refreshJob (now : Time) (id sourceId : Uuid) : JobRow where
  id := id
  kind := .refreshSource
  payload := { sourceId := some sourceId }
  availableAt := now
  createdAt := now

def replayDeadLetterJob (now : Time) (letter : Nat) (jobId : Uuid) : Option Schedule := do
  let record ← s.queue.db.deadLetters[letter]?
  guard (letter ∉ s.resolutions.map Prod.fst)
  guard (s.waitsFor (if record.kind = .refreshSource then record.payload.sourceId else none) =
    false)
  let db ← (enqueue s.queue.db now jobId
    { kind := record.kind
      payload := record.payload
      maxAttempts := record.maxAttempts
      availableAt := now }).toOption
  return { s.withDb db with resolutions := s.resolutions ++ [(letter, "replayed")] }

def closeDeadLetterJob (letter : Nat) (resolution : String) : Option Schedule := do
  guard (letter < s.queue.db.deadLetters.length)
  guard (letter ∉ s.resolutions.map Prod.fst)
  return { s with resolutions := s.resolutions ++ [(letter, resolution)] }

/-- A new identifier is none of a source. -/
def createSource (table : SourceTable) (now : Time) (id jobId : Uuid) : Option Schedule := do
  guard (id ∉ s.sources.rows.map SourceRow.id)
  guard (s.waitsFor (some id) = false)
  let db ← (enqueue s.queue.db now jobId
    { kind := .refreshSource, payload := { sourceId := some id }, availableAt := now }).toOption
  return { s.withDb db with
    sources := s.sources.insert { id } table
    history := s.history ++ [.created id] }

/-- One turn of the loop over the due sources. The statement fails if the identifier of the job is
not new. -/
def insertDue (cycle : Cycle) (jobId : Uuid) : Option Cycle :=
  match cycle.due with
  | [] => none
  | sourceId :: due =>
    let jobs := s.queue.db.jobs ++ cycle.inserted
    if jobs.any fun job => job.id = jobId then none
    else if sourceId ∈ openRefreshes jobs then
      some { cycle with due, met := cycle.met ++ [sourceId] }
    else some { cycle with
      due
      inserted := cycle.inserted ++ [refreshJob cycle.now jobId sourceId] }

/-- Refreshes that other statements leave alone. -/
def refreshJobs (db : Database) : List JobRow := db.jobs.filter fun job => job.kind = .refreshSource

def step (failureThreshold cooldownSeconds : Int) : ScheduleOp → Option Schedule
  | .queue op => do
    guard (s.waitsFor (newRefresh op) = false)
    let queue ← s.queue.step op
    return { s with queue }
  | .heartbeatParent now parentJobId progressRun =>
    some (s.withDb (heartbeatReconciliationParent s.queue.db now parentJobId progressRun))
  | .completeParent parentJobId runId =>
    some (s.withDb (completeReconciliationParent s.queue.db parentJobId runId).1)
  | .failParent now parentJobId runId progressRun =>
    some (s.withDb (failReconciliationParent s.queue.db now parentJobId runId progressRun).1)
  | .cancelSourceSync now parentJobId =>
    some (s.withDb (cancelSourceSync s.queue.db now parentJobId).1)
  | .beginActivation now jobId workerId =>
    (beginActivation s.queue.db now jobId workerId).toOption.map s.withDb
  | .finalize now runId parentJobId finalizerJobId workerId channelsOk =>
    some (s.withDb (finalizeProviderReconciliation s.queue.db now runId parentJobId finalizerJobId
      workerId channelsOk).1)
  | .elsewhere db => do
    guard (refreshJobs db = refreshJobs s.queue.db ∧ db.deadLetters = s.queue.db.deadLetters)
    return s.withDb db
  | .replay now letter jobId => s.replayDeadLetterJob now letter jobId
  | .close letter resolution => s.closeDeadLetterJob letter resolution
  | .create table now id jobId => s.createSource table now id jobId
  | .delete now id => do
    guard (id ∈ s.sources.rows.map SourceRow.id)
    return { s.withDb (deleteSource s.queue.db now id) with sources := s.sources.delete id }
  | .updateRefreshInterval id intervalSeconds =>
    (s.sources.updateRefreshInterval id intervalSeconds).toOption.map fun sources =>
      { s with sources }
  | .updateSource id enabled =>
    (s.sources.updateSource id enabled).toOption.map fun sources => { s with sources }
  | .markSourceRefreshed id refreshedAt =>
    some { s with
      sources := s.sources.markSourceRefreshed id refreshedAt
      history := s.log id (.refreshed id refreshedAt) }
  | .recordRefreshSuccess id =>
    some { s with
      sources := s.sources.recordRefreshSuccess id
      history := s.log id (.reset id) }
  | .recordRefreshFailure now id =>
    (s.sources.recordRefreshFailure failureThreshold now id).toOption.map fun (sources, opened) =>
      { s with sources, history := s.log id (.failed id now opened) }
  | .resetCircuitBreaker id =>
    some { s with
      sources := s.sources.resetCircuitBreaker id
      history := s.log id (.reset id) }
  | .begin now => if s.leader.isNone then some { s with leader := some { now } } else none
  | .select => do
    let cycle ← s.leader
    guard (cycle.queried = false)
    let due := s.sources.dueSources cooldownSeconds cycle.now
    let ids := due.map SourceRow.id
    return { s with
      leader := some { cycle with queried := true, due := ids, found := ids }
      history := s.history ++ due.map fun row => .taken row cycle.now }
  | .insert jobId => do
    let cycle ← s.leader
    let next ← s.insertDue cycle jobId
    return { s with leader := some next }
  | .commit => do
    let cycle ← s.leader
    guard (cycle.queried = true ∧ cycle.due = [])
    return { s.withDb { s.queue.db with jobs := s.queue.db.jobs ++ cycle.inserted } with
      leader := none }
  | .rollback => some { s with leader := none }

end Schedule

/-- From empty tables. -/
def scheduleMachine (failureThreshold cooldownSeconds : Int) : Machine Schedule ScheduleOp where
  start := {}
  step s := s.step failureThreshold cooldownSeconds

end IptvRelay.Store
