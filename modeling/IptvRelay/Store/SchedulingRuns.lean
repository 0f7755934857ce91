import IptvRelay.Lib.History
import IptvRelay.Store.ReconciliationFacts
import IptvRelay.Store.Scheduling

/-!
# Runs of the refresh scheduler

In any interleaving, a source has at most one open refresh, the counter and the circuit of a source
say what its history says, and a cycle takes no source before its time.
-/

namespace IptvRelay.Store

open Transition Checked

/-! ## Refreshes that end -/

theorem openKey_of_openRefresh {job : JobRow} {source : Uuid}
    (h : job.openRefresh = some source) : job.openKey = some (.refresh source) := by
  unfold JobRow.openRefresh at h
  split at h
  · rename_i hopen
    simp only [JobRow.openKey, hopen.2, if_true, hopen.1, h, Option.map_some]
  · cases h

/-- A job that conflicts with no other one is the only open refresh of its source. -/
theorem not_mem_openRefreshes {jobs : List JobRow} {job : JobRow} {source : Uuid}
    (hnew : jobs.any job.conflictsWith = false) (h : job.openRefresh = some source) :
    source ∉ openRefreshes jobs := by
  intro hmem
  obtain ⟨other, hother, hrefresh⟩ := List.mem_filterMap.mp hmem
  refine List.any_eq_false.mp hnew other hother (decide_eq_true (.inr ⟨?_, ?_⟩))
  · rw [openKey_of_openRefresh h]
    rfl
  · rw [openKey_of_openRefresh h, openKey_of_openRefresh hrefresh]

/-- Open refreshes may end, and no other one opens. -/
def Ends (before after : Database) : Prop :=
  (openRefreshes after.jobs).Sublist (openRefreshes before.jobs)

theorem Ends.refl (db : Database) : Ends db db := List.Sublist.refl _

theorem Ends.trans {a b c : Database} (h : Ends a b) (h' : Ends b c) : Ends a c :=
  List.Sublist.trans h' h

theorem Ends.of_jobs {before after : Database} (h : after.jobs = before.jobs) :
    Ends before after := by
  rw [Ends, h]

theorem openRefreshes_update {jobs : List JobRow} {p : JobRow → Bool} {f : JobRow → JobRow}
    (h : ∀ job ∈ jobs, p job = true →
      (f job).openRefresh = job.openRefresh ∨ (f job).openRefresh = none) :
    (openRefreshes (Table.update p f jobs)).Sublist (openRefreshes jobs) := by
  induction jobs with
  | nil => exact List.Sublist.refl _
  | cons job rest ih =>
    have hrest := ih fun other hother => h other (List.mem_cons_of_mem _ hother)
    have hfirst : (if p job then f job else job).openRefresh = job.openRefresh ∨
        (if p job then f job else job).openRefresh = none := by
      split
      · rename_i hp
        exact h job List.mem_cons_self hp
      · exact .inl rfl
    simp only [openRefreshes, Table.update, List.map_cons, List.filterMap_cons] at hrest ⊢
    rcases hfirst with hsame | hnone
    · rw [hsame]
      cases job.openRefresh with
      | none => exact hrest
      | some source => exact hrest.cons_cons source
    · rw [hnone]
      cases job.openRefresh with
      | none => exact hrest
      | some source => exact hrest.cons source

/-- A job keeps its kind and its payload, and does not open. -/
theorem openRefresh_of_same {job next : JobRow} (hkind : next.kind = job.kind)
    (hpayload : next.payload = job.payload)
    (hopen : next.status.isOpen = true → job.status.isOpen = true) :
    next.openRefresh = job.openRefresh ∨ next.openRefresh = none := by
  unfold JobRow.openRefresh
  rw [hkind, hpayload]
  by_cases hnext : next.status.isOpen = true
  · rw [hnext, hopen hnext]
    exact .inl rfl
  · rw [if_neg fun hboth => hnext hboth.2]
    exact .inr rfl

theorem ends_updateJobs {db : Database} {p : JobRow → Bool} {f : JobRow → JobRow}
    (hkind : ∀ job, (f job).kind = job.kind) (hpayload : ∀ job, (f job).payload = job.payload)
    (hopen : ∀ job, p job = true → (f job).status.isOpen = true → job.status.isOpen = true) :
    Ends db (db.updateJobs p f) :=
  openRefreshes_update fun job _ hp => openRefresh_of_same (hkind job) (hpayload job) (hopen job hp)

theorem ends_updateOwned {db after : Database} {jobId : Uuid} {workerId : WorkerId}
    {f : JobRow → JobRow} (h : db.updateOwned jobId workerId f = .ok after)
    (hkind : ∀ job, (f job).kind = job.kind) (hpayload : ∀ job, (f job).payload = job.payload) :
    Ends db after := by
  obtain ⟨-, rfl⟩ := Database.updateOwned_ok h
  refine ends_updateJobs hkind hpayload fun job howned _ => ?_
  rw [(JobRow.running_of_ownedBy howned).2]
  rfl

theorem ends_cancelJobs (db : Database) (p : JobRow → Bool) : Ends db (db.cancelJobs p) :=
  ends_updateJobs (fun _ => rfl) (fun _ => rfl) fun _ _ hopen => by cases hopen

theorem ends_cancelFamily (db : Database) (now : Time) (parentJobId : Uuid) :
    Ends db (cancelFamily db now parentJobId) :=
  (ends_cancelJobs db _).trans (.of_jobs rfl)

theorem ends_cancelWithParent (db : Database) (now : Time) (jobId : Uuid) (target : CancelTarget)
    (parent : JobRow) : Ends db (cancelWithParent db now jobId target parent).1 := by
  have hparent : Ends db (cancelParent db parent) := by
    unfold cancelParent
    split
    · exact ends_cancelJobs db _
    · exact .refl db
  have hfinal : Ends db (if decide (target.kind ≠ .refreshSource) then
      (cancelParent db parent).cancelJobs (isUnlocked jobId) else cancelParent db parent) := by
    split
    · exact hparent.trans (ends_cancelJobs _ _)
    · exact hparent
  unfold cancelWithParent
  split
  · exact .refl db
  · dsimp only
    split
    · exact hfinal.trans (ends_cancelFamily ..)
    · exact hfinal

theorem ends_cancelUpdate (db : Database) (now : Time) (jobId : Uuid) (target : CancelTarget) :
    Ends db (cancelUpdate db now jobId target).1 := by
  unfold cancelUpdate
  split
  · exact ends_cancelJobs db _
  · split
    · exact ends_cancelJobs db _
    · exact ends_cancelWithParent ..

theorem ends_cancelSourceSync (db : Database) (now : Time) (parentJobId : Uuid) :
    Ends db (cancelSourceSync db now parentJobId).1 := by
  unfold cancelSourceSync
  split
  · exact ((ends_cancelJobs db _).trans (ends_cancelJobs _ _)).trans (.of_jobs rfl)
  · exact .refl db

theorem ends_completeReconciliationParent (db : Database) (parentJobId runId : Uuid) :
    Ends db (completeReconciliationParent db parentJobId runId).1 := by
  unfold completeReconciliationParent
  split
  · exact .refl db
  · split
    · exact ends_updateJobs (fun _ => rfl) (fun _ => rfl) fun _ _ hopen => by cases hopen
    · exact .refl db

theorem ends_failReconciliationParent (db : Database) (now : Time) (parentJobId : Uuid)
    (runId progressRun : Option Uuid) :
    Ends db (failReconciliationParent db now parentJobId runId progressRun).1 := by
  unfold failReconciliationParent
  split
  · exact .refl db
  · split
    · exact .refl db
    · refine Ends.trans (Ends.trans (.of_jobs rfl) ?_) (ends_cancelJobs _ _)
      exact ends_updateJobs (fun _ => rfl) (fun _ => rfl) fun _ _ hopen => by cases hopen

theorem ends_lockActivation (db : Database) (jobId : Uuid) : Ends db (lockActivation db jobId) :=
  ends_updateJobs (fun _ => rfl) (fun _ => rfl) fun _ _ hopen => hopen

theorem ends_finalizes {db after : Database} {now : Time}
    {runId parentJobId finalizerJobId : Uuid} {workerId : Option WorkerId}
    {result : ProviderReconciliationFinalization}
    (h : Finalizes db now runId parentJobId finalizerJobId workerId after result) :
    Ends db after := by
  have hlock : Ends db (lockActivation (lockActivation db parentJobId) finalizerJobId) :=
    (ends_lockActivation db parentJobId).trans (ends_lockActivation _ _)
  cases h with
  | abandoned =>
    refine Ends.trans ?_ (.of_jobs rfl)
    exact ends_updateJobs (fun _ => rfl) (fun _ => rfl) fun _ _ hopen => by cases hopen
  | stopped => exact .refl db
  | again => exact .refl db
  | early => exact .refl db
  | superseded => exact hlock.trans (.of_jobs rfl)
  | published _ _ _ _ _ hpublish =>
    refine hlock.trans (.of_jobs ?_)
    unfold publishRun at hpublish
    obtain ⟨_, -, hpublish⟩ := of_bind hpublish
    rw [← of_pure hpublish]
    rfl

theorem openRefreshes_of_refreshJobs {db after : Database}
    (h : Schedule.refreshJobs after = Schedule.refreshJobs db) :
    openRefreshes after.jobs = openRefreshes db.jobs := by
  have hfilter : ∀ jobs : List JobRow,
      openRefreshes (jobs.filter fun job => job.kind = .refreshSource) = openRefreshes jobs := by
    intro jobs
    rw [openRefreshes, List.filterMap_filter]
    refine List.filterMap_congr fun job _ => ?_
    unfold JobRow.openRefresh
    by_cases hkind : job.kind = .refreshSource <;> simp [hkind]
  rw [← hfilter after.jobs, ← hfilter db.jobs]
  exact congrArg openRefreshes h

theorem ends_deleteSource (db : Database) (now : Time) (sourceId : Uuid) :
    Ends db (deleteSource db now sourceId) :=
  ((ends_cancelJobs db _).trans (ends_cancelJobs _ _)).trans (.of_jobs rfl)

/-! ## Refreshes that open -/

/-- A refresh of the source has opened, and it had none. -/
def Opens (before after : Database) (source : Option Uuid) : Prop :=
  openRefreshes after.jobs = openRefreshes before.jobs ++ source.toList ∧
    ∀ id ∈ source, id ∉ openRefreshes before.jobs

theorem opens_append {db : Database} {job : JobRow}
    (hnew : db.jobs.any job.conflictsWith = false) :
    Opens db { db with jobs := db.jobs ++ [job] } job.openRefresh := by
  refine ⟨?_, fun id hid => not_mem_openRefreshes hnew hid⟩
  simp only [openRefreshes, List.filterMap_append]
  cases hjob : job.openRefresh <;> simp [hjob]

theorem opens_enqueue {db after : Database} {now : Time} {id : Uuid} {new : NewJob}
    (h : enqueue db now id new = .ok after) :
    Opens db after (if new.kind = .refreshSource then new.payload.sourceId else none) := by
  obtain ⟨_, -, h⟩ := of_bind h
  obtain ⟨_, hnew, h⟩ := of_bind h
  obtain rfl := of_pure h
  have hopens := opens_append (of_ensure hnew)
  simp only [JobRow.openRefresh, JobStatus.isOpen, and_true] at hopens
  exact hopens

/-- A statement on the queue ends refreshes, or it opens the one that it is for. -/
theorem queue_step_cases {q t : Queue} {op : QueueOp} (h : q.step op = some t) :
    Ends q.db t.db ∨ Opens q.db t.db (Schedule.newRefresh op) := by
  have hcommit : ∀ {result : Except PersistenceError Database}, q.commit result = some t →
      ∃ db, result = .ok db ∧ t.db = db := by
    intro result hresult
    obtain ⟨db, hdb, rfl⟩ := Option.map_eq_some_iff.mp hresult
    exact ⟨db, of_toOption hdb, rfl⟩
  cases op with
  | enqueue now id new =>
    obtain ⟨db, hdb, hsame⟩ := hcommit h
    rw [hsame]
    exact .inr (opens_enqueue hdb)
  | enqueueSourceRefreshIfIdle now id sourceId =>
    obtain rfl := Option.some.inj h
    simp only [enqueueSourceRefreshIfIdle, Database.insertJob]
    split
    · exact .inl (.refl _)
    · rename_i hnew
      exact .inr (opens_append (Bool.eq_false_iff.mpr hnew))
  | claim now jobId workerId =>
    obtain ⟨db, hdb, h⟩ := Option.bind_eq_some_iff.mp h
    obtain rfl := Option.some.inj h
    obtain ⟨-, hdb⟩ := of_guard hdb
    obtain rfl := Option.some.inj hdb
    refine .inl (ends_updateJobs (fun _ => rfl) (fun _ => rfl) fun job hp _ => ?_)
    rw [(of_decide_eq_true hp).2.1]
    rfl
  | heartbeat now jobId workerId activationLocked progressRun =>
    obtain ⟨db, hdb, hsame⟩ := hcommit h
    exact .inl (hsame ▸ ends_updateOwned hdb (fun _ => rfl) fun _ => rfl)
  | touchHeartbeat now jobId workerId =>
    obtain ⟨db, hdb, hsame⟩ := hcommit h
    exact .inl (hsame ▸ ends_updateOwned hdb (fun _ => rfl) fun _ => rfl)
  | succeed jobId workerId =>
    obtain ⟨db, hdb, hsame⟩ := hcommit h
    exact .inl (hsame ▸ ends_updateOwned hdb (fun _ => rfl) fun _ => rfl)
  | fail index now error =>
    obtain ⟨record, -, h⟩ := Option.bind_eq_some_iff.mp h
    obtain ⟨workerId, -, h⟩ := Option.bind_eq_some_iff.mp h
    obtain ⟨db, hdb, hsame⟩ := hcommit h
    rw [hsame]
    unfold fail at hdb
    split at hdb
    · obtain ⟨delay, -, hdb⟩ := of_bind hdb
      exact .inl (ends_updateOwned hdb (fun _ => rfl) fun _ => rfl)
    · obtain ⟨updated, hupdate, hdb⟩ := of_bind hdb
      obtain rfl := of_pure hdb
      exact .inl ((ends_updateOwned hupdate (fun _ => rfl) fun _ => rfl).trans (.of_jobs rfl))
  | recoverStaleJobs now lease =>
    obtain rfl := Option.some.inj h
    refine .inl (ends_updateJobs (fun _ => rfl) (fun _ => rfl) fun job hp _ => ?_)
    have hrunning : job.status = .running := of_decide_eq_true (Bool.and_eq_true_iff.mp hp).1
    rw [hrunning]
    rfl
  | cancelRead jobId =>
    obtain ⟨target, -, h⟩ := Option.bind_eq_some_iff.mp h
    obtain rfl := Option.some.inj h
    exact .inl (.refl _)
  | cancelUpdate index now =>
    obtain ⟨⟨jobId, target⟩, -, h⟩ := Option.bind_eq_some_iff.mp h
    obtain rfl := Option.some.inj h
    exact .inl (ends_cancelUpdate ..)

/-! ## What a history says -/

/-- The failures of a source since its last success or reset, with the events in order. -/
def streakAfter (id : Uuid) (streak : List Time) : ScheduleEvent → List Time
  | .created source | .reset source => if source = id then [] else streak
  | .failed source time _ => if source = id then streak ++ [time] else streak
  | .refreshed .. | .taken .. => streak

def streak (id : Uuid) (history : List ScheduleEvent) : List Time :=
  history.foldl (streakAfter id) []

def refreshedAfter (id : Uuid) (last : Option Time) : ScheduleEvent → Option Time
  | .created source => if source = id then none else last
  | .refreshed source time => if source = id then some time else last
  | .reset _ | .failed .. | .taken .. => last

def lastRefreshed (id : Uuid) (history : List ScheduleEvent) : Option Time :=
  history.foldl (refreshedAfter id) none

@[simp] theorem streak_append (id : Uuid) (history : List ScheduleEvent) (event : ScheduleEvent) :
    streak id (history ++ [event]) = streakAfter id (streak id history) event := by
  rw [streak, List.foldl_append]
  rfl

@[simp] theorem lastRefreshed_append (id : Uuid) (history : List ScheduleEvent)
    (event : ScheduleEvent) :
    lastRefreshed id (history ++ [event]) = refreshedAfter id (lastRefreshed id history) event := by
  rw [lastRefreshed, List.foldl_append]
  rfl

/-- A row says of its source what the history does. The circuit is open from the last failure on,
if there are enough failures in a row. -/
structure RowFollows (failureThreshold : Int) (history : List ScheduleEvent) (row : SourceRow) :
    Prop where
  failures : row.cbConsecutiveFailures = (streak row.id history).length
  opened : row.cbOpenedAt = if failureThreshold ≤ (streak row.id history).length then
    (streak row.id history).getLast? else none
  refreshed : row.lastRefreshedAt = lastRefreshed row.id history

/-- A source that a cycle may take, with what has happened to it before. -/
structure Taken (failureThreshold cooldownSeconds : Int) (before : List ScheduleEvent)
    (row : SourceRow) (now : Time) : Prop where
  enabled : row.enabled = true
  scheduled : 0 < row.refreshIntervalSeconds
  elapsed : ∀ time ∈ lastRefreshed row.id before, time + row.refreshIntervalSeconds ≤ now
  cooled : failureThreshold ≤ (streak row.id before).length →
    ∀ time ∈ (streak row.id before).getLast?, (time : Int) + cooldownSeconds ≤ now

/-- What an event says of the events before it. -/
def EventOk (failureThreshold cooldownSeconds : Int) (before : List ScheduleEvent) :
    ScheduleEvent → List ScheduleEvent → Prop
  | .taken row now, _ => Taken failureThreshold cooldownSeconds before row now
  | .failed id _ opened, _ =>
    opened = decide (failureThreshold ≤ ((streak id before).length : Int) + 1)
  | .created _, _ | .refreshed .., _ | .reset _, _ => True

section Rows

variable {failureThreshold cooldownSeconds : Int} {history : List ScheduleEvent} {row : SourceRow}
  {now : Time}

theorem RowFollows.taken (h : RowFollows failureThreshold history row)
    (hdue : row.isDue cooldownSeconds now = true) :
    Taken failureThreshold cooldownSeconds history row now := by
  obtain ⟨henabled, hscheduled, helapsed, hcooled⟩ := of_decide_eq_true hdue
  refine ⟨henabled, hscheduled, fun time htime => ?_, fun hopen time htime => ?_⟩
  · rw [h.refreshed, Option.mem_def.mp htime] at helapsed
    exact of_decide_eq_true helapsed
  · rw [h.opened, if_pos hopen, Option.mem_def.mp htime] at hcooled
    exact of_decide_eq_true hcooled

/-- An event about another source, or about a cycle. -/
theorem RowFollows.other (h : RowFollows failureThreshold history row) {event : ScheduleEvent}
    (hstreak : streakAfter row.id (streak row.id history) event = streak row.id history)
    (hrefreshed : refreshedAfter row.id (lastRefreshed row.id history) event =
      lastRefreshed row.id history) :
    RowFollows failureThreshold (history ++ [event]) row := by
  refine ⟨?_, ?_, ?_⟩
  · rw [streak_append, hstreak]
    exact h.failures
  · rw [streak_append, hstreak]
    exact h.opened
  · rw [lastRefreshed_append, hrefreshed]
    exact h.refreshed

/-- The cycle takes sources, and the next one still sees the events of before. -/
theorem follows_taken {rows : List SourceRow}
    (h : ∀ row ∈ rows, Taken failureThreshold cooldownSeconds history row now) :
    History.Follows (EventOk failureThreshold cooldownSeconds) history
      (rows.map fun row => .taken row now) := by
  induction rows generalizing history with
  | nil => exact History.follows_nil _
  | cons row rest ih =>
    refine History.follows_cons (h row List.mem_cons_self) (ih fun other hother => ?_)
    obtain ⟨henabled, hscheduled, helapsed, hcooled⟩ := h other (List.mem_cons_of_mem _ hother)
    refine ⟨henabled, hscheduled, ?_, ?_⟩
    · rw [lastRefreshed_append]
      exact helapsed
    · rw [streak_append]
      exact hcooled

theorem RowFollows.takes (h : RowFollows failureThreshold history row) (rows : List SourceRow)
    (now : Time) :
    RowFollows failureThreshold (history ++ rows.map fun row => .taken row now) row := by
  induction rows generalizing history with
  | nil =>
    rw [List.map_nil, List.append_nil]
    exact h
  | cons other rest ih =>
    rw [List.map_cons, List.append_cons]
    exact ih (h.other rfl rfl)

theorem EventOk.mono (before : List ScheduleEvent) (event : ScheduleEvent)
    (after more : List ScheduleEvent)
    (h : EventOk failureThreshold cooldownSeconds before event after) :
    EventOk failureThreshold cooldownSeconds before event (after ++ more) := by
  cases event <;> exact h

end Rows

/-! ## Steps -/

structure ScheduleOk (failureThreshold cooldownSeconds : Int) (s : Schedule) : Prop where
  single : (openRefreshes s.queue.db.jobs ++ s.pending).Nodup
  ids : (s.sources.rows.map SourceRow.id).Nodup
  rows : ∀ row ∈ s.sources.rows, RowFollows failureThreshold s.history row
  events : History.Follows (EventOk failureThreshold cooldownSeconds) [] s.history
  served : ∀ cycle ∈ s.leader, ∀ id ∈ cycle.found,
    id ∈ cycle.due ∨ id ∈ cycle.met ∨ id ∈ openRefreshes cycle.inserted

theorem rows_update (tables : SourceTables) (id : Uuid) (f : SourceRow → SourceRow) :
    (tables.update id f).rows = Table.update (fun row => row.id = id) f tables.rows := by
  simp [SourceTables.update, SourceTables.rows, Table.update]

theorem rows_insert (tables : SourceTables) (row : SourceRow) (table : SourceTable) :
    (tables.insert row table).rows.Perm (row :: tables.rows) := by
  cases table with
  | providerAccounts =>
    simp only [SourceTables.insert, SourceTables.rows, List.append_assoc, List.singleton_append]
    exact List.perm_middle
  | epgSources =>
    simp only [SourceTables.insert, SourceTables.rows, ← List.append_assoc]
    exact List.perm_append_singleton row _

theorem rows_delete_sublist (tables : SourceTables) (id : Uuid) :
    (tables.delete id).rows.Sublist tables.rows :=
  Table.delete_sublist.append Table.delete_sublist

/-- A pair of statements of which the first that finds a row is the last. -/
theorem updateFirst_cases {tables after : SourceTables} {id : Uuid} {f : SourceRow → SourceRow}
    (h : tables.updateFirst id f = .ok after) (hid : ∀ row, (f row).id = row.id) :
    after.rows.map SourceRow.id = tables.rows.map SourceRow.id ∧
      ∀ row ∈ after.rows, ∃ old ∈ tables.rows, row = old ∨ row = f old := by
  have hupdate : ∀ {rows : List SourceRow} {row : SourceRow},
      row ∈ Table.update (fun row => row.id = id) f rows →
      ∃ old ∈ rows, row = old ∨ row = f old := by
    intro rows row hrow
    rcases Table.update_cases hrow with ⟨hrow, -⟩ | ⟨old, hold, -, rfl⟩
    · exact ⟨row, hrow, .inl rfl⟩
    · exact ⟨old, hold, .inr rfl⟩
  have hsame : ∀ rows : List SourceRow,
      (Table.update (fun row => row.id = id) f rows).map SourceRow.id = rows.map SourceRow.id :=
    fun rows => Table.map_update fun row _ => hid row
  unfold SourceTables.updateFirst at h
  split at h
  · obtain rfl := Except.ok.inj h
    refine ⟨by simp only [SourceTables.rows, List.map_append, hsame], fun row hrow => ?_⟩
    rcases List.mem_append.mp hrow with hrow | hrow
    · obtain ⟨old, hold, hcase⟩ := hupdate hrow
      exact ⟨old, List.mem_append_left _ hold, hcase⟩
    · exact ⟨row, List.mem_append_right _ hrow, .inl rfl⟩
  · split at h
    · obtain rfl := Except.ok.inj h
      refine ⟨by simp only [SourceTables.rows, List.map_append, hsame], fun row hrow => ?_⟩
      rcases List.mem_append.mp hrow with hrow | hrow
      · exact ⟨row, List.mem_append_left _ hrow, .inl rfl⟩
      · obtain ⟨old, hold, hcase⟩ := hupdate hrow
        exact ⟨old, List.mem_append_right _ hold, hcase⟩
    · cases h

section Steps

variable {failureThreshold cooldownSeconds : Int} {s t : Schedule}

namespace ScheduleOk

theorem withQueue (h : ScheduleOk failureThreshold cooldownSeconds s) (queue : Queue)
    (hsingle : (openRefreshes queue.db.jobs ++ s.pending).Nodup) :
    ScheduleOk failureThreshold cooldownSeconds { s with queue } :=
  ⟨hsingle, h.ids, h.rows, h.events, h.served⟩

theorem single_of_ends (h : ScheduleOk failureThreshold cooldownSeconds s) {after : Database}
    (hends : Ends s.queue.db after) : (openRefreshes after.jobs ++ s.pending).Nodup :=
  h.single.sublist (List.Sublist.append hends (List.Sublist.refl _))

theorem single_of_opens (h : ScheduleOk failureThreshold cooldownSeconds s) {after : Database}
    {source : Option Uuid} (hopens : Opens s.queue.db after source)
    (hwaits : s.waitsFor source = false) : (openRefreshes after.jobs ++ s.pending).Nodup := by
  rw [hopens.1]
  cases source with
  | none =>
    rw [Option.toList_none, List.append_nil]
    exact h.single
  | some id =>
    have hpending : id ∉ s.pending := by simpa [Schedule.waitsFor] using hwaits
    rw [Option.toList_some, List.append_assoc, List.singleton_append]
    refine List.nodup_middle.mpr (List.nodup_cons.mpr ⟨?_, h.single⟩)
    rw [List.mem_append, not_or]
    exact ⟨hopens.2 id rfl, hpending⟩

theorem ends (h : ScheduleOk failureThreshold cooldownSeconds s) {after : Database}
    (hends : Ends s.queue.db after) :
    ScheduleOk failureThreshold cooldownSeconds (s.withDb after) :=
  h.withQueue _ (h.single_of_ends hends)

/-- A statement reports an event on the rows of a source. -/
theorem report (h : ScheduleOk failureThreshold cooldownSeconds s) {id : Uuid}
    {f : SourceRow → SourceRow} {event : ScheduleEvent} (hid : ∀ row, (f row).id = row.id)
    (hown : ∀ row ∈ s.sources.rows, row.id = id →
      RowFollows failureThreshold (s.history ++ [event]) (f row))
    (hother : ∀ row, row.id ≠ id → RowFollows failureThreshold s.history row →
      RowFollows failureThreshold (s.history ++ [event]) row)
    (hevent : ∀ row ∈ s.sources.rows, row.id = id →
      EventOk failureThreshold cooldownSeconds s.history event []) :
    ScheduleOk failureThreshold cooldownSeconds
      { s with sources := s.sources.update id f, history := s.log id event } := by
  have hrows : ∀ row ∈ (s.sources.update id f).rows, RowFollows failureThreshold
      (s.log id event) row := by
    intro row hrow
    rw [rows_update] at hrow
    unfold Schedule.log
    rcases Table.update_cases hrow with ⟨hrow, hne⟩ | ⟨old, hold, heq, rfl⟩
    · have hne := of_decide_eq_false hne
      split
      · exact hother row hne (h.rows row hrow)
      · exact h.rows row hrow
    · have heq := of_decide_eq_true heq
      rw [if_pos (List.any_eq_true.mpr ⟨old, hold, decide_eq_true heq⟩)]
      exact hown old hold heq
  refine ⟨h.single, ?_, hrows, ?_, h.served⟩
  · rw [rows_update, Table.map_update fun row _ => hid row]
    exact h.ids
  · unfold Schedule.log
    dsimp only
    split
    · rename_i hany
      obtain ⟨row, hrow, heq⟩ := List.any_eq_true.mp hany
      refine h.events.append EventOk.mono (History.follows_cons ?_ (History.follows_nil _))
      exact hevent row hrow (of_decide_eq_true heq)
    · exact h.events

/-- A statement writes columns that the history does not tell of. -/
theorem configure (h : ScheduleOk failureThreshold cooldownSeconds s) {sources : SourceTables}
    {id : Uuid} {f : SourceRow → SourceRow} (hupdate : s.sources.updateFirst id f = .ok sources)
    (hid : ∀ row, (f row).id = row.id)
    (hf : ∀ row, RowFollows failureThreshold s.history row →
      RowFollows failureThreshold s.history (f row)) :
    ScheduleOk failureThreshold cooldownSeconds { s with sources } := by
  obtain ⟨hids, hrows⟩ := updateFirst_cases hupdate hid
  refine ⟨h.single, ?_, fun row hrow => ?_, h.events, h.served⟩
  · rw [hids]
    exact h.ids
  · obtain ⟨old, hold, rfl | rfl⟩ := hrows row hrow
    · exact h.rows _ hold
    · exact hf old (h.rows old hold)

theorem markSourceRefreshed (h : ScheduleOk failureThreshold cooldownSeconds s) (id : Uuid)
    (refreshedAt : Time) :
    ScheduleOk failureThreshold cooldownSeconds { s with
      sources := s.sources.markSourceRefreshed id refreshedAt
      history := s.log id (.refreshed id refreshedAt) } := by
  refine h.report (fun _ => rfl) (fun row hrow hid => ?_) (fun row hne hrow => ?_)
    fun _ _ _ => trivial
  · obtain ⟨hfailures, hopened, -⟩ := h.rows row hrow
    refine ⟨?_, ?_, ?_⟩
    · rw [streak_append]
      exact hfailures
    · rw [streak_append]
      exact hopened
    · simp [refreshedAfter, hid]
  · exact hrow.other rfl (if_neg (Ne.symm hne))

/-- `record_refresh_success` and `reset_circuit_breaker` write the same. -/
theorem reset (h : ScheduleOk failureThreshold cooldownSeconds s) (id : Uuid) :
    ScheduleOk failureThreshold cooldownSeconds { s with
      sources := s.sources.recordRefreshSuccess id
      history := s.log id (.reset id) } := by
  refine h.report (fun _ => rfl) (fun row hrow hid => ?_) (fun row hne hrow => ?_)
    fun _ _ _ => trivial
  · refine ⟨?_, ?_, ?_⟩
    · simp [streakAfter, hid]
    · simp [streakAfter, hid]
    · rw [lastRefreshed_append]
      exact (h.rows row hrow).refreshed
  · exact hrow.other (if_neg (Ne.symm hne)) rfl

theorem recordRefreshFailure (h : ScheduleOk failureThreshold cooldownSeconds s) {id : Uuid}
    {now : Time} {sources : SourceTables} {opened : Bool}
    (hfailure : s.sources.recordRefreshFailure failureThreshold now id = .ok (sources, opened)) :
    ScheduleOk failureThreshold cooldownSeconds
      { s with sources, history := s.log id (.failed id now opened) } := by
  obtain ⟨_, -, hfailure⟩ := of_bind hfailure
  obtain ⟨rfl, hopened⟩ := Prod.mk.inj (of_pure hfailure)
  refine h.report (fun _ => rfl) (fun row hrow hid => ?_) (fun row hne hrow => ?_)
    fun row hrow hid => ?_
  · obtain ⟨hfailures, hcircuit, hrefreshed⟩ := h.rows row hrow
    have hstreak : streak row.id (s.history ++ [.failed id now opened]) =
        streak row.id s.history ++ [now] := by
      rw [streak_append]
      exact if_pos hid.symm
    refine ⟨?_, ?_, ?_⟩
    · rw [SourceRow.countFailure_id, hstreak, SourceRow.countFailure, hfailures, List.length_append]
      rfl
    · rw [SourceRow.countFailure_id, hstreak, SourceRow.countFailure, hfailures, hcircuit,
        List.length_append, List.length_singleton, List.getLast?_append,
        List.getLast?_singleton, Option.some_or]
      split
      · rw [if_pos (by omega)]
      · rw [if_neg (by omega), if_neg (by omega)]
    · rw [lastRefreshed_append]
      exact hrefreshed
  · exact hrow.other (if_neg (Ne.symm hne)) rfl
  · have hfind : (s.sources.update id (SourceRow.countFailure failureThreshold now)).rows.find?
        (fun row => row.id = id) = some (row.countFailure failureThreshold now) := by
      rw [rows_update, Table.find?_update (f := SourceRow.countFailure failureThreshold now)
        fun _ _ => rfl, ← hid, Table.find?_of_key h.ids hrow]
      simp
    rw [hfind] at hopened
    simp only [Option.map_some, Option.getD_some, SourceRow.countFailure,
      (h.rows row hrow).failures, hid] at hopened
    exact hopened.symm

theorem createSource (h : ScheduleOk failureThreshold cooldownSeconds s) {table : SourceTable}
    {now : Time} {id jobId : Uuid} (hstep : s.createSource table now id jobId = some t) :
    ScheduleOk failureThreshold cooldownSeconds t := by
  obtain ⟨hfresh, hstep⟩ := of_guard hstep
  obtain ⟨hwaits, hstep⟩ := of_guard hstep
  obtain ⟨db, hdb, hstep⟩ := Option.bind_eq_some_iff.mp hstep
  obtain rfl := Option.some.inj hstep
  have hopens := opens_enqueue (of_toOption hdb)
  have hperm := rows_insert s.sources { id } table
  refine ⟨h.single_of_opens hopens hwaits, ?_, fun row hrow => ?_, ?_, h.served⟩
  · refine (hperm.map SourceRow.id).nodup_iff.mpr (List.nodup_cons.mpr ⟨hfresh, h.ids⟩)
  · rcases List.mem_cons.mp (hperm.mem_iff.mp hrow) with rfl | hrow
    · refine ⟨?_, ?_, ?_⟩
      · simp [streakAfter]
      · simp [streakAfter]
      · simp [refreshedAfter]
    · have hne : id ≠ row.id := fun heq => hfresh (heq ▸ List.mem_map_of_mem hrow)
      exact (h.rows row hrow).other (if_neg hne) (if_neg hne)
  · exact h.events.append EventOk.mono (History.follows_cons trivial (History.follows_nil _))

theorem deleteSource (h : ScheduleOk failureThreshold cooldownSeconds s) (now : Time) (id : Uuid) :
    ScheduleOk failureThreshold cooldownSeconds { s.withDb (deleteSource s.queue.db now id) with
      sources := s.sources.delete id } := by
  have hsublist := rows_delete_sublist s.sources id
  exact ⟨h.single_of_ends (ends_deleteSource ..), h.ids.sublist (hsublist.map _),
    fun row hrow => h.rows row (hsublist.subset hrow), h.events, h.served⟩

/-! ### The steps of a cycle -/

theorem select (h : ScheduleOk failureThreshold cooldownSeconds s)
    (hstep : s.step failureThreshold cooldownSeconds .select = some t) :
    ScheduleOk failureThreshold cooldownSeconds t := by
  obtain ⟨cycle, hcycle, hstep⟩ := Option.bind_eq_some_iff.mp hstep
  obtain ⟨-, hstep⟩ := of_guard hstep
  obtain rfl := Option.some.inj hstep
  have hdue : ∀ row ∈ s.sources.dueSources cooldownSeconds cycle.now,
      row ∈ s.sources.rows ∧ row.isDue cooldownSeconds cycle.now = true := fun row hrow =>
    List.mem_filter.mp ((List.mergeSort_perm _ _).mem_iff.mp hrow)
  refine ⟨?_, h.ids, fun row hrow => (h.rows row hrow).takes _ _, ?_, ?_⟩
  · have hsingle := h.single
    simp only [Schedule.pending, hcycle, Option.map_some] at hsingle
    exact hsingle
  · refine h.events.append EventOk.mono (follows_taken fun row hrow => ?_)
    obtain ⟨hrow, hdue⟩ := hdue row hrow
    exact (h.rows row hrow).taken hdue
  · rintro next hnext id hid
    obtain rfl := Option.some.inj hnext
    exact .inl hid

theorem insertDue (h : ScheduleOk failureThreshold cooldownSeconds s) {cycle next : Cycle}
    (hcycle : s.leader = some cycle) {jobId : Uuid} (hnext : s.insertDue cycle jobId = some next) :
    ScheduleOk failureThreshold cooldownSeconds { s with leader := some next } := by
  have hsingle := h.single
  have hserved := h.served cycle hcycle
  simp only [Schedule.pending, hcycle, Option.map_some, Option.getD_some] at hsingle
  have hall : ∀ jobs, openRefreshes (s.queue.db.jobs ++ jobs) =
      openRefreshes s.queue.db.jobs ++ openRefreshes jobs := fun jobs => List.filterMap_append
  unfold Schedule.insertDue at hnext
  split at hnext
  · cases hnext
  · rename_i sourceId due hdue
    rw [hdue] at hserved
    simp only at hnext
    split at hnext
    · cases hnext
    · split at hnext
      · obtain rfl := Option.some.inj hnext
        refine ⟨hsingle, h.ids, h.rows, h.events, fun other hother id hid => ?_⟩
        obtain rfl := Option.some.inj hother
        rcases hserved id hid with hid | hid | hid
        · rcases List.mem_cons.mp hid with rfl | hid
          · exact .inr (.inl (List.mem_append_right _ List.mem_cons_self))
          · exact .inl hid
        · exact .inr (.inl (List.mem_append_left _ hid))
        · exact .inr (.inr hid)
      · rename_i hnew
        obtain rfl := Option.some.inj hnext
        have hinserted : openRefreshes (cycle.inserted ++
            [Schedule.refreshJob cycle.now jobId sourceId]) =
            openRefreshes cycle.inserted ++ [sourceId] := List.filterMap_append
        refine ⟨?_, h.ids, h.rows, h.events, fun other hother id hid => ?_⟩
        · simp only [Schedule.pending, Option.map_some, Option.getD_some, hinserted,
            ← List.append_assoc]
          rw [hall] at hnew
          exact List.nodup_append_comm.mp (List.nodup_cons.mpr ⟨hnew, hsingle⟩)
        · obtain rfl := Option.some.inj hother
          simp only [hinserted, List.mem_append, List.mem_singleton]
          rcases hserved id hid with hid | hid | hid
          · rcases List.mem_cons.mp hid with rfl | hid
            · exact .inr (.inr (.inr rfl))
            · exact .inl hid
          · exact .inr (.inl hid)
          · exact .inr (.inr (.inl hid))

/-- A cycle ends with its jobs, or without them. -/
theorem endCycle (h : ScheduleOk failureThreshold cooldownSeconds s) {queue : Queue}
    (hsingle : (openRefreshes queue.db.jobs).Nodup) :
    ScheduleOk failureThreshold cooldownSeconds { s with queue, leader := none } := by
  refine ⟨?_, h.ids, h.rows, h.events, by simp⟩
  rw [Schedule.pending, Option.map_none, Option.getD_none, List.append_nil]
  exact hsingle

theorem commit_db (h : ScheduleOk failureThreshold cooldownSeconds s) {cycle : Cycle}
    (hcycle : s.leader = some cycle) :
    (openRefreshes (s.queue.db.jobs ++ cycle.inserted)).Nodup := by
  have hsingle := h.single
  simp only [Schedule.pending, hcycle, Option.map_some, Option.getD_some] at hsingle
  rw [openRefreshes, List.filterMap_append]
  exact hsingle

end ScheduleOk

theorem scheduleOk_step (h : ScheduleOk failureThreshold cooldownSeconds s) {op : ScheduleOp}
    (hstep : s.step failureThreshold cooldownSeconds op = some t) :
    ScheduleOk failureThreshold cooldownSeconds t := by
  cases op with
  | queue op =>
    obtain ⟨hwaits, hstep⟩ := of_guard hstep
    obtain ⟨queue, hqueue, hstep⟩ := Option.bind_eq_some_iff.mp hstep
    obtain rfl := Option.some.inj hstep
    rcases queue_step_cases hqueue with hends | hopens
    · exact h.withQueue _ (h.single_of_ends hends)
    · exact h.withQueue _ (h.single_of_opens hopens hwaits)
  | heartbeatParent now parentJobId progressRun =>
    obtain rfl := Option.some.inj hstep
    exact h.ends (ends_updateJobs (fun _ => rfl) (fun _ => rfl) fun _ _ hopen => hopen)
  | completeParent parentJobId runId =>
    obtain rfl := Option.some.inj hstep
    exact h.ends (ends_completeReconciliationParent ..)
  | failParent now parentJobId runId progressRun =>
    obtain rfl := Option.some.inj hstep
    exact h.ends (ends_failReconciliationParent ..)
  | cancelSourceSync now parentJobId =>
    obtain rfl := Option.some.inj hstep
    exact h.ends (ends_cancelSourceSync ..)
  | beginActivation now jobId workerId =>
    obtain ⟨db, hdb, rfl⟩ := Option.map_eq_some_iff.mp hstep
    exact h.ends (ends_updateOwned (of_toOption hdb) (fun _ => rfl) fun _ => rfl)
  | finalize now runId parentJobId finalizerJobId workerId channelsOk =>
    obtain rfl := Option.some.inj hstep
    refine h.ends ?_
    cases hbody : finalizeReconciliation s.queue.db now runId parentJobId finalizerJobId workerId
        channelsOk with
    | error error =>
      rw [finalizeProviderReconciliation, hbody]
      exact .refl s.queue.db
    | ok pair =>
      rw [finalizeProviderReconciliation, hbody]
      exact ends_finalizes (finalizeReconciliation_cases hbody)
  | elsewhere db =>
    obtain ⟨⟨hjobs, -⟩, hstep⟩ := of_guard hstep
    obtain rfl := Option.some.inj hstep
    refine h.ends ?_
    rw [Ends, openRefreshes_of_refreshJobs hjobs]
  | replay now letter jobId =>
    obtain ⟨record, -, hstep⟩ := Option.bind_eq_some_iff.mp hstep
    obtain ⟨-, hstep⟩ := of_guard hstep
    obtain ⟨hwaits, hstep⟩ := of_guard hstep
    obtain ⟨db, hdb, hstep⟩ := Option.bind_eq_some_iff.mp hstep
    obtain rfl := Option.some.inj hstep
    have hnext := h.withQueue { s.queue with db }
      (h.single_of_opens (opens_enqueue (of_toOption hdb)) hwaits)
    exact ⟨hnext.single, hnext.ids, hnext.rows, hnext.events, hnext.served⟩
  | close letter resolution =>
    obtain ⟨-, hstep⟩ := of_guard hstep
    obtain ⟨-, hstep⟩ := of_guard hstep
    obtain rfl := Option.some.inj hstep
    exact ⟨h.single, h.ids, h.rows, h.events, h.served⟩
  | create table now id jobId => exact h.createSource hstep
  | delete now id =>
    obtain ⟨-, hstep⟩ := of_guard hstep
    obtain rfl := Option.some.inj hstep
    exact h.deleteSource now id
  | updateRefreshInterval id intervalSeconds =>
    obtain ⟨sources, hsources, rfl⟩ := Option.map_eq_some_iff.mp hstep
    obtain ⟨_, -, hsources⟩ := of_bind (of_toOption hsources)
    exact h.configure hsources (fun _ => rfl) fun row hrow =>
      ⟨hrow.failures, hrow.opened, hrow.refreshed⟩
  | updateSource id enabled =>
    obtain ⟨sources, hsources, rfl⟩ := Option.map_eq_some_iff.mp hstep
    exact h.configure (of_toOption hsources) (fun _ => rfl) fun row hrow =>
      ⟨hrow.failures, hrow.opened, hrow.refreshed⟩
  | markSourceRefreshed id refreshedAt =>
    obtain rfl := Option.some.inj hstep
    exact h.markSourceRefreshed id refreshedAt
  | recordRefreshSuccess id =>
    obtain rfl := Option.some.inj hstep
    exact h.reset id
  | recordRefreshFailure now id =>
    obtain ⟨⟨sources, opened⟩, hfailure, rfl⟩ := Option.map_eq_some_iff.mp hstep
    exact h.recordRefreshFailure (of_toOption hfailure)
  | resetCircuitBreaker id =>
    obtain rfl := Option.some.inj hstep
    exact h.reset id
  | begin now =>
    simp only [Schedule.step] at hstep
    split at hstep
    · rename_i hnone
      obtain rfl := Option.some.inj hstep
      refine ⟨?_, h.ids, h.rows, h.events, fun cycle hcycle id hid => ?_⟩
      · have hsingle := h.single
        rw [Schedule.pending, Option.isNone_iff_eq_none.mp hnone] at hsingle
        exact hsingle
      · obtain rfl := Option.some.inj hcycle
        cases hid
    · cases hstep
  | select => exact h.select hstep
  | insert jobId =>
    obtain ⟨cycle, hcycle, hstep⟩ := Option.bind_eq_some_iff.mp hstep
    obtain ⟨next, hnext, hstep⟩ := Option.bind_eq_some_iff.mp hstep
    obtain rfl := Option.some.inj hstep
    exact h.insertDue hcycle hnext
  | commit =>
    obtain ⟨cycle, hcycle, hstep⟩ := Option.bind_eq_some_iff.mp hstep
    obtain ⟨-, hstep⟩ := of_guard hstep
    obtain rfl := Option.some.inj hstep
    exact h.endCycle (h.commit_db hcycle)
  | rollback =>
    obtain rfl := Option.some.inj hstep
    exact h.endCycle (List.nodup_append.mp h.single).1

theorem scheduleOk_of_reachable
    (h : (scheduleMachine failureThreshold cooldownSeconds).Reachable s) :
    ScheduleOk failureThreshold cooldownSeconds s := by
  refine h.invariant (I := ScheduleOk failureThreshold cooldownSeconds) ?_
    fun _ _ _ hs _ hstep => scheduleOk_step hs hstep
  exact ⟨List.nodup_nil, List.nodup_nil, by simp [scheduleMachine, SourceTables.rows],
    History.follows_nil _, by simp [scheduleMachine]⟩

end Steps

/-- In every interleaving of scheduler cycles, workers, cancellations, replayed dead letters and
changes of sources: a source has at most one open refresh, also with the jobs that a running cycle
has inserted. The counter and the circuit of a source are those of its failures since its last
success or reset, and a report says whether it leaves the circuit open. A cycle takes a source only
if it is enabled and scheduled, its interval has passed since the last refresh, and the cooldown
since the last failure if there were enough of them in a row. And behind the commit of a cycle,
every source that it has found due has an open refresh, or had one at its turn. -/
theorem refresh_schedule (failureThreshold cooldownSeconds : Int) (s : Schedule)
    (h : (scheduleMachine failureThreshold cooldownSeconds).Reachable s) :
    (openRefreshes s.queue.db.jobs ++ s.pending).Nodup ∧
    (∀ row ∈ s.sources.rows, RowFollows failureThreshold s.history row) ∧
    (∀ before id now opened after, s.history = before ++ .failed id now opened :: after →
      (opened = true ↔ failureThreshold ≤ ((streak id before).length : Int) + 1)) ∧
    (∀ before row now after, s.history = before ++ .taken row now :: after →
      Taken failureThreshold cooldownSeconds before row now) ∧
    ∀ cycle ∈ s.leader, ∀ t, s.step failureThreshold cooldownSeconds .commit = some t →
      ∀ id ∈ cycle.found, id ∈ openRefreshes t.queue.db.jobs ∨ id ∈ cycle.met := by
  have hok := scheduleOk_of_reachable h
  refine ⟨hok.single, hok.rows, ?_, ?_, ?_⟩
  · intro before id now opened after hsplit
    have hevent := hok.events before _ after hsplit
    rw [List.nil_append] at hevent
    rw [show opened = decide _ from hevent, decide_eq_true_iff]
  · intro before row now after hsplit
    exact hok.events before _ after hsplit
  · intro cycle hcycle t hstep id hid
    obtain ⟨other, hother, hstep⟩ := Option.bind_eq_some_iff.mp hstep
    obtain rfl := Option.some.inj (hother.symm.trans hcycle)
    obtain ⟨⟨-, hdone⟩, hstep⟩ := of_guard hstep
    obtain rfl := Option.some.inj hstep
    rcases hok.served other hother id hid with hdue | hmet | hinserted
    · rw [hdone] at hdue
      cases hdue
    · exact .inr hmet
    · refine .inl ?_
      simp only [Schedule.withDb, openRefreshes, List.filterMap_append]
      exact List.mem_append_right _ hinserted

/-- A source fails twice, is passed over while its circuit is open, and is taken behind it. -/
def brokenSourceRun : List ScheduleOp :=
  [.create .providerAccounts 0 1 10, .updateRefreshInterval 1 60, .queue (.claim 0 10 "worker"),
    .queue (.succeed 10 "worker"), .markSourceRefreshed 1 5, .recordRefreshSuccess 1,
    .recordRefreshFailure 100 1, .recordRefreshFailure 200 1, .begin 1000, .select, .commit,
    .begin 1100, .select, .insert 11]

def brokenSource : SourceRow where
  id := 1
  refreshIntervalSeconds := 60
  lastRefreshedAt := some 5
  cbConsecutiveFailures := 2
  cbOpenedAt := some 200

theorem refresh_schedule_cooled : ∃ s : Schedule, s.pending = [1] ∧
    brokenSource ∈ s.sources.rows ∧ RowFollows 2 s.history brokenSource ∧
    (∃ before, Taken 2 900 before brokenSource 1100 ∧ streak 1 before = [100, 200]) ∧
    ∀ t, s.step 2 900 .commit = some t → 1 ∈ openRefreshes t.queue.db.jobs := by
  let failures : List ScheduleEvent :=
    [.created 1, .refreshed 1 5, .reset 1, .failed 1 100 false, .failed 1 200 true]
  obtain ⟨s, hreach, hs⟩ := (scheduleMachine 2 900).exists_reachable_of_run brokenSourceRun
    (fun s => s.history = failures ++ [.taken brokenSource 1100] ∧
      s.sources.rows = [brokenSource] ∧ s.pending = [1] ∧
      ∃ cycle ∈ s.leader, cycle.found = [1] ∧ cycle.met = []) (by decide +kernel)
  obtain ⟨hhistory, hrows, hpending, cycle, hcycle, hfound, hmet⟩ := of_decide_eq_true hs
  obtain ⟨-, hfollows, -, htaken, hserved⟩ := refresh_schedule 2 900 s hreach
  have hmem : brokenSource ∈ s.sources.rows := hrows ▸ List.mem_cons_self
  refine ⟨s, hpending, hmem, hfollows _ hmem, ⟨failures, htaken _ _ _ [] hhistory, rfl⟩, ?_⟩
  intro t hstep
  refine (hserved cycle hcycle t hstep 1 (hfound ▸ List.mem_cons_self)).resolve_right ?_
  rw [hmet]
  exact List.not_mem_nil

end IptvRelay.Store
