import IptvRelay.Store.Reconciliation

/-!
# What the calls of a reconciliation do

One case for every way in which a preparation, a partition or a finalizer can return, with
the checks that have passed on the way.
-/

namespace IptvRelay.Store

open Checked

/-! ## Intents -/

/-- Queued intents are the only change. -/
theorem foldl_insertIntent_tables {α : Type} (intent : α → IntentRow) (items : List α)
    (db : Database) :
    items.foldl (fun db item => db.insertIntent (intent item)) db =
      { db with
        outbox := (items.foldl (fun db item => db.insertIntent (intent item)) db).outbox } := by
  induction items generalizing db with
  | nil => rfl
  | cons item items ih =>
    rw [List.foldl_cons, ih]
    exact congrArg
      (fun before : Database => { before with
        outbox := (items.foldl (fun (db : Database) item => db.insertIntent (intent item))
          (db.insertIntent (intent item))).outbox }) (db.insertIntent_tables (intent item))

theorem queueReconciliation_tables (db : Database) (now : Time) (fresh : Nat → Uuid)
    (run : RunRow) :
    queueReconciliation db now fresh run =
      { db with outbox := (queueReconciliation db now fresh run).outbox } := by
  unfold queueReconciliation
  split
  · rfl
  · exact foldl_insertIntent_tables ..

/-! ## Lookups -/

theorem Database.run_updateRuns (db : Database) (p : RunRow → Bool) {f : RunRow → RunRow}
    (hid : ∀ row, (f row).id = row.id) (id : Uuid) :
    (db.updateRuns p f).run id = (db.run id).map fun row => if p row then f row else row :=
  Table.find?_update fun row _ => by rw [hid]

theorem Database.run_of_mem {db : Database} (h : (db.runs.map RunRow.id).Nodup) {run : RunRow}
    (hrun : run ∈ db.runs) : db.run run.id = some run :=
  Table.find?_of_key h hrun

/-! ## Preparation -/

theorem Database.mem_of_latestRun {db : Database} {snapshotId : Uuid} {run : RunRow}
    (h : db.latestRun snapshotId = some run) : run ∈ db.runs ∧ run.snapshot = snapshotId := by
  have hmem : run ∈ db.runs.filter fun row => row.snapshot = snapshotId := by
    unfold Database.latestRun at h
    generalize db.runs.filter (fun row => decide (row.snapshot = snapshotId)) = rows at h
    induction rows generalizing run with
    | nil => cases h
    | cons row rows ih =>
      rw [List.foldr_cons] at h
      split at h
      · cases h
        exact List.mem_cons_self
      · rename_i other hother
        split_ifs at h
        · cases h
          exact List.mem_cons_self
        · cases h
          exact List.mem_cons_of_mem _ (ih hother)
  simpa using hmem

/-- The ways to prepare a run. -/
inductive Prepares (hash : String → Int) (db : Database) (now : Time) (fresh : Nat → Uuid)
    (snapshotId parentJobId : Uuid) (partitionCount : Nat) (snapshot : SnapshotRow) :
    Database → Preparation → Prop where
  | alreadyActive : snapshot.status = .active →
      Prepares hash db now fresh snapshotId parentJobId partitionCount snapshot db .alreadyActive
  | loaded {run : RunRow} : snapshot.status = .staging → snapshot.stagedAt.isSome →
      db.latestRun snapshotId = some run → run.status = .processing →
      Prepares hash db now fresh snapshotId parentJobId partitionCount snapshot
        (queueReconciliation db now fresh run) (.prepared run)
  | rebuilt {run : RunRow} {after : Database} {result : Preparation} :
      snapshot.status = .staging → snapshot.stagedAt.isSome →
      db.latestRun snapshotId = some run → run.status ≠ .processing → run.status ≠ .cancelled →
      rebuildRun db now fresh run parentJobId = .ok (after, result) →
      Prepares hash db now fresh snapshotId parentJobId partitionCount snapshot after result
  | rejected : snapshot.status = .staging → snapshot.stagedAt.isSome →
      (∀ run, db.latestRun snapshotId = some run → run.status = .cancelled) →
      (db.canonicalKeys snapshotId).length = 0 →
      Prepares hash db now fresh snapshotId parentJobId partitionCount snapshot
        (rejectStaged db snapshotId) .noSupportedChannels
  | created {after : Database} {result : Preparation} :
      snapshot.status = .staging → snapshot.stagedAt.isSome →
      (∀ run, db.latestRun snapshotId = some run → run.status = .cancelled) →
      (db.canonicalKeys snapshotId).length ≠ 0 →
      insertRun db hash now fresh snapshot.owner.id snapshotId parentJobId partitionCount =
        .ok (after, result) →
      Prepares hash db now fresh snapshotId parentJobId partitionCount snapshot after result

theorem prepares_createRun {hash : String → Int} {db after : Database} {now : Time}
    {fresh : Nat → Uuid} {snapshotId parentJobId : Uuid} {partitionCount : Nat}
    {snapshot : SnapshotRow} {result : Preparation} (hstaging : snapshot.status = .staging)
    (hstaged : snapshot.stagedAt.isSome)
    (hruns : ∀ run, db.latestRun snapshotId = some run → run.status = .cancelled)
    (h : createRun db hash now fresh snapshot.owner.id snapshotId parentJobId partitionCount =
      .ok (after, result)) :
    Prepares hash db now fresh snapshotId parentJobId partitionCount snapshot after result := by
  unfold createRun at h
  split_ifs at h with hkeys
  · cases h
    exact .rejected hstaging hstaged hruns hkeys
  · exact .created hstaging hstaged hruns hkeys h

theorem prepareReconciliation_cases {hash : String → Int} {db after : Database} {now : Time}
    {fresh : Nat → Uuid} {snapshotId parentJobId : Uuid} {requestedPartitions : Int}
    {result : Preparation}
    (h : prepareReconciliation hash db now fresh snapshotId parentJobId requestedPartitions =
      .ok (after, result)) :
    ∃ snapshot, db.snapshot snapshotId = some snapshot ∧
      (snapshot.kind = .m3u ∨ snapshot.kind = .xtream) ∧
      Prepares hash db now fresh snapshotId parentJobId
        (max 1 (min requestedPartitions 64)).toNat snapshot after result := by
  unfold prepareReconciliation at h
  split at h
  · cases h
  rename_i snapshot hfound
  obtain ⟨_, hkind, h⟩ := of_bind h
  refine ⟨snapshot, hfound, of_ensure hkind, ?_⟩
  split_ifs at h with hactive
  · obtain ⟨rfl, rfl⟩ := Prod.mk.inj (of_pure h)
    exact .alreadyActive hactive
  obtain ⟨_, hready, h⟩ := of_bind h
  obtain ⟨hstaging, hstaged⟩ := of_ensure hready
  split at h
  · rename_i hnone
    exact prepares_createRun hstaging hstaged (by simp [hnone]) h
  · rename_i run hrun
    split at h
    · rename_i hstatus
      exact prepares_createRun hstaging hstaged (by simpa [hrun] using hstatus) h
    · rename_i hstatus
      obtain ⟨rfl, rfl⟩ := Prod.mk.inj (of_pure h)
      exact .loaded hstaging hstaged hrun hstatus
    all_goals
      rename_i hstatus
      exact .rebuilt hstaging hstaged hrun (by simp [hstatus]) (by simp [hstatus]) h

/-- The run that a preparation returns, and the tables that it leaves alone. -/
structure Prepared (db : Database) (snapshotId : Uuid) (run : RunRow) (after : Database) :
    Prop where
  snapshots : after.snapshots = db.snapshots
  streams : after.streams = db.streams
  jobs : after.jobs = db.jobs
  found : (db.runs.map RunRow.id).Nodup → after.run run.id = some run
  ids : (db.runs.map RunRow.id).Nodup → (after.runs.map RunRow.id).Nodup
  snapshot : run.snapshot = snapshotId
  status : run.status = .processing

theorem rebuildRun_ok {db after : Database} {now : Time} {fresh : Nat → Uuid} {run : RunRow}
    {snapshotId parentJobId : Uuid} {result : Preparation}
    (hrun : db.latestRun snapshotId = some run)
    (h : rebuildRun db now fresh run parentJobId = .ok (after, result)) :
    result = .prepared (run.restart parentJobId now) ∧
      Prepared db snapshotId (run.restart parentJobId now) after := by
  obtain ⟨hmem, hsnapshot⟩ := Database.mem_of_latestRun hrun
  unfold rebuildRun at h
  obtain ⟨-, -, h⟩ := of_bind h
  obtain ⟨rfl, rfl⟩ := Prod.mk.inj (of_pure h)
  generalize hqueued : queueReconciliation _ now fresh _ = queued
  rw [queueReconciliation_tables] at hqueued
  subst hqueued
  refine ⟨rfl, rfl, rfl, rfl, fun hids => ?_, fun hids => ?_, hsnapshot, rfl⟩
  · have hfound := Database.run_updateRuns db (fun row => row.id = run.id)
      (fun row => (rfl : (row.restart parentJobId now).id = row.id)) run.id
    rw [Database.run_of_mem hids hmem, Option.map_some, if_pos (decide_eq_true rfl)] at hfound
    exact hfound
  · exact Table.nodup_update (fun _ _ => rfl) hids

theorem insertRun_ok {db after : Database} {hash : String → Int} {now : Time} {fresh : Nat → Uuid}
    {account snapshotId parentJobId : Uuid} {partitionCount : Nat} {result : Preparation}
    (h : insertRun db hash now fresh account snapshotId parentJobId partitionCount =
      .ok (after, result)) :
    ∃ run, result = .prepared run ∧ run.account = account ∧ run.parent = some parentJobId ∧
      run.partitionCount = partitionCount ∧ Prepared db snapshotId run after := by
  unfold insertRun at h
  obtain ⟨-, -, h⟩ := of_bind h
  obtain ⟨_, hnew, h⟩ := of_bind h
  have hnew := of_ensure hnew
  obtain ⟨rfl, rfl⟩ := Prod.mk.inj (of_pure h)
  refine ⟨_, rfl, rfl, rfl, rfl, ?_⟩
  generalize hqueued : queueReconciliation _ now _ _ = queued
  rw [queueReconciliation_tables] at hqueued
  subst hqueued
  refine ⟨rfl, rfl, rfl, fun _ => ?_, fun hids => ?_, rfl, rfl⟩
  · simp only [Database.run]
    rw [List.find?_append, List.find?_eq_none.mpr (by simpa using hnew)]
    simp
  · simp only [List.map_append, List.map_cons, List.map_nil]
    refine List.nodup_append.mpr ⟨hids, by simp, ?_⟩
    rintro id hid other hother rfl
    obtain ⟨row, hrow, rfl⟩ := List.mem_map.mp hid
    exact hnew row hrow (List.mem_singleton.mp hother)

theorem loadRun_ok {db : Database} {now : Time} {fresh : Nat → Uuid} {run : RunRow}
    {snapshotId : Uuid} (hrun : db.latestRun snapshotId = some run)
    (hstatus : run.status = .processing) :
    Prepared db snapshotId run (queueReconciliation db now fresh run) := by
  obtain ⟨hmem, hsnapshot⟩ := Database.mem_of_latestRun hrun
  rw [queueReconciliation_tables]
  exact ⟨rfl, rfl, rfl, fun hids => Database.run_of_mem hids hmem, fun hids => hids, hsnapshot,
    hstatus⟩

/-- What a preparation says about the database that it leaves. -/
def Preparation.Holds (snapshotId : Uuid) (snapshot : SnapshotRow) (db after : Database) :
    Preparation → Prop
  | .alreadyActive => snapshot.status = .active ∧ after = db
  | .prepared run => snapshot.status = .staging ∧ Prepared db snapshotId run after
  | .noSupportedChannels => snapshot.status = .staging ∧ after = rejectStaged db snapshotId

theorem Prepares.holds {hash : String → Int} {db after : Database} {now : Time}
    {fresh : Nat → Uuid} {snapshotId parentJobId : Uuid} {partitionCount : Nat}
    {snapshot : SnapshotRow} {result : Preparation}
    (h : Prepares hash db now fresh snapshotId parentJobId partitionCount snapshot after result) :
    result.Holds snapshotId snapshot db after := by
  cases h with
  | alreadyActive hactive => exact ⟨hactive, rfl⟩
  | loaded hstaging _ hrun hstatus => exact ⟨hstaging, loadRun_ok hrun hstatus⟩
  | rebuilt hstaging _ hrun _ _ hrebuild =>
    obtain ⟨rfl, hprepared⟩ := rebuildRun_ok hrun hrebuild
    exact ⟨hstaging, hprepared⟩
  | rejected hstaging => exact ⟨hstaging, rfl⟩
  | created hstaging _ _ _ hinsert =>
    obtain ⟨run, rfl, -, -, -, hprepared⟩ := insertRun_ok hinsert
    exact ⟨hstaging, hprepared⟩

/-! ## Partitions -/

/-- The columns of a run that its partitions keep. -/
def RunRow.fixed (run : RunRow) : RunRow := { run with completedKeys := 0, updatedAt := 0 }

/-- A partition writes candidates and counters. -/
structure Processed (db after : Database) : Prop where
  snapshots : after.snapshots = db.snapshots
  streams : after.streams = db.streams
  jobs : after.jobs = db.jobs
  outbox : after.outbox = db.outbox
  runs : after.runs.map RunRow.fixed = db.runs.map RunRow.fixed

theorem Processed.refl (db : Database) : Processed db db := ⟨rfl, rfl, rfl, rfl, rfl⟩

theorem Processed.trans {a b c : Database} (h : Processed a b) (h' : Processed b c) :
    Processed a c :=
  ⟨h'.snapshots.trans h.snapshots, h'.streams.trans h.streams, h'.jobs.trans h.jobs,
    h'.outbox.trans h.outbox, h'.runs.trans h.runs⟩

theorem Processed.run {db after : Database} (h : Processed db after) (id : Uuid) :
    (after.run id).map RunRow.fixed = (db.run id).map RunRow.fixed := by
  have hfind : ∀ rows : List RunRow, (rows.find? fun row => row.id = id).map RunRow.fixed =
      (rows.map RunRow.fixed).find? fun row => row.id = id := by
    intro rows
    rw [List.find?_map]
    rfl
  rw [Database.run, Database.run, hfind, hfind, h.runs]

theorem Processed.runIds {db after : Database} (h : Processed db after) :
    after.runs.map RunRow.id = db.runs.map RunRow.id := by
  have hids : ∀ rows : List RunRow, rows.map RunRow.id = (rows.map RunRow.fixed).map RunRow.id := by
    intro rows
    rw [List.map_map]
    rfl
  rw [hids, h.runs, ← hids]

/-- A run in progress stays in progress. -/
theorem Processed.run_processing {db after : Database} (h : Processed db after) {id : Uuid}
    {run : RunRow} (hrun : db.run id = some run) (hstatus : run.status = .processing) :
    ∃ latest, after.run id = some latest ∧ latest.status = .processing ∧
      latest.snapshot = run.snapshot := by
  have hfixed := h.run id
  rw [hrun, Option.map_some] at hfixed
  obtain ⟨latest, hlatest, hsame⟩ := Option.map_eq_some_iff.mp hfixed
  have hstatus' : latest.fixed.status = run.fixed.status := congrArg RunRow.status hsame
  have hsnapshot : latest.fixed.snapshot = run.fixed.snapshot := congrArg RunRow.snapshot hsame
  exact ⟨latest, hlatest, hstatus'.trans hstatus, hsnapshot⟩

theorem processPartition_ok {hash : String → Int} {db after : Database} {now : Time} {runId : Uuid}
    {number : Nat} {workerId : WorkerId} {jobId : Option Uuid}
    {result : ProviderReconciliationPartitionResult}
    (h : processPartition hash db now runId number workerId jobId = .ok (after, result)) :
    Processed db after := by
  unfold processPartition at h
  obtain ⟨_, -, h⟩ := of_bind h
  split at h
  · split at h
    · cases h
    · split_ifs at h
      · obtain ⟨rfl, -⟩ := Prod.mk.inj (of_pure h)
        exact .refl _
      · obtain ⟨_, -, h⟩ := of_bind h
        obtain ⟨_, -, h⟩ := of_bind h
        obtain ⟨rfl, -⟩ := Prod.mk.inj (of_pure h)
        exact ⟨rfl, rfl, rfl, rfl, Table.map_update fun _ _ => rfl⟩
  · cases h

theorem processProviderReconciliationPartition_processed (hash : String → Int) (db : Database)
    (now : Time) (runId : Uuid) (number : Nat) (workerId : WorkerId) (jobId : Option Uuid) :
    Processed db
      (processProviderReconciliationPartition hash db now runId number workerId jobId).1 := by
  unfold processProviderReconciliationPartition transact
  split
  · rename_i hprocess
    exact processPartition_ok hprocess
  · exact .refl db

/-! ## Publication -/

/-- What the finalizer has checked before it looks at the partitions. -/
structure FinalizerReady (db : Database) (runId parentJobId finalizerJobId : Uuid)
    (workerId : Option WorkerId) (run : RunRow) : Prop where
  parent : ∃ job, (db.jobs.find? fun job => job.id = parentJobId ∧ job.kind = .refreshSource) =
    some job ∧ job.status = .running
  finalizer : ∃ job, (db.jobs.find? fun job => job.id = finalizerJobId ∧
    job.kind = .finalizeProviderReconciliation ∧
    (workerId.isNone ∨ (job.status = .running ∧ job.lockedBy = workerId))) = some job ∧
      job.status ≠ .cancelled
  run : db.run runId = some run

/-- The snapshot that the finalizer may publish. -/
structure Publishable (db : Database) (run : RunRow) (snapshot : SnapshotRow) : Prop where
  mem : snapshot ∈ db.snapshots
  id : snapshot.id = run.snapshot
  owner : snapshot.owner = .providerAccount run.account
  kind : snapshot.kind = .m3u ∨ snapshot.kind = .xtream
  status : snapshot.status = .staging
  staged : snapshot.stagedAt.isSome

/-- `newer_active`. -/
def NewerActive (db : Database) (account : Uuid) (snapshot : SnapshotRow) : Prop :=
  ∃ row ∈ db.snapshots, row.owner = .providerAccount account ∧ row.kind = snapshot.kind ∧
    row.status = .active ∧ row.newerThan snapshot.fetchedAt snapshot.id

/-- The ways in which a finalizer returns. -/
inductive Finalizes (db : Database) (now : Time) (runId parentJobId finalizerJobId : Uuid)
    (workerId : Option WorkerId) : Database → ProviderReconciliationFinalization → Prop where
  | abandoned {job : JobRow} :
      (db.jobs.find? fun job => job.id = parentJobId ∧ job.kind = .refreshSource) = some job →
      job.status ≠ .running →
      Finalizes db now runId parentJobId finalizerJobId workerId
        (abandonRun db now runId finalizerJobId) .cancelled
  | stopped {job : JobRow} : job ∈ db.jobs → job.id = finalizerJobId → job.status = .cancelled →
      Finalizes db now runId parentJobId finalizerJobId workerId db .cancelled
  | again {run : RunRow} : FinalizerReady db runId parentJobId finalizerJobId workerId run →
      run.status = .published →
      Finalizes db now runId parentJobId finalizerJobId workerId db .alreadyPublished
  | early {run : RunRow} : FinalizerReady db runId parentJobId finalizerJobId workerId run →
      run.status = .processing →
      (∃ row ∈ db.partitions, row.run = runId ∧ row.status ≠ .succeeded) →
      Finalizes db now runId parentJobId finalizerJobId workerId db
        (.pending (providerReconciliationProgress db run))
  | superseded {run : RunRow} {snapshot : SnapshotRow} :
      FinalizerReady db runId parentJobId finalizerJobId workerId run →
      run.status = .processing →
      (∀ row ∈ db.partitions, row.run = runId → row.status = .succeeded) →
      Publishable db run snapshot → NewerActive db run.account snapshot →
      Finalizes db now runId parentJobId finalizerJobId workerId
        (supersedeRun (lockActivation (lockActivation db parentJobId) finalizerJobId) now run.id
          run.snapshot) .superseded
  | published {run : RunRow} {snapshot : SnapshotRow} {after : Database} :
      FinalizerReady db runId parentJobId finalizerJobId workerId run →
      run.status = .processing →
      (∀ row ∈ db.partitions, row.run = runId → row.status = .succeeded) →
      Publishable db run snapshot → ¬ NewerActive db run.account snapshot →
      publishRun (lockActivation (lockActivation db parentJobId) finalizerJobId) now run.id
        run.snapshot run.account = .ok after →
      Finalizes db now runId parentJobId finalizerJobId workerId after .published

theorem publishSnapshot_cases {db after : Database} {now : Time} {run : RunRow} {channelsOk : Bool}
    {result : ProviderReconciliationFinalization}
    (h : publishSnapshot db now run channelsOk = .ok (after, result)) :
    ∃ snapshot, Publishable db run snapshot ∧
      ((NewerActive db run.account snapshot ∧ result = .superseded ∧
          after = supersedeRun db now run.id run.snapshot) ∨
        (¬ NewerActive db run.account snapshot ∧ result = .published ∧
          publishRun db now run.id run.snapshot run.account = .ok after)) := by
  unfold publishSnapshot at h
  split at h
  · cases h
  rename_i snapshot hfound
  obtain ⟨hid, howner⟩ : snapshot.id = run.snapshot ∧
      snapshot.owner = .providerAccount run.account := by simpa using List.find?_some hfound
  obtain ⟨_, hready, h⟩ := of_bind h
  obtain ⟨hkind, hstatus, hstaged⟩ := of_ensure hready
  refine ⟨snapshot, ⟨List.mem_of_find?_eq_some hfound, hid, howner, hkind, hstatus, hstaged⟩, ?_⟩
  unfold NewerActive
  rw [hid]
  split_ifs at h with hnewer
  · obtain ⟨rfl, rfl⟩ := Prod.mk.inj (of_pure h)
    exact .inl ⟨hnewer, rfl, rfl⟩
  · obtain ⟨_, -, h⟩ := of_bind h
    obtain ⟨_, -, h⟩ := of_bind h
    obtain ⟨_, -, h⟩ := of_bind h
    obtain ⟨published, hpublished, h⟩ := of_bind h
    obtain ⟨rfl, rfl⟩ := Prod.mk.inj (of_pure h)
    exact .inr ⟨hnewer, rfl, hpublished⟩

theorem finalizeReconciliation_cases {db after : Database} {now : Time}
    {runId parentJobId finalizerJobId : Uuid} {workerId : Option WorkerId} {channelsOk : Bool}
    {result : ProviderReconciliationFinalization}
    (h : finalizeReconciliation db now runId parentJobId finalizerJobId workerId channelsOk =
      .ok (after, result)) :
    Finalizes db now runId parentJobId finalizerJobId workerId after result := by
  unfold finalizeReconciliation at h
  split at h
  · cases h
  rename_i parent hparent
  by_cases hrunning : parent.status ≠ .running
  · rw [if_pos hrunning] at h
    obtain ⟨rfl, rfl⟩ := Prod.mk.inj (of_pure h)
    exact .abandoned hparent hrunning
  rw [if_neg hrunning] at h
  split at h
  · cases h
  rename_i finalizer hfinalizer
  by_cases hcancelled : finalizer.status = .cancelled
  · rw [if_pos hcancelled] at h
    obtain ⟨rfl, rfl⟩ := Prod.mk.inj (of_pure h)
    have hfound := List.find?_some hfinalizer
    exact .stopped (List.mem_of_find?_eq_some hfinalizer) (of_decide_eq_true hfound).1 hcancelled
  rw [if_neg hcancelled] at h
  split at h
  · cases h
  rename_i run hrun
  have hready : FinalizerReady db runId parentJobId finalizerJobId workerId run :=
    ⟨⟨parent, hparent, not_not.mp hrunning⟩, ⟨finalizer, hfinalizer, hcancelled⟩, hrun⟩
  obtain ⟨_, -, h⟩ := of_bind h
  by_cases hpublished : run.status = .published
  · rw [if_pos hpublished] at h
    obtain ⟨rfl, rfl⟩ := Prod.mk.inj (of_pure h)
    exact .again hready hpublished
  rw [if_neg hpublished] at h
  obtain ⟨_, hprocessing, h⟩ := of_bind h
  split_ifs at h with hunfinished
  · obtain ⟨rfl, rfl⟩ := Prod.mk.inj (of_pure h)
    refine .early hready (of_ensure hprocessing) ?_
    obtain ⟨row, hrow⟩ := List.exists_mem_of_length_pos hunfinished
    exact ⟨row, by simpa using hrow⟩
  · have hdone : ∀ row ∈ db.partitions, row.run = runId → row.status = .succeeded := by
      simpa using Table.count_eq_zero.mp (Nat.eq_zero_of_not_pos hunfinished)
    obtain ⟨snapshot, hpublishable, hcases⟩ := publishSnapshot_cases h
    have hpublishable : Publishable db run snapshot := ⟨hpublishable.mem, hpublishable.id,
      hpublishable.owner, hpublishable.kind, hpublishable.status, hpublishable.staged⟩
    rcases hcases with ⟨hnewer, rfl, rfl⟩ | ⟨hnewer, rfl, hpublish⟩
    · exact .superseded hready (of_ensure hprocessing) hdone hpublishable hnewer
    · exact .published hready (of_ensure hprocessing) hdone hpublishable hnewer hpublish

end IptvRelay.Store
