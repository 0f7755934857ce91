import IptvRelay.Store.ReconciliationFacts
import IptvRelay.Store.SnapshotGate

/-!
# One refresh after another

Runs of complete provider refreshes: a playlist is staged, its run is prepared, every
partition is processed and the finalizer ends the run, before the next refresh begins.
After a refresh the account should show the playlist that was fetched. The finalizer
compares the times of the first fetch, so it holds back a playlist that comes back after
a later one.
-/

namespace IptvRelay.Store

open Transition Checked

/-- One refresh of an account. Uuids, times and the order of the partitions are choices of the
environment. -/
structure Refresh where
  account : Uuid
  snapshot : PreparedSnapshot
  now : Time
  later : Time
  parentJobId : Uuid
  finalizerJobId : Uuid
  intentId : Uuid
  fresh : Nat → Uuid
  requestedPartitions : Int
  progress : ActivationProgress
  workerId : WorkerId
  order : List Nat
  channelsOk : Bool

/-- A call that returned a result. -/
def returned {ε α : Type} : Database × Except ε α → Option (Database × α)
  | (db, .ok result) => some (db, result)
  | (_, .error _) => none

theorem returned_transact {ε α : Type} {db after : Database} {body : Except ε (Database × α)}
    {result : α} (h : returned (transact db body) = some (after, result)) :
    body = .ok (after, result) := by
  cases body with
  | error error => cases h
  | ok pair =>
    cases h
    rfl

/-- A job in the hands of a worker. -/
def insertRunningJob (db : Database) (id : Uuid) (kind : JobKind) (payload : JobPayload)
    (workerId : WorkerId) (now : Time) : Option Database := do
  guard (∀ job ∈ db.jobs, job.id ≠ id)
  return { db with jobs := db.jobs ++
    [{ id, kind, payload, status := .running, lockedBy := some workerId, createdAt := now }] }

namespace Refresh

variable (hash : String → Int)

/-- Every partition of the run, in any order. -/
def processAll (refresh : Refresh) (db : Database) (run : RunRow) : Option Database := do
  guard (∀ number < run.partitionCount, number ∈ refresh.order)
  refresh.order.foldlM (fun db number => (returned (processProviderReconciliationPartition hash db
    refresh.later run.id number refresh.workerId none)).map Prod.fst) db

/-- The finalizer ends the run. -/
def finalize (refresh : Refresh) (db : Database) (run : RunRow) : Option Database := do
  let db ← insertRunningJob db refresh.finalizerJobId .finalizeProviderReconciliation
    { runId := some run.id
      sourceId := some refresh.account
      parentJobId := some refresh.parentJobId } refresh.workerId refresh.later
  let (db, result) ← returned (finalizeProviderReconciliation db refresh.later run.id
    refresh.parentJobId refresh.finalizerJobId none refresh.channelsOk)
  match result with
  | .published | .alreadyPublished | .superseded => some db
  | .pending _ | .cancelled => none

/-- The jobs of the refresh succeed. -/
def complete (refresh : Refresh) (db : Database) : Database :=
  db.updateJobs (fun job => job.id = refresh.parentJobId ∨ job.id = refresh.finalizerJobId)
    fun job => job.finish .succeeded

/-- A refresh in which every call returns. -/
def step (db : Database) (refresh : Refresh) : Option Database := do
  guard (refresh.snapshot.owner = .providerAccount refresh.account ∧
    (refresh.snapshot.kind = .m3u ∨ refresh.snapshot.kind = .xtream))
  let db ← insertRunningJob db refresh.parentJobId .refreshSource
    { sourceId := some refresh.account } refresh.workerId refresh.now
  let store : PgSnapshotStore :=
    { reconciliationParent := some (refresh.parentJobId, refresh.requestedPartitions) }
  let (db, snapshotId) ← returned (store.stageWithProgress db refresh.now refresh.intentId
    refresh.snapshot refresh.progress)
  let (db, run) ← returned (createOrLoadProviderReconciliationRun hash db refresh.later
    refresh.fresh snapshotId refresh.parentJobId refresh.requestedPartitions)
  match run with
  | none => return refresh.complete db
  | some run =>
    let db ← refresh.processAll hash db run
    let db ← refresh.finalize db run
    return refresh.complete db

end Refresh

/-- Refreshes, one after another, from an empty database. -/
def refreshMachine (hash : String → Int) : Machine Database Refresh where
  start := {}
  step := Refresh.step hash

/-! ## The snapshots of an account -/

/-- An active playlist of the account. -/
def SnapshotRow.ActiveOf (row : SnapshotRow) (account : Uuid) : Prop :=
  row.owner = .providerAccount account ∧ (row.kind = .m3u ∨ row.kind = .xtream) ∧
    row.status = .active

instance (row : SnapshotRow) (account : Uuid) : Decidable (row.ActiveOf account) :=
  inferInstanceAs (Decidable (_ ∧ _))

/-- The account shows one playlist, the one of this kind and checksum. -/
def Database.Shows (db : Database) (account : Uuid) (kind : SnapshotKind) (checksum : Checksum) :
    Prop :=
  ∃ row ∈ db.snapshots, row.ActiveOf account ∧ row.kind = kind ∧ row.checksum = checksum ∧
    ∀ other ∈ db.snapshots, other.ActiveOf account → other = row

instance (db : Database) (account : Uuid) (kind : SnapshotKind) (checksum : Checksum) :
    Decidable (db.Shows account kind checksum) :=
  inferInstanceAs (Decidable (∃ row ∈ db.snapshots, _))

/-- When the playlist was fetched first, and its id. -/
def Database.firstFetch (db : Database) (now : Time) (snapshot : PreparedSnapshot) : Time × Uuid :=
  match db.matching snapshot with
  | some row => (row.fetchedAt, row.id)
  | none => (now, snapshot.id)

/-- The playlist is active already, or no active playlist of its kind was fetched first after it. -/
def Database.Current (db : Database) (now : Time) (snapshot : PreparedSnapshot) : Prop :=
  (∃ row, db.matching snapshot = some row ∧ row.status = .active) ∨
    ∀ row ∈ db.snapshots, row.owner = snapshot.owner → row.kind = snapshot.kind →
      row.status = .active →
      ¬ row.newerThan (db.firstFetch now snapshot).1 (db.firstFetch now snapshot).2

/-- Keys are unique, and an account has one active playlist. -/
structure RefreshOk (db : Database) : Prop where
  ids : (db.snapshots.map SnapshotRow.id).Nodup
  keys : (db.snapshots.map fun row => (row.owner, row.kind, row.checksum)).Nodup
  single : ∀ account, ∀ a ∈ db.snapshots, ∀ b ∈ db.snapshots, a.ActiveOf account →
    b.ActiveOf account → a.id = b.id
  runs : (db.runs.map RunRow.id).Nodup

/-- Only the snapshots and the runs matter. -/
theorem RefreshOk.congr {db after : Database} (h : RefreshOk db)
    (hsnapshots : after.snapshots = db.snapshots) (hruns : after.runs.map RunRow.id =
      db.runs.map RunRow.id) : RefreshOk after where
  ids := hsnapshots ▸ h.ids
  keys := hsnapshots ▸ h.keys
  single := hsnapshots ▸ h.single
  runs := hruns ▸ h.runs

/-- An update that keeps keys and makes nothing active. -/
theorem RefreshOk.update {db after : Database} (h : RefreshOk db) {p : SnapshotRow → Bool}
    {f : SnapshotRow → SnapshotRow} (hsnapshots : after.snapshots = Table.update p f db.snapshots)
    (hid : ∀ row, (f row).id = row.id)
    (hkey : ∀ row, ((f row).owner, (f row).kind, (f row).checksum) =
      (row.owner, row.kind, row.checksum))
    (hactive : ∀ row ∈ db.snapshots, p row = true → (f row).status ≠ .active)
    (hruns : after.runs.map RunRow.id = db.runs.map RunRow.id) : RefreshOk after where
  ids := by rw [hsnapshots, Table.map_update fun row _ => hid row]; exact h.ids
  keys := by rw [hsnapshots, Table.map_update fun row _ => hkey row]; exact h.keys
  single account a ha b hb hacta hactb := by
    rw [hsnapshots] at ha hb
    rcases Table.update_cases ha with ⟨ha, -⟩ | ⟨old, hold, hp, rfl⟩
    · rcases Table.update_cases hb with ⟨hb, -⟩ | ⟨old, hold, hp, rfl⟩
      · exact h.single account a ha b hb hacta hactb
      · exact absurd hactb.2.2 (hactive old hold hp)
    · exact absurd hacta.2.2 (hactive old hold hp)
  runs := hruns ▸ h.runs

/-! ## Staging -/

/-- The snapshot that a refresh stages. -/
structure Staged (db : Database) (now : Time) (snapshot : PreparedSnapshot) (id : Uuid)
    (row : SnapshotRow) (after : Database) : Prop where
  ok : RefreshOk after
  mem : row ∈ after.snapshots
  id : row.id = id
  owner : row.owner = snapshot.owner
  kind : row.kind = snapshot.kind
  checksum : row.checksum = snapshot.checksum
  fetched : (row.fetchedAt, row.id) = db.firstFetch now snapshot
  actives : ∀ other : SnapshotRow, other.status = .active →
    (other ∈ after.snapshots ↔ other ∈ db.snapshots)
  active : row.status = .active → ∃ found, db.matching snapshot = some found ∧
    found.status = .active
  inactive : row.status ≠ .active → ∀ found, db.matching snapshot = some found →
    found.status ≠ .active

theorem Staged.of_found {db : Database} (hok : RefreshOk db) {now : Time}
    {snapshot : PreparedSnapshot} {row : SnapshotRow} (hfound : db.matching snapshot = some row) :
    Staged db now snapshot row.id row db where
  ok := hok
  mem := (Database.matching_spec hfound).1
  id := rfl
  owner := (Database.matching_spec hfound).2.1
  kind := (Database.matching_spec hfound).2.2.1
  checksum := (Database.matching_spec hfound).2.2.2
  fetched := by rw [Database.firstFetch, hfound]
  actives := fun _ _ => Iff.rfl
  active := fun hactive => ⟨row, hfound, hactive⟩
  inactive := by
    intro hinactive found hother
    cases hfound.symm.trans hother
    exact hinactive

/-- The tables of other components may change. -/
theorem Staged.congr {db after final : Database} {now : Time} {snapshot : PreparedSnapshot}
    {id : Uuid} {row : SnapshotRow} (h : Staged db now snapshot id row after)
    (hsnapshots : final.snapshots = after.snapshots) (hruns : final.runs.map RunRow.id =
      after.runs.map RunRow.id) : Staged db now snapshot id row final where
  ok := h.ok.congr hsnapshots hruns
  mem := hsnapshots ▸ h.mem
  id := h.id
  owner := h.owner
  kind := h.kind
  checksum := h.checksum
  fetched := h.fetched
  actives := hsnapshots ▸ h.actives
  active := h.active
  inactive := h.inactive

/-- An update that no active row takes part in keeps the active rows. -/
theorem mem_update_active {rows : List SnapshotRow} {p : SnapshotRow → Bool}
    {f : SnapshotRow → SnapshotRow} (hbefore : ∀ row ∈ rows, p row = true → row.status ≠ .active)
    (hafter : ∀ row ∈ rows, p row = true → (f row).status ≠ .active) {row : SnapshotRow}
    (hactive : row.status = .active) : row ∈ Table.update p f rows ↔ row ∈ rows := by
  constructor
  · intro h
    rcases Table.update_cases h with ⟨hrow, -⟩ | ⟨old, hold, hp, rfl⟩
    · exact hrow
    · exact absurd hactive (hafter old hold hp)
  · intro h
    have hp : p row = false := by
      by_contra hp
      exact hbefore row h (by simpa using hp) hactive
    exact Table.mem_update.mpr ⟨row, h, by simp [hp]⟩

theorem Staged.of_superseded {db : Database} (hok : RefreshOk db) {now : Time}
    {snapshot : PreparedSnapshot} {row : SnapshotRow} (hfound : db.matching snapshot = some row)
    (hstatus : row.status = .superseded) :
    Staged db now snapshot row.id
      { row with status := .staging, stagedAt := some now, activatedAt := none }
      (db.updateSnapshots (fun other => other.id = row.id) fun other =>
        { other with status := .staging, stagedAt := some now, activatedAt := none }) := by
  have hbase : Staged db now snapshot row.id row db := .of_found hok hfound
  have hrow : ∀ other ∈ db.snapshots, decide (other.id = row.id) = true → other = row :=
    fun other hother hid => Table.eq_of_key hok.ids hother hbase.mem (of_decide_eq_true hid)
  exact
    { ok := hok.update rfl (fun _ => rfl) (fun _ => rfl) (by simp) rfl
      mem := Table.mem_update.mpr ⟨row, hbase.mem, by simp⟩
      id := rfl
      owner := hbase.owner
      kind := hbase.kind
      checksum := hbase.checksum
      fetched := hbase.fetched
      actives := fun other hactive => mem_update_active
        (fun old hold hp => by rw [hrow old hold hp, hstatus]; decide) (by simp) hactive
      active := by simp
      inactive := fun _ => hbase.inactive (by rw [hstatus]; decide) }

/-- The header of a new snapshot. -/
theorem RefreshOk.insert {db after : Database} (h : RefreshOk db) {now : Time}
    {snapshot : PreparedSnapshot} {row : SnapshotRow} (hnew : db.matching snapshot = none)
    (hrow : Inserted snapshot now row db after) : RefreshOk after where
  ids := by
    rw [hrow.snapshots, List.map_append, List.nodup_append]
    refine ⟨h.ids, by simp, ?_⟩
    rintro id hid other hother rfl
    rw [List.mem_singleton.mp hother] at hid
    exact hrow.fresh hid
  keys := by
    rw [hrow.snapshots, List.map_append, List.nodup_append]
    refine ⟨h.keys, by simp, ?_⟩
    rintro key hkey other hother rfl
    obtain ⟨old, hold, hsame⟩ := List.mem_map.mp hkey
    have hsame : (old.owner, old.kind, old.checksum) = (row.owner, row.kind, row.checksum) :=
      hsame.trans (List.mem_singleton.mp hother)
    rw [hrow.owner, hrow.kind, hrow.checksum] at hsame
    exact List.find?_eq_none.mp hnew old hold (by simpa using hsame)
  single account a ha b hb hacta hactb := by
    rw [hrow.snapshots] at ha hb
    have hold : ∀ other ∈ db.snapshots ++ [row], other.ActiveOf account → other ∈ db.snapshots := by
      intro other hother hactive
      rcases List.mem_append.mp hother with hother | hother
      · exact hother
      · cases List.mem_singleton.mp hother
        exact absurd (hrow.status.symm.trans hactive.2.2) (by decide)
    exact h.single account a (hold a ha hacta) b (hold b hb hactb) hacta hactb
  runs := hrow.runs ▸ h.runs

theorem Staged.of_inserted {db after : Database} (hok : RefreshOk db) {now : Time}
    {snapshot : PreparedSnapshot} {row : SnapshotRow} (hnew : db.matching snapshot = none)
    (hrow : Inserted snapshot now row db after) :
    Staged db now snapshot snapshot.id { row with stagedAt := some now }
      (after.updateSnapshots (fun other => other.id = snapshot.id) fun other =>
        { other with stagedAt := some now }) := by
  have hins := hok.insert hnew hrow
  have hmem : row ∈ after.snapshots := by simp [hrow.snapshots]
  have hstaging : ∀ other ∈ after.snapshots, decide (other.id = snapshot.id) = true →
      other.status ≠ .active := by
    intro other hother hid
    rw [Table.eq_of_key hins.ids hother hmem ((of_decide_eq_true hid).trans hrow.id.symm),
      hrow.status]
    decide
  exact
    { ok := hins.update rfl (fun _ => rfl) (fun _ => rfl) hstaging rfl
      mem := Table.mem_update.mpr ⟨row, hmem, by simp [hrow.id]⟩
      id := hrow.id
      owner := hrow.owner
      kind := hrow.kind
      checksum := hrow.checksum
      fetched := by rw [Database.firstFetch, hnew]; exact Prod.ext hrow.fetchedAt hrow.id
      actives := by
        intro other hactive
        refine Iff.trans (mem_update_active hstaging ?_ hactive) ?_
        · exact hstaging
        rw [hrow.snapshots, List.mem_append]
        refine or_iff_left fun hother => ?_
        rw [List.mem_singleton.mp hother, hrow.status] at hactive
        cases hactive
      active := by simp [hrow.status]
      inactive := by simp [hnew] }

theorem Stages.staged {store : PgSnapshotStore} {db after : Database} {now : Time}
    {intentId id : Uuid} {snapshot : PreparedSnapshot} {progress : ActivationProgress}
    {existed : Bool} (h : Stages store db now intentId snapshot progress after id existed)
    (hok : RefreshOk db) : ∃ row, Staged db now snapshot id row after := by
  cases h with
  | @active row hfound hstatus => exact ⟨row, .of_found hok hfound⟩
  | @staging row hfound hstatus =>
    refine ⟨row, (Staged.of_found hok hfound).congr ?_ ?_⟩
    all_goals rw [PgSnapshotStore.stageDispatch_tables]
  | @superseded row hfound hstatus _ =>
    refine ⟨_, (Staged.of_superseded hok hfound hstatus).congr ?_ ?_⟩
    all_goals rw [PgSnapshotStore.stageDispatch_tables]
  | inserted hnew hinsert =>
    obtain ⟨row, hrow⟩ := insertSnapshot_ok hinsert
    refine ⟨_, (Staged.of_inserted hok hnew hrow).congr ?_ ?_⟩
    all_goals rw [PgSnapshotStore.stageDispatch_tables]

/-! ## Publication -/

theorem processAll_processed {hash : String → Int} {refresh : Refresh} {db after : Database}
    {run : RunRow} (h : refresh.processAll hash db run = some after) : Processed db after := by
  replace h := (of_guard h).2
  generalize refresh.order = order at h
  induction order generalizing db with
  | nil =>
    cases h
    exact .refl _
  | cons number order ih =>
    rw [List.foldlM_cons] at h
    obtain ⟨next, hnext, h⟩ := Option.bind_eq_some_iff.mp h
    refine Processed.trans ?_ (ih h)
    have hone := processProviderReconciliationPartition_processed hash db refresh.later run.id
      number refresh.workerId none
    generalize processProviderReconciliationPartition hash db refresh.later run.id number
      refresh.workerId none = call at hone hnext
    obtain ⟨written, result⟩ := call
    cases result with
    | error error => cases hnext
    | ok result =>
      cases hnext
      exact hone

/-- The rows that are active after a publication. -/
theorem publishRun_active {db after : Database} {now : Time} {runId snapshotId account : Uuid}
    (h : publishRun db now runId snapshotId account = .ok after) {row : SnapshotRow}
    (hrow : row ∈ after.snapshots) (hactive : row.status = .active) :
    (∃ old ∈ db.snapshots, old.id = snapshotId ∧ old.status = .staging ∧
        row = { old with status := .active, activatedAt := some now }) ∨
      (row ∈ db.snapshots ∧ (row.ActiveOf account → row.id = snapshotId)) := by
  unfold publishRun at h
  obtain ⟨_, -, h⟩ := of_bind h
  cases of_pure h
  rcases Table.update_cases hrow with ⟨hrow, -⟩ | ⟨old, hold, hp, rfl⟩
  · rcases Table.update_cases hrow with ⟨hrow, hnot⟩ | ⟨old, -, -, rfl⟩
    · refine .inr ⟨hrow, fun hof => ?_⟩
      by_contra hne
      exact of_decide_eq_false hnot ⟨hof.1, hof.2.1, hof.2.2, hne⟩
    · cases hactive
  · obtain ⟨hid, hstaging⟩ := of_decide_eq_true hp
    rcases Table.update_cases hold with ⟨hold, -⟩ | ⟨older, -, -, rfl⟩
    · exact .inl ⟨old, hold, hid, hstaging, rfl⟩
    · cases hstaging

theorem publishRun_mem {db after : Database} {now : Time} {runId account : Uuid}
    {row : SnapshotRow} (h : publishRun db now runId row.id account = .ok after)
    (hrow : row ∈ db.snapshots) (hstaging : row.status = .staging) :
    { row with status := .active, activatedAt := some now } ∈ after.snapshots := by
  unfold publishRun at h
  obtain ⟨_, -, h⟩ := of_bind h
  cases of_pure h
  refine Table.mem_update.mpr ⟨row, Table.mem_update.mpr ⟨row, hrow, by simp [hstaging]⟩, ?_⟩
  simp [hstaging]

/-- A publication writes `status` and `activated_at`. -/
theorem publishRun_map {db after : Database} {now : Time} {runId snapshotId account : Uuid}
    (h : publishRun db now runId snapshotId account = .ok after) {β : Type} (g : SnapshotRow → β)
    (hkeep : ∀ row status activatedAt, g { row with status, activatedAt } = g row) :
    after.snapshots.map g = db.snapshots.map g := by
  unfold publishRun at h
  obtain ⟨_, -, h⟩ := of_bind h
  cases of_pure h
  refine Eq.trans (Table.map_update ?_) (Table.map_update ?_)
  · exact fun row _ => hkeep row .active (some now)
  · exact fun row _ => hkeep row .superseded row.activatedAt

theorem publishRun_runs {db after : Database} {now : Time} {runId snapshotId account : Uuid}
    (h : publishRun db now runId snapshotId account = .ok after) :
    after.runs.map RunRow.id = db.runs.map RunRow.id := by
  unfold publishRun at h
  obtain ⟨_, -, h⟩ := of_bind h
  cases of_pure h
  refine Table.map_update ?_
  exact fun _ _ => rfl

/-- A publication leaves its snapshot as the only active one of the account. -/
theorem publishRun_shows {db after : Database} (hok : RefreshOk db) {now : Time}
    {runId account : Uuid} {row : SnapshotRow} (hrow : row ∈ db.snapshots)
    (howner : row.owner = .providerAccount account) (hkind : row.kind = .m3u ∨ row.kind = .xtream)
    (hstaging : row.status = .staging)
    (h : publishRun db now runId row.id account = .ok after) :
    RefreshOk after ∧ after.Shows account row.kind row.checksum := by
  have honly : ∀ other ∈ after.snapshots, other.ActiveOf account →
      other = { row with status := .active, activatedAt := some now } := by
    intro other hother hactive
    rcases publishRun_active h hother hactive.2.2 with ⟨old, hold, hid, -, rfl⟩ | ⟨hother, hid⟩
    · rw [Table.eq_of_key hok.ids hold hrow hid]
    · rw [Table.eq_of_key hok.ids hother hrow (hid hactive)] at hactive
      exact absurd (hstaging.symm.trans hactive.2.2) (by decide)
  have hids := publishRun_map h SnapshotRow.id fun _ _ _ => rfl
  have hkeys := publishRun_map h (fun row => (row.owner, row.kind, row.checksum)) fun _ _ _ => rfl
  refine ⟨⟨hids ▸ hok.ids, hkeys ▸ hok.keys, fun other a ha b hb hacta hactb => ?_,
    publishRun_runs h ▸ hok.runs⟩, _, publishRun_mem h hrow hstaging, ⟨howner, hkind, rfl⟩, rfl, rfl, honly⟩
  by_cases hsame : other = account
  · subst hsame
    rw [honly a ha hacta, honly b hb hactb]
  · -- The other accounts keep their snapshots.
    have hkept : ∀ c ∈ after.snapshots, c.ActiveOf other → c ∈ db.snapshots := by
      intro c hc hactc
      rcases publishRun_active h hc hactc.2.2 with ⟨old, hold, hid, -, rfl⟩ | ⟨hc, -⟩
      · rw [Table.eq_of_key hok.ids hold hrow hid] at hactc
        exact absurd (hactc.1.symm.trans howner) (by simpa using hsame)
      · exact hc
    exact hok.single other a (hkept a ha hacta) b (hkept b hb hactb) hacta hactb

/-- A newer playlist stays and hides the staged one. -/
theorem supersedeRun_hides {db : Database} (hok : RefreshOk db) {now : Time} {runId : Uuid}
    {account : Uuid} {row : SnapshotRow} (hrow : row ∈ db.snapshots)
    (hkind : row.kind = .m3u ∨ row.kind = .xtream)
    (howner : row.owner = .providerAccount account) (hstaging : row.status = .staging)
    (hnewer : NewerActive db account row) :
    RefreshOk (supersedeRun db now runId row.id) ∧
      ¬ (supersedeRun db now runId row.id).Shows account row.kind row.checksum := by
  have hids : (supersedeRun db now runId row.id).runs.map RunRow.id = db.runs.map RunRow.id := by
    refine Table.map_update ?_
    exact fun _ _ => rfl
  refine ⟨hok.update rfl (fun _ => rfl) (fun _ => rfl) (by simp) hids, ?_⟩
  rintro ⟨shown, -, -, hshownkind, hsum, honly⟩
  obtain ⟨newer, hmem, hnewowner, hnewkind, hactive, -⟩ := hnewer
  have hkept : newer ∈ (supersedeRun db now runId row.id).snapshots := by
    refine (mem_update_active ?_ ?_ hactive).mpr hmem
    · rintro other - hp
      rw [(of_decide_eq_true hp).2]
      decide
    · simp
  obtain rfl := honly newer hkept ⟨hnewowner, hnewkind ▸ hkind, hactive⟩
  have hsame : newer = row := Table.eq_of_key hok.keys hmem hrow
    (by rw [hnewowner, howner, hnewkind, hsum])
  rw [hsame, hstaging] at hactive
  cases hactive

/-- The finalizer publishes unless a newer playlist is active. -/
theorem Finalizes.ends {db after : Database} {now : Time} {runId parentJobId finalizerJobId : Uuid}
    {workerId : Option WorkerId} {result : ProviderReconciliationFinalization}
    (h : Finalizes db now runId parentJobId finalizerJobId workerId after result)
    (hresult : result = .published ∨ result = .alreadyPublished ∨ result = .superseded)
    (hok : RefreshOk db) {row : SnapshotRow} (hrow : row ∈ db.snapshots) {account : Uuid}
    (howner : row.owner = .providerAccount account) {run : RunRow} (hrun : db.run runId = some run)
    (hstatus : run.status = .processing) (hsnapshot : run.snapshot = row.id) :
    RefreshOk after ∧
      (after.Shows account row.kind row.checksum ↔ ¬ NewerActive db account row) := by
  -- The snapshot that the finalizer finds is the staged one.
  have hfound : ∀ {found snapshot}, FinalizerReady db runId parentJobId finalizerJobId workerId
      found → Publishable db found snapshot → found.account = account ∧ found.snapshot = row.id ∧
        snapshot = row := by
    intro found snapshot hready hpublishable
    cases hrun.symm.trans hready.run
    obtain rfl := Table.eq_of_key hok.ids hpublishable.mem hrow (hpublishable.id.trans hsnapshot)
    exact ⟨by simpa using hpublishable.owner.symm.trans howner, hsnapshot, rfl⟩
  cases h with
  | abandoned => simp at hresult
  | stopped => simp at hresult
  | early => simp at hresult
  | again hready hpublished =>
    cases hrun.symm.trans hready.run
    rw [hstatus] at hpublished
    cases hpublished
  | superseded hready hprocessing hdone hpublishable hnewer =>
    obtain ⟨haccount, hid, rfl⟩ := hfound hready hpublishable
    rw [haccount] at hnewer
    rw [hid]
    have hlocked : RefreshOk (lockActivation (lockActivation db parentJobId) finalizerJobId) :=
      hok.congr rfl rfl
    obtain ⟨hafter, hhides⟩ := supersedeRun_hides hlocked hrow hpublishable.kind howner
      hpublishable.status hnewer
    exact ⟨hafter, fun hshows => absurd hshows hhides, fun hnot => absurd hnewer hnot⟩
  | published hready hprocessing hdone hpublishable hnewer hpublish =>
    obtain ⟨haccount, hid, rfl⟩ := hfound hready hpublishable
    rw [haccount] at hnewer hpublish
    rw [hid] at hpublish
    have hlocked : RefreshOk (lockActivation (lockActivation db parentJobId) finalizerJobId) :=
      hok.congr rfl rfl
    obtain ⟨hafter, hshows⟩ := publishRun_shows hlocked hrow howner hpublishable.kind
      hpublishable.status hpublish
    exact ⟨hafter, fun _ => hnewer, fun _ => hshows⟩

theorem finalize_ends {refresh : Refresh} {db after : Database} (hok : RefreshOk db) {run : RunRow}
    {row : SnapshotRow} (hrow : row ∈ db.snapshots)
    (howner : row.owner = .providerAccount refresh.account) {found : RunRow}
    (hfound : db.run run.id = some found) (hstatus : found.status = .processing)
    (hsnapshot : found.snapshot = row.id) (h : refresh.finalize db run = some after) :
    RefreshOk after ∧ (after.Shows refresh.account row.kind row.checksum ↔
      ¬ NewerActive db refresh.account row) := by
  unfold Refresh.finalize at h
  obtain ⟨ready, hready, h⟩ := Option.bind_eq_some_iff.mp h
  obtain ⟨-, hready⟩ := of_guard hready
  obtain rfl := Option.some.inj hready
  obtain ⟨⟨final, result⟩, hcall, h⟩ := Option.bind_eq_some_iff.mp h
  have hends := (finalizeReconciliation_cases (returned_transact hcall)).ends
  cases result with
  | pending | cancelled => cases h
  | published | alreadyPublished | superseded =>
    cases h
    exact hends (by simp) (hok.congr rfl rfl) hrow howner hfound hstatus hsnapshot

/-! ## Runs -/

theorem returned_stage {store : PgSnapshotStore} {db after : Database} {now : Time}
    {intentId id : Uuid} {snapshot : PreparedSnapshot} {progress : ActivationProgress}
    (h : returned (store.stageWithProgress db now intentId snapshot progress) = some (after, id)) :
    ∃ existed, Stages store db now intentId snapshot progress after id existed := by
  unfold PgSnapshotStore.stageWithProgress at h
  cases hbody : store.stageTransaction db now intentId snapshot progress with
  | error error =>
    rw [hbody] at h
    cases h
  | ok result =>
    obtain ⟨staged, stagedId, existed⟩ := result
    refine ⟨existed, ?_⟩
    have hstages := stageTransaction_cases hbody
    rw [hbody] at h
    cases existed with
    | false =>
      cases h
      exact hstages
    | true =>
      simp only [transact, if_true] at h
      cases hprogress : progress snapshot.recordCount snapshot.recordCount with
      | error error =>
        rw [hprogress] at h
        cases h
      | ok _ =>
        rw [hprogress] at h
        cases h
        exact hstages

theorem returned_prepare {hash : String → Int} {db after : Database} {now : Time}
    {fresh : Nat → Uuid} {snapshotId parentJobId : Uuid} {requestedPartitions : Int}
    {result : Option RunRow}
    (h : returned (createOrLoadProviderReconciliationRun hash db now fresh snapshotId parentJobId
      requestedPartitions) = some (after, result)) :
    ∃ row, db.snapshot snapshotId = some row ∧
      ((row.status = .active ∧ result = none ∧ after = db) ∨
        (row.status = .staging ∧ ∃ run, result = some run ∧ Prepared db snapshotId run after)) := by
  unfold createOrLoadProviderReconciliationRun at h
  split at h
  · rename_i hprepare
    obtain ⟨row, hrow, -, hprepares⟩ := prepareReconciliation_cases hprepare
    cases h
    obtain ⟨hactive, rfl⟩ := hprepares.holds
    exact ⟨row, hrow, .inl ⟨hactive, rfl, rfl⟩⟩
  · rename_i run hprepare
    obtain ⟨row, hrow, -, hprepares⟩ := prepareReconciliation_cases hprepare
    cases h
    obtain ⟨hstaging, hprepared⟩ := hprepares.holds
    exact ⟨row, hrow, .inr ⟨hstaging, run, rfl, hprepared⟩⟩
  · cases h
  · cases h

/-- The snapshot is active when it is staged. -/
theorem Staged.shows {db after : Database} {now : Time} {snapshot : PreparedSnapshot} {id : Uuid}
    {row : SnapshotRow} (h : Staged db now snapshot id row after) {account : Uuid}
    (howner : snapshot.owner = .providerAccount account)
    (hkind : snapshot.kind = .m3u ∨ snapshot.kind = .xtream) (hactive : row.status = .active) :
    after.Shows account snapshot.kind snapshot.checksum := by
  have hof : row.ActiveOf account := ⟨h.owner.trans howner, h.kind ▸ hkind, hactive⟩
  refine ⟨row, h.mem, hof, h.kind, h.checksum, fun other hother hotherof => ?_⟩
  exact Table.eq_of_key h.ok.ids hother h.mem (h.ok.single account other hother row h.mem hotherof hof)

/-- Being current in terms of the staged snapshot. -/
theorem Staged.current_iff {db after : Database} {now : Time} {snapshot : PreparedSnapshot}
    {id : Uuid} {row : SnapshotRow} (h : Staged db now snapshot id row after) {account : Uuid}
    (howner : snapshot.owner = .providerAccount account) (hinactive : row.status ≠ .active) :
    db.Current now snapshot ↔ ¬ NewerActive after account row := by
  unfold Database.Current NewerActive
  rw [← h.fetched]
  constructor
  · rintro (⟨found, hfound, hbefore⟩ | hnone) ⟨newer, hmem, hnewowner, hnewkind, hactive, hnewer⟩
    · exact h.inactive hinactive found hfound hbefore
    · exact hnone newer ((h.actives newer hactive).mp hmem) (hnewowner.trans howner.symm)
        (hnewkind.trans h.kind) hactive hnewer
  · intro hnone
    refine .inr fun newer hmem hnewowner hnewkind hactive hnewer => hnone ?_
    exact ⟨newer, (h.actives newer hactive).mpr hmem, hnewowner.trans howner,
      hnewkind.trans h.kind.symm, hactive, hnewer⟩

/-- What a refresh does to the snapshots of its account. -/
theorem refresh_step {hash : String → Int} {db after : Database} {refresh : Refresh}
    (hok : RefreshOk db) (h : refresh.step hash db = some after) :
    RefreshOk after ∧ (after.Shows refresh.account refresh.snapshot.kind refresh.snapshot.checksum ↔
      db.Current refresh.now refresh.snapshot) := by
  unfold Refresh.step at h
  obtain ⟨⟨howner, hkind⟩, hcalls⟩ := of_guard h
  obtain ⟨begun, hbegun, hstaging⟩ := Option.bind_eq_some_iff.mp hcalls
  obtain rfl := Option.some.inj (of_guard hbegun).2
  obtain ⟨⟨staged, snapshotId⟩, hstage, hpreparing⟩ := Option.bind_eq_some_iff.mp hstaging
  obtain ⟨existed, hstages⟩ := returned_stage hstage
  obtain ⟨row, hrow⟩ := hstages.staged (hok.congr rfl rfl)
  obtain ⟨⟨prepared, found⟩, hprepare, hworking⟩ := Option.bind_eq_some_iff.mp hpreparing
  obtain ⟨stagedRow, hfind, hcases⟩ := returned_prepare hprepare
  obtain ⟨hmem, hid⟩ := Database.mem_of_snapshot hfind
  obtain rfl := Table.eq_of_key hrow.ok.ids hmem hrow.mem (hid.trans hrow.id.symm)
  rcases hcases with ⟨hactive, rfl, rfl⟩ | ⟨hstatus, run, rfl, hprepared⟩
  · obtain rfl := Option.some.inj hworking
    have hshows := hrow.shows howner hkind hactive
    obtain ⟨first, hfirst, hbefore⟩ := hrow.active hactive
    exact ⟨hrow.ok.congr rfl rfl, fun _ => .inl ⟨first, hfirst, hbefore⟩, fun _ => hshows⟩
  · obtain ⟨processed, hprocess, hfinalizing⟩ := Option.bind_eq_some_iff.mp hworking
    obtain ⟨final, hfinal, hdone⟩ := Option.bind_eq_some_iff.mp hfinalizing
    obtain rfl := Option.some.inj hdone
    have hall := processAll_processed hprocess
    have hsnapshots := hall.snapshots.trans hprepared.snapshots
    have hprocessed : RefreshOk processed :=
      ⟨hsnapshots ▸ hrow.ok.ids, hsnapshots ▸ hrow.ok.keys, hsnapshots ▸ hrow.ok.single,
        hall.runIds ▸ hprepared.ids hrow.ok.runs⟩
    obtain ⟨latest, hlatest, hlatestStatus, hlatestSnapshot⟩ :=
      hall.run_processing (hprepared.found hrow.ok.runs) hprepared.status
    have hends := finalize_ends hprocessed (hsnapshots ▸ hrow.mem) (hrow.owner.trans howner)
      hlatest hlatestStatus (hlatestSnapshot.trans (hprepared.snapshot.trans hrow.id.symm)) hfinal
    have hinactive : stagedRow.status ≠ .active := by rw [hstatus]; decide
    refine ⟨hends.1.congr rfl rfl, ?_⟩
    have hcurrent : db.Current refresh.now refresh.snapshot ↔
        ¬ NewerActive staged refresh.account stagedRow := hrow.current_iff howner hinactive
    rw [hcurrent, ← hrow.kind, ← hrow.checksum]
    unfold NewerActive
    rw [← hsnapshots]
    exact hends.2

theorem refreshOk_of_reachable {hash : String → Int} {db : Database}
    (h : (refreshMachine hash).Reachable db) : RefreshOk db := by
  refine h.invariant ?_ ?_
  · constructor <;> simp [refreshMachine]
  · intro before refresh after hok _ hstep
    exact (refresh_step hok hstep).1

/-- After every refresh of every run the account shows the playlist that was fetched, exactly when
that playlist was current. -/
theorem refresh_shows_fetched (hash : String → Int) {db after : Database} {refresh : Refresh}
    (h : (refreshMachine hash).Reachable db)
    (hstep : (refreshMachine hash).step db refresh = some after) :
    after.Shows refresh.account refresh.snapshot.kind refresh.snapshot.checksum ↔
      db.Current refresh.now refresh.snapshot :=
  (refresh_step (refreshOk_of_reachable h) hstep).2

/-! ## A playlist that comes back -/

def sampleRefresh (checksum snapshotId : Uuid) (streams : List Uuid) (now : Time) : Refresh :=
  { account := 1
    snapshot := { samplePlaylist snapshotId streams with checksum }
    now
    later := now + 1
    parentJobId := 1000 * now
    finalizerJobId := 1000 * now + 1
    intentId := 1000 * now + 2
    fresh := fun number => 1000 * now + 3 + number
    requestedPartitions := 2
    progress := noopActivationProgress
    workerId := "worker"
    order := [1, 0]
    channelsOk := true }

/-- The playlist of checksum 1, then that of checksum 2, then the first one again. -/
theorem returning_playlist_hidden :
    ∃ db after, (refreshMachine fun _ => 0).Reachable db ∧
      (refreshMachine fun _ => 0).step db (sampleRefresh 1 30 [1, 2] 3) = some after ∧
      ¬ after.Shows 1 .m3u 1 ∧ after.Shows 1 .m3u 2 := by
  obtain ⟨db, hdb, hp⟩ := (refreshMachine fun _ => 0).exists_reachable_of_run
    [sampleRefresh 1 10 [1, 2] 1, sampleRefresh 2 20 [3] 2]
    (fun db => (Refresh.step (fun _ => 0) db (sampleRefresh 1 30 [1, 2] 3)).any fun after : Database =>
      decide (¬ after.Shows 1 .m3u 1 ∧ after.Shows 1 .m3u 2)) (by decide +kernel)
  obtain ⟨after, hstep, hshows⟩ := (Option.any_eq_true _ _).mp hp
  exact ⟨db, after, hdb, hstep, of_decide_eq_true hshows⟩

theorem refresh_shows_fetched_second :
    ∃ db after, (refreshMachine fun _ => 0).Reachable db ∧
      (refreshMachine fun _ => 0).step db (sampleRefresh 2 20 [3] 2) = some after ∧
      db.Shows 1 .m3u 1 ∧ after.Shows 1 .m3u 2 := by
  obtain ⟨db, hdb, hp⟩ := (refreshMachine fun _ => 0).exists_reachable_of_run
    [sampleRefresh 1 10 [1, 2] 1]
    (fun db => (Refresh.step (fun _ => 0) db (sampleRefresh 2 20 [3] 2)).isSome &&
      decide (db.Shows 1 .m3u 1 ∧ ∀ row ∈ db.snapshots, ¬ row.newerThan
        (db.firstFetch 2 (sampleRefresh 2 20 [3] 2).snapshot).1
        (db.firstFetch 2 (sampleRefresh 2 20 [3] 2).snapshot).2)) (by decide +kernel)
  obtain ⟨hsome, hcurrent⟩ := Bool.and_eq_true_iff.mp hp
  obtain ⟨hfirst, hcurrent⟩ := of_decide_eq_true hcurrent
  obtain ⟨after, hstep⟩ := Option.isSome_iff_exists.mp hsome
  have hshows := (refresh_shows_fetched (fun _ => 0) hdb hstep).mpr
    (.inr fun row hrow _ _ _ => hcurrent row hrow)
  exact ⟨db, after, hdb, hstep, hfirst, hshows⟩

end IptvRelay.Store
