import IptvRelay.Lib.Machine
import IptvRelay.Store.Snapshots

/-!
# The gate in front of an active snapshot

Runs of the snapshot store with the cleanup. A snapshot that becomes active should have
been staging or superseded, with as many rows as its header says. `activate` does not
look at the snapshot whose checksum it finds again, so the gate holds in the runs where
that snapshot is in order.
-/

namespace IptvRelay.Store

open Transition Checked

/-- The calls of the store. The coordinator rejects a snapshot without channels, and the tables of
other components change in any way. -/
inductive StoreOp where
  | stage (store : PgSnapshotStore) (now : Time) (intentId : Uuid) (snapshot : PreparedSnapshot)
      (progress : ActivationProgress)
  | activate (now : Time) (snapshot : PreparedSnapshot) (progress : ActivationProgress)
  | activateStaged (snapshotId : Uuid) (now : Time)
  | discardStaged (snapshotId : Uuid)
  | cleanupBatch (now : Time) (retentionSeconds batchSize : Int) (linked : List Uuid)
      (pick : CleanupPick)
  | reject (snapshotId : Uuid)
  | elsewhere (tables : Database)

def storeMachine : Machine Database StoreOp where
  start := {}
  step db
    | .stage store now intentId snapshot progress =>
      some (store.stageWithProgress db now intentId snapshot progress).1
    | .activate now snapshot progress =>
      some (transact db (activateWithProgress db now snapshot progress)).1
    | .activateStaged snapshotId now => some (transact db (activateStaged db snapshotId now)).1
    | .discardStaged snapshotId => some (discardStaged db snapshotId)
    | .cleanupBatch now retentionSeconds batchSize linked pick =>
      db.cleanupBatch now retentionSeconds batchSize linked pick
    | .reject snapshotId => some (rejectStaged db snapshotId)
    | .elsewhere tables => some { db with
        runs := tables.runs
        partitions := tables.partitions
        candidates := tables.candidates
        candidateStreams := tables.candidateStreams
        jobs := tables.jobs
        outbox := tables.outbox }

/-! ## Inserted snapshots -/

theorem checkpointStaging_ok {progress : ActivationProgress} {staged batchLength total result : Nat}
    (h : checkpointStaging progress staged batchLength total = .ok result) :
    result = staged + batchLength := by
  unfold checkpointStaging at h
  obtain ⟨-, -, h⟩ := of_bind h
  obtain ⟨-, -, h⟩ := of_bind h
  exact (of_pure h).symm

/-- The batches together report every row. -/
theorem checkpointBatches_ok {progress : ActivationProgress} {batch total fuel rows staged result : Nat}
    (hbatch : 0 < batch) (hfuel : rows ≤ fuel)
    (h : checkpointBatches progress batch total fuel rows staged = .ok result) :
    result = staged + rows := by
  induction fuel generalizing rows staged with
  | zero =>
    cases h
    omega
  | succ fuel ih =>
    unfold checkpointBatches at h
    split_ifs at h with hrows
    · cases h
      omega
    · obtain ⟨next, hnext, h⟩ := of_bind h
      have hstep := checkpointStaging_ok hnext
      have hrest := ih (by omega) h
      omega

/-- `rows` more rows of the snapshot `snapshotId`. -/
structure AddsRows (snapshotId : Uuid) (rows : Nat) (db after : Database) : Prop where
  snapshots : after.snapshots = db.snapshots
  activations : after.activations = db.activations
  runs : after.runs = db.runs
  jobs : after.jobs = db.jobs
  counts : ∀ id, after.stagedRowCount id =
    db.stagedRowCount id + if id = snapshotId then rows else 0

theorem AddsRows.trans {snapshotId : Uuid} {m n : Nat} {a b c : Database}
    (h : AddsRows snapshotId m a b) (h' : AddsRows snapshotId n b c) :
    AddsRows snapshotId (m + n) a c where
  snapshots := h'.snapshots.trans h.snapshots
  activations := h'.activations.trans h.activations
  runs := h'.runs.trans h.runs
  jobs := h'.jobs.trans h.jobs
  counts id := by
    rw [h'.counts, h.counts]
    split_ifs <;> omega

/-- Rows that are stored under one snapshot. -/
theorem count_rows {α : Type} (at_ : α → Uuid) (rows : List α) (snapshotId : Uuid)
    (h : ∀ row ∈ rows, at_ row = snapshotId) (id : Uuid) :
    Table.count (fun row => decide (at_ row = id)) rows =
      if id = snapshotId then rows.length else 0 := by
  unfold Table.count
  split_ifs with heq
  · subst heq
    rw [List.filter_eq_self.mpr (by simpa using h)]
  · have hnone : rows.filter (fun row => decide (at_ row = id)) = [] :=
      List.filter_eq_nil_iff.mpr fun row hrow => by simp [h row hrow, Ne.symm heq]
    rw [hnone, List.length_nil]

/-- The rows of one table. -/
theorem stored_rows {progress : ActivationProgress} {batch total staged result : Nat} {α : Type}
    {rows : List α} (hbatch : 0 < batch)
    (h : checkpointBatches progress batch total rows.length rows.length staged = .ok result) :
    result = staged + rows.length :=
  checkpointBatches_ok hbatch (Nat.le_refl _) h

theorem insertProviderStreams_rows {db after : Database} {snapshot : PreparedSnapshot}
    {progress : ActivationProgress} {staged result : Nat}
    (h : insertProviderStreams db snapshot progress staged = .ok (after, result)) :
    ∃ streams, result = staged + streams.length ∧ (∀ row ∈ streams, row.snapshot = snapshot.id) ∧
      after = { db with streams := db.streams ++ streams } := by
  unfold insertProviderStreams at h
  split_ifs at h
  · cases h
    exact ⟨[], rfl, by simp, by simp⟩
  · obtain ⟨-, -, h⟩ := of_bind h
    obtain ⟨-, -, h⟩ := of_bind h
    obtain ⟨-, -, h⟩ := of_bind h
    obtain ⟨count, hcount, h⟩ := of_bind h
    cases h
    exact ⟨_, stored_rows (by decide) hcount, by simp, rfl⟩

/-- The channels of a guide are refused in the snapshot of a provider's streams. -/
theorem insertEpgChannels_rows {db after : Database} {snapshot : PreparedSnapshot}
    {progress : ActivationProgress} {staged result : Nat}
    (h : insertEpgChannels db snapshot progress staged = .ok (after, result)) :
    ∃ channels, result = staged + channels.length ∧
      (∀ row ∈ channels, row.snapshot = snapshot.id) ∧
      (snapshot.kind = .m3u ∨ snapshot.kind = .xtream → channels = []) ∧
      after = { db with epgChannels := db.epgChannels ++ channels } := by
  unfold insertEpgChannels at h
  split_ifs at h
  · cases h
    exact ⟨[], rfl, by simp, fun _ => rfl, by simp⟩
  · obtain ⟨_, hkind, h⟩ := of_bind h
    obtain ⟨-, -, h⟩ := of_bind h
    obtain ⟨-, -, h⟩ := of_bind h
    obtain ⟨count, hcount, h⟩ := of_bind h
    cases h
    refine ⟨_, stored_rows (by decide) hcount, by simp, fun hprovider => ?_, rfl⟩
    have hguide := of_ensure hkind
    rcases hprovider with hprovider | hprovider <;> simp [hprovider] at hguide

theorem insertProgrammes_rows {db after : Database} {snapshot : PreparedSnapshot}
    {progress : ActivationProgress} {staged result : Nat}
    (h : insertProgrammes db snapshot progress staged = .ok (after, result)) :
    ∃ programmes, result = staged + programmes.length ∧
      (∀ row ∈ programmes, row.snapshot = snapshot.id) ∧
      programmes.length = snapshot.programmes.length ∧
      after = { db with programmes := db.programmes ++ programmes } := by
  unfold insertProgrammes at h
  obtain ⟨-, -, h⟩ := of_bind h
  obtain ⟨-, -, h⟩ := of_bind h
  obtain ⟨count, hcount, h⟩ := of_bind h
  cases h
  exact ⟨_, stored_rows (by decide) hcount, by simp, by simp, rfl⟩

theorem insertProviderStreams_ok {db after : Database} {snapshot : PreparedSnapshot}
    {progress : ActivationProgress} {staged result : Nat}
    (h : insertProviderStreams db snapshot progress staged = .ok (after, result)) :
    ∃ rows, result = staged + rows ∧ AddsRows snapshot.id rows db after := by
  obtain ⟨rows, hresult, hown, rfl⟩ := insertProviderStreams_rows h
  refine ⟨rows.length, hresult, rfl, rfl, rfl, rfl, fun id => ?_⟩
  have hcounts := count_rows StreamRow.snapshot rows snapshot.id hown id
  simp only [Database.stagedRowCount, Table.count_append, hcounts]
  omega

theorem insertEpgChannels_ok {db after : Database} {snapshot : PreparedSnapshot}
    {progress : ActivationProgress} {staged result : Nat}
    (h : insertEpgChannels db snapshot progress staged = .ok (after, result)) :
    ∃ rows, result = staged + rows ∧ AddsRows snapshot.id rows db after := by
  obtain ⟨rows, hresult, hown, -, rfl⟩ := insertEpgChannels_rows h
  refine ⟨rows.length, hresult, rfl, rfl, rfl, rfl, fun id => ?_⟩
  have hcounts := count_rows EpgChannelRow.snapshot rows snapshot.id hown id
  simp only [Database.stagedRowCount, Table.count_append, hcounts]
  omega

theorem insertProgrammes_ok {db after : Database} {snapshot : PreparedSnapshot}
    {progress : ActivationProgress} {staged result : Nat}
    (h : insertProgrammes db snapshot progress staged = .ok (after, result)) :
    ∃ rows, result = staged + rows ∧ AddsRows snapshot.id rows db after := by
  obtain ⟨rows, hresult, hown, -, rfl⟩ := insertProgrammes_rows h
  refine ⟨rows.length, hresult, rfl, rfl, rfl, rfl, fun id => ?_⟩
  have hcounts := count_rows ProgrammeRow.snapshot rows snapshot.id hown id
  simp only [Database.stagedRowCount, Table.count_append, hcounts]
  omega

/-- A new snapshot has the number of rows that its header says. -/
structure Inserted (snapshot : PreparedSnapshot) (now : Time) (row : SnapshotRow)
    (db after : Database) : Prop where
  snapshots : after.snapshots = db.snapshots ++ [row]
  fresh : row.id ∉ db.snapshots.map SnapshotRow.id
  activations : after.activations = db.activations
  runs : after.runs = db.runs
  jobs : after.jobs = db.jobs
  counts : ∀ id, after.stagedRowCount id =
    db.stagedRowCount id + if id = snapshot.id then snapshot.recordCount else 0
  id : row.id = snapshot.id
  owner : row.owner = snapshot.owner
  kind : row.kind = snapshot.kind
  checksum : row.checksum = snapshot.checksum
  fetchedAt : row.fetchedAt = now
  status : row.status = .staging
  recordCount : row.recordCount = snapshot.recordCount

theorem insertSnapshot_ok {db after : Database} {now : Time} {snapshot : PreparedSnapshot}
    {progress : ActivationProgress} (h : insertSnapshot db now snapshot progress = .ok after) :
    ∃ row, Inserted snapshot now row db after := by
  unfold insertSnapshot at h
  obtain ⟨headed, hheader, h⟩ := of_bind h
  obtain ⟨⟨streamed, first⟩, hstreams, h⟩ := of_bind h
  obtain ⟨⟨channelled, second⟩, hchannels, h⟩ := of_bind h
  obtain ⟨⟨filled, third⟩, hprogrammes, h⟩ := of_bind h
  obtain ⟨_, hstaged, h⟩ := of_bind h
  have hstaged : third = snapshot.recordCount := of_ensure hstaged
  obtain rfl : filled = after := of_pure h
  obtain ⟨m, hm, hadds⟩ := insertProviderStreams_ok hstreams
  obtain ⟨n, hn, hadds'⟩ := insertEpgChannels_ok hchannels
  obtain ⟨k, hk, hadds''⟩ := insertProgrammes_ok hprogrammes
  have hall := (hadds.trans hadds').trans hadds''
  rw [show m + n + k = snapshot.recordCount by omega] at hall
  unfold insertSnapshotHeader at hheader
  obtain ⟨_, hid, hheader⟩ := of_bind hheader
  obtain ⟨-, -, hheader⟩ := of_bind hheader
  obtain rfl := of_pure hheader
  have hid := of_ensure hid
  rw [List.map_append, List.nodup_append] at hid
  refine ⟨_, hall.snapshots, ?_, hall.activations, hall.runs, hall.jobs, hall.counts, rfl, rfl, rfl,
    rfl, rfl, rfl, rfl⟩
  intro hmem
  exact hid.2.2 _ hmem _ (List.mem_singleton_self _) rfl

/-! ## One active snapshot -/

/-- Keys are unique, rows belong to a snapshot, and an owner has one active snapshot of a kind. -/
structure StoreOk (db : Database) : Prop where
  ids : (db.snapshots.map SnapshotRow.id).Nodup
  orphans : ∀ id, id ∉ db.snapshots.map SnapshotRow.id → db.stagedRowCount id = 0
  single : ∀ a ∈ db.snapshots, ∀ b ∈ db.snapshots, a.status = .active → b.status = .active →
    a.owner = b.owner → a.kind = b.kind → a.id = b.id

/-- A database with the same snapshots and no more rows. -/
theorem StoreOk.shrink {db after : Database} (h : StoreOk db)
    (hsnapshots : after.snapshots = db.snapshots)
    (hrows : ∀ id, after.stagedRowCount id ≤ db.stagedRowCount id) : StoreOk after where
  ids := hsnapshots ▸ h.ids
  orphans id hid := Nat.le_zero.mp (h.orphans id (hsnapshots ▸ hid) ▸ hrows id)
  single := hsnapshots ▸ h.single

theorem StoreOk.insert {db after : Database} (h : StoreOk db) {snapshot : PreparedSnapshot}
    {now : Time} {row : SnapshotRow} (hrow : Inserted snapshot now row db after) : StoreOk after where
  ids := by
    rw [hrow.snapshots, List.map_append, List.nodup_append]
    exact ⟨h.ids, by simp, fun id hid other hother heq => hrow.fresh (by simp_all)⟩
  orphans id hid := by
    rw [hrow.snapshots, List.map_append, List.mem_append, not_or] at hid
    have hne : id ≠ snapshot.id := fun heq => hid.2 (by simp [hrow.id, heq])
    rw [hrow.counts, h.orphans id hid.1, if_neg hne]
  single := by
    have hstaging : row.status ≠ .active := by rw [hrow.status]; decide
    rw [hrow.snapshots]
    intro a ha b hb hactive hactive'
    rcases List.mem_append.mp ha with ha | ha
    · rcases List.mem_append.mp hb with hb | hb
      · exact h.single a ha b hb hactive hactive'
      · cases List.mem_singleton.mp hb
        exact absurd hactive' hstaging
    · cases List.mem_singleton.mp ha
      exact absurd hactive hstaging

/-- An update that makes no snapshot active. -/
theorem StoreOk.update {db : Database} (h : StoreOk db) {p : SnapshotRow → Bool}
    {f : SnapshotRow → SnapshotRow} (hid : ∀ row, (f row).id = row.id)
    (hactive : ∀ row, (f row).status = .active → row.status = .active ∧
      (f row).owner = row.owner ∧ (f row).kind = row.kind) : StoreOk (db.updateSnapshots p f) := by
  have hids : (db.updateSnapshots p f).snapshots.map SnapshotRow.id =
      db.snapshots.map SnapshotRow.id := Table.map_update fun row _ => hid row
  have hold : ∀ row ∈ (db.updateSnapshots p f).snapshots, row.status = .active →
      ∃ old ∈ db.snapshots, old.status = .active ∧ row.id = old.id ∧ row.owner = old.owner ∧
        row.kind = old.kind := by
    intro row hrow hstatus
    rcases Table.update_cases hrow with ⟨hmem, -⟩ | ⟨old, hmem, -, rfl⟩
    · exact ⟨row, hmem, hstatus, rfl, rfl, rfl⟩
    · obtain ⟨hbefore, howner, hkind⟩ := hactive old hstatus
      exact ⟨old, hmem, hbefore, hid old, howner, hkind⟩
  refine ⟨hids ▸ h.ids, fun id hmem => h.orphans id (hids ▸ hmem), ?_⟩
  intro a ha b hb hact hact' howner hkind
  obtain ⟨olda, hmema, hacta, hida, howna, hkinda⟩ := hold a ha hact
  obtain ⟨oldb, hmemb, hactb, hidb, hownb, hkindb⟩ := hold b hb hact'
  rw [hida, hidb]
  exact h.single olda hmema oldb hmemb hacta hactb (by rw [← howna, ← hownb, howner])
    (by rw [← hkinda, ← hkindb, hkind])

theorem StoreOk.delete {db : Database} (h : StoreOk db) (p : SnapshotRow → Bool) :
    StoreOk (db.deleteSnapshots p) where
  ids := Table.nodup_delete h.ids
  orphans id hid := by
    by_cases hold : id ∈ db.snapshots.map SnapshotRow.id
    · -- The snapshot is deleted, and its rows with it.
      obtain ⟨row, hrow, rfl⟩ := List.mem_map.mp hold
      have hp : p row = true := by
        by_contra hkept
        exact hid (List.mem_map_of_mem (Table.mem_delete.mpr ⟨hrow, by simpa using hkept⟩))
      have hgone : ((db.snapshots.filter p).map SnapshotRow.id).contains row.id = true := by
        simpa using ⟨row, ⟨hrow, hp⟩, rfl⟩
      have hnone : ∀ {α : Type} (at_ : α → Uuid) (q : α → Bool) (rows : List α),
          (∀ other, at_ other = row.id → q other = true) →
          Table.count (fun other => decide (at_ other = row.id)) (Table.delete q rows) = 0 := by
        intro α at_ q rows hq
        refine Table.count_eq_zero.mpr fun other hother => decide_eq_false fun heq => ?_
        have hkept := (Table.mem_delete.mp hother).2
        rw [hq other heq] at hkept
        cases hkept
      simp only [Database.stagedRowCount, Database.deleteSnapshots]
      rw [hnone, hnone, hnone]
      all_goals
        intro other heq
        simp only [heq, hgone, Bool.true_or]
    · have hle : (db.deleteSnapshots p).stagedRowCount id ≤ db.stagedRowCount id :=
        Nat.add_le_add (Nat.add_le_add Table.count_delete_le Table.count_delete_le)
          Table.count_delete_le
      exact Nat.le_zero.mp (h.orphans id hold ▸ hle)
  single a ha b hb := h.single a (Table.mem_delete.mp ha).1 b (Table.mem_delete.mp hb).1

theorem mem_supersedeCurrent {db : Database} {owner : SnapshotOwner} {kind : SnapshotKind}
    {replacement : Uuid} {row : SnapshotRow}
    (h : row ∈ (supersedeCurrent db owner kind replacement).snapshots) :
    (row ∈ db.snapshots ∧ (row.status = .active → row.owner = owner → row.kind = kind →
      row.id = replacement)) ∨ (row.status = .superseded ∧ row.id ≠ replacement) := by
  rcases Table.update_cases h with ⟨hrow, hnot⟩ | ⟨old, -, hp, rfl⟩
  · refine .inl ⟨hrow, fun hactive howner hkind => ?_⟩
    by_contra hne
    exact of_decide_eq_false hnot ⟨howner, hkind, hactive, hne⟩
  · exact .inr ⟨rfl, (of_decide_eq_true hp).2.2.2⟩

/-- Making a snapshot active after the current one was superseded. -/
theorem StoreOk.publish {db : Database} (h : StoreOk db) {row : SnapshotRow}
    (hrow : row ∈ db.snapshots) {p : SnapshotRow → Bool} (hp : ∀ other, p other = true →
      other.id = row.id) (now : Time) :
    StoreOk ((supersedeCurrent db row.owner row.kind row.id).setActive p now) := by
  generalize hquiet : supersedeCurrent db row.owner row.kind row.id = quiet
  have hok : StoreOk quiet := by
    rw [← hquiet]
    exact h.update (fun _ => rfl) (by simp)
  have hids : (quiet.setActive p now).snapshots.map SnapshotRow.id =
      quiet.snapshots.map SnapshotRow.id := Table.map_update fun _ _ => rfl
  -- A row of the published snapshot has its owner and kind.
  have hsame : ∀ other ∈ quiet.snapshots, other.id = row.id →
      other.owner = row.owner ∧ other.kind = row.kind := by
    intro other hother hid
    rcases mem_supersedeCurrent (hquiet ▸ hother) with ⟨hmem, -⟩ | ⟨-, hne⟩
    · cases Table.eq_of_key h.ids hmem hrow hid
      exact ⟨rfl, rfl⟩
    · exact absurd hid hne
  have hcases : ∀ other ∈ (quiet.setActive p now).snapshots, other.status = .active →
      (other.id = row.id ∧ other.owner = row.owner ∧ other.kind = row.kind) ∨
        (other ∈ db.snapshots ∧ (other.owner = row.owner → other.kind = row.kind →
          other.id = row.id)) := by
    intro other hother hactive
    rcases Table.update_cases hother with ⟨hmem, -⟩ | ⟨old, hold, hpold, rfl⟩
    · rcases mem_supersedeCurrent (hquiet ▸ hmem) with ⟨hkept, honly⟩ | ⟨hstatus, -⟩
      · exact .inr ⟨hkept, honly hactive⟩
      · rw [hstatus] at hactive
        cases hactive
    · exact .inl ⟨hp old hpold, hsame old hold (hp old hpold)⟩
  refine ⟨hids ▸ hok.ids, fun id hid => hok.orphans id (hids ▸ hid), ?_⟩
  intro a ha b hb hactive hactive' howner hkind
  rcases hcases a ha hactive with ⟨hid, howner', hkind'⟩ | ⟨hmem, honly⟩
  · rcases hcases b hb hactive' with ⟨hid', -⟩ | ⟨-, honly'⟩
    · exact hid.trans hid'.symm
    · rw [hid, honly' (howner ▸ howner') (hkind ▸ hkind')]
  · rcases hcases b hb hactive' with ⟨hid', howner', hkind'⟩ | ⟨hmem', -⟩
    · rw [hid', honly (howner.trans howner') (hkind.trans hkind')]
    · exact h.single a hmem b hmem' hactive hactive' howner hkind

/-! ## Checked activations -/

/-- The snapshot was staged or active before, and has all its rows. -/
def Activation.Checked (activation : Activation) : Prop :=
  (activation.before = .staging ∨ activation.before = .superseded) ∧
    activation.rows = activation.recordCount

instance (activation : Activation) : Decidable activation.Checked :=
  inferInstanceAs (Decidable (_ ∧ _))

/-- What a publication adds to the log. -/
theorem mem_activations_publish {db : Database} (h : StoreOk db) {row : SnapshotRow}
    (hrow : row ∈ db.snapshots) {p : SnapshotRow → Bool} (hp : ∀ other, p other = true →
      other.id = row.id) {now : Time} {activation : Activation}
    (hmem : activation ∈
      ((supersedeCurrent db row.owner row.kind row.id).setActive p now).activations) :
    activation ∈ db.activations ∨ (row.status ≠ .active ∧ p row = true ∧
      activation = ⟨row.id, row.status, db.stagedRowCount row.id, row.recordCount⟩) := by
  rcases List.mem_append.mp hmem with hmem | hmem
  · exact .inl hmem
  · obtain ⟨other, hother, rfl⟩ := List.mem_map.mp hmem
    obtain ⟨hother, hpick⟩ := List.mem_filter.mp hother
    obtain ⟨hpick, hstatus⟩ := Bool.and_eq_true_iff.mp hpick
    have hid := hp other hpick
    rcases mem_supersedeCurrent hother with ⟨hold, -⟩ | ⟨-, hne⟩
    · cases Table.eq_of_key h.ids hold hrow hid
      exact .inr ⟨of_decide_eq_true hstatus, hpick, rfl⟩
    · exact absurd hid hne

/-! ## One call -/

/-- A call that makes nothing active. -/
structure Quiet (db after : Database) : Prop where
  ok : StoreOk db → StoreOk after
  activations : after.activations = db.activations

theorem Quiet.refl (db : Database) : Quiet db db := ⟨id, rfl⟩

theorem Quiet.trans {a b c : Database} (h : Quiet a b) (h' : Quiet b c) : Quiet a c :=
  ⟨fun hok => h'.ok (h.ok hok), h'.activations.trans h.activations⟩

theorem quiet_stageDispatch (store : PgSnapshotStore) (db : Database) (now : Time)
    (intentId snapshotId : Uuid) : Quiet db (store.stageDispatch db now intentId snapshotId) := by
  rw [PgSnapshotStore.stageDispatch_tables]
  exact ⟨fun h => h.shrink rfl fun _ => Nat.le_refl _, rfl⟩

theorem quiet_updateSnapshots (db : Database) {p : SnapshotRow → Bool}
    {f : SnapshotRow → SnapshotRow} (hid : ∀ row, (f row).id = row.id)
    (hactive : ∀ row, (f row).status = .active → row.status = .active ∧
      (f row).owner = row.owner ∧ (f row).kind = row.kind) : Quiet db (db.updateSnapshots p f) :=
  ⟨fun h => h.update hid hactive, rfl⟩

theorem quiet_insertSnapshot {db after : Database} {now : Time} {snapshot : PreparedSnapshot}
    {progress : ActivationProgress} (h : insertSnapshot db now snapshot progress = .ok after) :
    Quiet db after := by
  obtain ⟨row, hrow⟩ := insertSnapshot_ok h
  exact ⟨fun hok => hok.insert hrow, hrow.activations⟩

theorem transact_cases {ε α : Type} (db : Database) (body : Except ε (Database × α)) :
    (transact db body).1 = db ∨ ∃ after result, body = .ok (after, result) ∧
      (transact db body).1 = after := by
  cases body with
  | error error => exact .inl rfl
  | ok result => exact .inr ⟨result.1, result.2, rfl, rfl⟩

/-- The ways to stage a snapshot. -/
inductive Stages (store : PgSnapshotStore) (db : Database) (now : Time) (intentId : Uuid)
    (snapshot : PreparedSnapshot) (progress : ActivationProgress) :
    Database → Uuid → Bool → Prop where
  | active {row : SnapshotRow} : db.matching snapshot = some row → row.status = .active →
      Stages store db now intentId snapshot progress db row.id true
  | staging {row : SnapshotRow} : db.matching snapshot = some row → row.status = .staging →
      Stages store db now intentId snapshot progress
        (store.stageDispatch db now intentId row.id) row.id true
  | superseded {row : SnapshotRow} : db.matching snapshot = some row → row.status = .superseded →
      db.stagedRowCount row.id = snapshot.recordCount →
      Stages store db now intentId snapshot progress
        (store.stageDispatch (db.updateSnapshots (fun other => other.id = row.id) fun other =>
          { other with status := .staging, stagedAt := some now, activatedAt := none })
          now intentId row.id) row.id true
  | inserted {inserted : Database} : db.matching snapshot = none →
      insertSnapshot db now snapshot progress = .ok inserted →
      Stages store db now intentId snapshot progress
        (store.stageDispatch (inserted.updateSnapshots (fun other => other.id = snapshot.id)
          fun other => { other with stagedAt := some now }) now intentId snapshot.id)
        snapshot.id false

theorem stageTransaction_cases {store : PgSnapshotStore} {db after : Database} {now : Time}
    {intentId id : Uuid} {snapshot : PreparedSnapshot} {progress : ActivationProgress}
    {existed : Bool}
    (h : store.stageTransaction db now intentId snapshot progress = .ok (after, id, existed)) :
    Stages store db now intentId snapshot progress after id existed := by
  unfold PgSnapshotStore.stageTransaction at h
  obtain ⟨-, -, h⟩ := of_bind h
  split at h
  · rename_i row hfound
    split at h
    · rename_i hstatus
      cases of_pure h
      exact .active hfound hstatus
    · rename_i hstatus
      obtain ⟨-, -, h⟩ := of_bind h
      cases of_pure h
      exact .staging hfound hstatus
    · rename_i hstatus
      obtain ⟨_, hcount, h⟩ := of_bind h
      cases of_pure h
      exact .superseded hfound hstatus (of_ensure hcount)
    · cases h
  · rename_i hfound
    obtain ⟨inserted, hinsert, h⟩ := of_bind h
    cases of_pure h
    exact .inserted hfound hinsert

theorem quiet_stages {store : PgSnapshotStore} {db after : Database} {now : Time}
    {intentId id : Uuid} {snapshot : PreparedSnapshot} {progress : ActivationProgress}
    {existed : Bool} (h : Stages store db now intentId snapshot progress after id existed) :
    Quiet db after := by
  cases h with
  | active => exact .refl db
  | staging => exact quiet_stageDispatch ..
  | superseded =>
    refine Quiet.trans ?_ (quiet_stageDispatch ..)
    exact quiet_updateSnapshots db (fun _ => rfl) (by simp)
  | inserted hfound hinsert =>
    refine ((quiet_insertSnapshot hinsert).trans ?_).trans (quiet_stageDispatch ..)
    exact quiet_updateSnapshots _ (fun _ => rfl) fun _ h => ⟨h, rfl, rfl⟩

theorem stageWithProgress_cases (store : PgSnapshotStore) (db : Database) (now : Time)
    (intentId : Uuid) (snapshot : PreparedSnapshot) (progress : ActivationProgress) :
    (store.stageWithProgress db now intentId snapshot progress).1 = db ∨ ∃ id existed,
      Stages store db now intentId snapshot progress
        (store.stageWithProgress db now intentId snapshot progress).1 id existed := by
  have hbody : (store.stageWithProgress db now intentId snapshot progress).1 =
      (transact db (store.stageTransaction db now intentId snapshot progress)).1 := by
    unfold PgSnapshotStore.stageWithProgress
    split <;> simp_all
  rw [hbody]
  rcases transact_cases db (store.stageTransaction db now intentId snapshot progress) with
    hsame | ⟨after, ⟨id, existed⟩, hstage, hafter⟩
  · exact .inl hsame
  · rw [hafter]
    exact .inr ⟨id, existed, stageTransaction_cases hstage⟩

theorem quiet_stage (store : PgSnapshotStore) (db : Database) (now : Time) (intentId : Uuid)
    (snapshot : PreparedSnapshot) (progress : ActivationProgress) :
    Quiet db (store.stageWithProgress db now intentId snapshot progress).1 := by
  rcases stageWithProgress_cases store db now intentId snapshot progress with
    hsame | ⟨id, existed, hstages⟩
  · rw [hsame]
    exact .refl db
  · exact quiet_stages hstages

theorem activateStaging_ok {db after : Database} {snapshotId : Uuid} {now : Time}
    (h : activateStaging db snapshotId now = .ok after) :
    after = db.setActive (fun row => decide (row.id = snapshotId ∧ row.status = .staging)) now := by
  unfold activateStaging at h
  obtain ⟨-, -, h⟩ := of_bind h
  exact (of_pure h).symm

theorem Database.mem_of_snapshot {db : Database} {id : Uuid} {row : SnapshotRow}
    (h : db.snapshot id = some row) : row ∈ db.snapshots ∧ row.id = id :=
  ⟨List.mem_of_find?_eq_some h, by simpa using List.find?_some h⟩

/-- A staged snapshot with all its rows may become active. -/
theorem activateStaged_cases {db after : Database} (h : StoreOk db) {snapshotId result : Uuid}
    {now : Time} (hactivate : activateStaged db snapshotId now = .ok (after, result)) :
    StoreOk after ∧ ∀ activation ∈ after.activations,
      activation ∈ db.activations ∨ activation.Checked := by
  unfold activateStaged at hactivate
  split at hactivate
  · cases hactivate
  rename_i row hfound
  obtain ⟨hrow, rfl⟩ := Database.mem_of_snapshot hfound
  split_ifs at hactivate
  · obtain ⟨rfl, -⟩ := Prod.mk.inj (of_pure hactivate)
    exact ⟨h, fun _ hmem => .inl hmem⟩
  obtain ⟨_, hready, hactivate⟩ := of_bind hactivate
  obtain ⟨_, hcount, hactivate⟩ := of_bind hactivate
  obtain ⟨active, hactive, hactivate⟩ := of_bind hactivate
  obtain ⟨rfl, -⟩ := Prod.mk.inj (of_pure hactivate)
  obtain rfl := activateStaging_ok hactive
  have hp : ∀ other : SnapshotRow, decide (other.id = row.id ∧ other.status = .staging) = true →
      other.id = row.id := fun other hother => (of_decide_eq_true hother).1
  refine ⟨h.publish hrow hp now, fun activation hmem => ?_⟩
  rcases mem_activations_publish h hrow hp hmem with hold | ⟨-, -, rfl⟩
  · exact .inl hold
  · exact .inr ⟨.inl (of_ensure hready).1, of_ensure hcount⟩

theorem Database.matching_spec {db : Database} {snapshot : PreparedSnapshot} {row : SnapshotRow}
    (h : db.matching snapshot = some row) : row ∈ db.snapshots ∧ row.owner = snapshot.owner ∧
      row.kind = snapshot.kind ∧ row.checksum = snapshot.checksum :=
  ⟨List.mem_of_find?_eq_some h, by simpa using List.find?_some h⟩

/-! ## The rows of provider snapshots -/

/-- A staged snapshot of a provider has its number of streams and no other rows. -/
structure ProviderRecords (db : Database) : Prop where
  guideless : ∀ row ∈ db.snapshots, (row.kind = .m3u ∨ row.kind = .xtream) →
    Table.count (fun channel => channel.snapshot = row.id) db.epgChannels = 0 ∧
      Table.count (fun programme => programme.snapshot = row.id) db.programmes = 0
  records : ∀ row ∈ db.snapshots, row.stagedAt.isSome → (row.kind = .m3u ∨ row.kind = .xtream) →
    Table.count (fun stream => stream.snapshot = row.id) db.streams = row.recordCount

/-- The rows of a new snapshot, table by table. -/
structure InsertedRows (snapshot : PreparedSnapshot) (db after : Database)
    (streams : List StreamRow) (channels : List EpgChannelRow)
    (programmes : List ProgrammeRow) : Prop where
  streams_eq : after.streams = db.streams ++ streams
  channels_eq : after.epgChannels = db.epgChannels ++ channels
  programmes_eq : after.programmes = db.programmes ++ programmes
  streams_own : ∀ row ∈ streams, row.snapshot = snapshot.id
  channels_own : ∀ row ∈ channels, row.snapshot = snapshot.id
  programmes_own : ∀ row ∈ programmes, row.snapshot = snapshot.id
  guideless : snapshot.kind = .m3u ∨ snapshot.kind = .xtream → channels = []
  same : programmes.length = snapshot.programmes.length

theorem insertSnapshot_rows {db after : Database} {now : Time} {snapshot : PreparedSnapshot}
    {progress : ActivationProgress} (h : insertSnapshot db now snapshot progress = .ok after) :
    ∃ streams channels programmes, InsertedRows snapshot db after streams channels programmes := by
  unfold insertSnapshot at h
  obtain ⟨headed, hheader, h⟩ := of_bind h
  obtain ⟨⟨streamed, first⟩, hstreams, h⟩ := of_bind h
  obtain ⟨⟨channelled, second⟩, hchannels, h⟩ := of_bind h
  obtain ⟨⟨filled, third⟩, hprogrammes, h⟩ := of_bind h
  obtain ⟨-, -, h⟩ := of_bind h
  obtain rfl : filled = after := of_pure h
  unfold insertSnapshotHeader at hheader
  obtain ⟨-, -, hheader⟩ := of_bind hheader
  obtain ⟨-, -, hheader⟩ := of_bind hheader
  obtain rfl := of_pure hheader
  obtain ⟨streams, -, hstreamsOwn, rfl⟩ := insertProviderStreams_rows hstreams
  obtain ⟨channels, -, hchannelsOwn, hguideless, rfl⟩ := insertEpgChannels_rows hchannels
  obtain ⟨programmes, -, hprogrammesOwn, hsame, rfl⟩ := insertProgrammes_rows hprogrammes
  exact ⟨streams, channels, programmes, rfl, rfl, rfl, hstreamsOwn, hchannelsOwn, hprogrammesOwn,
    hguideless, hsame⟩

theorem InsertedRows.counts {snapshot : PreparedSnapshot} {db after : Database}
    {streams : List StreamRow} {channels : List EpgChannelRow} {programmes : List ProgrammeRow}
    (h : InsertedRows snapshot db after streams channels programmes) (id : Uuid) :
    (Table.count (fun row => row.snapshot = id) after.streams =
      Table.count (fun row => row.snapshot = id) db.streams +
        if id = snapshot.id then streams.length else 0) ∧
    (Table.count (fun row => row.snapshot = id) after.epgChannels =
      Table.count (fun row => row.snapshot = id) db.epgChannels +
        if id = snapshot.id then channels.length else 0) ∧
    (Table.count (fun row => row.snapshot = id) after.programmes =
      Table.count (fun row => row.snapshot = id) db.programmes +
        if id = snapshot.id then programmes.length else 0) := by
  rw [h.streams_eq, h.channels_eq, h.programmes_eq]
  simp only [Table.count_append]
  rw [count_rows StreamRow.snapshot streams snapshot.id h.streams_own,
    count_rows EpgChannelRow.snapshot channels snapshot.id h.channels_own,
    count_rows ProgrammeRow.snapshot programmes snapshot.id h.programmes_own]
  exact ⟨rfl, rfl, rfl⟩

/-- The new snapshot has its number of streams before it is marked as staged. -/
theorem ProviderRecords.insert {db after : Database} (h : ProviderRecords db) (hok : StoreOk db)
    {snapshot : PreparedSnapshot} {now : Time} {row : SnapshotRow} {streams : List StreamRow}
    {channels : List EpgChannelRow} {programmes : List ProgrammeRow}
    (hrow : Inserted snapshot now row db after)
    (hrows : InsertedRows snapshot db after streams channels programmes)
    (hguideless : snapshot.kind = .m3u ∨ snapshot.kind = .xtream → snapshot.programmes = []) :
    ∀ other ∈ after.snapshots, (other.kind = .m3u ∨ other.kind = .xtream) →
      (Table.count (fun channel => channel.snapshot = other.id) after.epgChannels = 0 ∧
        Table.count (fun programme => programme.snapshot = other.id) after.programmes = 0) ∧
      (other.stagedAt.isSome ∨ other.id = snapshot.id →
        Table.count (fun stream => stream.snapshot = other.id) after.streams =
          other.recordCount) := by
  have hfresh : snapshot.id ∉ db.snapshots.map SnapshotRow.id := hrow.id ▸ hrow.fresh
  intro other hother hkind
  rw [hrow.snapshots] at hother
  rcases List.mem_append.mp hother with hold | hnew
  · have hne : other.id ≠ snapshot.id := fun heq => hfresh (heq ▸ List.mem_map_of_mem hold)
    obtain ⟨hstreams, hchannels, hprogrammes⟩ := hrows.counts other.id
    simp only [hstreams, hchannels, hprogrammes, if_neg hne, Nat.add_zero]
    exact ⟨h.guideless other hold hkind,
      fun hstaged => h.records other hold (hstaged.resolve_right hne) hkind⟩
  · obtain rfl := List.mem_singleton.mp hnew
    rw [hrow.kind] at hkind
    obtain ⟨hstreams, hchannels, hprogrammes⟩ := hrows.counts snapshot.id
    have hempty : programmes.length = 0 := by rw [hrows.same, hguideless hkind, List.length_nil]
    rw [if_pos rfl, hrows.guideless hkind, List.length_nil] at hchannels
    rw [if_pos rfl, hempty] at hprogrammes
    -- The count of the transaction is the count of the streams.
    have hnone := hok.orphans snapshot.id hfresh
    have hcount := hrow.counts snapshot.id
    rw [if_pos rfl, hnone] at hcount
    unfold Database.stagedRowCount at hnone hcount
    rw [hrow.id, hrow.recordCount]
    refine ⟨⟨?_, ?_⟩, fun _ => ?_⟩ <;> omega

/-- Staging keeps this, when providers have no programmes and a checksum is that of one number of
records. -/
theorem providerRecords_stage {store : PgSnapshotStore} {db : Database} (hok : StoreOk db)
    (h : ProviderRecords db) (now : Time) (intentId : Uuid) {snapshot : PreparedSnapshot}
    (hguideless : snapshot.kind = .m3u ∨ snapshot.kind = .xtream → snapshot.programmes = [])
    (hsame : ∀ row, db.matching snapshot = some row → row.recordCount = snapshot.recordCount)
    (progress : ActivationProgress) :
    ProviderRecords (store.stageWithProgress db now intentId snapshot progress).1 := by
  have hdispatch : ∀ {staged : Database} (id : Uuid), ProviderRecords staged →
      ProviderRecords (store.stageDispatch staged now intentId id) := by
    intro staged id hstaged
    rw [PgSnapshotStore.stageDispatch_tables]
    exact ⟨hstaged.guideless, hstaged.records⟩
  rcases stageWithProgress_cases store db now intentId snapshot progress with
    hsame | ⟨id, existed, hstages⟩
  · rwa [hsame]
  generalize (store.stageWithProgress db now intentId snapshot progress).1 = after at hstages
  cases hstages with
  | active => exact h
  | staging => exact hdispatch _ h
  | @superseded row hfound hstatus hcount =>
    refine hdispatch _ ⟨fun other hother => ?_, fun other hother hstaged hkind => ?_⟩
    · rcases Table.update_cases hother with ⟨hold, -⟩ | ⟨old, hold, -, rfl⟩
      · exact h.guideless other hold
      · exact h.guideless old hold
    · rcases Table.update_cases hother with ⟨hold, -⟩ | ⟨old, hold, hid, rfl⟩
      · exact h.records other hold hstaged hkind
      · -- The rows of the snapshot that is staged again were counted.
        obtain rfl := Table.eq_of_key hok.ids hold (Database.matching_spec hfound).1
          (of_decide_eq_true hid)
        obtain ⟨hchannels, hprogrammes⟩ := h.guideless old hold hkind
        rw [Database.stagedRowCount, hchannels, hprogrammes] at hcount
        exact hcount.trans (hsame old hfound).symm
  | @inserted inserted hnone hinsert =>
    obtain ⟨row, hrow⟩ := insertSnapshot_ok hinsert
    obtain ⟨streams, channels, programmes, hrows⟩ := insertSnapshot_rows hinsert
    have hinserted := h.insert hok hrow hrows hguideless
    refine hdispatch _ ⟨fun other hother => ?_, fun other hother hstaged hkind => ?_⟩
    · rcases Table.update_cases hother with ⟨hold, -⟩ | ⟨old, hold, -, rfl⟩
      · exact fun hkind => (hinserted other hold hkind).1
      · exact fun hkind => (hinserted old hold hkind).1
    · rcases Table.update_cases hother with ⟨hold, -⟩ | ⟨old, hold, hid, rfl⟩
      · exact (hinserted other hold hkind).2 (.inl hstaged)
      · exact (hinserted old hold hkind).2 (.inr (of_decide_eq_true hid))

/-! ## Activations -/

/-- A new snapshot is checked, the one found again is taken as it is. -/
theorem activateWithProgress_cases {db after : Database} (h : StoreOk db) {now : Time}
    {snapshot : PreparedSnapshot} {progress : ActivationProgress} {result : Uuid}
    (hactivate : activateWithProgress db now snapshot progress = .ok (after, result)) :
    StoreOk after ∧ ∀ activation ∈ after.activations,
      activation ∈ db.activations ∨ activation.Checked ∨
        validateSnapshot snapshot = .ok () ∧ ∃ existing,
          db.matching snapshot = some existing ∧ existing.status ≠ .active ∧
            activation = ⟨existing.id, existing.status, db.stagedRowCount existing.id,
              existing.recordCount⟩ := by
  unfold activateWithProgress at hactivate
  obtain ⟨⟨⟩, hvalid, hactivate⟩ := of_bind hactivate
  split at hactivate
  · rename_i existing hfound
    obtain ⟨-, -, hactivate⟩ := of_bind hactivate
    obtain ⟨rfl, -⟩ := Prod.mk.inj (of_pure hactivate)
    obtain ⟨hrow, howner, hkind, -⟩ := Database.matching_spec hfound
    rw [← howner, ← hkind]
    have hp : ∀ other : SnapshotRow, decide (other.id = existing.id) = true →
        other.id = existing.id := fun other => of_decide_eq_true
    refine ⟨h.publish hrow hp now, fun activation hmem => ?_⟩
    rcases mem_activations_publish h hrow hp hmem with hold | ⟨hstatus, -, heq⟩
    · exact .inl hold
    · exact .inr (.inr ⟨hvalid, existing, hfound, hstatus, heq⟩)
  · obtain ⟨inserted, hinsert, hactivate⟩ := of_bind hactivate
    obtain ⟨active, hactive, hactivate⟩ := of_bind hactivate
    obtain ⟨rfl, -⟩ := Prod.mk.inj (of_pure hactivate)
    obtain rfl := activateStaging_ok hactive
    obtain ⟨row, hnew⟩ := insertSnapshot_ok hinsert
    have hok := h.insert hnew
    have hrow : row ∈ inserted.snapshots := by simp [hnew.snapshots]
    have hp : ∀ other : SnapshotRow, decide (other.id = row.id ∧ other.status = .staging) = true →
        other.id = row.id := fun other hother => (of_decide_eq_true hother).1
    have hcount : inserted.stagedRowCount row.id = row.recordCount := by
      rw [hnew.counts, h.orphans row.id hnew.fresh, hnew.id, if_pos rfl, hnew.recordCount,
        Nat.zero_add]
    rw [← hnew.id, ← hnew.owner, ← hnew.kind]
    refine ⟨hok.publish hrow hp now, fun activation hmem => ?_⟩
    rcases mem_activations_publish hok hrow hp hmem with hold | ⟨-, -, rfl⟩
    · exact .inl (hnew.activations ▸ hold)
    · exact .inr (.inl ⟨.inl hnew.status, hcount⟩)

/-- A cleanup takes rows away. -/
theorem quiet_cleanupBatch {db after : Database} {now : Time} {retentionSeconds batchSize : Int}
    {linked : List Uuid} {pick : CleanupPick}
    (h : db.cleanupBatch now retentionSeconds batchSize linked pick = some after) :
    Quiet db after := by
  unfold Database.cleanupBatch at h
  obtain ⟨swept, hruns, hsnapshots⟩ := Option.bind_eq_some_iff.mp h
  have hquiet : Quiet db swept := by
    unfold Database.cleanupRuns at hruns
    obtain ⟨-, hruns⟩ := of_guard hruns
    obtain ⟨-, hruns⟩ := of_guard hruns
    obtain ⟨-, hruns⟩ := of_guard hruns
    obtain ⟨-, hruns⟩ := of_guard hruns
    cases hruns
    exact ⟨fun hok => hok.shrink rfl fun _ => Nat.le_refl _, rfl⟩
  unfold Database.cleanupSnapshots at hsnapshots
  obtain ⟨-, hsnapshots⟩ := of_guard hsnapshots
  obtain ⟨-, hsnapshots⟩ := of_guard hsnapshots
  obtain ⟨-, hsnapshots⟩ := of_guard hsnapshots
  obtain ⟨-, hsnapshots⟩ := of_guard hsnapshots
  cases hsnapshots
  refine hquiet.trans ⟨fun hok => StoreOk.delete ?_ _, rfl⟩
  refine hok.shrink rfl fun id => ?_
  exact Nat.add_le_add (Nat.add_le_add Table.count_delete_le Table.count_delete_le)
    Table.count_delete_le

/-! ## Runs -/

/-- Active already, or staged or superseded with all its rows. -/
def Database.InOrder (db : Database) (row : SnapshotRow) : Prop :=
  row.status = .active ∨ ((row.status = .staging ∨ row.status = .superseded) ∧
    db.stagedRowCount row.id = row.recordCount)

instance (db : Database) (row : SnapshotRow) : Decidable (db.InOrder row) :=
  inferInstanceAs (Decidable (_ ∨ _))

/-- When `activate` finds the checksum of a valid snapshot again, the snapshot it finds is in
order. -/
def ReusesInOrder (db : Database) : StoreOp → Prop
  | .activate _ snapshot _ => validateSnapshot snapshot = .ok () →
    ∀ existing, db.matching snapshot = some existing → db.InOrder existing
  | _ => True

/-- `activate` has made the snapshot active that it found. -/
def Reused (db : Database) (op : StoreOp) (activation : Activation) : Prop :=
  ∃ now snapshot progress existing, op = .activate now snapshot progress ∧
    validateSnapshot snapshot = .ok () ∧ db.matching snapshot = some existing ∧ existing.status ≠ .active ∧
    activation = ⟨existing.id, existing.status, db.stagedRowCount existing.id, existing.recordCount⟩

/-- What a call can do to the store and to the log. -/
theorem store_step_cases {db after : Database} (h : StoreOk db) {op : StoreOp}
    (hstep : storeMachine.step db op = some after) :
    StoreOk after ∧ ∀ activation ∈ after.activations,
      activation ∈ db.activations ∨ activation.Checked ∨ Reused db op activation := by
  have hquiet : Quiet db after → StoreOk after ∧ ∀ activation ∈ after.activations,
      activation ∈ db.activations ∨ activation.Checked ∨ Reused db op activation := fun hquiet =>
    ⟨hquiet.ok h, fun _ hmem => .inl (hquiet.activations ▸ hmem)⟩
  cases op with
  | stage store now intentId snapshot progress =>
    cases hstep
    exact hquiet (quiet_stage ..)
  | activate now snapshot progress =>
    cases hstep
    rcases transact_cases db (activateWithProgress db now snapshot progress) with
      hsame | ⟨after, result, hactivate, hafter⟩
    · rw [hsame]
      exact ⟨h, fun _ hmem => .inl hmem⟩
    · rw [hafter]
      obtain ⟨hok, hcases⟩ := activateWithProgress_cases h hactivate
      refine ⟨hok, fun activation hmem => ?_⟩
      rcases hcases activation hmem with
        hold | hchecked | ⟨hvalid, existing, hfound, hstatus, heq⟩
      · exact .inl hold
      · exact .inr (.inl hchecked)
      · exact .inr (.inr ⟨now, snapshot, progress, existing, rfl, hvalid, hfound, hstatus, heq⟩)
  | activateStaged snapshotId now =>
    cases hstep
    rcases transact_cases db (activateStaged db snapshotId now) with
      hsame | ⟨after, result, hactivate, hafter⟩
    · rw [hsame]
      exact ⟨h, fun _ hmem => .inl hmem⟩
    · rw [hafter]
      obtain ⟨hok, hcases⟩ := activateStaged_cases h hactivate
      exact ⟨hok, fun activation hmem => (hcases activation hmem).imp_right .inl⟩
  | discardStaged snapshotId =>
    cases hstep
    exact hquiet ⟨fun hok => hok.delete _, rfl⟩
  | cleanupBatch now retentionSeconds batchSize linked pick => exact hquiet (quiet_cleanupBatch hstep)
  | reject snapshotId =>
    cases hstep
    exact hquiet (quiet_updateSnapshots db (fun _ => rfl) (by simp))
  | elsewhere tables =>
    cases hstep
    exact hquiet ⟨fun hok => hok.shrink rfl fun _ => Nat.le_refl _, rfl⟩

theorem storeOk_of_reachable {ok : Database → StoreOp → Prop} {db : Database}
    (h : storeMachine.ReachableWhere ok db) : StoreOk db := by
  refine h.invariant ⟨by simp [storeMachine], fun _ _ => rfl, by simp [storeMachine]⟩ ?_
  intro db op after hok _ hstep
  exact (store_step_cases hok hstep).1

theorem checked_of_reachable {db : Database} (h : storeMachine.ReachableWhere ReusesInOrder db) :
    ∀ activation ∈ db.activations, activation.Checked := by
  induction h with
  | start => simp [storeMachine]
  | step hbefore hok hstep ih =>
    intro activation hmem
    rcases (store_step_cases (storeOk_of_reachable hbefore) hstep).2 activation hmem with
      hold | hchecked | ⟨now, snapshot, progress, existing, rfl, hvalid, hfound, hstatus, rfl⟩
    · exact ih activation hold
    · exact hchecked
    · rcases hok hvalid existing hfound with hactive | hready
      · exact absurd hactive hstatus
      · exact hready

/-- An owner has one active snapshot of a kind in every run; where `activate` only reuses snapshots
that are in order, every activation was checked. -/
theorem snapshot_gate (db : Database) :
    (storeMachine.Reachable db → ∀ a ∈ db.snapshots, ∀ b ∈ db.snapshots,
      a.status = .active → b.status = .active → a.owner = b.owner → a.kind = b.kind → a = b) ∧
    (storeMachine.ReachableWhere ReusesInOrder db →
      ∀ activation ∈ db.activations, activation.Checked) := by
  refine ⟨fun h a ha b hb hactive hactive' howner hkind => ?_, checked_of_reachable⟩
  have hok := storeOk_of_reachable h
  exact Table.eq_of_key hok.ids ha hb (hok.single a ha b hb hactive hactive' howner hkind)

/-! ## A snapshot that lost rows -/

def samplePlaylist (id : Uuid) (streams : List Uuid) : PreparedSnapshot :=
  { id
    owner := .providerAccount 1
    kind := .m3u
    checksum := id
    byteCount := 1
    recordCount := streams.length
    providerStreams := streams.map fun stream =>
      { id := stream, snapshot := id, stableKey := toString stream, name := "News" } }

/-- Two playlists, both published, then the first one again. -/
def returnToFirst : List StoreOp :=
  [.activate 0 (samplePlaylist 10 [1, 2]) noopActivationProgress,
    .activate 100 (samplePlaylist 20 [3]) noopActivationProgress,
    .activate 300 (samplePlaylist 10 [1, 2]) noopActivationProgress]

/-- The same with a cleanup that removes one row of the superseded playlist. -/
def returnAfterCleanup : List StoreOp :=
  [.activate 0 (samplePlaylist 10 [1, 2]) noopActivationProgress,
    .activate 100 (samplePlaylist 20 [3]) noopActivationProgress,
    .cleanupBatch 200 60 1 []
      { snapshots := [⟨10, .providerAccount 1, .m3u, .superseded, 10, 1, 2, 0, 0, none, some 0⟩]
        streams := [{ id := 1, snapshot := 10, stableKey := "1", name := "News" }] },
    .activate 300 (samplePlaylist 10 [1, 2]) noopActivationProgress]

theorem reuses_partial_snapshot :
    ∃ db, storeMachine.Reachable db ∧
      (⟨10, .superseded, 1, 2⟩ : Activation) ∈ db.activations := by
  obtain ⟨db, hdb, hp⟩ := storeMachine.exists_reachable_of_run returnAfterCleanup
    (fun db => decide ((⟨10, .superseded, 1, 2⟩ : Activation) ∈ db.activations))
    (by decide +kernel)
  exact ⟨db, hdb, of_decide_eq_true hp⟩

/-- The condition, evaluated. -/
def reusesInOrder (db : Database) : StoreOp → Bool
  | .activate _ snapshot _ => (db.matching snapshot).all fun existing => decide (db.InOrder existing)
  | _ => true

theorem reusesInOrder_sound {db : Database} {op : StoreOp} (h : reusesInOrder db op = true) :
    ReusesInOrder db op := by
  cases op with
  | activate now snapshot progress =>
    intro _ existing hfound
    simpa [reusesInOrder, hfound] using h
  | stage _ _ _ _ _ | activateStaged _ _ | discardStaged _ | cleanupBatch _ _ _ _ _ | reject _
  | elsewhere _ => trivial

theorem snapshot_gate_returned :
    ∃ db, storeMachine.ReachableWhere ReusesInOrder db ∧ db.activations.length = 3 ∧
      (∀ activation ∈ db.activations, activation.Checked) ∧
      ∀ a ∈ db.snapshots, ∀ b ∈ db.snapshots, a.status = .active → b.status = .active →
        a.owner = b.owner → a.kind = b.kind → a = b := by
  obtain ⟨db, hdb, hp⟩ := storeMachine.exists_reachableWhere_of_run ReusesInOrder reusesInOrder
    returnToFirst (fun db => decide (db.activations.length = 3))
    (fun _ _ _ => reusesInOrder_sound) (by decide +kernel)
  exact ⟨db, hdb, of_decide_eq_true hp, (snapshot_gate db).2 hdb,
    (snapshot_gate db).1 hdb.reachable⟩

end IptvRelay.Store
