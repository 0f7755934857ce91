import IptvRelay.Lib.Machine
import IptvRelay.Store.ReconciliationFacts
import Mathlib.Algebra.BigOperators.Group.Finset.Piecewise

/-!
# Partitions against the whole

A run splits the canonical keys of a staged snapshot by a hash, and each partition groups
its own streams. In any order of partitions, with any of them repeated, the candidates are
those of one grouping over all streams, and no count disagrees with the counts that the
coordinator has written.
-/

namespace IptvRelay.Store

open Transition Checked

/-! ## Keys -/

/-- Every key has a partition. -/
theorem partitionOf_bounds (hash : String → Int) {partitionCount : Nat} (hpos : 0 < partitionCount)
    (key : String) :
    0 ≤ partitionOf hash partitionCount key ∧
      partitionOf hash partitionCount key < partitionCount := by
  have hn : (0 : Int) < partitionCount := by exact_mod_cast hpos
  have hlower : -(partitionCount : Int) < (hash key).tmod partitionCount := by
    have h := Int.tmod_lt_of_pos (-hash key) hn
    rw [Int.neg_tmod] at h
    omega
  exact ⟨Int.tmod_nonneg _ (by omega), Int.tmod_lt_of_pos _ hn⟩

/-- The counts of the partitions add up. -/
theorem sum_partition_counts (hash : String → Int) {partitionCount : Nat}
    (hpos : 0 < partitionCount) (keys : List String) :
    ∑ number ∈ Finset.range partitionCount,
      Table.count (fun key => decide (partitionOf hash partitionCount key = number)) keys =
      keys.length := by
  induction keys with
  | nil => simp [Table.count]
  | cons key keys ih =>
    obtain ⟨hlower, hupper⟩ := partitionOf_bounds hash hpos key
    have hsplit : ∀ number : Nat,
        Table.count (fun key => decide (partitionOf hash partitionCount key = number))
          (key :: keys) =
        Table.count (fun key => decide (partitionOf hash partitionCount key = number)) keys +
          if (partitionOf hash partitionCount key).toNat = number then 1 else 0 := by
      intro number
      have hiff : partitionOf hash partitionCount key = number ↔
          (partitionOf hash partitionCount key).toNat = number := by omega
      by_cases heq : partitionOf hash partitionCount key = number
      · simp [Table.count, heq]
      · simp [Table.count, heq, hiff.not.mp heq]
    have hmem : (partitionOf hash partitionCount key).toNat ∈ Finset.range partitionCount :=
      Finset.mem_range.mpr (by omega)
    simp only [hsplit, Finset.sum_add_distrib, ih, Finset.sum_ite_eq, if_pos hmem, List.length_cons]

theorem dedup_filter {α : Type} [DecidableEq α] (p : α → Bool) (xs : List α) :
    (xs.filter p).dedup = xs.dedup.filter p := by
  induction xs with
  | nil => rfl
  | cons x xs ih =>
    by_cases hx : x ∈ xs
    · rw [List.dedup_cons_of_mem hx, ← ih]
      by_cases hp : p x = true
      · rw [List.filter_cons_of_pos hp, List.dedup_cons_of_mem (List.mem_filter.mpr ⟨hx, hp⟩)]
      · rw [List.filter_cons_of_neg hp]
    · rw [List.dedup_cons_of_notMem hx]
      by_cases hp : p x = true
      · rw [List.filter_cons_of_pos hp, List.filter_cons_of_pos hp, List.dedup_cons_of_notMem, ih]
        exact fun h => hx (List.mem_filter.mp h).1
      · rw [List.filter_cons_of_neg hp, List.filter_cons_of_neg hp, ih]

/-! ## Groups -/

section Groups

variable (runId : Uuid) (rows : List StreamRow)

theorem groupCandidates_keys :
    (groupCandidates runId rows).map CandidateRow.canonicalKey =
      (rows.map StreamRow.canonicalKey).dedup := by
  rw [groupCandidates, List.map_map]
  exact List.map_id _

/-- Streams of one key are in one partition, so its group is the same there. -/
theorem groupCandidates_filter (p : String → Bool) :
    groupCandidates runId (rows.filter fun row => p row.canonicalKey) =
      (groupCandidates runId rows).filter fun candidate => p candidate.canonicalKey := by
  have hkeys : (rows.filter fun row => p row.canonicalKey).map StreamRow.canonicalKey =
      (rows.map StreamRow.canonicalKey).filter p := by
    rw [List.filter_map]
    rfl
  unfold groupCandidates
  rw [hkeys, dedup_filter, List.filter_map]
  refine List.map_congr_left fun key hkey => ?_
  have hp : p key = true := (List.mem_filter.mp hkey).2
  congr 2
  rw [List.filter_filter]
  refine List.filter_congr fun row _ => ?_
  by_cases heq : row.canonicalKey = key
  · simp [heq, hp]
  · simp [heq]

variable {runId rows}

theorem run_of_mem_groupCandidates {candidate : CandidateRow}
    (h : candidate ∈ groupCandidates runId rows) : candidate.run = runId := by
  obtain ⟨key, -, rfl⟩ := List.mem_map.mp h
  rfl

/-- The primary key of the candidates. -/
def CandidateRow.key (candidate : CandidateRow) : Uuid × String :=
  (candidate.run, candidate.canonicalKey)

theorem groupCandidates_nodup :
    ((groupCandidates runId rows).map CandidateRow.key).Nodup := by
  have hkeys : ((groupCandidates runId rows).map CandidateRow.canonicalKey).Nodup := by
    rw [groupCandidates_keys]
    exact List.nodup_dedup _
  refine List.Nodup.of_map Prod.snd ?_
  rw [List.map_map]
  exact hkeys

theorem upsertCandidate_eq : upsertCandidate = Table.upsert CandidateRow.key := by
  funext candidates candidate
  simp only [upsertCandidate, Table.upsert, CandidateRow.key, Prod.mk.injEq]

theorem insertCandidateStream_eq : insertCandidateStream = Table.insertNew := rfl

end Groups

/-! ## The invariant -/

/-- What the partitions of a run have written so far, over the streams of its snapshot. -/
structure PartitionsSound (hash : String → Int) (run : RunRow) (streams : List StreamRow)
    (db : Database) : Prop where
  rows : (db.partitions.filter fun row => row.run = run.id).map
      (fun row => (row.number, row.keyCount)) =
    (List.range run.partitionCount).map fun number : Nat => (number,
      Table.count (fun key => partitionOf hash run.partitionCount key = number)
        (streams.map StreamRow.canonicalKey).dedup)
  keys : (db.candidates.map CandidateRow.key).Nodup
  candidates : ∀ candidate ∈ db.candidates, candidate.run = run.id →
    candidate ∈ groupCandidates run.id streams
  linkKeys : db.candidateStreams.Nodup
  links : ∀ link ∈ db.candidateStreams, link.run = run.id →
    ∃ row ∈ streams, link = row.link run.id
  complete : ∀ partition ∈ db.partitions, partition.run = run.id →
    partition.status = .succeeded →
    (∀ candidate ∈ groupCandidates run.id streams,
      partitionOf hash run.partitionCount candidate.canonicalKey = partition.number →
      candidate ∈ db.candidates) ∧
    ∀ row ∈ streams,
      partitionOf hash run.partitionCount row.canonicalKey = partition.number →
      row.link run.id ∈ db.candidateStreams

namespace PartitionsSound

variable {hash : String → Int} {run : RunRow} {streams : List StreamRow} {db after : Database}

/-- Each number has one row, with the count of its keys. -/
theorem partition_eq (h : PartitionsSound hash run streams db) {partition : PartitionRow}
    (hmem : partition ∈ db.partitions) (hrun : partition.run = run.id) :
    partition.number < run.partitionCount ∧ partition.keyCount =
      Table.count (fun key => partitionOf hash run.partitionCount key = partition.number)
        (streams.map StreamRow.canonicalKey).dedup := by
  have hpair : (partition.number, partition.keyCount) ∈
      (db.partitions.filter fun row => row.run = run.id).map
        (fun row => (row.number, row.keyCount)) :=
    List.mem_map.mpr ⟨partition, List.mem_filter.mpr ⟨hmem, decide_eq_true hrun⟩, rfl⟩
  rw [h.rows] at hpair
  obtain ⟨number, hnumber, heq⟩ := List.mem_map.mp hpair
  obtain ⟨rfl, hcount⟩ := Prod.mk.inj heq
  exact ⟨List.mem_range.mp hnumber, hcount.symm⟩

theorem partition_exists (h : PartitionsSound hash run streams db) {number : Nat}
    (hnumber : number < run.partitionCount) :
    ∃ partition ∈ db.partitions, partition.run = run.id ∧ partition.number = number := by
  have hpair : number ∈ ((db.partitions.filter fun row => row.run = run.id).map
      (fun row => (row.number, row.keyCount))).map Prod.fst := by
    rw [h.rows, List.map_map]
    exact List.mem_map.mpr ⟨number, List.mem_range.mpr hnumber, rfl⟩
  rw [List.map_map] at hpair
  obtain ⟨partition, hpartition, rfl⟩ := List.mem_map.mp hpair
  obtain ⟨hmem, hrun⟩ := List.mem_filter.mp hpartition
  exact ⟨partition, hmem, of_decide_eq_true hrun, rfl⟩

theorem sum_keyCount (h : PartitionsSound hash run streams db)
    (hpos : 0 < run.partitionCount) :
    ((db.partitions.filter fun row => row.run = run.id).map PartitionRow.keyCount).sum =
      (streams.map StreamRow.canonicalKey).dedup.length := by
  have hcounts := congrArg (List.map Prod.snd) h.rows
  rw [List.map_map, List.map_map] at hcounts
  have hsum := sum_partition_counts hash hpos (streams.map StreamRow.canonicalKey).dedup
  calc ((db.partitions.filter fun row => row.run = run.id).map PartitionRow.keyCount).sum
      = ((List.range run.partitionCount).map fun number : Nat =>
          Table.count (fun key => partitionOf hash run.partitionCount key = number)
            (streams.map StreamRow.canonicalKey).dedup).sum := congrArg List.sum hcounts
    _ = (streams.map StreamRow.canonicalKey).dedup.length := hsum

end PartitionsSound

/-! ## Writing a partition -/

section Write

variable {hash : String → Int} {run : RunRow} {streams : List StreamRow} {db : Database}
  {number : Nat}

theorem mem_writePartition_candidates (hstreams : db.supportedStreams run.snapshot = streams)
    {candidate : CandidateRow} :
    candidate ∈ (writePartition hash db run.id run.snapshot run.partitionCount number).candidates ↔
      (candidate ∈ groupCandidates run.id streams ∧
        partitionOf hash run.partitionCount candidate.canonicalKey = number) ∨
      (candidate ∈ db.candidates ∧ candidate.key ∉
        (groupCandidates run.id (streams.filter fun row =>
          partitionOf hash run.partitionCount row.canonicalKey = number)).map CandidateRow.key) := by
  simp only [writePartition, hstreams]
  rw [upsertCandidate_eq, Table.mem_foldl_upsert groupCandidates_nodup,
    groupCandidates_filter run.id streams fun key =>
      decide (partitionOf hash run.partitionCount key = number), List.mem_filter,
    decide_eq_true_eq]

theorem mem_writePartition_links (hstreams : db.supportedStreams run.snapshot = streams)
    {link : CandidateStreamRow} :
    link ∈ (writePartition hash db run.id run.snapshot run.partitionCount number).candidateStreams ↔
      (∃ row ∈ streams, partitionOf hash run.partitionCount row.canonicalKey = number ∧
        row.link run.id = link) ∨ link ∈ db.candidateStreams := by
  simp only [writePartition, hstreams]
  rw [insertCandidateStream_eq, Table.mem_foldl_insertNew]
  simp only [List.mem_map, List.mem_filter, decide_eq_true_eq, and_assoc]

/-- A row that the partition does not write stays. -/
theorem mem_writePartition_of_mem (hstreams : db.supportedStreams run.snapshot = streams)
    {candidate : CandidateRow}
    (hmem : candidate ∈ db.candidates) (hgroup : candidate ∈ groupCandidates run.id streams) :
    candidate ∈
      (writePartition hash db run.id run.snapshot run.partitionCount number).candidates := by
  rw [mem_writePartition_candidates hstreams]
  by_cases hpartition : partitionOf hash run.partitionCount candidate.canonicalKey = number
  · exact .inl ⟨hgroup, hpartition⟩
  · refine .inr ⟨hmem, fun hkey => hpartition ?_⟩
    obtain ⟨other, hother, heq⟩ := List.mem_map.mp hkey
    rw [groupCandidates_filter run.id streams fun key =>
      decide (partitionOf hash run.partitionCount key = number)] at hother
    have hnumber := of_decide_eq_true (List.mem_filter.mp hother).2
    rwa [(Prod.mk.inj heq).2] at hnumber

variable (number) in
/-- The candidates of the partition are its groups, so their number is that of its keys. -/
theorem count_writePartition (hstreams : db.supportedStreams run.snapshot = streams)
    (h : PartitionsSound hash run streams db) :
    Table.count (fun row => row.run = run.id ∧
        partitionOf hash run.partitionCount row.canonicalKey = number)
      (writePartition hash db run.id run.snapshot run.partitionCount number).candidates =
      Table.count (fun key => partitionOf hash run.partitionCount key = number)
        (streams.map StreamRow.canonicalKey).dedup := by
  have hnodup : ((writePartition hash db run.id run.snapshot run.partitionCount
      number).candidates.map CandidateRow.key).Nodup := by
    simp only [writePartition]
    rw [upsertCandidate_eq]
    exact Table.nodup_foldl_upsert _ h.keys
  have hperm : ((writePartition hash db run.id run.snapshot run.partitionCount
        number).candidates.filter fun row => decide (row.run = run.id ∧
        partitionOf hash run.partitionCount row.canonicalKey = number)).Perm
      ((groupCandidates run.id streams).filter fun row =>
        decide (partitionOf hash run.partitionCount row.canonicalKey = number)) := by
    refine (List.perm_ext_iff_of_nodup (hnodup.of_map.filter _)
      (groupCandidates_nodup.of_map.filter _)).mpr fun candidate => ?_
    simp only [List.mem_filter, decide_eq_true_eq, mem_writePartition_candidates hstreams]
    constructor
    · rintro ⟨⟨hgroup, -⟩ | ⟨hmem, -⟩, hrun, hnumber⟩
      · exact ⟨hgroup, hnumber⟩
      · exact ⟨h.candidates candidate hmem hrun, hnumber⟩
    · rintro ⟨hgroup, hnumber⟩
      exact ⟨.inl ⟨hgroup, hnumber⟩, run_of_mem_groupCandidates hgroup, hnumber⟩
  rw [Table.count, hperm.length_eq, Table.count,
    ← groupCandidates_keys run.id streams, List.filter_map, List.length_map]
  rfl

end Write

/-! ## Processing a partition -/

/-- The run is being processed over these streams. -/
structure PartitionsOk (hash : String → Int) (run : RunRow) (streams : List StreamRow)
    (db : Database) : Prop where
  sound : PartitionsSound hash run streams db
  found : ∃ latest, db.run run.id = some latest ∧ latest.fixed = run.fixed
  streams : db.supportedStreams run.snapshot = streams
  snapshot : ∃ snapshot, db.snapshot run.snapshot = some snapshot ∧
    snapshot.status = .staging ∧ snapshot.stagedAt.isSome

section Process

variable {hash : String → Int} {run : RunRow} {streams : List StreamRow} {db : Database}
  {now : Time} {number : Nat} {workerId : WorkerId} {jobId : Option Uuid}

/-- The columns that no partition changes. -/
theorem RunRow.of_fixed {a b : RunRow} (h : a.fixed = b.fixed) :
    a.id = b.id ∧ a.snapshot = b.snapshot ∧ a.partitionCount = b.partitionCount ∧
      a.status = b.status ∧ a.totalKeys = b.totalKeys := by
  simp only [RunRow.fixed, RunRow.mk.injEq] at h
  exact ⟨h.1, h.2.2.1, h.2.2.2.2.2.1, h.2.2.2.2.1, h.2.2.2.2.2.2.1⟩

/-- One row for each number. -/
theorem PartitionsSound.partition_unique (h : PartitionsSound hash run streams db)
    {a b : PartitionRow} (ha : a ∈ db.partitions) (hb : b ∈ db.partitions) (hra : a.run = run.id)
    (hrb : b.run = run.id) (hnumber : a.number = b.number) : a = b := by
  have hnodup : ((db.partitions.filter fun row => row.run = run.id).map
      PartitionRow.number).Nodup := by
    have hnumbers := congrArg (List.map Prod.fst) h.rows
    rw [List.map_map, List.map_map] at hnumbers
    have hrange : (db.partitions.filter fun row => row.run = run.id).map PartitionRow.number =
        List.range run.partitionCount := hnumbers.trans (List.map_id _)
    rw [hrange]
    exact List.nodup_range
  exact List.inj_on_of_nodup_map hnodup (List.mem_filter.mpr ⟨ha, decide_eq_true hra⟩)
    (List.mem_filter.mpr ⟨hb, decide_eq_true hrb⟩) hnumber

/-- The rows and counters that a partition ends with. -/
def finishPartition (hash : String → Int) (db : Database) (now : Time) (run : RunRow)
    (number : Nat) (workerId : WorkerId) : Database :=
  let mine := fun row : PartitionRow => decide (row.run = run.id ∧ row.number = number)
  let db := db.updatePartitions mine fun row =>
    { row with status := .processing, attempts := row.attempts + 1, worker := some workerId }
  let db := writePartition hash db run.id run.snapshot run.partitionCount number
  let db := db.updatePartitions mine fun row =>
    { row with status := .succeeded, completedKeys := row.keyCount }
  db.updateRuns (fun row => row.id = run.id) fun row =>
    { row with completedKeys := sumCompletedKeys db run.id, updatedAt := now }

variable (now) in
/-- A partition that is owned does not fail. -/
theorem processPartition_eq (h : PartitionsOk hash run streams db)
    (hprocessing : run.status = .processing)
    (howned : ensureOwnedJob db workerId jobId = .ok ()) (hnumber : number < run.partitionCount) :
    ∃ partition ∈ db.partitions, partition.run = run.id ∧ partition.number = number ∧
      processPartition hash db now run.id number workerId jobId =
        .ok (if partition.status = .succeeded then db
            else finishPartition hash db now run number workerId,
          ⟨run.id, number, partition.keyCount, partition.keyCount,
            decide (partition.status = .succeeded)⟩) := by
  obtain ⟨some', hsome, hsomeRun, hsomeNumber⟩ := h.sound.partition_exists hnumber
  obtain ⟨partition, hpartition⟩ : ∃ partition, db.partition run.id number = some partition := by
    refine Option.isSome_iff_exists.mp (List.find?_isSome.mpr ⟨some', hsome, ?_⟩)
    exact decide_eq_true ⟨hsomeRun, hsomeNumber⟩
  have hmem := List.mem_of_find?_eq_some hpartition
  obtain ⟨hrun, hnum⟩ : partition.run = run.id ∧ partition.number = number := by
    simpa using List.find?_some hpartition
  obtain ⟨latest, hlatest, hfixed⟩ := h.found
  obtain ⟨snapshot, hsnapshot, hstaging, hstaged⟩ := h.snapshot
  obtain ⟨-, hid, hcount, hstatus, -⟩ := RunRow.of_fixed hfixed
  refine ⟨partition, hmem, hrun, hnum, ?_⟩
  unfold processPartition
  rw [howned]
  simp only [hpartition, hlatest, hid, hcount, hstatus, hsnapshot]
  by_cases hdone : partition.status = .succeeded
  · simp only [hdone, if_true, decide_true]
    rfl
  · have hready : run.status = .processing ∧ snapshot.status = .staging ∧
        snapshot.stagedAt.isSome = true := ⟨hprocessing, hstaging, hstaged⟩
    have hcheck : Table.count (fun row => row.run = run.id ∧
          partitionOf hash run.partitionCount row.canonicalKey = number)
        (writePartition hash (db.updatePartitions
          (fun row => decide (row.run = run.id ∧ row.number = number)) fun row =>
            { row with
              status := .processing, attempts := row.attempts + 1, worker := some workerId })
          run.id run.snapshot run.partitionCount number).candidates = partition.keyCount := by
      have hwritten := count_writePartition number h.streams h.sound
      rw [(h.sound.partition_eq hmem hrun).2, hnum, ← hwritten]
      rfl
    simp only [hdone, if_false, ensure, if_pos hready, if_pos hcheck, decide_false]
    rfl

/-- A finished row is that of the partition, or an older one. -/
theorem of_mem_finishPartition {partition : PartitionRow}
    (h : partition ∈ (finishPartition hash db now run number workerId).partitions) :
    (partition.run = run.id ∧ partition.number = number ∧ partition.status = .succeeded) ∨
      (partition ∈ db.partitions ∧ ¬(partition.run = run.id ∧ partition.number = number)) := by
  rcases Table.update_cases h with ⟨hmem, hother⟩ | ⟨old, hold, hmine, rfl⟩
  · have hother := of_decide_eq_false hother
    rcases Table.update_cases hmem with ⟨hmem, -⟩ | ⟨old, hold, hmine, rfl⟩
    · exact .inr ⟨hmem, hother⟩
    · exact absurd (of_decide_eq_true hmine) hother
  · obtain ⟨hrun, hnumber⟩ := of_decide_eq_true hmine
    exact .inl ⟨hrun, hnumber, rfl⟩

theorem partitionsOk_finish (h : PartitionsOk hash run streams db) :
    PartitionsOk hash run streams (finishPartition hash db now run number workerId) := by
  obtain ⟨latest, hlatest, hfixed⟩ := h.found
  refine ⟨⟨?_, ?_, ?_, ?_, ?_, ?_⟩, ?_, h.streams, h.snapshot⟩
  · rw [← h.sound.rows]
    simp only [finishPartition, writePartition, Database.updatePartitions, Database.updateRuns]
    rw [Table.map_filter_update, Table.map_filter_update]
    all_goals exact fun _ _ => rfl
  · simp only [finishPartition, writePartition, Database.updatePartitions, Database.updateRuns]
    rw [upsertCandidate_eq]
    exact Table.nodup_foldl_upsert _ h.sound.keys
  · intro candidate hmem hrun
    rcases (mem_writePartition_candidates h.streams).mp hmem with ⟨hgroup, -⟩ | ⟨hold, -⟩
    · exact hgroup
    · exact h.sound.candidates candidate hold hrun
  · exact Table.nodup_foldl_insertNew _ h.sound.linkKeys
  · intro link hmem hrun
    rcases (mem_writePartition_links h.streams).mp hmem with ⟨row, hrow, -, rfl⟩ | hold
    · exact ⟨row, hrow, rfl⟩
    · exact h.sound.links link hold hrun
  · intro partition hmem hrun hstatus
    rcases of_mem_finishPartition hmem with ⟨-, rfl, -⟩ | ⟨hold, -⟩
    · refine ⟨fun candidate hgroup hnumber => ?_, fun row hrow hnumber => ?_⟩
      · exact (mem_writePartition_candidates h.streams).mpr (.inl ⟨hgroup, hnumber⟩)
      · exact (mem_writePartition_links h.streams).mpr (.inl ⟨row, hrow, hnumber, rfl⟩)
    · obtain ⟨hcandidates, hlinks⟩ := h.sound.complete partition hold hrun hstatus
      refine ⟨fun candidate hgroup hnumber => ?_, fun row hrow hnumber => ?_⟩
      · exact mem_writePartition_of_mem h.streams (hcandidates candidate hgroup hnumber) hgroup
      · exact (mem_writePartition_links h.streams).mpr (.inr (hlinks row hrow hnumber))
  · have hruns : Processed db (finishPartition hash db now run number workerId) :=
      ⟨rfl, rfl, rfl, rfl, Table.map_update fun _ _ => rfl⟩
    have hrun := hruns.run run.id
    rw [hlatest, Option.map_some] at hrun
    obtain ⟨next, hnext, hsame⟩ := Option.map_eq_some_iff.mp hrun
    exact ⟨next, hnext, hsame.trans hfixed⟩

/-- A number outside the run has no row. -/
theorem processPartition_outside (h : PartitionsOk hash run streams db)
    (howned : ensureOwnedJob db workerId jobId = .ok ()) (hnumber : run.partitionCount ≤ number) :
    processPartition hash db now run.id number workerId jobId =
      .error (.invalidSource "reconciliation partition was not found") := by
  have hnone : db.partition run.id number = none := by
    refine List.find?_eq_none.mpr fun partition hmem hfound => ?_
    obtain ⟨hrun, hnum⟩ := of_decide_eq_true hfound
    have hless := (h.sound.partition_eq hmem hrun).1
    omega
  unfold processPartition
  rw [howned]
  simp only [hnone]
  rfl

/-- The only errors are those of the caller. -/
theorem processPartition_error (h : PartitionsOk hash run streams db)
    (hprocessing : run.status = .processing) {error : PersistenceError}
    (herror : processPartition hash db now run.id number workerId jobId = .error error) :
    (∃ job, jobId = some job ∧ error = .jobOwnership job workerId) ∨
      (run.partitionCount ≤ number ∧
        error = .invalidSource "reconciliation partition was not found") := by
  cases howned : ensureOwnedJob db workerId jobId with
  | error found =>
    have hsame : processPartition hash db now run.id number workerId jobId = .error found := by
      unfold processPartition
      rw [howned]
      rfl
    obtain rfl := Except.error.inj (hsame.symm.trans herror)
    cases jobId with
    | none => cases howned
    | some job =>
      refine .inl ⟨job, rfl, ?_⟩
      simp only [ensureOwnedJob, ensure] at howned
      split at howned
      · cases howned
      · exact (Except.error.inj howned).symm
  | ok =>
    rcases Nat.lt_or_ge number run.partitionCount with hinside | houtside
    · obtain ⟨partition, -, -, -, hok⟩ := processPartition_eq now h hprocessing howned hinside
      rw [hok] at herror
      cases herror
    · rw [processPartition_outside h howned houtside] at herror
      exact .inr ⟨houtside, (Except.error.inj herror).symm⟩

end Process

/-! ## Completed runs -/

section Complete

variable {hash : String → Int} {run : RunRow} {streams : List StreamRow} {db : Database}

/-- All partitions together have written every group. -/
theorem PartitionsSound.mem_candidates (h : PartitionsSound hash run streams db)
    (hpos : 0 < run.partitionCount)
    (hdone : ∀ partition ∈ db.partitions, partition.run = run.id → partition.status = .succeeded)
    (candidate : CandidateRow) :
    (candidate ∈ db.candidates ∧ candidate.run = run.id) ↔
      candidate ∈ groupCandidates run.id streams := by
  constructor
  · rintro ⟨hmem, hrun⟩
    exact h.candidates candidate hmem hrun
  · intro hgroup
    obtain ⟨hlower, hupper⟩ := partitionOf_bounds hash hpos candidate.canonicalKey
    have hless : (partitionOf hash run.partitionCount candidate.canonicalKey).toNat < run.partitionCount := by
      omega
    obtain ⟨partition, hmem, hrun, hnumber⟩ := h.partition_exists hless
    refine ⟨(h.complete partition hmem hrun (hdone partition hmem hrun)).1 candidate hgroup ?_,
      run_of_mem_groupCandidates hgroup⟩
    omega

theorem PartitionsSound.candidates_perm (h : PartitionsSound hash run streams db)
    (hpos : 0 < run.partitionCount)
    (hdone : ∀ partition ∈ db.partitions, partition.run = run.id → partition.status = .succeeded) :
    (db.candidates.filter fun row => row.run = run.id).Perm (groupCandidates run.id streams) := by
  refine (List.perm_ext_iff_of_nodup (h.keys.of_map.filter _) groupCandidates_nodup.of_map).mpr ?_
  intro candidate
  rw [List.mem_filter, decide_eq_true_eq]
  exact h.mem_candidates hpos hdone candidate

/-- Every stream has one link, to the candidate of its key. -/
theorem PartitionsSound.stream_links (h : PartitionsSound hash run streams db)
    (hids : (streams.map StreamRow.id).Nodup) (hpos : 0 < run.partitionCount)
    (hdone : ∀ partition ∈ db.partitions, partition.run = run.id → partition.status = .succeeded)
    {row : StreamRow} (hrow : row ∈ streams) :
    (db.candidateStreams.filter fun link => link.run = run.id ∧ link.stream = row.id) =
      [row.link run.id] := by
  obtain ⟨hlower, hupper⟩ := partitionOf_bounds hash hpos row.canonicalKey
  have hless : (partitionOf hash run.partitionCount row.canonicalKey).toNat < run.partitionCount := by
    omega
  obtain ⟨partition, hmem, hrun, hnumber⟩ := h.partition_exists hless
  have hlink : row.link run.id ∈ db.candidateStreams :=
    (h.complete partition hmem hrun (hdone partition hmem hrun)).2 row hrow (by omega)
  refine List.perm_singleton.mp ((List.perm_ext_iff_of_nodup (h.linkKeys.filter _)
    (List.nodup_singleton _)).mpr fun link => ?_)
  rw [List.mem_filter, decide_eq_true_eq, List.mem_singleton]
  constructor
  · rintro ⟨hold, hlinkRun, hstream⟩
    obtain ⟨other, hother, rfl⟩ := h.links link hold hlinkRun
    rw [List.inj_on_of_nodup_map hids hother hrow hstream]
  · rintro rfl
    exact ⟨hlink, rfl, rfl⟩

end Complete

/-! ## Creation -/

/-- What the constraints of the tables promise. `records` is what staging keeps
(`providerRecords_stage`). -/
structure ReconciliationSchema (db : Database) : Prop where
  streamIds : (db.streams.map StreamRow.id).Nodup
  runIds : (db.runs.map RunRow.id).Nodup
  candidateKeys : (db.candidates.map CandidateRow.key).Nodup
  linkKeys : db.candidateStreams.Nodup
  partitions : ∀ row ∈ db.partitions, ∃ run ∈ db.runs, run.id = row.run
  candidates : ∀ row ∈ db.candidates, ∃ run ∈ db.runs, run.id = row.run
  links : ∀ row ∈ db.candidateStreams, ∃ run ∈ db.runs, run.id = row.run
  records : ∀ snapshot ∈ db.snapshots, snapshot.stagedAt.isSome →
    (snapshot.kind = .m3u ∨ snapshot.kind = .xtream) →
    Table.count (fun row => row.snapshot = snapshot.id) db.streams = snapshot.recordCount

section Creation

variable {hash : String → Int} {db after : Database} {now : Time} {fresh : Nat → Uuid}
  {snapshotId parentJobId : Uuid} {run : RunRow}

/-- A new run starts with the counts of its partitions and no candidates. -/
theorem insertRun_tables {account : Uuid} {partitionCount : Nat}
    (h : insertRun db hash now fresh account snapshotId parentJobId partitionCount =
      .ok (after, .prepared run)) :
    after.partitions = db.partitions ++
        partitionRows hash run.id run.partitionCount (db.canonicalKeys snapshotId) ∧
      after.candidates = db.candidates ∧ after.candidateStreams = db.candidateStreams ∧
      run.totalKeys = (db.canonicalKeys snapshotId).length ∧
      run.partitionCount = partitionCount ∧ ∀ row ∈ db.runs, row.id ≠ run.id := by
  unfold insertRun at h
  obtain ⟨-, -, h⟩ := of_bind h
  obtain ⟨_, hnew, h⟩ := of_bind h
  have hnew := of_ensure hnew
  obtain ⟨hafter, hrun⟩ := Prod.mk.inj (of_pure h)
  obtain rfl := Preparation.prepared.inj hrun
  rw [queueReconciliation_tables] at hafter
  subst hafter
  exact ⟨rfl, rfl, rfl, rfl, rfl, hnew⟩

/-- A preparation returns a run that exists, or inserts one. -/
theorem created_of_new {requestedPartitions : Int}
    (h : createOrLoadProviderReconciliationRun hash db now fresh snapshotId parentJobId
      requestedPartitions = (after, .ok (some run)))
    (hnew : ∀ row ∈ db.runs, row.id ≠ run.id) :
    ∃ snapshot, db.snapshot snapshotId = some snapshot ∧
      (snapshot.kind = .m3u ∨ snapshot.kind = .xtream) ∧ snapshot.status = .staging ∧
      snapshot.stagedAt.isSome ∧
      insertRun db hash now fresh snapshot.owner.id snapshotId parentJobId
        (max 1 (min requestedPartitions 64)).toNat = .ok (after, .prepared run) := by
  unfold createOrLoadProviderReconciliationRun at h
  split at h
  · cases h
  · rename_i found hprepare
    obtain ⟨rfl, hrun⟩ := Prod.mk.inj h
    obtain rfl := Option.some.inj (Except.ok.inj hrun)
    obtain ⟨snapshot, hsnapshot, hkind, hprepares⟩ := prepareReconciliation_cases hprepare
    cases hprepares with
    | loaded _ _ hlatest _ =>
      exact absurd rfl (hnew _ (Database.mem_of_latestRun hlatest).1)
    | rebuilt _ _ hlatest _ _ hrebuild =>
      obtain ⟨hresult, -⟩ := rebuildRun_ok hlatest hrebuild
      obtain rfl := Preparation.prepared.inj hresult
      exact (hnew _ (Database.mem_of_latestRun hlatest).1 rfl).elim
    | created hstaging hstaged _ _ hinsert =>
      exact ⟨snapshot, hsnapshot, hkind, hstaging, hstaged, hinsert⟩
  · cases h
  · cases h

theorem partitionsOk_created {snapshot : SnapshotRow} {partitionCount : Nat}
    (hschema : ReconciliationSchema db) (hsnapshot : db.snapshot snapshotId = some snapshot)
    (hstaging : snapshot.status = .staging) (hstaged : snapshot.stagedAt.isSome)
    (h : insertRun db hash now fresh snapshot.owner.id snapshotId parentJobId partitionCount =
      .ok (after, .prepared run)) :
    PartitionsOk hash run (db.supportedStreams snapshotId) after ∧ run.status = .processing ∧
      run.snapshot = snapshotId := by
  obtain ⟨hpartitions, hcandidates, hlinks, -, -, hnew⟩ := insertRun_tables h
  obtain ⟨other, hother, -, -, -, hprepared⟩ := insertRun_ok h
  obtain rfl := Preparation.prepared.inj hother
  have hold : ∀ row ∈ db.partitions, row.run ≠ run.id := by
    rintro row hrow heq
    obtain ⟨owner, howner, hid⟩ := hschema.partitions row hrow
    exact hnew owner howner (hid.trans heq)
  have hnone : (db.partitions.filter fun row => row.run = run.id) = [] := by
    simpa using hold
  have hall : (partitionRows hash run.id run.partitionCount
      (db.canonicalKeys snapshotId)).filter (fun row => row.run = run.id) =
      partitionRows hash run.id run.partitionCount (db.canonicalKeys snapshotId) := by
    simp [partitionRows, List.filter_eq_self]
  refine ⟨⟨⟨?_, ?_, ?_, ?_, ?_, ?_⟩, ⟨run, hprepared.found hschema.runIds, rfl⟩, ?_, ?_⟩,
    hprepared.status, hprepared.snapshot⟩
  · rw [hpartitions, List.filter_append, hnone, hall, List.nil_append, partitionRows, List.map_map]
    rfl
  · rw [hcandidates]
    exact hschema.candidateKeys
  · intro candidate hmem hrun
    rw [hcandidates] at hmem
    obtain ⟨owner, howner, hid⟩ := hschema.candidates candidate hmem
    exact absurd (hid.trans hrun) (hnew owner howner)
  · rw [hlinks]
    exact hschema.linkKeys
  · intro link hmem hrun
    rw [hlinks] at hmem
    obtain ⟨owner, howner, hid⟩ := hschema.links link hmem
    exact absurd (hid.trans hrun) (hnew owner howner)
  · intro partition hmem hrun hdone
    rw [hpartitions, List.mem_append] at hmem
    rcases hmem with hmem | hmem
    · exact absurd hrun (hold partition hmem)
    · obtain ⟨number, -, rfl⟩ := List.mem_map.mp hmem
      cases hdone
  · rw [hprepared.snapshot, Database.supportedStreams, hprepared.streams]
    rfl
  · rw [hprepared.snapshot, Database.snapshot, hprepared.snapshots]
    exact ⟨snapshot, hsnapshot, hstaging, hstaged⟩

/-- The partitions of a run as its creation has counted them, whatever has become of them. -/
def CountedPartitions (hash : String → Int) (run : RunRow) (streams : List StreamRow)
    (db : Database) : Prop :=
  (db.partitions.filter fun row => row.run = run.id).map (fun row => (row.number, row.keyCount)) =
    (List.range run.partitionCount).map fun number : Nat => (number,
      Table.count (fun key => partitionOf hash run.partitionCount key = number)
        (streams.map StreamRow.canonicalKey).dedup)

/-- A rebuilt run starts as a created one does, in the partitions that it has had before. -/
theorem partitionsOk_rebuilt {snapshot : SnapshotRow} {restarted : RunRow}
    (hschema : ReconciliationSchema db) (hsnapshot : db.snapshot snapshotId = some snapshot)
    (hstaging : snapshot.status = .staging) (hstaged : snapshot.stagedAt.isSome)
    (hlatest : db.latestRun snapshotId = some run)
    (hcounted : CountedPartitions hash run (db.supportedStreams snapshotId) db)
    (h : rebuildRun db now fresh run parentJobId = .ok (after, .prepared restarted)) :
    PartitionsOk hash restarted (db.supportedStreams snapshotId) after ∧
      restarted.status = .processing ∧ restarted.snapshot = snapshotId ∧
      restarted.partitionCount = run.partitionCount := by
  obtain ⟨hresult, hprepared⟩ := rebuildRun_ok hlatest h
  obtain rfl := Preparation.prepared.inj hresult
  obtain ⟨hpartitions, hcandidates, hlinks⟩ : after.partitions =
        Table.update (fun row => row.run = run.id)
          (fun row => { row with
            status := .queued, completedKeys := 0, attempts := 0, worker := none }) db.partitions ∧
      after.candidates = Table.delete (fun row => decide (row.run = run.id)) db.candidates ∧
      after.candidateStreams =
        Table.delete (fun row => decide (row.run = run.id)) db.candidateStreams := by
    unfold rebuildRun at h
    obtain ⟨-, -, h⟩ := of_bind h
    obtain ⟨rfl, -⟩ := Prod.mk.inj (of_pure h)
    rw [queueReconciliation_tables]
    exact ⟨rfl, rfl, rfl⟩
  refine ⟨⟨⟨?_, ?_, ?_, ?_, ?_, ?_⟩, ⟨_, hprepared.found hschema.runIds, rfl⟩, ?_, ?_⟩,
    hprepared.status, hprepared.snapshot, rfl⟩
  · rw [hpartitions]
    refine Eq.trans (Table.map_filter_update ?_ ?_) hcounted
    · exact fun _ _ => rfl
    · exact fun _ _ => rfl
  · rw [hcandidates]
    exact Table.nodup_delete hschema.candidateKeys
  · intro candidate hmem hrun
    rw [hcandidates] at hmem
    exact absurd hrun (of_decide_eq_false (Table.mem_delete.mp hmem).2)
  · rw [hlinks]
    exact hschema.linkKeys.filter _
  · intro link hmem hrun
    rw [hlinks] at hmem
    exact absurd hrun (of_decide_eq_false (Table.mem_delete.mp hmem).2)
  · intro partition hmem hrun hdone
    rw [hpartitions] at hmem
    rcases Table.update_cases hmem with ⟨-, hother⟩ | ⟨old, -, -, rfl⟩
    · exact absurd hrun (of_decide_eq_false hother)
    · cases hdone
  · rw [hprepared.snapshot, Database.supportedStreams, hprepared.streams]
    rfl
  · rw [hprepared.snapshot, Database.snapshot, hprepared.snapshots]
    exact ⟨snapshot, hsnapshot, hstaging, hstaged⟩

end Creation

/-! ## Finalization -/

/-- The errors of a finalizer that finds rows missing. -/
def incompleteErrors : List PersistenceError :=
  [.invalidSource "staged provider snapshot record count does not match its streams",
    .invalidSource "reconciliation candidates are incomplete"]

section Finalization

variable {db : Database} {now : Time} {run : RunRow} {channelsOk : Bool} {error : PersistenceError}

theorem publishRun_complete {runId snapshotId account : Uuid}
    (h : publishRun db now runId snapshotId account = .error error) : error ∉ incompleteErrors := by
  unfold publishRun at h
  rcases error_of_bind h with hcheck | ⟨_, -, h⟩
  · obtain ⟨-, rfl⟩ := error_of_ensure hcheck
    decide +kernel
  · cases h

theorem publishSnapshot_complete
    (hrecords : ∀ snapshot ∈ db.snapshots, snapshot.id = run.snapshot →
      (snapshot.kind = .m3u ∨ snapshot.kind = .xtream) → snapshot.stagedAt.isSome →
      Table.count (fun row => row.snapshot = run.snapshot) db.streams = snapshot.recordCount)
    (hcandidates : Table.count (fun row => row.run = run.id) db.candidates = run.totalKeys)
    (h : publishSnapshot db now run channelsOk = .error error) : error ∉ incompleteErrors := by
  unfold publishSnapshot at h
  split at h
  · obtain rfl := Except.error.inj h
    decide +kernel
  rename_i snapshot hfound
  have hmem := List.mem_of_find?_eq_some hfound
  obtain ⟨hid, -⟩ : snapshot.id = run.snapshot ∧
      snapshot.owner = .providerAccount run.account := by simpa using List.find?_some hfound
  rcases error_of_bind h with hcheck | ⟨_, hready, h⟩
  · obtain ⟨-, rfl⟩ := error_of_ensure hcheck
    decide +kernel
  obtain ⟨hkind, -, hstaged⟩ := of_ensure hready
  split_ifs at h
  · cases h
  rcases error_of_bind h with hcheck | ⟨_, -, h⟩
  · exact absurd (hrecords snapshot hmem hid hkind hstaged) (error_of_ensure hcheck).1
  rcases error_of_bind h with hcheck | ⟨_, -, h⟩
  · exact absurd hcandidates (error_of_ensure hcheck).1
  rcases error_of_bind h with hcheck | ⟨_, -, h⟩
  · obtain ⟨-, rfl⟩ := error_of_ensure hcheck
    decide +kernel
  rcases error_of_bind h with hpublish | ⟨_, -, h⟩
  · exact publishRun_complete hpublish
  · cases h

/-- A finalizer that reaches the completeness checks passes them. -/
theorem finalizeReconciliation_complete {runId parentJobId finalizerJobId : Uuid}
    {workerId : Option WorkerId} (hrun : db.run runId = some run)
    (hrecords : ∀ snapshot ∈ db.snapshots, snapshot.id = run.snapshot →
      (snapshot.kind = .m3u ∨ snapshot.kind = .xtream) → snapshot.stagedAt.isSome →
      Table.count (fun row => row.snapshot = run.snapshot) db.streams = snapshot.recordCount)
    (hcandidates : (∀ row ∈ db.partitions, row.run = runId → row.status = .succeeded) →
      Table.count (fun row => row.run = run.id) db.candidates = run.totalKeys)
    (h : finalizeReconciliation db now runId parentJobId finalizerJobId workerId channelsOk =
      .error error) : error ∉ incompleteErrors := by
  unfold finalizeReconciliation at h
  split at h
  · obtain rfl := Except.error.inj h
    simp [incompleteErrors]
  by_cases hrunning : ‹JobRow›.status ≠ .running
  · rw [if_pos hrunning] at h
    cases h
  rw [if_neg hrunning] at h
  split at h
  · obtain rfl := Except.error.inj h
    simp [incompleteErrors]
  rename_i finalizer _
  by_cases hcancelled : finalizer.status = .cancelled
  · rw [if_pos hcancelled] at h
    cases h
  rw [if_neg hcancelled] at h
  simp only [hrun] at h
  rcases error_of_bind h with hcheck | ⟨_, -, h⟩
  · obtain ⟨-, rfl⟩ := error_of_ensure hcheck
    decide +kernel
  by_cases hpublished : run.status = .published
  · rw [if_pos hpublished] at h
    cases h
  rw [if_neg hpublished] at h
  rcases error_of_bind h with hcheck | ⟨_, -, h⟩
  · obtain ⟨-, rfl⟩ := error_of_ensure hcheck
    decide +kernel
  split_ifs at h with hunfinished
  · cases h
  · have hdone : ∀ row ∈ db.partitions, row.run = runId → row.status = .succeeded := by
      simpa using Table.count_eq_zero.mp (Nat.eq_zero_of_not_pos hunfinished)
    refine publishSnapshot_complete ?_ ?_ h
    · exact hrecords
    · exact hcandidates hdone

end Finalization

/-! ## Whole runs -/

/-- A worker takes a partition, for the first time or again; everything else that goes on
while a run is processed writes jobs and intents. -/
inductive PartitionOp where
  | process (now : Time) (number : Nat) (workerId : WorkerId) (jobId : Option Uuid)
  | queue (jobs : List JobRow) (outbox : List IntentRow)

/-- A call that fails is rolled back. -/
def partitionStep (hash : String → Int) (runId : Uuid) (db : Database) :
    PartitionOp → Option Database
  | .process now number workerId jobId =>
    some (processProviderReconciliationPartition hash db now runId number workerId jobId).1
  | .queue jobs outbox => some { db with jobs, outbox }

def partitionMachine (hash : String → Int) (start : Database) (runId : Uuid) :
    Machine Database PartitionOp where
  start
  step := partitionStep hash runId

section Runs

variable {hash : String → Int} {run : RunRow} {streams : List StreamRow} {db start : Database}

theorem process_ok {now : Time} {number : Nat} {workerId : WorkerId} {jobId : Option Uuid}
    (h : PartitionsOk hash run streams db) (hprocessing : run.status = .processing) :
    let after :=
      (processProviderReconciliationPartition hash db now run.id number workerId jobId).1
    PartitionsOk hash run streams after ∧ Processed db after := by
  refine ⟨?_, processProviderReconciliationPartition_processed ..⟩
  unfold processProviderReconciliationPartition transact
  split
  · rename_i after result hprocess
    have howned : ensureOwnedJob db workerId jobId = .ok () := by
      unfold processPartition at hprocess
      obtain ⟨_, howned, -⟩ := of_bind hprocess
      exact howned
    have hinside : number < run.partitionCount := by
      by_contra houtside
      rw [processPartition_outside h howned (Nat.le_of_not_lt houtside)] at hprocess
      cases hprocess
    obtain ⟨partition, -, -, -, heq⟩ := processPartition_eq now h hprocessing howned hinside
    rw [heq] at hprocess
    obtain ⟨rfl, -⟩ := Prod.mk.inj (Except.ok.inj hprocess)
    split_ifs
    · exact h
    · exact partitionsOk_finish h
  · exact h

/-- Every order of calls keeps what the partitions have written in agreement. -/
theorem partitionsOk_of_reachable (h : PartitionsOk hash run streams start)
    (hprocessing : run.status = .processing)
    (hreach : (partitionMachine hash start run.id).Reachable db) :
    PartitionsOk hash run streams db ∧ db.snapshots = start.snapshots ∧
      db.streams = start.streams := by
  refine hreach.invariant (I := fun db => PartitionsOk hash run streams db ∧
    db.snapshots = start.snapshots ∧ db.streams = start.streams) ⟨h, rfl, rfl⟩ ?_
  rintro before op after ⟨hok, hsnapshots, hstreams⟩ - hstep
  cases op with
  | process now number workerId jobId =>
    cases hstep
    obtain ⟨hafter, hprocessed⟩ := process_ok hok hprocessing
    exact ⟨hafter, hprocessed.snapshots.trans hsnapshots, hprocessed.streams.trans hstreams⟩
  | queue jobs outbox =>
    cases hstep
    refine ⟨⟨⟨hok.sound.rows, hok.sound.keys, hok.sound.candidates, hok.sound.linkKeys,
      hok.sound.links, hok.sound.complete⟩, hok.found, hok.streams, hok.snapshot⟩, hsnapshots,
      hstreams⟩

/-- A call with a job of its own succeeds, and its partition has succeeded then. -/
theorem process_succeeds {now : Time} {number : Nat} {workerId : WorkerId} {jobId : Option Uuid}
    (h : PartitionsOk hash run streams db) (hprocessing : run.status = .processing)
    (howned : ensureOwnedJob db workerId jobId = .ok ()) (hnumber : number < run.partitionCount) :
    ∃ after result,
      processProviderReconciliationPartition hash db now run.id number workerId jobId =
        (after, .ok result) ∧
      ∀ partition ∈ after.partitions, partition.run = run.id → partition.number = number →
        partition.status = .succeeded := by
  obtain ⟨partition, hmem, hrun, hnum, heq⟩ :=
    processPartition_eq now h hprocessing howned hnumber
  unfold processProviderReconciliationPartition
  rw [heq]
  refine ⟨_, _, rfl, fun other hother hotherRun hotherNumber => ?_⟩
  split_ifs at hother with hdone
  · rw [h.sound.partition_unique hother hmem hotherRun hrun (hotherNumber.trans hnum.symm)]
    exact hdone
  · rcases of_mem_finishPartition hother with ⟨-, -, hstatus⟩ | ⟨-, hne⟩
    · exact hstatus
    · exact absurd ⟨hotherRun, hotherNumber⟩ hne

end Runs

/-- In every order of partitions, with any of them repeated, a run that is created groups the streams
of its snapshot as one grouping over all of them does. -/
theorem partitions_eq_grouping {hash : String → Int} {db start : Database} {now : Time}
    {fresh : Nat → Uuid} {snapshotId parentJobId : Uuid} {requestedPartitions : Int} {run : RunRow}
    (hschema : ReconciliationSchema db)
    (hcreate : createOrLoadProviderReconciliationRun hash db now fresh snapshotId parentJobId
      requestedPartitions = (start, .ok (some run)))
    (hnew : ∀ row ∈ db.runs, row.id ≠ run.id) {current : Database}
    (hreach : (partitionMachine hash start run.id).Reachable current) :
    run.partitionCount = (max 1 (min requestedPartitions 64)).toNat ∧
    ((current.partitions.filter fun row => row.run = run.id).map PartitionRow.keyCount).sum =
      run.totalKeys ∧
    (∀ now number workerId jobId, ensureOwnedJob current workerId jobId = .ok () →
      number < run.partitionCount → ∃ after result,
        processProviderReconciliationPartition hash current now run.id number workerId jobId =
          (after, .ok result) ∧
        ∀ partition ∈ after.partitions, partition.run = run.id → partition.number = number →
          partition.status = .succeeded) ∧
    ((∀ row ∈ current.partitions, row.run = run.id → row.status = .succeeded) →
      (current.candidates.filter fun row => row.run = run.id).Perm
        (groupCandidates run.id (db.supportedStreams snapshotId)) ∧
      (∀ row ∈ db.supportedStreams snapshotId,
        (current.candidateStreams.filter fun link => link.run = run.id ∧ link.stream = row.id) =
          [row.link run.id]) ∧
      (∀ link ∈ current.candidateStreams, link.run = run.id →
        ∃ row ∈ db.supportedStreams snapshotId, link = row.link run.id) ∧
      Table.count (fun row => row.run = run.id) current.candidates = run.totalKeys) ∧
    ∀ now parentJobId finalizerJobId workerId channelsOk error,
      finalizeReconciliation current now run.id parentJobId finalizerJobId workerId channelsOk =
        .error error → error ∉ incompleteErrors := by
  obtain ⟨snapshot, hsnapshot, hkind, hstaging, hstaged, hinsert⟩ := created_of_new hcreate hnew
  obtain ⟨-, -, -, htotal, hcount, -⟩ := insertRun_tables hinsert
  obtain ⟨hstart, hprocessing, hid⟩ :=
    partitionsOk_created hschema hsnapshot hstaging hstaged hinsert
  obtain ⟨hok, hsnapshots, hstreams⟩ := partitionsOk_of_reachable hstart hprocessing hreach
  obtain ⟨other, hother, -, -, -, hprepared⟩ := insertRun_ok hinsert
  obtain rfl := Preparation.prepared.inj hother
  have hpos : 0 < run.partitionCount := by
    rw [hcount]
    omega
  have hids : ((db.supportedStreams snapshotId).map StreamRow.id).Nodup :=
    hschema.streamIds.sublist (List.filter_sublist.map _)
  have hkeys : (groupCandidates run.id (db.supportedStreams snapshotId)).length =
      run.totalKeys := by
    rw [htotal, Database.canonicalKeys, ← groupCandidates_keys run.id, List.length_map]
  have hcomplete : (∀ row ∈ current.partitions, row.run = run.id → row.status = .succeeded) →
      Table.count (fun row => row.run = run.id) current.candidates = run.totalKeys := by
    intro hdone
    rw [Table.count, (hok.sound.candidates_perm hpos hdone).length_eq, hkeys]
  refine ⟨hcount, ?_, ?_, ?_, ?_⟩
  · rw [hok.sound.sum_keyCount hpos, htotal]
    rfl
  · intro now number workerId jobId howned hnumber
    exact process_succeeds hok hprocessing howned hnumber
  · intro hdone
    exact ⟨hok.sound.candidates_perm hpos hdone,
      fun row hrow => hok.sound.stream_links hids hpos hdone hrow, hok.sound.links,
      hcomplete hdone⟩
  · intro now parentJobId finalizerJobId workerId channelsOk error herror
    obtain ⟨latest, hlatest, hfixed⟩ := hok.found
    obtain ⟨hlatestId, hlatestSnapshot, -, -, hlatestTotal⟩ := RunRow.of_fixed hfixed
    refine finalizeReconciliation_complete hlatest ?_ ?_ herror
    · intro row hrow hrowId hrowKind hrowStaged
      rw [hsnapshots, hprepared.snapshots] at hrow
      rw [hstreams, hprepared.streams, ← hrowId]
      exact hschema.records row hrow hrowStaged hrowKind
    · rw [hlatestId, hlatestTotal]
      exact hcomplete

/-- A run of the same snapshot that is rebuilt groups its streams so, too. -/
theorem rebuilt_eq_grouping {hash : String → Int} {db start : Database} {now : Time}
    {fresh : Nat → Uuid} {snapshotId parentJobId : Uuid} {run restarted : RunRow}
    {snapshot : SnapshotRow} (hschema : ReconciliationSchema db)
    (hsnapshot : db.snapshot snapshotId = some snapshot) (hstaging : snapshot.status = .staging)
    (hstaged : snapshot.stagedAt.isSome) (hlatest : db.latestRun snapshotId = some run)
    (hpos : 0 < run.partitionCount)
    (hcounted : CountedPartitions hash run (db.supportedStreams snapshotId) db)
    (hrebuild : rebuildRun db now fresh run parentJobId = .ok (start, .prepared restarted))
    {current : Database} (hreach : (partitionMachine hash start restarted.id).Reachable current)
    (hdone : ∀ row ∈ current.partitions, row.run = restarted.id → row.status = .succeeded) :
    (current.candidates.filter fun row => row.run = restarted.id).Perm
      (groupCandidates restarted.id (db.supportedStreams snapshotId)) := by
  obtain ⟨hstart, hprocessing, -, hcount⟩ :=
    partitionsOk_rebuilt hschema hsnapshot hstaging hstaged hlatest hcounted hrebuild
  obtain ⟨hok, -, -⟩ := partitionsOk_of_reachable hstart hprocessing hreach
  exact hok.sound.candidates_perm (hcount ▸ hpos) hdone

/-- Two channels, one of them with two streams. -/
def newsStaged : Database :=
  { snapshots := [{ id := 1, owner := .providerAccount 7, kind := .m3u, checksum := 0
                    byteCount := 0, recordCount := 4, diagnosticCount := 0, fetchedAt := 0
                    stagedAt := some 1 }]
    streams := [{ id := 12, snapshot := 1, stableKey := "a", name := "News HD", tvgId := some "news" },
      { id := 11, snapshot := 1, stableKey := "b", name := "News", tvgId := some "news"
        logoUrl := some "" },
      { id := 13, snapshot := 1, stableKey := "c", name := "Sport", groupName := some "Live" },
      { id := 14, snapshot := 1, stableKey := "d", name := "Radio", supported := false }]
    jobs := [{ id := 2, kind := .refreshSource, status := .running, createdAt := 0 }] }

/-- A hash with a negative value. -/
def shortHash (key : String) : Int := if key = "news" then -1 else 4

theorem newsStaged_schema : ReconciliationSchema newsStaged := by
  refine ⟨by decide, by decide, by decide, by decide, by simp [newsStaged],
    by simp [newsStaged], by simp [newsStaged], ?_⟩
  intro snapshot hsnapshot _ _
  obtain rfl := List.mem_singleton.mp hsnapshot
  decide

/-- The second partition first, then the first one twice. -/
theorem partitions_eq_grouping_news :
    ∃ start run current,
      createOrLoadProviderReconciliationRun shortHash newsStaged 5 (fun n => 100 + n) 1 2 2 =
        (start, .ok (some run)) ∧
      (partitionMachine shortHash start run.id).Reachable current ∧
      (current.candidates.filter fun row => row.run = run.id).Perm
        (groupCandidates run.id (newsStaged.supportedStreams 1)) := by
  let created :=
    createOrLoadProviderReconciliationRun shortHash newsStaged 5 (fun n => 100 + n) 1 2 2
  let run : RunRow := { id := 100, account := 7, snapshot := 1, parent := some 2
                        partitionCount := 2, totalKeys := 2, createdAt := 5, updatedAt := 5 }
  have hcreate : createOrLoadProviderReconciliationRun shortHash newsStaged 5 (fun n => 100 + n)
      1 2 2 = (created.1, .ok (some run)) := by decide +kernel
  obtain ⟨current, hreach, hdone⟩ := (partitionMachine shortHash created.1 100).exists_reachable_of_run
    [.process 6 1 "worker" none, .process 7 0 "other" none, .process 8 0 "worker" none]
    (fun db => db.partitions.all fun row => row.status = .succeeded) (by decide +kernel)
  have hspec := partitions_eq_grouping newsStaged_schema hcreate (by simp [newsStaged]) hreach
  refine ⟨created.1, run, current, hcreate, hreach, (hspec.2.2.2.1 fun row hrow _ => ?_).1⟩
  exact of_decide_eq_true (List.all_eq_true.mp hdone row hrow)

end IptvRelay.Store
