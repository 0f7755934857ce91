import IptvRelay.Lib.Machine
import IptvRelay.Store.Jobs

/-!
# Exhausted jobs and the dead-letter table

Runs of the job queue by any number of workers. A worker keeps the records that it has
claimed and may report on any of them later. `fail` archives a job that has no attempt
left in its own transaction, but the sweeper of expired leases ends such a job without a
record, and a report on an earlier claim of the same worker queues it with no attempt left.
-/

namespace IptvRelay.Store

open Transition Checked

/-- The database, the records that claims have returned, and what calls of `cancel` have read. -/
structure Queue where
  db : Database := {}
  records : List JobRow := []
  targets : List (Uuid × CancelTarget) := []

inductive QueueOp where
  | enqueue (now : Time) (id : Uuid) (new : NewJob)
  | enqueueSourceRefreshIfIdle (now : Time) (id sourceId : Uuid)
  | claim (now : Time) (jobId : Uuid) (workerId : WorkerId)
  | heartbeat (now : Time) (jobId : Uuid) (workerId : WorkerId) (activationLocked : Bool)
      (progressRun : Option Uuid)
  | touchHeartbeat (now : Time) (jobId : Uuid) (workerId : WorkerId)
  | succeed (jobId : Uuid) (workerId : WorkerId)
  | fail (record : Nat) (now : Time) (error : String)
  | recoverStaleJobs (now lease : Time)
  | cancelRead (jobId : Uuid)
  | cancelUpdate (target : Nat) (now : Time)

namespace Queue

/-- A call that returns an error has changed nothing. -/
def commit (s : Queue) (result : Except PersistenceError Database) : Option Queue :=
  result.toOption.map fun db => { s with db }

def step (s : Queue) : QueueOp → Option Queue
  | .enqueue now id new => s.commit (enqueue s.db now id new)
  | .enqueueSourceRefreshIfIdle now id sourceId =>
    some { s with db := enqueueSourceRefreshIfIdle s.db now id sourceId }
  | .claim now jobId workerId => do
    let db ← claim s.db now jobId workerId
    return { s with db, records := s.records ++ (db.job jobId).toList }
  | .heartbeat now jobId workerId activationLocked progressRun =>
    s.commit (heartbeat s.db now jobId workerId activationLocked progressRun)
  | .touchHeartbeat now jobId workerId => s.commit (touchHeartbeat s.db now jobId workerId)
  | .succeed jobId workerId => s.commit (succeed s.db jobId workerId)
  | .fail index now error => do
    let record ← s.records[index]?
    let workerId ← record.lockedBy
    s.commit (fail s.db now record.id workerId record.attempts record.maxAttempts error)
  | .recoverStaleJobs now lease => some { s with db := recoverStaleJobs s.db now lease }
  | .cancelRead jobId => do
    let target ← (cancelRead s.db jobId).toOption
    return { s with targets := s.targets ++ target.toList.map fun read => (jobId, read) }
  | .cancelUpdate index now => do
    let (jobId, target) ← s.targets[index]?
    return { s with db := (cancelUpdate s.db now jobId target).1 }

end Queue

/-- From an empty queue. -/
def queueMachine : Machine Queue QueueOp where
  start := {}
  step := Queue.step

/-- The number of records of a job. -/
def Database.deadLettersOf (db : Database) (jobId : Uuid) : Nat :=
  Table.count (fun letter => decide (letter.originalJobId = jobId)) db.deadLetters

/-! ## What a step does to a job -/

/-- The attempts of a job agree with its status. -/
structure JobRow.Fits (job : JobRow) : Prop where
  bounded : job.attempts ≤ job.maxAttempts
  queued : job.status = .queued → job.attempts < job.maxAttempts
  failed : job.status = .failed → job.attempts = job.maxAttempts

/-- A change that no archive has to know of. -/
structure JobRow.Quiet (job next : JobRow) : Prop where
  id : next.id = job.id
  maxAttempts : next.maxAttempts = job.maxAttempts
  attempts : job.attempts ≤ next.attempts
  failed : next.status = .failed ↔ job.status = .failed
  fits : job.Fits → next.Fits

theorem JobRow.Quiet.refl (job : JobRow) : job.Quiet job :=
  ⟨rfl, rfl, le_rfl, Iff.rfl, fun h => h⟩

theorem JobRow.Quiet.trans {a b c : JobRow} (h : a.Quiet b) (h' : b.Quiet c) : a.Quiet c :=
  ⟨h'.id.trans h.id, h'.maxAttempts.trans h.maxAttempts, h.attempts.trans h'.attempts,
    h'.failed.trans h.failed, fun hfits => h'.fits (h.fits hfits)⟩

/-- The end of an attempt that was not the last. -/
theorem JobRow.quiet_endAttempt {job : JobRow} {status : JobStatus} {availableAt : Time}
    (hopen : job.status.isOpen = true) (hfailed : status ≠ .failed)
    (hqueued : status = .queued → job.attempts < job.maxAttempts) :
    job.Quiet (job.endAttempt status availableAt) := by
  refine ⟨rfl, rfl, le_rfl, ?_, fun hfits => ⟨hfits.bounded, hqueued, ?_⟩⟩
  · have hother : job.status ≠ .failed := by
      intro h
      simp [h, JobStatus.isOpen] at hopen
    exact iff_of_false hfailed hother
  · intro h
    exact absurd h hfailed

theorem JobRow.quiet_finish {job : JobRow} {status : JobStatus} (hopen : job.status.isOpen = true)
    (hfailed : status ≠ .failed) (hqueued : status = .queued → job.attempts < job.maxAttempts) :
    job.Quiet (job.finish status) := by
  have hsame : job.finish status = job.endAttempt status job.availableAt := rfl
  rw [hsame]
  exact JobRow.quiet_endAttempt hopen hfailed hqueued

/-- Every row changes quietly. -/
structure QuietJobs (before after : Database) : Prop where
  rows : ∃ change : JobRow → JobRow, after.jobs = before.jobs.map change ∧
    ∀ job ∈ before.jobs, job.Quiet (change job)
  deadLetters : after.deadLetters = before.deadLetters

theorem QuietJobs.refl (db : Database) : QuietJobs db db :=
  ⟨⟨id, by simp, fun job _ => .refl job⟩, rfl⟩

theorem QuietJobs.trans {a b c : Database} (h : QuietJobs a b) (h' : QuietJobs b c) :
    QuietJobs a c := by
  obtain ⟨first, hfirst, hquiet⟩ := h.rows
  obtain ⟨second, hsecond, hquiet'⟩ := h'.rows
  refine ⟨⟨second ∘ first, by rw [hsecond, hfirst, List.map_map], ?_⟩,
    h'.deadLetters.trans h.deadLetters⟩
  intro job hjob
  have hmiddle : first job ∈ b.jobs := by
    rw [hfirst]
    exact List.mem_map_of_mem hjob
  exact (hquiet job hjob).trans (hquiet' _ hmiddle)

theorem QuietJobs.of_tables {before after : Database} (hjobs : after.jobs = before.jobs)
    (hletters : after.deadLetters = before.deadLetters) : QuietJobs before after :=
  ⟨⟨id, by simpa using hjobs, fun job _ => .refl job⟩, hletters⟩

theorem quietJobs_updateJobs {db : Database} {p : JobRow → Bool} {f : JobRow → JobRow}
    (h : ∀ job ∈ db.jobs, p job = true → job.Quiet (f job)) : QuietJobs db (db.updateJobs p f) := by
  refine ⟨⟨fun job => if p job then f job else job, rfl, ?_⟩, rfl⟩
  intro job hjob
  cases hp : p job with
  | true => simpa [hp] using h job hjob hp
  | false => simpa [hp] using JobRow.Quiet.refl job

theorem quietJobs_updateOwned {db after : Database} {jobId : Uuid} {workerId : WorkerId}
    {f : JobRow → JobRow}
    (h : ∀ job ∈ db.jobs, job.ownedBy jobId workerId = true → job.Quiet (f job))
    (hupdate : db.updateOwned jobId workerId f = .ok after) : QuietJobs db after := by
  obtain ⟨-, rfl⟩ := Database.updateOwned_ok hupdate
  exact quietJobs_updateJobs h

theorem JobRow.running_of_ownedBy {job : JobRow} {jobId : Uuid} {workerId : WorkerId}
    (h : job.ownedBy jobId workerId = true) : job.id = jobId ∧ job.status = .running := by
  have howned := of_decide_eq_true h
  exact ⟨howned.1, howned.2.1⟩

theorem quietJobs_cancelJobs (db : Database) (p : JobRow → Bool) :
    QuietJobs db (db.cancelJobs p) := by
  refine quietJobs_updateJobs fun job _ hp => ?_
  exact JobRow.quiet_finish (Bool.and_eq_true_iff.mp hp).2 (by decide) (by simp)

theorem quietJobs_cancelFamily (db : Database) (now : Time) (parentJobId : Uuid) :
    QuietJobs db (cancelFamily db now parentJobId) :=
  (quietJobs_cancelJobs db _).trans (.of_tables rfl rfl)

theorem quietJobs_cancelWithParent (db : Database) (now : Time) (jobId : Uuid)
    (target : CancelTarget) (parent : JobRow) :
    QuietJobs db (cancelWithParent db now jobId target parent).1 := by
  have hparent : QuietJobs db (cancelParent db parent) := by
    unfold cancelParent
    split
    · exact quietJobs_cancelJobs db _
    · exact .refl db
  have hfinal : QuietJobs db (if decide (target.kind ≠ .refreshSource) then
      (cancelParent db parent).cancelJobs (isUnlocked jobId) else cancelParent db parent) := by
    split
    · exact hparent.trans (quietJobs_cancelJobs _ _)
    · exact hparent
  unfold cancelWithParent
  split
  · exact .refl db
  · dsimp only
    split
    · exact hfinal.trans (quietJobs_cancelFamily ..)
    · exact hfinal

theorem quietJobs_cancelUpdate (db : Database) (now : Time) (jobId : Uuid)
    (target : CancelTarget) : QuietJobs db (cancelUpdate db now jobId target).1 := by
  unfold cancelUpdate
  split
  · exact quietJobs_cancelJobs db _
  · split
    · exact quietJobs_cancelJobs db _
    · exact quietJobs_cancelWithParent ..

theorem quietJobs_claim {db after : Database} {now : Time} {jobId : Uuid} {workerId : WorkerId}
    (h : claim db now jobId workerId = some after) : QuietJobs db after := by
  obtain rfl := Option.some.inj (of_guard h).2
  refine quietJobs_updateJobs fun job _ hp => ?_
  obtain ⟨-, hqueued, -, hleft⟩ := of_decide_eq_true hp
  refine ⟨rfl, rfl, Int.le.intro 1 rfl, ?_, fun _ => ⟨hleft, ?_, ?_⟩⟩
  · simp [hqueued]
  · intro h
    cases h
  · intro h
    cases h

/-- The archive counts for the job that it selects and for no other. -/
theorem deadLettersOf_archive (db : Database) (now : Time) (jobId other : Uuid) (error : String) :
    (db.archive now jobId error).deadLettersOf other = db.deadLettersOf other +
      if jobId = other then Table.count (fun job => decide (job.id = jobId)) db.jobs else 0 := by
  unfold Database.deadLettersOf Database.archive
  rw [Table.count_append]
  congr 1
  simp only [Table.count, List.filter_map, List.length_map, List.filter_filter]
  split
  · rename_i heq
    subst heq
    congr 1
    refine List.filter_congr fun job _ => ?_
    simp [JobRow.deadLetter]
  · rename_i hne
    refine List.length_eq_zero_iff.mpr (List.filter_eq_nil_iff.mpr fun job _ => ?_)
    simp only [Function.comp, JobRow.deadLetter, Bool.and_eq_true, decide_eq_true_eq, not_and]
    intro hother hid
    exact hne (hid.symm.trans (of_decide_eq_true hother))

/-! ## The invariant -/

structure QueueOk (s : Queue) : Prop where
  ids : (s.db.jobs.map JobRow.id).Nodup
  fits : ∀ job ∈ s.db.jobs, job.Fits
  letters : ∀ job ∈ s.db.jobs, s.db.deadLettersOf job.id = if job.status = .failed then 1 else 0
  known : ∀ letter ∈ s.db.deadLetters, ∃ job ∈ s.db.jobs, job.id = letter.originalJobId
  records : ∀ record ∈ s.records, ∃ job ∈ s.db.jobs, job.id = record.id ∧
    job.maxAttempts = record.maxAttempts ∧ record.attempts ≤ job.attempts

namespace QueueOk

variable {s : Queue}

theorem quiet (h : QueueOk s) {after : Database} (hquiet : QuietJobs s.db after) :
    QueueOk { s with db := after } := by
  obtain ⟨⟨change, hrows, hchange⟩, hletters⟩ := hquiet
  refine ⟨?_, ?_, ?_, ?_, ?_⟩
  · have hsame : after.jobs.map JobRow.id = s.db.jobs.map JobRow.id := by
      rw [hrows, List.map_map]
      exact List.map_congr_left fun job hjob => (hchange job hjob).id
    exact hsame ▸ h.ids
  · intro next hnext
    rw [hrows] at hnext
    obtain ⟨job, hjob, rfl⟩ := List.mem_map.mp hnext
    exact (hchange job hjob).fits (h.fits job hjob)
  · intro next hnext
    rw [hrows] at hnext
    obtain ⟨job, hjob, rfl⟩ := List.mem_map.mp hnext
    have hcount := h.letters job hjob
    simp only [Database.deadLettersOf, hletters, (hchange job hjob).id, (hchange job hjob).failed]
    exact hcount
  · intro letter hletter
    obtain ⟨job, hjob, hid⟩ := h.known letter (hletters ▸ hletter)
    exact ⟨change job, hrows ▸ List.mem_map_of_mem hjob, (hchange job hjob).id.trans hid⟩
  · intro record hrecord
    obtain ⟨job, hjob, hid, hmax, hattempts⟩ := h.records record hrecord
    have hstep := hchange job hjob
    exact ⟨change job, hrows ▸ List.mem_map_of_mem hjob, hstep.id.trans hid,
      hstep.maxAttempts.trans hmax, hattempts.trans hstep.attempts⟩

/-- A new job has a new id, so no record and no claim is about it. -/
theorem insert (h : QueueOk s) {job : JobRow} (hnew : s.db.jobs.any job.conflictsWith = false)
    (hqueued : job.status = .queued) (hfits : job.Fits) :
    QueueOk { s with db := { s.db with jobs := s.db.jobs ++ [job] } } := by
  have hfresh : ∀ other ∈ s.db.jobs, other.id ≠ job.id := by
    intro other hother hid
    have hno := List.any_eq_false.mp hnew other hother
    exact hno (decide_eq_true (.inl hid))
  refine ⟨?_, ?_, ?_, ?_, ?_⟩
  · simp only [List.map_append, List.map_cons, List.map_nil]
    refine List.nodup_append.mpr ⟨h.ids, List.nodup_singleton _, ?_⟩
    intro id hid other hother
    obtain ⟨row, hrow, rfl⟩ := List.mem_map.mp hid
    rw [List.mem_singleton.mp hother]
    exact hfresh row hrow
  · intro other hother
    rcases List.mem_append.mp hother with hold | hlast
    · exact h.fits other hold
    · rw [List.mem_singleton.mp hlast]
      exact hfits
  · intro other hother
    rcases List.mem_append.mp hother with hold | hlast
    · exact h.letters other hold
    · obtain rfl := List.mem_singleton.mp hlast
      have hnone : s.db.deadLettersOf other.id = 0 := by
        refine Table.count_eq_zero.mpr fun letter hletter => decide_eq_false fun hid => ?_
        obtain ⟨row, hrow, hrowId⟩ := h.known letter hletter
        exact hfresh row hrow (hrowId.trans hid)
      simpa [hqueued, Database.deadLettersOf] using hnone
  · intro letter hletter
    obtain ⟨row, hrow, hid⟩ := h.known letter hletter
    exact ⟨row, List.mem_append_left _ hrow, hid⟩
  · intro record hrecord
    obtain ⟨row, hrow, hspec⟩ := h.records record hrecord
    exact ⟨row, List.mem_append_left _ hrow, hspec⟩

/-- The last attempt fails: the status and the record change together. -/
theorem archive (h : QueueOk s) {now : Time} {jobId : Uuid} {workerId : WorkerId} {error : String}
    {after : Database}
    (hlast : ∀ job ∈ s.db.jobs, job.id = jobId → job.attempts = job.maxAttempts)
    (hupdate : s.db.updateOwned jobId workerId
      (fun job => job.endAttempt .failed now) = .ok after) :
    QueueOk { s with db := after.archive now jobId error } := by
  obtain ⟨⟨mine, hmine, howned⟩, rfl⟩ := Database.updateOwned_ok hupdate
  obtain ⟨hmineId, hrunning⟩ := JobRow.running_of_ownedBy howned
  have hids : ((s.db.updateJobs (fun job => job.ownedBy jobId workerId)
      (fun job => job.endAttempt .failed now)).jobs.map JobRow.id).Nodup :=
    Table.nodup_update (fun _ _ => rfl) h.ids
  -- Only the owned row changes, and it is the one that the archive selects.
  have hrow : ∀ next ∈ (s.db.updateJobs (fun job => job.ownedBy jobId workerId)
      (fun job => job.endAttempt .failed now)).jobs,
      (next ∈ s.db.jobs ∧ next.id ≠ jobId) ∨
        next = mine.endAttempt .failed now := by
    intro next hnext
    rcases Table.update_cases hnext with ⟨hold, hother⟩ | ⟨old, hold, hold', rfl⟩
    · refine .inl ⟨hold, fun hid => ?_⟩
      obtain rfl := Table.eq_of_key h.ids hold hmine (hid.trans hmineId.symm)
      simp [howned] at hother
    · obtain rfl := Table.eq_of_key h.ids hold hmine
        ((JobRow.running_of_ownedBy hold').1.trans hmineId.symm)
      exact .inr rfl
  have hchanged : mine.endAttempt .failed now ∈
      (s.db.updateJobs (fun job => job.ownedBy jobId workerId)
        (fun job => job.endAttempt .failed now)).jobs :=
    Table.mem_update.mpr ⟨mine, hmine, if_pos howned⟩
  refine ⟨hids, ?_, ?_, ?_, ?_⟩
  · intro next hnext
    rcases hrow next hnext with ⟨hold, -⟩ | rfl
    · exact h.fits next hold
    · refine ⟨(h.fits mine hmine).bounded, ?_, fun _ => hlast mine hmine hmineId⟩
      intro hqueued
      cases hqueued
  · intro next hnext
    rw [deadLettersOf_archive]
    rcases hrow next hnext with ⟨hold, hother⟩ | rfl
    · rw [if_neg (Ne.symm hother)]
      exact h.letters next hold
    · have hnone := h.letters mine hmine
      have hone := Table.count_key hids hchanged
      rw [if_neg (by simp [hrunning])] at hnone
      obtain rfl := hmineId
      rw [JobRow.endAttempt_id, JobRow.endAttempt_status, if_pos rfl, if_pos rfl]
      exact congrArg₂ (· + ·) hnone hone
  · intro letter hletter
    rcases List.mem_append.mp hletter with hold | hnew
    · obtain ⟨job, hjob, hid⟩ := h.known letter hold
      refine ⟨_, Table.mem_update.mpr ⟨job, hjob, rfl⟩, ?_⟩
      split <;> exact hid
    · obtain ⟨job, hjob, rfl⟩ := List.mem_map.mp hnew
      exact ⟨job, (List.mem_filter.mp hjob).1, rfl⟩
  · intro record hrecord
    obtain ⟨job, hjob, hspec⟩ := h.records record hrecord
    refine ⟨_, Table.mem_update.mpr ⟨job, hjob, rfl⟩, ?_⟩
    split <;> exact hspec

end QueueOk

/-! ## Runs -/

/-- The sweeper finds no job without attempts left, and no worker reports an earlier claim of a job
that has none left. -/
def Archives (s : Queue) : QueueOp → Prop
  | .recoverStaleJobs now lease =>
    ∀ job ∈ s.db.jobs, job.isStale now lease = true → job.attempts < job.maxAttempts
  | .fail index _ _ => ∀ record ∈ s.records[index]?, record.attempts < record.maxAttempts →
    ∀ job ∈ s.db.jobs, job.id = record.id → job.status = .running →
      job.lockedBy = record.lockedBy → job.attempts < job.maxAttempts
  | _ => True

theorem queueOk_commit {s t : Queue} {result : Except PersistenceError Database}
    (hresult : ∀ db, result = .ok db → QueueOk { s with db }) (hstep : s.commit result = some t) :
    QueueOk t := by
  cases result with
  | error error => cases hstep
  | ok db =>
    obtain rfl := Option.some.inj hstep
    exact hresult db rfl

theorem queueOk_claim {s t : Queue} {now : Time} {jobId : Uuid} {workerId : WorkerId}
    (h : QueueOk s) (hstep : s.step (.claim now jobId workerId) = some t) : QueueOk t := by
  obtain ⟨db, hclaim, hrest⟩ := Option.bind_eq_some_iff.mp hstep
  obtain rfl := Option.some.inj hrest
  have hquiet := h.quiet (quietJobs_claim hclaim)
  refine ⟨hquiet.ids, hquiet.fits, hquiet.letters, hquiet.known, fun record hrecord => ?_⟩
  rcases List.mem_append.mp hrecord with hold | hnew
  · exact hquiet.records record hold
  · have hfound := List.mem_of_find?_eq_some (Option.mem_toList.mp hnew)
    exact ⟨record, hfound, rfl, rfl, le_rfl⟩

theorem queueOk_fail {s t : Queue} {index : Nat} {now : Time} {error : String} (h : QueueOk s)
    (hok : Archives s (.fail index now error)) (hstep : s.step (.fail index now error) = some t) :
    QueueOk t := by
  obtain ⟨record, hrecord, hrest⟩ := Option.bind_eq_some_iff.mp hstep
  obtain ⟨workerId, hworker, hcommit⟩ := Option.bind_eq_some_iff.mp hrest
  obtain ⟨mine, hmine, hid, hmax, hattempts⟩ := h.records record (List.mem_of_getElem? hrecord)
  refine queueOk_commit (fun db hdb => ?_) hcommit
  unfold fail at hdb
  split at hdb
  · rename_i hleft
    obtain ⟨delay, -, hupdate⟩ := of_bind hdb
    refine h.quiet (quietJobs_updateOwned (fun job hjob howned => ?_) hupdate)
    obtain ⟨hjobId, hrunning⟩ := JobRow.running_of_ownedBy howned
    have hlocked : job.lockedBy = record.lockedBy := (of_decide_eq_true howned).2.2.trans hworker.symm
    exact JobRow.quiet_endAttempt (by simp [hrunning, JobStatus.isOpen]) (by decide)
      fun _ => hok record hrecord hleft job hjob hjobId hrunning hlocked
  · rename_i hnone
    obtain ⟨updated, hupdate, hpure⟩ := of_bind hdb
    obtain rfl := of_pure hpure
    refine h.archive (fun job hjob hjobId => ?_) hupdate
    obtain rfl := Table.eq_of_key h.ids hjob hmine (hjobId.trans hid.symm)
    exact le_antisymm (h.fits job hjob).bounded (by omega)

theorem queueOk_step {s t : Queue} {op : QueueOp} (h : QueueOk s) (hok : Archives s op)
    (hstep : s.step op = some t) : QueueOk t := by
  have hheart : ∀ {job : JobRow} (next : JobRow), next.id = job.id → next.status = job.status →
      next.attempts = job.attempts → next.maxAttempts = job.maxAttempts → job.Quiet next := by
    intro job next hid hstatus hattempts hmax
    refine ⟨hid, hmax, hattempts.ge, by rw [hstatus], fun hfits => ⟨?_, ?_, ?_⟩⟩
    all_goals rw [hattempts, hmax]
    · exact hfits.bounded
    · exact fun hq => hfits.queued (hstatus ▸ hq)
    · exact fun hf => hfits.failed (hstatus ▸ hf)
  cases op with
  | enqueue now id new =>
    refine queueOk_commit (fun db hdb => ?_) hstep
    obtain ⟨_, hmax, hdb⟩ := of_bind hdb
    obtain ⟨_, hnew, hdb⟩ := of_bind hdb
    obtain rfl := of_pure hdb
    exact h.insert (of_ensure hnew) rfl ⟨(of_ensure hmax).le, fun _ => of_ensure hmax, by simp⟩
  | enqueueSourceRefreshIfIdle now id sourceId =>
    obtain rfl := Option.some.inj hstep
    simp only [enqueueSourceRefreshIfIdle, Database.insertJob]
    split
    · exact h
    · rename_i hnew
      exact h.insert (Bool.eq_false_iff.mpr hnew) rfl ⟨by simp, fun _ => by simp, by simp⟩
  | claim now jobId workerId => exact queueOk_claim h hstep
  | heartbeat now jobId workerId activationLocked progressRun =>
    refine queueOk_commit (fun db hdb => h.quiet (quietJobs_updateOwned (fun job _ _ => ?_) hdb)) hstep
    exact hheart _ rfl rfl rfl rfl
  | touchHeartbeat now jobId workerId =>
    refine queueOk_commit (fun db hdb => h.quiet (quietJobs_updateOwned (fun job _ _ => ?_) hdb)) hstep
    exact hheart _ rfl rfl rfl rfl
  | succeed jobId workerId =>
    refine queueOk_commit (fun db hdb => h.quiet (quietJobs_updateOwned (fun job _ howned => ?_) hdb))
      hstep
    have hrunning := (JobRow.running_of_ownedBy howned).2
    exact JobRow.quiet_finish (by simp [hrunning, JobStatus.isOpen]) (by decide) (by simp)
  | fail index now error => exact queueOk_fail h hok hstep
  | recoverStaleJobs now lease =>
    obtain rfl := Option.some.inj hstep
    refine h.quiet (quietJobs_updateJobs fun job hjob hstale => ?_)
    have hleft := hok job hjob hstale
    have hrunning : job.status = .running :=
      of_decide_eq_true (Bool.and_eq_true_iff.mp hstale).1
    rw [if_pos hleft]
    exact JobRow.quiet_finish (by simp [hrunning, JobStatus.isOpen]) (by decide) fun _ => hleft
  | cancelRead jobId =>
    obtain ⟨target, -, hrest⟩ := Option.bind_eq_some_iff.mp hstep
    obtain rfl := Option.some.inj hrest
    exact ⟨h.ids, h.fits, h.letters, h.known, h.records⟩
  | cancelUpdate index now =>
    obtain ⟨⟨jobId, target⟩, -, hrest⟩ := Option.bind_eq_some_iff.mp hstep
    obtain rfl := Option.some.inj hrest
    exact h.quiet (quietJobs_cancelUpdate ..)

section Runs

variable {s : Queue}

theorem queueOk_of_reachable (h : queueMachine.ReachableWhere Archives s) : QueueOk s := by
  refine h.invariant ?_ ?_
  · constructor <;> simp [queueMachine]
  · intro before op after hbefore hok hstep
    exact queueOk_step hbefore hok hstep

/-- A job that has not failed has no record, and no record is about a job that does not exist. -/
theorem QueueOk.none_before (h : QueueOk s) {jobId : Uuid}
    (hopen : ∀ job ∈ s.db.jobs, job.id = jobId → job.status ≠ .failed) :
    s.db.deadLettersOf jobId = 0 := by
  refine Table.count_eq_zero.mpr fun letter hletter => decide_eq_false fun hid => ?_
  obtain ⟨job, hjob, hjobId⟩ := h.known letter hletter
  have hcount := h.letters job hjob
  rw [if_neg (hopen job hjob (hjobId.trans hid))] at hcount
  have hno := Table.count_eq_zero.mp hcount letter hletter
  simp [hjobId] at hno

/-- In runs where the sweeper finds no exhausted job and no worker reports an outdated claim of one:
a failed job is exhausted and has exactly one record, which the step that ended it has created; a
queued job has an attempt left; and no job has more attempts than its maximum. -/
theorem exhausted_jobs_archived (s : Queue) :
    (queueMachine.ReachableWhere Archives s → ∀ job ∈ s.db.jobs,
      job.attempts ≤ job.maxAttempts ∧
      (job.status = .queued → job.attempts < job.maxAttempts) ∧
      (job.status = .failed →
        job.attempts = job.maxAttempts ∧ s.db.deadLettersOf job.id = 1) ∧
      (job.status ≠ .failed → s.db.deadLettersOf job.id = 0)) ∧
    ∀ op t, queueMachine.ReachableWhere Archives s → Archives s op →
      queueMachine.step s op = some t → ∀ job ∈ t.db.jobs, job.status = .failed →
      (∀ before ∈ s.db.jobs, before.id = job.id → before.status ≠ .failed) →
      s.db.deadLettersOf job.id = 0 ∧ t.db.deadLettersOf job.id = 1 := by
  refine ⟨?_, ?_⟩
  · intro hs job hjob
    have hok := queueOk_of_reachable hs
    have hfits := hok.fits job hjob
    have hcount := hok.letters job hjob
    refine ⟨hfits.bounded, hfits.queued, fun hfailed => ⟨hfits.failed hfailed, ?_⟩, fun hfailed => ?_⟩
    · rwa [if_pos hfailed] at hcount
    · rwa [if_neg hfailed] at hcount
  · intro op t hs hok hstep job hjob hfailed hbefore
    have hcount := (queueOk_of_reachable (hs.step hok hstep)).letters job hjob
    rw [if_pos hfailed] at hcount
    exact ⟨(queueOk_of_reachable hs).none_before hbefore, hcount⟩

end Runs

/-- A job with one attempt, and a worker that has claimed it. -/
def lastAttempt : List QueueOp :=
  [.enqueue 0 1 { kind := .other "health-probe", maxAttempts := 1, availableAt := 0 },
    .claim 0 1 "worker"]

/-- The condition, evaluated. -/
def archives (s : Queue) : QueueOp → Bool
  | .recoverStaleJobs now lease =>
    s.db.jobs.all fun job => !job.isStale now lease || decide (job.attempts < job.maxAttempts)
  | .fail index _ _ => s.records[index]?.all fun record =>
    decide (record.maxAttempts ≤ record.attempts) ||
      s.db.jobs.all fun job => decide (job.id ≠ record.id ∨ job.status ≠ .running ∨
        job.lockedBy ≠ record.lockedBy ∨ job.attempts < job.maxAttempts)
  | _ => true

theorem archives_sound {s : Queue} {op : QueueOp} (h : archives s op = true) : Archives s op := by
  cases op with
  | recoverStaleJobs now lease =>
    intro job hjob hstale
    simpa [hstale] using List.all_eq_true.mp h job hjob
  | fail index now error =>
    intro record hrecord hleft job hjob hid hrunning hlocked
    have hrecord := Option.mem_def.mp hrecord
    simp only [archives, hrecord, Option.all_some, Bool.or_eq_true, decide_eq_true_eq] at h
    rcases h with hnone | hall
    · omega
    · simpa [hid, hrunning, hlocked] using List.all_eq_true.mp hall job hjob
  | _ => trivial

/-- A worker reports its last attempt. -/
theorem reported_failure_archived :
    ∃ s, queueMachine.ReachableWhere Archives s ∧ ∃ job ∈ s.db.jobs, job.status = .failed ∧
      s.db.deadLettersOf job.id = 1 := by
  obtain ⟨s, hs, hp⟩ := queueMachine.exists_reachableWhere_of_run Archives archives
    (lastAttempt ++ [.fail 0 1 "timed out"])
    (fun s => s.db.jobs.any fun job => decide (job.status = .failed))
    (fun s op _ h => archives_sound h) (by decide +kernel)
  obtain ⟨job, hjob, hfailed⟩ := List.any_eq_true.mp hp
  have hfailed := of_decide_eq_true hfailed
  exact ⟨s, hs, job, hjob, hfailed, (((exhausted_jobs_archived s).1 hs job hjob).2.2.1 hfailed).2⟩

/-- The lease of the last attempt expires. -/
theorem expired_lease_not_archived :
    ∃ s, queueMachine.Reachable s ∧ ∃ job ∈ s.db.jobs, job.status = .failed ∧
      job.attempts = job.maxAttempts ∧ s.db.deadLettersOf job.id = 0 := by
  obtain ⟨s, hs, hp⟩ := queueMachine.exists_reachable_of_run
    (lastAttempt ++ [.recoverStaleJobs 601 600])
    (fun s => s.db.jobs.any fun job => decide (job.status = .failed ∧
      job.attempts = job.maxAttempts ∧ s.db.deadLettersOf job.id = 0)) (by decide +kernel)
  obtain ⟨job, hjob, hspec⟩ := List.any_eq_true.mp hp
  exact ⟨s, hs, job, hjob, of_decide_eq_true hspec⟩

end IptvRelay.Store
