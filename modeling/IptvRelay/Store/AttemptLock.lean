import IptvRelay.Store.Cancellation

/-!
# The activation lock of one attempt

Runs of the queue over one job. The lock is a flag in the progress of the job; the end of an
attempt writes other columns, so a job that is queued again can still be locked.
-/

namespace IptvRelay.Store

open Transition Checked

/-- A whole call of `cancel`. -/
def cancel (db : Database) (now : Time) (jobId : Uuid) : Except PersistenceError (Database × Bool) := do
  match ← cancelRead db jobId with
  | none => return (db, false)
  | some target => return cancelUpdate db now jobId target

/-- The database, and whether the running attempt of the job has called `begin_activation`. -/
structure Attempt where
  db : Database
  begun : Bool := false

inductive AttemptOp where
  | claim (now : Time) (workerId : WorkerId)
  | beginActivation (now : Time) (workerId : WorkerId)
  /-- The flag is the one in the progress of the worker. -/
  | heartbeat (now : Time) (workerId : WorkerId) (activationLocked : Bool)
      (progressRun : Option Uuid)
  | fail (now : Time) (workerId : WorkerId) (attempts maxAttempts : Int) (error : String)
  | recoverStaleJobs (now lease : Time)
  | cancel (now : Time)

/-- A transaction that fails is no step. -/
def Attempt.step (jobId : Uuid) (s : Attempt) : AttemptOp → Option Attempt
  | .claim now workerId => do
    let db ← claim s.db now jobId workerId
    return { db, begun := false }
  | .beginActivation now workerId => do
    let db ← (beginActivation s.db now jobId workerId).toOption
    return { db, begun := true }
  | .heartbeat now workerId activationLocked progressRun => do
    let db ← (heartbeat s.db now jobId workerId activationLocked progressRun).toOption
    return { s with db }
  | .fail now workerId attempts maxAttempts error => do
    let db ← (fail s.db now jobId workerId attempts maxAttempts error).toOption
    return { s with db }
  | .recoverStaleJobs now lease => some { s with db := recoverStaleJobs s.db now lease }
  | .cancel now => do
    let (db, _) ← (cancel s.db now jobId).toOption
    return { s with db }

def attemptMachine (db : Database) (jobId : Uuid) : Machine Attempt AttemptOp where
  start := { db }
  step := Attempt.step jobId

/-- An attempt that ends and is to be tried again has not begun to activate, and the progress of
a worker has no lock of its own. -/
def EndsUnlocked (jobId : Uuid) (s : Attempt) : AttemptOp → Prop
  | .heartbeat _ _ activationLocked _ => activationLocked = false
  | .fail _ workerId attempts maxAttempts _ => attempts < maxAttempts →
      ∀ job ∈ s.db.jobs, job.ownedBy jobId workerId = true → s.begun = false
  | .recoverStaleJobs now lease => ∀ job ∈ s.db.jobs, job.id = jobId →
      job.isStale now lease = true → job.attempts < job.maxAttempts → s.begun = false
  | _ => True

/-! ## A call of `cancel` -/

/-- The refresh that a job belongs to, if it is not the job, is not locked. -/
def ParentUnlocked (db : Database) (job : JobRow) : Prop :=
  ∀ parent ∈ db.jobs, (CancelTarget.mk job.kind job.payload).parent job.id = some parent.id →
    parent.kind = .refreshSource → parent.id ≠ job.id → parent.activationLocked = false

theorem mem_cancelParent {db : Database} {parent job : JobRow} (hjob : job ∈ db.jobs)
    (hother : job.id ≠ parent.id) : job ∈ (cancelParent db parent).jobs := by
  unfold cancelParent
  split
  · refine Table.mem_update.mpr ⟨job, hjob, if_neg ?_⟩
    simp [hother]
  · exact hjob

theorem cancelUpdate_succeeds {db : Database} (hids : (db.jobs.map JobRow.id).Nodup) {job : JobRow}
    (hjob : job ∈ db.jobs) (hopen : job.status.isOpen = true) (hfree : job.activationLocked = false)
    (hparent : ParentUnlocked db job) (now : Time) :
    (cancelUpdate db now job.id ⟨job.kind, job.payload⟩).2 = true := by
  have hself : isUnlocked job.id job = true := by simp [isUnlocked, hfree]
  have hany : ∀ jobs : List JobRow, job ∈ jobs →
      jobs.any (fun job' => isUnlocked job.id job' && job'.status.isOpen) = true :=
    fun jobs hmem => List.any_eq_true.mpr ⟨job, hmem, by rw [hself, hopen]; rfl⟩
  unfold cancelUpdate
  cases htarget : (CancelTarget.mk job.kind job.payload).parent job.id with
  | none => exact List.any_eq_true.mpr ⟨job, hjob, by simp [hopen]⟩
  | some parentJobId =>
    simp only
    cases hfind : db.jobs.find? fun job => job.id = parentJobId ∧ job.kind = .refreshSource with
    | none => exact hany db.jobs hjob
    | some parent =>
      obtain ⟨hmem, rfl, hkind⟩ := refresh_of_find hfind
      by_cases hsame : parent.id = job.id
      · -- The job is the refresh.
        obtain rfl := Table.eq_of_key hids hmem hjob hsame
        simp [cancelWithParent, hfree, hopen]
      · have hflag := hparent parent hmem htarget hkind hsame
        have hchild : job.kind ≠ .refreshSource := by
          intro hrefresh
          simp only [CancelTarget.parent, hrefresh, Option.some.injEq] at htarget
          exact hsame htarget.symm
        have hcanceled := hany _ (mem_cancelParent hjob (Ne.symm hsame))
        simp [cancelWithParent, hflag, hchild, hcanceled]

/-- A locked refresh keeps its children. -/
theorem cancelUpdate_refused {db : Database} (hids : (db.jobs.map JobRow.id).Nodup) {job : JobRow}
    (hlocked : ¬ParentUnlocked db job) (now : Time) :
    (cancelUpdate db now job.id ⟨job.kind, job.payload⟩).2 = false := by
  unfold ParentUnlocked at hlocked
  push Not at hlocked
  obtain ⟨parent, hparent, htarget, hkind, -, hflag⟩ := hlocked
  unfold cancelUpdate
  simp only [htarget]
  cases hfind : db.jobs.find? fun job => job.id = parent.id ∧ job.kind = .refreshSource with
  | none =>
    exact absurd (decide_eq_true ⟨rfl, hkind⟩) (List.find?_eq_none.mp hfind parent hparent)
  | some found =>
    obtain ⟨hmem, hsame, -⟩ := refresh_of_find hfind
    obtain rfl := Table.eq_of_key hids hmem hparent hsame
    have hlocked : found.activationLocked = true := by simpa using hflag
    simp only [cancelWithParent, hlocked, if_true]

/-- A call of `cancel` for a job without a lock succeeds exactly if its refresh is not locked. -/
theorem cancel_succeeds_iff {db : Database} (hids : (db.jobs.map JobRow.id).Nodup) {job : JobRow}
    (hjob : job ∈ db.jobs) (hopen : job.status.isOpen = true) (hfree : job.activationLocked = false)
    (now : Time) :
    (∃ after, cancel db now job.id = .ok (after, true)) ↔ ParentUnlocked db job := by
  have hread : cancelRead db job.id = .ok (some ⟨job.kind, job.payload⟩) := by
    have hfind : db.job job.id = some job := Table.find?_of_key hids hjob
    simp [cancelRead, hfind, hopen, hfree]
  have hcancel : cancel db now job.id =
      .ok (cancelUpdate db now job.id ⟨job.kind, job.payload⟩) := by
    rw [cancel, hread]
    rfl
  rw [hcancel]
  constructor
  · rintro ⟨after, hafter⟩
    by_contra hlocked
    have hrefused := cancelUpdate_refused hids hlocked now
    rw [Except.ok.inj hafter] at hrefused
    cases hrefused
  · intro hparent
    refine ⟨(cancelUpdate db now job.id ⟨job.kind, job.payload⟩).1, ?_⟩
    rw [← cancelUpdate_succeeds hids hjob hopen hfree hparent now]

theorem cancelSourceSync_succeeds {db : Database} {job : JobRow} (hjob : job ∈ db.jobs)
    (hopen : job.status.isOpen = true) (hfree : job.activationLocked = false) (now : Time) :
    (cancelSourceSync db now job.id).2 = true := by
  have hany : db.jobs.any (fun job' => isUnlocked job.id job' && job'.status.isOpen) = true :=
    List.any_eq_true.mpr ⟨job, hjob, by simp [isUnlocked, hfree, hopen]⟩
  rw [cancelSourceSync, if_pos hany]

/-! ## What a step does to the rows -/

/-- A row keeps what says which job it is. -/
structure JobRow.SameJob (job next : JobRow) : Prop where
  id : next.id = job.id
  kind : next.kind = job.kind
  payload : next.payload = job.payload

/-- Every row comes from one row of before, as the relation says. -/
structure RowsBecome (r : JobRow → JobRow → Prop) (before after : Database) : Prop where
  ids : after.jobs.map JobRow.id = before.jobs.map JobRow.id
  origin : ∀ next ∈ after.jobs, ∃ job ∈ before.jobs, job.SameJob next ∧ r job next

theorem RowsBecome.update {r : JobRow → JobRow → Prop} (hrefl : ∀ job, r job job) (db : Database)
    {p : JobRow → Bool} {f : JobRow → JobRow} (hsame : ∀ job : JobRow, job.SameJob (f job))
    (hf : ∀ job ∈ db.jobs, p job = true → r job (f job)) :
    RowsBecome r db (db.updateJobs p f) := by
  refine ⟨Table.map_update fun job _ => (hsame job).id, fun next hnext => ?_⟩
  rcases Table.update_cases hnext with ⟨hnext, -⟩ | ⟨job, hjob, hp, rfl⟩
  · exact ⟨next, hnext, ⟨rfl, rfl, rfl⟩, hrefl next⟩
  · exact ⟨job, hjob, hsame job, hf job hjob hp⟩

theorem RowsBecome.trans {r : JobRow → JobRow → Prop} (htrans : ∀ a b c, r a b → r b c → r a c)
    {a b c : Database} (h : RowsBecome r a b) (h' : RowsBecome r b c) : RowsBecome r a c := by
  refine ⟨h'.ids.trans h.ids, fun next hnext => ?_⟩
  obtain ⟨middle, hmiddle, hsecond, hr⟩ := h'.origin next hnext
  obtain ⟨job, hjob, hfirst, hr'⟩ := h.origin middle hmiddle
  exact ⟨job, hjob, ⟨hsecond.id.trans hfirst.id, hsecond.kind.trans hfirst.kind,
    hsecond.payload.trans hfirst.payload⟩, htrans _ _ _ hr' hr⟩

/-- Nothing but an end. -/
structure JobRow.Stops (job next : JobRow) : Prop where
  locked : next.activationLocked = job.activationLocked
  status : next.status = job.status ∨ next.status.isOpen = false

theorem JobRow.Stops.refl (job : JobRow) : job.Stops job := ⟨rfl, .inl rfl⟩

theorem JobRow.Stops.trans (a b c : JobRow) (h : a.Stops b) (h' : b.Stops c) : a.Stops c := by
  refine ⟨h'.locked.trans h.locked, ?_⟩
  rcases h'.status with hsame | hended
  · rw [hsame]
    exact h.status
  · exact .inr hended

theorem stops_of_jobs {before after : Database} (h : after.jobs = before.jobs) :
    RowsBecome JobRow.Stops before after :=
  ⟨by rw [h], fun next hnext => ⟨next, h ▸ hnext, ⟨rfl, rfl, rfl⟩, .refl next⟩⟩

theorem stops_cancelJobs (db : Database) (p : JobRow → Bool) :
    RowsBecome JobRow.Stops db (db.cancelJobs p) :=
  RowsBecome.update JobRow.Stops.refl db (fun _ => ⟨rfl, rfl, rfl⟩)
    fun _ _ _ => ⟨rfl, .inr rfl⟩

theorem stops_cancelUpdate (db : Database) (now : Time) (jobId : Uuid) (target : CancelTarget) :
    RowsBecome JobRow.Stops db (cancelUpdate db now jobId target).1 := by
  unfold cancelUpdate
  split
  · exact stops_cancelJobs db _
  · split
    · exact stops_cancelJobs db _
    · rename_i parent _
      have hstopped : RowsBecome JobRow.Stops db (cancelParent db parent) := by
        unfold cancelParent
        split
        · exact stops_cancelJobs db _
        · exact stops_of_jobs rfl
      have hfamily : ∀ final, RowsBecome JobRow.Stops db final →
          RowsBecome JobRow.Stops db (cancelFamily final now parent.id) := fun final hfinal =>
        (hfinal.trans JobRow.Stops.trans (stops_cancelJobs final _)).trans JobRow.Stops.trans
          (stops_of_jobs rfl)
      unfold cancelWithParent
      split
      · exact stops_of_jobs rfl
      · dsimp only
        have hfinal : RowsBecome JobRow.Stops db
            (if decide (target.kind ≠ .refreshSource) = true then
              (cancelParent db parent).cancelJobs (isUnlocked jobId)
            else cancelParent db parent) := by
          split
          · exact hstopped.trans JobRow.Stops.trans (stops_cancelJobs _ _)
          · exact hstopped
        split
        · exact hfamily _ hfinal
        · exact hfinal

/-! ## The lock over runs -/

section Runs

variable {jobId : Uuid} {s t : Attempt}

/-- A locked job that is open is in an attempt that has begun to activate. -/
structure AttemptOk (jobId : Uuid) (s : Attempt) : Prop where
  ids : (s.db.jobs.map JobRow.id).Nodup
  lock : ∀ job ∈ s.db.jobs, job.id = jobId → job.activationLocked = true →
    job.status.isOpen = true → job.status = .running ∧ s.begun = true

/-- A locked row of the job that is open comes from a row that the step says so of. -/
theorem AttemptOk.rows (h : AttemptOk jobId s) {r : JobRow → JobRow → Prop}
    (hrows : RowsBecome r s.db t.db)
    (hown : ∀ job ∈ s.db.jobs, ∀ next, r job next → job.id = jobId →
      next.activationLocked = true → next.status.isOpen = true →
      next.status = .running ∧ t.begun = true) : AttemptOk jobId t where
  ids := by rw [hrows.ids]; exact h.ids
  lock next hnext hid hlocked hopen := by
    obtain ⟨job, hjob, hsame, hr⟩ := hrows.origin next hnext
    exact hown job hjob next hr (hsame.id.symm.trans hid) hlocked hopen

/-- An update, row by row. -/
theorem AttemptOk.update (h : AttemptOk jobId s) {p : JobRow → Bool} {f : JobRow → JobRow}
    {begun : Bool} (hsame : ∀ job : JobRow, job.SameJob (f job))
    (hkept : ∀ job ∈ s.db.jobs, p job = false → job.id = jobId → job.activationLocked = true →
      job.status = .running → s.begun = true → begun = true)
    (hown : ∀ job ∈ s.db.jobs, p job = true → job.id = jobId →
      (f job).activationLocked = true → (f job).status.isOpen = true →
      (f job).status = .running ∧ begun = true) :
    AttemptOk jobId { db := s.db.updateJobs p f, begun } := by
  have hrows : RowsBecome (fun job next => (p job = false ∧ next = job) ∨ (p job = true ∧ next = f job))
      s.db (s.db.updateJobs p f) := by
    refine ⟨Table.map_update fun job _ => (hsame job).id, fun next hnext => ?_⟩
    rcases Table.update_cases hnext with ⟨hnext, hp⟩ | ⟨job, hjob, hp, rfl⟩
    · exact ⟨next, hnext, ⟨rfl, rfl, rfl⟩, .inl ⟨hp, rfl⟩⟩
    · exact ⟨job, hjob, hsame job, .inr ⟨hp, rfl⟩⟩
  refine h.rows (t := { db := s.db.updateJobs p f, begun }) hrows ?_
  rintro job hjob next (⟨hp, rfl⟩ | ⟨hp, rfl⟩) hid hlocked hopen
  · obtain ⟨hrunning, hbegun⟩ := h.lock next hjob hid hlocked hopen
    exact ⟨hrunning, hkept next hjob hp hid hlocked hrunning hbegun⟩
  · exact hown job hjob hp hid hlocked hopen

theorem JobRow.ownedBy_running {job : JobRow} {jobId : Uuid} {workerId : WorkerId}
    (h : job.ownedBy jobId workerId = true) : job.id = jobId ∧ job.status = .running := by
  have hall := of_decide_eq_true h
  exact ⟨hall.1, hall.2.1⟩

theorem attemptOk_step {op : AttemptOp} (h : AttemptOk jobId s) (hop : EndsUnlocked jobId s op)
    (hstep : s.step jobId op = some t) : AttemptOk jobId t := by
  cases op with
  | claim now workerId =>
    obtain ⟨db, hdb, hstep⟩ := Option.bind_eq_some_iff.mp hstep
    obtain rfl := Option.some.inj hstep
    obtain ⟨⟨claimed, hclaimed, hclaimable⟩, hdb⟩ := of_guard hdb
    obtain rfl := Option.some.inj hdb
    refine h.update (fun _ => ⟨rfl, rfl, rfl⟩) ?_ ?_
    · intro job hjob hp hid _ _ _
      have hsame := Table.eq_of_key h.ids hjob hclaimed
        (hid.trans (of_decide_eq_true hclaimable).1.symm)
      rw [hsame] at hp
      exact absurd (hp.symm.trans hclaimable) Bool.false_ne_true
    · intro job hjob hp hid hlocked _
      have hqueued : job.status = .queued := (of_decide_eq_true hp).2.1
      have hrunning := (h.lock job hjob hid hlocked (by rw [hqueued]; rfl)).1
      rw [hqueued] at hrunning
      cases hrunning
  | beginActivation now workerId =>
    obtain ⟨db, hdb, hstep⟩ := Option.bind_eq_some_iff.mp hstep
    obtain rfl := Option.some.inj hstep
    obtain ⟨-, rfl⟩ := Database.updateOwned_ok (of_toOption hdb)
    exact h.update (fun _ => ⟨rfl, rfl, rfl⟩) (fun _ _ _ _ _ _ _ => rfl)
      fun job _ hp _ _ _ => ⟨(JobRow.ownedBy_running hp).2, rfl⟩
  | heartbeat now workerId activationLocked progressRun =>
    obtain rfl : activationLocked = false := hop
    obtain ⟨db, hdb, hstep⟩ := Option.bind_eq_some_iff.mp hstep
    obtain rfl := Option.some.inj hstep
    obtain ⟨-, rfl⟩ := Database.updateOwned_ok (of_toOption hdb)
    refine h.update (fun _ => ⟨rfl, rfl, rfl⟩) (fun _ _ _ _ _ _ hbegun => hbegun) ?_
    intro job hjob _ hid hlocked hopen
    exact h.lock job hjob hid (by simpa using hlocked) hopen
  | fail now workerId attempts maxAttempts error =>
    obtain ⟨db, hdb, hstep⟩ := Option.bind_eq_some_iff.mp hstep
    obtain rfl := Option.some.inj hstep
    have hdb := of_toOption hdb
    unfold fail at hdb
    split at hdb
    · rename_i hleft
      obtain ⟨delay, -, hdb⟩ := of_bind hdb
      obtain ⟨-, rfl⟩ := Database.updateOwned_ok hdb
      refine h.update (fun _ => ⟨rfl, rfl, rfl⟩) (fun _ _ _ _ _ _ hbegun => hbegun) ?_
      intro job hjob howned hid hlocked _
      have hrunning := (JobRow.ownedBy_running howned).2
      have hbegun := (h.lock job hjob hid hlocked (by rw [hrunning]; rfl)).2
      rw [hop hleft job hjob howned] at hbegun
      cases hbegun
    · obtain ⟨ended, hended, hdb⟩ := of_bind hdb
      obtain ⟨-, rfl⟩ := Database.updateOwned_ok hended
      obtain rfl := of_pure hdb
      have hended : AttemptOk jobId { s with
          db := s.db.updateJobs (·.ownedBy jobId workerId) (·.endAttempt .failed now) } :=
        h.update (fun _ => ⟨rfl, rfl, rfl⟩) (fun _ _ _ _ _ _ hbegun => hbegun)
          fun job _ _ _ _ hopen => by cases hopen
      -- The archive leaves the jobs as they are.
      exact ⟨hended.ids, hended.lock⟩
  | recoverStaleJobs now lease =>
    obtain rfl := Option.some.inj hstep
    refine h.update (fun _ => ⟨rfl, rfl, rfl⟩) (fun _ _ _ _ _ _ hbegun => hbegun) ?_
    intro job hjob hstale hid hlocked hopen
    have hrunning : job.status = .running := by
      have hboth := Bool.and_eq_true_iff.mp hstale
      exact of_decide_eq_true hboth.1
    have hbegun := (h.lock job hjob hid hlocked (by rw [hrunning]; rfl)).2
    by_cases hleft : job.attempts < job.maxAttempts
    · rw [hop job hjob hid hstale hleft] at hbegun
      cases hbegun
    · simp [hleft, JobRow.finish, JobStatus.isOpen] at hopen
  | cancel now =>
    obtain ⟨⟨db, result⟩, hdb, hstep⟩ := Option.bind_eq_some_iff.mp hstep
    obtain rfl := Option.some.inj hstep
    have hstops : RowsBecome JobRow.Stops s.db db := by
      obtain ⟨target, -, hdb⟩ := of_bind (of_toOption hdb)
      cases target with
      | none =>
        obtain ⟨rfl, -⟩ := Prod.mk.inj (of_pure hdb)
        exact stops_of_jobs rfl
      | some target =>
        have hdb := of_pure hdb
        have hafter := stops_cancelUpdate s.db now jobId target
        rwa [hdb] at hafter
    refine h.rows (t := { s with db }) hstops ?_
    intro job hjob next hr hid hlocked hopen
    rw [hr.locked] at hlocked
    rcases hr.status with hsame | hended
    · rw [hsame] at hopen ⊢
      exact h.lock job hjob hid hlocked hopen
    · rw [hended] at hopen
      cases hopen

/-- The run begins with the job waiting for its first attempt: its progress has no lock. -/
structure Waiting (db : Database) (jobId : Uuid) : Prop where
  ids : (db.jobs.map JobRow.id).Nodup
  free : ∀ job ∈ db.jobs, job.id = jobId → job.activationLocked = false

theorem attemptOk_of_reachable {db : Database} (hdb : Waiting db jobId)
    (h : (attemptMachine db jobId).ReachableWhere (EndsUnlocked jobId) s) : AttemptOk jobId s := by
  refine h.invariant ?_ fun s op t hok hop hstep => attemptOk_step hok hop hstep
  refine ⟨hdb.ids, fun job hjob hid hlocked _ => ?_⟩
  rw [hdb.free job hjob hid] at hlocked
  cases hlocked

/-- In runs where no attempt that has begun to activate is followed by another one, a job that waits
or whose attempt has not begun to activate can be cancelled, unless it belongs to another job, a
refresh, that is locked at the call. -/
theorem attempt_lock_released {db : Database} {jobId : Uuid} (hdb : Waiting db jobId) (s : Attempt)
    (h : (attemptMachine db jobId).ReachableWhere (EndsUnlocked jobId) s) (job : JobRow)
    (hjob : job ∈ s.db.jobs) (hid : job.id = jobId)
    (hfree : job.status = .queued ∨ (job.status = .running ∧ s.begun = false)) (now : Time) :
    ((∃ after, cancel s.db now jobId = .ok (after, true)) ↔ ParentUnlocked s.db job) ∧
      (job.kind = .refreshSource → (cancelSourceSync s.db now jobId).2 = true) := by
  have hok := attemptOk_of_reachable hdb h
  have hopen : job.status.isOpen = true := by
    rcases hfree with hqueued | ⟨hrunning, -⟩
    · rw [hqueued]
      rfl
    · rw [hrunning]
      rfl
  have hlock : job.activationLocked = false := by
    by_contra hlocked
    obtain ⟨hrunning, hbegun⟩ :=
      hok.lock job hjob hid (Bool.eq_true_of_not_eq_false hlocked) hopen
    rcases hfree with hqueued | ⟨-, hnot⟩
    · rw [hqueued] at hrunning
      cases hrunning
    · rw [hnot] at hbegun
      cases hbegun
  subst hid
  exact ⟨cancel_succeeds_iff hok.ids hjob hopen hlock now,
    fun _ => cancelSourceSync_succeeds hjob hopen hlock now⟩

end Runs

/-- The condition, evaluated. -/
def endsUnlocked (jobId : Uuid) (s : Attempt) : AttemptOp → Bool
  | .heartbeat _ _ activationLocked _ => !activationLocked
  | .fail _ _ attempts maxAttempts _ => decide (maxAttempts ≤ attempts) || !s.begun
  | .recoverStaleJobs now lease => !s.begun || s.db.jobs.all fun job =>
      decide (job.id ≠ jobId ∨ job.maxAttempts ≤ job.attempts) || !job.isStale now lease
  | _ => true

theorem endsUnlocked_sound {jobId : Uuid} {s : Attempt} {op : AttemptOp}
    (h : endsUnlocked jobId s op = true) : EndsUnlocked jobId s op := by
  cases op with
  | heartbeat now workerId activationLocked progressRun =>
    simpa [endsUnlocked, EndsUnlocked] using h
  | fail now workerId attempts maxAttempts error =>
    intro hleft job hjob howned
    have hnot : ¬maxAttempts ≤ attempts := by omega
    simpa [endsUnlocked, hnot] using h
  | recoverStaleJobs now lease =>
    intro job hjob hid hstale hleft
    have hnot : ¬job.maxAttempts ≤ job.attempts := by omega
    cases hbegun : s.begun with
    | false => rfl
    | true =>
      simp only [endsUnlocked, hbegun, Bool.not_true, Bool.false_or] at h
      have hone := List.all_eq_true.mp h job hjob
      simp [hid, hnot, hstale] at hone
  | _ => trivial

/-- A refresh that waits for its first attempt. -/
def waitingRefresh : Database :=
  { jobs := [{ id := 1, kind := .refreshSource, payload := { sourceId := some 7 }, createdAt := 0 }] }

/-- The attempt fails behind its activation, and the job waits for the next one. -/
theorem retried_refresh_not_cancelled :
    ∃ s, (attemptMachine waitingRefresh 1).Reachable s ∧
      (∃ job ∈ s.db.jobs, job.id = 1 ∧ job.status = .queued) ∧
      (cancel s.db 20 1).toOption.any (fun result => !result.2) = true ∧
      (cancelSourceSync s.db 20 1).2 = false := by
  obtain ⟨s, hs, hp⟩ := (attemptMachine waitingRefresh 1).exists_reachable_of_run
    [.claim 1 "worker", .beginActivation 2 "worker", .fail 3 "worker" 1 3 "timeout"]
    (fun s => decide ((∃ job ∈ s.db.jobs, job.id = 1 ∧ job.status = .queued) ∧
      (cancel s.db 20 1).toOption.any (fun result => !result.2) = true ∧
      (cancelSourceSync s.db 20 1).2 = false)) (by decide +kernel)
  exact ⟨s, hs, of_decide_eq_true hp⟩

theorem second_attempt_cancelled :
    ∃ s, (attemptMachine waitingRefresh 1).ReachableWhere (EndsUnlocked 1) s ∧
      (∃ job ∈ s.db.jobs, job.status = .running ∧ job.attempts = 2) ∧
      (∃ after, cancel s.db 20 1 = .ok (after, true)) ∧ (cancelSourceSync s.db 20 1).2 = true := by
  obtain ⟨s, hs, hp⟩ := (attemptMachine waitingRefresh 1).exists_reachableWhere_of_run
    (EndsUnlocked 1) (endsUnlocked 1)
    [.claim 1 "worker", .heartbeat 2 "worker" false (some 5), .fail 3 "worker" 1 3 "timeout",
      .claim 9 "worker"]
    (fun s => decide (∃ job ∈ s.db.jobs, job.id = 1 ∧ job.kind = .refreshSource ∧
      job.status = .running ∧ job.attempts = 2 ∧ s.begun = false))
    (fun _ _ _ => endsUnlocked_sound) (by decide +kernel)
  obtain ⟨job, hjob, hid, hkind, hrunning, hattempts, hbegun⟩ := of_decide_eq_true hp
  obtain ⟨hcancel, hsync⟩ := attempt_lock_released ⟨by decide, by decide⟩ s hs job hjob hid
    (.inr ⟨hrunning, hbegun⟩) 20
  have hparent : ParentUnlocked s.db job := by
    intro parent _ htarget _ hne
    rw [CancelTarget.parent, hkind] at htarget
    exact absurd (Option.some.inj htarget).symm hne
  exact ⟨s, hs, ⟨job, hjob, hrunning, hattempts⟩, hcancel.mpr hparent, hsync hkind⟩

end IptvRelay.Store
