import IptvRelay.Lib.Machine
import IptvRelay.Store.Jobs
import IptvRelay.Store.ReconciliationFacts

/-!
# Cancellation against publication

Runs of `cancel`, `cancel_source_sync`, `begin_activation`, partitions and finalizers over
any jobs. A call of `cancel` is two steps, because it reads its job before it takes a lock.
A refresh is not both cancelled and published. A job that has begun to activate is safe
from `cancel` unless a call had read it before: only the branch of refreshes looks at the
lock again.
-/

namespace IptvRelay.Store

open Transition Checked

/-- Where a call of `cancel` is. -/
inductive CancelPhase where
  | updating (target : CancelTarget)
  | returned (result : Bool)
  deriving DecidableEq, Repr

/-- A call of `cancel`. The specification sees whether the job had begun to activate before the
call's last step, and whether that step left its status as it was. -/
structure CancelCall where
  jobId : Uuid
  phase : CancelPhase
  late : Bool := false
  kept : Bool := true
  deriving DecidableEq, Repr

/-- The database with the calls. The lists are read by the specification: jobs that have begun to
activate, refreshes that a cancellation has returned true for, and published refreshes. -/
structure Cancellations where
  db : Database
  calls : List CancelCall := []
  activated : List Uuid := []
  cancelled : List Uuid := []
  published : List Uuid := []

inductive CancelOp where
  | cancelRead (jobId : Uuid)
  | cancelUpdate (call : Nat) (now : Time)
  | cancelSourceSync (parentJobId : Uuid) (now : Time)
  | beginActivation (jobId : Uuid) (workerId : WorkerId) (now : Time)
  | processPartition (now : Time) (runId : Uuid) (number : Nat) (workerId : WorkerId)
      (jobId : Option Uuid)
  | finalize (now : Time) (runId parentJobId finalizerJobId : Uuid) (workerId : Option WorkerId)
      (channelsOk : Bool)

/-- The refreshes that a cancellation with this result was for. -/
def reported (parent : Option Uuid) (result : Bool) : List Uuid :=
  if result then parent.toList else []

namespace Cancellations

def read (s : Cancellations) (jobId : Uuid) : Option Cancellations :=
  match cancelRead s.db jobId with
  | .error _ => none
  | .ok none =>
    some { s with
      calls := s.calls ++ [⟨jobId, .returned false, s.activated.contains jobId, true⟩] }
  | .ok (some target) =>
    some { s with calls := s.calls ++ [⟨jobId, .updating target, false, true⟩] }

def update (s : Cancellations) (index : Nat) (now : Time) : Option Cancellations := do
  let call ← s.calls[index]?
  match call.phase with
  | .returned _ => none
  | .updating target =>
    let (db, result) := cancelUpdate s.db now call.jobId target
    return { s with
      db
      calls := s.calls.set index
        { call with
          phase := .returned result
          late := s.activated.contains call.jobId
          kept := (db.job call.jobId).map JobRow.status = (s.db.job call.jobId).map JobRow.status }
      cancelled := s.cancelled ++ reported (target.parent call.jobId) result }

def step (hash : String → Int) (s : Cancellations) : CancelOp → Option Cancellations
  | .cancelRead jobId => s.read jobId
  | .cancelUpdate index now => s.update index now
  | .cancelSourceSync parentJobId now =>
    let (db, result) := cancelSourceSync s.db now parentJobId
    some { s with db, cancelled := s.cancelled ++ reported (some parentJobId) result }
  | .beginActivation jobId workerId now =>
    match beginActivation s.db now jobId workerId with
    | .error _ => none
    | .ok db => some { s with db, activated := s.activated ++ [jobId] }
  | .processPartition now runId number workerId jobId =>
    some { s with
      db := (processProviderReconciliationPartition hash s.db now runId number workerId jobId).1 }
  | .finalize now runId parentJobId finalizerJobId workerId channelsOk =>
    let (db, result) := finalizeProviderReconciliation s.db now runId parentJobId finalizerJobId
      workerId channelsOk
    some { s with
      db
      published := s.published ++
        match result with
        | .ok .published => [parentJobId]
        | _ => [] }

end Cancellations

/-- From any database. -/
def cancelMachine (hash : String → Int) (db : Database) : Machine Cancellations CancelOp where
  start := { db }
  step := Cancellations.step hash

/-! ## What a step does to a job -/

/-- A job keeps its identity, its end is final and its lock stays. -/
structure JobRow.Advances (job next : JobRow) : Prop where
  id : next.id = job.id
  kind : next.kind = job.kind
  ended : job.status.isOpen = false → next.status = job.status
  locked : job.activationLocked = true → next.activationLocked = true

theorem JobRow.Advances.refl (job : JobRow) : job.Advances job :=
  ⟨rfl, rfl, fun _ => rfl, fun h => h⟩

/-- What a step does to the table of jobs. -/
structure JobsAdvance (before after : Database) : Prop where
  ids : after.jobs.map JobRow.id = before.jobs.map JobRow.id
  origin : ∀ next ∈ after.jobs, ∃ job ∈ before.jobs, job.Advances next

theorem JobsAdvance.refl (db : Database) : JobsAdvance db db :=
  ⟨rfl, fun job hjob => ⟨job, hjob, .refl job⟩⟩

theorem JobsAdvance.of_jobs {before after : Database} (h : after.jobs = before.jobs) :
    JobsAdvance before after :=
  ⟨by rw [h], fun job hjob => ⟨job, h ▸ hjob, .refl job⟩⟩

theorem JobsAdvance.trans {a b c : Database} (h : JobsAdvance a b) (h' : JobsAdvance b c) :
    JobsAdvance a c := by
  refine ⟨h'.ids.trans h.ids, fun next hnext => ?_⟩
  obtain ⟨middle, hmiddle, hsecond⟩ := h'.origin next hnext
  obtain ⟨job, hjob, hfirst⟩ := h.origin middle hmiddle
  refine ⟨job, hjob, hsecond.id.trans hfirst.id, hsecond.kind.trans hfirst.kind, fun hended => ?_,
    fun hlocked => hsecond.locked (hfirst.locked hlocked)⟩
  have hstatus := hfirst.ended hended
  exact (hsecond.ended (hstatus ▸ hended)).trans hstatus

theorem JobsAdvance.update (db : Database) {p : JobRow → Bool} {f : JobRow → JobRow}
    (hf : ∀ job, p job = true → job.Advances (f job)) : JobsAdvance db (db.updateJobs p f) := by
  refine ⟨Table.map_update fun job hp => (hf job hp).id, fun next hnext => ?_⟩
  rcases Table.update_cases hnext with ⟨hnext, -⟩ | ⟨job, hjob, hp, rfl⟩
  · exact ⟨next, hnext, .refl next⟩
  · exact ⟨job, hjob, hf job hp⟩

theorem jobsAdvance_cancelJobs (db : Database) (p : JobRow → Bool) :
    JobsAdvance db (db.cancelJobs p) := by
  refine JobsAdvance.update db fun job hp => ⟨rfl, rfl, fun hended => ?_, fun hlocked => hlocked⟩
  rw [hended, Bool.and_false] at hp
  cases hp

theorem jobsAdvance_cancelChildren (db : Database) (parentJobId : Uuid) :
    JobsAdvance db (db.cancelChildren parentJobId) :=
  jobsAdvance_cancelJobs db _

theorem jobsAdvance_lockActivation (db : Database) (jobId : Uuid) :
    JobsAdvance db (lockActivation db jobId) :=
  JobsAdvance.update db fun _ _ => ⟨rfl, rfl, fun _ => rfl, fun _ => rfl⟩

/-! ## The calls -/

theorem jobsAdvance_cancelSourceSync (db : Database) (now : Time) (parentJobId : Uuid) :
    JobsAdvance db (cancelSourceSync db now parentJobId).1 := by
  unfold cancelSourceSync
  split
  · have hparent := jobsAdvance_cancelJobs db (isUnlocked parentJobId)
    exact (hparent.trans (jobsAdvance_cancelChildren _ parentJobId)).trans (.of_jobs rfl)
  · exact .refl db

theorem jobsAdvance_cancelFamily (db : Database) (now : Time) (parentJobId : Uuid) :
    JobsAdvance db (cancelFamily db now parentJobId) :=
  (jobsAdvance_cancelChildren db parentJobId).trans (.of_jobs rfl)

theorem jobsAdvance_cancelParent (db : Database) (parent : JobRow) :
    JobsAdvance db (cancelParent db parent) := by
  unfold cancelParent
  split
  · exact jobsAdvance_cancelJobs db _
  · exact .refl db

/-- A refresh with the lock keeps everything; else it has ended when the call returns true. -/
theorem cancelWithParent_spec (db : Database) (now : Time) (jobId : Uuid) (target : CancelTarget)
    (parent : JobRow) :
    JobsAdvance db (cancelWithParent db now jobId target parent).1 ∧
      (parent.activationLocked = true →
        cancelWithParent db now jobId target parent = (db, false)) ∧
      (parent.activationLocked = false → JobsAdvance (cancelParent db parent)
        (cancelWithParent db now jobId target parent).1) := by
  unfold cancelWithParent
  cases hlocked : parent.activationLocked with
  | true => simpa using JobsAdvance.refl db
  | false =>
    simp only [Bool.false_eq_true, if_false, false_imp_iff, true_imp_iff, true_and]
    generalize hfinal : (if decide (target.kind ≠ .refreshSource) = true then
      (cancelParent db parent).cancelJobs (isUnlocked jobId) else cancelParent db parent) = final
    have hrest : JobsAdvance (cancelParent db parent) final := by
      rw [← hfinal]
      split
      · exact jobsAdvance_cancelJobs _ _
      · exact .refl _
    have hresult : ∀ done : Bool, JobsAdvance (cancelParent db parent)
        (if done = true then (cancelFamily final now parent.id, true) else (final, false)).1 := by
      intro done
      cases done with
      | true => exact hrest.trans (jobsAdvance_cancelFamily final now parent.id)
      | false => exact hrest
    exact ⟨(jobsAdvance_cancelParent db parent).trans (hresult _), hresult _⟩

theorem jobsAdvance_cancelUpdate (db : Database) (now : Time) (jobId : Uuid)
    (target : CancelTarget) : JobsAdvance db (cancelUpdate db now jobId target).1 := by
  unfold cancelUpdate
  split
  · exact jobsAdvance_cancelJobs db _
  · split
    · exact jobsAdvance_cancelJobs db _
    · exact (cancelWithParent_spec ..).1

theorem jobsAdvance_beginActivation {db after : Database} {now : Time} {jobId : Uuid}
    {workerId : WorkerId} (h : beginActivation db now jobId workerId = .ok after) :
    JobsAdvance db after ∧ ∃ job ∈ after.jobs, job.id = jobId ∧ job.activationLocked = true := by
  obtain ⟨⟨job, hjob, hmine⟩, rfl⟩ := Database.updateOwned_ok h
  refine ⟨JobsAdvance.update db fun _ _ => ⟨rfl, rfl, fun _ => rfl, fun _ => rfl⟩, ?_⟩
  refine ⟨{ job with heartbeatAt := some now, activationLocked := true },
    Table.mem_update.mpr ⟨job, hjob, if_pos hmine⟩, ?_, rfl⟩
  exact (of_decide_eq_true hmine).1

theorem jobsAdvance_abandonRun (db : Database) (now : Time) (runId finalizerJobId : Uuid) :
    JobsAdvance db (abandonRun db now runId finalizerJobId) := by
  have hstop := JobsAdvance.update db (p := fun job => decide (job.id = finalizerJobId ∧
    job.kind = .finalizeProviderReconciliation ∧ job.status.isOpen))
    (f := fun job => job.finish .cancelled) fun job hp => by
      refine ⟨rfl, rfl, fun hended => ?_, fun hlocked => hlocked⟩
      have hopen := (of_decide_eq_true hp).2.2
      rw [hended] at hopen
      cases hopen
  exact hstop.trans (.of_jobs rfl)

theorem jobsAdvance_finalizes {db after : Database} {now : Time}
    {runId parentJobId finalizerJobId : Uuid} {workerId : Option WorkerId}
    {result : ProviderReconciliationFinalization}
    (h : Finalizes db now runId parentJobId finalizerJobId workerId after result) :
    JobsAdvance db after := by
  have hlock : JobsAdvance db (lockActivation (lockActivation db parentJobId) finalizerJobId) :=
    (jobsAdvance_lockActivation db parentJobId).trans (jobsAdvance_lockActivation _ _)
  cases h with
  | abandoned => exact jobsAdvance_abandonRun ..
  | stopped => exact .refl db
  | again => exact .refl db
  | early => exact .refl db
  | superseded => exact hlock.trans (.of_jobs rfl)
  | published _ _ _ _ _ hpublish =>
    refine hlock.trans (.of_jobs ?_)
    unfold publishRun at hpublish
    obtain ⟨_, -, hpublish⟩ := of_bind hpublish
    rw [← of_pure hpublish]
    rfl

/-! ## Cancelled and published refreshes -/

theorem JobsAdvance.forward {before after : Database} (h : JobsAdvance before after)
    (hids : (before.jobs.map JobRow.id).Nodup) {job : JobRow} (hjob : job ∈ before.jobs) :
    ∃ next ∈ after.jobs, job.Advances next := by
  have hid : job.id ∈ after.jobs.map JobRow.id := by
    rw [h.ids]
    exact List.mem_map_of_mem hjob
  obtain ⟨next, hnext, hsame⟩ := List.mem_map.mp hid
  obtain ⟨old, hold, hadvance⟩ := h.origin next hnext
  obtain rfl := Table.eq_of_key hids hold hjob (hadvance.id.symm.trans hsame)
  exact ⟨next, hnext, hadvance⟩

/-- No open refresh has this id. -/
def Database.Ended (db : Database) (parentJobId : Uuid) : Prop :=
  ∀ job ∈ db.jobs, job.id = parentJobId → job.kind = .refreshSource → job.status.isOpen = false

/-- The refresh has the lock. -/
def Database.Locked (db : Database) (parentJobId : Uuid) : Prop :=
  ∃ job ∈ db.jobs, job.id = parentJobId ∧ job.kind = .refreshSource ∧ job.activationLocked = true

theorem Database.Ended.advance {before after : Database} (h : JobsAdvance before after)
    {parentJobId : Uuid} (hended : before.Ended parentJobId) : after.Ended parentJobId := by
  intro next hnext hid hkind
  obtain ⟨job, hjob, hadvance⟩ := h.origin next hnext
  have hclosed := hended job hjob (hadvance.id.symm.trans hid) (hadvance.kind.symm.trans hkind)
  rw [hadvance.ended hclosed]
  exact hclosed

theorem Database.Locked.advance {before after : Database} (h : JobsAdvance before after)
    (hids : (before.jobs.map JobRow.id).Nodup) {parentJobId : Uuid}
    (hlocked : before.Locked parentJobId) : after.Locked parentJobId := by
  obtain ⟨job, hjob, hid, hkind, hflag⟩ := hlocked
  obtain ⟨next, hnext, hadvance⟩ := h.forward hids hjob
  exact ⟨next, hnext, hadvance.id.trans hid, hadvance.kind.trans hkind, hadvance.locked hflag⟩

/-- The statement that cancels a job ends it. -/
theorem cancelJobs_closed {db : Database} {p : JobRow → Bool} {job : JobRow}
    (hjob : job ∈ (db.cancelJobs p).jobs) (hp : ∀ old ∈ db.jobs, old.id = job.id → p old = true) :
    job.status.isOpen = false := by
  rcases Table.update_cases hjob with ⟨hjob, hnot⟩ | ⟨old, -, -, rfl⟩
  · rw [hp job hjob rfl, Bool.true_and] at hnot
    exact hnot
  · rfl

theorem cancelParent_ended {db : Database} (hids : (db.jobs.map JobRow.id).Nodup) {parent : JobRow}
    (hparent : parent ∈ db.jobs) : (cancelParent db parent).Ended parent.id := by
  intro job hjob hid _
  unfold cancelParent at hjob
  split at hjob
  · exact cancelJobs_closed hjob fun old _ hold => decide_eq_true (hold.trans hid)
  · rename_i hclosed
    rw [Table.eq_of_key hids hjob hparent hid]
    exact Bool.eq_false_of_not_eq_true hclosed

theorem refresh_of_find {db : Database} {parentJobId : Uuid} {parent : JobRow}
    (h : (db.jobs.find? fun job => job.id = parentJobId ∧ job.kind = .refreshSource) =
      some parent) :
    parent ∈ db.jobs ∧ parent.id = parentJobId ∧ parent.kind = .refreshSource := by
  have hmatches := List.find?_some h
  exact ⟨List.mem_of_find?_eq_some h, of_decide_eq_true hmatches⟩

/-- A cancellation that returns true has ended a refresh that was not locked. -/
theorem cancelUpdate_true {db : Database} (hids : (db.jobs.map JobRow.id).Nodup) {now : Time}
    {jobId parentJobId : Uuid} {target : CancelTarget}
    (hparent : target.parent jobId = some parentJobId)
    (h : (cancelUpdate db now jobId target).2 = true) :
    (cancelUpdate db now jobId target).1.Ended parentJobId ∧ ¬ db.Locked parentJobId := by
  unfold cancelUpdate at h ⊢
  rw [hparent] at h ⊢
  simp only at h ⊢
  split at h
  · rename_i hnone
    -- There is no such refresh.
    have hother : ∀ job ∈ db.jobs, job.id = parentJobId → job.kind ≠ .refreshSource := by
      intro job hjob hid hkind
      exact List.find?_eq_none.mp hnone job hjob (decide_eq_true ⟨hid, hkind⟩)
    refine ⟨Database.Ended.advance (jobsAdvance_cancelJobs db _) ?_, ?_⟩
    · exact fun job hjob hid hkind => absurd hkind (hother job hjob hid)
    · rintro ⟨job, hjob, hid, hkind, -⟩
      exact hother job hjob hid hkind
  · rename_i parent hfound
    obtain ⟨hmem, rfl, hkind⟩ := refresh_of_find hfound
    obtain ⟨-, hlocked, hrest⟩ := cancelWithParent_spec db now jobId target parent
    have hflag : parent.activationLocked = false := by
      by_contra hflag
      rw [hlocked (Bool.eq_true_of_not_eq_false hflag)] at h
      cases h
    refine ⟨(cancelParent_ended hids hmem).advance (hrest hflag), ?_⟩
    rintro ⟨job, hjob, hid, -, hset⟩
    rw [Table.eq_of_key hids hjob hmem hid, hflag] at hset
    cases hset

theorem cancelSourceSync_true {db : Database} (hids : (db.jobs.map JobRow.id).Nodup) {now : Time}
    {parentJobId : Uuid} (h : (cancelSourceSync db now parentJobId).2 = true) :
    (cancelSourceSync db now parentJobId).1.Ended parentJobId ∧ ¬ db.Locked parentJobId := by
  unfold cancelSourceSync at h ⊢
  split at h
  · rename_i hany
    obtain ⟨job, hjob, hopen⟩ := List.any_eq_true.mp hany
    obtain ⟨hmine, -⟩ := Bool.and_eq_true_iff.mp hopen
    obtain ⟨hid, hflag⟩ := Bool.and_eq_true_iff.mp hmine
    have hid := of_decide_eq_true hid
    rw [if_pos hany]
    refine ⟨?_, ?_⟩
    · have hended : (db.cancelJobs (isUnlocked parentJobId)).Ended parentJobId := by
        intro next hnext hsame _
        refine cancelJobs_closed hnext fun old hold holdid => ?_
        rw [Table.eq_of_key hids hold hjob (holdid.trans (hsame.trans hid.symm))]
        exact hmine
      have hrest := jobsAdvance_cancelChildren (db.cancelJobs (isUnlocked parentJobId)) parentJobId
      exact hended.advance (hrest.trans (.of_jobs rfl))
    · rintro ⟨other, hother, hsame, -, hset⟩
      rw [Table.eq_of_key hids hother hjob (hsame.trans hid.symm)] at hset
      rw [hset] at hflag
      cases hflag
  · cases h

/-- The finalizer locks the refresh that it publishes. -/
theorem published_locked {db after : Database} (hids : (db.jobs.map JobRow.id).Nodup) {now : Time}
    {runId parentJobId finalizerJobId : Uuid} {workerId : Option WorkerId}
    (h : Finalizes db now runId parentJobId finalizerJobId workerId after .published) :
    after.Locked parentJobId ∧ ¬ db.Ended parentJobId := by
  have hadvance := jobsAdvance_finalizes h
  cases h with
  | published hready _ _ _ _ hpublish =>
    obtain ⟨job, hfound, hrunning⟩ := hready.parent
    obtain ⟨hjob, hid, hkind⟩ := refresh_of_find hfound
    have hjobs : after.jobs = (lockActivation (lockActivation db parentJobId) finalizerJobId).jobs := by
      unfold publishRun at hpublish
      obtain ⟨_, -, hpublish⟩ := of_bind hpublish
      rw [← of_pure hpublish]
      rfl
    have hlocked : (lockActivation db parentJobId).Locked parentJobId :=
      ⟨{ job with activationLocked := true }, Table.mem_update.mpr ⟨job, hjob,
        if_pos (decide_eq_true ⟨hid, by rw [hrunning]; decide⟩)⟩, hid, hkind, rfl⟩
    have hids' : ((lockActivation db parentJobId).jobs.map JobRow.id).Nodup :=
      (jobsAdvance_lockActivation db parentJobId).ids ▸ hids
    refine ⟨hlocked.advance ((jobsAdvance_lockActivation _ finalizerJobId).trans
      (.of_jobs hjobs)) hids', fun hended => ?_⟩
    have hclosed := hended job hjob hid hkind
    rw [hrunning] at hclosed
    cases hclosed

/-! ## Runs -/

/-- The cancelled refreshes have ended, the published ones are locked. -/
structure CancelOk (s : Cancellations) : Prop where
  ids : (s.db.jobs.map JobRow.id).Nodup
  ended : ∀ parentJobId ∈ s.cancelled, s.db.Ended parentJobId
  locked : ∀ parentJobId ∈ s.published, s.db.Locked parentJobId
  apart : ∀ parentJobId ∈ s.cancelled, parentJobId ∉ s.published

/-- A step over the jobs that reports no refresh or a refresh of the right kind. -/
theorem CancelOk.advance {s : Cancellations} (h : CancelOk s) {t : Cancellations}
    (hadvance : JobsAdvance s.db t.db)
    (hcancelled : ∀ parentJobId ∈ t.cancelled, parentJobId ∈ s.cancelled ∨
      (t.db.Ended parentJobId ∧ ¬ s.db.Locked parentJobId ∧ t.published = s.published))
    (hpublished : ∀ parentJobId ∈ t.published, parentJobId ∈ s.published ∨
      (t.db.Locked parentJobId ∧ ¬ s.db.Ended parentJobId ∧ t.cancelled = s.cancelled)) :
    CancelOk t where
  ids := hadvance.ids ▸ h.ids
  ended parentJobId hmem := by
    rcases hcancelled parentJobId hmem with hold | ⟨hended, -⟩
    · exact (h.ended parentJobId hold).advance hadvance
    · exact hended
  locked parentJobId hmem := by
    rcases hpublished parentJobId hmem with hold | ⟨hlocked, -⟩
    · exact (h.locked parentJobId hold).advance hadvance h.ids
    · exact hlocked
  apart parentJobId hmem hother := by
    rcases hcancelled parentJobId hmem with hold | ⟨-, hunlocked, hsame⟩
    · rcases hpublished parentJobId hother with hold' | ⟨-, hopen, -⟩
      · exact h.apart parentJobId hold hold'
      · exact hopen (h.ended parentJobId hold)
    · exact hunlocked (h.locked parentJobId (hsame ▸ hother))

theorem mem_reported {parent : Option Uuid} {result : Bool} {parentJobId : Uuid}
    (h : parentJobId ∈ reported parent result) : parent = some parentJobId ∧ result = true := by
  unfold reported at h
  split at h
  · rename_i hresult
    exact ⟨Option.mem_toList.mp h, hresult⟩
  · cases h

theorem cancelOk_step {hash : String → Int} {s t : Cancellations} {op : CancelOp} (h : CancelOk s)
    (hstep : s.step hash op = some t) : CancelOk t := by
  have hsame : ∀ {t : Cancellations}, JobsAdvance s.db t.db → t.cancelled = s.cancelled →
      t.published = s.published → CancelOk t := fun hadvance hcancelled hpublished =>
    h.advance hadvance (fun _ hmem => .inl (hcancelled ▸ hmem)) fun _ hmem => .inl (hpublished ▸ hmem)
  cases op with
  | cancelRead jobId =>
    simp only [Cancellations.step, Cancellations.read] at hstep
    split at hstep
    · cases hstep
    · cases hstep
      exact hsame (.refl s.db) rfl rfl
    · cases hstep
      exact hsame (.refl s.db) rfl rfl
  | cancelUpdate index now =>
    simp only [Cancellations.step, Cancellations.update] at hstep
    obtain ⟨call, -, hstep⟩ := Option.bind_eq_some_iff.mp hstep
    split at hstep
    · cases hstep
    · rename_i target _
      obtain rfl := Option.some.inj hstep
      refine h.advance (jobsAdvance_cancelUpdate ..) (fun parentJobId hmem => ?_)
        fun _ hmem => .inl hmem
      rcases List.mem_append.mp hmem with hold | hnew
      · exact .inl hold
      · obtain ⟨hparent, hresult⟩ := mem_reported hnew
        obtain ⟨hended, hunlocked⟩ := cancelUpdate_true h.ids hparent hresult
        exact .inr ⟨hended, hunlocked, rfl⟩
  | cancelSourceSync parentJobId now =>
    obtain rfl := Option.some.inj hstep
    refine h.advance (jobsAdvance_cancelSourceSync ..) (fun other hmem => ?_)
      fun _ hmem => .inl hmem
    rcases List.mem_append.mp hmem with hold | hnew
    · exact .inl hold
    · obtain ⟨hparent, hresult⟩ := mem_reported hnew
      obtain rfl := Option.some.inj hparent
      obtain ⟨hended, hunlocked⟩ := cancelSourceSync_true h.ids hresult
      exact .inr ⟨hended, hunlocked, rfl⟩
  | beginActivation jobId workerId now =>
    simp only [Cancellations.step] at hstep
    split at hstep
    · cases hstep
    · rename_i after hactivate
      obtain rfl := Option.some.inj hstep
      exact hsame (jobsAdvance_beginActivation hactivate).1 rfl rfl
  | processPartition now runId number workerId jobId =>
    obtain rfl := Option.some.inj hstep
    exact hsame (.of_jobs (processProviderReconciliationPartition_processed ..).jobs) rfl rfl
  | finalize now runId parentJobId finalizerJobId workerId channelsOk =>
    obtain rfl := Option.some.inj hstep
    cases hbody : finalizeReconciliation s.db now runId parentJobId finalizerJobId workerId
        channelsOk with
    | error error => exact hsame (.refl s.db) rfl (List.append_nil _)
    | ok pair =>
      obtain ⟨after, result⟩ := pair
      have hcases := finalizeReconciliation_cases hbody
      refine h.advance (jobsAdvance_finalizes hcases) (fun _ hmem => .inl hmem)
        fun other hmem => ?_
      rcases List.mem_append.mp hmem with hold | hnew
      · exact .inl hold
      · cases result with
        | published =>
          obtain rfl := List.mem_singleton.mp hnew
          obtain ⟨hlocked, hopen⟩ := published_locked h.ids hcases
          exact .inr ⟨hlocked, hopen, rfl⟩
        | pending | cancelled | alreadyPublished | superseded => cases hnew

/-- The job has begun to activate while no call of `cancel` waits to update it, or it is a refresh. -/
def NotRacing (s : Cancellations) : CancelOp → Prop
  | .beginActivation jobId _ _ => ∀ call ∈ s.calls, call.jobId = jobId →
      ∀ target, call.phase = .updating target → target.kind = .refreshSource
  | _ => True

/-- Jobs that have begun to activate are locked, and only updates of refreshes wait for them. -/
structure ActivationOk (s : Cancellations) : Prop where
  locked : ∀ jobId ∈ s.activated, ∃ job ∈ s.db.jobs, job.id = jobId ∧ job.activationLocked = true
  kinds : ∀ call ∈ s.calls, ∀ target, call.phase = .updating target →
    ∃ job ∈ s.db.jobs, job.id = call.jobId ∧ job.kind = target.kind
  waiting : ∀ call ∈ s.calls, ∀ target, call.phase = .updating target →
    call.jobId ∈ s.activated → target.kind = .refreshSource
  late : ∀ call ∈ s.calls, ∀ result, call.phase = .returned result → call.late = true →
    result = false ∧ call.kept = true

/-- A step over the jobs that touches no call. -/
theorem ActivationOk.advance {s t : Cancellations} (h : ActivationOk s)
    (hids : (s.db.jobs.map JobRow.id).Nodup) (hadvance : JobsAdvance s.db t.db)
    (hcalls : t.calls = s.calls) (hactivated : t.activated = s.activated) : ActivationOk t where
  locked jobId hmem := by
    obtain ⟨job, hjob, hid, hflag⟩ := h.locked jobId (hactivated ▸ hmem)
    obtain ⟨next, hnext, hnextof⟩ := hadvance.forward hids hjob
    exact ⟨next, hnext, hnextof.id.trans hid, hnextof.locked hflag⟩
  kinds call hcall target htarget := by
    obtain ⟨job, hjob, hid, hkind⟩ := h.kinds call (hcalls ▸ hcall) target htarget
    obtain ⟨next, hnext, hnextof⟩ := hadvance.forward hids hjob
    exact ⟨next, hnext, hnextof.id.trans hid, hnextof.kind.trans hkind⟩
  waiting := by rw [hcalls, hactivated]; exact h.waiting
  late := by rw [hcalls]; exact h.late

theorem cancelRead_ok {db : Database} {jobId : Uuid} {target : CancelTarget}
    (h : cancelRead db jobId = .ok (some target)) :
    ∃ job ∈ db.jobs, job.id = jobId ∧ job.kind = target.kind ∧ job.activationLocked = false := by
  unfold cancelRead at h
  split at h
  · cases h
  · rename_i job hfound
    have hid : job.id = jobId := by simpa using List.find?_some hfound
    cases hflag : job.activationLocked with
    | true =>
      rw [hflag, Bool.or_true, if_pos rfl] at h
      cases h
    | false =>
      split at h
      · cases h
      · cases h
        exact ⟨job, List.mem_of_find?_eq_some hfound, hid, rfl, hflag⟩

theorem ActivationOk.read {s t : Cancellations} (h : ActivationOk s)
    (hids : (s.db.jobs.map JobRow.id).Nodup) {jobId : Uuid} (hread : s.read jobId = some t) :
    ActivationOk t := by
  unfold Cancellations.read at hread
  -- A new call that has returned, or that waits for a job without the lock.
  split at hread
  · cases hread
  · obtain rfl := Option.some.inj hread
    refine ⟨h.locked, ?_, ?_, ?_⟩ <;> intro call hcall <;>
      rcases List.mem_append.mp hcall with hold | hnew
    · exact h.kinds call hold
    · obtain rfl := List.mem_singleton.mp hnew
      simp
    · exact h.waiting call hold
    · obtain rfl := List.mem_singleton.mp hnew
      simp
    · exact h.late call hold
    · obtain rfl := List.mem_singleton.mp hnew
      simp
  · rename_i target htarget
    obtain rfl := Option.some.inj hread
    obtain ⟨job, hjob, hid, hkind, hflag⟩ := cancelRead_ok htarget
    refine ⟨h.locked, ?_, ?_, ?_⟩ <;> intro call hcall <;>
      rcases List.mem_append.mp hcall with hold | hnew
    · exact h.kinds call hold
    · obtain rfl := List.mem_singleton.mp hnew
      rintro _ ⟨⟩
      exact ⟨job, hjob, hid, hkind⟩
    · exact h.waiting call hold
    · obtain rfl := List.mem_singleton.mp hnew
      rintro _ ⟨⟩ hactivated
      obtain ⟨other, hother, hsame, hset⟩ := h.locked jobId hactivated
      rw [Table.eq_of_key hids hother hjob (hsame.trans hid.symm), hflag] at hset
      cases hset
    · exact h.late call hold
    · obtain rfl := List.mem_singleton.mp hnew
      simp

/-- The update of a locked refresh changes nothing. -/
theorem cancelUpdate_locked {db : Database} (hids : (db.jobs.map JobRow.id).Nodup) {now : Time}
    {target : CancelTarget} {job : JobRow} (hjob : job ∈ db.jobs)
    (htarget : target.kind = .refreshSource) (hkind : job.kind = .refreshSource)
    (hflag : job.activationLocked = true) :
    cancelUpdate db now job.id target = (db, false) := by
  have hparent : target.parent job.id = some job.id := by
    unfold CancelTarget.parent
    rw [htarget]
  unfold cancelUpdate
  rw [hparent]
  simp only
  split
  · rename_i hnone
    exact absurd (decide_eq_true ⟨rfl, hkind⟩) (List.find?_eq_none.mp hnone job hjob)
  · rename_i parent hfound
    obtain ⟨hmem, hid, -⟩ := refresh_of_find hfound
    obtain rfl := Table.eq_of_key hids hmem hjob hid
    exact (cancelWithParent_spec ..).2.1 hflag

theorem ActivationOk.update {s t : Cancellations} (h : ActivationOk s)
    (hids : (s.db.jobs.map JobRow.id).Nodup) {index : Nat} {now : Time}
    (hupdate : s.update index now = some t) : ActivationOk t := by
  unfold Cancellations.update at hupdate
  obtain ⟨call, hindex, hupdate⟩ := Option.bind_eq_some_iff.mp hupdate
  have hcall : call ∈ s.calls := List.mem_of_getElem? hindex
  split at hupdate
  · cases hupdate
  rename_i target htarget
  have hadvance := jobsAdvance_cancelUpdate s.db now call.jobId target
  have hlocked := @cancelUpdate_locked s.db hids now target
  generalize hpair : cancelUpdate s.db now call.jobId target = pair at hupdate hadvance
  obtain ⟨after, result⟩ := pair
  obtain rfl := Option.some.inj hupdate
  have hkept : ActivationOk { s with db := after } := h.advance hids hadvance rfl rfl
  refine ⟨hkept.locked, ?_, ?_, ?_⟩ <;> intro other hother <;>
    rcases List.mem_or_eq_of_mem_set hother with hold | rfl
  · exact hkept.kinds other hold
  · simp
  · exact hkept.waiting other hold
  · simp
  · exact hkept.late other hold
  · rintro _ ⟨⟩ hlate
    have hactivated : call.jobId ∈ s.activated := by simpa using hlate
    have hrefresh := h.waiting call hcall target htarget hactivated
    obtain ⟨job, hjob, hid, hkind⟩ := h.kinds call hcall target htarget
    obtain ⟨other, hother, hsame, hflag⟩ := h.locked call.jobId hactivated
    obtain rfl := Table.eq_of_key hids hother hjob (hsame.trans hid.symm)
    have hnothing := hlocked hjob hrefresh (hkind.trans hrefresh) hflag
    rw [hid, hpair] at hnothing
    obtain ⟨rfl, rfl⟩ := Prod.mk.inj hnothing
    exact ⟨rfl, decide_eq_true rfl⟩

theorem activationOk_step {hash : String → Int} {s t : Cancellations} {op : CancelOp}
    (hok : CancelOk s) (h : ActivationOk s) (hrace : NotRacing s op)
    (hstep : s.step hash op = some t) : ActivationOk t := by
  cases op with
  | cancelRead jobId => exact h.read hok.ids hstep
  | cancelUpdate index now => exact h.update hok.ids hstep
  | cancelSourceSync parentJobId now =>
    obtain rfl := Option.some.inj hstep
    exact h.advance hok.ids (jobsAdvance_cancelSourceSync ..) rfl rfl
  | beginActivation jobId workerId now =>
    simp only [Cancellations.step] at hstep
    split at hstep
    · cases hstep
    rename_i after hactivate
    obtain rfl := Option.some.inj hstep
    obtain ⟨hadvance, job, hjob, hid, hflag⟩ := jobsAdvance_beginActivation hactivate
    have hkept : ActivationOk { s with db := after } := h.advance hok.ids hadvance rfl rfl
    refine ⟨?_, hkept.kinds, ?_, hkept.late⟩
    · intro other hother
      rcases List.mem_append.mp hother with hold | hnew
      · exact hkept.locked other hold
      · obtain rfl := List.mem_singleton.mp hnew
        exact ⟨job, hjob, hid, hflag⟩
    · intro call hcall target htarget hother
      rcases List.mem_append.mp hother with hold | hnew
      · exact h.waiting call hcall target htarget hold
      · exact hrace call hcall (List.mem_singleton.mp hnew) target htarget
  | processPartition now runId number workerId jobId =>
    obtain rfl := Option.some.inj hstep
    exact h.advance hok.ids (.of_jobs (processProviderReconciliationPartition_processed ..).jobs)
      rfl rfl
  | finalize now runId parentJobId finalizerJobId workerId channelsOk =>
    obtain rfl := Option.some.inj hstep
    refine h.advance hok.ids ?_ rfl rfl
    cases hbody : finalizeReconciliation s.db now runId parentJobId finalizerJobId workerId
        channelsOk with
    | error error => exact .refl s.db
    | ok pair => exact jobsAdvance_finalizes (finalizeReconciliation_cases hbody)

section Runs

variable {hash : String → Int} {db : Database} {ok : Cancellations → CancelOp → Prop}
  {s : Cancellations}

theorem cancelOk_of_reachable (hids : (db.jobs.map JobRow.id).Nodup)
    (h : (cancelMachine hash db).ReachableWhere ok s) : CancelOk s := by
  refine h.invariant ?_ ?_
  · exact ⟨hids, by simp [cancelMachine], by simp [cancelMachine], by simp [cancelMachine]⟩
  · intro before op after hok _ hstep
    exact cancelOk_step hok hstep

theorem activationOk_of_reachable (hids : (db.jobs.map JobRow.id).Nodup)
    (h : (cancelMachine hash db).ReachableWhere NotRacing s) : ActivationOk s := by
  induction h with
  | start => constructor <;> simp [cancelMachine]
  | step hbefore hrace hstep ih =>
    exact activationOk_step (cancelOk_of_reachable hids hbefore) ih hrace hstep

end Runs

/-- No refresh is both cancelled and published, in any run over any jobs; where no job begins to
activate between the two steps of a cancellation, a cancellation that comes later returns false and
leaves the job as it is. -/
theorem cancellation_excludes_publication (hash : String → Int) {db : Database}
    (hids : (db.jobs.map JobRow.id).Nodup) :
    (∀ s, (cancelMachine hash db).Reachable s →
      ∀ parentJobId ∈ s.cancelled, parentJobId ∉ s.published) ∧
    ∀ s, (cancelMachine hash db).ReachableWhere NotRacing s →
      ∀ call ∈ s.calls, ∀ result, call.phase = .returned result → call.late = true →
        result = false ∧ call.kept = true :=
  ⟨fun _ h => (cancelOk_of_reachable hids h).apart,
    fun _ h => (activationOk_of_reachable hids h).late⟩

/-! ## A guide refresh that is cancelled while it activates -/

/-- A running job of a kind without a parent. -/
def guideRefresh : Database :=
  { jobs := [{ id := 1, kind := .other "refresh-xtream-short-epg", status := .running
               lockedBy := some "worker", createdAt := 0 }] }

/-- `cancel` reads, `begin_activation` returns, `cancel` updates. -/
theorem activated_job_cancelled :
    ∃ s, (cancelMachine (fun _ => 0) guideRefresh).Reachable s ∧
      s.calls = [⟨1, .returned true, true, false⟩] ∧
      s.db.jobs.map JobRow.status = [.cancelled] := by
  obtain ⟨s, hs, hp⟩ := (cancelMachine (fun _ => 0) guideRefresh).exists_reachable_of_run
    [.cancelRead 1, .beginActivation 1 "worker" 1, .cancelUpdate 0 2]
    (fun s => decide (s.calls = [⟨1, .returned true, true, false⟩] ∧
      s.db.jobs.map JobRow.status = [.cancelled])) (by decide +kernel)
  exact ⟨s, hs, of_decide_eq_true hp⟩

/-- The call does not wait to write a job of another kind than a refresh. -/
def CancelPhase.onRefresh : CancelPhase → Bool
  | .updating target => target.kind = .refreshSource
  | .returned _ => true

/-- The condition, evaluated. -/
def notRacing (s : Cancellations) : CancelOp → Bool
  | .beginActivation jobId _ _ =>
    s.calls.all fun call => decide (call.jobId ≠ jobId) || call.phase.onRefresh
  | _ => true

theorem notRacing_sound {s : Cancellations} {op : CancelOp} (h : notRacing s op = true) :
    NotRacing s op := by
  cases op with
  | beginActivation jobId workerId now =>
    intro call hcall hid target htarget
    have hcall := List.all_eq_true.mp h call hcall
    simpa [hid, htarget, CancelPhase.onRefresh] using hcall
  | _ => trivial

/-- A running refresh. -/
def sourceRefresh : Database :=
  { jobs := [{ id := 1, kind := .refreshSource, status := .running
               lockedBy := some "worker", createdAt := 0 }] }

/-- A refresh that activates between the two steps of a cancellation keeps running. -/
theorem activated_refresh_kept :
    ∃ s, (cancelMachine (fun _ => 0) sourceRefresh).ReachableWhere NotRacing s ∧
      (∀ parentJobId ∈ s.cancelled, parentJobId ∉ s.published) ∧
      ∃ call ∈ s.calls, ∃ result, call.phase = .returned result ∧ call.late = true ∧
        result = false ∧ call.kept = true := by
  have hids : (sourceRefresh.jobs.map JobRow.id).Nodup := by decide
  obtain ⟨s, hs, hp⟩ := (cancelMachine (fun _ => 0) sourceRefresh).exists_reachableWhere_of_run
    NotRacing notRacing [.cancelRead 1, .beginActivation 1 "worker" 1, .cancelUpdate 0 2]
    (fun s => s.calls.any fun call => decide (call.phase = .returned false) && call.late)
    (fun s op _ h => notRacing_sound h) (by decide +kernel)
  obtain ⟨call, hcall, hlate⟩ := List.any_eq_true.mp hp
  obtain ⟨hphase, hlate⟩ := Bool.and_eq_true_iff.mp hlate
  have hphase := of_decide_eq_true hphase
  have hspec := cancellation_excludes_publication (fun _ => 0) hids
  exact ⟨s, hs, hspec.1 s hs.reachable, call, hcall, false, hphase, hlate,
    hspec.2 s hs call hcall false hphase hlate⟩

end IptvRelay.Store
