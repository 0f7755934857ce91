import IptvRelay.Broker.Broker

/-!
# The invariant of the slot broker

The sessions under the mutex and the reference counts outside of it agree in
every reachable state: every lease with an owner has the entry of its key, and a
strong reference is either a handle outside the broker or a temporary of the
thread that holds the mutex.
-/

namespace IptvRelay.Broker

open Transition World

/-! ## The invariant -/

/-- The frame is between lock and unlock. -/
def Frame.locked : Frame → Bool
  | .acquire _ .lock | .snapshot .lock | .setCapacity _ .lock => false
  | .leaseDrop _ .upgrade | .leaseDrop _ .lock | .leaseDrop _ .notify => false
  | _ => true

/-- The frame owns a strong reference to the lease. -/
def Frame.owns (lease : LeaseRef) : Frame → Bool
  | .acquire _ (.unlock (.ok owned)) => owned == lease
  | .leaseDrop _ (.release owned) => owned == lease
  | _ => false

/-- The references that the holder of the mutex owns. -/
def World.held (s : World) (lease : LeaseRef) : Nat :=
  s.lock.elim 0 fun tid => (s.threads tid).countP (Frame.owns lease)

/-- What a frame between lock and unlock has established. -/
def FrameOk (s : World) : Frame → Prop
  | .acquire key .reserve | .acquire key (.unlock (.error _)) =>
    ∀ entry ∈ s.state.sessions, entry.1 ≠ key
  | .acquire key (.unlock (.ok lease)) => (s.heap lease).sessionKey = key
  | .leaseDrop self .remove =>
    ∀ entry ∈ s.state.sessions, entry.1 = self.sessionKey → s.strong entry.2 = 0
  | _ => True

/-- The stack of a thread. It is nested only where a destructor has released the last reference
of another lease under the mutex. -/
inductive StackOk (s : World) (tid : Tid) : List Frame → Prop where
  | idle : s.lock ≠ some tid → StackOk s tid []
  | outside {frame : Frame} : frame.locked = false → s.lock ≠ some tid → StackOk s tid [frame]
  | inside {frame : Frame} : frame.locked = true → s.lock = some tid → FrameOk s frame →
      StackOk s tid [frame]
  | nested {self last : LeaseInner} {pc : DropPc} : pc = .upgrade ∨ pc = .lock →
      s.lock = some tid → StackOk s tid [.leaseDrop last pc, .leaseDrop self .unlock]

/-- The sessions, the allocations and the counts agree. -/
structure LedgerOk (s : World) : Prop where
  keys : (s.state.sessions.map Prod.fst).Nodup
  entries : ∀ entry ∈ s.state.sessions,
    entry.2 < s.allocated ∧ (s.heap entry.2).sessionKey = entry.1
  live : ∀ lease, 0 < s.strong lease → ((s.heap lease).sessionKey, lease) ∈ s.state.sessions
  nextId : s.state.nextLeaseId = s.allocated + 1
  idFits : s.allocated + 1 < 2 ^ 64
  ids : ∀ lease < s.allocated, (s.heap lease).leaseId = lease + 1

structure WorldOk (s : World) : Prop where
  ledger : LedgerOk s
  counts : ∀ lease, s.strong lease = s.handles lease + s.held lease
  threads : ∀ tid, StackOk s tid (s.threads tid)

/-! ## The ledger -/

theorem BrokerState.get_eq_some {state : BrokerState} (keys : (state.sessions.map Prod.fst).Nodup)
    {key : String} {lease : LeaseRef} :
    state.get key = some lease ↔ (key, lease) ∈ state.sessions := by
  unfold BrokerState.get
  generalize state.sessions = sessions at keys
  induction sessions with
  | nil => simp
  | cons entry rest ih =>
    obtain ⟨k, l⟩ := entry
    simp only [List.map_cons, List.nodup_cons] at keys
    by_cases hk : key = k
    · subst hk
      have hnot : (key, lease) ∉ rest := fun hmem => keys.1 (List.mem_map.mpr ⟨_, hmem, rfl⟩)
      simp [hnot, eq_comm]
    · have hbeq : (key == k) = false := by simpa using hk
      simp [List.lookup_cons, hbeq, ih keys.2, hk]

theorem BrokerState.get_eq_none {state : BrokerState} {key : String} (h : state.get key = none) :
    ∀ entry ∈ state.sessions, entry.1 ≠ key := by
  unfold BrokerState.get at h
  intro entry hmem hkey
  rw [List.lookup_eq_none_iff] at h
  simpa [hkey] using h entry hmem

/-- Fewer live leases and fewer dead entries. -/
theorem LedgerOk.shrink {s t : World} (h : LedgerOk s) (heap : t.heap = s.heap)
    (allocated : t.allocated = s.allocated) (nextId : t.state.nextLeaseId = s.state.nextLeaseId)
    (sub : t.state.sessions.Sublist s.state.sessions)
    (strong : ∀ lease, 0 < t.strong lease → 0 < s.strong lease)
    (kept : ∀ entry ∈ s.state.sessions, 0 < t.strong entry.2 → entry ∈ t.state.sessions) :
    LedgerOk t where
  keys := h.keys.sublist (sub.map _)
  entries entry hmem := by
    rw [heap, allocated]
    exact h.entries entry (sub.subset hmem)
  live lease hpos := by
    rw [heap]
    exact kept _ (h.live lease (strong lease hpos)) hpos
  nextId := by rw [nextId, allocated, h.nextId]
  idFits := by rw [allocated]; exact h.idFits
  ids lease hlt := by
    rw [heap]
    exact h.ids lease (by rwa [allocated] at hlt)

/-- A change of the counts that makes no dead lease live. -/
theorem LedgerOk.counts {s t : World} (h : LedgerOk s) (heap : t.heap = s.heap)
    (allocated : t.allocated = s.allocated) (state : t.state = s.state)
    (strong : ∀ lease, 0 < t.strong lease → 0 < s.strong lease) : LedgerOk t :=
  h.shrink heap allocated (by rw [state]) (by rw [state]) strong
    fun entry hmem _ => by rw [state]; exact hmem

theorem LedgerOk.examine {s : World} (h : LedgerOk s) (entry : String × LeaseRef) :
    LedgerOk (s.examine entry) := by
  unfold World.examine
  split
  · exact h
  · rename_i hdead
    refine h.shrink rfl rfl rfl List.filter_sublist (fun _ hpos => hpos) fun other hmem hpos => ?_
    refine List.mem_filter.mpr ⟨hmem, ?_⟩
    have hne : other ≠ entry := by
      rintro rfl
      exact hdead hpos
    simpa using hne

/-- Removing the entry of a key whose lease is dead. -/
theorem LedgerOk.remove {s : World} (h : LedgerOk s) {key : String}
    (dead : ∀ entry ∈ s.state.sessions, entry.1 = key → s.strong entry.2 = 0) :
    LedgerOk { s with state := s.state.remove key } := by
  refine h.shrink rfl rfl rfl List.filter_sublist (fun _ hpos => hpos) fun other hmem hpos => ?_
  refine List.mem_filter.mpr ⟨hmem, ?_⟩
  have hne : other.1 ≠ key := fun hkey => by
    have := dead other hmem hkey
    simp only at hpos
    omega
  simpa using hne

/-- Everything that the end of `try_acquire` can do. -/
theorem BrokerState.reserve_cases (state : BrokerState) (poolId key : String) (lease : LeaseRef) :
    (∃ error, state.reserve poolId key lease = (state, .error error)) ∨
      (state.sessions.length < state.capacity ∧ state.nextLeaseId + 1 < 2 ^ 64 ∧
        (state.reserve poolId key lease).2 =
          .ok { poolId, sessionKey := key, leaseId := state.nextLeaseId } ∧
        (state.reserve poolId key lease).1.capacity = state.capacity ∧
        (state.reserve poolId key lease).1.nextLeaseId = state.nextLeaseId + 1 ∧
        (state.reserve poolId key lease).1.sessions =
          (key, lease) :: (state.remove key).sessions) := by
  unfold BrokerState.reserve
  split
  · exact .inl ⟨_, rfl⟩
  · split
    · exact .inr ⟨by omega, by assumption, rfl, rfl, rfl, rfl⟩
    · exact .inl ⟨_, rfl⟩

theorem BrokerState.remove_of_forall_ne {state : BrokerState} {key : String}
    (h : ∀ entry ∈ state.sessions, entry.1 ≠ key) : state.remove key = state := by
  unfold BrokerState.remove
  rw [List.filter_eq_self.mpr (by simpa using h)]

/-- A granted lease gets the entry of its key. -/
theorem LedgerOk.allocate {s : World} (h : LedgerOk s) {key : String} {state : BrokerState}
    (absent : ∀ entry ∈ s.state.sessions, entry.1 ≠ key)
    (sessions : state.sessions = (key, s.allocated) :: s.state.sessions)
    (nextId : state.nextLeaseId = s.state.nextLeaseId + 1)
    (fits : s.state.nextLeaseId + 1 < 2 ^ 64) :
    LedgerOk (s.allocate state
      { poolId := s.poolId, sessionKey := key, leaseId := s.state.nextLeaseId }) where
  keys := by
    simp only [World.allocate, sessions, List.map_cons, List.nodup_cons]
    refine ⟨fun hmem => ?_, h.keys⟩
    obtain ⟨entry, hentry, hkey⟩ := List.mem_map.mp hmem
    exact absent entry hentry hkey
  entries entry hmem := by
    simp only [World.allocate, sessions, List.mem_cons] at hmem ⊢
    rcases hmem with rfl | hmem
    · simp
    · obtain ⟨hlt, hkey⟩ := h.entries entry hmem
      rw [Function.update_of_ne hlt.ne]
      exact ⟨Nat.lt_succ_of_lt hlt, hkey⟩
  live lease hpos := by
    simp only [World.allocate, sessions] at hpos ⊢
    by_cases hl : lease = s.allocated
    · subst hl
      simp
    · rw [Function.update_of_ne hl] at hpos ⊢
      exact List.mem_cons_of_mem _ (h.live lease hpos)
  nextId := by simp only [World.allocate, nextId, h.nextId]
  idFits := by
    have := h.nextId
    simp only [World.allocate]
    omega
  ids lease hlt := by
    have hnext := h.nextId
    simp only [World.allocate] at hlt ⊢
    by_cases hl : lease = s.allocated
    · subst hl
      simpa using hnext
    · rw [Function.update_of_ne hl]
      exact h.ids lease (by omega)

/-! ## The threads -/

theorem FrameOk.mono {s t : World} (state : t.state = s.state) (heap : t.heap = s.heap)
    (dead : ∀ lease, s.strong lease = 0 → t.strong lease = 0) {frame : Frame}
    (h : FrameOk s frame) : FrameOk t frame := by
  unfold FrameOk at h ⊢
  rw [state, heap]
  split at h
  · exact h
  · exact h
  · exact h
  · exact fun entry hmem hkey => dead _ (h entry hmem hkey)
  · trivial

theorem StackOk.transfer {s t : World} {tid : Tid} {stack : List Frame} (h : StackOk s tid stack)
    (lock : t.lock = some tid ↔ s.lock = some tid)
    (frames : s.lock = some tid → ∀ frame, FrameOk s frame → FrameOk t frame) :
    StackOk t tid stack := by
  cases h with
  | idle hfree => exact .idle fun hl => hfree (lock.mp hl)
  | outside hpc hfree => exact .outside hpc fun hl => hfree (lock.mp hl)
  | inside hpc hl hok => exact .inside hpc (lock.mpr hl) (frames hl _ hok)
  | nested hpc hl => exact .nested hpc (lock.mpr hl)

/-- One thread moves: what is left to check about the others. -/
theorem WorldOk.update {s t : World} {tid : Tid} {stack : List Frame} (h : WorldOk s)
    (threads : t.threads = Function.update s.threads tid stack) (ledger : LedgerOk t)
    (counts : ∀ lease, t.strong lease = t.handles lease + t.held lease)
    (top : StackOk t tid stack) (lock : ∀ other ≠ tid, t.lock = some other ↔ s.lock = some other)
    (frames : ∀ other ≠ tid, s.lock = some other → ∀ frame, FrameOk s frame → FrameOk t frame) :
    WorldOk t where
  ledger := ledger
  counts := counts
  threads other := by
    rw [threads]
    by_cases hother : other = tid
    · subst hother
      simpa using top
    · rw [Function.update_of_ne hother]
      exact (h.threads other).transfer (lock other hother) (frames other hother)

/-- A frame between lock and unlock is alone on its stack and its thread holds the mutex. -/
theorem WorldOk.owner {s : World} (h : WorldOk s) {tid : Tid} {frame : Frame} {rest : List Frame}
    (hst : s.threads tid = frame :: rest) (hpc : frame.locked = true) :
    rest = [] ∧ s.lock = some tid ∧ FrameOk s frame := by
  have hstack := h.threads tid
  rw [hst] at hstack
  cases hstack with
  | outside hno _ => simp [hno] at hpc
  | inside _ hl hok => exact ⟨rfl, hl, hok⟩
  | nested hno _ =>
    rcases hno with rfl | rfl <;> cases hpc

/-- No stack is nested while the mutex is free. -/
theorem WorldOk.alone {s : World} (h : WorldOk s) {tid : Tid} {frame : Frame} {rest : List Frame}
    (hst : s.threads tid = frame :: rest) (hfree : s.lock = none) : rest = [] := by
  have hstack := h.threads tid
  rw [hst] at hstack
  cases hstack with
  | outside | inside => rfl
  | nested _ hl => simp [hfree] at hl

theorem held_of_owner {s : World} (tid : Tid) (hl : s.lock = some tid) (lease : LeaseRef) :
    s.held lease = (s.threads tid).countP (Frame.owns lease) := by
  simp [World.held, hl]

theorem held_of_free {s : World} (hl : s.lock = none) (lease : LeaseRef) : s.held lease = 0 := by
  simp [World.held, hl]

/-- The references of the holder do not depend on the stacks of the others. -/
theorem held_update_of_ne {s t : World} (tid : Tid) {stack : List Frame}
    (hl : s.lock ≠ some tid) (lock : t.lock = s.lock)
    (threads : t.threads = Function.update s.threads tid stack) (lease : LeaseRef) :
    t.held lease = s.held lease := by
  unfold World.held
  rw [lock, threads]
  cases hs : s.lock with
  | none => rfl
  | some other =>
    have hne : other ≠ tid := by
      rintro rfl
      exact hl hs
    simp [Function.update_of_ne hne]

/-- The references of a lease while a thread is between lock and unlock. -/
theorem WorldOk.strong_eq {s : World} (h : WorldOk s) {tid : Tid} {frame : Frame}
    {rest : List Frame} (hst : s.threads tid = frame :: rest) (hpc : frame.locked = true)
    (lease : LeaseRef) :
    s.strong lease = s.handles lease + [frame].countP (Frame.owns lease) := by
  obtain ⟨rfl, hlock, _⟩ := h.owner hst hpc
  rw [h.counts lease, held_of_owner tid hlock, hst]

/-- A thread enters the critical section. -/
theorem WorldOk.enter {s : World} (h : WorldOk s) {tid : Tid} {frame frame' : Frame}
    {rest : List Frame} (hst : s.threads tid = frame :: rest) (hfree : s.lock = none)
    (hpc : frame'.locked = true) (hok : FrameOk s frame')
    (hrefs : ∀ lease, frame'.owns lease = false) :
    WorldOk { s with
      lock := some tid
      threads := Function.update s.threads tid ([frame'] ++ rest) } := by
  have hrest := h.alone hst hfree
  subst hrest
  refine h.update rfl (h.ledger.counts rfl rfl rfl fun _ hpos => hpos) (fun lease => ?_)
    (.inside hpc rfl (hok.mono rfl rfl fun _ hz => hz)) (fun other hne => ?_)
    (fun _ _ hl => by simp [hfree] at hl)
  · rw [held_of_owner _ rfl, h.counts lease, held_of_free hfree]
    simp [hrefs lease]
  · simp [hfree, hne.symm]

/-- A thread works inside the critical section. -/
theorem WorldOk.inside {s t : World} (h : WorldOk s) {tid : Tid} {frame frame' : Frame}
    (hst : s.threads tid = [frame]) (hlock : s.lock = some tid) (lock : t.lock = some tid)
    (handles : t.handles = s.handles) (ledger : LedgerOk t) (hpc : frame'.locked = true)
    (hok : FrameOk t frame')
    (hrefs : ∀ lease, t.strong lease + [frame].countP (Frame.owns lease) =
      s.strong lease + [frame'].countP (Frame.owns lease)) :
    WorldOk { t with threads := Function.update s.threads tid [frame'] } := by
  refine h.update rfl (ledger.counts rfl rfl rfl fun _ hpos => hpos) (fun lease => ?_)
    (.inside hpc lock (hok.mono rfl rfl fun _ hz => hz)) (fun other hne => ?_)
    (fun other hne hl => ?_)
  · have hcount := h.counts lease
    have hmove := hrefs lease
    rw [held_of_owner _ hlock, hst] at hcount
    rw [held_of_owner tid (by exact lock)]
    simp only [handles, Function.update_self]
    omega
  · simp [lock, hlock]
  · rw [hlock, Option.some.injEq] at hl
    exact absurd hl.symm hne

/-- A thread leaves the critical section; a reference that it owns becomes a handle. -/
theorem WorldOk.leave {s t : World} (h : WorldOk s) {tid : Tid} {frame : Frame}
    (stack : List Frame) (hst : s.threads tid = [frame]) (hlock : s.lock = some tid)
    (lock : t.lock = none) (ledger : LedgerOk t) (strong : t.strong = s.strong)
    (hout : stack = [] ∨ ∃ frame' : Frame, stack = [frame'] ∧ frame'.locked = false)
    (handles : ∀ lease, t.handles lease =
      s.handles lease + [frame].countP (Frame.owns lease)) :
    WorldOk { t with threads := Function.update s.threads tid stack } := by
  refine h.update rfl (ledger.counts rfl rfl rfl fun _ hpos => hpos) (fun lease => ?_) ?_
    (fun other hne => ?_) (fun other hne hl => ?_)
  · have hcount := h.counts lease
    rw [held_of_owner _ hlock, hst] at hcount
    rw [held_of_free (by exact lock)]
    simp only [strong, handles lease]
    omega
  · rcases hout with rfl | ⟨frame', rfl, hpc⟩
    · exact .idle (by simp [lock])
    · exact .outside hpc (by simp [lock])
  · simp [lock, hlock, hne.symm]
  · rw [hlock, Option.some.injEq] at hl
    exact absurd hl.symm hne

/-! ## Steps -/

theorem countP_owns_eq_zero {frame : Frame} (h : ∀ lease, frame.owns lease = false)
    (lease : LeaseRef) : [frame].countP (Frame.owns lease) = 0 := by
  simp [h lease]

/-- `retain` keeps every live entry. -/
theorem WorldOk.examine {s : World} (h : WorldOk s) {tid : Tid} {frame : Frame} (frame' : Frame)
    {rest : List Frame} (hst : s.threads tid = frame :: rest) (hpc : frame.locked = true)
    (hpc' : frame'.locked = true) (hok : ∀ t, FrameOk t frame')
    (hrefs : ∀ lease, frame.owns lease = false) (hrefs' : ∀ lease, frame'.owns lease = false)
    (entry : String × LeaseRef) :
    WorldOk { s.examine entry with
      threads := Function.update s.threads tid ([frame'] ++ rest) } := by
  obtain ⟨rfl, hlock, _⟩ := h.owner hst hpc
  have hsame : (s.examine entry).lock = s.lock ∧ (s.examine entry).handles = s.handles ∧
      (s.examine entry).strong = s.strong := by
    unfold World.examine
    split <;> exact ⟨rfl, rfl, rfl⟩
  refine h.inside hst hlock (hsame.1.trans hlock) hsame.2.1 (h.ledger.examine entry) hpc' (hok _)
    fun lease => ?_
  rw [countP_owns_eq_zero hrefs, countP_owns_eq_zero hrefs', hsame.2.2]

/-- The holder of the mutex upgrades the weak reference of a live lease. -/
theorem WorldOk.upgrade {s : World} (h : WorldOk s) {tid : Tid} {frame frame' : Frame}
    {rest : List Frame} (hst : s.threads tid = frame :: rest) (hpc : frame.locked = true)
    {lease : LeaseRef} (hlive : 0 < s.strong lease) (hpc' : frame'.locked = true)
    (hok : FrameOk (s.retainRef lease) frame') (hrefs : ∀ lease, frame.owns lease = false)
    (hrefs' : ∀ other, frame'.owns other = (lease == other)) :
    WorldOk { s.retainRef lease with
      threads := Function.update s.threads tid ([frame'] ++ rest) } := by
  obtain ⟨rfl, hlock, _⟩ := h.owner hst hpc
  refine h.inside hst hlock hlock rfl (h.ledger.counts rfl rfl rfl fun other hpos => ?_) hpc' hok
    fun other => ?_
  · by_cases ho : other = lease
    · exact ho ▸ hlive
    · simpa [World.retainRef, Function.update_of_ne ho] using hpos
  · rw [countP_owns_eq_zero hrefs]
    by_cases ho : other = lease
    · subst ho
      simp [World.retainRef, hrefs']
    · simp [World.retainRef, hrefs', Function.update_of_ne ho, Ne.symm ho]

/-- The holder of the mutex moves on and changes nothing but the sessions. -/
theorem WorldOk.move {s : World} (h : WorldOk s) {tid : Tid} {frame frame' : Frame}
    {rest : List Frame} (state : BrokerState) (hst : s.threads tid = frame :: rest)
    (hpc : frame.locked = true) (ledger : LedgerOk { s with state }) (hpc' : frame'.locked = true)
    (hok : FrameOk { s with state } frame') (hrefs : ∀ lease, frame.owns lease = false)
    (hrefs' : ∀ lease, frame'.owns lease = false) :
    WorldOk { s with
      state
      threads := Function.update s.threads tid ([frame'] ++ rest) } := by
  obtain ⟨rfl, hlock, _⟩ := h.owner hst hpc
  exact h.inside (t := { s with state }) hst hlock hlock rfl ledger hpc' hok fun lease => by
    rw [countP_owns_eq_zero hrefs, countP_owns_eq_zero hrefs']

theorem remove_sessions_ne (state : BrokerState) (key : String) :
    ∀ entry ∈ (state.remove key).sessions, entry.1 ≠ key := by
  intro entry hmem
  simpa using (List.mem_filter.mp hmem).2

/-- A step that takes the mutex finds it free. -/
theorem takeLock_map_eq_some {s : World} {tid : Tid} {f : World → World × List Frame}
    {r : World × List Frame} (h : (s.takeLock tid).map f = some r) :
    s.lock = none ∧ f { s with lock := some tid } = r := by
  unfold World.takeLock at h
  split at h
  · exact ⟨by assumption, Option.some.inj h⟩
  · cases h

/-- Everything that the step of `try_acquire` after the lookup can do. -/
theorem exec_reserve_cases {s t : World} {tid : Tid} {choice : Nat} {key : String}
    {frames : List Frame}
    (hexec : s.exec tid choice (.acquire key .reserve) = some (t, frames)) :
    (∃ error, t = s ∧ frames = [.acquire key (.unlock (.error error))]) ∨
      ∃ state : BrokerState, s.state.sessions.length < s.state.capacity ∧
        s.state.nextLeaseId + 1 < 2 ^ 64 ∧ state.capacity = s.state.capacity ∧
        state.nextLeaseId = s.state.nextLeaseId + 1 ∧
        state.sessions = (key, s.allocated) :: (s.state.remove key).sessions ∧
        t = s.allocate state
          { poolId := s.poolId, sessionKey := key, leaseId := s.state.nextLeaseId } ∧
        frames = [.acquire key (.unlock (.ok s.allocated))] := by
  simp only [World.exec] at hexec
  rcases s.state.reserve_cases s.poolId key s.allocated with
    ⟨error, herror⟩ | ⟨hroom, hfits, hok, hcap, hnext, hsessions⟩
  · rw [herror] at hexec
    cases hexec
    exact .inl ⟨error, rfl, rfl⟩
  · cases hres : s.state.reserve s.poolId key s.allocated with
    | mk state result =>
      rw [hres] at hexec hok hcap hnext hsessions
      cases hok
      cases hexec
      exact .inr ⟨state, hroom, hfits, hcap, hnext, hsessions, rfl, rfl⟩

/-- A key has one entry, so a dead entry is the only one of its key. -/
theorem LedgerOk.dead_of_get {s : World} (h : LedgerOk s) {key : String} {lease : LeaseRef}
    (hget : s.state.get key = some lease) (hdead : ¬ 0 < s.strong lease) :
    ∀ entry ∈ s.state.sessions, entry.1 = key → s.strong entry.2 = 0 := by
  intro entry hentry hkey
  have hsame : s.state.get key = some entry.2 :=
    (BrokerState.get_eq_some h.keys).mpr (by rw [← hkey]; exact hentry)
  rw [hget, Option.some.injEq] at hsame
  rw [← hsame]
  omega

/-- The frames of `try_acquire`. -/
theorem WorldOk.exec_acquire {s t : World} (h : WorldOk s) {tid : Tid} {choice : Nat}
    {key : String} {pc : AcquirePc} {rest frames : List Frame}
    (hst : s.threads tid = .acquire key pc :: rest)
    (hexec : s.exec tid choice (.acquire key pc) = some (t, frames)) :
    WorldOk { t with threads := Function.update s.threads tid (frames ++ rest) } := by
  cases pc with
  | lock =>
    obtain ⟨hfree, ⟨⟩⟩ := takeLock_map_eq_some hexec
    exact h.enter hst hfree rfl trivial fun _ => rfl
  | retain todo =>
    cases todo with
    | nil =>
      cases hexec
      exact h.move s.state hst rfl h.ledger rfl trivial (fun _ => rfl) fun _ => rfl
    | cons first more =>
      obtain ⟨entry, _, hrest⟩ := Option.map_eq_some_iff.mp hexec
      cases hrest
      exact h.examine (.acquire key (.retain _)) hst rfl rfl (fun _ => trivial)
        (fun _ => rfl) (fun _ => rfl) entry
  | lookup =>
    simp only [World.exec] at hexec
    split at hexec
    · rename_i hnone
      cases hexec
      exact h.move s.state hst rfl h.ledger rfl (BrokerState.get_eq_none hnone)
        (fun _ => rfl) fun _ => rfl
    · rename_i lease hget
      have hmem := (BrokerState.get_eq_some h.ledger.keys).mp hget
      split at hexec
      · rename_i hlive
        cases hexec
        exact h.upgrade hst rfl hlive rfl (h.ledger.entries _ hmem).2 (fun _ => rfl)
          fun _ => rfl
      · rename_i hdead
        cases hexec
        exact h.move _ hst rfl (h.ledger.remove (h.ledger.dead_of_get hget hdead)) rfl
          (remove_sessions_ne s.state key) (fun _ => rfl) fun _ => rfl
  | reserve =>
    obtain ⟨rfl, hlock, habsent⟩ := h.owner hst rfl
    replace habsent : ∀ entry ∈ s.state.sessions, entry.1 ≠ key := habsent
    rcases exec_reserve_cases hexec with
      ⟨error, rfl, rfl⟩ | ⟨state, _, hfits, _, hnext, hsessions, rfl, rfl⟩
    · exact h.move t.state hst rfl h.ledger rfl habsent (fun _ => rfl) fun _ => rfl
    · rw [BrokerState.remove_of_forall_ne habsent] at hsessions
      have hdead : s.strong s.allocated = 0 := by
        by_contra hpos
        exact absurd (h.ledger.entries _ (h.ledger.live _ (Nat.pos_of_ne_zero hpos))).1
          (Nat.lt_irrefl _)
      refine h.inside hst hlock hlock rfl (h.ledger.allocate habsent hsessions hnext hfits) rfl
        ?_ fun lease => ?_
      · simp [FrameOk, World.allocate]
      · by_cases hl : lease = s.allocated
        · subst hl
          simp [World.allocate, hdead, Frame.owns]
        · simp [World.allocate, Function.update_of_ne hl, Frame.owns, Ne.symm hl]
  | unlock result =>
    obtain ⟨rfl, hlock, _⟩ := h.owner hst rfl
    cases hexec
    cases result with
    | ok lease =>
      refine h.leave [] hst hlock rfl
        (h.ledger.counts rfl rfl rfl fun _ hpos => hpos) rfl (.inl rfl) fun other => ?_
      by_cases ho : other = lease
      · subst ho
        simp [World.handOver, Frame.owns]
      · simp [World.handOver, Frame.owns, Function.update_of_ne ho, Ne.symm ho]
    | error error =>
      exact h.leave [] hst hlock rfl
        (h.ledger.counts rfl rfl rfl fun _ hpos => hpos) rfl (.inl rfl) fun other => rfl

/-- The frames of `snapshot`. -/
theorem WorldOk.exec_snapshot {s t : World} (h : WorldOk s) {tid : Tid} {choice : Nat}
    {pc : SnapshotPc} {rest frames : List Frame} (hst : s.threads tid = .snapshot pc :: rest)
    (hexec : s.exec tid choice (.snapshot pc) = some (t, frames)) :
    WorldOk { t with threads := Function.update s.threads tid (frames ++ rest) } := by
  cases pc with
  | lock =>
    obtain ⟨hfree, ⟨⟩⟩ := takeLock_map_eq_some hexec
    exact h.enter hst hfree rfl trivial fun _ => rfl
  | retain todo =>
    cases todo with
    | nil =>
      cases hexec
      exact h.move s.state hst rfl h.ledger rfl trivial (fun _ => rfl) fun _ => rfl
    | cons first more =>
      obtain ⟨entry, _, hrest⟩ := Option.map_eq_some_iff.mp hexec
      cases hrest
      exact h.examine (.snapshot (.retain _)) hst rfl rfl (fun _ => trivial)
        (fun _ => rfl) (fun _ => rfl) entry
  | unlock result =>
    obtain ⟨rfl, hlock, _⟩ := h.owner hst rfl
    cases hexec
    exact h.leave [] hst hlock rfl (h.ledger.counts rfl rfl rfl fun _ hpos => hpos) rfl
      (.inl rfl) fun _ => rfl

/-- The frames of `set_capacity`. -/
theorem WorldOk.exec_setCapacity {s t : World} (h : WorldOk s) {tid : Tid} {choice : Nat}
    {capacity : Nat} {pc : CapacityPc} {rest frames : List Frame}
    (hst : s.threads tid = .setCapacity capacity pc :: rest)
    (hexec : s.exec tid choice (.setCapacity capacity pc) = some (t, frames)) :
    WorldOk { t with threads := Function.update s.threads tid (frames ++ rest) } := by
  cases pc with
  | lock =>
    obtain ⟨hfree, ⟨⟩⟩ := takeLock_map_eq_some hexec
    exact h.enter hst hfree rfl trivial fun _ => rfl
  | write =>
    cases hexec
    exact h.move _ hst rfl
      (h.ledger.shrink rfl rfl rfl (.refl _) (fun _ hpos => hpos) fun _ hmem _ => hmem) rfl trivial
      (fun _ => rfl) fun _ => rfl
  | unlock =>
    obtain ⟨rfl, hlock, _⟩ := h.owner hst rfl
    cases hexec
    exact h.leave [] hst hlock rfl (h.ledger.counts rfl rfl rfl fun _ hpos => hpos) rfl
      (.inl rfl) fun _ => rfl

/-- Steps outside of the critical section that only touch the count of the broker. -/
theorem WorldOk.outside {s t : World} (h : WorldOk s) {tid : Tid} {stack : List Frame}
    (hlock : s.lock ≠ some tid) (lock : t.lock = s.lock) (state : t.state = s.state)
    (heap : t.heap = s.heap) (allocated : t.allocated = s.allocated)
    (handles : t.handles = s.handles) (strong : t.strong = s.strong)
    (hout : stack = [] ∨ ∃ frame : Frame, stack = [frame] ∧ frame.locked = false) :
    WorldOk { t with threads := Function.update s.threads tid stack } := by
  refine h.update rfl
    (h.ledger.counts heap allocated state fun _ hpos => by simpa only [strong] using hpos)
    (fun lease => ?_) ?_ (fun _ _ => by rw [lock])
    fun _ _ _ _ hok => hok.mono state heap fun _ hz => by simpa only [strong] using hz
  · rw [held_update_of_ne _ hlock (by exact lock) rfl]
    simp only [strong, handles, h.counts lease]
  · rcases hout with rfl | ⟨frame, rfl, hpc⟩
    · exact .idle (by simpa [lock] using hlock)
    · exact .outside hpc (by simpa [lock] using hlock)

/-- The release of the temporary. If it was the last reference, the stack becomes nested. -/
theorem WorldOk.exec_release {s : World} (h : WorldOk s) {tid : Tid} {self : LeaseInner}
    {current : LeaseRef} {rest : List Frame}
    (hst : s.threads tid = .leaseDrop self (.release current) :: rest) :
    WorldOk { s.releaseRef current with
      threads := Function.update s.threads tid
        (s.destructor current ++ [.leaseDrop self .unlock] ++ rest) } := by
  obtain ⟨rfl, hlock, _⟩ := h.owner hst rfl
  have hone : 0 < s.strong current := by simp [h.strong_eq hst rfl current, Frame.owns]
  refine h.update rfl (h.ledger.counts rfl rfl rfl fun other hpos => ?_) (fun other => ?_) ?_
    (fun _ _ => .rfl) (fun other hne hl => ?_)
  · by_cases ho : other = current
    · exact ho ▸ hone
    · simpa [World.releaseRef, Function.update_of_ne ho] using hpos
  · have hcount := h.strong_eq hst rfl other
    have hnone : (s.destructor current ++ [Frame.leaseDrop self .unlock]).countP
        (Frame.owns other) = 0 := by
      unfold World.destructor
      split <;> simp [Frame.owns]
    rw [held_of_owner tid (by exact hlock)]
    simp only [List.append_nil, Function.update_self, hnone]
    by_cases ho : other = current
    · subst ho
      simp only [World.releaseRef, Function.update_self]
      simp [Frame.owns] at hcount
      omega
    · simpa [World.releaseRef, Function.update_of_ne ho, Frame.owns, Ne.symm ho] using hcount
  · unfold World.destructor
    split
    · exact .nested (.inl rfl) hlock
    · exact .inside rfl hlock trivial
  · rw [hlock, Option.some.injEq] at hl
    exact absurd hl.symm hne

/-- A nested destructor can only look for the broker. -/
theorem WorldOk.exec_nested {s t : World} (h : WorldOk s) {tid : Tid} {choice : Nat}
    {self last : LeaseInner} {frames : List Frame}
    (hst : s.threads tid = [.leaseDrop last .upgrade, .leaseDrop self .unlock])
    (hlock : s.lock = some tid)
    (hexec : s.exec tid choice (.leaseDrop last .upgrade) = some (t, frames)) :
    WorldOk { t with
      threads := Function.update s.threads tid (frames ++ [.leaseDrop self .unlock]) } := by
  have hheld : ∀ lease, s.strong lease = s.handles lease := fun lease => by
    rw [h.counts lease, held_of_owner _ hlock, hst]
    simp [Frame.owns]
  simp only [World.exec] at hexec
  split at hexec
  all_goals
    cases hexec
    refine h.update rfl (h.ledger.counts rfl rfl rfl fun _ hpos => hpos) (fun lease => ?_) ?_
      (fun _ _ => .rfl) fun _ _ _ _ hok => hok.mono rfl rfl fun _ hz => hz
  · rw [held_of_owner tid (by exact hlock)]
    simp [Frame.owns, hheld lease]
  · exact .nested (.inr rfl) hlock
  · rw [held_of_owner tid (by exact hlock)]
    simp [Frame.owns, hheld lease]
  · exact .inside rfl hlock trivial

/-- The frames of `LeaseInner::drop`. -/
theorem WorldOk.exec_leaseDrop {s t : World} (h : WorldOk s) {tid : Tid} {choice : Nat}
    {self : LeaseInner} {pc : DropPc} {rest frames : List Frame}
    (hst : s.threads tid = .leaseDrop self pc :: rest)
    (hexec : s.exec tid choice (.leaseDrop self pc) = some (t, frames)) :
    WorldOk { t with threads := Function.update s.threads tid (frames ++ rest) } := by
  cases pc with
  | upgrade =>
    have hstack := h.threads tid
    rw [hst] at hstack
    cases hstack with
    | outside _ hlock =>
      simp only [World.exec] at hexec
      split at hexec
      · cases hexec
        exact h.outside hlock rfl rfl rfl rfl rfl rfl (.inr ⟨_, rfl, rfl⟩)
      · cases hexec
        exact h.outside hlock rfl rfl rfl rfl rfl rfl (.inl rfl)
    | inside hpc => cases hpc
    | nested _ hlock => exact h.exec_nested hst hlock hexec
  | lock =>
    obtain ⟨hfree, ⟨⟩⟩ := takeLock_map_eq_some hexec
    exact h.enter hst hfree rfl trivial fun _ => rfl
  | check =>
    simp only [World.exec] at hexec
    split at hexec
    · cases hexec
      exact h.move s.state hst rfl h.ledger rfl trivial (fun _ => rfl) fun _ => rfl
    · rename_i current hget
      split at hexec
      · rename_i hlive
        cases hexec
        exact h.upgrade hst rfl hlive rfl trivial (fun _ => rfl) fun _ => rfl
      · rename_i hdead
        cases hexec
        exact h.move s.state hst rfl h.ledger rfl (h.ledger.dead_of_get hget hdead)
          (fun _ => rfl) fun _ => rfl
  | release current =>
    cases hexec
    exact h.exec_release hst
  | remove =>
    cases hexec
    exact h.move _ hst rfl (h.ledger.remove (h.owner hst rfl).2.2) rfl trivial (fun _ => rfl)
      fun _ => rfl
  | unlock =>
    obtain ⟨rfl, hlock, _⟩ := h.owner hst rfl
    cases hexec
    exact h.leave [.leaseDrop self .notify] hst hlock rfl
      (h.ledger.counts rfl rfl rfl fun _ hpos => hpos) rfl (.inr ⟨_, rfl, rfl⟩) fun _ => rfl
  | notify =>
    have hstack := h.threads tid
    rw [hst] at hstack
    cases hstack with
    | outside _ hlock =>
      cases hexec
      exact h.outside hlock rfl rfl rfl rfl rfl rfl (.inl rfl)
    | inside hpc => cases hpc
    | nested hpc => simp at hpc

theorem advance_eq_some {s t : World} {tid : Tid} {choice : Nat}
    (h : s.advance tid choice = some t) : ∃ frame rest u frames,
      s.threads tid = frame :: rest ∧ s.exec tid choice frame = some (u, frames) ∧
      t = { u with threads := Function.update s.threads tid (frames ++ rest) } := by
  unfold World.advance at h
  split at h
  · cases h
  · rename_i frame rest hst
    obtain ⟨⟨u, frames⟩, hexec, ht⟩ := Option.map_eq_some_iff.mp h
    exact ⟨frame, rest, u, frames, hst, hexec, ht.symm⟩

/-- The step of a thread whose running frame is known. -/
theorem advance_top {s t : World} {tid : Tid} {choice : Nat} {frame : Frame} {rest : List Frame}
    (hst : s.threads tid = frame :: rest) (h : s.advance tid choice = some t) :
    ∃ u frames, s.exec tid choice frame = some (u, frames) ∧
      t = { u with threads := Function.update s.threads tid (frames ++ rest) } := by
  obtain ⟨_, _, u, frames, hst', hexec, ht⟩ := advance_eq_some h
  rw [hst, List.cons.injEq] at hst'
  obtain ⟨rfl, rfl⟩ := hst'
  exact ⟨u, frames, hexec, ht⟩

theorem WorldOk.advance {s t : World} (h : WorldOk s) {tid : Tid} {choice : Nat}
    (hstep : s.advance tid choice = some t) : WorldOk t := by
  obtain ⟨frame, rest, u, frames, hst, hexec, rfl⟩ := advance_eq_some hstep
  cases frame with
  | acquire => exact h.exec_acquire hst hexec
  | snapshot => exact h.exec_snapshot hst hexec
  | setCapacity => exact h.exec_setCapacity hst hexec
  | leaseDrop => exact h.exec_leaseDrop hst hexec

theorem WorldOk.idle {s : World} (h : WorldOk s) {tid : Tid} (hst : s.threads tid = []) :
    s.lock ≠ some tid := by
  have hstack := h.threads tid
  rw [hst] at hstack
  cases hstack with
  | idle hlock => exact hlock

theorem WorldOk.call {s t : World} (h : WorldOk s) {tid : Tid} {frame : Frame}
    (hpc : frame.locked = false) (hstep : s.call tid frame = some t) : WorldOk t := by
  unfold World.call at hstep
  split at hstep
  · rename_i hidle
    cases hstep
    exact h.outside (t := { s with brokerStrong := s.brokerStrong + 1 }) (h.idle hidle.1) rfl rfl
      rfl rfl rfl rfl (.inr ⟨frame, rfl, hpc⟩)
  · cases hstep

theorem WorldOk.dropLease {s t : World} (h : WorldOk s) {tid : Tid} {lease : LeaseRef}
    (hstep : s.dropLease tid lease = some t) : WorldOk t := by
  unfold World.dropLease at hstep
  split at hstep
  · rename_i hready
    obtain ⟨hst, hhandle⟩ := hready
    cases hstep
    have hlock := h.idle hst
    have hdead : ∀ other, (s.releaseRef lease).strong other ≤ s.strong other := fun other => by
      by_cases ho : other = lease
      · subst ho
        simp [World.releaseRef]
      · simp [World.releaseRef, Function.update_of_ne ho]
    refine h.update rfl (h.ledger.counts rfl rfl rfl fun other hpos => ?_) (fun other => ?_) ?_
      (fun _ _ => .rfl) fun _ _ _ _ hok => ?_
    · exact lt_of_lt_of_le hpos (hdead other)
    · have hcount := h.counts other
      rw [held_update_of_ne (s := s) tid hlock (by rfl) (by rfl)]
      by_cases ho : other = lease
      · subst ho
        simp only [World.releaseRef, Function.update_self]
        omega
      · simpa [World.releaseRef, Function.update_of_ne ho] using hcount
    · unfold World.destructor
      split
      · exact .outside rfl hlock
      · exact .idle hlock
    · refine hok.mono ?_ ?_ fun other hz => Nat.le_zero.mp ((hdead other).trans hz.le)
      · rfl
      · rfl
  · cases hstep

/-- Steps of no thread, where live leases stay live and dead ones dead. -/
theorem WorldOk.environment {s t : World} (h : WorldOk s) (lock : t.lock = s.lock)
    (threads : t.threads = s.threads) (state : t.state = s.state) (heap : t.heap = s.heap)
    (allocated : t.allocated = s.allocated)
    (strong : ∀ lease, t.strong lease = 0 ↔ s.strong lease = 0)
    (counts : ∀ lease, t.strong lease + s.handles lease = s.strong lease + t.handles lease) :
    WorldOk t where
  ledger := h.ledger.counts heap allocated state fun lease hpos =>
    Nat.pos_of_ne_zero fun hz => hpos.ne' ((strong lease).mpr hz)
  counts lease := by
    have hheld : t.held lease = s.held lease := by simp only [World.held, lock, threads]
    have hold := h.counts lease
    have hnew := counts lease
    omega
  threads tid := by
    rw [threads]
    exact (h.threads tid).transfer (by rw [lock])
      fun _ _ hok => hok.mono state heap fun lease hz => (strong lease).mpr hz

/-- One step of any thread keeps the books. -/
theorem WorldOk.step {s t : World} {op : BrokerOp} (h : WorldOk s) (hstep : s.step op = some t) :
    WorldOk t := by
  cases op with
  | tryAcquire | snapshot | setCapacity => exact h.call rfl hstep
  | dropLease => exact h.dropLease hstep
  | advance => exact h.advance hstep
  | cloneLease lease =>
    simp only [World.step, World.cloneLease] at hstep
    split at hstep
    · rename_i hhandle
      cases hstep
      have hcount := h.counts lease
      refine h.environment rfl rfl rfl rfl rfl (fun other => ?_) fun other => ?_
      all_goals
        by_cases ho : other = lease
        · subst ho
          simp only [World.retainRef, Function.update_self]
          omega
        · simp [World.retainRef, Function.update_of_ne ho]
    · cases hstep
  | cloneBroker =>
    simp only [World.step, World.cloneBroker] at hstep
    split at hstep
    · cases hstep
      exact h.environment rfl rfl rfl rfl rfl (fun _ => .rfl) fun _ => rfl
    · cases hstep
  | dropBroker =>
    simp only [World.step, World.dropBroker] at hstep
    split at hstep
    · cases hstep
      exact h.environment rfl rfl rfl rfl rfl (fun _ => .rfl) fun _ => rfl
    · cases hstep

theorem worldOk_start (poolId : String) (capacity : Nat) :
    WorldOk (brokerMachine poolId capacity).start where
  ledger := ⟨by simp [brokerMachine], by simp [brokerMachine], by simp [brokerMachine], rfl,
    by simp [brokerMachine], by simp [brokerMachine]⟩
  counts _ := rfl
  threads _ := .idle (by simp [brokerMachine])

/-- The books are right after every interleaving. -/
theorem worldOk_of_reachable {poolId : String} {capacity : Nat} {s : World}
    (h : (brokerMachine poolId capacity).Reachable s) : WorldOk s :=
  h.invariant (worldOk_start poolId capacity) fun _ _ _ hs _ hstep => hs.step hstep

end IptvRelay.Broker
