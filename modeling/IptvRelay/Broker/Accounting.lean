import IptvRelay.Broker.Invariant

/-!
# Slot accounting and the broker mutex

The pool never grants more leases than its capacity and never has two leases for
one key. The mutex is a different matter: a destructor upgrades the lease that
has replaced its own, and if every other owner drops that lease meanwhile, the
second destructor runs under the mutex and waits for it.
-/

namespace IptvRelay.Broker

open Transition World

/-! ## What a pool can rely on -/

theorem WorldOk.unique {s : World} (h : WorldOk s) {lease lease' : LeaseRef}
    (hlive : 0 < s.strong lease) (hlive' : 0 < s.strong lease')
    (hkey : (s.heap lease).sessionKey = (s.heap lease').sessionKey) : lease = lease' := by
  have hget := (BrokerState.get_eq_some h.ledger.keys).mpr (h.ledger.live lease hlive)
  have hget' := (BrokerState.get_eq_some h.ledger.keys).mpr (h.ledger.live lease' hlive')
  rw [hkey, hget', Option.some.injEq] at hget
  exact hget.symm

/-- Every live lease has an entry of its own. -/
theorem LedgerOk.length_liveLeases_le {s : World} (h : LedgerOk s) :
    s.liveLeases.length ≤ s.state.sessions.length := by
  have hnodup : s.liveLeases.Nodup := List.nodup_range.filter _
  have hsub : s.liveLeases ⊆ s.state.sessions.map Prod.snd := by
    intro lease hmem
    have hlive : 0 < s.strong lease := by simpa using (List.mem_filter.mp hmem).2
    exact List.mem_map.mpr ⟨_, h.live lease hlive, rfl⟩
  simpa using (List.subperm_of_subset hnodup hsub).length_le

/-- The step of `try_acquire` that grants a lease. -/
theorem advance_reserve_ok {s t : World} {tid : Tid} {choice : Nat} {key : String}
    {rest : List Frame} {lease : LeaseRef} (hst : s.threads tid = .acquire key .reserve :: rest)
    (hstep : s.advance tid choice = some t)
    (hgrant : t.threads tid = .acquire key (.unlock (.ok lease)) :: rest) :
    lease = s.allocated ∧ t.allocated = s.allocated + 1 ∧ t.strong lease = 1 ∧
      t.state.capacity = s.state.capacity ∧ s.state.sessions.length < s.state.capacity ∧
      t.state.sessions = (key, lease) :: (s.state.remove key).sessions := by
  obtain ⟨u, frames, hexec, rfl⟩ := advance_top hst hstep
  simp only [Function.update_self] at hgrant
  rcases exec_reserve_cases hexec with
    ⟨error, rfl, rfl⟩ | ⟨state, hroom, _, hcap, _, hsessions, rfl, rfl⟩
  · simp at hgrant
  · simp only [List.cons_append, List.nil_append, List.cons.injEq, Frame.acquire.injEq,
      AcquirePc.unlock.injEq, Except.ok.injEq, true_and, and_true] at hgrant
    subst hgrant
    exact ⟨rfl, rfl, by simp [World.allocate], hcap, hroom, hsessions⟩

/-- A step of `try_acquire` that does not produce a lease adds no session. -/
theorem exec_acquire_sessions {s t : World} {tid : Tid} {choice : Nat} {key : String}
    {pc : AcquirePc} {frames : List Frame}
    (hexec : s.exec tid choice (.acquire key pc) = some (t, frames))
    (hno : ∀ lease, frames ≠ [.acquire key (.unlock (.ok lease))]) :
    t.state.sessions ⊆ s.state.sessions := by
  cases pc with
  | lock =>
    obtain ⟨_, ⟨⟩⟩ := takeLock_map_eq_some hexec
    exact List.Subset.refl _
  | retain todo =>
    cases todo with
    | nil =>
      cases hexec
      exact List.Subset.refl _
    | cons first more =>
      obtain ⟨entry, _, hrest⟩ := Option.map_eq_some_iff.mp hexec
      cases hrest
      unfold World.examine
      split
      · exact List.Subset.refl _
      · exact List.filter_subset_self _
  | lookup =>
    simp only [World.exec] at hexec
    split at hexec
    · cases hexec
      exact List.Subset.refl _
    · split at hexec
      · cases hexec
        exact List.Subset.refl _
      · cases hexec
        exact List.filter_subset_self _
  | reserve =>
    rcases exec_reserve_cases hexec with ⟨error, rfl, rfl⟩ | ⟨state, _, _, _, _, _, rfl, rfl⟩
    · exact List.Subset.refl _
    · exact absurd rfl (hno _)
  | unlock result =>
    cases hexec
    cases result <;> exact List.Subset.refl _

/-- A step of a destructor keeps the entry of every live lease. -/
theorem WorldOk.exec_leaseDrop_keeps {s t : World} (h : WorldOk s) {tid : Tid} {choice : Nat}
    {self : LeaseInner} {pc : DropPc} {rest frames : List Frame}
    (hst : s.threads tid = .leaseDrop self pc :: rest)
    (hexec : s.exec tid choice (.leaseDrop self pc) = some (t, frames)) {lease : LeaseRef}
    (hlive : 0 < s.strong lease) : ((s.heap lease).sessionKey, lease) ∈ t.state.sessions := by
  have hentry := h.ledger.live lease hlive
  cases pc with
  | remove =>
    cases hexec
    have hdead : ∀ entry ∈ s.state.sessions, entry.1 = self.sessionKey → s.strong entry.2 = 0 :=
      (h.owner hst rfl).2.2
    refine List.mem_filter.mpr ⟨hentry, ?_⟩
    have hne : (s.heap lease).sessionKey ≠ self.sessionKey := fun hkey =>
      hlive.ne' (hdead _ hentry hkey)
    simpa using hne
  | lock =>
    obtain ⟨_, ⟨⟩⟩ := takeLock_map_eq_some hexec
    exact hentry
  | upgrade =>
    simp only [World.exec] at hexec
    split at hexec <;> cases hexec <;> exact hentry
  | check =>
    simp only [World.exec] at hexec
    split at hexec
    · cases hexec
      exact hentry
    · split at hexec <;> cases hexec <;> exact hentry
  | release | unlock | notify =>
    cases hexec
    exact hentry

/-- The accounting of one pool. Live leases are those with a strong reference. -/
structure SlotAccounting (s : World) : Prop where
  /-- A grant respects the capacity in force. -/
  granted : ∀ tid choice key rest t lease, s.threads tid = .acquire key .reserve :: rest →
    s.advance tid choice = some t → t.threads tid = .acquire key (.unlock (.ok lease)) :: rest →
    lease ∈ t.liveLeases ∧ t.liveLeases.length ≤ t.state.capacity
  unique : ∀ lease ∈ s.liveLeases, ∀ lease' ∈ s.liveLeases,
    (s.heap lease).sessionKey = (s.heap lease').sessionKey → lease = lease'
  /-- The lookup finds the live lease of its key, whatever the capacity is. -/
  found : ∀ tid choice key rest, s.threads tid = .acquire key .lookup :: rest →
    ∀ lease ∈ s.liveLeases, (s.heap lease).sessionKey = key → ∃ t,
      s.advance tid choice = some t ∧ t.threads tid = .acquire key (.unlock (.ok lease)) :: rest
  /-- An answer names the live lease of its key. -/
  answered : ∀ tid key result rest, s.threads tid = .acquire key (.unlock result) :: rest →
    ∀ lease ∈ s.liveLeases, (s.heap lease).sessionKey = key → result = .ok lease
  kept : ∀ lease ∈ s.liveLeases, s.state.get (s.heap lease).sessionKey = some lease
  /-- A destructor removes no entry of a live lease. -/
  destroyed : ∀ tid choice self pc rest t, s.threads tid = .leaseDrop self pc :: rest →
    s.advance tid choice = some t → ∀ lease ∈ s.liveLeases,
      ((s.heap lease).sessionKey, lease) ∈ t.state.sessions
  /-- Without a lease to return, `try_acquire` adds no session. -/
  failing : ∀ tid choice key pc rest t, s.threads tid = .acquire key pc :: rest →
    s.advance tid choice = some t →
    (∀ lease, t.threads tid ≠ .acquire key (.unlock (.ok lease)) :: rest) →
    t.state.sessions ⊆ s.state.sessions
  ids : ∀ lease < s.allocated, ∀ lease' < s.allocated,
    (s.heap lease).leaseId = (s.heap lease').leaseId → lease = lease'

theorem mem_liveLeases {s : World} (h : WorldOk s) {lease : LeaseRef} :
    lease ∈ s.liveLeases ↔ 0 < s.strong lease := by
  simp only [World.liveLeases, List.mem_filter, List.mem_range, decide_eq_true_eq,
    and_iff_right_iff_imp]
  exact fun hlive => (h.ledger.entries _ (h.ledger.live lease hlive)).1

/-- Slots are accounted for correctly in every interleaving of any number of threads. -/
theorem slot_accounting (poolId : String) (capacity : Nat) (s : World)
    (h : (brokerMachine poolId capacity).Reachable s) : SlotAccounting s := by
  have hok := worldOk_of_reachable h
  refine ⟨?_, ?_, ?_, ?_, ?_, ?_, ?_, ?_⟩
  · intro tid choice key rest t lease hst hstep hgrant
    obtain ⟨_, _, hone, hcap, hroom, hsessions⟩ := advance_reserve_ok hst hstep hgrant
    have hok' := hok.advance hstep
    refine ⟨(mem_liveLeases hok').mpr (by omega), ?_⟩
    calc t.liveLeases.length ≤ t.state.sessions.length := hok'.ledger.length_liveLeases_le
      _ = (s.state.remove key).sessions.length + 1 := by rw [hsessions, List.length_cons]
      _ ≤ s.state.sessions.length + 1 := Nat.succ_le_succ (List.length_filter_le _ _)
      _ ≤ t.state.capacity := by omega
  · intro lease hlive lease' hlive' hkey
    exact hok.unique ((mem_liveLeases hok).mp hlive) ((mem_liveLeases hok).mp hlive') hkey
  · intro tid choice key rest hst lease hlive hkey
    have hpos := (mem_liveLeases hok).mp hlive
    have hget := (BrokerState.get_eq_some hok.ledger.keys).mpr (hok.ledger.live lease hpos)
    rw [hkey] at hget
    refine ⟨_, by simp only [World.advance, hst, World.exec, hget, hpos, if_true]; rfl, ?_⟩
    simp
  · intro tid key result rest hst lease hlive hkey
    have hpos := (mem_liveLeases hok).mp hlive
    have hentry := hok.ledger.live lease hpos
    have hframe := (hok.owner hst rfl).2.2
    cases result with
    | error error => exact absurd hkey (hframe _ hentry)
    | ok owned =>
      have howned : 0 < s.strong owned := by
        simp [hok.strong_eq hst rfl owned, Frame.owns]
      rw [hok.unique howned hpos (Eq.trans hframe hkey.symm)]
  · intro lease hlive
    exact (BrokerState.get_eq_some hok.ledger.keys).mpr
      (hok.ledger.live lease ((mem_liveLeases hok).mp hlive))
  · intro tid choice self pc rest t hst hstep lease hlive
    obtain ⟨u, frames, hexec, rfl⟩ := advance_top hst hstep
    exact hok.exec_leaseDrop_keeps hst hexec ((mem_liveLeases hok).mp hlive)
  · intro tid choice key pc rest t hst hstep hno
    obtain ⟨u, frames, hexec, rfl⟩ := advance_top hst hstep
    have hsub : u.state.sessions ⊆ s.state.sessions :=
      exec_acquire_sessions hexec fun lease hframes => hno lease (by simp [hframes])
    exact hsub
  · intro lease hlt lease' hlt' hid
    rw [hok.ledger.ids lease hlt, hok.ledger.ids lease' hlt'] at hid
    omega

/-- Thread 0 drops the lease of a session; before its destructor has the mutex, thread 1 acquires
the session again. -/
def regrant : List BrokerOp :=
  [.tryAcquire 0 "a", .advance 0 0, .advance 0 0, .advance 0 0, .advance 0 0, .advance 0 0,
    .dropLease 0 0, .advance 0 0, .tryAcquire 1 "a", .advance 1 0, .advance 1 0, .advance 1 0,
    .advance 1 0, .advance 1 0, .advance 1 0]

/-- The late destructor leaves the newer lease alone. -/
theorem slot_accounting_regranted :
    ∃ s, (brokerMachine "pool" 1).Reachable s ∧
      (s.liveLeases = [1] ∧ s.lock = none ∧ s.state.sessions = [("a", 1)]) ∧
      SlotAccounting s := by
  obtain ⟨s, hs, hp⟩ := (brokerMachine "pool" 1).exists_reachable_of_run
    (regrant ++ List.replicate 5 (BrokerOp.advance 0 0))
    (fun s => decide (s.liveLeases = [1] ∧ s.lock = none ∧ s.state.sessions = [("a", 1)]))
    (by decide +kernel)
  exact ⟨s, hs, of_decide_eq_true hp, slot_accounting "pool" 1 s hs⟩

/-! ## The mutex -/

/-- Every other owner drops the lease of a key while a destructor holds its temporary reference:
the release of that reference runs the second destructor under the mutex. -/
theorem self_deadlock_reachable :
    ¬ ∀ poolId capacity s, (brokerMachine poolId capacity).Reachable s →
      ∀ tid, ¬ s.RequestsHeldLock tid ∧ ¬ s.ReleasesLast tid := by
  intro hall
  obtain ⟨s, hs, hp⟩ := (brokerMachine "pool" 1).exists_reachable_of_run
    (List.append regrant
      [.advance 0 0, .advance 0 0, .dropLease 1 1, .advance 0 0, .advance 0 0])
    (fun s => s.lock == some 0 && (s.threads 0).head?.any Frame.wantsLock)
    (by decide +kernel)
  obtain ⟨hlock, htop⟩ := Bool.and_eq_true_iff.mp hp
  obtain ⟨frame, hhead, hwants⟩ := (Option.any_eq_true _ _).mp htop
  obtain ⟨rest, hst⟩ := List.head?_eq_some_iff.mp hhead
  exact (hall "pool" 1 s hs 0).1 ⟨eq_of_beq hlock, frame, rest, hst, hwants⟩

/-- No last handle of a lease is dropped while a destructor holds a temporary reference to it. -/
def DropsApart (s : World) : BrokerOp → Prop
  | .dropLease _ lease => s.handles lease = 1 →
    ∀ tid self rest, s.threads tid ≠ .leaseDrop self (.release lease) :: rest
  | _ => True

/-- A temporary reference never is the only one, and no stack is nested. -/
structure Unnested (s : World) : Prop where
  shared : ∀ tid self lease rest, s.threads tid = .leaseDrop self (.release lease) :: rest →
    0 < s.handles lease
  flat : ∀ tid, (s.threads tid).length ≤ 1

/-- A step drops no handle, and it continues with at most one frame. The exceptions are the two
steps of a destructor that touch the count of another lease. -/
theorem exec_frames {s t : World} {tid : Tid} {choice : Nat} {frame : Frame}
    {frames : List Frame} (hexec : s.exec tid choice frame = some (t, frames)) :
    (∀ lease, s.handles lease ≤ t.handles lease) ∧
      (frames.length ≤ 1 ∨ ∃ self current, frame = .leaseDrop self (.release current) ∧
        frames = s.destructor current ++ [.leaseDrop self .unlock]) ∧
      (∀ self lease, .leaseDrop self (.release lease) ∈ frames →
        frame = .leaseDrop self .check ∧ 0 < s.strong lease) := by
  have hexamine : ∀ entry, (s.examine entry).handles = s.handles := fun entry => by
    unfold World.examine
    split <;> rfl
  cases frame with
  | acquire key pc =>
    cases pc with
    | lock =>
      obtain ⟨_, ⟨⟩⟩ := takeLock_map_eq_some hexec
      simp
    | retain todo =>
      cases todo with
      | nil =>
        cases hexec
        simp
      | cons first more =>
        obtain ⟨entry, _, hrest⟩ := Option.map_eq_some_iff.mp hexec
        cases hrest
        simp [hexamine]
    | lookup =>
      simp only [World.exec] at hexec
      split at hexec
      · cases hexec
        simp
      · split at hexec <;> cases hexec <;> simp [World.retainRef]
    | reserve =>
      rcases exec_reserve_cases hexec with
        ⟨error, rfl, rfl⟩ | ⟨state, _, _, _, _, _, rfl, rfl⟩ <;> simp [World.allocate]
    | unlock result =>
      cases hexec
      refine ⟨fun lease => ?_, by simp, by simp⟩
      cases result with
      | error => exact le_rfl
      | ok owned =>
        by_cases hl : lease = owned
        · subst hl
          simp [World.handOver]
        · simp [World.handOver, Function.update_of_ne hl]
  | snapshot pc =>
    cases pc with
    | lock =>
      obtain ⟨_, ⟨⟩⟩ := takeLock_map_eq_some hexec
      simp
    | retain todo =>
      cases todo with
      | nil =>
        cases hexec
        simp
      | cons first more =>
        obtain ⟨entry, _, hrest⟩ := Option.map_eq_some_iff.mp hexec
        cases hrest
        simp [hexamine]
    | unlock =>
      cases hexec
      simp
  | setCapacity capacity pc =>
    cases pc with
    | lock =>
      obtain ⟨_, ⟨⟩⟩ := takeLock_map_eq_some hexec
      simp
    | write | unlock =>
      cases hexec
      simp
  | leaseDrop self pc =>
    cases pc with
    | lock =>
      obtain ⟨_, ⟨⟩⟩ := takeLock_map_eq_some hexec
      simp
    | upgrade =>
      simp only [World.exec] at hexec
      split at hexec <;> cases hexec <;> simp
    | check =>
      simp only [World.exec] at hexec
      split at hexec
      · cases hexec
        simp
      · split at hexec
        · rename_i hlive
          cases hexec
          simp [World.retainRef, hlive]
        · cases hexec
          simp
    | release current =>
      cases hexec
      refine ⟨fun _ => le_rfl, .inr ⟨self, current, rfl, rfl⟩, ?_⟩
      unfold World.destructor
      split <;> simp
    | remove | unlock | notify =>
      cases hexec
      simp

theorem Unnested.advance {s t : World} {tid : Tid} {choice : Nat} (h : Unnested s)
    (hok : WorldOk s) (hstep : s.advance tid choice = some t) : Unnested t := by
  obtain ⟨frame, rest, u, frames, hst, hexec, rfl⟩ := advance_eq_some hstep
  obtain ⟨hhandles, hlen, hrelease⟩ := exec_frames hexec
  have hrest : rest = [] := by
    have := h.flat tid
    rw [hst] at this
    simpa using this
  subst hrest
  refine ⟨fun other self lease rest' hother => ?_, fun other => ?_⟩
  · by_cases ho : other = tid
    · subst ho
      simp only [Function.update_self, List.append_nil] at hother
      obtain ⟨rfl, hlive⟩ := hrelease self lease (by simp [hother])
      have hcount : s.strong lease = s.handles lease := by
        simpa [Frame.owns] using hok.strong_eq hst rfl lease
      exact lt_of_lt_of_le (hcount ▸ hlive) (hhandles lease)
    · simp only [Function.update_of_ne ho] at hother
      exact lt_of_lt_of_le (h.shared other self lease rest' hother) (hhandles lease)
  · by_cases ho : other = tid
    · subst ho
      simp only [Function.update_self, List.append_nil]
      rcases hlen with hlen | ⟨self, current, rfl, rfl⟩
      · exact hlen
      · -- An outside handle exists, so the temporary is not the last reference.
        have hhandle := h.shared other self current [] hst
        have hcount : s.strong current = s.handles current + 1 := by
          simpa [Frame.owns] using hok.strong_eq hst rfl current
        simp [World.destructor, show s.strong current ≠ 1 by omega]
    · simpa only [Function.update_of_ne ho] using h.flat other

theorem Unnested.call {s t : World} {tid : Tid} {frame : Frame} (h : Unnested s)
    (hfresh : ∀ self lease, frame ≠ .leaseDrop self (.release lease))
    (hstep : s.call tid frame = some t) : Unnested t := by
  unfold World.call at hstep
  split at hstep
  · cases hstep
    refine ⟨fun other self lease rest hother => ?_, fun other => ?_⟩
    · by_cases ho : other = tid
      · subst ho
        simp only [Function.update_self, List.cons.injEq] at hother
        exact absurd hother.1 (hfresh self lease)
      · simp only [Function.update_of_ne ho] at hother
        exact h.shared other self lease rest hother
    · by_cases ho : other = tid
      · subst ho
        simp
      · simpa only [Function.update_of_ne ho] using h.flat other
  · cases hstep

theorem Unnested.dropLease {s t : World} {tid : Tid} {lease : LeaseRef} (h : Unnested s)
    (hapart : DropsApart s (.dropLease tid lease)) (hstep : s.dropLease tid lease = some t) :
    Unnested t := by
  unfold World.dropLease at hstep
  split at hstep
  · rename_i hready
    cases hstep
    have hfresh : ∀ frame ∈ s.destructor lease, frame = .leaseDrop (s.heap lease) .upgrade := by
      unfold World.destructor
      split <;> simp
    refine ⟨fun other self released rest hother => ?_, fun other => ?_⟩
    · by_cases ho : other = tid
      · subst ho
        simp only [Function.update_self] at hother
        cases hfresh _ (by rw [hother]; exact List.mem_cons_self)
      · simp only [Function.update_of_ne ho] at hother
        have hshared := h.shared other self released rest hother
        by_cases hl : released = lease
        · subst hl
          have hmany : s.handles released ≠ 1 := fun hone => hapart hone other self rest hother
          simp only [Function.update_self]
          omega
        · simpa only [Function.update_of_ne hl] using hshared
    · by_cases ho : other = tid
      · subst ho
        simp only [Function.update_self]
        unfold World.destructor
        split <;> simp
      · simpa only [Function.update_of_ne ho] using h.flat other
  · cases hstep

theorem Unnested.step {s t : World} {op : BrokerOp} (h : Unnested s) (hok : WorldOk s)
    (hapart : DropsApart s op) (hstep : s.step op = some t) : Unnested t := by
  cases op with
  | tryAcquire | snapshot | setCapacity => exact h.call (by simp) hstep
  | dropLease => exact h.dropLease hapart hstep
  | advance => exact h.advance hok hstep
  | cloneLease lease =>
    simp only [World.step, World.cloneLease] at hstep
    split at hstep
    · cases hstep
      refine ⟨fun tid self released rest hst => ?_, h.flat⟩
      have hshared := h.shared tid self released rest hst
      by_cases hl : released = lease
      · subst hl
        simp
      · simpa only [Function.update_of_ne hl] using hshared
    · cases hstep
  | cloneBroker | dropBroker =>
    simp only [World.step, World.cloneBroker, World.dropBroker] at hstep
    split at hstep
    · cases hstep
      exact ⟨h.shared, h.flat⟩
    · cases hstep

/-- As long as no last handle is dropped under a destructor's temporary reference, no thread asks
for the mutex that it holds and no temporary reference is the last one. -/
theorem no_self_deadlock (poolId : String) (capacity : Nat) (s : World)
    (h : (brokerMachine poolId capacity).ReachableWhere DropsApart s) (tid : Tid) :
    ¬ s.RequestsHeldLock tid ∧ ¬ s.ReleasesLast tid := by
  have hok := worldOk_of_reachable h.reachable
  have hflat : Unnested s ∧ WorldOk s := h.invariant (I := fun s => Unnested s ∧ WorldOk s)
    ⟨⟨by simp [brokerMachine], by simp [brokerMachine]⟩, worldOk_start poolId capacity⟩
    fun _ _ _ hs hapart hstep => ⟨hs.1.step hs.2 hapart hstep, hs.2.step hstep⟩
  refine ⟨?_, ?_⟩
  · rintro ⟨hlock, frame, rest, hst, hwants⟩
    have hstack := hok.threads tid
    have hlen := hflat.1.flat tid
    rw [hst] at hstack hlen
    cases hstack with
    | outside _ hfree => exact hfree hlock
    | inside hpc =>
      unfold Frame.wantsLock at hwants
      split at hwants <;> simp [Frame.locked] at hpc hwants
    | nested => simp at hlen
  · rintro ⟨_, self, lease, rest, hst, hlast⟩
    have hshared := hflat.1.shared tid self lease rest hst
    have hcount : s.strong lease = s.handles lease + 1 := by
      simpa [Frame.owns] using hok.strong_eq hst rfl lease
    omega

/-- While the mutex is free, no destructor holds a temporary reference. -/
theorem dropsApart_of_free {s : World} (h : WorldOk s) (hfree : s.lock = none) (op : BrokerOp) :
    DropsApart s op := by
  cases op with
  | dropLease tid lease =>
    intro _ other self rest hst
    simpa [hfree] using (h.owner hst rfl).2.1
  | _ => trivial

/-- The destructor upgrades the newer lease while the owner of that lease keeps it. -/
theorem no_self_deadlock_regranted :
    ∃ s, (brokerMachine "pool" 1).ReachableWhere DropsApart s ∧
      (s.lock = some 0 ∧ s.strong 1 = 2) ∧ ¬ s.RequestsHeldLock 0 ∧ ¬ s.ReleasesLast 0 := by
  obtain ⟨s, hs, hp⟩ := (brokerMachine "pool" 1).exists_reachableWhere_of_run
    DropsApart
    (fun s op => match op with | .dropLease .. => s.lock == none | _ => true)
    (List.append regrant [.advance 0 0, .advance 0 0])
    (fun s => decide (s.lock = some 0 ∧ s.strong 1 = 2))
    (fun s op hs hfree => by
      cases op with
      | dropLease => exact dropsApart_of_free (worldOk_of_reachable hs) (eq_of_beq hfree) _
      | _ => trivial)
    (by decide +kernel)
  exact ⟨s, hs, of_decide_eq_true hp, no_self_deadlock "pool" 1 s hs 0⟩

end IptvRelay.Broker
