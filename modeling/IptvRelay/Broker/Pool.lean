import IptvRelay.Broker.Accounting

/-!
# A broker call as one step

`Pool.tryAcquire` is `try_acquire` without the threads: the mutex makes the whole
call one step for everybody who only looks at its result. `acquire_runs` shows
that a call of the threaded broker which nobody interrupts does the same.
-/

namespace IptvRelay.Broker

open Transition World

def BrokerState.retain (self : BrokerState) (keep : String × LeaseRef → Bool) : BrokerState :=
  { self with sessions := self.sessions.filter keep }

theorem BrokerState.retain_congr {state : BrokerState} {keep keep' : String × LeaseRef → Bool}
    (h : ∀ entry ∈ state.sessions, keep entry = keep' entry) :
    state.retain keep = state.retain keep' := by
  unfold BrokerState.retain
  rw [List.filter_congr h]

/-- What a broker keeps: the state under its mutex and the leases it has made. -/
structure Pool where
  state : BrokerState
  heap : LeaseRef → LeaseInner
  allocated : Nat := 0

namespace Pool

def new (poolId : String) (capacity : Nat) : Pool where
  state := { capacity }
  heap := fun _ => { poolId, sessionKey := "", leaseId := 0 }

def setCapacity (self : Pool) (capacity : Nat) : Pool :=
  { self with state := { self.state with capacity } }

/-- Forget the leases that have no owner any more. -/
def retain (self : Pool) (alive : LeaseRef → Bool) : Pool :=
  { self with state := self.state.retain fun entry => alive entry.2 }

def activeSessions (self : Pool) (alive : LeaseRef → Bool) : Nat :=
  (self.retain alive).state.sessions.length

def tryAcquire (self : Pool) (poolId sessionKey : String) (alive : LeaseRef → Bool) :
    Pool × Except AcquireError LeaseRef :=
  let kept := self.retain alive
  match kept.state.get sessionKey with
  | some lease => (kept, .ok lease)
  | none =>
    match kept.state.reserve poolId sessionKey kept.allocated with
    | (state, .ok lease) =>
      ({ state
         heap := Function.update kept.heap kept.allocated lease
         allocated := kept.allocated + 1 }, .ok kept.allocated)
    | (_, .error error) => (kept, .error error)

end Pool

/-- Every entry names an existing lease of its key. -/
structure PoolOk (pool : Pool) : Prop where
  keys : (pool.state.sessions.map Prod.fst).Nodup
  entries : ∀ entry ∈ pool.state.sessions,
    entry.2 < pool.allocated ∧ (pool.heap entry.2).sessionKey = entry.1

theorem poolOk_new (poolId : String) (capacity : Nat) : PoolOk (.new poolId capacity) :=
  ⟨by simp [Pool.new], by simp [Pool.new]⟩

theorem PoolOk.retain {pool : Pool} (h : PoolOk pool) (alive : LeaseRef → Bool) :
    PoolOk (pool.retain alive) :=
  ⟨h.keys.sublist (List.filter_sublist.map _),
    fun entry hmem => h.entries entry (List.mem_filter.mp hmem).1⟩

/-- Existing leases stay as they are, and a returned lease exists and has the requested key. -/
theorem PoolOk.tryAcquire {pool : Pool} (h : PoolOk pool) (poolId key : String)
    (alive : LeaseRef → Bool) :
    PoolOk (pool.tryAcquire poolId key alive).1 ∧
      pool.allocated ≤ (pool.tryAcquire poolId key alive).1.allocated ∧
      (∀ lease < pool.allocated,
        (pool.tryAcquire poolId key alive).1.heap lease = pool.heap lease) ∧
      ∀ lease, (pool.tryAcquire poolId key alive).2 = .ok lease →
        lease < (pool.tryAcquire poolId key alive).1.allocated ∧
          ((pool.tryAcquire poolId key alive).1.heap lease).sessionKey = key := by
  have hkept := h.retain alive
  unfold Pool.tryAcquire
  dsimp only
  split
  · rename_i lease hget
    have hmem := (BrokerState.get_eq_some hkept.keys).mp hget
    refine ⟨hkept, le_rfl, fun _ _ => rfl, ?_⟩
    rintro _ ⟨⟩
    exact hkept.entries _ hmem
  · rename_i hnone
    have habsent := BrokerState.get_eq_none hnone
    rcases (pool.retain alive).state.reserve_cases poolId key (pool.retain alive).allocated with
      ⟨error, herror⟩ | ⟨_, _, hok, _, _, hsessions⟩
    · rw [herror]
      exact ⟨hkept, le_rfl, fun _ _ => rfl, by simp⟩
    · cases hres : (pool.retain alive).state.reserve poolId key (pool.retain alive).allocated with
      | mk state result =>
        rw [hres] at hok hsessions
        cases hok
        rw [BrokerState.remove_of_forall_ne habsent] at hsessions
        dsimp only at hsessions ⊢
        refine ⟨⟨?_, fun entry hmem => ?_⟩, Nat.le_succ _, fun lease hlt => ?_, ?_⟩
        · rw [hsessions, List.map_cons, List.nodup_cons]
          refine ⟨fun hmem => ?_, hkept.keys⟩
          obtain ⟨entry, hentry, hkey⟩ := List.mem_map.mp hmem
          exact habsent entry hentry hkey
        · rw [hsessions] at hmem
          rcases List.mem_cons.mp hmem with rfl | hmem
          · simp
          · obtain ⟨hlt, hkey⟩ := hkept.entries entry hmem
            simp only [Function.update_of_ne hlt.ne]
            exact ⟨Nat.lt_succ_of_lt hlt, hkey⟩
        · exact Function.update_of_ne (Nat.ne_of_lt hlt) _ _
        · rintro _ ⟨⟩
          simp

/-! ## The threaded call that nobody interrupts -/

/-- The broker part of a world. -/
def World.pool (s : World) : Pool := { state := s.state, heap := s.heap, allocated := s.allocated }

def World.alive (s : World) (lease : LeaseRef) : Bool := decide (0 < s.strong lease)

/-- Let a thread take `n` steps. -/
def World.solo (s : World) (tid : Tid) : Nat → Option World
  | 0 => some s
  | n + 1 => (s.advance tid 0).bind fun t => t.solo tid n

theorem solo_trans {s t u : World} {tid : Tid} {m n : Nat} (hm : s.solo tid m = some t)
    (hn : t.solo tid n = some u) : s.solo tid (m + n) = some u := by
  induction m generalizing s with
  | zero =>
    cases hm
    simpa using hn
  | succ m ih =>
    obtain ⟨v, hv, hrest⟩ := Option.bind_eq_some_iff.mp hm
    rw [Nat.succ_add]
    exact Option.bind_eq_some_iff.mpr ⟨v, hv, ih hrest⟩

theorem solo_one {s t : World} {tid : Tid} {frame : Frame} {u : World} {frames : List Frame}
    (hst : s.threads tid = [frame]) (hexec : s.exec tid 0 frame = some (u, frames))
    (ht : t = { u with threads := Function.update s.threads tid frames }) :
    s.solo tid 1 = some t := by
  simp [World.solo, World.advance, hst, hexec, ht]

/-- The rest of `retain`, from the entries that it still has to visit. -/
theorem solo_retain (tid : Tid) (key : String) (todo : List (String × LeaseRef)) (s : World)
    (hst : s.threads tid = [.acquire key (.retain todo)]) :
    ∃ n t, s.solo tid n = some t ∧ t.threads tid = [.acquire key .lookup] ∧
      t.strong = s.strong ∧ t.heap = s.heap ∧ t.allocated = s.allocated ∧ t.poolId = s.poolId ∧
      t.state = s.state.retain fun entry => decide (entry ∉ todo) || s.alive entry.2 := by
  induction todo generalizing s with
  | nil =>
    refine ⟨1, _, solo_one hst rfl rfl, by simp, rfl, rfl, rfl, rfl, ?_⟩
    simp [BrokerState.retain]
  | cons first more ih =>
    obtain ⟨s', hs'⟩ : ∃ s', s' = { s.examine first with
        threads := Function.update s.threads tid [.acquire key (.retain more)] } := ⟨_, rfl⟩
    have hone := solo_one (t := s') hst rfl hs'
    have hsame : s'.strong = s.strong ∧ s'.heap = s.heap ∧ s'.allocated = s.allocated ∧
        s'.poolId = s.poolId ∧ s'.state = (s.examine first).state := by
      subst hs'
      unfold World.examine
      split <;> exact ⟨rfl, rfl, rfl, rfl, rfl⟩
    obtain ⟨hs1, hs2, hs3, hs4, hs5⟩ := hsame
    obtain ⟨n, t, hrun, hlookup, hstrong, hheap, hallocated, hpool, hstate⟩ :=
      ih s' (by simp [hs'])
    refine ⟨1 + n, t, solo_trans hone hrun, hlookup, hstrong.trans hs1, hheap.trans hs2,
      hallocated.trans hs3, hpool.trans hs4, ?_⟩
    rw [hstate, hs5]
    unfold World.examine World.alive
    rw [hs1]
    split
    · rename_i hlive
      -- A live entry is kept, whether it has been visited or not.
      refine BrokerState.retain_congr fun entry _ => ?_
      by_cases he : entry = first
      · subst he
        simp [hlive]
      · simp [he]
    · rename_i hdead
      simp only [BrokerState.forget, BrokerState.retain, List.filter_filter]
      refine congrArg (fun sessions => { s.state with sessions }) (List.filter_congr fun entry _ => ?_)
      by_cases he : entry = first
      · subst he
        simp [hdead]
      · simp [he]

/-- A call of `try_acquire` that runs alone is the atomic `Pool.tryAcquire`. -/
theorem acquire_runs {s : World} (h : WorldOk s) {tid : Tid} {key : String}
    (hst : s.threads tid = [.acquire key .lock]) (hfree : s.lock = none) :
    ∃ n t result, s.solo tid n = some t ∧ t.threads tid = [.acquire key (.unlock result)] ∧
      s.pool.tryAcquire s.poolId key s.alive = (t.pool, result) := by
  obtain ⟨s', hs'⟩ : ∃ s', s' = { s with
      lock := some tid
      threads := Function.update s.threads tid [.acquire key (.retain s.state.sessions)] } :=
    ⟨_, rfl⟩
  have hone : s.solo tid 1 = some s' := by
    refine solo_one (u := { s with lock := some tid }) hst ?_ hs'
    simp [World.exec, World.takeLock, hfree]
  obtain ⟨n, t, hrun, hlookup, hstrong, hheap, hallocated, hpool, hstate⟩ :=
    solo_retain tid key s.state.sessions s' (by simp [hs'])
  have hretained : t.pool = s.pool.retain s.alive := by
    have hkeep : t.state = s.state.retain fun entry => s.alive entry.2 := by
      rw [hstate, hs']
      exact BrokerState.retain_congr fun entry he => by simp [he, World.alive]
    unfold World.pool Pool.retain
    rw [hkeep, hheap, hallocated, hs']
  have hkeys : (t.state.sessions.map Prod.fst).Nodup := by
    have : t.state = (s.pool.retain s.alive).state := congrArg Pool.state hretained
    rw [this]
    exact h.ledger.keys.sublist (List.filter_sublist.map _)
  have hbefore := solo_trans hone hrun
  have hname : t.poolId = s.poolId := by rw [hpool, hs']
  unfold Pool.tryAcquire
  rw [← hretained]
  dsimp only
  cases hget : t.state.get key with
  | some lease =>
    have hlive : 0 < t.strong lease := by
      have hmem := (BrokerState.get_eq_some hkeys).mp hget
      have : t.state = (s.pool.retain s.alive).state := congrArg Pool.state hretained
      rw [this] at hmem
      rw [hstrong, hs']
      simpa [World.alive] using (List.mem_filter.mp hmem).2
    have hexec : t.exec tid 0 (.acquire key .lookup) =
        some (t.retainRef lease, [.acquire key (.unlock (.ok lease))]) := by
      simp [World.exec, hget, hlive]
    refine ⟨_, _, .ok lease, solo_trans hbefore (solo_one hlookup hexec rfl), by simp, ?_⟩
    simp [World.pool, World.retainRef, hget]
  | none =>
    have hexec : t.exec tid 0 (.acquire key .lookup) = some (t, [.acquire key .reserve]) := by
      simp [World.exec, hget]
    obtain ⟨t', ht'⟩ : ∃ t', t' = { t with
        threads := Function.update t.threads tid [.acquire key .reserve] } := ⟨_, rfl⟩
    have hafter := solo_trans hbefore (solo_one hlookup hexec ht')
    have hst' : t'.threads tid = [.acquire key .reserve] := by simp [ht']
    have hpool' : t'.pool = t.pool := by rw [ht']; rfl
    cases hres : t.state.reserve s.poolId key t.allocated with
    | mk state result =>
      have hres' : t'.state.reserve t'.poolId key t'.allocated = (state, result) := by
        rw [ht']
        simp only [hname]
        exact hres
      cases result with
      | ok lease =>
        have hlast : t'.exec tid 0 (.acquire key .reserve) =
            some (t'.allocate state lease, [.acquire key (.unlock (.ok t'.allocated))]) := by
          simp only [World.exec, hres']
        refine ⟨_, _, .ok t'.allocated, solo_trans hafter (solo_one hst' hlast rfl), by simp, ?_⟩
        simp only [World.pool, hget, hres, ht']
        rfl
      | error error =>
        have hkept : state = t.state := by
          rcases t.state.reserve_cases s.poolId key t.allocated with ⟨e, he⟩ | ⟨_, _, hok, _⟩
          · rw [hres, Prod.mk.injEq] at he
            exact he.1
          · rw [hres] at hok
            cases hok
        have hlast : t'.exec tid 0 (.acquire key .reserve) =
            some ({ t' with state }, [.acquire key (.unlock (.error error))]) := by
          simp only [World.exec, hres']
        refine ⟨_, _, .error error, solo_trans hafter (solo_one hst' hlast rfl), by simp, ?_⟩
        simp only [World.pool, hget, hres, ht', hkept]

end IptvRelay.Broker
