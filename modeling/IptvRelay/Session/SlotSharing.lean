import IptvRelay.Session.Slots

/-!
# One slot for each upstream connection

An open body is always covered by a lease that its session holds. But the lease
may be shared: a session that fails over to another pool asks for a key built
from that pool, and a session of the same source and generation that starts in
that pool asks for the same key. The broker gives both the same lease.
-/

namespace IptvRelay.Slots

open Transition Broker

/-! ## The invariant -/

/-- The keys that a session may request from the broker of a pool. -/
def requestKeys (key : HttpTsSessionKey) (endpoints : List String) (poolId : String) :
    List String :=
  if poolId ∈ endpoints then
    [key.allocationKey, formatKey poolId key.sourceId key.generation]
  else []

/-- The lease exists, and the session may have asked for its key. -/
def LeaseOk (providers : String → Option Pool) (session : Session) (lease : SlotLease) : Prop :=
  ∃ pool, providers lease.poolId = some pool ∧ lease.inner < pool.allocated ∧
    (pool.heap lease.inner).sessionKey ∈ requestKeys session.key session.endpoints lease.poolId

/-- The session holds a lease of the pool that it sends requests to. -/
def CoverOk (session : Session) : Prop :=
  match session.phase with
  | .connecting lease => session.endpoints[0]? = some lease.poolId
  | .streaming lease endpoint => session.endpoints[endpoint]? = some lease.poolId
  | .requesting lease candidate previous attempt | .priming lease candidate previous attempt =>
    session.endpoints[session.recoveryIndex previous attempt]? =
      some (candidate.getD lease).poolId
  | .reserving | .recovering .. | .ended => True

structure SessionOk (providers : String → Option Pool) (session : Session) : Prop where
  endpoints : session.endpoints ≠ []
  leases : ∀ lease ∈ session.leases, LeaseOk providers session lease
  cover : CoverOk session

structure ManagerOk (s : Manager) : Prop where
  providers : ∀ poolId pool, s.providers poolId = some pool → PoolOk pool
  sessions : ∀ session ∈ s.sessions, SessionOk s.providers session

/-- No broker forgets or renames a lease. -/
def Extends (before after : String → Option Pool) : Prop :=
  ∀ poolId pool, before poolId = some pool → ∃ pool', after poolId = some pool' ∧
    pool.allocated ≤ pool'.allocated ∧
    ∀ lease < pool.allocated, pool'.heap lease = pool.heap lease

theorem Extends.refl (providers : String → Option Pool) : Extends providers providers :=
  fun _ pool h => ⟨pool, h, le_rfl, fun _ _ => rfl⟩

theorem extends_update {providers : String → Option Pool} {poolId : String} {pool' : Pool}
    (h : ∀ pool, providers poolId = some pool → pool.allocated ≤ pool'.allocated ∧
      ∀ lease < pool.allocated, pool'.heap lease = pool.heap lease) :
    Extends providers (Function.update providers poolId (some pool')) := by
  intro other pool hpool
  by_cases ho : other = poolId
  · subst ho
    exact ⟨pool', by simp, h pool hpool⟩
  · exact ⟨pool, by rw [Function.update_of_ne ho, hpool], le_rfl, fun _ _ => rfl⟩

theorem LeaseOk.mono {before after : String → Option Pool} (h : Extends before after)
    {session : Session} {lease : SlotLease} (hl : LeaseOk before session lease) :
    LeaseOk after session lease := by
  obtain ⟨pool, hpool, hlt, hkey⟩ := hl
  obtain ⟨pool', hpool', hle, hheap⟩ := h _ pool hpool
  exact ⟨pool', hpool', hlt.trans_le hle, by rw [hheap _ hlt]; exact hkey⟩

theorem SessionOk.mono {before after : String → Option Pool} (h : Extends before after)
    {session : Session} (hs : SessionOk before session) : SessionOk after session :=
  ⟨hs.endpoints, fun lease hl => (hs.leases lease hl).mono h, hs.cover⟩

/-- What asking a broker does. -/
theorem ManagerOk.tryAcquire {s : Manager} (h : ManagerOk s) (poolId key : String) :
    Extends s.providers (s.tryAcquire poolId key).1 ∧
      (∀ other pool, (s.tryAcquire poolId key).1 other = some pool → PoolOk pool) ∧
      ∀ lease, (s.tryAcquire poolId key).2 = some lease → lease.poolId = poolId ∧
        ∃ pool, (s.tryAcquire poolId key).1 poolId = some pool ∧ lease.inner < pool.allocated ∧
          (pool.heap lease.inner).sessionKey = key := by
  unfold Manager.tryAcquire
  split
  · exact ⟨.refl _, h.providers, by simp⟩
  · rename_i pool hpool
    obtain ⟨hok, hle, hheap, hlease⟩ :=
      (h.providers poolId pool hpool).tryAcquire poolId key (s.alive poolId)
    refine ⟨extends_update fun before hbefore => ?_, fun other after hafter => ?_, ?_⟩
    · obtain rfl : pool = before := Option.some.inj (hpool.symm.trans hbefore)
      exact ⟨hle, hheap⟩
    · by_cases ho : other = poolId
      · subst ho
        simp only [Function.update_self, Option.some.injEq] at hafter
        exact hafter ▸ hok
      · simp only [Function.update_of_ne ho] at hafter
        exact h.providers other after hafter
    · intro lease hsome
      cases hres : (pool.tryAcquire poolId key (s.alive poolId)).2 with
      | error error => simp [hres, Except.toOption] at hsome
      | ok inner =>
        simp only [hres, Except.toOption, Option.map_some, Option.some.injEq] at hsome
        subst hsome
        exact ⟨rfl, _, Function.update_self _ _ _, hlease inner hres⟩

/-! ## Steps -/

/-- The brokers change, and one session moves to a new phase. -/
theorem ManagerOk.set {s : Manager} (h : ManagerOk s) {providers : String → Option Pool}
    (hext : Extends s.providers providers)
    (hpools : ∀ poolId pool, providers poolId = some pool → PoolOk pool) {i : Nat}
    {session : Session} {phase : Phase} (hs : SessionOk providers { session with phase }) :
    ManagerOk (Manager.set { s with providers } i session phase) := by
  refine ⟨hpools, fun other hmem => ?_⟩
  rcases List.mem_or_eq_of_mem_set hmem with hmem | rfl
  · exact (h.sessions other hmem).mono hext
  · exact hs

theorem getElem?_recoveryIndex {session : Session} (h : session.endpoints ≠ [])
    (previous attempt : Nat) :
    session.endpoints[session.recoveryIndex previous attempt]? =
      some (session.endpoints.getD (session.recoveryIndex previous attempt) "") := by
  have hlt : session.recoveryIndex previous attempt < session.endpoints.length :=
    Nat.mod_lt _ (List.length_pos_iff.mpr h)
  simp [List.getD, List.getElem?_eq_getElem hlt]

/-- A lease that a session gets for one of its keys. -/
theorem ManagerOk.leaseOk {s : Manager} (h : ManagerOk s) {poolId key : String} {lease : SlotLease}
    (hlease : (s.tryAcquire poolId key).2 = some lease) (session : Session)
    (hkey : key ∈ requestKeys session.key session.endpoints poolId) :
    lease.poolId = poolId ∧ LeaseOk (s.tryAcquire poolId key).1 session lease := by
  obtain ⟨hpool, pool, hget, hlt, hname⟩ := (h.tryAcquire poolId key).2.2 lease hlease
  exact ⟨hpool, pool, by rw [hpool]; exact hget, hlt, by rw [hname, hpool]; exact hkey⟩

theorem ManagerOk.reserve {s : Manager} (h : ManagerOk s) {i : Nat} {session : Session}
    (hs : SessionOk s.providers session) : ManagerOk (s.reserve i session) := by
  obtain ⟨hext, hpools, _⟩ := h.tryAcquire (session.endpoints.headD "") session.key.allocationKey
  obtain ⟨first, rest, hfirst⟩ := List.exists_cons_of_ne_nil hs.endpoints
  unfold Manager.reserve
  dsimp only
  cases hres : (s.tryAcquire (session.endpoints.headD "") session.key.allocationKey).2 with
  | none => exact h.set hext hpools ⟨hs.endpoints, by simp [Session.leases], trivial⟩
  | some lease =>
    obtain ⟨hpool, hlease⟩ := h.leaseOk hres
      { session with phase := .connecting lease } (by simp [requestKeys, hfirst])
    refine h.set hext hpools ⟨hs.endpoints, fun other hother => ?_, ?_⟩
    · obtain rfl : other = lease := by simpa [Session.leases] using hother
      exact hlease
    · simp [CoverOk, hpool, hfirst]

theorem ManagerOk.attempt {s : Manager} (h : ManagerOk s) {i : Nat} {session : Session}
    {lease : SlotLease} {previous attempt : Nat}
    (hphase : session.phase = .recovering lease previous attempt)
    (hs : SessionOk s.providers session) :
    ManagerOk (s.attempt i session lease previous attempt) := by
  have hown : LeaseOk s.providers session lease :=
    hs.leases lease (by simp [Session.leases, hphase])
  have hindex := getElem?_recoveryIndex hs.endpoints previous attempt
  have hmem := List.mem_of_getElem? hindex
  unfold Manager.attempt
  dsimp only
  split
  · rename_i hsame
    refine h.set (.refl _) h.providers ⟨hs.endpoints, fun other hother => ?_, ?_⟩
    · obtain rfl : other = lease := by simpa [Session.leases] using hother
      exact hown
    · exact hindex.trans (congrArg some hsame)
  · obtain ⟨hext, hpools, _⟩ := h.tryAcquire
      (session.endpoints.getD (session.recoveryIndex previous attempt) "")
      (formatKey (session.endpoints.getD (session.recoveryIndex previous attempt) "")
        session.key.sourceId session.key.generation)
    cases hres : (s.tryAcquire (session.endpoints.getD (session.recoveryIndex previous attempt) "")
        (formatKey (session.endpoints.getD (session.recoveryIndex previous attempt) "")
          session.key.sourceId session.key.generation)).2 with
    | none =>
      refine h.set hext hpools ⟨hs.endpoints, fun other hother => ?_, trivial⟩
      obtain rfl : other = lease := by simpa [Session.leases] using hother
      exact hown.mono hext
    | some candidate =>
      obtain ⟨hpool, hlease⟩ := h.leaseOk hres
        { session with phase := .requesting lease (some candidate) previous attempt }
        (by simp only [requestKeys, hmem, if_true]; simp)
      refine h.set hext hpools ⟨hs.endpoints, fun other hother => ?_, ?_⟩
      · have hcases : other = lease ∨ other = candidate := by
          simpa [Session.leases] using hother
        rcases hcases with rfl | rfl
        · exact hown.mono hext
        · exact hlease
      · exact hindex.trans (congrArg some hpool.symm)

/-- One step of a session. -/
theorem ManagerOk.advance {s t : Manager} (h : ManagerOk s) {i : Nat} {session : Session}
    {ok : Bool} (hs : SessionOk s.providers session) (hstep : s.advance i session ok = some t) :
    ManagerOk t := by
  have hcover := hs.cover
  have hleases := hs.leases
  unfold Manager.advance at hstep
  split at hstep
  · cases hstep
    exact h.reserve hs
  · rename_i lease hphase
    cases hstep
    simp only [Session.leases, CoverOk, hphase] at hcover hleases
    refine h.set (.refl _) h.providers ⟨hs.endpoints, ?_, ?_⟩
    · cases ok with
      | true => exact hleases
      | false => simp [Session.leases]
    · cases ok with
      | true => exact hcover
      | false => trivial
  · rename_i lease previous attempt hphase
    cases hstep
    exact h.attempt hphase hs
  · rename_i lease candidate previous attempt hphase
    cases hstep
    simp only [Session.leases, CoverOk, hphase] at hcover hleases
    refine h.set (.refl _) h.providers ⟨hs.endpoints, ?_, ?_⟩
    · cases ok with
      | true => exact hleases
      | false => exact fun other hother => hleases other (by
          obtain rfl : other = lease := by simpa [Session.leases] using hother
          simp)
    · cases ok with
      | true => exact hcover
      | false => trivial
  · rename_i lease candidate previous attempt hphase
    cases hstep
    simp only [Session.leases, CoverOk, hphase] at hcover hleases
    refine h.set (.refl _) h.providers ⟨hs.endpoints, ?_, ?_⟩
    · cases ok with
      | true => exact fun other hother => hleases other (by
          obtain rfl : other = candidate.getD lease := by simpa [Session.leases] using hother
          cases candidate <;> simp)
      | false => exact fun other hother => hleases other (by
          obtain rfl : other = lease := by simpa [Session.leases] using hother
          simp)
    · cases ok with
      | true => exact hcover
      | false => trivial
  · cases hstep
  · cases hstep

theorem ManagerOk.configureProvider {s : Manager} (h : ManagerOk s) (poolId : String)
    (maxConnections : Nat) : ManagerOk (s.configureProvider poolId maxConnections) := by
  refine ⟨fun other pool hpool => ?_, fun session hs => (h.sessions session hs).mono ?_⟩
  · by_cases ho : other = poolId
    · subst ho
      simp only [Manager.configureProvider, Function.update_self, Option.some.injEq] at hpool
      subst hpool
      cases hold : s.providers other with
      | none => exact poolOk_new other maxConnections
      | some pool =>
        have hok := h.providers other pool hold
        exact ⟨hok.keys, hok.entries⟩
    · simp only [Manager.configureProvider, Function.update_of_ne ho] at hpool
      exact h.providers other pool hpool
  · refine extends_update fun pool hpool => ?_
    rw [hpool]
    exact ⟨le_rfl, fun _ _ => rfl⟩

/-- One step of the manager. -/
theorem ManagerOk.step {s t : Manager} {op : ManagerOp} (h : ManagerOk s)
    (hstep : s.step op = some t) : ManagerOk t := by
  cases op with
  | configureProvider poolId maxConnections =>
    cases hstep
    exact h.configureProvider poolId maxConnections
  | reserveSlot poolId reservationKey =>
    cases hstep
    obtain ⟨hext, hpools, _⟩ := h.tryAcquire poolId reservationKey
    exact ⟨hpools, fun session hs => (h.sessions session hs).mono hext⟩
  | releaseSlot lease =>
    cases hstep
    exact ⟨h.providers, h.sessions⟩
  | start key endpoints =>
    simp only [Manager.step, Manager.start] at hstep
    split at hstep
    · cases hstep
    · rename_i hready
      cases hstep
      refine ⟨h.providers, fun session hs => ?_⟩
      rcases List.mem_append.mp hs with hs | hs
      · exact h.sessions session hs
      · rw [List.mem_singleton.mp hs]
        refine ⟨?_, by simp [Session.leases], trivial⟩
        have hne : endpoints ≠ [] := fun hnil => hready (.inl hnil)
        unfold Manager.rotate
        dsimp only
        split <;> simp [hne]
  | advance i ok =>
    obtain ⟨session, hget, hnext⟩ := Option.bind_eq_some_iff.mp hstep
    exact h.advance (h.sessions session (List.mem_of_getElem? hget)) hnext
  | fail i =>
    obtain ⟨session, hget, hnext⟩ := Option.bind_eq_some_iff.mp hstep
    have hs := h.sessions session (List.mem_of_getElem? hget)
    split at hnext
    · rename_i lease endpoint hphase
      cases hnext
      have hleases := hs.leases
      simp only [Session.leases, hphase] at hleases
      exact h.set (.refl _) h.providers ⟨hs.endpoints, hleases, trivial⟩
    · cases hnext
  | finish i =>
    obtain ⟨session, hget, rfl⟩ := Option.map_eq_some_iff.mp hstep
    have hs := h.sessions session (List.mem_of_getElem? hget)
    exact h.set (.refl _) h.providers ⟨hs.endpoints, by simp [Session.leases], trivial⟩

theorem managerOk_of_reachable {s : Manager} (h : managerMachine.Reachable s) : ManagerOk s :=
  h.invariant ⟨by simp [managerMachine], by simp [managerMachine]⟩
    fun _ _ _ hs _ hstep => hs.step hstep

/-! ## Sessions with different keys -/

/-- Two sessions ask no broker for the same key. -/
def KeysApart (a b : Session) : Prop :=
  ∀ poolId, List.Disjoint (requestKeys a.key a.endpoints poolId)
    (requestKeys b.key b.endpoints poolId)

/-- A session starts only beside sessions whose requests differ from its own. -/
def StartsApart (s : Manager) : ManagerOp → Prop
  | .start key endpoints => ∀ other ∈ s.sessions, other.phase ≠ .ended →
    KeysApart other
      { key, endpoints := endpoints.map (·.effectivePoolId key.providerPoolId), phase := .reserving }
  | _ => True

/-- All running sessions ask for different keys. -/
def AllApart (sessions : List Session) : Prop :=
  ∀ (i j : Nat) (a b : Session), i ≠ j → sessions[i]? = some a → sessions[j]? = some b →
    a.phase ≠ .ended → b.phase ≠ .ended → KeysApart a b

theorem KeysApart.symm {a b : Session} (h : KeysApart a b) : KeysApart b a :=
  fun poolId => (h poolId).symm

theorem AllApart.set {sessions : List Session} (h : AllApart sessions) {i : Nat}
    {session : Session} (hget : sessions[i]? = some session) {phase : Phase}
    (hphase : session.phase = .ended → phase = .ended) :
    AllApart (sessions.set i { session with phase }) := by
  have hold : ∀ (k : Nat) (a : Session),
      (sessions.set i { session with phase })[k]? = some a → a.phase ≠ .ended →
      ∃ a', sessions[k]? = some a' ∧ a'.phase ≠ .ended ∧ a'.key = a.key ∧
        a'.endpoints = a.endpoints := by
    intro k a hk hrun
    by_cases hki : k = i
    · subst hki
      rw [List.getElem?_set_self (List.getElem?_eq_some_iff.mp hget).1, Option.some.injEq] at hk
      subst hk
      exact ⟨session, hget, fun hended => hrun (hphase hended), rfl, rfl⟩
    · rw [List.getElem?_set_ne (Ne.symm hki)] at hk
      exact ⟨a, hk, hrun, rfl, rfl⟩
  intro j k a b hjk ha hb hrun hrun'
  obtain ⟨a', ha', hrunA, hkeyA, hendA⟩ := hold j a ha hrun
  obtain ⟨b', hb', hrunB, hkeyB, hendB⟩ := hold k b hb hrun'
  have happart := h j k a' b' hjk ha' hb' hrunA hrunB
  intro poolId
  have := happart poolId
  rwa [hkeyA, hendA, hkeyB, hendB] at this

theorem mem_rotate {s : Manager} {endpoints : List String} {poolId : String} :
    poolId ∈ s.rotate endpoints ↔ poolId ∈ endpoints := by
  unfold Manager.rotate
  dsimp only
  split <;> simp

theorem AllApart.step {s t : Manager} {op : ManagerOp} (h : AllApart s.sessions)
    (happart : StartsApart s op) (hstep : s.step op = some t) : AllApart t.sessions := by
  cases op with
  | configureProvider | reserveSlot | releaseSlot =>
    cases hstep
    exact h
  | start key endpoints =>
    simp only [Manager.step, Manager.start] at hstep
    split at hstep
    · cases hstep
    · cases hstep
      have hnew : ∀ other ∈ s.sessions, other.phase ≠ .ended → KeysApart other
          { key
            endpoints := s.rotate (endpoints.map (·.effectivePoolId key.providerPoolId))
            phase := .reserving } := by
        intro other hother hrun poolId
        have := happart other hother hrun poolId
        simpa only [requestKeys, mem_rotate] using this
      intro i j a b hij ha hb hrunA hrunB
      rw [List.getElem?_append] at ha hb
      split at ha <;> split at hb
      · exact h i j a b hij ha hb hrunA hrunB
      · obtain rfl := List.mem_singleton.mp (List.mem_of_getElem? hb)
        exact hnew a (List.mem_of_getElem? ha) hrunA
      · obtain rfl := List.mem_singleton.mp (List.mem_of_getElem? ha)
        exact (hnew b (List.mem_of_getElem? hb) hrunB).symm
      · rename_i hi hj
        have hi' := (List.getElem?_eq_some_iff.mp ha).1
        have hj' := (List.getElem?_eq_some_iff.mp hb).1
        simp only [List.length_singleton] at hi' hj'
        omega
  | advance i ok =>
    obtain ⟨session, hget, hnext⟩ := Option.bind_eq_some_iff.mp hstep
    unfold Manager.advance at hnext
    split at hnext
    case h_1 hphase =>
      cases hnext
      exact h.set hget (by simp [hphase])
    case h_2 hphase =>
      cases hnext
      exact h.set hget (by simp [hphase])
    case h_3 lease previous attempt hphase =>
      cases hnext
      unfold Manager.attempt
      dsimp only
      split <;> exact h.set hget (by simp [hphase])
    case h_4 hphase =>
      cases hnext
      exact h.set hget (by simp [hphase])
    case h_5 hphase =>
      cases hnext
      exact h.set hget (by simp [hphase])
    all_goals cases hnext
  | fail i =>
    obtain ⟨session, hget, hnext⟩ := Option.bind_eq_some_iff.mp hstep
    split at hnext
    · rename_i lease endpoint hphase
      cases hnext
      exact h.set hget (by simp [hphase])
    · cases hnext
  | finish i =>
    obtain ⟨session, hget, rfl⟩ := Option.map_eq_some_iff.mp hstep
    exact h.set hget fun _ => rfl

theorem allApart_of_reachable {s : Manager} (h : managerMachine.ReachableWhere StartsApart s) :
    AllApart s.sessions :=
  h.invariant (I := fun s => AllApart s.sessions) (by simp [AllApart, managerMachine])
    fun _ _ _ hs happart hstep => hs.step happart hstep

/-! ## Results -/

/-- Every open body has a slot of its own. -/
structure SlotPerConnection (s : Manager) : Prop where
  /-- A body is covered by a lease of its pool that its session holds. -/
  covered : ∀ session ∈ s.sessions, ∀ poolId, session.openBody = some poolId →
    ∃ lease ∈ session.leases, lease.poolId = poolId ∧ lease.inner ∈ s.liveLeases poolId
  unshared : ∀ (i j : Nat) (a b : Session), i ≠ j → s.sessions[i]? = some a →
    s.sessions[j]? = some b → ∀ lease ∈ a.leases, lease ∉ b.leases
  counted : ∀ poolId, (s.openBodies poolId).length ≤ (s.liveLeases poolId).length

/-- The lease that covers the open body. -/
def Session.bodyLease (session : Session) : Option SlotLease :=
  match session.phase with
  | .streaming lease _ => some lease
  | .priming lease candidate _ _ => some (candidate.getD lease)
  | _ => none

theorem SessionOk.bodyLease {providers : String → Option Pool} {session : Session}
    (h : SessionOk providers session) {poolId : String} (hbody : session.openBody = some poolId) :
    ∃ lease, session.bodyLease = some lease ∧ lease ∈ session.leases ∧ lease.poolId = poolId := by
  have hcover := h.cover
  unfold Session.openBody at hbody
  split at hbody
  · rename_i lease endpoint hphase
    simp only [CoverOk, hphase] at hcover
    refine ⟨lease, by simp [Session.bodyLease, hphase], by simp [Session.leases, hphase], ?_⟩
    exact Option.some.inj (hcover.symm.trans hbody)
  · rename_i lease candidate previous attempt hphase
    simp only [CoverOk, hphase] at hcover
    refine ⟨candidate.getD lease, by simp [Session.bodyLease, hphase], ?_, ?_⟩
    · cases candidate <;> simp [Session.leases, hphase]
    · exact Option.some.inj (hcover.symm.trans hbody)
  · cases hbody

theorem ManagerOk.mem_liveLeases {s : Manager} (h : ManagerOk s) {session : Session}
    (hs : session ∈ s.sessions) {lease : SlotLease} (hl : lease ∈ session.leases) :
    lease.inner ∈ s.liveLeases lease.poolId := by
  obtain ⟨pool, hpool, hlt, _⟩ := (h.sessions session hs).leases lease hl
  have halive : s.alive lease.poolId lease.inner = true := by
    unfold Manager.alive Manager.holds
    rw [Bool.or_eq_true]
    exact .inl (List.any_eq_true.mpr ⟨session, hs, by simpa using hl⟩)
  simp [Manager.liveLeases, hpool, hlt, halive]

theorem ManagerOk.unshared {s : Manager} (h : ManagerOk s) (hapart : AllApart s.sessions)
    {i j : Nat} {a b : Session} (hij : i ≠ j) (ha : s.sessions[i]? = some a)
    (hb : s.sessions[j]? = some b) {lease : SlotLease} (hla : lease ∈ a.leases) :
    lease ∉ b.leases := by
  intro hlb
  have hrunA : a.phase ≠ .ended := fun hended => by simp [Session.leases, hended] at hla
  have hrunB : b.phase ≠ .ended := fun hended => by simp [Session.leases, hended] at hlb
  obtain ⟨pool, hpool, _, hkey⟩ := (h.sessions a (List.mem_of_getElem? ha)).leases lease hla
  obtain ⟨pool', hpool', _, hkey'⟩ := (h.sessions b (List.mem_of_getElem? hb)).leases lease hlb
  obtain rfl : pool = pool' := Option.some.inj (hpool.symm.trans hpool')
  exact hapart i j a b hij ha hb hrunA hrunB lease.poolId hkey hkey'

/-- The bodies that are open to a pool have different leases. -/
theorem ManagerOk.openBodies_le {s : Manager} (h : ManagerOk s) (hapart : AllApart s.sessions)
    (poolId : String) : (s.openBodies poolId).length ≤ (s.liveLeases poolId).length := by
  have hbody : ∀ i ∈ s.openBodies poolId, ∃ session lease, s.sessions[i]? = some session ∧
      session.bodyLease = some lease ∧ lease ∈ session.leases ∧ lease.poolId = poolId := by
    intro i hi
    have hopen : s.sessions[i]?.bind Session.openBody = some poolId := by
      simpa using (List.mem_filter.mp hi).2
    obtain ⟨session, hget, hpool⟩ := Option.bind_eq_some_iff.mp hopen
    obtain ⟨lease, hlease, hmem, hname⟩ :=
      (h.sessions session (List.mem_of_getElem? hget)).bodyLease hpool
    exact ⟨session, lease, hget, hlease, hmem, hname⟩
  let slot : Nat → LeaseRef := fun i =>
    ((s.sessions[i]?.bind Session.bodyLease).map SlotLease.inner).getD 0
  have hinj : ∀ i ∈ s.openBodies poolId, ∀ j ∈ s.openBodies poolId, slot i = slot j → i = j := by
    intro i hi j hj hslot
    by_contra hij
    obtain ⟨a, lease, ha, hlease, hmem, hname⟩ := hbody i hi
    obtain ⟨b, lease', hb, hlease', hmem', hname'⟩ := hbody j hj
    have hsame : lease = lease' := by
      cases lease
      cases lease'
      simp_all [slot]
    exact h.unshared hapart hij ha hb hmem (hsame ▸ hmem')
  have hnodup : ((s.openBodies poolId).map slot).Nodup :=
    (List.nodup_range.filter _).map_on hinj
  have hsub : (s.openBodies poolId).map slot ⊆ s.liveLeases poolId := by
    intro ref href
    obtain ⟨i, hi, rfl⟩ := List.mem_map.mp href
    obtain ⟨session, lease, hget, hlease, hmem, rfl⟩ := hbody i hi
    have := h.mem_liveLeases (List.mem_of_getElem? hget) hmem
    simpa [slot, hget, hlease] using this
  simpa using (List.subperm_of_subset hnodup hsub).length_le

/-- As long as concurrent sessions ask for different keys, every upstream connection has a slot of
its own. -/
theorem slot_per_connection (s : Manager) (h : managerMachine.ReachableWhere StartsApart s) :
    SlotPerConnection s := by
  have hok := managerOk_of_reachable h.reachable
  have hapart := allApart_of_reachable h
  refine ⟨fun session hs poolId hbody => ?_, fun i j a b hij ha hb lease hla => ?_,
    hok.openBodies_le hapart⟩
  · obtain ⟨lease, _, hmem, rfl⟩ := (hok.sessions session hs).bodyLease hbody
    exact ⟨lease, hmem, rfl, hok.mem_liveLeases hs hmem⟩
  · exact hok.unshared hapart hij ha hb hla

/-- Two plans of one channel that differ in the order of their pools: the first session has failed
over to the second pool, and the second session follows it there. -/
def reorderedPlans : List ManagerOp :=
  [.configureProvider "p" 1, .configureProvider "q" 1,
    .start ⟨"p", "channel", 7⟩ [⟨some "p"⟩, ⟨some "q"⟩], .advance 0 true, .advance 0 true, .fail 0,
    .advance 0 true, .advance 0 true, .advance 0 true,
    .start ⟨"q", "channel", 7⟩ [⟨some "q"⟩, ⟨some "p"⟩], .advance 1 true, .advance 1 true, .fail 1,
    .advance 1 true, .advance 1 true]

/-- Both sessions stream from a pool with one connection, and share its only lease. -/
theorem slot_shared :
    ¬ ∀ s, managerMachine.Reachable s → SlotPerConnection s := by
  intro hall
  obtain ⟨s, hs, hp⟩ := managerMachine.exists_reachable_of_run reorderedPlans
    (fun s => decide (s.openBodies "q" = [0, 1] ∧ s.liveLeases "q" = [0])) (by decide +kernel)
  obtain ⟨hbodies, hleases⟩ := of_decide_eq_true hp
  have hcount := (hall s hs).counted "q"
  rw [hbodies, hleases] at hcount
  simp at hcount

/-- An executable form of `StartsApart`. -/
def startsApart (s : Manager) : ManagerOp → Bool
  | .start key endpoints =>
    s.sessions.all fun other => other.endpoints.all fun poolId =>
      (requestKeys other.key other.endpoints poolId).all fun request =>
        !(requestKeys key (endpoints.map (·.effectivePoolId key.providerPoolId)) poolId).contains
          request
  | _ => true

theorem startsApart_sound {s : Manager} {op : ManagerOp} (h : startsApart s op = true) :
    StartsApart s op := by
  cases op with
  | start key endpoints =>
    intro other hother _ poolId request hold hnew
    have hmem : poolId ∈ other.endpoints := by
      by_contra hno
      simp [requestKeys, hno] at hold
    have := List.all_eq_true.mp (List.all_eq_true.mp (List.all_eq_true.mp h other hother)
      poolId hmem) request hold
    simp only [Bool.not_eq_true', List.contains_eq_mem, decide_eq_false_iff_not] at this
    exact this hnew
  | _ => trivial

/-- Two channels on one pool with two connections. -/
theorem slot_per_connection_two :
    ∃ s, managerMachine.ReachableWhere StartsApart s ∧
      (s.openBodies "p" = [0, 1] ∧ s.liveLeases "p" = [0, 1]) ∧ SlotPerConnection s := by
  obtain ⟨s, hs, hp⟩ := managerMachine.exists_reachableWhere_of_run
    StartsApart startsApart
    [.configureProvider "p" 2, .start ⟨"p", "news", 7⟩ [⟨none⟩], .advance 0 true,
      .advance 0 true, .start ⟨"p", "sport", 7⟩ [⟨none⟩], .advance 1 true, .advance 1 true]
    (fun s => decide (s.openBodies "p" = [0, 1] ∧ s.liveLeases "p" = [0, 1]))
    (fun _ _ _ hb => startsApart_sound hb) (by decide +kernel)
  exact ⟨s, hs, of_decide_eq_true hp, slot_per_connection s hs⟩

end IptvRelay.Slots
