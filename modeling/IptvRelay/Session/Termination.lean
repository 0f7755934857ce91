import IptvRelay.Session.Recovery

/-!
# Termination of a session

`terminate` sets the state and closes the ring. The pump looks at the state after
an upstream failure only, and a recovery overwrites the state and reopens the
ring. A terminated session stays down in the runs where the pump is not on its
way through one of these writes when the stop is requested.
-/

namespace IptvRelay.Recovery

open Transition Media MpegTsRing HttpTsSession

/-! ## When the pump heeds a stop -/

/-- The pump writes no other state and starts no recovery before its next look at the state. -/
def PumpPc.heedsStop : PumpPc → Bool
  | .primeInitial | .pushInitial _ | .streaming | .failed | .checkViewers | .markStopping
  | .closeShutdown | .closeExpired | .done => true
  | _ => false

/-- The next step of the pump neither begins a recovery on an older look at the state, nor pushes
the first packets into an open ring. -/
def HttpTsSession.pumpHeeds (s : HttpTsSession) : Bool :=
  match s.pump with
  | .checkViewers => !s.hasViewers
  | .pushInitial _ => s.core.ring.state.closed.isSome
  | _ => true

/-- A stop is requested while the pump heeds it, and from then on every step of the pump does. -/
def StopHeeded (s : HttpTsSession) : SessionOp → Prop
  | .terminate => s.pump.heedsStop = true
  | .pump _ _ => s.stopRequested = true → s.pumpHeeds = true
  | .keepalive _ | .subscribe _ | .viewer _ | .leave _ | .release | .close | .abort => True

instance (s : HttpTsSession) (op : SessionOp) : Decidable (StopHeeded s op) :=
  match op with
  | .terminate => inferInstanceAs (Decidable (_ = true))
  | .pump _ _ => inferInstanceAs (Decidable (_ → _))
  | .keepalive _ | .subscribe _ | .viewer _ | .leave _ | .release | .close | .abort =>
    inferInstanceAs (Decidable True)

/-- What `t` still has of an earlier `s`, and that it is stopping. -/
structure StaysStopped (s t : HttpTsSession) : Prop where
  log : t.core.log = s.core.log
  generation : t.core.ring.state.generation = s.core.ring.state.generation
  requests : t.requests = s.requests
  state : t.state = .stopping

structure StopOk (s : HttpTsSession) : Prop where
  initial : ∀ packets, s.pump = .pushInitial packets → packets ≠ []
  requested : s.stopRequested = true → s.pump.heedsStop = true ∧ s.state = .stopping
  terminated : s.terminated = true → s.stopRequested = true ∧ s.core.ring.state.closed ≠ none

/-! ## Steps -/

theorem pushRing_of_closed {s : HttpTsSession} (h : s.core.ring.state.closed ≠ none)
    (bytes : Bytes) (now : Instant) :
    s.accepts bytes now = false ∧ (s.pushRing bytes now).core = s.core := by
  rcases pushRing_cases s bytes now with hsame | ⟨-, hopen, -⟩
  · exact hsame
  · exact absurd hopen h

theorem closeRing_closed (s : HttpTsSession) (reason : RingCloseReason) :
    (s.closeRing reason).core.ring.state.closed ≠ none := by
  simp only [closeRing, close_eq]
  cases s.core.ring.state.closed <;> simp

/-- Only the initial priming prepares a first push, and never an empty one. -/
theorem pumpStep_pushInitial {c : SessionConfig} {s t : HttpTsSession} {now : Instant}
    {input : PumpInput} (h : s.pumpStep c now input = some t) {packets : Bytes}
    (ht : t.pump = .pushInitial packets) : packets ≠ [] := by
  unfold HttpTsSession.pumpStep at h
  cases hpc : s.pump <;> rw [hpc] at h <;> cases input <;>
    simp only [reduceCtorEq, Option.some.injEq] at h
  case primeInitial.packets =>
    split at h
    · cases h
    · cases h
      cases ht
      assumption
  case stopKeepalive.go =>
    unfold HttpTsSession.stopKeepalive at h
    split at h <;> cases h <;> cases ht
  case rotate.go =>
    subst h
    unfold HttpTsSession.rotate at ht
    split at ht <;> cases ht
  case prime.packets =>
    split at h <;> cases h
    cases ht
  case pushInitial.go | streaming.packets | pushPrimed.go | failed.go | checkViewers.go
    | recover.go | attempt.go | drain.expire =>
    subst h
    revert ht
    split <;> simp [HttpTsSession.expire, HttpTsSession.beginRecovery, finishDrain]
  case drain.go =>
    subst h
    revert ht
    split <;> simp [hpc, finishDrain]
  all_goals
    subst h
    cases ht

/-- A step after the request that changes neither what was requested nor what is published. -/
structure StoppedStep (s t : HttpTsSession) : Prop where
  heeds : t.pump.heedsStop = true
  state : t.state = .stopping
  requests : t.requests = s.requests
  generation : t.core.ring.state.generation = s.core.ring.state.generation
  closed : s.core.ring.state.closed ≠ none →
    t.core.log = s.core.log ∧ t.core.ring.state.closed ≠ none

theorem StoppedStep.of_core {s t : HttpTsSession} (heeds : t.pump.heedsStop = true)
    (state : t.state = .stopping) (requests : t.requests = s.requests) (core : t.core = s.core) :
    StoppedStep s t :=
  ⟨heeds, state, requests, by rw [core], fun hclosed => by rw [core]; exact ⟨rfl, hclosed⟩⟩

theorem StoppedStep.of_close {s t : HttpTsSession} {reason : RingCloseReason}
    (heeds : t.pump.heedsStop = true) (state : t.state = .stopping)
    (requests : t.requests = s.requests) (core : t.core = (s.closeRing reason).core) :
    StoppedStep s t := by
  refine ⟨heeds, state, requests, ?_, fun _ => ?_⟩
  · rw [core, closeRing, close_eq]
  · rw [core]
    exact ⟨rfl, closeRing_closed s reason⟩

theorem StoppedStep.of_push {s t : HttpTsSession} (bytes : Bytes) (now : Instant)
    (heeds : t.pump.heedsStop = true) (state : t.state = .stopping)
    (requests : t.requests = s.requests) (core : t.core = (s.pushRing bytes now).core) :
    StoppedStep s t := by
  refine ⟨heeds, state, requests, ?_, fun hclosed => ?_⟩
  · rw [core]
    rcases pushRing_cases s bytes now with ⟨-, hsame⟩ | ⟨-, -, hgen, -⟩
    · rw [hsame]
    · exact hgen
  · rw [core, (pushRing_of_closed hclosed bytes now).2]
    exact ⟨rfl, hclosed⟩

/-- After the request the pump only moves between points where it heeds it. -/
theorem pumpStep_stopped {c : SessionConfig} {s t : HttpTsSession} {now : Instant}
    {input : PumpInput} (hs : StopOk s) (hrequested : s.stopRequested = true)
    (hok : StopHeeded s (.pump input now)) (h : s.pumpStep c now input = some t) :
    StoppedStep s t := by
  obtain ⟨hheeds, hstate⟩ := hs.requested hrequested
  have hpump := hok hrequested
  unfold HttpTsSession.pumpStep at h
  cases hpc : s.pump <;> rw [hpc] at hheeds h <;> try cases hheeds
  case primeInitial =>
    cases input <;> simp only [reduceCtorEq, Option.some.injEq] at h
    case packets packets =>
      split at h <;> cases h
      exact .of_core rfl hstate rfl rfl
    case fail =>
      subst h
      exact .of_core rfl hstate rfl rfl
  case pushInitial packets =>
    cases input <;> simp only [reduceCtorEq, Option.some.injEq] at h
    subst h
    have hclosed : s.core.ring.state.closed ≠ none := by
      simpa [pumpHeeds, hpc, Option.isSome_iff_ne_none] using hpump
    obtain ⟨hrefused, hcore⟩ := pushRing_of_closed hclosed packets now
    rw [pushPackets, if_neg (hs.initial packets hpc)]
    simp only [hrefused]
    exact .of_core rfl hstate rfl hcore
  case streaming =>
    cases input <;> simp only [reduceCtorEq, Option.some.injEq] at h
    case packets packets =>
      subst h
      unfold pushPackets
      split
      · exact .of_core rfl hstate rfl rfl
      · refine .of_push packets now ?_ hstate rfl rfl
        simp only [goto_pump]
        split <;> rfl
    case fail =>
      subst h
      exact .of_core rfl hstate rfl rfl
  case failed =>
    cases input <;> simp only [reduceCtorEq, Option.some.injEq] at h
    subst h
    refine .of_core ?_ hstate rfl rfl
    simp [isStopping, hstate, PumpPc.heedsStop]
  case checkViewers =>
    cases input <;> simp only [reduceCtorEq, Option.some.injEq] at h
    subst h
    have hviewers : s.hasViewers = false := by simpa [pumpHeeds, hpc] using hpump
    refine .of_core ?_ hstate rfl rfl
    simp [hviewers, PumpPc.heedsStop]
  case markStopping =>
    cases input <;> simp only [reduceCtorEq, Option.some.injEq] at h
    subst h
    exact .of_core rfl rfl rfl rfl
  case closeShutdown | closeExpired =>
    cases input <;> simp only [reduceCtorEq, Option.some.injEq] at h
    subst h
    exact .of_close rfl hstate rfl rfl
  case done => cases input <;> simp only [reduceCtorEq] at h

theorem keepaliveStep_pump {s t : HttpTsSession} {now : Instant}
    (h : s.keepaliveStep now = some t) : t.pump = s.pump := by
  unfold keepaliveStep at h
  split at h
  · cases h
  · cases h
    split <;> rfl
  · obtain rfl := Option.some.inj h
    simp only [pushRing_pump]

theorem keepaliveStep_stopped {s t : HttpTsSession} {now : Instant} (hs : StopOk s)
    (hrequested : s.stopRequested = true) (h : s.keepaliveStep now = some t) :
    StoppedStep s t := by
  obtain ⟨hheeds, hstate⟩ := hs.requested hrequested
  unfold keepaliveStep at h
  split at h
  · cases h
  · cases h
    split <;> exact .of_core hheeds hstate rfl rfl
  · rename_i generation target continuity aborted _
    obtain rfl := Option.some.inj h
    generalize nullPacket continuity = bytes
    exact .of_push bytes now hheeds hstate rfl rfl

/-- What a viewer's step leaves alone. -/
structure ViewerFrame (s t : HttpTsSession) : Prop where
  pump : t.pump = s.pump
  state : t.state = s.state
  requests : t.requests = s.requests
  stopRequested : t.stopRequested = s.stopRequested
  terminated : t.terminated = s.terminated
  ring : t.core.ring = s.core.ring
  log : t.core.log = s.core.log

theorem viewerStep_frame {c : SessionConfig} {s t : HttpTsSession} {i : Nat} {v : Viewer}
    {r : Reader} (h : s.viewerStep c i v r = some t) : ViewerFrame s t := by
  unfold viewerStep at h
  cases hv : v.phase <;> simp only [hv, Option.some.injEq] at h <;> subst h <;>
    exact ⟨rfl, rfl, rfl, rfl, rfl, rfl, rfl⟩

theorem step_viewerFrame {c : SessionConfig} {s t : HttpTsSession} {op : SessionOp}
    (hop : (∃ n, op = .subscribe n) ∨ (∃ i, op = .viewer i) ∨ ∃ i, op = .leave i)
    (h : s.step c op = some t) : ViewerFrame s t := by
  obtain ⟨n, rfl⟩ | ⟨i, rfl⟩ | ⟨i, rfl⟩ := hop
  · simp only [HttpTsSession.step] at h
    split at h <;> cases h
    exact ⟨rfl, rfl, rfl, rfl, rfl, rfl, rfl⟩
  · obtain ⟨v, -, hrest⟩ := Option.bind_eq_some_iff.mp h
    obtain ⟨r, -, hact⟩ := Option.bind_eq_some_iff.mp hrest
    exact viewerStep_frame hact
  · obtain ⟨v, -, hleave⟩ := Option.bind_eq_some_iff.mp h
    unfold HttpTsSession.leave at hleave
    split at hleave <;> cases hleave
    exact ⟨rfl, rfl, rfl, rfl, rfl, rfl, rfl⟩

theorem ViewerFrame.stopped {s t : HttpTsSession} (h : ViewerFrame s t) (hs : StopOk s)
    (hrequested : s.stopRequested = true) : StoppedStep s t := by
  obtain ⟨hheeds, hstate⟩ := hs.requested hrequested
  exact ⟨h.pump ▸ hheeds, h.state.trans hstate, h.requests, by rw [h.ring],
    fun hclosed => ⟨h.log, by rwa [h.ring]⟩⟩

/-- After the request, no step of anyone publishes once the ring is closed. -/
theorem step_stopped {c : SessionConfig} {s t : HttpTsSession} {op : SessionOp} (hs : StopOk s)
    (hrequested : s.stopRequested = true) (hok : StopHeeded s op) (h : s.step c op = some t) :
    StoppedStep s t := by
  obtain ⟨hheeds, hstate⟩ := hs.requested hrequested
  cases op with
  | pump input now => exact pumpStep_stopped hs hrequested hok h
  | keepalive now => exact keepaliveStep_stopped hs hrequested h
  | subscribe n => exact (step_viewerFrame (.inl ⟨n, rfl⟩) h).stopped hs hrequested
  | viewer i => exact (step_viewerFrame (.inr (.inl ⟨i, rfl⟩)) h).stopped hs hrequested
  | leave i => exact (step_viewerFrame (.inr (.inr ⟨i, rfl⟩)) h).stopped hs hrequested
  | terminate | release =>
    simp only [HttpTsSession.step] at h
    split at h <;> cases h
    exact .of_core hheeds rfl rfl rfl
  | close =>
    simp only [HttpTsSession.step] at h
    split at h <;> cases h
    exact .of_close hheeds hstate rfl rfl
  | abort =>
    simp only [HttpTsSession.step] at h
    split at h <;> cases h
    exact .of_core rfl hstate rfl rfl

theorem StopOk.keep {s t : HttpTsSession} (hs : StopOk s)
    (hinitial : ∀ packets, t.pump = .pushInitial packets → packets ≠ [])
    (hrequested : t.stopRequested = s.stopRequested) (hterminated : t.terminated = s.terminated)
    (hstep : s.stopRequested = true → StoppedStep s t) : StopOk t := by
  refine ⟨hinitial, fun hreq => ?_, fun hterm => ?_⟩
  · have hstopped := hstep (hrequested ▸ hreq)
    exact ⟨hstopped.heeds, hstopped.state⟩
  · obtain ⟨hreq, hclosed⟩ := hs.terminated (hterminated ▸ hterm)
    exact ⟨hrequested ▸ hreq, ((hstep hreq).closed hclosed).2⟩

theorem StopOk.step {c : SessionConfig} {s t : HttpTsSession} {op : SessionOp} (hs : StopOk s)
    (hok : StopHeeded s op) (h : s.step c op = some t) : StopOk t := by
  have hstopped := fun hrequested => step_stopped hs hrequested hok h
  cases op with
  | pump input now =>
    have hframe := pumpStep_frame h
    exact hs.keep (fun _ => pumpStep_pushInitial h) hframe.stopRequested hframe.terminated hstopped
  | keepalive now =>
    have hframe := keepaliveStep_frame h
    exact hs.keep (keepaliveStep_pump h ▸ hs.initial) hframe.stopRequested hframe.terminated
      hstopped
  | subscribe n =>
    have hframe := step_viewerFrame (.inl ⟨n, rfl⟩) h
    exact hs.keep (hframe.pump ▸ hs.initial) hframe.stopRequested hframe.terminated hstopped
  | viewer i =>
    have hframe := step_viewerFrame (.inr (.inl ⟨i, rfl⟩)) h
    exact hs.keep (hframe.pump ▸ hs.initial) hframe.stopRequested hframe.terminated hstopped
  | leave i =>
    have hframe := step_viewerFrame (.inr (.inr ⟨i, rfl⟩)) h
    exact hs.keep (hframe.pump ▸ hs.initial) hframe.stopRequested hframe.terminated hstopped
  | terminate =>
    simp only [HttpTsSession.step] at h
    split at h <;> cases h
    exact ⟨hs.initial, fun _ => ⟨hok, rfl⟩, fun hterm => ⟨rfl, (hs.terminated hterm).2⟩⟩
  | release =>
    simp only [HttpTsSession.step] at h
    split at h <;> cases h
    exact hs.keep hs.initial rfl rfl hstopped
  | close =>
    simp only [HttpTsSession.step] at h
    split at h <;> cases h
    exact ⟨hs.initial, hs.requested, fun hterm => ⟨hterm, closeRing_closed s .shutdown⟩⟩
  | abort =>
    simp only [HttpTsSession.step] at h
    split at h <;> cases h
    exact hs.keep (by simp) rfl rfl hstopped

theorem stopOk_of_reachable {c : SessionConfig} {s : HttpTsSession}
    (h : (sessionMachine c).ReachableWhere StopHeeded s) : StopOk s :=
  h.invariant ⟨by simp [sessionMachine], by simp [sessionMachine], by simp [sessionMachine]⟩
    (fun _ _ _ hs hok hstep => hs.step hok hstep)

theorem step_terminated {c : SessionConfig} {s t : HttpTsSession} {op : SessionOp} (hs : StopOk s)
    (h : s.step c op = some t) (hterm : s.terminated = true) : t.terminated = true := by
  cases op with
  | pump input now => exact (pumpStep_frame h).terminated.trans hterm
  | keepalive now => exact (keepaliveStep_frame h).terminated.trans hterm
  | subscribe n => exact (step_viewerFrame (.inl ⟨n, rfl⟩) h).terminated.trans hterm
  | viewer i => exact (step_viewerFrame (.inr (.inl ⟨i, rfl⟩)) h).terminated.trans hterm
  | leave i => exact (step_viewerFrame (.inr (.inr ⟨i, rfl⟩)) h).terminated.trans hterm
  | terminate | release | abort =>
    simp only [HttpTsSession.step] at h
    split at h <;> cases h
    exact hterm
  | close =>
    simp only [HttpTsSession.step] at h
    split at h <;> cases h
    exact (hs.terminated hterm).1

/-! ## Runs -/

/-- In a run where every stop is heeded, termination is final: nothing is published, no generation
starts, no request is opened, and the state stays. -/
theorem termination_final (c : SessionConfig) (s t : HttpTsSession)
    (hs : (sessionMachine c).ReachableWhere StopHeeded s) (hterm : s.terminated = true)
    (path : (sessionMachine c).LeadsWhere StopHeeded s t) : StaysStopped s t := by
  have hstart := stopOk_of_reachable hs
  refine (path.relates (R := fun u => StaysStopped s u ∧ u.terminated = true) hs
    ⟨⟨rfl, rfl, rfl, (hstart.requested (hstart.terminated hterm).1).2⟩, hterm⟩ ?_).1
  rintro u op w hu ⟨hsame, hterm⟩ hok hstep
  have huok := stopOk_of_reachable hu
  obtain ⟨hrequested, hclosed⟩ := huok.terminated hterm
  have hstopped := step_stopped huok hrequested hok hstep
  exact ⟨⟨(hstopped.closed hclosed).1.trans hsame.log, hstopped.generation.trans hsame.generation,
    hstopped.requests.trans hsame.requests, hstopped.state⟩, step_terminated huok hstep hterm⟩

/-- An operator stops a session that streams. -/
def stoppedRun : List SessionOp := List.append streamedRun [.terminate, .close]

theorem termination_final_streaming :
    ∃ s t, (sessionMachine smallSession).ReachableWhere StopHeeded s ∧ s.terminated = true ∧
      (sessionMachine smallSession).LeadsWhere StopHeeded s t ∧ t.pump = .done ∧
      StaysStopped s t := by
  obtain ⟨s, t, hs, hpath, hp⟩ := (sessionMachine smallSession).exists_leadsWhere_of_run
    StopHeeded (fun s op => StopHeeded s op) stoppedRun
    [.pump (.packets sampleVideo) 0, .pump .go 0]
    (fun s t => s.terminated && decide (t.pump = .done))
    (fun _ _ => of_decide_eq_true) (by decide +kernel)
  rw [Bool.and_eq_true, decide_eq_true_eq] at hp
  exact ⟨s, t, hs, hp.1, hpath, hp.2, termination_final smallSession s t hs hp.1 hpath⟩

/-- An operator stops a session in a recovery, before its request. -/
def stoppedInRecoveryRun : List SessionOp :=
  List.append (List.append streamedRun failedRun) [.pump .go 0, .pump .go 0, .terminate, .close]

/-- The recovery goes on: it opens a request, rotates the ring and publishes. -/
def resumedRun : List SessionOp :=
  [.pump .go 0, .pump .go 0, .pump .go 0, .pump .go 0, .pump (.packets (samplePat ++ samplePmt)) 0,
    .pump .go 0, .pump .go 0, .pump .go 0, .pump .go 0, .pump .go 0, .pump .go 0]

/-- Termination is not final in general. -/
theorem terminated_session_resumes :
    ∃ s t, (sessionMachine smallSession).Reachable s ∧
      (s.terminated = true ∧ s.state = .stopping ∧ s.core.ring.state.closed = some .shutdown) ∧
      (sessionMachine smallSession).LeadsWhere (fun _ _ => True) s t ∧
      t.requests = s.requests + 1 ∧
      t.core.ring.state.generation = s.core.ring.state.generation + 1 ∧
      s.core.log 1 = [] ∧ t.core.log 1 = [samplePat, samplePmt] ∧ t.state = .streaming := by
  obtain ⟨s, t, hs, hpath, hp⟩ := (sessionMachine smallSession).exists_leadsWhere_of_run
    (fun _ _ => True) (fun _ _ => true) stoppedInRecoveryRun resumedRun
    (fun s t => decide ((s.terminated = true ∧ s.state = .stopping ∧
      s.core.ring.state.closed = some .shutdown) ∧ t.requests = s.requests + 1 ∧
      t.core.ring.state.generation = s.core.ring.state.generation + 1 ∧
      s.core.log 1 = [] ∧ t.core.log 1 = [samplePat, samplePmt] ∧ t.state = .streaming))
    (fun _ _ _ => trivial) (by decide +kernel)
  obtain ⟨hterm, hrest⟩ := of_decide_eq_true hp
  exact ⟨s, t, hs, hterm, hpath, hrest⟩

end IptvRelay.Recovery
