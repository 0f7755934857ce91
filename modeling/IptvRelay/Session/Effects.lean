import IptvRelay.Session.Viewers

/-!
# What the tasks do to the ring

Every step of the pump, of the keepalive task and of a stop has one of the
effects listed in `TaskEffect`. The invariants of a session follow from these
effects and from the steps of the viewers.
-/

namespace IptvRelay.Recovery

open Blocks Media MpegTsRing HttpTsSession

/-! ## Null packets -/

/-- From `target` on, the log holds keepalive packets only. -/
def NullFrom (log : List Bytes) (target : Nat) : Prop :=
  ∀ q packet, target ≤ q → log[q]? = some packet → ∃ continuity, packet = nullPacket continuity

theorem length_nullPacket (continuity : UInt8) :
    (nullPacket continuity).length = mpegTsPacketSize := by
  simp only [nullPacket, List.length_cons, List.length_replicate]
  rfl

theorem chunksExact_nullPacket (continuity : UInt8) :
    chunksExact mpegTsPacketSize (nullPacket continuity) = [nullPacket continuity] :=
  chunksExact_of_length (by decide) (length_nullPacket continuity)

theorem nullFrom_length (log : List Bytes) : NullFrom log log.length := by
  intro q packet hq hget
  simp [List.getElem?_eq_none hq] at hget

theorem NullFrom.append {log : List Bytes} {target : Nat} (h : NullFrom log target)
    (continuity : UInt8) : NullFrom (log ++ [nullPacket continuity]) target := by
  intro q packet hq hget
  rcases Nat.lt_or_ge q log.length with hlt | hge
  · exact h q packet hq (by rwa [List.getElem?_append_left hlt] at hget)
  · rw [List.getElem?_append_right hge] at hget
    exact ⟨continuity, List.mem_singleton.mp (List.mem_of_getElem? hget)⟩

/-! ## Where the pump is -/

/-- The recovery that the pump is in, up to the rotation of the ring. -/
def PumpPc.recovery : PumpPc → Option RecoveryRun
  | .attempt run | .markAttempt run | .acquire run | .request run | .response run
  | .markPriming run | .prime run | .drain run _ | .finalNull run _ | .stopKeepalive run _
  | .rotate run _ => some run
  | .start | .primeInitial | .pushInitial _ | .markStreaming | .streaming | .failed
  | .checkViewers | .markStopping | .closeShutdown | .recover | .pushPrimed _ _ | .markFailed
  | .closeExpired | .done => none

/-- The drain loop has ended, and no media will be pushed before the ring rotates. -/
def PumpPc.rotating : PumpPc → Bool
  | .finalNull .. | .stopKeepalive .. | .rotate .. | .markFailed | .closeExpired | .done => true
  | _ => false

/-! ## Pushing -/

@[simp] theorem goto_core (s : HttpTsSession) (pc : PumpPc) : (s.goto pc).core = s.core := rfl
@[simp] theorem goto_drained (s : HttpTsSession) (pc : PumpPc) :
    (s.goto pc).drained = s.drained := rfl
@[simp] theorem goto_pump (s : HttpTsSession) (pc : PumpPc) : (s.goto pc).pump = pc := rfl

@[simp] theorem pushRing_drained (s : HttpTsSession) (bytes : Bytes) (now : Instant) :
    (s.pushRing bytes now).drained = s.drained := rfl
@[simp] theorem pushRing_pump (s : HttpTsSession) (bytes : Bytes) (now : Instant) :
    (s.pushRing bytes now).pump = s.pump := rfl
@[simp] theorem pushRing_readers (s : HttpTsSession) (bytes : Bytes) (now : Instant) :
    (s.pushRing bytes now).core.readers = s.core.readers := rfl

/-- A push to the ring is refused, or it appends its packets to the log of the generation. -/
theorem pushRing_cases (s : HttpTsSession) (bytes : Bytes) (now : Instant) :
    (s.accepts bytes now = false ∧ (s.pushRing bytes now).core = s.core) ∨
      (s.accepts bytes now = true ∧ s.core.ring.state.closed = none ∧
        (s.pushRing bytes now).core.ring.state.generation = s.core.ring.state.generation ∧
        (s.pushRing bytes now).core.log = Function.update s.core.log s.core.ring.state.generation
          (s.core.log s.core.ring.state.generation ++ chunksExact mpegTsPacketSize bytes)) := by
  unfold HttpTsSession.accepts HttpTsSession.pushRing
  rcases push_cases s.core.ring bytes now with
    ⟨error, herror⟩ | ⟨hopen, -, -, -, hstate, outcome, hok, hgen, -⟩
  · rw [herror]
    exact .inl ⟨rfl, rfl⟩
  · rw [hok]
    refine .inr ⟨rfl, hopen, ?_, ?_⟩
    · simp only [hstate]
      simp [RingState.settle, foldl_pushPacket_generation]
    · simp only [RingSystem.logPush, hgen]

/-! ## Effects -/

/-- What a step that is not a viewer's can do. -/
inductive TaskEffect (s t : HttpTsSession) : Prop where
  | quiet (core : t.core = s.core) (drained : t.drained = s.drained)
      (run : ∀ run, t.pump.recovery = some run → ∃ run₀, s.pump.recovery = some run₀ ∧
        run₀.generation = run.generation ∧ run₀.target = run.target)
      (rotating : s.pump.rotating = true → t.pump.rotating = true)
  | snapshot (core : t.core = s.core) (drained : t.drained = s.drained)
      (run : t.pump.recovery =
        some ⟨s.core.ring.state.generation, s.core.ring.state.nextSequence, 0⟩)
      (before : s.pump.rotating = false)
  | media (bytes : Bytes) (now : Instant) (core : t.core = (s.pushRing bytes now).core)
      (drained : t.drained = s.drained) (run : t.pump.recovery = none)
      (before : s.pump.rotating = false)
  | null (continuity : UInt8) (now : Instant)
      (core : t.core = (s.pushRing (nullPacket continuity) now).core)
      (drained : t.drained = s.drained) (run : t.pump.recovery = s.pump.recovery)
      (rotating : t.pump.rotating = s.pump.rotating)
  | closed (reason : RingCloseReason) (core : t.core = (s.closeRing reason).core)
      (drained : t.drained = s.drained) (run : ∀ run, t.pump.recovery = some run →
        s.pump.recovery = some run)
      (rotating : s.pump.rotating = true → t.pump.rotating = true)
  | rotated (generation : Nat) (ok : s.core.ring.startNewGeneration.2 = .ok generation)
      (core : t.core = { s.core with ring := s.core.ring.startNewGeneration.1 })
      (drained : t.drained = s.drained) (run : t.pump.recovery = none)
  | finished (run : RecoveryRun) (primed : Bytes) (before : s.pump.recovery = some run)
      (all : s.viewersDrained run.generation run.target = true) (eq : t = s.finishDrain run primed)

theorem TaskEffect.expire {s : HttpTsSession} : TaskEffect s s.expire :=
  .quiet rfl rfl (by simp [HttpTsSession.expire, PumpPc.recovery]) (fun _ => rfl)

/-- A move of the pump within its recovery, or to a point where it has none. -/
theorem TaskEffect.moved {s t : HttpTsSession} (core : t.core = s.core)
    (drained : t.drained = s.drained) (rotating : s.pump.rotating = true → t.pump.rotating = true)
    (run : t.pump.recovery = none ∨ t.pump.recovery = s.pump.recovery) : TaskEffect s t := by
  refine .quiet core drained (fun run₁ hrun => ?_) rotating
  rcases run with hnone | hsame
  · simp [hnone] at hrun
  · exact ⟨run₁, hsame ▸ hrun, rfl, rfl⟩

/-- A failed attempt keeps the drain snapshot. -/
theorem TaskEffect.retry {s : HttpTsSession} {run : RecoveryRun}
    (hrun : s.pump.recovery = some run) (hbefore : s.pump.rotating = false) :
    TaskEffect s (s.retry run) := by
  refine .quiet rfl rfl (fun run₁ hrun₁ => ?_) (by simp [hbefore])
  obtain rfl := Option.some.inj hrun₁
  exact ⟨run, hrun, rfl, rfl⟩

theorem TaskEffect.pushed {s t : HttpTsSession} (bytes : Bytes) (now : Instant)
    (core : t.core = (s.pushPackets bytes now).1.core) (drained : t.drained = s.drained)
    (before : s.pump.rotating = false) (run : t.pump.recovery = none) : TaskEffect s t := by
  unfold HttpTsSession.pushPackets at core
  split at core
  · exact .moved core drained (by simp [before]) (.inl run)
  · exact .media bytes now core drained run before

theorem pushPackets_drained (s : HttpTsSession) (bytes : Bytes) (now : Instant) :
    (s.pushPackets bytes now).1.drained = s.drained := by
  unfold HttpTsSession.pushPackets
  split <;> rfl

theorem pumpStep_effect {c : SessionConfig} {s t : HttpTsSession} {now : Instant}
    {input : PumpInput} (h : s.pumpStep c now input = some t) : TaskEffect s t := by
  unfold HttpTsSession.pumpStep at h
  cases hpc : s.pump <;> rw [hpc] at h <;> cases input <;>
    simp only [reduceCtorEq, Option.some.injEq] at h
  case pushInitial.go packets | streaming.packets packets =>
    subst h
    refine .pushed packets now rfl (pushPackets_drained _ _ _)
      (by rw [hpc]; rfl) ?_
    simp only [goto_pump]
    split <;> rfl
  case pushPrimed.go endpoint primed =>
    subst h
    refine .pushed primed now ?_ ?_ (by rw [hpc]; rfl) ?_
    · split <;> rfl
    · split <;> exact pushPackets_drained _ _ _
    · split <;> rfl
  case closeShutdown.go | closeExpired.go =>
    subst h
    exact .closed _ rfl rfl (by simp [PumpPc.recovery]) (fun _ => rfl)
  case recover.go =>
    subst h
    split
    · exact .snapshot rfl rfl rfl (by rw [hpc]; rfl)
    · exact .expire
  case attempt.expire run =>
    subst h
    exact .expire
  case acquire.fail run | response.fail run | prime.fail run =>
    subst h
    exact .retry (by rw [hpc]; rfl) (by rw [hpc]; rfl)
  case primeInitial.packets packets | prime.packets run packets =>
    split at h
    · cases h
    · cases h
      exact .moved rfl rfl (by simp [hpc, PumpPc.rotating]) (by simp [hpc, PumpPc.recovery])
  case attempt.go run =>
    subst h
    split
    · exact .moved rfl rfl (by simp [hpc, PumpPc.rotating]) (by simp [hpc, PumpPc.recovery])
    · exact .expire
  case drain.go run primed =>
    subst h
    split
    · rename_i hall
      exact .finished run primed (by rw [hpc]; rfl) hall rfl
    · exact .moved rfl rfl id (.inr rfl)
  case drain.expire run primed =>
    subst h
    split
    · rename_i hall
      exact .finished run primed (by rw [hpc]; rfl) hall rfl
    · exact .expire
  case finalNull.go run primed =>
    subst h
    exact .null 0 now (goto_core _ _) (by simp) (by rw [hpc]; rfl) (by rw [hpc]; rfl)
  case stopKeepalive.go run primed =>
    unfold HttpTsSession.stopKeepalive at h
    split at h
    · cases h
    · cases h
      exact .moved rfl rfl (fun _ => rfl) (.inr (by rw [hpc]; rfl))
    · cases h
      exact .moved rfl rfl (fun _ => rfl) (.inr (by rw [hpc]; rfl))
  case rotate.go run primed =>
    subst h
    unfold HttpTsSession.rotate
    split
    · exact .expire
    · rename_i generation hok
      exact .rotated generation hok rfl rfl rfl
  case failed.go | checkViewers.go =>
    subst h
    refine .moved rfl rfl (by simp [hpc, PumpPc.rotating]) (.inl ?_)
    simp only [goto_pump]
    split <;> rfl
  case markFailed.go =>
    subst h
    exact .moved rfl rfl (fun _ => rfl) (.inl rfl)
  all_goals
    subst h
    exact .moved rfl rfl (by simp [hpc, PumpPc.rotating])
      (by simp [hpc, PumpPc.recovery, HttpTsSession.markAttempt])

theorem keepaliveStep_effect {s t : HttpTsSession} {now : Instant}
    (h : s.keepaliveStep now = some t) : TaskEffect s t := by
  unfold keepaliveStep at h
  split at h
  · cases h
  · cases h
    split <;> exact .moved rfl rfl id (.inr rfl)
  · rename_i generation target continuity aborted _
    obtain rfl := Option.some.inj h
    exact .null continuity now rfl (by simp only [pushRing_drained])
      (by simp only [pushRing_pump]) (by simp only [pushRing_pump])

/-- What the pump and the keepalive task leave alone. -/
structure TaskFrame (s t : HttpTsSession) : Prop where
  viewers : t.viewers = s.viewers
  stopRequested : t.stopRequested = s.stopRequested
  terminated : t.terminated = s.terminated

theorem TaskFrame.goto {s t : HttpTsSession} (h : TaskFrame s t) (pc : PumpPc) :
    TaskFrame s (t.goto pc) := ⟨h.viewers, h.stopRequested, h.terminated⟩

theorem pushRing_frame (s : HttpTsSession) (bytes : Bytes) (now : Instant) :
    TaskFrame s (s.pushRing bytes now) := ⟨rfl, rfl, rfl⟩

theorem pushPackets_frame (s : HttpTsSession) (bytes : Bytes) (now : Instant) :
    TaskFrame s (s.pushPackets bytes now).1 := by
  unfold HttpTsSession.pushPackets
  split
  · exact ⟨rfl, rfl, rfl⟩
  · exact pushRing_frame s bytes now

theorem pumpStep_frame {c : SessionConfig} {s t : HttpTsSession} {now : Instant}
    {input : PumpInput} (h : s.pumpStep c now input = some t) : TaskFrame s t := by
  unfold HttpTsSession.pumpStep at h
  cases hpc : s.pump <;> rw [hpc] at h <;> cases input <;>
    simp only [reduceCtorEq, Option.some.injEq] at h
  case pushInitial.go packets | streaming.packets packets =>
    subst h
    exact (pushPackets_frame s packets now).goto _
  case pushPrimed.go endpoint primed =>
    subst h
    obtain ⟨hviewers, hrequested, hterminated⟩ := pushPackets_frame s primed now
    split <;> exact ⟨hviewers, hrequested, hterminated⟩
  case finalNull.go =>
    subst h
    exact (pushRing_frame s (nullPacket 0) now).goto _
  case stopKeepalive.go =>
    unfold HttpTsSession.stopKeepalive at h
    split at h <;> cases h <;> exact ⟨rfl, rfl, rfl⟩
  case rotate.go =>
    subst h
    unfold HttpTsSession.rotate
    split <;> exact ⟨rfl, rfl, rfl⟩
  case primeInitial.packets | prime.packets =>
    split at h <;> cases h
    exact ⟨rfl, rfl, rfl⟩
  case recover.go | attempt.go | drain.go | drain.expire =>
    subst h
    split <;> exact ⟨rfl, rfl, rfl⟩
  all_goals
    subst h
    exact ⟨rfl, rfl, rfl⟩

theorem keepaliveStep_frame {s t : HttpTsSession} {now : Instant}
    (h : s.keepaliveStep now = some t) : TaskFrame s t := by
  unfold keepaliveStep at h
  split at h
  · cases h
  · cases h
    split <;> exact ⟨rfl, rfl, rfl⟩
  · rename_i generation target continuity aborted _
    obtain rfl := Option.some.inj h
    have hframe := pushRing_frame s (nullPacket continuity) now
    generalize s.pushRing (nullPacket continuity) now = pushed at hframe ⊢
    exact ⟨hframe.viewers, hframe.stopRequested, hframe.terminated⟩

theorem TaskEffect.readers {s t : HttpTsSession} (h : TaskEffect s t) :
    t.core.readers = s.core.readers := by
  cases h with
  | quiet core | snapshot core => rw [core]
  | media _ _ core | null _ _ core => rw [core, pushRing_readers]
  | closed _ core =>
    rw [core]
    rfl
  | rotated _ _ core => rw [core]
  | finished _ _ _ _ eq =>
    rw [eq]
    rfl

end IptvRelay.Recovery
