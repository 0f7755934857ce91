import IptvRelay.Session.Effects

/-!
# Recovery of a session

The invariant of a running session, and what it says about a recovery: when the
drain loop can end, and what the viewers get before the ring rotates.
-/

namespace IptvRelay.Recovery

open Blocks Transition Media MpegTsRing HttpTsSession

/-! ## The invariant -/

/-- From the drain target on, the current generation got keepalive packets only. -/
structure RunOk (s : HttpTsSession) (run : RecoveryRun) : Prop where
  generation : run.generation = s.core.ring.state.generation
  target : run.target ≤ (s.core.log run.generation).length
  nulls : NullFrom (s.core.log run.generation) run.target

/-- The same of a drain loop that has ended, and what its viewers have read. -/
structure DrainOk (s : HttpTsSession) (d : Drain) : Prop where
  generation : d.generation ≤ s.core.ring.state.generation
  rotating : d.generation = s.core.ring.state.generation → s.pump.rotating = true
  nulls : NullFrom (s.core.log d.generation) d.target
  known : ∀ i ∈ d.viewers, i < s.core.readers.length
  readers : ∀ i ∈ d.viewers, ∀ r, s.core.readers[i]? = some r →
    DrainedOk d.generation d.target r.cursor r.received

structure SessionOk (c : SessionConfig) (s : HttpTsSession) : Prop where
  core : SystemOk c.ring s.core
  aligned : s.viewers.length = s.core.readers.length
  viewers : ∀ (i : Nat) v r, s.viewers[i]? = some v → s.core.readers[i]? = some r →
    ViewerOk s.core.ring v r
  recovery : ∀ run, s.pump.recovery = some run → RunOk s run
  drained : ∀ d ∈ s.drained, DrainOk s d

/-! ## Steps of the tasks -/

theorem TaskEffect.systemOk {config : MpegTsRingConfig} {s t : HttpTsSession} (h : TaskEffect s t)
    (hs : SystemOk config s.core) : SystemOk config t.core := by
  cases h with
  | quiet core | snapshot core => rwa [core]
  | media bytes now core => exact hs.step (.push bytes now) (by rw [core]; rfl)
  | null continuity now core =>
    exact hs.step (.push (nullPacket continuity) now) (by rw [core]; rfl)
  | closed reason core => exact hs.step (.close reason) (by rw [core]; rfl)
  | rotated generation ok core => exact hs.step .startNewGeneration (by rw [core]; rfl)
  | finished run primed before all eq =>
    rw [eq]
    exact hs

theorem pushRing_log_grows (s : HttpTsSession) (bytes : Bytes) (now : Instant) (g : Nat) :
    s.core.log g <+: (s.pushRing bytes now).core.log g := by
  rcases pushRing_cases s bytes now with ⟨-, hsame⟩ | ⟨-, -, -, hlog⟩
  · rw [hsame]
  · rw [hlog]
    exact update_append_isPrefix _ _ _ _

/-- A keepalive packet keeps the generation, and media never follows it. -/
theorem pushRing_null (s : HttpTsSession) (continuity : UInt8) (now : Instant) :
    (s.pushRing (nullPacket continuity) now).core.ring.state.generation =
        s.core.ring.state.generation ∧
      ∀ g target, NullFrom (s.core.log g) target →
        NullFrom ((s.pushRing (nullPacket continuity) now).core.log g) target := by
  rcases pushRing_cases s (nullPacket continuity) now with ⟨-, hsame⟩ | ⟨-, -, hgen, hlog⟩
  · rw [hsame]
    exact ⟨rfl, fun _ _ h => h⟩
  · refine ⟨hgen, fun g target h => ?_⟩
    rw [hlog, chunksExact_nullPacket]
    by_cases hg : g = s.core.ring.state.generation
    · subst hg
      rw [Function.update_self]
      exact h.append continuity
    · rwa [Function.update_of_ne hg]

theorem TaskEffect.generation_le {s t : HttpTsSession} (h : TaskEffect s t) :
    s.core.ring.state.generation ≤ t.core.ring.state.generation := by
  cases h with
  | quiet core | snapshot core => rw [core]
  | media bytes now core =>
    rw [core]
    rcases pushRing_cases s bytes now with ⟨-, hsame⟩ | ⟨-, -, hgen, -⟩
    · rw [hsame]
    · rw [hgen]
  | null continuity now core => rw [core, (pushRing_null s continuity now).1]
  | closed reason core =>
    rw [core, closeRing, close_eq]
  | rotated generation ok core =>
    rw [core]
    unfold MpegTsRing.startNewGeneration at ok ⊢
    split
    · exact Nat.le_succ _
    · exact le_rfl
  | finished run primed before all eq =>
    rw [eq]
    rfl

theorem RunOk.keep {s t : HttpTsSession} {run run₀ : RecoveryRun} (h : RunOk s run₀)
    (core : t.core = s.core) (hgen : run₀.generation = run.generation)
    (htarget : run₀.target = run.target) : RunOk t run := by
  refine ⟨?_, ?_, ?_⟩ <;> rw [core]
  · exact hgen ▸ h.generation
  · exact hgen ▸ htarget ▸ h.target
  · exact hgen ▸ htarget ▸ h.nulls

theorem TaskEffect.runOk {c : SessionConfig} {s t : HttpTsSession} (h : SessionOk c s)
    (heffect : TaskEffect s t) (run : RecoveryRun) (hrun : t.pump.recovery = some run) :
    RunOk t run := by
  cases heffect with
  | quiet core drained hsame rotating =>
    obtain ⟨run₀, hrun₀, hgen, htarget⟩ := hsame run hrun
    exact (h.recovery run₀ hrun₀).keep core hgen htarget
  | snapshot core drained hnew before =>
    obtain rfl := Option.some.inj (hnew.symm.trans hrun)
    refine ⟨?_, ?_, ?_⟩ <;> rw [core]
    · exact h.core.ring.next.le
    · rw [h.core.ring.next]
      exact nullFrom_length _
  | media bytes now core drained hnone before => simp [hnone] at hrun
  | null continuity now core drained hsame rotating =>
    have hold := h.recovery run (hsame ▸ hrun)
    obtain ⟨hgen, hnulls⟩ := pushRing_null s continuity now
    refine ⟨?_, ?_, ?_⟩ <;> rw [core]
    · rw [hgen, hold.generation]
    · exact hold.target.trans (pushRing_log_grows _ _ _ _).length_le
    · exact hnulls _ _ hold.nulls
  | closed reason core drained hsame rotating =>
    have hold := h.recovery run (hsame run hrun)
    refine ⟨?_, ?_, ?_⟩ <;> rw [core, closeRing, close_eq]
    exacts [hold.generation, hold.target, hold.nulls]
  | rotated generation ok core drained hnone => simp [hnone] at hrun
  | finished run₀ primed before all eq =>
    subst eq
    obtain rfl := Option.some.inj hrun
    exact (h.recovery _ before).keep rfl rfl rfl

theorem DrainOk.mono {s t : HttpTsSession} {d : Drain} (h : DrainOk s d)
    (hgen : s.core.ring.state.generation ≤ t.core.ring.state.generation)
    (hrotating : d.generation = t.core.ring.state.generation → t.pump.rotating = true)
    (hnulls : NullFrom (t.core.log d.generation) d.target)
    (hreaders : t.core.readers = s.core.readers) : DrainOk t d :=
  ⟨h.generation.trans hgen, hrotating, hnulls, hreaders ▸ h.known, hreaders ▸ h.readers⟩

/-- The viewers of a drain loop that ends now have read up to its target. -/
theorem drainOk_finishDrain {c : SessionConfig} {s : HttpTsSession} (h : SessionOk c s)
    {run : RecoveryRun} (hrun : s.pump.recovery = some run)
    (hall : s.viewersDrained run.generation run.target = true) (primed : Bytes) :
    DrainOk (s.finishDrain run primed) ⟨run.generation, run.target, s.registeredViewers⟩ := by
  have hok := h.recovery run hrun
  have hregistered : ∀ i ∈ s.registeredViewers, ∃ v p, s.viewers[i]? = some v ∧
      v.position = some p := by
    intro i hi
    obtain ⟨-, hany⟩ := List.mem_filter.mp hi
    obtain ⟨v, hv, hsome⟩ := (Option.any_eq_true _ _).mp hany
    obtain ⟨p, hp⟩ := Option.isSome_iff_exists.mp hsome
    exact ⟨v, p, hv, hp⟩
  refine ⟨hok.generation.le, fun _ => rfl, hok.nulls, fun i hi => ?_, fun i hi r hr => ?_⟩
  · obtain ⟨v, p, hv, -⟩ := hregistered i hi
    obtain ⟨hlt, -⟩ := List.getElem?_eq_some_iff.mp hv
    exact h.aligned ▸ hlt
  · obtain ⟨v, p, hv, hp⟩ := hregistered i hi
    have hpast := List.all_eq_true.mp hall v (List.mem_of_getElem? hv)
    simp only [hp, Option.all_some, decide_eq_true_eq, hok.generation] at hpast
    simp only [hok.generation]
    exact (h.viewers i v r hv hr).drained hp hpast

theorem TaskEffect.drainOk {c : SessionConfig} {s t : HttpTsSession} (h : SessionOk c s)
    (heffect : TaskEffect s t) (d : Drain) (hd : d ∈ t.drained) : DrainOk t d := by
  have hreaders := heffect.readers
  have hle := heffect.generation_le
  cases heffect with
  | quiet core drained run rotating =>
    have hold := h.drained d (drained ▸ hd)
    exact hold.mono hle (fun hgen => rotating (hold.rotating (core ▸ hgen))) (core ▸ hold.nulls)
      hreaders
  | snapshot core drained run before =>
    have hold := h.drained d (drained ▸ hd)
    refine hold.mono hle (fun hgen => ?_) (core ▸ hold.nulls) hreaders
    have := hold.rotating (core ▸ hgen)
    simp [before] at this
  | media bytes now core drained run before =>
    -- Media goes into the current generation, and an ended drain loop is about an older one.
    have hold := h.drained d (drained ▸ hd)
    have hold_ne : d.generation ≠ s.core.ring.state.generation := fun hgen => by
      have := hold.rotating hgen
      simp [before] at this
    have hgen_le := hold.generation
    refine hold.mono hle (fun hgen => by omega) ?_ hreaders
    rw [core]
    rcases pushRing_cases s bytes now with ⟨-, hsame⟩ | ⟨-, -, -, hlog⟩
    · exact hsame ▸ hold.nulls
    · rw [hlog, Function.update_of_ne hold_ne]
      exact hold.nulls
  | null continuity now core drained run rotating =>
    have hold := h.drained d (drained ▸ hd)
    obtain ⟨hsame, hnulls⟩ := pushRing_null s continuity now
    refine hold.mono hle (fun hgen => ?_) ?_ hreaders
    · rw [core, hsame] at hgen
      exact rotating ▸ hold.rotating hgen
    · rw [core]
      exact hnulls _ _ hold.nulls
  | closed reason core drained run rotating =>
    have hold := h.drained d (drained ▸ hd)
    refine hold.mono hle (fun hgen => ?_) (core ▸ hold.nulls) hreaders
    rw [core, closeRing, close_eq] at hgen
    exact rotating (hold.rotating hgen)
  | rotated generation ok core drained run =>
    have hold := h.drained d (drained ▸ hd)
    have hgen_le := hold.generation
    refine hold.mono hle (fun hgen => ?_) (core ▸ hold.nulls) hreaders
    rw [core, (h.core.ring.startNewGeneration ok).2] at hgen
    omega
  | finished run primed before all eq =>
    subst eq
    rcases List.mem_append.mp hd with hd | hd
    · have hold := h.drained d hd
      exact hold.mono hle (fun _ => rfl) hold.nulls hreaders
    · rw [List.mem_singleton.mp hd]
      exact drainOk_finishDrain h before all primed

/-- A step of a task keeps the session in order. -/
theorem SessionOk.task {c : SessionConfig} {s t : HttpTsSession} (h : SessionOk c s)
    (heffect : TaskEffect s t) (hviewers : t.viewers = s.viewers) : SessionOk c t := by
  have hreaders := heffect.readers
  refine ⟨heffect.systemOk h.core, ?_, fun i v r hv hr => ?_, heffect.runOk h, heffect.drainOk h⟩
  · rw [hviewers, hreaders, h.aligned]
  · rw [hviewers] at hv
    rw [hreaders] at hr
    exact (h.viewers i v r hv hr).mono heffect.generation_le

/-! ## Steps of the viewers -/

theorem SessionOk.viewer {c : SessionConfig} {s t : HttpTsSession} (h : SessionOk c s) {i : Nat}
    {v : Viewer} {r : Reader} (hv : s.viewers[i]? = some v) (hr : s.core.readers[i]? = some r)
    (hstep : s.viewerStep c i v r = some t) : SessionOk c t := by
  have hring := h.core.ring
  have hreader := h.core.readers r (List.mem_of_getElem? hr)
  have hinside : r.cursor.generation = s.core.ring.state.generation →
      r.cursor.nextSequence ≤ s.core.ring.state.nextSequence := fun hgen => by
    rw [hring.next, ← hgen]
    exact hreader.cursor.inside
  obtain ⟨v', r', rfl, hok, hr'⟩ := (h.viewers i v r hv hr).act hring hinside hr hstep
  have hbehind := (h.viewers i v r hv hr).behind
  have hlt : i < s.core.readers.length := (List.getElem?_eq_some_iff.mp hr).1
  refine ⟨⟨h.core.config, hring, h.core.future, fun r₁ hr₁ => ?_⟩, ?_, ?_, ?_, ?_⟩
  · rcases List.mem_or_eq_of_mem_set hr₁ with hr₁ | rfl
    · exact h.core.readers r₁ hr₁
    · rcases hr' with rfl | rfl
      · exact hreader
      · exact hreader.receive hring _
  · simpa using h.aligned
  · intro j v₁ r₁ hv₁ hr₁
    simp only [List.getElem?_set] at hv₁ hr₁
    by_cases hij : i = j
    · subst hij
      rw [if_pos rfl, if_pos hlt] at hr₁
      rw [if_pos rfl, if_pos (h.aligned ▸ hlt)] at hv₁
      cases hr₁
      cases hv₁
      exact hok
    · rw [if_neg hij] at hv₁ hr₁
      exact h.viewers j v₁ r₁ hv₁ hr₁
  · intro run hrun
    have hold := h.recovery run hrun
    exact ⟨hold.generation, hold.target, hold.nulls⟩
  · intro d hd
    have hold := h.drained d hd
    refine ⟨hold.generation, hold.rotating, hold.nulls, by simpa using hold.known, ?_⟩
    intro j hj r₁ hr₁
    simp only [List.getElem?_set] at hr₁
    by_cases hij : i = j
    · subst hij
      rw [if_pos rfl, if_pos hlt] at hr₁
      cases hr₁
      rcases hr' with rfl | rfl
      · exact hold.readers i hj _ hr
      · rw [receive_eq]
        exact (hold.readers i hj r hr).read hbehind (tryNext_case hring hinside _)
    · rw [if_neg hij] at hr₁
      exact hold.readers j hj r₁ hr₁

theorem SessionOk.leave {c : SessionConfig} {s t : HttpTsSession} (h : SessionOk c s) {i : Nat}
    {v : Viewer} (hv : s.viewers[i]? = some v) (hstep : s.leave i v = some t) : SessionOk c t := by
  unfold HttpTsSession.leave at hstep
  split at hstep
  · cases hstep
  · cases hstep
    have hlt : i < s.viewers.length := (List.getElem?_eq_some_iff.mp hv).1
    refine ⟨h.core, by simpa [setViewer] using h.aligned, ?_, ?_, ?_⟩
    · intro j v₁ r₁ hv₁ hr₁
      simp only [setViewer, List.getElem?_set] at hv₁
      by_cases hij : i = j
      · subst hij
        rw [if_pos rfl, if_pos hlt] at hv₁
        cases hv₁
        exact (h.viewers i v r₁ hv hr₁).leave
      · rw [if_neg hij] at hv₁
        exact h.viewers j v₁ r₁ hv₁ hr₁
    · intro run hrun
      have hold := h.recovery run hrun
      exact ⟨hold.generation, hold.target, hold.nulls⟩
    · intro d hd
      have hold := h.drained d hd
      exact hold.mono le_rfl hold.rotating hold.nulls rfl

theorem SessionOk.subscribe {c : SessionConfig} {s : HttpTsSession} (h : SessionOk c s)
    (preRollPackets : Nat) : SessionOk c (s.subscribe preRollPackets) := by
  refine ⟨h.core.step (.subscribe preRollPackets) rfl, ?_, ?_, ?_, ?_⟩
  · simp [HttpTsSession.subscribe, h.aligned]
  · intro i v r hv hr
    simp only [HttpTsSession.subscribe, List.getElem?_append, h.aligned] at hv hr
    split at hv
    · rename_i hlt
      rw [if_pos hlt] at hr
      exact h.viewers i v r hv hr
    · rename_i hge
      rw [if_neg hge] at hr
      obtain rfl := List.mem_singleton.mp (List.mem_of_getElem? hv)
      obtain rfl := List.mem_singleton.mp (List.mem_of_getElem? hr)
      exact viewerOk_subscribe s.core.ring preRollPackets
  · intro run hrun
    have hold := h.recovery run hrun
    exact ⟨hold.generation, hold.target, hold.nulls⟩
  · intro d hd
    have hold := h.drained d hd
    have hlength : (s.subscribe preRollPackets).core.readers.length =
        s.core.readers.length + 1 := by simp [HttpTsSession.subscribe]
    refine ⟨hold.generation, hold.rotating, hold.nulls,
      fun i hi => by have := hold.known i hi; omega, fun i hi r hr => ?_⟩
    simp only [HttpTsSession.subscribe, List.getElem?_append_left (hold.known i hi)] at hr
    exact hold.readers i hi r hr

/-! ## Runs -/

theorem SessionOk.step {c : SessionConfig} {s t : HttpTsSession} {op : SessionOp}
    (h : SessionOk c s) (hstep : s.step c op = some t) : SessionOk c t := by
  cases op with
  | pump input now => exact h.task (pumpStep_effect hstep) (pumpStep_frame hstep).viewers
  | keepalive now => exact h.task (keepaliveStep_effect hstep) (keepaliveStep_frame hstep).viewers
  | subscribe preRollPackets =>
    simp only [HttpTsSession.step] at hstep
    split at hstep
    · cases hstep
    · cases hstep
      exact h.subscribe preRollPackets
  | viewer i =>
    obtain ⟨v, hv, hrest⟩ := Option.bind_eq_some_iff.mp hstep
    obtain ⟨r, hr, hact⟩ := Option.bind_eq_some_iff.mp hrest
    exact h.viewer hv hr hact
  | leave i =>
    obtain ⟨v, hv, hleave⟩ := Option.bind_eq_some_iff.mp hstep
    exact h.leave hv hleave
  | terminate | release =>
    simp only [HttpTsSession.step] at hstep
    split at hstep
    · cases hstep
    · cases hstep
      exact h.task (.moved rfl rfl id (.inr rfl)) rfl
  | close =>
    simp only [HttpTsSession.step] at hstep
    split at hstep
    · cases hstep
    · cases hstep
      exact h.task (.closed .shutdown rfl rfl (fun _ => id) id) rfl
  | abort =>
    simp only [HttpTsSession.step] at hstep
    split at hstep
    · cases hstep
      exact h.task (.moved rfl rfl (fun _ => rfl) (.inl rfl)) rfl
    · cases hstep

/-- The session stays in order over every run. -/
theorem sessionOk_of_reachable {c : SessionConfig} {s : HttpTsSession}
    (h : (sessionMachine c).Reachable s) : SessionOk c s :=
  h.invariant
    ⟨systemOk_of_reachable .start, rfl, by simp [sessionMachine],
      by simp [sessionMachine, PumpPc.recovery], by simp [sessionMachine]⟩
    (fun _ _ _ hs _ hstep => hs.step hstep)

/-! ## When a drain loop can end -/

/-- The registered viewers with their readers. -/
def HttpTsSession.registered (s : HttpTsSession) : List (Viewer × Reader) :=
  (s.viewers.zip s.core.readers).filter fun entry => entry.1.position.isSome

/-- `try_next` of a cursor in this generation finds an open live edge. -/
def HttpTsSession.nothingLeft (c : SessionConfig) (s : HttpTsSession) (generation : Nat)
    (entry : Viewer × Reader) : Bool :=
  decide (entry.2.cursor.generation = generation) &&
    match (entry.2.cursor.tryNext s.core.ring c.viewerBatchPackets).2 with
    | .ok none => true
    | _ => false

/-- The viewer is not between a read and its update, nor about to drop its registration. -/
def Viewer.reported (v : Viewer) : Bool :=
  match v.phase with
  | .reading | .yielding _ => true
  | .registering | .holding _ | .lagged | .crossing _ | .ended => false

/-- What does not rule out that the published position of a viewer is at the target. -/
def Viewer.MayBeDrained (v : Viewer) (cursor : RingCursor) (target : Nat) : Prop :=
  match v.phase with
  | .reading | .yielding _ => cursor.waitingForSafeBoundary = true → target ≤ v.parked
  | .holding batch => target ≤ batch.firstSequence
  | .crossing _ => False
  | .registering | .lagged | .ended => True

theorem mem_registered {s : HttpTsSession} {v : Viewer} {r : Reader} :
    (v, r) ∈ s.registered ↔ v.position.isSome ∧
      ∃ i : Nat, s.viewers[i]? = some v ∧ s.core.readers[i]? = some r := by
  rw [HttpTsSession.registered, List.mem_filter, and_comm, List.mem_iff_getElem?]
  simp only [List.getElem?_zip_eq_some]

/-- A cursor at the live edge of a recovery that does not wait has passed the drain target. -/
theorem SessionOk.past_target {c : SessionConfig} {s : HttpTsSession} (h : SessionOk c s)
    {run : RecoveryRun} (hrun : s.pump.recovery = some run) {v : Viewer} {r : Reader}
    (hmem : (v, r) ∈ s.registered) (hidle : s.nothingLeft c run.generation (v, r) = true)
    (hready : r.cursor.waitingForSafeBoundary = false) : run.target ≤ r.cursor.nextSequence := by
  obtain ⟨-, i, -, hr⟩ := mem_registered.mp hmem
  have hrunOk := h.recovery run hrun
  simp only [HttpTsSession.nothingLeft, Bool.and_eq_true] at hidle
  obtain ⟨-, hnone⟩ := hidle
  have hinside : r.cursor.generation = s.core.ring.state.generation →
      r.cursor.nextSequence ≤ s.core.ring.state.nextSequence := fun hg => by
    rw [h.core.ring.next, ← hg]
    exact (h.core.readers r (List.mem_of_getElem? hr)).cursor.inside
  have hcase := tryNext_case h.core.ring hinside c.viewerBatchPackets
  split at hnone
  · rename_i hread
    rw [hread] at hcase
    have htarget := hrunOk.target
    rw [hrunOk.generation, ← h.core.ring.next] at htarget
    generalize (r.cursor.tryNext s.core.ring c.viewerBatchPackets).1 = cursor at hcase
    cases hcase with
    | idle here stays later waits edge closed => exact htarget.trans (edge hready).2
  · cases hnone

/-- A viewer that has reported what it read has its cursor's position in the table, or where its
cursor began to wait. -/
theorem ViewerOk.reported_position {ring : MpegTsRing} {v : Viewer} {r : Reader}
    (h : ViewerOk ring v r) (hreported : v.reported = true) {p : ViewerPosition}
    (hp : v.position = some p) : p.generation = r.cursor.generation ∧
      p.nextSequence = if r.cursor.waitingForSafeBoundary then v.parked
        else r.cursor.nextSequence := by
  have hphase := h.phase
  unfold Viewer.reported at hreported
  unfold PhaseOk at hphase
  cases hv : v.phase with
  | reading =>
    simp only [hv] at hphase
    exact hphase p hp
  | yielding batch =>
    simp only [hv] at hphase
    obtain ⟨hready, hposition⟩ := hphase
    rw [hposition p hp, hready]
    exact ⟨rfl, rfl⟩
  | registering | holding | lagged | crossing | ended => simp [hv] at hreported

/-- The published position of a viewer may be at the target only if nothing rules it out. -/
theorem ViewerOk.mayBeDrained {ring : MpegTsRing} {v : Viewer} {r : Reader} (h : ViewerOk ring v r)
    {p : ViewerPosition} (hp : v.position = some p) {target : Nat}
    (hgen : p.generation = r.cursor.generation) (htarget : target ≤ p.nextSequence) :
    v.MayBeDrained r.cursor target := by
  have hphase := h.phase
  unfold PhaseOk at hphase
  unfold Viewer.MayBeDrained
  cases hv : v.phase with
  | reading | yielding =>
    have hplace := (h.reported_position (by simp [Viewer.reported, hv]) hp).2
    intro hwait
    rwa [hplace, if_pos hwait] at htarget
  | holding batch =>
    simp only [hv] at hphase ⊢
    exact htarget.trans (hphase.2.2 p hp hgen)
  | crossing generation =>
    simp only [hv] at hphase ⊢
    have hbefore := hphase.2.2 p hp
    rw [hphase.1] at hbefore
    omega
  | registering | lagged | ended => trivial

/-- In a recovery whose registered viewers all have nothing left to read, the drain loop can end if
all of them have reported what they read and every cursor that still waits for a boundary was
parked at the drain target or later. It can not end if one of these was parked before the target, if
a batch from before the target is held back, or if a viewer is about to report the generation. -/
theorem idle_viewers_drained (c : SessionConfig) (s : HttpTsSession)
    (h : (sessionMachine c).Reachable s) (run : RecoveryRun) (hrun : s.pump.recovery = some run)
    (hidle : ∀ entry ∈ s.registered, s.nothingLeft c run.generation entry = true) :
    ((∀ entry ∈ s.registered, entry.1.reported = true ∧
        (entry.2.cursor.waitingForSafeBoundary = true → run.target ≤ entry.1.parked)) →
      s.viewersDrained run.generation run.target = true) ∧
    (s.viewersDrained run.generation run.target = true →
      ∀ entry ∈ s.registered, entry.1.MayBeDrained entry.2.cursor run.target) := by
  have hok := sessionOk_of_reachable h
  have hcursor : ∀ {v : Viewer} {r : Reader}, (v, r) ∈ s.registered →
      r.cursor.generation = run.generation := by
    intro v r hmem
    have hnone := hidle _ hmem
    simp only [HttpTsSession.nothingLeft, Bool.and_eq_true, decide_eq_true_eq] at hnone
    exact hnone.1
  constructor
  · intro hready
    refine List.all_eq_true.mpr fun v hv => ?_
    cases hp : v.position with
    | none => rfl
    | some p =>
      obtain ⟨i, hi⟩ := List.mem_iff_getElem?.mp hv
      have hlt : i < s.core.readers.length :=
        hok.aligned ▸ (List.getElem?_eq_some_iff.mp hi).1
      have hr := List.getElem?_eq_getElem hlt
      have hmem : (v, s.core.readers[i]) ∈ s.registered :=
        mem_registered.mpr ⟨by simp [hp], i, hi, hr⟩
      obtain ⟨hreported, hparked⟩ := hready _ hmem
      obtain ⟨hgen, hplace⟩ := (hok.viewers i v _ hi hr).reported_position hreported hp
      simp only [Option.all_some, decide_eq_true_eq]
      refine .inr ⟨hgen.trans (hcursor hmem), ?_⟩
      rw [hplace]
      cases hwait : s.core.readers[i].cursor.waitingForSafeBoundary with
      | true => exact hparked hwait
      | false => exact hok.past_target hrun hmem (hidle _ hmem) hwait
  · rintro hall ⟨v, r⟩ hmem
    obtain ⟨hsome, i, hv, hr⟩ := mem_registered.mp hmem
    obtain ⟨p, hp⟩ := Option.isSome_iff_exists.mp hsome
    have hviewer := hok.viewers i v r hv hr
    have hpast := List.all_eq_true.mp hall v (List.mem_of_getElem? hv)
    simp only [hp, Option.all_some, decide_eq_true_eq] at hpast
    have hle := (hviewer.position p hp).1
    rw [hcursor hmem] at hle
    obtain ⟨hgen, htarget⟩ := hpast.resolve_left (by omega)
    exact hviewer.mayBeDrained hp (hgen.trans (hcursor hmem).symm) htarget

theorem small_capacity_pos : 0 < 8 := by decide

theorem small_batch_pos : 0 < 4 := by decide

/-- A ring of eight packets and one endpoint. -/
def smallSession : SessionConfig :=
  ⟨⟨8, 1, small_capacity_pos, by decide, by decide⟩, 1, 4, true, Nat.one_pos, small_batch_pos⟩

/-- A packet of the video stream of `samplePmt`. -/
def sampleVideo : Bytes := [0x47, 0x01, 0x00, 0x10] ++ List.replicate 184 0

/-- The session streams a PAT and a PMT, and a viewer gets them. -/
def streamedRun : List SessionOp :=
  [.pump .go 0, .pump (.packets (samplePat ++ samplePmt)) 0, .pump .go 0, .pump .go 0,
    .subscribe 8, .viewer 0, .viewer 0, .viewer 0, .viewer 0, .viewer 0]

/-- The upstream fails and a recovery takes its drain snapshot. -/
def failedRun : List SessionOp := [.pump .fail 0, .pump .go 0, .pump .go 0, .pump .go 0]

/-- A viewer subscribes behind the PMT, and one more packet follows before the failure. -/
def lateViewerRun : List SessionOp :=
  [.pump .go 0, .pump (.packets (samplePat ++ samplePmt)) 0, .pump .go 0, .pump .go 0,
    .pump (.packets (sampleVideo ++ sampleVideo)) 0, .subscribe 1, .viewer 0, .viewer 0,
    .pump (.packets sampleVideo) 0, .viewer 0]

/-- A viewer that has read everything lets the drain loop end. -/
theorem idle_viewers_drained_at_edge :
    ∃ s, (sessionMachine smallSession).Reachable s ∧ s.registered.length = 1 ∧
      s.viewersDrained 0 2 = true ∧
      ∀ entry ∈ s.registered, entry.1.MayBeDrained entry.2.cursor 2 := by
  obtain ⟨s, hs, hp⟩ := (sessionMachine smallSession).exists_reachable_of_run
    (List.append streamedRun failedRun)
    (fun s => decide (s.pump = .attempt ⟨0, 2, 0⟩ ∧ s.registered.length = 1 ∧
      (∀ entry ∈ s.registered, entry.1.reported = true ∧
        (entry.2.cursor.waitingForSafeBoundary = true → 2 ≤ entry.1.parked)) ∧
      ∀ entry ∈ s.registered, s.nothingLeft smallSession 0 entry = true))
    (by decide +kernel)
  obtain ⟨hpump, hone, hready, hidle⟩ := of_decide_eq_true hp
  obtain ⟨hends, hnecessary⟩ :=
    idle_viewers_drained smallSession s hs ⟨0, 2, 0⟩ (by rw [hpump]; rfl) hidle
  exact ⟨s, hs, hone, hends hready, hnecessary (hends hready)⟩

/-- A viewer that waits for the next PAT has nothing to read, and the drain loop goes on. -/
theorem waiting_viewer_blocks_drain :
    ∃ s, (sessionMachine smallSession).Reachable s ∧ ∃ run, s.pump.recovery = some run ∧
      s.registered.length = 1 ∧
      (∀ entry ∈ s.registered, s.nothingLeft smallSession run.generation entry = true) ∧
      s.viewersDrained run.generation run.target = false := by
  obtain ⟨s, hs, hp⟩ := (sessionMachine smallSession).exists_reachable_of_run
    (List.append lateViewerRun failedRun)
    (fun s => decide (s.pump = .attempt ⟨0, 5, 0⟩ ∧ s.registered.length = 1 ∧
      (∀ entry ∈ s.registered, s.nothingLeft smallSession 0 entry = true) ∧
      s.viewersDrained 0 5 = false))
    (by decide +kernel)
  obtain ⟨hpump, hone, hidle, hdrained⟩ := of_decide_eq_true hp
  exact ⟨s, hs, ⟨0, 5, 0⟩, by rw [hpump]; rfl, hone, hidle, hdrained⟩

/-- The viewer holds its first batch back when the upstream fails. -/
def heldViewerRun : List SessionOp :=
  [.pump .go 0, .pump (.packets (samplePat ++ samplePmt)) 0, .pump .go 0, .pump .go 0,
    .subscribe 8, .viewer 0, .viewer 0]

/-- A viewer in its pacing hold has nothing to read either, and the drain loop goes on. -/
theorem held_viewer_blocks_drain :
    ∃ s, (sessionMachine smallSession).Reachable s ∧ ∃ run, s.pump.recovery = some run ∧
      s.registered.length = 1 ∧
      (∀ entry ∈ s.registered, s.nothingLeft smallSession run.generation entry = true ∧
        entry.2.cursor.waitingForSafeBoundary = false) ∧
      s.viewersDrained run.generation run.target = false := by
  obtain ⟨s, hs, hp⟩ := (sessionMachine smallSession).exists_reachable_of_run
    (List.append heldViewerRun failedRun)
    (fun s => decide (s.pump = .attempt ⟨0, 2, 0⟩ ∧ s.registered.length = 1 ∧
      (∀ entry ∈ s.registered, s.nothingLeft smallSession 0 entry = true ∧
        entry.2.cursor.waitingForSafeBoundary = false) ∧
      s.viewersDrained 0 2 = false))
    (by decide +kernel)
  obtain ⟨hpump, hone, hidle, hdrained⟩ := of_decide_eq_true hp
  exact ⟨s, hs, ⟨0, 2, 0⟩, by rw [hpump]; rfl, hone, hidle, hdrained⟩

/-! ## What the viewers get before a rotation -/

/-- What a viewer that was registered when a drain loop ended gets of the drained generation,
before it gets anything newer: all packets from the first one it got up to the drain target. From
the target on the generation has keepalive packets only, and the viewer misses no other packet. -/
structure RotationSafe (s : HttpTsSession) (d : Drain) (v : Viewer) : Prop where
  yielded : ∀ before b after, v.yielded = before ++ b :: after → d.generation < b.generation →
    ∀ a ∈ v.yielded, a.generation = d.generation → ∀ q, a.firstSequence ≤ q → q < d.target →
      ∃ e ∈ before, e.generation = d.generation ∧ e.firstSequence ≤ q ∧ q < e.nextSequence ∧
        Delivers (s.core.log d.generation) e.firstSequence e.bytes
  target : ∀ q packet, d.target ≤ q → (s.core.log d.generation)[q]? = some packet →
    ∃ continuity, packet = nullPacket continuity
  skipped : ∀ before b after, v.yielded = before ++ b :: after → d.generation < b.generation →
    ∀ a ∈ v.yielded, a.generation = d.generation → ∀ q packet, a.firstSequence ≤ q →
      (s.core.log d.generation)[q]? = some packet → ¬ Covers before d.generation q →
        ∃ continuity, packet = nullPacket continuity

theorem mem_received_of_mem_batches {received : List RingRead} {b : Batch}
    (h : b ∈ batches received) : .packets b.generation b.firstSequence b.bytes ∈ received := by
  obtain ⟨event, hmem, hb⟩ := List.mem_filterMap.mp h
  cases event with
  | packets => cases hb; exact hmem
  | lagged | generationBoundary | closed => cases hb

/-- A batch of an older generation that was received is sent before a newer one. -/
theorem ViewerOk.covers_before {ring : MpegTsRing} {v : Viewer} {r : Reader}
    (h : ViewerOk ring v r) {before after : List Batch} {b : Batch}
    (hsplit : v.yielded = before ++ b :: after) {g q : Nat} (hnewer : g < b.generation)
    (hcovers : Covers (batches r.received) g q) : Covers before g q := by
  obtain ⟨pending, hsent, -⟩ := h.sent
  obtain ⟨e, he, hgen, hrange⟩ := hcovers
  refine ⟨e, ?_, hgen, hrange⟩
  have hsorted := h.trace.sorted
  rw [hsent, hsplit, List.append_assoc] at he hsorted
  rcases List.mem_append.mp he with he | he
  · exact he
  · have hle : b.generation ≤ e.generation := by
      rw [List.cons_append] at he hsorted
      rcases List.mem_cons.mp he with rfl | he
      · exact le_rfl
      · exact (List.pairwise_cons.mp (List.pairwise_append.mp hsorted).2.1).1 e he
    omega

/-- No media is lost at a rotation, unless the viewer was told that it lagged. -/
theorem rotation_loses_no_media (c : SessionConfig) (s : HttpTsSession)
    (h : (sessionMachine c).Reachable s) (d : Drain) (hd : d ∈ s.drained) (i : Nat)
    (hi : i ∈ d.viewers) (v : Viewer) (r : Reader) (hv : s.viewers[i]? = some v)
    (hr : s.core.readers[i]? = some r) (hlag : ¬ HasLagged r.received d.generation) :
    RotationSafe s d v := by
  have hok := sessionOk_of_reachable h
  have hviewer := hok.viewers i v r hv hr
  have hdrain := hok.drained d hd
  have hreader := hok.core.readers r (List.mem_of_getElem? hr)
  obtain ⟨pending, hsent, -⟩ := hviewer.sent
  have hcovers : ∀ before b after, v.yielded = before ++ b :: after →
      d.generation < b.generation → ∀ a ∈ v.yielded, a.generation = d.generation →
        ∀ q, a.firstSequence ≤ q → q < d.target → Covers before d.generation q := by
    intro before b after hsplit hnewer a ha hgen q hlo hhi
    have hmem : a ∈ batches r.received := hsent ▸ List.mem_append_left _ ha
    exact hviewer.covers_before hsplit hnewer
      ((hdrain.readers i hi r hr).covered a hmem hgen hlag q hlo hhi)
  refine ⟨fun before b after hsplit hnewer a ha hgen q hlo hhi => ?_, hdrain.nulls,
    fun before b after hsplit hnewer a ha hgen q packet hlo hget hmissed => ?_⟩
  · obtain ⟨e, he, hegen, hfirst, hnext⟩ :=
      hcovers before b after hsplit hnewer a ha hgen q hlo hhi
    have hmem : e ∈ batches r.received := by
      rw [hsent, hsplit]
      exact List.mem_append_left _ (List.mem_append_left _ he)
    exact ⟨e, he, hegen, hfirst, hnext,
      hegen ▸ hreader.received _ _ _ (mem_received_of_mem_batches hmem)⟩
  · refine hdrain.nulls q packet ?_ hget
    by_contra hbelow
    exact hmissed (hcovers before b after hsplit hnewer a ha hgen q hlo (by omega))

def isLagged : RingRead → Bool
  | .lagged .. => true
  | _ => false

/-- The rest of a recovery: a request, priming, the end of the drain loop, a rotation. -/
def rotatedRun : List SessionOp :=
  [.pump .go 0, .pump .go 0, .pump .go 0, .pump .go 0, .pump .go 0, .pump .go 0,
    .pump (.packets (samplePat ++ samplePmt)) 0, .pump .go 0, .keepalive 0, .keepalive 0,
    .pump .go 0, .pump .go 0, .pump .go 0, .pump .go 0, .pump .go 0,
    .viewer 0, .viewer 0, .viewer 0, .viewer 0, .viewer 0]

/-- A viewer misses two keepalive packets between the old and the new stream. -/
theorem rotation_loses_no_media_second_generation :
    ∃ s, (sessionMachine smallSession).Reachable s ∧ s.drained = [⟨0, 2, [0]⟩] ∧
      (s.core.log 0).length = 4 ∧ ∃ v r, s.viewers[0]? = some v ∧ s.core.readers[0]? = some r ∧
      v.yielded.map Batch.range = [(0, 0, 2), (1, 0, 2)] ∧ RotationSafe s ⟨0, 2, [0]⟩ v := by
  obtain ⟨s, hs, hp⟩ := (sessionMachine smallSession).exists_reachable_of_run
    (List.append (List.append streamedRun failedRun) rotatedRun)
    (fun s => decide (s.drained = [⟨0, 2, [0]⟩] ∧ (s.core.log 0).length = 4) &&
      s.viewers[0]?.any fun (v : Viewer) => s.core.readers[0]?.any fun (r : Reader) =>
        decide (v.yielded.map Batch.range = [(0, 0, 2), (1, 0, 2)]) && !r.received.any isLagged)
    (by decide +kernel)
  rw [Bool.and_eq_true, decide_eq_true_eq, Option.any_eq_true] at hp
  obtain ⟨⟨hdrained, hlog⟩, v, hv, hrest⟩ := hp
  obtain ⟨r, hr, hrest⟩ := (Option.any_eq_true _ _).mp hrest
  rw [Bool.and_eq_true, decide_eq_true_eq] at hrest
  refine ⟨s, hs, hdrained, hlog, v, r, hv, hr, hrest.1,
    rotation_loses_no_media smallSession s hs ⟨0, 2, [0]⟩ (by simp [hdrained]) 0 (by simp) v r
      hv hr ?_⟩
  rintro ⟨skipped, resumeAt, hmem⟩
  have : r.received.any isLagged = true := List.any_eq_true.mpr ⟨_, hmem, rfl⟩
  simp [this] at hrest

end IptvRelay.Recovery
