import IptvRelay.Slate.WellFormed

/-!
# The journal of a muxer

To compare the output of the muxer with its input, a traced run also keeps a journal:
for every packet that a running segment has handled, the packet and what it made the
muxer write. The packets a segment skips while it looks for its start are not in it.
`TraceInvariant` is the induction rule for properties of such runs.
-/

namespace IptvRelay.Slate

open Transition History Blocks Media Psi Muxing

/-- A packet of a running segment and what it made the muxer write. -/
structure Handled where
  input : Bytes
  written : List Emitted
  deriving DecidableEq, Repr

/-- One packet of the segment that feeds `push_current` or `push_pending`. -/
abbrev PacketStep := Muxing × Segment → Bytes → Muxing × Segment

def currentStep : PacketStep := fun state packet => state.1.runningPacket state.2 packet

def pendingStep : PacketStep := fun state packet => state.1.pendingPacket state.2 packet

/-- What the packets of one call add to the journal. -/
def handledBy (step : PacketStep) : Muxing × Segment → List Bytes → List Handled
  | _, [] => []
  | state, packet :: packets =>
    let next := step state packet
    (if next.2.started then [⟨packet, next.1.out.drop state.1.out.length⟩] else []) ++
      handledBy step next packets

namespace Muxing

def withSegments (s : Muxing) (current pending : Option Segment) : Muxing :=
  { s with mux := { s.mux with current, pending } }

def handles (s : Muxing) : MuxOp → List Handled
  | .beginPending | .cancelPending => []
  | .pushCurrent chunk => s.mux.current.elim [] fun segment =>
    handledBy currentStep (s.withSegments none s.mux.pending, segment)
      (chunksExact mpegTsPacketSize chunk)
  | .pushPending chunk => s.mux.pending.elim [] fun segment =>
    handledBy pendingStep (s.withSegments s.mux.current none, segment)
      (chunksExact mpegTsPacketSize chunk)

end Muxing

structure TracedMuxing where
  muxing : Muxing := {}
  journal : List Handled := []

def tracedMachine : Machine TracedMuxing MuxOp where
  start := {}
  step t op := (muxMachine.step t.muxing op).map fun muxing =>
    { muxing, journal := t.journal ++ t.muxing.handles op }

theorem tracedMachine_step {t u : TracedMuxing} {op : MuxOp} (h : tracedMachine.step t op = some u) :
    muxMachine.step t.muxing op = some u.muxing ∧ u.journal = t.journal ++ t.muxing.handles op := by
  obtain ⟨muxing, hstep, rfl⟩ := Option.map_eq_some_iff.mp h
  exact ⟨hstep, rfl⟩

/-- Tracing only observes: the traced runs are the runs of the muxer. -/
theorem tracedMachine_reachable {t : TracedMuxing} (h : tracedMachine.Reachable t) :
    muxMachine.Reachable t.muxing := by
  induction h with
  | start => exact .start
  | step _ _ hstep ih => exact .step ih trivial (tracedMachine_step hstep).1

theorem exists_traced {s : Muxing} (h : muxMachine.Reachable s) :
    ∃ t, tracedMachine.Reachable t ∧ t.muxing = s := by
  induction h with
  | start => exact ⟨_, .start, rfl⟩
  | step _ _ hstep ih =>
    obtain ⟨t, ht, rfl⟩ := ih
    exact ⟨_, .step ht trivial (congrArg (Option.map _) hstep), rfl⟩

/-! ## The induction rule -/

/-- `Calm` holds of the output at any time, `Runs` also of the segment that writes it, and `Waits`
of a segment that looks for its start. -/
structure TraceInvariant (Calm : Muxing → List Handled → Prop)
    (Runs : Muxing → Segment → List Handled → Prop) (Waits : Segment → Prop) : Prop where
  start : Calm {} []
  waits : Waits {}
  seek : ∀ (s : Muxing) segment packet, Waits segment → Waits (s.mux.seek segment packet).1
  calmSegments : ∀ s journal current pending, Calm s journal →
    Calm (s.withSegments current pending) journal
  runsSegments : ∀ s segment journal current pending, Runs s segment journal →
    Runs (s.withSegments current pending) segment journal
  /-- A running segment handles one packet. -/
  packet : ∀ s segment journal packet more, MuxOk s → Calm s journal → Runs s segment journal →
    (s.runningPacket segment packet).1.out = s.out ++ more → .segmentStart ∉ more →
    Calm (s.runningPacket segment packet).1 (journal ++ [⟨packet, more⟩]) ∧
      Runs (s.runningPacket segment packet).1 (s.runningPacket segment packet).2
        (journal ++ [⟨packet, more⟩])
  /-- A segment starts, and handles the packet it starts with. -/
  opens : ∀ s segment journal packet more, MuxOk s → Calm s journal → Fresh segment →
    Waits segment → (s.mux.seek segment packet).2 = true →
    (s.pendingPacket segment packet).1.out = s.out ++ .segmentStart :: more →
    Calm (s.pendingPacket segment packet).1 (journal ++ [⟨packet, .segmentStart :: more⟩]) ∧
      Runs (s.pendingPacket segment packet).1 (s.pendingPacket segment packet).2
        (journal ++ [⟨packet, .segmentStart :: more⟩])

theorem startSegment_out (s : Muxing) (segment : Segment) :
    ∃ more, (s.startSegment segment).1.out = s.out ++ .segmentStart :: more ∧
      .segmentStart ∉ more := by
  have hfold : ∀ (roles : List Role) (t : Muxing), ∃ more,
      (roles.foldl writeDiscontinuity t).out = t.out ++ more ∧ .segmentStart ∉ more := by
    intro roles
    induction roles with
    | nil => exact fun t => ⟨[], by simp, by simp⟩
    | cons role roles ih =>
      intro t
      obtain ⟨more, hmore, hfree⟩ := ih (t.writeDiscontinuity role)
      refine ⟨.discontinuity role (discontinuityPacket role.outputPid
        ((t.mux.outputCc role).getD 0x0f)) :: more, ?_, by simp [hfree]⟩
      rw [List.foldl_cons, hmore, writeDiscontinuity, List.append_assoc]
      rfl
  unfold startSegment
  dsimp only
  generalize hmarked : (⟨{ s.mux with splices := s.mux.splices + 1 }, s.out ++ [.segmentStart]⟩ :
    Muxing) = marked
  obtain ⟨more, hmore, hfree⟩ := (((extends_adoptMap marked segment.map).trans
    (extends_writePat _)).trans (extends_writePmt _)).out
  obtain ⟨rest, hrest, hfree'⟩ := hfold
    (if s.mux.outputMap.isSome then segment.map.elim [] ProgramMap.roles else [])
    (marked.adoptMap segment.map).writePat.writePmt
  exact ⟨more ++ rest, by rw [hrest, hmore, ← hmarked]; simp, by simp [hfree, hfree']⟩

namespace TraceInvariant

variable {Calm : Muxing → List Handled → Prop} {Runs : Muxing → Segment → List Handled → Prop}
  {Waits : Segment → Prop}

/-- Between two packets of a call. -/
structure Between (Calm : Muxing → List Handled → Prop)
    (Runs : Muxing → Segment → List Handled → Prop) (Waits : Segment → Prop) (s₀ : Muxing)
    (journal₀ : List Handled) (state : Muxing × Segment) (journal : List Handled) : Prop where
  pending : PendingOk s₀ state
  calm : Calm state.1 journal
  runs : state.2.started = true → Runs state.1 state.2 journal
  waits : state.2.started = false → Waits state.2 ∧ journal = journal₀

/-- The journal entry of a packet holds exactly what the packet appended. -/
theorem entry_eq {s t : Muxing} {more : List Emitted} (h : t.out = s.out ++ more) :
    t.out.drop s.out.length = more := by
  rw [h, List.drop_left]

theorem between_pendingPacket (h : TraceInvariant Calm Runs Waits) {s₀ s : Muxing}
    {segment : Segment} {journal₀ journal : List Handled}
    (hb : Between Calm Runs Waits s₀ journal₀ (s, segment) journal) (packet : Bytes) :
    Between Calm Runs Waits s₀ journal₀ (s.pendingPacket segment packet)
      (journal ++ handledBy pendingStep (s, segment) [packet]) := by
  have hpending := pendingPacket_ok hb.pending packet
  have hentry : handledBy pendingStep (s, segment) [packet] =
      if (s.pendingPacket segment packet).2.started then
        [⟨packet, (s.pendingPacket segment packet).1.out.drop s.out.length⟩] else [] := by
    simp only [handledBy, List.append_nil]
    rfl
  rw [hentry]
  cases hstarted : segment.started with
  | true =>
    have hstep : s.pendingPacket segment packet = s.runningPacket segment packet := by
      rw [pendingPacket, if_pos hstarted]
    have hkeeps := (runningPacket_ok hb.pending.mux (hb.pending.started hstarted) packet).keeps
    obtain ⟨more, hout, hfree⟩ := hkeeps.out
    obtain ⟨hcalm, hruns⟩ := h.packet s segment journal packet more hb.pending.mux hb.calm
      (hb.runs hstarted) hout hfree
    rw [hstep] at hpending ⊢
    have hrun : (s.runningPacket segment packet).2.started = true := by
      rw [runningPacket_started, hstarted]
    rw [if_pos hrun, entry_eq hout]
    exact ⟨hpending, hcalm, fun _ => hruns, fun hnot => by rw [hrun] at hnot; cases hnot⟩
  | false =>
    obtain ⟨hfresh, -⟩ := hb.pending.waiting hstarted
    obtain ⟨hwaits, hsilent⟩ := hb.waits hstarted
    cases hfound : (s.mux.seek segment packet).2 with
    | false =>
      have hstep : s.pendingPacket segment packet = (s, (s.mux.seek segment packet).1) := by
        simp [pendingPacket, hstarted, hfound]
      have hstill := (seek_spec s.mux hfresh packet).1.1
      rw [hstep] at hpending ⊢
      refine ⟨hpending, ?_, fun hrun => ?_, fun _ => ⟨h.seek s segment packet hwaits, ?_⟩⟩
      · simpa [hstill] using hb.calm
      · rw [hstill] at hrun
        cases hrun
      · simpa [hstill] using hsilent
    | true =>
      have hstep : s.pendingPacket segment packet =
          (s.startSegment (s.mux.seek segment packet).1).1.runningPacket
            (s.startSegment (s.mux.seek segment packet).1).2 packet := by
        simp [pendingPacket, hstarted, hfound]
      have hrun : (s.pendingPacket segment packet).2.started = true := by
        rw [hstep, runningPacket_started]
        rfl
      obtain ⟨map, hmap⟩ := (seek_spec s.mux hfresh packet).2 hfound
      have hidle : SegmentOk (s.startSegment (s.mux.seek segment packet).1).1.out
          (s.startSegment (s.mux.seek segment packet).1).2 := fun role _ hrole => by
        simp [startSegment, (seek_spec s.mux hfresh packet).1.2 role] at hrole
      obtain ⟨more, hout, -⟩ := startSegment_out s (s.mux.seek segment packet).1
      obtain ⟨rest, hrest, -⟩ :=
        (runningPacket_ok (startSegment_ok hb.pending.mux hmap) hidle packet).keeps.out
      have hall : (s.pendingPacket segment packet).1.out =
          s.out ++ .segmentStart :: (more ++ rest) := by
        rw [hstep, hrest, hout]
        simp
      obtain ⟨hcalm, hruns⟩ := h.opens s segment journal packet _ hb.pending.mux hb.calm hfresh
        hwaits hfound hall
      rw [if_pos hrun, entry_eq hall]
      exact ⟨hpending, hcalm, fun _ => hruns, fun hnot => by rw [hrun] at hnot; cases hnot⟩

theorem handledBy_cons (step : PacketStep) (state : Muxing × Segment) (packet : Bytes)
    (packets : List Bytes) : handledBy step state (packet :: packets) =
      handledBy step state [packet] ++ handledBy step (step state packet) packets := by
  simp only [handledBy, List.append_nil]

theorem between_foldl (h : TraceInvariant Calm Runs Waits) (packets : List Bytes) {s₀ : Muxing}
    {state : Muxing × Segment} {journal₀ journal : List Handled}
    (hb : Between Calm Runs Waits s₀ journal₀ state journal) :
    Between Calm Runs Waits s₀ journal₀ (packets.foldl pendingStep state)
      (journal ++ handledBy pendingStep state packets) := by
  induction packets generalizing state journal with
  | nil => simpa [handledBy] using hb
  | cons packet packets ih =>
    rw [List.foldl_cons, handledBy_cons, ← List.append_assoc]
    exact ih (h.between_pendingPacket hb packet)

/-- A running segment handles the packets of `push_current` as it would those of `push_pending`. -/
theorem foldl_currentStep (packets : List Bytes) {state : Muxing × Segment}
    (h : state.2.started = true) : packets.foldl currentStep state = packets.foldl pendingStep state ∧
      handledBy currentStep state packets = handledBy pendingStep state packets ∧
      (packets.foldl currentStep state).2.started = true := by
  induction packets generalizing state with
  | nil => exact ⟨rfl, rfl, h⟩
  | cons packet packets ih =>
    have hstep : pendingStep state packet = currentStep state packet := by
      rw [pendingStep, currentStep, pendingPacket, if_pos h]
    have hstarted : (currentStep state packet).2.started = true := by
      rw [currentStep, runningPacket_started, h]
    obtain ⟨hfold, hhandled, hlast⟩ := ih hstarted
    refine ⟨?_, ?_, hlast⟩
    · rw [List.foldl_cons, List.foldl_cons, hstep, hfold]
    · rw [handledBy, handledBy, hstep, hhandled]

/-- Between two calls. -/
structure Settled (Calm : Muxing → List Handled → Prop)
    (Runs : Muxing → Segment → List Handled → Prop) (Waits : Segment → Prop) (t : TracedMuxing) :
    Prop where
  calls : CallOk t.muxing
  calm : Calm t.muxing t.journal
  runs : ∀ segment, t.muxing.mux.current = some segment →
    segment.started = true ∧ Runs t.muxing segment t.journal
  waits : ∀ segment, t.muxing.mux.pending = some segment → Waits segment

theorem settled_pushCurrent (h : TraceInvariant Calm Runs Waits) {t : TracedMuxing}
    (ht : Settled Calm Runs Waits t) (chunk : Bytes) :
    Settled Calm Runs Waits
      ⟨t.muxing.pushCurrent chunk, t.journal ++ t.muxing.handles (.pushCurrent chunk)⟩ := by
  have hcalls := ht.calls.pushCurrent chunk
  cases hcurrent : t.muxing.mux.current with
  | none =>
    have hsame : t.muxing.pushCurrent chunk = t.muxing := by rw [Muxing.pushCurrent, hcurrent]
    rw [hsame] at hcalls ⊢
    simpa [Muxing.handles, hcurrent] using ht
  | some segment =>
    obtain ⟨hstarted, hruns⟩ := ht.runs segment hcurrent
    have hbetween : Between Calm Runs Waits (t.muxing.withSegments none t.muxing.mux.pending)
        t.journal (t.muxing.withSegments none t.muxing.mux.pending, segment) t.journal :=
      ⟨⟨ht.calls.mux.withSegments _ _, rfl, fun _ => ht.calls.current segment hcurrent,
          fun hnot => by rw [hstarted] at hnot; cases hnot⟩,
        h.calmSegments _ _ _ _ ht.calm, fun _ => h.runsSegments _ _ _ _ _ hruns,
        fun hnot => by rw [hstarted] at hnot; cases hnot⟩
    have hdone := h.between_foldl (chunksExact mpegTsPacketSize chunk) hbetween
    obtain ⟨hfold, hhandled, hlast⟩ := foldl_currentStep (chunksExact mpegTsPacketSize chunk)
      (show (t.muxing.withSegments none t.muxing.mux.pending, segment).2.started = true
        from hstarted)
    rw [← hfold, ← hhandled] at hdone
    have hjournal : t.muxing.handles (.pushCurrent chunk) = handledBy currentStep
        (t.muxing.withSegments none t.muxing.mux.pending, segment)
        (chunksExact mpegTsPacketSize chunk) := by
      rw [Muxing.handles, hcurrent]
      rfl
    rw [hjournal]
    generalize hres : (chunksExact mpegTsPacketSize chunk).foldl currentStep
      (t.muxing.withSegments none t.muxing.mux.pending, segment) = result at hdone hlast
    have hpushed : t.muxing.pushCurrent chunk =
        result.1.withSegments (some result.2) result.1.mux.pending := by
      rw [Muxing.pushCurrent, hcurrent, ← hres]
      rfl
    rw [hpushed] at hcalls ⊢
    refine ⟨hcalls, h.calmSegments _ _ _ _ hdone.calm, ?_, fun other hother => ?_⟩
    · rintro other ⟨⟩
      exact ⟨hlast, h.runsSegments _ _ _ _ _ (hdone.runs hlast)⟩
    · exact ht.waits other (hdone.pending.pending ▸ hother)

theorem pushPending_fst {s : Muxing} {segment : Segment} (h : s.mux.pending = some segment)
    {chunk : Bytes} {result : Muxing × Segment}
    (hres : (chunksExact mpegTsPacketSize chunk).foldl pendingStep
      (s.withSegments s.mux.current none, segment) = result) :
    (s.pushPending chunk).1 =
      if result.2.started then result.1.withSegments (some result.2) result.1.mux.pending
      else result.1.withSegments result.1.mux.current (some result.2) := by
  rw [Muxing.pushPending, h, ← hres]
  exact apply_ite Prod.fst _ _ _

theorem settled_pushPending (h : TraceInvariant Calm Runs Waits) {t : TracedMuxing}
    (ht : Settled Calm Runs Waits t) (chunk : Bytes) :
    Settled Calm Runs Waits
      ⟨(t.muxing.pushPending chunk).1, t.journal ++ t.muxing.handles (.pushPending chunk)⟩ := by
  have hcalls := ht.calls.pushPending chunk
  cases hpending : t.muxing.mux.pending with
  | none =>
    have hsame : (t.muxing.pushPending chunk).1 = t.muxing := by rw [Muxing.pushPending, hpending]
    rw [hsame] at hcalls ⊢
    simpa [Muxing.handles, hpending] using ht
  | some segment =>
    have hfresh := ht.calls.pending segment hpending
    have hbetween : Between Calm Runs Waits (t.muxing.withSegments t.muxing.mux.current none)
        t.journal (t.muxing.withSegments t.muxing.mux.current none, segment) t.journal :=
      ⟨⟨ht.calls.mux.withSegments _ _, rfl, by simp [hfresh.1], fun _ => ⟨hfresh, rfl⟩⟩,
        h.calmSegments _ _ _ _ ht.calm, by simp [hfresh.1],
        fun _ => ⟨ht.waits segment hpending, rfl⟩⟩
    have hdone := h.between_foldl (chunksExact mpegTsPacketSize chunk) hbetween
    have hjournal : t.muxing.handles (.pushPending chunk) = handledBy pendingStep
        (t.muxing.withSegments t.muxing.mux.current none, segment)
        (chunksExact mpegTsPacketSize chunk) := by
      rw [Muxing.handles, hpending]
      rfl
    rw [hjournal]
    generalize hres : (chunksExact mpegTsPacketSize chunk).foldl pendingStep
      (t.muxing.withSegments t.muxing.mux.current none, segment) = result at hdone
    have hpushed := pushPending_fst hpending hres
    cases hstarted : result.2.started with
    | true =>
      rw [hstarted, if_pos rfl] at hpushed
      rw [hpushed] at hcalls ⊢
      refine ⟨hcalls, h.calmSegments _ _ _ _ hdone.calm, ?_, fun other hother => ?_⟩
      · rintro other ⟨⟩
        exact ⟨hstarted, h.runsSegments _ _ _ _ _ (hdone.runs hstarted)⟩
      · have := hdone.pending.pending ▸ hother
        cases this
    | false =>
      obtain ⟨hwaits, hsilent⟩ := hdone.waits hstarted
      obtain ⟨-, hsame⟩ := hdone.pending.waiting hstarted
      rw [hstarted, if_neg Bool.false_ne_true, hsame] at hpushed
      rw [hpushed] at hcalls ⊢
      rw [hsilent]
      refine ⟨hcalls, h.calmSegments t.muxing _ _ _ ht.calm, fun other hother => ?_, ?_⟩
      · obtain ⟨hrun, hruns⟩ := ht.runs other hother
        exact ⟨hrun, h.runsSegments t.muxing _ _ _ _ hruns⟩
      · rintro other ⟨⟩
        exact hwaits

theorem settled_of_reachable (h : TraceInvariant Calm Runs Waits) {t : TracedMuxing}
    (ht : tracedMachine.Reachable t) : Settled Calm Runs Waits t := by
  refine ht.invariant ?_ fun t op u hs _ hstep => ?_
  · exact ⟨callOk_of_reachable .start, h.start, by simp [tracedMachine], by simp [tracedMachine]⟩
  · obtain ⟨hmux, hjournal⟩ := tracedMachine_step hstep
    obtain ⟨muxing, journal⟩ := u
    subst hjournal
    have hcalls := hs.calls.step hmux
    cases op with
    | beginPending =>
      cases hmux
      simp only [Muxing.handles, List.append_nil]
      refine ⟨hcalls, h.calmSegments _ _ t.muxing.mux.current _ hs.calm, fun other hother => ?_, ?_⟩
      · obtain ⟨hrun, hruns⟩ := hs.runs other hother
        exact ⟨hrun, h.runsSegments _ _ _ t.muxing.mux.current _ hruns⟩
      · rintro other ⟨⟩
        exact h.waits
    | cancelPending =>
      cases hmux
      simp only [Muxing.handles, List.append_nil]
      refine ⟨hcalls, h.calmSegments _ _ t.muxing.mux.current none hs.calm,
        fun other hother => ?_, by simp⟩
      obtain ⟨hrun, hruns⟩ := hs.runs other hother
      exact ⟨hrun, h.runsSegments _ _ _ t.muxing.mux.current none hruns⟩
    | pushCurrent chunk =>
      cases hmux
      exact h.settled_pushCurrent hs chunk
    | pushPending chunk =>
      cases hmux
      exact h.settled_pushPending hs chunk

end TraceInvariant

end IptvRelay.Slate
