import IptvRelay.Session.Session

/-!
# What a viewer has read and sent

A viewer publishes its position before it sends a batch, and its cursor may move
without an event while it waits for a boundary. `ViewerOk` relates the cursor, the
published position, the events received and the batches sent at every point of
the viewer's loop.
-/

namespace IptvRelay.Recovery

open Media MpegTsRing

/-! ## The events of a cursor -/

/-- Everything one `try_next` can do to a position. -/
inductive ReadCase (ring : MpegTsRing) (c : RingCursor) :
    RingCursor → Except RingReadError (Option RingRead) → Prop where
  | packets {c' : RingCursor} {first : Nat} {bytes : Bytes} (here : c.generation = ring.state.generation)
      (stays : c'.generation = c.generation) (later : c.nextSequence ≤ first)
      (contiguous : c.waitingForSafeBoundary = false → first = c.nextSequence)
      (behind : c'.nextSequence = first + bytes.length / mpegTsPacketSize)
      (ready : c'.waitingForSafeBoundary = false) :
      ReadCase ring c c' (.ok (some (.packets ring.state.generation first bytes)))
  | lagged {c' : RingCursor} {skipped resumeAt : Nat} (here : c.generation = ring.state.generation)
      (stays : c'.generation = c.generation) (later : c.nextSequence ≤ c'.nextSequence) :
      ReadCase ring c c' (.ok (some (.lagged ring.state.generation skipped resumeAt)))
  | crossed {c' : RingCursor} (away : c.generation ≠ ring.state.generation)
      (here : c'.generation = ring.state.generation) :
      ReadCase ring c c' (.ok (some (.generationBoundary c.generation ring.state.generation)))
  | idle {c' : RingCursor} {event : Option RingRead} (here : c.generation = ring.state.generation)
      (stays : c'.generation = c.generation) (later : c.nextSequence ≤ c'.nextSequence)
      (waits : c'.waitingForSafeBoundary = c.waitingForSafeBoundary)
      (edge : c.waitingForSafeBoundary = false → c' = c ∧ ring.state.nextSequence ≤ c.nextSequence)
      (closed : event = ring.state.closed.map (.closed ring.state.generation)) :
      ReadCase ring c c' (.ok event)
  | failed : ReadCase ring c c (.error .emptyRead)

theorem tryNext_case {ring : MpegTsRing} {log : List Bytes} (h : RingOk ring log) {c : RingCursor}
    (hinside : c.generation = ring.state.generation → c.nextSequence ≤ ring.state.nextSequence)
    (maxPackets : Nat) :
    ReadCase ring c (c.tryNext ring maxPackets).1 (c.tryNext ring maxPackets).2 := by
  have hfirst := h.first
  have hnext := h.next
  have hresume := (safeResumePosition_spec h ring.state.firstSequence (by omega)).1
  unfold RingCursor.tryNext
  dsimp only
  split
  · exact .failed
  rename_i hmax
  split
  · rename_i haway
    exact .crossed haway rfl
  rename_i hhere
  replace hhere := not_not.mp hhere
  replace hinside := hinside hhere
  split
  · exact .lagged hhere rfl (by simp only; omega)
  rename_i hlag
  have hcount : ∀ first, (ring.readPackets first
      (min (ring.state.nextSequence - first) maxPackets)).length / mpegTsPacketSize =
      min (ring.state.nextSequence - first) maxPackets := by
    intro first
    rw [h.length_readPackets, Nat.mul_div_cancel _ (by decide)]
  split
  · rename_i hwait
    split
    · rename_i boundary hfind
      -- A confirmed boundary lies below the live edge, so there is something to read.
      obtain ⟨e, he⟩ := h.boundaries boundary (List.mem_of_find?_eq_some hfind)
      have hbounds := he.bounds
      have hle : c.nextSequence ≤ boundary := by simpa using List.find?_some hfind
      unfold RingCursor.read
      rw [if_pos (by simp only; omega)]
      exact .packets hhere rfl hle (by simp [hwait]) (by simp only [hcount]) rfl
    · refine .idle hhere rfl ?_ rfl (by simp [hwait]) rfl
      cases hcand : ring.state.psi.candidateStart.filter fun candidate =>
          decide (c.nextSequence ≤ candidate) with
      | none => simpa using hinside
      | some candidate => simpa using (Option.filter_eq_some_iff.mp hcand).2
  · rename_i hwait
    unfold RingCursor.read
    split
    · exact .packets hhere rfl le_rfl (fun _ => rfl) (by simp only [hcount]) (by simpa using hwait)
    · exact .idle hhere rfl le_rfl rfl (fun _ => ⟨rfl, by omega⟩) rfl

/-- A cursor never moves back. -/
theorem ReadCase.advances {ring : MpegTsRing} {c c' : RingCursor}
    {result : Except RingReadError (Option RingRead)} (h : ReadCase ring c c' result)
    (hbehind : c.generation ≤ ring.state.generation) :
    c.generation ≤ c'.generation ∧ c'.generation ≤ ring.state.generation ∧
      (c'.generation = c.generation → c.nextSequence ≤ c'.nextSequence) := by
  cases h with
  | packets here stays later contiguous behind ready =>
    exact ⟨by omega, by omega, fun _ => behind ▸ later.trans (Nat.le_add_right _ _)⟩
  | lagged here stays later | idle here stays later waits edge closed =>
    exact ⟨by omega, by omega, fun _ => later⟩
  | crossed away here => exact ⟨by omega, by omega, by omega⟩
  | failed => exact ⟨le_rfl, hbehind, fun _ => le_rfl⟩

/-! ## Batches -/

def batch? : RingRead → Option Batch
  | .packets generation firstSequence bytes => some { generation, firstSequence, bytes }
  | .lagged .. | .generationBoundary .. | .closed .. => none

/-- The batches among the events that a reader has received. -/
def batches (received : List RingRead) : List Batch := received.filterMap batch?

/-- A lag of the generation was reported. -/
def HasLagged (received : List RingRead) (generation : Nat) : Prop :=
  ∃ skipped resumeAt, .lagged generation skipped resumeAt ∈ received

def Batch.nextSequence (b : Batch) : Nat := b.firstSequence + b.bytes.length / mpegTsPacketSize

def Batch.range (b : Batch) : Nat × Nat × Nat := (b.generation, b.firstSequence, b.nextSequence)

/-- A batch holds the packet of this generation and sequence. -/
def Covers (bs : List Batch) (generation sequence : Nat) : Prop :=
  ∃ b ∈ bs, b.generation = generation ∧ b.firstSequence ≤ sequence ∧ sequence < b.nextSequence

theorem Covers.append {bs : List Batch} {g q : Nat} (h : Covers bs g q) (more : List Batch) :
    Covers (bs ++ more) g q := by
  obtain ⟨b, hb, hrest⟩ := h
  exact ⟨b, List.mem_append_left _ hb, hrest⟩

theorem HasLagged.append {received : List RingRead} {g : Nat} (h : HasLagged received g)
    (more : List RingRead) : HasLagged (received ++ more) g := by
  obtain ⟨skipped, resumeAt, hmem⟩ := h
  exact ⟨skipped, resumeAt, List.mem_append_left _ hmem⟩

theorem batches_append (a b : List RingRead) : batches (a ++ b) = batches a ++ batches b :=
  List.filterMap_append

/-- The events that a read adds. -/
def newEvents : Except RingReadError (Option RingRead) → List RingRead
  | .ok event => event.toList
  | .error _ => []

theorem batches_newEvents_packets (generation first : Nat) (bytes : Bytes) :
    batches (newEvents (.ok (some (.packets generation first bytes)))) =
      [⟨generation, first, bytes⟩] := rfl

theorem batches_newEvents_lagged (generation skipped resumeAt : Nat) :
    batches (newEvents (.ok (some (.lagged generation skipped resumeAt)))) = [] := rfl

theorem batches_newEvents_boundary (previous generation : Nat) :
    batches (newEvents (.ok (some (.generationBoundary previous generation)))) = [] := rfl

theorem batches_newEvents_closed (closed : Option RingCloseReason) (generation : Nat) :
    batches (newEvents (.ok (closed.map (.closed generation)))) = [] := by
  cases closed <;> rfl

theorem receive_eq (reader : Reader) (ring : MpegTsRing) (maxPackets : Nat) :
    RingSystem.receive reader ring maxPackets =
      ⟨(reader.cursor.tryNext ring maxPackets).1,
        reader.received ++ newEvents (reader.cursor.tryNext ring maxPackets).2⟩ := by
  unfold RingSystem.receive
  cases hres : reader.cursor.tryNext ring maxPackets with
  | mk cursor result =>
    match result with
    | .ok (some event) => rfl
    | .ok none => simp [newEvents]
    | .error error => simp [newEvents]

/-- The batches come in the order of their generations. Without a lag, those of the cursor's
generation have no gaps up to the cursor. -/
structure TraceOk (c : RingCursor) (received : List RingRead) : Prop where
  older : ∀ b ∈ batches received, b.generation ≤ c.generation
  sorted : (batches received).Pairwise fun a b => a.generation ≤ b.generation
  covered : ∀ b ∈ batches received, b.generation = c.generation →
    ¬ HasLagged received c.generation → c.waitingForSafeBoundary = false ∧
      ∀ q, b.firstSequence ≤ q → q < c.nextSequence → Covers (batches received) c.generation q

theorem TraceOk.read {ring : MpegTsRing} {c c' : RingCursor} {received : List RingRead}
    {result : Except RingReadError (Option RingRead)} (h : TraceOk c received)
    (hbehind : c.generation ≤ ring.state.generation) (hread : ReadCase ring c c' result) :
    TraceOk c' (received ++ newEvents result) := by
  have hlagged : ∀ {g}, HasLagged received g → HasLagged (received ++ newEvents result) g :=
    fun hl => hl.append _
  have hold : ∀ b ∈ batches received, b.generation ≤ c'.generation := fun b hb =>
    (h.older b hb).trans (hread.advances hbehind).1
  cases hread with
  | packets here stays later contiguous behind ready =>
    rename_i first bytes
    have hlast : ∀ q, first ≤ q → q < c'.nextSequence →
        Covers (batches received ++ [⟨ring.state.generation, first, bytes⟩]) c'.generation q :=
      fun q hlo hhi => ⟨⟨ring.state.generation, first, bytes⟩, by simp, by rw [stays, here], hlo,
        by rw [behind] at hhi; exact hhi⟩
    refine ⟨?_, ?_, ?_⟩ <;> rw [batches_append, batches_newEvents_packets]
    · intro b hb
      rcases List.mem_append.mp hb with hb | hb
      · exact hold b hb
      · rw [List.mem_singleton.mp hb, stays, here]
    · refine List.pairwise_append.mpr ⟨h.sorted, List.pairwise_singleton _ _, fun b hb b' hb' => ?_⟩
      rw [List.mem_singleton.mp hb']
      exact here ▸ h.older b hb
    · intro b hb hgen hlag
      refine ⟨ready, fun q hlo hhi => ?_⟩
      rcases List.mem_append.mp hb with hb | hb
      · obtain ⟨hready, hcover⟩ := h.covered b hb (hgen.trans stays)
          fun hl => hlag (stays ▸ hlagged hl)
        rcases Nat.lt_or_ge q first with hq | hq
        · rw [stays]
          exact (hcover q hlo (contiguous hready ▸ hq)).append _
        · exact hlast q hq hhi
      · rw [List.mem_singleton.mp hb] at hlo
        exact hlast q hlo hhi
  | lagged here stays later =>
    rename_i skipped resumeAt
    refine ⟨?_, ?_, ?_⟩ <;> rw [batches_append, batches_newEvents_lagged, List.append_nil]
    · exact hold
    · exact h.sorted
    · intro b _ _ hlag
      exact absurd ⟨skipped, resumeAt, by simp [newEvents, stays, here]⟩ hlag
  | crossed away here =>
    refine ⟨?_, ?_, ?_⟩ <;> rw [batches_append, batches_newEvents_boundary, List.append_nil]
    · exact hold
    · exact h.sorted
    · intro b hb hgen
      have := h.older b hb
      omega
  | idle here stays later waits edge closed =>
    subst closed
    refine ⟨?_, ?_, ?_⟩ <;> rw [batches_append, batches_newEvents_closed, List.append_nil]
    · exact hold
    · exact h.sorted
    · intro b hb hgen hlag
      obtain ⟨hready, hcover⟩ := h.covered b hb (hgen.trans stays)
        fun hl => hlag (stays ▸ hlagged hl)
      rw [waits, (edge hready).1]
      exact ⟨hready, hcover⟩
  | failed => simpa [newEvents] using h

/-! ## Viewers -/

def ViewerPhase.batch : ViewerPhase → Option Batch
  | .holding batch | .yielding batch => some batch
  | .registering | .reading | .lagged | .crossing _ | .ended => none

/-- The published position at each point of the loop. A waiting cursor moves ahead of it, and what a
viewer has read is not in it before its update. -/
def PhaseOk (v : Viewer) (c : RingCursor) : Prop :=
  match v.phase with
  | .registering => v.position = none ∧ v.parked = c.nextSequence
  | .reading => ∀ p, v.position = some p → p.generation = c.generation ∧
      p.nextSequence = if c.waitingForSafeBoundary then v.parked else c.nextSequence
  | .holding batch => batch.generation = c.generation ∧ c.waitingForSafeBoundary = false ∧
      ∀ p, v.position = some p → p.generation = c.generation → p.nextSequence ≤ batch.firstSequence
  | .yielding _ => c.waitingForSafeBoundary = false ∧
      ∀ p, v.position = some p → p = ⟨c.generation, c.nextSequence⟩
  | .lagged => v.parked = c.nextSequence
  | .crossing generation => generation = c.generation ∧ v.parked = c.nextSequence ∧
      ∀ p, v.position = some p → p.generation < generation
  | .ended => True

structure ViewerOk (ring : MpegTsRing) (v : Viewer) (r : Reader) : Prop where
  trace : TraceOk r.cursor r.received
  behind : r.cursor.generation ≤ ring.state.generation
  position : ∀ p, v.position = some p → p.generation ≤ r.cursor.generation ∧
    (p.generation = r.cursor.generation → p.nextSequence ≤ r.cursor.nextSequence)
  phase : PhaseOk v r.cursor
  sent : ∃ pending, batches r.received = v.yielded ++ pending ∧
    (v.phase = .ended ∨ pending = v.phase.batch.toList)

/-- What holds of a reader whose viewer was registered when a drain loop ended. -/
structure DrainedOk (generation target : Nat) (c : RingCursor) (received : List RingRead) :
    Prop where
  reached : generation ≤ c.generation ∧ (c.generation = generation → target ≤ c.nextSequence)
  covered : ∀ b ∈ batches received, b.generation = generation → ¬ HasLagged received generation →
    ∀ q, b.firstSequence ≤ q → q < target → Covers (batches received) generation q

/-- A registered viewer whose published position is past the target has read up to it. -/
theorem ViewerOk.drained {ring : MpegTsRing} {v : Viewer} {r : Reader} (h : ViewerOk ring v r)
    {p : ViewerPosition} (hp : v.position = some p) {target : Nat}
    (hpast : ring.state.generation < p.generation ∨
      (p.generation = ring.state.generation ∧ target ≤ p.nextSequence)) :
    DrainedOk ring.state.generation target r.cursor r.received := by
  have hbehind := h.behind
  obtain ⟨hle, hnext⟩ := h.position p hp
  obtain ⟨hgen, htarget⟩ := hpast.resolve_left (by omega)
  have hcursor : r.cursor.generation = ring.state.generation := by omega
  replace hnext := hnext (by omega)
  refine ⟨⟨by omega, fun _ => by omega⟩, fun b hb hbgen hlag q hlo hhi => ?_⟩
  rw [← hcursor] at hbgen hlag ⊢
  exact (h.trace.covered b hb hbgen hlag).2 q hlo (by omega)

/-- Later reads start at the target or behind it, so the claim about the range below stays. -/
theorem DrainedOk.read {ring : MpegTsRing} {c c' : RingCursor} {received : List RingRead}
    {result : Except RingReadError (Option RingRead)} {g target : Nat}
    (h : DrainedOk g target c received) (hbehind : c.generation ≤ ring.state.generation)
    (hread : ReadCase ring c c' result) :
    DrainedOk g target c' (received ++ newEvents result) := by
  obtain ⟨hle, hreached⟩ := h.reached
  obtain ⟨hgen, -, hnext⟩ := hread.advances hbehind
  -- A new batch of the generation starts behind the target.
  have hnew : ∀ b ∈ batches (newEvents result), b.generation = g → target ≤ b.firstSequence := by
    intro b hb hbgen
    cases hread with
    | packets here stays later contiguous behind ready =>
      obtain rfl := List.mem_singleton.mp hb
      exact (hreached (here.trans hbgen)).trans later
    | lagged | crossed | failed => cases hb
    | idle here stays later waits edge closed =>
      rw [closed, batches_newEvents_closed] at hb
      cases hb
  refine ⟨⟨by omega, fun hg => (hreached (by omega)).trans (hnext (by omega))⟩, ?_⟩
  intro b hb hbgen hlag q hlo hhi
  rw [batches_append] at hb ⊢
  rcases List.mem_append.mp hb with hb | hb
  · exact (h.covered b hb hbgen (fun hl => hlag (hl.append _)) q hlo hhi).append _
  · have := hnew b hb hbgen
    omega

/-- A read keeps the viewer in order. -/
theorem ViewerOk.read {ring : MpegTsRing} {v : Viewer} {r : Reader} (h : ViewerOk ring v r)
    (hphase : v.phase = .reading) {c' : RingCursor}
    {result : Except RingReadError (Option RingRead)} (hread : ReadCase ring r.cursor c' result) :
    ViewerOk ring (v.onRead c' result) ⟨c', r.received ++ newEvents result⟩ := by
  have htrace := h.trace.read h.behind hread
  obtain ⟨hgen, hbehind, hnext⟩ := hread.advances h.behind
  have hposition : ∀ p, v.position = some p → p.generation ≤ c'.generation ∧
      (p.generation = c'.generation → p.nextSequence ≤ c'.nextSequence) := by
    intro p hp
    obtain ⟨hle, hplace⟩ := h.position p hp
    exact ⟨hle.trans hgen, fun hg => (hplace (by omega)).trans (hnext (by omega))⟩
  have hpos := h.phase
  simp only [PhaseOk, hphase] at hpos
  obtain ⟨pending, hsent, hpending⟩ := h.sent
  replace hpending : pending = [] := by simpa [hphase, ViewerPhase.batch] using hpending
  rw [hpending, List.append_nil] at hsent
  have hsame : batches (newEvents result) = [] →
      batches (r.received ++ newEvents result) = v.yielded ++ [] := by
    intro hnone
    rw [batches_append, hnone, hsent]
  cases hread with
  | packets here stays later contiguous behind ready =>
    rename_i first bytes
    have hbefore : ∀ p, v.position = some p → p.generation = c'.generation →
        p.nextSequence ≤ first := fun p hp hg =>
      ((h.position p hp).2 (hg.trans stays)).trans later
    refine ⟨htrace, hbehind, hposition, ⟨here.symm.trans stays.symm, ready, hbefore⟩,
      ⟨_, ?_, .inr rfl⟩⟩
    rw [batches_append, hsent]
    rfl
  | lagged here stays later =>
    exact ⟨htrace, hbehind, hposition, rfl, ⟨[], hsame rfl, .inr rfl⟩⟩
  | crossed away here =>
    have hbefore : ∀ p, v.position = some p → p.generation < ring.state.generation := by
      intro p hp
      have hle := (h.position p hp).1
      have hcursor := h.behind
      omega
    exact ⟨htrace, hbehind, hposition, ⟨here.symm, rfl, hbefore⟩, ⟨[], hsame rfl, .inr rfl⟩⟩
  | idle here stays later waits edge closed =>
    subst closed
    cases hclosed : ring.state.closed with
    | none =>
      rw [hclosed] at htrace hsame
      refine ⟨htrace, hbehind, hposition, ?_, ⟨[], hsame rfl, .inr ?_⟩⟩
      · simp only [PhaseOk, Viewer.onRead, Option.map_none, hphase]
        intro p hp
        obtain ⟨hgen, hplace⟩ := hpos p hp
        refine ⟨by omega, ?_⟩
        rw [hplace, waits]
        split
        · rfl
        · rename_i hready
          rw [(edge (by simpa using hready)).1]
      · simp [Viewer.onRead, hphase, ViewerPhase.batch]
    | some reason =>
      rw [hclosed] at htrace hsame
      exact ⟨htrace, hbehind, hposition, trivial, ⟨[], hsame rfl, .inl rfl⟩⟩
  | failed => exact ⟨htrace, hbehind, hposition, trivial, ⟨[], hsame rfl, .inl rfl⟩⟩

/-- One step of a viewer replaces the viewer and its reader and nothing else. -/
theorem ViewerOk.act {c : SessionConfig} {s t : HttpTsSession} {log : List Bytes} {i : Nat}
    {v : Viewer} {r : Reader} (h : ViewerOk s.core.ring v r) (hring : RingOk s.core.ring log)
    (hinside : r.cursor.generation = s.core.ring.state.generation →
      r.cursor.nextSequence ≤ s.core.ring.state.nextSequence)
    (hget : s.core.readers[i]? = some r) (hstep : s.viewerStep c i v r = some t) :
    ∃ v' r', t = { s with
        core := { s.core with readers := s.core.readers.set i r' }
        viewers := s.viewers.set i v' } ∧ ViewerOk s.core.ring v' r' ∧
      (r' = r ∨ r' = RingSystem.receive r s.core.ring c.viewerBatchPackets) := by
  have hset : ∀ v', s.setViewer i v' = { s with
      core := { s.core with readers := s.core.readers.set i r }
      viewers := s.viewers.set i v' } := by
    intro v'
    obtain ⟨hi, rfl⟩ := List.getElem?_eq_some_iff.mp hget
    rw [List.set_getElem_self]
    rfl
  have hphase := h.phase
  obtain ⟨pending, hsent, hpending⟩ := h.sent
  unfold HttpTsSession.viewerStep at hstep
  unfold PhaseOk at hphase
  cases hv : v.phase with
  | registering =>
    simp only [hv, Option.some.injEq] at hstep hphase
    subst hstep
    refine ⟨_, r, hset _, ⟨h.trace, h.behind, ?_, ?_, ⟨pending, hsent, .inr ?_⟩⟩,
      .inl rfl⟩
    · rintro p ⟨⟩
      exact ⟨le_rfl, fun _ => le_rfl⟩
    · rintro p ⟨⟩
      exact ⟨rfl, by split; exacts [hphase.2.symm, rfl]⟩
    · simpa [hv, ViewerPhase.batch] using hpending
  | reading =>
    simp only [hv, Option.some.injEq] at hstep
    subst hstep
    refine ⟨_, _, rfl, ?_, .inr rfl⟩
    rw [receive_eq]
    exact h.read hv (tryNext_case hring hinside c.viewerBatchPackets)
  | holding batch =>
    simp only [hv, Option.some.injEq] at hstep hphase
    subst hstep
    refine ⟨_, r, hset _, ⟨h.trace, h.behind, ?_, ⟨hphase.2.1, ?_⟩,
      ⟨pending, hsent, .inr ?_⟩⟩, .inl rfl⟩
    · intro p hp
      obtain ⟨_, _, rfl⟩ := Option.map_eq_some_iff.mp hp
      exact ⟨hphase.1.le, fun _ => le_rfl⟩
    · intro p hp
      obtain ⟨_, _, rfl⟩ := Option.map_eq_some_iff.mp hp
      rw [hphase.1]
    · simpa [hv, ViewerPhase.batch, Viewer.update] using hpending
  | yielding batch =>
    simp only [hv, Option.some.injEq] at hstep hphase
    subst hstep
    refine ⟨_, r, hset _, ⟨h.trace, h.behind, h.position, ?_,
      ⟨[], ?_, .inr rfl⟩⟩, .inl rfl⟩
    · intro p hp
      rw [hphase.2 p hp, hphase.1]
      exact ⟨rfl, rfl⟩
    · have : pending = [batch] := by simpa [hv, ViewerPhase.batch] using hpending
      rw [hsent, this, List.append_nil]
  | lagged =>
    simp only [hv, Option.some.injEq] at hstep hphase
    subst hstep
    refine ⟨_, r, hset _, ⟨h.trace, h.behind, ?_, ?_, ⟨pending, hsent, .inr ?_⟩⟩,
      .inl rfl⟩
    · intro p hp
      obtain ⟨_, _, rfl⟩ := Option.map_eq_some_iff.mp hp
      exact ⟨le_rfl, fun _ => le_rfl⟩
    · intro p hp
      obtain ⟨_, _, rfl⟩ := Option.map_eq_some_iff.mp hp
      exact ⟨rfl, by split; exacts [hphase.symm, rfl]⟩
    · simpa [hv, ViewerPhase.batch, Viewer.update] using hpending
  | crossing generation =>
    simp only [hv, Option.some.injEq] at hstep hphase
    subst hstep
    refine ⟨_, r, hset _, ⟨h.trace, h.behind, ?_, ?_, ⟨pending, hsent, .inr ?_⟩⟩,
      .inl rfl⟩
    · intro p hp
      obtain ⟨_, _, rfl⟩ := Option.map_eq_some_iff.mp hp
      exact ⟨hphase.1.le, fun _ => le_rfl⟩
    · intro p hp
      obtain ⟨_, _, rfl⟩ := Option.map_eq_some_iff.mp hp
      exact ⟨hphase.1, by split; exacts [hphase.2.1.symm, rfl]⟩
    · simpa [hv, ViewerPhase.batch, Viewer.update] using hpending
  | ended =>
    simp only [hv, Option.some.injEq] at hstep
    subst hstep
    exact ⟨_, r, hset _, ⟨h.trace, h.behind, by simp, trivial,
      ⟨pending, hsent, .inl rfl⟩⟩, .inl rfl⟩

theorem ViewerOk.leave {ring : MpegTsRing} {v : Viewer} {r : Reader} (h : ViewerOk ring v r) :
    ViewerOk ring { v with phase := .ended } r := by
  obtain ⟨pending, hsent, _⟩ := h.sent
  exact ⟨h.trace, h.behind, h.position, trivial, ⟨pending, hsent, .inl rfl⟩⟩

theorem ViewerOk.mono {ring ring' : MpegTsRing} {v : Viewer} {r : Reader} (h : ViewerOk ring v r)
    (hle : ring.state.generation ≤ ring'.state.generation) : ViewerOk ring' v r :=
  ⟨h.trace, h.behind.trans hle, h.position, h.phase, h.sent⟩

theorem viewerOk_subscribe (ring : MpegTsRing) (preRollPackets : Nat) :
    ViewerOk ring { parked := (ring.subscribeWithPreRoll preRollPackets).nextSequence }
      { cursor := ring.subscribeWithPreRoll preRollPackets } where
  trace := ⟨by simp [batches], by simp [batches], by simp [batches]⟩
  behind := le_rfl
  position := by simp
  phase := ⟨rfl, rfl⟩
  sent := ⟨[], rfl, .inr rfl⟩

end IptvRelay.Recovery
