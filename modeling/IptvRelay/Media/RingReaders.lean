import IptvRelay.Media.RingWindow

/-!
# Readers of a ring

A `RingSystem` is a ring with any number of cursors. It also records, for the
specification only, the packets pushed into each generation and the events each
cursor has received. The two main results say what a reader can rely on over
every interleaving of writes, rotations, closes, subscriptions and reads.
-/

namespace IptvRelay.Media

open Blocks Psi Transition MpegTsRing

/-! ## One read -/

/-- The generation and sequence that follow the packets delivered so far. A lag or a generation
boundary breaks the sequence, so nothing is remembered across it. -/
def RingRead.advance (delivered : Option (Nat × Nat)) : RingRead → Option (Nat × Nat)
  | .packets generation first bytes => some (generation, first + bytes.length / mpegTsPacketSize)
  | .lagged .. | .generationBoundary .. => none
  | .closed .. => delivered

def deliveredUpTo (received : List RingRead) : Option (Nat × Nat) :=
  received.foldl RingRead.advance none

/-- A cursor stays inside the log of its generation. It continues behind the last delivered
packet, or it waits, or it stands at a safe restart point. -/
structure CursorOk (log : Nat → List Bytes) (c : RingCursor) (delivered : Option (Nat × Nat)) :
    Prop where
  inside : c.nextSequence ≤ (log c.generation).length
  contiguous : ∀ g n, delivered = some (g, n) →
    g = c.generation ∧ n = c.nextSequence ∧ c.waitingForSafeBoundary = false
  fresh : delivered = none → c.waitingForSafeBoundary = false →
    ∃ e, SafeStart (log c.generation) c.nextSequence e

/-- What an event tells the reader that received it from `ring`. -/
def EventOk (ring : MpegTsRing) (log : Nat → List Bytes) (c : RingCursor)
    (delivered : Option (Nat × Nat)) : RingRead → Prop
  | .packets g f bytes => g = ring.state.generation ∧ ring.state.firstSequence ≤ f ∧
      Delivers (log g) f bytes ∧ (∀ g' n, delivered = some (g', n) → g = g' ∧ f = n) ∧
      (delivered = none → ∃ e, SafeStart (log g) f e)
  | .closed _ _ => c.waitingForSafeBoundary = false → c.nextSequence = ring.state.nextSequence
  | .lagged .. | .generationBoundary .. => True

/-- An unconfirmed PAT lies inside the log. -/
theorem candidateStart_lt {log : List Bytes} {t : PatPmtTracker} (h : TrackerOk log t) {b : Nat}
    (hb : t.candidateStart = some b) : b < log.length := by
  obtain ⟨c, hc, rfl⟩ := Option.map_eq_some_iff.mp hb
  obtain ⟨_, _, _, ⟨_, _, _, hpat, _⟩, _⟩ := h.candidate c hc
  have := hpat.bounds
  omega

/-- A resume position lies between the target and the live edge, and is a safe restart point
unless the cursor has to wait. -/
theorem safeResumePosition_spec {ring : MpegTsRing} {log : List Bytes} (h : RingOk ring log)
    (target : Nat) (htarget : target ≤ ring.state.nextSequence) :
    target ≤ (safeResumePosition ring.state target).1 ∧
      (safeResumePosition ring.state target).1 ≤ log.length ∧
      ((safeResumePosition ring.state target).2 = false →
        ∃ e, SafeStart log (safeResumePosition ring.state target).1 e) := by
  have hnext := h.next
  unfold safeResumePosition
  split
  · rename_i b hb
    obtain ⟨e, he⟩ := h.boundaries b (List.mem_of_find?_eq_some hb)
    have := he.bounds
    exact ⟨by simpa using List.find?_some hb, by omega, fun _ => ⟨e, he⟩⟩
  · split
    · rename_i candidate hcand
      obtain ⟨hstart, hle⟩ := Option.filter_eq_some_iff.mp hcand
      exact ⟨by simpa using hle, (candidateStart_lt h.tracker hstart).le, by simp⟩
    · exact ⟨htarget, hnext.le, by simp⟩

/-- The reading part of `try_next`, from a position inside the window. -/
theorem read_spec {ring : MpegTsRing} {log : Nat → List Bytes} {c : RingCursor}
    {delivered : Option (Nat × Nat)} {maxPackets : Nat}
    (h : RingOk ring (log ring.state.generation)) (hc : CursorOk log c delivered)
    (hgen : c.generation = ring.state.generation) (hwait : c.waitingForSafeBoundary = false)
    (hlo : ring.state.firstSequence ≤ c.nextSequence) (hmax : maxPackets ≠ 0) :
    (∀ event, (c.read ring maxPackets).2 = some event →
      CursorOk log (c.read ring maxPackets).1 (event.advance delivered) ∧
        EventOk ring log c delivered event) ∧
      ((c.read ring maxPackets).2 = none → (c.read ring maxPackets).1 = c) := by
  have hnext := h.next
  have hinside := hc.inside
  rw [hgen] at hinside
  unfold RingCursor.read
  split
  · rename_i hdata
    refine ⟨?_, by simp⟩
    rintro event ⟨⟩
    have hdel := h.readPackets
      (min (ring.state.nextSequence - c.nextSequence) maxPackets) hlo (by omega) (by omega)
    have hcount : (ring.readPackets c.nextSequence
        (min (ring.state.nextSequence - c.nextSequence) maxPackets)).length / mpegTsPacketSize =
        min (ring.state.nextSequence - c.nextSequence) maxPackets := by
      rw [h.length_readPackets, Nat.mul_div_cancel _ (by decide)]
    refine ⟨⟨by simp only [hgen]; omega, ?_, by simp [RingRead.advance]⟩,
      rfl, hlo, hdel, ?_, ?_⟩
    · rintro g n hgn
      simp only [RingRead.advance, Option.some.injEq, Prod.mk.injEq] at hgn
      obtain ⟨rfl, rfl⟩ := hgn
      exact ⟨hgen.symm, by rw [hcount], hwait⟩
    · intro g n hgn
      obtain ⟨rfl, rfl, _⟩ := hc.contiguous g n hgn
      exact ⟨hgen.symm, rfl⟩
    · intro hnone
      rw [← hgen]
      exact hc.fresh hnone hwait
  · rename_i hedge
    refine ⟨fun event hevent => ?_, fun _ => rfl⟩
    obtain ⟨reason, _, rfl⟩ := Option.map_eq_some_iff.mp hevent
    exact ⟨hc, fun _ => by omega⟩

/-- Everything one `try_next` can do to a cursor. -/
theorem tryNext_spec {ring : MpegTsRing} {log : Nat → List Bytes} {c : RingCursor}
    {delivered : Option (Nat × Nat)} (h : RingOk ring (log ring.state.generation))
    (hc : CursorOk log c delivered) (maxPackets : Nat) :
    (∀ event, (c.tryNext ring maxPackets).2 = .ok (some event) →
      CursorOk log (c.tryNext ring maxPackets).1 (event.advance delivered) ∧
        EventOk ring log c delivered event) ∧
      ((c.tryNext ring maxPackets).2 = .ok none →
        CursorOk log (c.tryNext ring maxPackets).1 delivered) ∧
      (∀ error, (c.tryNext ring maxPackets).2 = .error error →
        (c.tryNext ring maxPackets).1 = c) := by
  have hfirst := h.first
  have hnext := h.next
  obtain ⟨hlo, hhi, hsafe⟩ := safeResumePosition_spec h ring.state.firstSequence
    (by omega)
  unfold RingCursor.tryNext
  dsimp only
  split
  · exact ⟨by simp, by simp, fun _ _ => rfl⟩
  split
  · refine ⟨?_, by simp, by simp⟩
    rintro event ⟨⟩
    exact ⟨⟨hhi, by simp [RingRead.advance], fun _ hw => hsafe hw⟩, trivial⟩
  rename_i hmax hgen
  replace hgen := not_not.mp hgen
  split
  · refine ⟨?_, by simp, by simp⟩
    rintro event ⟨⟩
    exact ⟨⟨by rw [hgen]; exact hhi, by simp [RingRead.advance],
      fun _ hw => by rw [hgen]; exact hsafe hw⟩, trivial⟩
  rename_i hlag
  split
  · rename_i hwait
    -- A waiting cursor has delivered nothing since it was positioned.
    have hnone : delivered = none := by
      cases hd : delivered with
      | none => rfl
      | some p => simp [(hc.contiguous p.1 p.2 hd).2.2] at hwait
    subst hnone
    split
    · rename_i boundary hfind
      obtain ⟨e, he⟩ := h.boundaries boundary (List.mem_of_find?_eq_some hfind)
      have hle : c.nextSequence ≤ boundary := by simpa using List.find?_some hfind
      have hbounds := he.bounds
      have hmoved : CursorOk log
          { c with nextSequence := boundary, waitingForSafeBoundary := false } none :=
        ⟨by simp only [hgen]; omega, by simp, fun _ _ => ⟨e, by simp only [hgen]; exact he⟩⟩
      have hread := read_spec h hmoved hgen rfl (by simp only; omega) hmax
      refine ⟨fun event hevent => ?_, fun hnone => ?_, by simp⟩
      · obtain ⟨hcursor, hok⟩ := hread.1 event (by simpa using hevent)
        refine ⟨hcursor, ?_⟩
        cases event with
        | packets => exact hok
        | closed => exact fun hw => absurd hw (by simp [hwait])
        | lagged | generationBoundary => trivial
      · rw [hread.2 (by simpa using hnone)]
        exact hmoved
    · have hpos : (ring.state.psi.candidateStart.filter fun candidate =>
          decide (c.nextSequence ≤ candidate)).getD ring.state.nextSequence ≤
          (log c.generation).length := by
        rw [hgen]
        cases hcand : ring.state.psi.candidateStart.filter fun candidate =>
            decide (c.nextSequence ≤ candidate) with
        | none => exact hnext.le
        | some candidate =>
          exact (candidateStart_lt h.tracker (Option.filter_eq_some_iff.mp hcand).1).le
      have hmoved : CursorOk log { c with
          nextSequence := (ring.state.psi.candidateStart.filter fun candidate =>
            decide (c.nextSequence ≤ candidate)).getD ring.state.nextSequence } none :=
        ⟨hpos, by simp, fun _ hw => by simp [hwait] at hw⟩
      refine ⟨fun event hevent => ?_, fun _ => hmoved, by simp⟩
      simp only [Except.ok.injEq] at hevent
      obtain ⟨reason, _, rfl⟩ := Option.map_eq_some_iff.mp hevent
      exact ⟨hmoved, fun hw => by simp [hwait] at hw⟩
  · rename_i hwait
    have hread := read_spec h hc hgen (by simpa using hwait) (by omega) hmax
    refine ⟨fun event hevent => hread.1 event (by simpa using hevent), fun hnone => ?_, by simp⟩
    rw [hread.2 (by simpa using hnone)]
    exact hc

/-! ## Any number of readers -/

/-- A cursor and the events it has received, oldest first. -/
structure Reader where
  cursor : RingCursor
  received : List RingRead := []

structure RingSystem where
  ring : MpegTsRing
  /-- The packets pushed into each generation. -/
  log : Nat → List Bytes
  readers : List Reader

/-- An operation on the ring or on one of its cursors. Every way to subscribe selects a number of
packets behind the live edge. -/
inductive RingOp where
  | push (bytes : Bytes) (now : Instant)
  | startNewGeneration
  | close (reason : RingCloseReason)
  | subscribe (preRollPackets : Nat)
  | tryNext (reader maxPackets : Nat)

namespace RingSystem

/-- The packets of a successful push belong to the generation that its outcome names. -/
def logPush (log : Nat → List Bytes) (bytes : Bytes) :
    Except RingWriteError WriteOutcome → Nat → List Bytes
  | .ok outcome => Function.update log outcome.generation
      (log outcome.generation ++ chunksExact mpegTsPacketSize bytes)
  | .error _ => log

def receive (reader : Reader) (ring : MpegTsRing) (maxPackets : Nat) : Reader :=
  let (cursor, result) := reader.cursor.tryNext ring maxPackets
  match result with
  | .ok (some event) => { cursor, received := reader.received ++ [event] }
  | _ => { reader with cursor }

def step (s : RingSystem) : RingOp → Option RingSystem
  | .push bytes now =>
    let pushed := s.ring.push bytes now
    some { s with ring := pushed.1, log := logPush s.log bytes pushed.2 }
  | .startNewGeneration => some { s with ring := s.ring.startNewGeneration.1 }
  | .close reason => some { s with ring := (s.ring.close reason).1 }
  | .subscribe preRollPackets =>
    some { s with readers := s.readers ++ [{ cursor := s.ring.subscribeWithPreRoll preRollPackets }] }
  | .tryNext i maxPackets => s.readers[i]?.map fun reader =>
    { s with readers := s.readers.set i (receive reader s.ring maxPackets) }

end RingSystem

/-- The ring of a configuration with all of its possible readers. -/
def ringMachine (config : MpegTsRingConfig) : Machine RingSystem RingOp where
  start := { ring := new config, log := fun _ => [], readers := [] }
  step := RingSystem.step

structure ReaderOk (log : Nat → List Bytes) (reader : Reader) : Prop where
  cursor : CursorOk log reader.cursor (deliveredUpTo reader.received)
  received : ∀ g f bytes, .packets g f bytes ∈ reader.received → Delivers (log g) f bytes

structure SystemOk (config : MpegTsRingConfig) (s : RingSystem) : Prop where
  config : s.ring.config = config
  ring : RingOk s.ring (s.log s.ring.state.generation)
  future : ∀ g, s.ring.state.generation < g → s.log g = []
  readers : ∀ reader ∈ s.readers, ReaderOk s.log reader

/-- Readers keep what they know when the logs grow. -/
theorem CursorOk.mono {log log' : Nat → List Bytes} {c : RingCursor}
    {delivered : Option (Nat × Nat)} (h : CursorOk log c delivered)
    (sub : ∀ g, log g <+: log' g) : CursorOk log' c delivered := by
  refine ⟨h.inside.trans (sub _).length_le, h.contiguous, fun hnone hw => ?_⟩
  obtain ⟨e, he⟩ := h.fresh hnone hw
  obtain ⟨more, hmore⟩ := sub c.generation
  exact ⟨e, hmore ▸ he.append more⟩

theorem ReaderOk.mono {log log' : Nat → List Bytes} {reader : Reader} (h : ReaderOk log reader)
    (sub : ∀ g, log g <+: log' g) : ReaderOk log' reader :=
  ⟨h.cursor.mono sub, fun g f bytes hmem => (h.received g f bytes hmem).mono (sub g)⟩

theorem update_append_isPrefix (log : Nat → List Bytes) (g : Nat) (more : List Bytes) (g' : Nat) :
    log g' <+: Function.update log g (log g ++ more) g' := by
  by_cases hg : g' = g
  · subst hg
    simp
  · simp [Function.update_of_ne hg]

theorem ReaderOk.receive {ring : MpegTsRing} {log : Nat → List Bytes} {reader : Reader}
    (hring : RingOk ring (log ring.state.generation)) (h : ReaderOk log reader)
    (maxPackets : Nat) : ReaderOk log (RingSystem.receive reader ring maxPackets) := by
  obtain ⟨hsome, hnone, herror⟩ := tryNext_spec hring h.cursor maxPackets
  unfold RingSystem.receive
  cases hres : reader.cursor.tryNext ring maxPackets with
  | mk cursor result =>
    rw [hres] at hsome hnone herror
    match result with
    | .ok (some event) =>
      obtain ⟨hcursor, hevent⟩ := hsome event rfl
      refine ⟨by simpa [deliveredUpTo] using hcursor, fun g f bytes hmem => ?_⟩
      rcases List.mem_append.mp hmem with hmem | hmem
      · exact h.received g f bytes hmem
      · rw [← List.mem_singleton.mp hmem] at hevent
        exact hevent.2.2.1
    | .ok none => exact ⟨hnone rfl, h.received⟩
    | .error error =>
      rw [show cursor = reader.cursor from herror error rfl]
      exact h

/-- One operation keeps the system in order. -/
theorem SystemOk.step {config : MpegTsRingConfig} {s t : RingSystem} (h : SystemOk config s)
    (op : RingOp) (hstep : s.step op = some t) : SystemOk config t := by
  cases op with
  | push bytes now =>
    have ht : t = { s with
        ring := (s.ring.push bytes now).1
        log := RingSystem.logPush s.log bytes (s.ring.push bytes now).2 } :=
      (Option.some.inj hstep).symm
    rcases push_cases s.ring bytes now with ⟨error, herror⟩ | ⟨_, _, _, hconfig, hstate, o, hok, ho, _⟩
    · rw [ht, herror]
      exact h
    · have hring := h.ring.push hok
      have hgen : (s.ring.push bytes now).1.state.generation = s.ring.state.generation := by
        rw [hstate]
        simp [RingState.settle, foldl_pushPacket_generation]
      rw [ht, hok]
      simp only [RingSystem.logPush, ho]
      refine ⟨hconfig.trans h.config, ?_, fun g hg => ?_, fun reader hr => ?_⟩
      · simpa only [hgen, Function.update_self] using hring
      · simp only [hgen] at hg
        simp only [Function.update_of_ne hg.ne', h.future g hg]
      · exact (h.readers reader hr).mono (update_append_isPrefix _ _ _)
  | startNewGeneration =>
    cases hstep
    cases hres : s.ring.startNewGeneration.2 with
    | error error =>
      simp only [startNewGeneration_error hres]
      exact h
    | ok generation =>
      obtain ⟨hring, hgen⟩ := h.ring.startNewGeneration hres
      refine ⟨?_, ?_, fun g hg => h.future g ?_, h.readers⟩
      · unfold MpegTsRing.startNewGeneration
        split <;> exact h.config
      · simpa only [hgen, h.future _ (Nat.lt_succ_self _)] using hring
      · simp only [hgen] at hg
        omega
  | close reason =>
    cases hstep
    have hring := h.ring.close reason
    rw [close_eq] at hring ⊢
    exact ⟨h.config, hring, h.future, h.readers⟩
  | subscribe preRollPackets =>
    cases hstep
    refine ⟨h.config, h.ring, h.future, fun reader hr => ?_⟩
    rcases List.mem_append.mp hr with hr | hr
    · exact h.readers reader hr
    · rw [List.mem_singleton.mp hr]
      have hfirst := h.ring.first
      have hnext := h.ring.next
      obtain ⟨_, hhi, hsafe⟩ := safeResumePosition_spec h.ring
        (max (s.ring.state.nextSequence - preRollPackets) s.ring.state.firstSequence)
        (by omega)
      exact ⟨⟨hhi, by simp [deliveredUpTo], fun _ hw => hsafe hw⟩, by simp⟩
  | tryNext i maxPackets =>
    obtain ⟨reader, hget, rfl⟩ := Option.map_eq_some_iff.mp hstep
    refine ⟨h.config, h.ring, h.future, fun r hr => ?_⟩
    rcases List.mem_or_eq_of_mem_set hr with hr | rfl
    · exact h.readers r hr
    · exact (h.readers reader (List.mem_of_getElem? hget)).receive h.ring maxPackets

/-- The system stays in order over every run. -/
theorem systemOk_of_reachable {config : MpegTsRingConfig} {s : RingSystem}
    (h : (ringMachine config).Reachable s) : SystemOk config s :=
  h.invariant
    ⟨rfl, ringOk_new config, fun _ _ => rfl, by simp [ringMachine]⟩
    (fun _ op _ hs _ hstep => hs.step op hstep)

/-! ## What readers can rely on -/

/-- The window has at most `capacityPackets` packets, each slot of it holds the packet that its
sequence names, and all that readers have received is what was pushed. -/
structure RingIntegrity (s : RingSystem) : Prop where
  pushed : s.ring.state.nextSequence = (s.log s.ring.state.generation).length
  ordered : s.ring.state.firstSequence ≤ s.ring.state.nextSequence
  window : s.ring.state.nextSequence - s.ring.state.firstSequence ≤ s.ring.config.capacityPackets
  slot : ∀ q, s.ring.state.firstSequence ≤ q → q < s.ring.state.nextSequence →
    ∃ packet, (s.log s.ring.state.generation)[q]? = some packet ∧
      packet.length = mpegTsPacketSize ∧
      blockAt mpegTsPacketSize s.ring.state.storage (q % s.ring.config.capacityPackets) = packet
  received : ∀ reader ∈ s.readers, ∀ g f bytes, .packets g f bytes ∈ reader.received →
    Delivers (s.log g) f bytes

/-- The ring never mixes up slots, sequences or generations. -/
theorem ring_integrity (config : MpegTsRingConfig) (s : RingSystem)
    (h : (ringMachine config).Reachable s) : s.ring.config = config ∧ RingIntegrity s := by
  have hok := systemOk_of_reachable h
  have hfirst := hok.ring.first
  have hnext := hok.ring.next
  refine ⟨hok.config, hnext, by omega, by omega, fun q hlo hhi => hok.ring.slot hlo hhi, ?_⟩
  intro reader hr g f bytes hmem
  exact (hok.readers reader hr).received g f bytes hmem

def smallRing : MpegTsRingConfig := ⟨3, 2, by decide, by decide, by decide⟩

/-- A push larger than the ring, a read, and a second generation. -/
theorem ring_integrity_overwritten :
    ∃ s, (ringMachine smallRing).Reachable s ∧
      (s.ring.state.firstSequence = 2 ∧ s.ring.state.nextSequence = 5 ∧
        s.ring.state.generation = 1 ∧
        s.readers.map Reader.received = [[.packets 0 2 (samplePat ++ samplePmt)]]) ∧
      s.ring.config = smallRing ∧ RingIntegrity s := by
  obtain ⟨s, hs, hp⟩ := (ringMachine smallRing).exists_reachable_of_run
    [.push (samplePat ++ samplePmt ++ samplePat ++ samplePmt) 0, .subscribe 2,
      .tryNext 0 8, .startNewGeneration,
      .push (samplePmt ++ samplePat ++ samplePmt ++ samplePmt ++ samplePat) 5]
    (fun s => decide (s.ring.state.firstSequence = 2 ∧ s.ring.state.nextSequence = 5 ∧
      s.ring.state.generation = 1 ∧
      s.readers.map Reader.received = [[.packets 0 2 (samplePat ++ samplePmt)]]))
    (by decide +kernel)
  exact ⟨s, hs, of_decide_eq_true hp, ring_integrity smallRing s hs⟩

/-- What the next event tells a reader: packets continue the delivered ones, the first packets
after a subscription, a lag or a boundary start with a PAT whose PMT is valid and still retained,
and the end is reported at the live edge only. -/
structure DeliverySafe (s : RingSystem) (reader : Reader) (event : RingRead) : Prop where
  contiguous : ∀ g f bytes, event = .packets g f bytes →
    ∀ g' n, deliveredUpTo reader.received = some (g', n) → g = g' ∧ f = n
  restart : ∀ g f bytes, event = .packets g f bytes → deliveredUpTo reader.received = none →
    g = s.ring.state.generation ∧
      ∃ e, SafeStart (s.log g) f e ∧ s.ring.state.firstSequence ≤ f ∧ e < s.ring.state.nextSequence
  ending : ∀ g reason, event = .closed g reason → reader.cursor.waitingForSafeBoundary = false →
    reader.cursor.nextSequence = s.ring.state.nextSequence

/-- Every event of every reader is delivered safely, in every interleaving. -/
theorem cursor_delivery_safe (config : MpegTsRingConfig) (s : RingSystem)
    (h : (ringMachine config).Reachable s) (reader : Reader) (hr : reader ∈ s.readers)
    (maxPackets : Nat) (event : RingRead)
    (hevent : (reader.cursor.tryNext s.ring maxPackets).2 = .ok (some event)) :
    DeliverySafe s reader event := by
  have hok := systemOk_of_reachable h
  have hnext := hok.ring.next
  have hspec := ((tryNext_spec hok.ring (hok.readers reader hr).cursor maxPackets).1 event hevent).2
  refine ⟨?_, ?_, ?_⟩
  · rintro g f bytes rfl
    exact hspec.2.2.2.1
  · rintro g f bytes rfl hnone
    obtain ⟨hgen, hlo, _, _, hfresh⟩ := hspec
    obtain ⟨e, he⟩ := hfresh hnone
    have hbounds := he.bounds
    rw [hgen] at hbounds
    exact ⟨hgen, e, he, hlo, by omega⟩
  · rintro g reason rfl hwait
    exact hspec hwait

/-- A cursor that subscribed to an empty ring gets its first packets at the PAT. -/
theorem cursor_delivery_safe_after_wait :
    ∃ s, (ringMachine smallRing).Reachable s ∧ ∃ reader, s.readers[0]? = some reader ∧
      (reader.cursor.tryNext s.ring 1).2 = .ok (some (.packets 0 1 samplePat)) ∧
      DeliverySafe s reader (.packets 0 1 samplePat) := by
  obtain ⟨s, hs, hp⟩ := (ringMachine smallRing).exists_reachable_of_run
    [.subscribe 0, .tryNext 0 1, .push (samplePmt ++ samplePat) 0, .tryNext 0 1,
      .push samplePmt 1]
    (fun s => s.readers[0]?.any fun reader =>
      match (reader.cursor.tryNext s.ring 1).2 with
      | .ok event => event == some (.packets 0 1 samplePat)
      | .error _ => false)
    (by decide +kernel)
  obtain ⟨reader, hget, hread⟩ := (Option.any_eq_true _ _).mp hp
  replace hread : (reader.cursor.tryNext s.ring 1).2 = .ok (some (.packets 0 1 samplePat)) := by
    split at hread
    · rename_i event heq
      rw [heq, eq_of_beq hread]
    · cases hread
  exact ⟨s, hs, reader, hget, hread,
    cursor_delivery_safe smallRing s hs reader (List.mem_of_getElem? hget) 1 _ hread⟩

end IptvRelay.Media
