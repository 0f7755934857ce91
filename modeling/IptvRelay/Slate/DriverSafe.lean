import IptvRelay.Slate.Driver

/-!
# Who feeds the muxer

The driver keeps two slate slots and a live state, the muxer keeps a current and a
pending segment. `DriverOk` says how they belong together in every reachable state:
the pending segment has exactly one feeder, and no segment ever has two kinds of
feeders. The second part is about `shown`, the marker that tells `ensure_slate`
that nothing has to be done.
-/

namespace IptvRelay.Slate

open Transition Blocks Media Muxing

/-! ## Calls of the muxer -/

theorem pushCurrent_segments {s : Muxing} (h : CallOk s) (chunk : Bytes) :
    (s.pushCurrent chunk).mux.pending = s.mux.pending ∧
      (s.pushCurrent chunk).mux.current.isSome = s.mux.current.isSome := by
  unfold Muxing.pushCurrent
  split
  · exact ⟨rfl, rfl⟩
  · rename_i segment hcurrent
    have hpushed := foldl_runningPacket_ok (chunksExact mpegTsPacketSize chunk)
      (h.mux.withSegments none s.mux.pending) (h.current segment hcurrent)
    exact ⟨hpushed.keeps.pending, by simp [hcurrent]⟩

/-- A push into the pending segment keeps it pending or makes it the current one. -/
theorem pushPending_segments {s : Muxing} (h : CallOk s) (chunk : Bytes)
    (hsome : s.mux.pending.isSome = true) :
    (s.pushPending chunk).1.mux.pending.isSome = !(s.pushPending chunk).2 ∧
      (s.pushPending chunk).1.mux.current.isSome =
        ((s.pushPending chunk).2 || s.mux.current.isSome) := by
  obtain ⟨segment, hpending⟩ := Option.isSome_iff_exists.mp hsome
  have hfresh := h.pending segment hpending
  have hpushed := foldl_pendingPacket_ok (chunksExact mpegTsPacketSize chunk)
    { s with mux := { s.mux with pending := none } }
    ⟨h.mux.withSegments s.mux.current none, rfl, by simp [hfresh.1], fun _ => ⟨hfresh, rfl⟩⟩
  unfold Muxing.pushPending
  rw [hpending]
  dsimp only
  split
  · exact ⟨by simp [hpushed.pending], by simp⟩
  · rename_i hnot
    obtain ⟨-, hsame⟩ := hpushed.waiting (by simpa using hnot)
    exact ⟨by simp, by simp [hsame]⟩

/-! ## Segments and their feeders -/

/-- `pending` and `current` are who may feed the two segments of the muxer from here on. Nobody
may feed a segment whose feeder is `none`. -/
structure FeedOk (m : FedMuxer) (pending current : Option Feeder) : Prop where
  runs : muxMachine.Reachable m.muxing
  pendingId : m.pendingId.isSome = m.muxing.mux.pending.isSome
  currentId : m.currentId.isSome = m.muxing.mux.current.isSome
  expected : m.muxing.mux.pending.isSome = pending.isSome
  pendingFeeds : ∀ id, m.pendingId = some id →
    id < m.nextId ∧ ∀ f, (id, f) ∈ m.feeds → pending = some f
  currentFeeds : ∀ id, m.currentId = some id → id < m.nextId ∧ m.pendingId ≠ some id ∧
    ∀ f g, current = some g → (id, f) ∈ m.feeds → f = g
  bounded : ∀ id f, (id, f) ∈ m.feeds → id < m.nextId
  pure : ∀ id f g, (id, f) ∈ m.feeds → (id, g) ∈ m.feeds → f = g

namespace FeedOk

variable {m : FedMuxer} {p c : Option Feeder}

theorem calls (h : FeedOk m p c) : CallOk m.muxing := callOk_of_reachable h.runs

theorem beginPending (h : FeedOk m p c) (f : Feeder) : FeedOk m.beginPending (some f) c where
  runs := h.runs.step trivial (show muxMachine.step m.muxing .beginPending = _ from rfl)
  pendingId := rfl
  currentId := h.currentId
  expected := rfl
  pendingFeeds := by
    rintro id ⟨⟩
    exact ⟨Nat.lt_succ_self _, fun f hf => absurd (h.bounded _ f hf) (lt_irrefl _)⟩
  currentFeeds id hid := by
    obtain ⟨hlt, -, hfeeds⟩ := h.currentFeeds id hid
    refine ⟨Nat.lt_succ_of_lt hlt, fun heq => ?_, hfeeds⟩
    exact hlt.ne (Option.some.inj heq).symm
  bounded id f hf := Nat.lt_succ_of_lt (h.bounded id f hf)
  pure := h.pure

theorem cancelPending (h : FeedOk m p c) : FeedOk m.cancelPending none c where
  runs := h.runs.step trivial (show muxMachine.step m.muxing .cancelPending = _ from rfl)
  pendingId := rfl
  currentId := h.currentId
  expected := rfl
  pendingFeeds := by simp [FedMuxer.cancelPending]
  currentFeeds id hid := by
    obtain ⟨hlt, -, hfeeds⟩ := h.currentFeeds id hid
    exact ⟨hlt, by simp [FedMuxer.cancelPending], hfeeds⟩
  bounded := h.bounded
  pure := h.pure

/-- The feeder of the current segment may go away. -/
theorem forget (h : FeedOk m p c) : FeedOk m p none :=
  { h with currentFeeds := fun id hid =>
      ⟨(h.currentFeeds id hid).1, (h.currentFeeds id hid).2.1, by simp⟩ }

theorem mem_feeds {id : Nat} {f : Feeder} {target : Option Nat} {feeder : Feeder} :
    (id, f) ∈ m.feeds ++ target.toList.map (fun id => (id, feeder)) ↔
      (id, f) ∈ m.feeds ∨ target = some id ∧ f = feeder := by
  cases target <;> simp [eq_comm]

theorem pushCurrent {f : Feeder} (h : FeedOk m p (some f)) (chunk : Bytes) :
    FeedOk (m.pushCurrent f chunk) p (some f) := by
  obtain ⟨hpending, hcurrent⟩ := pushCurrent_segments h.calls chunk
  have hruns : muxMachine.Reachable (m.muxing.pushCurrent chunk) :=
    h.runs.step trivial (show muxMachine.step m.muxing (.pushCurrent chunk) = _ from rfl)
  refine ⟨hruns, ?_, ?_, ?_, fun id hid => ?_, fun id hid => ?_,
    fun id g hg => ?_, fun id g g' hg hg' => ?_⟩
  · simp only [FedMuxer.pushCurrent, hpending, h.pendingId]
  · simp only [FedMuxer.pushCurrent, hcurrent, h.currentId]
  · simp only [FedMuxer.pushCurrent, hpending, h.expected]
  · obtain ⟨hlt, hfeeds⟩ := h.pendingFeeds id hid
    refine ⟨hlt, fun g hg => ?_⟩
    rcases mem_feeds.mp hg with hg | ⟨hcur, -⟩
    · exact hfeeds g hg
    · exact absurd hid (h.currentFeeds id hcur).2.1
  · obtain ⟨hlt, hne, hfeeds⟩ := h.currentFeeds id hid
    refine ⟨hlt, hne, fun g g' hg' hg => ?_⟩
    rcases mem_feeds.mp hg with hg | ⟨-, rfl⟩
    · exact hfeeds g g' hg' hg
    · exact Option.some.inj hg'
  · rcases mem_feeds.mp hg with hg | ⟨hcur, -⟩
    · exact h.bounded id g hg
    · exact (h.currentFeeds id hcur).1
  · by_cases hcur : m.currentId = some id
    · have hfed : ∀ e, (id, e) ∈ m.feeds ∨ m.currentId = some id ∧ e = f → e = f := by
        rintro e (he | ⟨-, he⟩)
        · exact (h.currentFeeds id hcur).2.2 e f rfl he
        · exact he
      rw [hfed g (mem_feeds.mp hg), hfed g' (mem_feeds.mp hg')]
    · simp only [FedMuxer.pushCurrent, mem_feeds, hcur, false_and, or_false] at hg hg'
      exact h.pure id g g' hg hg'

/-- A pending segment that starts takes its feeder along. -/
theorem pushPending {f : Feeder} (h : FeedOk m (some f) c) (chunk : Bytes) :
    ((m.pushPending f chunk).2 = true → FeedOk (m.pushPending f chunk).1 none (some f)) ∧
      ((m.pushPending f chunk).2 = false → FeedOk (m.pushPending f chunk).1 (some f) c) := by
  obtain ⟨hpending, hcurrent⟩ := pushPending_segments h.calls chunk h.expected
  have hruns : muxMachine.Reachable (m.muxing.pushPending chunk).1 :=
    h.runs.step trivial (show muxMachine.step m.muxing (.pushPending chunk) = _ from rfl)
  have hold : ∀ id, m.pendingId = some id → ∀ g,
      (id, g) ∈ m.feeds ++ m.pendingId.toList.map (fun id => (id, f)) → g = f := by
    intro id hid g hg
    rcases mem_feeds.mp hg with hg | ⟨-, hg⟩
    · exact (Option.some.inj ((h.pendingFeeds id hid).2 g hg)).symm
    · exact hg
  have hbounded : ∀ id g, (id, g) ∈ m.feeds ++ m.pendingId.toList.map (fun id => (id, f)) →
      id < m.nextId := by
    intro id g hg
    rcases mem_feeds.mp hg with hg | ⟨hid, -⟩
    · exact h.bounded id g hg
    · exact (h.pendingFeeds id hid).1
  have hpure : ∀ id g g', (id, g) ∈ m.feeds ++ m.pendingId.toList.map (fun id => (id, f)) →
      (id, g') ∈ m.feeds ++ m.pendingId.toList.map (fun id => (id, f)) → g = g' := by
    intro id g g' hg hg'
    by_cases hid : m.pendingId = some id
    · rw [hold id hid g hg, hold id hid g' hg']
    · simp only [mem_feeds, hid, false_and, or_false] at hg hg'
      exact h.pure id g g' hg hg'
  unfold FedMuxer.pushPending
  dsimp only
  split
  · rename_i hres
    rw [hres] at hpending hcurrent
    refine ⟨fun _ => ⟨hruns, by simp [hpending], ?_, by simp [hpending], by simp, fun id hid => ?_,
      hbounded, hpure⟩, by simp⟩
    · simp [hcurrent, h.pendingId, h.expected]
    · refine ⟨(h.pendingFeeds id hid).1, by simp, fun g g' hg' hg => ?_⟩
      rw [← Option.some.inj hg']
      exact hold id hid g hg
  · rename_i hres
    rw [Bool.not_eq_true] at hres
    rw [hres] at hpending hcurrent
    refine ⟨by simp, fun _ => ⟨hruns, ?_, ?_, by simpa using hpending, fun id hid => ?_,
      fun id hid => ?_, hbounded, hpure⟩⟩
    · simp [hpending, h.pendingId, h.expected]
    · simp [hcurrent, h.currentId]
    · refine ⟨(h.pendingFeeds id hid).1, fun g hg => ?_⟩
      rw [hold id hid g hg]
    · obtain ⟨hlt, hne, hfeeds⟩ := h.currentFeeds id hid
      refine ⟨hlt, hne, fun g g' hg' hg => ?_⟩
      simp only [mem_feeds, hne, false_and, or_false] at hg
      exact hfeeds g g' hg' hg

end FeedOk

/-! ## The driver -/

namespace SlateDriver

/-- Who feeds the pending segment: the live stream while it is spliced in, else a new slate. -/
def pendingFeeder (d : SlateDriver) : Option Feeder :=
  if d.live.isSplicing then some .live else d.incoming.map fun _ => .slate

def currentFeeder (d : SlateDriver) : Option Feeder :=
  if d.live.isLive then some .live else d.active.map fun _ => .slate

end SlateDriver

structure DriverOk (d : SlateDriver) : Prop where
  feeds : FeedOk d.muxer d.pendingFeeder d.currentFeeder
  splicing : d.live.isSplicing = true → d.incoming = none ∧ d.shown = d.active.map RunningSlate.kind
  live : d.live.isLive = true → d.active = none ∧ d.incoming = none
  incoming : ∀ slate, d.incoming = some slate → d.shown = some slate.kind
  reached : d.unreachable = false

namespace DriverOk

variable {d : SlateDriver}

theorem incoming_of_feeder (h : DriverOk d) (hincoming : d.incoming.isSome = true) :
    d.live.isSplicing = false ∧ d.live.isLive = false := by
  constructor
  · by_contra hsplicing
    rw [(h.splicing (by simpa using hsplicing)).1] at hincoming
    cases hincoming
  · by_contra hlive
    rw [(h.live (by simpa using hlive)).2] at hincoming
    cases hincoming

/-- `ensure_slate` acts only where a slate may be started. -/
theorem desiredSlate_ne {kind : SlateKind} (hdesired : d.desiredSlate = some kind)
    (hshown : d.shown ≠ some kind) : d.live.isSplicing = false ∧ d.live.isLive = false := by
  unfold SlateDriver.desiredSlate at hdesired
  cases hlive : d.live with
  | splicing stream =>
    rw [hlive] at hdesired
    exact absurd hdesired hshown
  | live stream =>
    rw [hlive] at hdesired
    cases hdesired
  | opening | waiting | idle => exact ⟨rfl, rfl⟩

theorem ensureSlate (h : DriverOk d) (now : Instant) (status : ViewerStartupStatus)
    (startSlate : SlateKind → Nat → Bool) : DriverOk (d.ensureSlate now status startSlate) := by
  unfold SlateDriver.ensureSlate
  split
  · exact h
  rename_i kind hdesired
  split
  · exact h
  rename_i hshown
  split
  · exact h
  obtain ⟨hsplicing, hlive⟩ := desiredSlate_ne hdesired hshown
  dsimp only
  split
  · refine ⟨?_, by simp [hsplicing], by simp [hlive], by simp, h.reached⟩
    have hfeeds := h.feeds.beginPending .slate
    simpa [SlateDriver.pendingFeeder, SlateDriver.currentFeeder, hsplicing, hlive] using hfeeds
  · refine ⟨?_, by simp [hsplicing], by simp [hlive], by simp, h.reached⟩
    have hfeeds := h.feeds.cancelPending
    simpa [SlateDriver.pendingFeeder, SlateDriver.currentFeeder, hsplicing, hlive] using hfeeds

theorem onActiveRead (h : DriverOk d) (hactive : d.active.isSome = true)
    (read : Except RingReadError RingRead) : DriverOk (d.onActiveRead read) := by
  obtain ⟨slate, hslate⟩ := Option.isSome_iff_exists.mp hactive
  have hlive : d.live.isLive = false := by
    by_contra hlive
    rw [(h.live (by simpa using hlive)).1] at hactive
    cases hactive
  have hstopped : DriverOk { d with
      active := none, shown := if d.incoming.isNone then none else d.shown } := by
    refine ⟨?_, fun hsplicing => ?_, by simp [hlive], fun slate hslate => ?_, h.reached⟩
    · simpa [SlateDriver.pendingFeeder, SlateDriver.currentFeeder, hlive] using h.feeds.forget
    · simp [(h.splicing hsplicing).1]
    · simpa [show d.incoming = some slate from hslate] using h.incoming slate hslate
  unfold SlateDriver.onActiveRead
  split
  · refine ⟨?_, h.splicing, h.live, h.incoming, h.reached⟩
    have hcurrent : d.currentFeeder = some .slate := by
      simp [SlateDriver.currentFeeder, hlive, hslate]
    have hfeeds := h.feeds
    rw [hcurrent] at hfeeds
    have hpushed := hfeeds.pushCurrent ‹Bytes›
    rw [← hcurrent] at hpushed
    exact hpushed
  · exact h
  · exact h
  · exact hstopped
  · exact hstopped

theorem onIncomingRead (h : DriverOk d) (hincoming : d.incoming.isSome = true)
    (read : Except RingReadError RingRead) : DriverOk (d.onIncomingRead read) := by
  obtain ⟨slate, hslate⟩ := Option.isSome_iff_exists.mp hincoming
  obtain ⟨hsplicing, hlive⟩ := h.incoming_of_feeder hincoming
  have hpending : d.pendingFeeder = some .slate := by
    simp [SlateDriver.pendingFeeder, hsplicing, hslate]
  have hstopped : DriverOk { d with
      incoming := none
      muxer := d.muxer.cancelPending
      shown := d.active.map RunningSlate.kind } := by
    refine ⟨?_, by simp [hsplicing], by simp [hlive], by simp, h.reached⟩
    simpa [SlateDriver.pendingFeeder, SlateDriver.currentFeeder, hsplicing, hlive]
      using h.feeds.cancelPending
  unfold SlateDriver.onIncomingRead
  split
  · rename_i bytes
    have hfeeds := h.feeds
    rw [hpending] at hfeeds
    obtain ⟨hstarted, hwaits⟩ := hfeeds.pushPending bytes
    dsimp only
    split
    · rename_i hres
      refine ⟨?_, by simp [hsplicing], by simp [hlive], by simp, h.reached⟩
      simpa [SlateDriver.pendingFeeder, SlateDriver.currentFeeder, hsplicing, hlive, hslate]
        using hstarted hres
    · rename_i hres
      refine ⟨?_, h.splicing, h.live, h.incoming, h.reached⟩
      have hmuxer := hwaits (by simpa using hres)
      rw [← hpending] at hmuxer
      exact hmuxer
  · exact h
  · exact h
  · exact hstopped
  · exact hstopped

theorem beginSplice (h : DriverOk d) (hlive : d.live.isLive = false) (viewer : Nat) :
    DriverOk (d.beginSplice viewer) := by
  refine ⟨?_, fun _ => ⟨rfl, rfl⟩, by simp [SlateDriver.beginSplice, LiveState.isLive],
    by simp [SlateDriver.beginSplice], h.reached⟩
  have hcurrent : d.currentFeeder = d.active.map fun _ => .slate := by
    simp [SlateDriver.currentFeeder, hlive]
  have hfeeds := h.feeds.beginPending .live
  rw [hcurrent] at hfeeds
  exact hfeeds

theorem fail (h : DriverOk d) (failure : StartFailure) (now : Instant) :
    DriverOk (d.fail failure now) := by
  unfold SlateDriver.fail
  refine ⟨?_, by simp [LiveState.isSplicing], by simp [LiveState.isLive], h.incoming, h.reached⟩
  have hcurrent : FeedOk d.muxer d.pendingFeeder (d.active.map fun _ => .slate) := by
    cases hlive : d.live.isLive with
    | true =>
      rw [(h.live hlive).1]
      exact h.feeds.forget
    | false => simpa [SlateDriver.currentFeeder, hlive] using h.feeds
  cases hsplicing : d.live.isSplicing with
  | true =>
    have hpending : (d.incoming.map fun _ => Feeder.slate) = none := by
      rw [(h.splicing hsplicing).1]
      rfl
    have hcancelled := hcurrent.cancelPending
    rw [← hpending] at hcancelled
    exact hcancelled
  | false =>
    have hpending : d.pendingFeeder = d.incoming.map fun _ => .slate := by
      simp [SlateDriver.pendingFeeder, hsplicing]
    rw [hpending] at hcurrent
    exact hcurrent

/-- A live state that feeds nothing may be replaced by another one. -/
theorem withLive (h : DriverOk d) (hsplicing : d.live.isSplicing = false)
    (hlive : d.live.isLive = false) (next : LiveState) (hsplicing' : next.isSplicing = false)
    (hlive' : next.isLive = false) : DriverOk { d with live := next } := by
  refine ⟨?_, by simp [hsplicing'], by simp [hlive'], h.incoming, h.reached⟩
  simpa [SlateDriver.pendingFeeder, SlateDriver.currentFeeder, hsplicing, hlive, hsplicing', hlive']
    using h.feeds

theorem onOpened (h : DriverOk d) (hopening : d.live = .opening)
    (result : Except SessionStartError Nat) (status : ViewerStartupStatus) (now : Instant) :
    DriverOk (d.onOpened result status now) := by
  unfold SlateDriver.onOpened
  split
  · exact h.fail _ now
  · split
    · exact h.beginSplice (by rw [hopening]; rfl) _
    · exact h.withLive (by rw [hopening]; rfl) (by rw [hopening]; rfl) _ rfl rfl
    · exact h.fail _ now

theorem onMedia (h : DriverOk d) (hstream : d.live.isSplicing = true ∨ d.live.isLive = true)
    (item : Option (Except String Bytes)) (now : Instant) : DriverOk (d.onMedia item now) := by
  unfold SlateDriver.onMedia
  split
  · rename_i bytes
    split
    · rename_i stream hsplicing
      have hpending : d.pendingFeeder = some .live := by
        simp [SlateDriver.pendingFeeder, hsplicing, LiveState.isSplicing]
      have hfeeds := h.feeds
      rw [hpending] at hfeeds
      obtain ⟨hstarted, hwaits⟩ := hfeeds.pushPending bytes
      dsimp only
      split
      · rename_i hres
        simp only [SlateDriver.spliced, hsplicing]
        exact ⟨hstarted hres, by simp [LiveState.isSplicing], fun _ => ⟨rfl, rfl⟩, by simp, h.reached⟩
      · rename_i hres
        refine ⟨?_, h.splicing, h.live, h.incoming, h.reached⟩
        have hmuxer := hwaits (by simpa using hres)
        rw [← hpending] at hmuxer
        exact hmuxer
    · rename_i hnot
      have hlive : d.live.isLive = true := by
        rcases hstream with hsplicing | hlive
        · cases hstate : d.live with
          | splicing stream => exact absurd hstate (hnot stream)
          | opening | waiting | idle | live =>
            rw [hstate] at hsplicing
            cases hsplicing
        · exact hlive
      have hcurrent : d.currentFeeder = some .live := by simp [SlateDriver.currentFeeder, hlive]
      refine ⟨?_, h.splicing, h.live, h.incoming, h.reached⟩
      have hfeeds := h.feeds
      rw [hcurrent] at hfeeds
      have hpushed := hfeeds.pushCurrent bytes
      rw [← hcurrent] at hpushed
      exact hpushed
  · exact h.fail _ now
  · split
    · exact ⟨h.feeds, h.splicing, h.live, h.incoming, h.reached⟩
    · exact h.fail _ now

theorem onTick (h : DriverOk d) (status : ViewerStartupStatus) (now : Instant) :
    DriverOk (d.onTick status now) := by
  unfold SlateDriver.onTick
  split
  · rename_i viewer since hwaiting
    have hsplicing : d.live.isSplicing = false := by rw [hwaiting]; rfl
    have hlive : d.live.isLive = false := by rw [hwaiting]; rfl
    split
    · simp only [SlateDriver.spliceWaiting, hwaiting]
      exact (h.withLive hsplicing hlive (.idle now .provider) rfl rfl).beginSplice rfl viewer
    · exact h.fail _ now
    · exact h
  · rename_i retryAt failure hidle
    split
    · exact h.withLive (by rw [hidle]; rfl) (by rw [hidle]; rfl) _ rfl rfl
    · exact h
  · exact h

theorem handle (h : DriverOk d) {event : DriverEvent} (hoffers : d.offers event = true) :
    DriverOk (d.handle event) := by
  cases event with
  | active read => exact h.onActiveRead hoffers read
  | incoming read => exact h.onIncomingRead hoffers read
  | opened result status now => exact h.onOpened (by simpa [SlateDriver.offers] using hoffers) _ _ _
  | media item now => exact h.onMedia (by simpa [SlateDriver.offers] using hoffers) item now
  | tick status now => exact h.onTick status now

end DriverOk

theorem driver_step_cases {target : Duration} {retry : RetrySchedule} {start : StartLive}
    {s t : DriverLoop} {a : DriverStep} (h : (driverMachine target retry start).step s a = some t) :
    (∃ now status startSlate, a = .ensure now status startSlate ∧
      t = ⟨s.driver.ensureSlate now status startSlate, true⟩) ∨
    ∃ event, a = .event event ∧ s.driver.offers event = true ∧ t = ⟨s.driver.handle event, false⟩ := by
  cases a with
  | ensure now status startSlate =>
    simp only [driverMachine] at h
    split at h
    · cases h
    · exact .inl ⟨now, status, startSlate, rfl, (Option.some.inj h).symm⟩
  | event event =>
    simp only [driverMachine] at h
    split at h
    · rename_i hoffers
      exact .inr ⟨event, rfl, (Bool.and_eq_true_iff.mp hoffers).2, (Option.some.inj h).symm⟩
    · cases h

theorem driverOk_start (target : Duration) (retry : RetrySchedule) (start : StartLive) :
    DriverOk ((driverMachine target retry start).start).driver := by
  have hsplicing : start.live.isSplicing = false := by cases start <;> rfl
  have hlive : start.live.isLive = false := by cases start <;> rfl
  refine ⟨?_, by simp [driverMachine, hsplicing], by simp [driverMachine, hlive],
    by simp [driverMachine], rfl⟩
  simp only [driverMachine, SlateDriver.pendingFeeder, SlateDriver.currentFeeder, hsplicing, hlive]
  exact ⟨.start, rfl, rfl, rfl, by simp, by simp, by simp, by simp⟩

theorem driverOk_of_reachable {target : Duration} {retry : RetrySchedule} {start : StartLive}
    {s : DriverLoop} (h : (driverMachine target retry start).Reachable s) : DriverOk s.driver := by
  refine h.invariant (I := fun s => DriverOk s.driver) (driverOk_start target retry start) ?_
  intro s a t hs _ hstep
  rcases driver_step_cases hstep with ⟨now, status, startSlate, -, rfl⟩ | ⟨event, -, hoffers, rfl⟩
  · exact hs.ensureSlate now status startSlate
  · exact hs.handle hoffers

/-- Every run of the driver is a run of the muxer. -/
theorem reachable_muxing {target : Duration} {retry : RetrySchedule} {start : StartLive}
    {s : DriverLoop} (h : (driverMachine target retry start).Reachable s) :
    muxMachine.Reachable s.driver.muxer.muxing :=
  (driverOk_of_reachable h).feeds.runs

/-- The feeder discipline: the pending segment exists exactly when a new slate or the live stream
feeds it, live output has no slates, and no segment gets bytes of both. -/
theorem driver_feeder_discipline {target : Duration} {retry : RetrySchedule} {start : StartLive}
    {s : DriverLoop} (h : (driverMachine target retry start).Reachable s) :
    (s.driver.muxer.muxing.mux.pending.isSome = true ↔
        Xor (s.driver.incoming.isSome = true) (s.driver.live.isSplicing = true)) ∧
      (s.driver.live.isLive = true → s.driver.active = none ∧ s.driver.incoming = none) ∧
      (∀ id, ¬ ((id, .live) ∈ s.driver.muxer.feeds ∧ (id, .slate) ∈ s.driver.muxer.feeds)) ∧
      s.driver.unreachable = false := by
  have hok := driverOk_of_reachable h
  refine ⟨?_, hok.live, ?_, hok.reached⟩
  · rw [hok.feeds.expected, SlateDriver.pendingFeeder]
    cases hsplicing : s.driver.live.isSplicing with
    | true => simp [(hok.splicing hsplicing).1, Xor]
    | false => simp [Xor]
  · rintro id ⟨hlive, hslate⟩
    cases hok.feeds.pure id _ _ hlive hslate

/-- A driver that waits for its first open result, and one process start later. -/
def firstSlate : DriverLoop :=
  ⟨{ target := 0
     live := .opening
     incoming := some ⟨.starting⟩
     shown := some .starting
     lastSlateStart := some 0
     muxer := ({} : FedMuxer).beginPending }, true⟩

def noStatus : ViewerStartupStatus := ⟨false, none, false⟩

theorem driver_feeder_discipline_firstSlate :
    (driverMachine 0 {} .opening).Reachable firstSlate ∧
      Xor (firstSlate.driver.incoming.isSome = true) (firstSlate.driver.live.isSplicing = true) := by
  have reach : (driverMachine 0 {} .opening).Reachable firstSlate :=
    .step (a := .ensure 0 noStatus fun _ _ => true) .start trivial rfl
  exact ⟨reach, (driver_feeder_discipline reach).1.mp rfl⟩

/-! ## The marker of the shown slate -/

namespace SlateDriver

/-- The requested slate runs in one of the two slots. -/
def Backed (d : SlateDriver) : Prop :=
  ∀ kind, d.shown = some kind → d.active.map RunningSlate.kind = some kind ∨
    d.incoming.map RunningSlate.kind = some kind

/-- `ensure_slate` asks for a slate of this kind and its process does not start. -/
def StartFails (d : SlateDriver) (now : Instant) (status : ViewerStartupStatus)
    (startSlate : SlateKind → Nat → Bool) (kind : SlateKind) : Prop :=
  d.desiredSlate = some kind ∧ d.shown ≠ some kind ∧ d.restartsTooSoon now = false ∧
    startSlate kind (d.countdown status now) = false

end SlateDriver

/-- A process fails to start only where the active slate already is of the wanted kind. -/
def StartsReliably (s : DriverLoop) : DriverStep → Prop
  | .ensure now status startSlate => ∀ kind, s.driver.StartFails now status startSlate kind →
      s.driver.active.map RunningSlate.kind = some kind
  | .event _ => True

theorem backed_ensureSlate {d : SlateDriver} (h : d.Backed) {now : Instant}
    {status : ViewerStartupStatus} {startSlate : SlateKind → Nat → Bool} :
    (d.ensureSlate now status startSlate).Backed ↔
      ∀ kind, d.StartFails now status startSlate kind →
        d.active.map RunningSlate.kind = some kind := by
  unfold SlateDriver.ensureSlate
  split
  · rename_i hnone
    simp [h, SlateDriver.StartFails, hnone]
  rename_i kind hdesired
  split
  · rename_i hshown
    refine iff_of_true h fun other hfails => ?_
    obtain ⟨hother, hne, -⟩ := hfails
    rw [hdesired] at hother
    cases hother
    exact absurd hshown hne
  rename_i hshown
  split
  · rename_i hsoon
    refine iff_of_true h fun other hfails => ?_
    rw [hfails.2.2.1] at hsoon
    cases hsoon
  rename_i hsoon
  dsimp only
  split
  · rename_i hstarts
    refine iff_of_true (by simp [SlateDriver.Backed]) fun other hfails => ?_
    obtain ⟨hother, -, -, hfails⟩ := hfails
    rw [hdesired] at hother
    cases hother
    rw [show startSlate kind (d.countdown status now) = true from hstarts] at hfails
    cases hfails
  · rename_i hfails
    constructor
    · intro hbacked other hother
      obtain ⟨hother, -⟩ := hother
      rw [hdesired] at hother
      cases hother
      simpa using hbacked kind rfl
    · rintro hreliable other ⟨⟩
      rw [Bool.not_eq_true] at hsoon hfails
      exact .inl (hreliable kind ⟨hdesired, hshown, hsoon, hfails⟩)

theorem backed_beginSplice (d : SlateDriver) (viewer : Nat) : (d.beginSplice viewer).Backed :=
  fun _ hshown => .inl hshown

/-- Every event handler keeps the requested slate running, or forgets the request. -/
theorem backed_handle {d : SlateDriver} (h : d.Backed) (hok : DriverOk d) {event : DriverEvent}
    (hoffers : d.offers event = true) : (d.handle event).Backed := by
  cases event with
  | active read =>
    have hstopped : SlateDriver.Backed { d with
        active := none, shown := if d.incoming.isNone then none else d.shown } := by
      intro kind hshown
      cases hincoming : d.incoming with
      | none => simp [hincoming] at hshown
      | some slate =>
        have hkind := hok.incoming slate hincoming
        simp only [hincoming, hkind] at hshown ⊢
        exact .inr hshown
    show (d.onActiveRead read).Backed
    unfold SlateDriver.onActiveRead
    split
    · exact h
    · exact h
    · exact h
    · exact hstopped
    · exact hstopped
  | incoming read =>
    obtain ⟨slate, hslate⟩ := Option.isSome_iff_exists.mp hoffers
    have hkind := hok.incoming slate hslate
    have hstopped : SlateDriver.Backed { d with
        incoming := none
        muxer := d.muxer.cancelPending
        shown := d.active.map RunningSlate.kind } := fun kind hshown => .inl hshown
    show (d.onIncomingRead read).Backed
    unfold SlateDriver.onIncomingRead
    split
    · dsimp only
      split
      · intro kind hshown
        simp only [hkind] at hshown
        exact .inl (by simpa [hslate] using hshown)
      · exact h
    · exact h
    · exact h
    · exact hstopped
    · exact hstopped
  | opened result status now =>
    show (d.onOpened result status now).Backed
    unfold SlateDriver.onOpened
    split
    · exact h
    · split
      · exact backed_beginSplice d _
      · exact h
      · exact h
  | media item now =>
    show (d.onMedia item now).Backed
    unfold SlateDriver.onMedia
    split
    · split
      · rename_i stream hsplicing
        dsimp only
        split
        · simp only [SlateDriver.spliced, hsplicing]
          exact fun kind hshown => by cases hshown
        · exact h
      · exact h
    · exact h
    · split <;> exact h
  | tick status now =>
    show (d.onTick status now).Backed
    unfold SlateDriver.onTick
    split
    · rename_i viewer since hwaiting
      split
      · simp only [SlateDriver.spliceWaiting, hwaiting]
        exact backed_beginSplice _ _
      · exact h
      · exact h
    · split <;> exact h
    · exact h

theorem backed_of_reachable {target : Duration} {retry : RetrySchedule} {start : StartLive}
    {s : DriverLoop} (h : (driverMachine target retry start).ReachableWhere StartsReliably s) :
    s.driver.Backed := by
  have hboth := h.invariant (I := fun s => DriverOk s.driver ∧ s.driver.Backed)
    ⟨driverOk_start target retry start, fun kind hshown => by cases hshown⟩ ?_
  · exact hboth.2
  intro s a t hs hreliable hstep
  obtain ⟨hok, hbacked⟩ := hs
  rcases driver_step_cases hstep with ⟨now, status, startSlate, rfl, rfl⟩ | ⟨event, -, hoffers, rfl⟩
  · exact ⟨hok.ensureSlate now status startSlate, (backed_ensureSlate hbacked).mpr hreliable⟩
  · exact ⟨hok.handle hoffers, backed_handle hbacked hok hoffers⟩

/-- As long as processes start reliably, the marker never names a slate that does not run; and the
condition is exact, any other failed start leaves the marker without a slate. -/
theorem shown_slate_runs {target : Duration} {retry : RetrySchedule} {start : StartLive}
    {s : DriverLoop} (h : (driverMachine target retry start).ReachableWhere StartsReliably s) :
    (∀ kind, s.driver.shown = some kind →
      s.driver.active.map RunningSlate.kind = some kind ∨
        s.driver.incoming.map RunningSlate.kind = some kind) ∧
      ∀ now status startSlate, (s.driver.ensureSlate now status startSlate).Backed ↔
        StartsReliably s (.ensure now status startSlate) := by
  have hbacked := backed_of_reachable h
  exact ⟨hbacked, fun now status startSlate => backed_ensureSlate hbacked⟩

theorem shown_slate_runs_firstSlate :
    (driverMachine 0 {} .opening).ReachableWhere StartsReliably firstSlate ∧
      (firstSlate.driver.active.map RunningSlate.kind = some .starting ∨
        firstSlate.driver.incoming.map RunningSlate.kind = some .starting) := by
  have reach : (driverMachine 0 {} .opening).ReachableWhere StartsReliably firstSlate :=
    .step (a := .ensure 0 noStatus fun _ _ => true) .start (fun _ hfails => by cases hfails.2.2.2) rfl
  exact ⟨reach, (shown_slate_runs reach).1 _ rfl⟩

/-- The first slate process does not start: the marker stays set, so that `ensure_slate` never
tries again while the open call lasts. -/
theorem failed_start_shows_nothing :
    ∃ s, (driverMachine 0 {} .opening).Reachable s ∧ s.driver.live = .opening ∧
      s.driver.shown = some .starting ∧ s.driver.active = none ∧ s.driver.incoming = none ∧
      ∀ now status startSlate, s.driver.ensureSlate now status startSlate = s.driver :=
  ⟨_, .step (a := .ensure 0 noStatus fun _ _ => false) .start trivial rfl, rfl, rfl, rfl, rfl,
    fun _ _ _ => rfl⟩

end IptvRelay.Slate
