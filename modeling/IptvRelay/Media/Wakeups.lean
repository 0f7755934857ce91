import IptvRelay.Media.RingReaders

/-!
# Waiting readers

`RingCursor::next` registers a waiter, checks the ring and then awaits; a writer
changes the ring under its lock and notifies the waiters after it has released
the lock. Here these are separate steps of a machine with any number of readers
and writers. A notification reaches exactly the waiters that are registered when
it is sent. The main result is that no reader sleeps through a change.
-/

namespace IptvRelay.Media

open Blocks Psi Transition MpegTsRing

/-! ## The protocol -/

/-- Where a reader is inside `next`. The flag says whether the registered waiter was notified. -/
inductive NextPhase where
  | idle
  | registering (maxPackets : Nat)
  | checking (maxPackets : Nat) (notified : Bool)
  | parked (maxPackets : Nat) (notified : Bool)
  deriving DecidableEq, Repr

/-- A registered waiter is notified; there is no permit for the others. -/
def NextPhase.notify : NextPhase → NextPhase
  | .idle => .idle
  | .registering maxPackets => .registering maxPackets
  | .checking maxPackets _ => .checking maxPackets true
  | .parked maxPackets _ => .parked maxPackets true

structure Waiter where
  cursor : RingCursor
  phase : NextPhase := .idle
  deriving DecidableEq, Repr

structure WakeSystem where
  ring : MpegTsRing
  waiters : List Waiter
  /-- The writers that have released the lock and not yet notified. -/
  notifying : Nat → Bool

/-- One atomic step of a reader or of a writer. -/
inductive WakeOp where
  | subscribe (preRollPackets : Nat)
  | next (reader maxPackets : Nat)
  | register (reader : Nat)
  | check (reader : Nat)
  | wake (reader : Nat)
  | drop (reader : Nat)
  | push (writer : Nat) (bytes : Bytes) (now : Instant)
  | startNewGeneration (writer : Nat)
  | close (writer : Nat) (reason : RingCloseReason)
  | notifyWaiters (writer : Nat)

namespace Waiter

/-- Enter `next`; an empty read returns at once. -/
def next (waiter : Waiter) (maxPackets : Nat) : Option Waiter :=
  match waiter.phase with
  | .idle =>
    if maxPackets = 0 then some waiter else some { waiter with phase := .registering maxPackets }
  | _ => none

/-- Create and enable the future at the top of the loop. -/
def register (waiter : Waiter) : Option Waiter :=
  match waiter.phase with
  | .registering maxPackets => some { waiter with phase := .checking maxPackets false }
  | _ => none

/-- The `try_next` of the loop: return an event or an error, else await the future. -/
def check (waiter : Waiter) (ring : MpegTsRing) : Option Waiter :=
  match waiter.phase with
  | .checking maxPackets notified =>
    let (cursor, result) := waiter.cursor.tryNext ring maxPackets
    match result with
    | .ok none => some { cursor, phase := .parked maxPackets notified }
    | .ok (some _) => some { cursor, phase := .idle }
    | .error _ => some { cursor, phase := .idle }
  | _ => none

/-- The future completes only when it was notified; the loop then starts over. -/
def wake (waiter : Waiter) : Option Waiter :=
  match waiter.phase with
  | .parked maxPackets true => some { waiter with phase := .registering maxPackets }
  | _ => none

/-- The caller drops the future of `next`. -/
def drop (waiter : Waiter) : Waiter := { waiter with phase := .idle }

def notify (waiter : Waiter) : Waiter := { waiter with phase := waiter.phase.notify }

end Waiter

namespace WakeSystem

def stepWaiter (s : WakeSystem) (reader : Nat) (f : Waiter → Option Waiter) : Option WakeSystem :=
  (s.waiters[reader]?.bind f).map fun waiter =>
    { s with waiters := s.waiters.set reader waiter }

/-- A writer has changed the ring; whether it will notify is decided under the lock. -/
def stepWriter (s : WakeSystem) (writer : Nat) (ring : MpegTsRing) (notifies : Bool) :
    Option WakeSystem :=
  if s.notifying writer then none
  else some { s with ring, notifying := Function.update s.notifying writer notifies }

/-- A successful push notifies unless it was empty. -/
def pushNotifies : Except RingWriteError WriteOutcome → Bool
  | .ok outcome => 0 < outcome.packetsWritten
  | .error _ => false

def step (s : WakeSystem) : WakeOp → Option WakeSystem
  | .subscribe preRollPackets => some
      { s with waiters := s.waiters ++ [{ cursor := s.ring.subscribeWithPreRoll preRollPackets }] }
  | .next reader maxPackets => s.stepWaiter reader (·.next maxPackets)
  | .register reader => s.stepWaiter reader Waiter.register
  | .check reader => s.stepWaiter reader (·.check s.ring)
  | .wake reader => s.stepWaiter reader Waiter.wake
  | .drop reader => s.stepWaiter reader fun waiter => some waiter.drop
  | .push writer bytes now =>
    let pushed := s.ring.push bytes now
    s.stepWriter writer pushed.1 (pushNotifies pushed.2)
  | .startNewGeneration writer =>
    let started := s.ring.startNewGeneration
    s.stepWriter writer started.1 started.2.isOk
  | .close writer reason =>
    let closed := s.ring.close reason
    s.stepWriter writer closed.1 closed.2
  | .notifyWaiters writer =>
    if s.notifying writer then
      some { s with
        waiters := s.waiters.map Waiter.notify
        notifying := Function.update s.notifying writer false }
    else none

end WakeSystem

/-- A ring of this configuration with all of its readers and writers. -/
def wakeMachine (config : MpegTsRingConfig) : Machine WakeSystem WakeOp where
  start := { ring := new config, waiters := [], notifying := fun _ => false }
  step := WakeSystem.step

/-! ## When `try_next` has nothing to report -/

/-- The cursor is at an open edge of its generation, or waits for a boundary that is not there. -/
structure Quiet (state : RingState) (c : RingCursor) : Prop where
  generation : c.generation = state.generation
  retained : state.firstSequence ≤ c.nextSequence
  waits : c.waitingForSafeBoundary = true → ∀ b ∈ state.safeBoundaries, b < c.nextSequence
  edge : c.waitingForSafeBoundary = false → state.nextSequence ≤ c.nextSequence
  opened : state.closed = none

theorem find_boundary_eq_none {boundaries : List Nat} {position : Nat} :
    (boundaries.find? fun boundary => decide (position ≤ boundary)) = none ↔
      ∀ b ∈ boundaries, b < position := by
  simp [List.find?_eq_none]

/-- A quiet cursor has no event. -/
theorem Quiet.tryNext {ring : MpegTsRing} {c : RingCursor} (h : Quiet ring.state c)
    {maxPackets : Nat} (hmax : maxPackets ≠ 0) : (c.tryNext ring maxPackets).2 = .ok none := by
  have hlag : ¬ c.nextSequence < ring.state.firstSequence := Nat.not_lt.mpr h.retained
  unfold RingCursor.tryNext
  rw [if_neg hmax, if_neg (not_not.mpr h.generation), if_neg hlag]
  split
  · rename_i hwait
    rw [find_boundary_eq_none.mpr (h.waits hwait)]
    simp [h.opened]
  · rename_i hwait
    have hedge := h.edge (by simpa using hwait)
    simp [RingCursor.read, Nat.not_lt.mpr hedge, h.opened]

theorem read_eq_none {ring : MpegTsRing} {c : RingCursor} {maxPackets : Nat}
    (h : (c.read ring maxPackets).2 = none) :
    (c.read ring maxPackets).1 = c ∧ ring.state.nextSequence ≤ c.nextSequence ∧
      ring.state.closed = none := by
  unfold RingCursor.read at h ⊢
  split at h
  · cases h
  · rename_i hedge
    rw [if_neg hedge]
    exact ⟨rfl, Nat.not_lt.mp hedge, by simpa using h⟩

/-- A `try_next` without an event leaves the cursor quiet, also when it moved the cursor. -/
theorem quiet_of_tryNext {ring : MpegTsRing} {log : List Bytes} (hring : RingOk ring log)
    {c : RingCursor} {maxPackets : Nat} (h : (c.tryNext ring maxPackets).2 = .ok none) :
    Quiet ring.state (c.tryNext ring maxPackets).1 := by
  have hfirst := hring.first
  have hnext := hring.next
  unfold RingCursor.tryNext at h ⊢
  by_cases hmax : maxPackets = 0
  · rw [if_pos hmax] at h
    cases h
  rw [if_neg hmax] at h ⊢
  by_cases hgen : c.generation = ring.state.generation
  swap
  · rw [if_pos hgen] at h
    cases h
  rw [if_neg (not_not.mpr hgen)] at h ⊢
  by_cases hlag : c.nextSequence < ring.state.firstSequence
  · rw [if_pos hlag] at h
    cases h
  rw [if_neg hlag] at h ⊢
  by_cases hwait : c.waitingForSafeBoundary = true
  swap
  · rw [if_neg hwait] at h ⊢
    obtain ⟨hsame, hedge, hopen⟩ := read_eq_none (Except.ok.inj h)
    simp only [hsame]
    exact ⟨hgen, by omega, fun hw => absurd hw hwait, fun _ => hedge, hopen⟩
  rw [if_pos hwait] at h ⊢
  cases hfind : ring.state.safeBoundaries.find? fun b => decide (c.nextSequence ≤ b) with
  | some boundary =>
    simp only [hfind] at h ⊢
    have hle : c.nextSequence ≤ boundary := by simpa using List.find?_some hfind
    obtain ⟨hsame, hedge, hopen⟩ := read_eq_none (Except.ok.inj h)
    simp only [hsame]
    exact ⟨hgen, by simp only; omega, by simp, fun _ => hedge, hopen⟩
  | none =>
    simp only [hfind] at h ⊢
    have hbelow := find_boundary_eq_none.mp hfind
    have hopen : ring.state.closed = none := by simpa using h
    cases hcand : ring.state.psi.candidateStart.filter fun candidate =>
        decide (c.nextSequence ≤ candidate) with
    | some candidate =>
      have hle : c.nextSequence ≤ candidate := by
        simpa using (Option.filter_eq_some_iff.mp hcand).2
      refine ⟨hgen, by simp only [Option.getD_some]; omega, fun _ b hb => ?_, by simp [hwait], hopen⟩
      exact (hbelow b hb).trans_le hle
    | none =>
      refine ⟨hgen, by simp only [Option.getD_none]; omega, fun _ b hb => ?_, by simp [hwait], hopen⟩
      -- Every confirmed boundary lies inside the log.
      obtain ⟨e, he⟩ := hring.boundaries b hb
      have := he.bounds
      simp only [Option.getD_none]
      omega

/-! ## No sleeping reader misses a change -/

/-- A push that does not notify was refused or empty. -/
theorem push_silent {ring : MpegTsRing} {bytes : Bytes} {now : Instant}
    (h : WakeSystem.pushNotifies (ring.push bytes now).2 = false) :
    (ring.push bytes now).1 = ring ∨
      (ring.push bytes now).1.state = ring.state.settle bytes.length 0 now := by
  rcases push_cases ring bytes now with ⟨error, herror⟩ | ⟨_, _, _, _, hstate, o, hok, _, hcount⟩
  · rw [herror]
    exact .inl rfl
  · rw [hok] at h
    have hnil : chunksExact mpegTsPacketSize bytes = [] := by
      simpa [WakeSystem.pushNotifies, hcount] using h
    rw [hnil] at hstate
    exact .inr hstate

/-- Accounting for an empty write gives no quiet cursor an event. -/
theorem Quiet.settle {state : RingState} {c : RingCursor} (h : Quiet state c) (bytes count : Nat)
    (now : Instant) : Quiet (state.settle bytes count now) c :=
  ⟨h.generation, h.retained,
    fun hw b hb => h.waits hw b ((List.dropWhile_suffix _).subset hb), h.edge, h.opened⟩

/-- A writer step that will not notify keeps every quiet cursor quiet. -/
theorem Quiet.push {ring : MpegTsRing} {c : RingCursor} (h : Quiet ring.state c) {bytes : Bytes}
    {now : Instant} (hsilent : WakeSystem.pushNotifies (ring.push bytes now).2 = false) :
    Quiet (ring.push bytes now).1.state c := by
  rcases push_silent hsilent with hsame | hstate
  · rw [hsame]
    exact h
  · rw [hstate]
    exact h.settle _ _ _

theorem startNewGeneration_silent {ring : MpegTsRing}
    (h : ring.startNewGeneration.2.isOk = false) : ring.startNewGeneration.1 = ring := by
  cases hres : ring.startNewGeneration.2 with
  | error error => exact startNewGeneration_error hres
  | ok generation =>
    rw [hres] at h
    cases h

theorem close_silent {ring : MpegTsRing} {reason : RingCloseReason}
    (h : (ring.close reason).2 = false) : (ring.close reason).1 = ring := by
  unfold MpegTsRing.close at h ⊢
  split
  · rfl
  · rename_i hopen
    rw [hopen] at h
    cases h

/-- `next` never waits with an empty read. -/
def NextPhase.Positive : NextPhase → Prop
  | .idle => True
  | .registering maxPackets => maxPackets ≠ 0
  | .checking maxPackets _ => maxPackets ≠ 0
  | .parked maxPackets _ => maxPackets ≠ 0

/-- Sleeping readers have nothing to read, unless a writer is about to notify them. -/
structure WakeOk (s : WakeSystem) : Prop where
  ring : ∃ log, RingOk s.ring log
  positive : ∀ waiter ∈ s.waiters, waiter.phase.Positive
  asleep : ∀ waiter ∈ s.waiters, ∀ maxPackets, waiter.phase = .parked maxPackets false →
    Quiet s.ring.state waiter.cursor ∨ ∃ writer, s.notifying writer = true

/-- One reader moves: what it does to its own phase and cursor is all there is to check. -/
theorem WakeOk.stepWaiter {s t : WakeSystem} (h : WakeOk s) {reader : Nat}
    {f : Waiter → Option Waiter} (hstep : s.stepWaiter reader f = some t)
    (hf : ∀ waiter moved, waiter.phase.Positive → f waiter = some moved →
      moved.phase.Positive ∧
        ∀ maxPackets, moved.phase = .parked maxPackets false → Quiet s.ring.state moved.cursor) :
    WakeOk t := by
  obtain ⟨moved, hmoved, rfl⟩ := Option.map_eq_some_iff.mp hstep
  obtain ⟨waiter, hget, hfw⟩ := Option.bind_eq_some_iff.mp hmoved
  obtain ⟨hpos, hquiet⟩ := hf waiter moved (h.positive waiter (List.mem_of_getElem? hget)) hfw
  refine ⟨h.ring, fun other hother => ?_, fun other hother => ?_⟩
  · rcases List.mem_or_eq_of_mem_set hother with hother | rfl
    · exact h.positive other hother
    · exact hpos
  · rcases List.mem_or_eq_of_mem_set hother with hother | rfl
    · exact h.asleep other hother
    · exact fun maxPackets hphase => .inl (hquiet maxPackets hphase)

/-- A writer releases the lock: it is about to notify, or every quiet cursor stays quiet. -/
theorem WakeOk.stepWriter {s t : WakeSystem} (h : WakeOk s) {writer : Nat} {ring : MpegTsRing}
    {notifies : Bool} (hstep : s.stepWriter writer ring notifies = some t)
    (hring : ∃ log, RingOk ring log)
    (hsilent : notifies = false → ∀ c, Quiet s.ring.state c → Quiet ring.state c) : WakeOk t := by
  unfold WakeSystem.stepWriter at hstep
  split at hstep
  · cases hstep
  rename_i hfree
  cases hstep
  refine ⟨hring, h.positive, fun waiter hw maxPackets hphase => ?_⟩
  cases notifies with
  | true => exact .inr ⟨writer, Function.update_self ..⟩
  | false =>
    rcases h.asleep waiter hw maxPackets hphase with hquiet | ⟨other, hother⟩
    · exact .inl (hsilent rfl _ hquiet)
    · have hne : other ≠ writer := by
        rintro rfl
        exact hfree hother
      exact .inr ⟨other, by simpa only [Function.update_of_ne hne] using hother⟩

theorem exists_ringOk_push {ring : MpegTsRing} (h : ∃ log, RingOk ring log) (bytes : Bytes)
    (now : Instant) : ∃ log, RingOk (ring.push bytes now).1 log := by
  obtain ⟨log, hlog⟩ := h
  rcases push_cases ring bytes now with ⟨error, herror⟩ | ⟨_, _, _, _, _, outcome, hok, _⟩
  · rw [herror]
    exact ⟨log, hlog⟩
  · exact ⟨_, hlog.push hok⟩

theorem exists_ringOk_startNewGeneration {ring : MpegTsRing} (h : ∃ log, RingOk ring log) :
    ∃ log, RingOk ring.startNewGeneration.1 log := by
  obtain ⟨log, hlog⟩ := h
  cases hres : ring.startNewGeneration.2 with
  | error error =>
    rw [startNewGeneration_error hres]
    exact ⟨log, hlog⟩
  | ok generation => exact ⟨[], (hlog.startNewGeneration hres).1⟩

/-- The check of a reader: it goes to sleep only when there is nothing to read. -/
theorem Waiter.check_spec {ring : MpegTsRing} (hring : ∃ log, RingOk ring log)
    {waiter moved : Waiter} (hpos : waiter.phase.Positive) (hmoved : waiter.check ring = some moved) :
    moved.phase.Positive ∧
      ∀ maxPackets, moved.phase = .parked maxPackets false → Quiet ring.state moved.cursor := by
  obtain ⟨log, hlog⟩ := hring
  unfold Waiter.check at hmoved
  split at hmoved
  · rename_i maxPackets notified hphase
    rw [hphase] at hpos
    dsimp only at hmoved
    split at hmoved
    · rename_i hnone
      cases hmoved
      exact ⟨hpos, fun _ _ => quiet_of_tryNext hlog hnone⟩
    · cases hmoved
      exact ⟨trivial, by simp⟩
    · cases hmoved
      exact ⟨trivial, by simp⟩
  · cases hmoved

theorem NextPhase.notify_ne_parked (phase : NextPhase) (maxPackets : Nat) :
    phase.notify ≠ .parked maxPackets false := by
  cases phase <;> simp [NextPhase.notify]

theorem NextPhase.Positive.notify {phase : NextPhase} (h : phase.Positive) :
    phase.notify.Positive := by
  cases phase <;> exact h

theorem WakeOk.step {s t : WakeSystem} (h : WakeOk s) (op : WakeOp) (hstep : s.step op = some t) :
    WakeOk t := by
  cases op with
  | subscribe preRollPackets =>
    cases hstep
    refine ⟨h.ring, fun waiter hw => ?_, fun waiter hw => ?_⟩
    · rcases List.mem_append.mp hw with hw | hw
      · exact h.positive waiter hw
      · rw [List.mem_singleton.mp hw]
        trivial
    · rcases List.mem_append.mp hw with hw | hw
      · exact h.asleep waiter hw
      · rw [List.mem_singleton.mp hw]
        simp
  | next reader maxPackets =>
    refine h.stepWaiter hstep fun waiter moved hpos hmoved => ?_
    unfold Waiter.next at hmoved
    split at hmoved
    · rename_i hidle
      split at hmoved
      · cases hmoved
        exact ⟨hpos, by simp [hidle]⟩
      · rename_i hmax
        cases hmoved
        exact ⟨hmax, by simp⟩
    · cases hmoved
  | register reader =>
    refine h.stepWaiter hstep fun waiter moved hpos hmoved => ?_
    unfold Waiter.register at hmoved
    split at hmoved
    · rename_i maxPackets hphase
      rw [hphase] at hpos
      cases hmoved
      exact ⟨hpos, by simp⟩
    · cases hmoved
  | check reader => exact h.stepWaiter hstep fun _ _ => Waiter.check_spec h.ring
  | wake reader =>
    refine h.stepWaiter hstep fun waiter moved hpos hmoved => ?_
    unfold Waiter.wake at hmoved
    split at hmoved
    · rename_i maxPackets hphase
      rw [hphase] at hpos
      cases hmoved
      exact ⟨hpos, by simp⟩
    · cases hmoved
  | drop reader =>
    refine h.stepWaiter hstep fun waiter moved _ hmoved => ?_
    cases hmoved
    exact ⟨trivial, by simp [Waiter.drop]⟩
  | push writer bytes now =>
    exact h.stepWriter hstep (exists_ringOk_push h.ring bytes now) fun hsilent _ hc =>
      hc.push hsilent
  | startNewGeneration writer =>
    refine h.stepWriter hstep (exists_ringOk_startNewGeneration h.ring) fun hsilent c hc => ?_
    rw [startNewGeneration_silent hsilent]
    exact hc
  | close writer reason =>
    obtain ⟨log, hlog⟩ := h.ring
    refine h.stepWriter hstep ⟨log, hlog.close reason⟩ fun hsilent c hc => ?_
    rw [close_silent hsilent]
    exact hc
  | notifyWaiters writer =>
    simp only [WakeSystem.step] at hstep
    split at hstep
    · cases hstep
      refine ⟨h.ring, fun waiter hw => ?_, fun waiter hw maxPackets hphase => ?_⟩
      · obtain ⟨before, hbefore, rfl⟩ := List.mem_map.mp hw
        exact (h.positive before hbefore).notify
      · obtain ⟨before, _, rfl⟩ := List.mem_map.mp hw
        exact absurd hphase (NextPhase.notify_ne_parked _ _)
    · cases hstep

theorem wakeOk_of_reachable {config : MpegTsRingConfig} {s : WakeSystem}
    (h : (wakeMachine config).Reachable s) : WakeOk s := by
  refine h.invariant ?_ fun s op t hs _ hstep => hs.step op hstep
  exact ⟨⟨[], ringOk_new config⟩, by simp [wakeMachine], by simp [wakeMachine]⟩

/-- No lost wake-up: once every writer has finished, a reader that sleeps on a future nobody has
notified would get no event from `try_next`. -/
theorem no_lost_wakeup {config : MpegTsRingConfig} {s : WakeSystem}
    (h : (wakeMachine config).Reachable s) {waiter : Waiter} (hw : waiter ∈ s.waiters)
    {maxPackets : Nat} (hparked : waiter.phase = .parked maxPackets false)
    (hdone : ∀ writer, s.notifying writer = false) :
    (waiter.cursor.tryNext s.ring maxPackets).2 = .ok none := by
  have hok := wakeOk_of_reachable h
  have hmax : maxPackets ≠ 0 := by
    have hpos := hok.positive waiter hw
    rwa [hparked] at hpos
  rcases hok.asleep waiter hw maxPackets hparked with hquiet | ⟨writer, hnotifying⟩
  · exact hquiet.tryNext hmax
  · rw [hdone writer] at hnotifying
    cases hnotifying

/-- A ring of one packet without pre-roll. -/
def onePacketConfig : MpegTsRingConfig := ⟨1, 0, Nat.one_pos, by decide, by decide⟩

/-- A reader that went to sleep on an empty ring. -/
def sleeper : Waiter := ⟨⟨0, 0, true⟩, .parked 1 false⟩

def sleepingSystem : WakeSystem :=
  ⟨new onePacketConfig, [sleeper], Function.update (fun _ => false) 7 false⟩

/-- The reader sleeps through an empty push, which does not notify it. -/
theorem no_lost_wakeup_empty_push :
    (wakeMachine onePacketConfig).Reachable sleepingSystem ∧
      (sleeper.cursor.tryNext sleepingSystem.ring 1).2 = .ok none := by
  have reach : (wakeMachine onePacketConfig).Reachable sleepingSystem := by
    refine .step (a := .push 7 [] 0) (.step (a := .check 0) (.step (a := .register 0)
      (.step (a := .next 0 1) (.step (a := .subscribe 0) .start trivial rfl) trivial rfl)
      trivial rfl) trivial rfl) trivial ?_
    rfl
  refine ⟨reach, no_lost_wakeup reach (List.mem_singleton.mpr rfl) rfl fun writer => ?_⟩
  simp [sleepingSystem]

end IptvRelay.Media
