import IptvRelay.Media.MediaTime
import IptvRelay.Media.RingReaders
import Mathlib.Data.List.TakeWhile

/-!
# The delay of a viewer

`subscribe_with_delay` looks for the target time in the index of the PCR timeline. The index has
one sample per 100 ms, but the head moves with every PCR: a target behind the newest sample is
not found, and the viewer starts at the byte rate or the pre-roll although there is PCR data.
-/

namespace IptvRelay.Media

open Blocks Psi Pacing PcrTimeline Transition

/-! ## The timeline of a ring -/

/-- The timeline of the state is one of a run over packets before the next one. -/
def Timed (state : RingState) : Prop :=
  ∃ run : TimelineRun, run.timeline = state.pcr ∧ TimelineOk run ∧ Before run state.nextSequence

section Timed

variable {state : RingState}

@[simp] theorem observePsi_pcr (state : RingState) (packet : Bytes) :
    (state.observePsi packet).pcr = state.pcr := by
  unfold RingState.observePsi
  split <;> rfl

/-- The clock packets of the PCR PID are observed, the others are not. -/
theorem observeClock_pcr (state : RingState) (packet : Bytes) (now : Instant) :
    (state.observeClock packet now).pcr = state.pcr ∨
      (state.observeClock packet now).pcr = state.pcr.observe packet state.nextSequence := by
  simp only [RingState.observeClock]
  split_ifs
  · exact .inr rfl
  · exact .inr rfl
  · exact .inl rfl
  · exact .inl rfl

theorem before_mono {run : TimelineRun} {sequence sequence' : Nat} (h : Before run sequence)
    (hle : sequence ≤ sequence') : Before run sequence' :=
  fun pcr hpcr => (h pcr hpcr).trans_le hle

theorem Timed.pushPacket (h : Timed state) (cap : Nat) (now : Instant) (packet : Bytes) :
    Timed (state.pushPacket cap now packet) := by
  obtain ⟨run, hrun, hok, hbefore⟩ := h
  have hnext : (state.pushPacket cap now packet).nextSequence = state.nextSequence + 1 := by
    simp [RingState.pushPacket, RingState.store]
  have hpcr : (state.pushPacket cap now packet).pcr =
      ((state.observePsi packet).observeClock packet now).pcr := rfl
  unfold Timed
  rw [hnext, hpcr]
  rcases observeClock_pcr (state.observePsi packet) packet now with hsame | hobserved
  · rw [hsame, observePsi_pcr]
    exact ⟨run, hrun, hok, before_mono hbefore (Nat.le_succ _)⟩
  · rw [hobserved, observePsi_pcr, observePsi_nextSequence]
    refine ⟨run.step (.observe packet state.nextSequence), ?_, hok.step ?_, ?_⟩
    · simp only [TimelineRun.step, hrun]
    · intro sequence hsequence
      obtain rfl := Option.some.inj hsequence
      exact hbefore
    · intro pcr hmem
      have hmem : pcr ∈ record run.log packet state.nextSequence := hmem
      have hcases : pcr ∈ run.log ∨ pcr.sequence = state.nextSequence := by
        rcases observe_cases hok packet state.nextSequence with ⟨-, hlog⟩ | ⟨raw, step, -, hlog⟩
        · exact .inl (hlog ▸ hmem)
        · refine (List.mem_append.mp (hlog ▸ hmem)).imp_right fun hnew => ?_
          rw [List.mem_singleton.mp hnew]
      rcases hcases with hold | hnew
      · exact (hbefore pcr hold).trans (Nat.lt_succ_self _)
      · exact hnew ▸ Nat.lt_succ_self _

theorem Timed.pushPackets (cap : Nat) (now : Instant) (packets : List Bytes) {state : RingState}
    (h : Timed state) : Timed (packets.foldl (RingState.pushPacket cap now) state) := by
  induction packets generalizing state with
  | nil => exact h
  | cons packet packets ih => exact ih (h.pushPacket cap now packet)

theorem Timed.settle (h : Timed state) (bytes count : Nat) (now : Instant) :
    Timed (state.settle bytes count now) := by
  obtain ⟨run, hrun, hok, hbefore⟩ := h
  refine ⟨run.step (.prune state.firstSequence), ?_, hok.step nofun, hbefore⟩
  simp only [TimelineRun.step, hrun]
  rfl

theorem timed_start (storage : Bytes) (generation : Nat) : Timed { storage, generation } :=
  ⟨{}, rfl, timelineOk_start, nofun⟩

theorem timed_of_reachable {config : MpegTsRingConfig} {s : RingSystem}
    (h : (ringMachine config).Reachable s) : Timed s.ring.state := by
  refine h.invariant (I := fun s => Timed s.ring.state) (timed_start _ 0) ?_
  intro s op t hs _ hstep
  cases op with
  | push bytes now =>
    obtain rfl := Option.some.inj hstep
    dsimp only
    rcases push_cases s.ring bytes now with ⟨error, herror⟩ | ⟨-, -, -, -, hstate, -⟩
    · rw [herror]
      exact hs
    · rw [hstate]
      exact (Timed.pushPackets _ _ _ hs).settle _ _ _
  | startNewGeneration =>
    obtain rfl := Option.some.inj hstep
    dsimp only [MpegTsRing.startNewGeneration]
    split
    · exact timed_start _ _
    · exact hs
  | close reason =>
    obtain rfl := Option.some.inj hstep
    dsimp only
    rw [close_eq]
    exact hs
  | subscribe preRollPackets =>
    obtain rfl := Option.some.inj hstep
    exact hs
  | tryNext i maxPackets =>
    obtain ⟨reader, -, rfl⟩ := Option.map_eq_some_iff.mp hstep
    exact hs

end Timed

/-! ## Where a viewer starts -/

namespace MpegTsRing

/-- The distance to the target time in the index, if the index has it. -/
def packetsByClock (self : MpegTsRing) (delay : Duration) : Option Nat :=
  self.state.pcr.headTicks.bind fun head =>
    (self.state.pcr.sequenceAtOrAfter (head - durationToTicks delay)).map fun sequence =>
      self.state.nextSequence - sequence

/-- The number of packets that `subscribe_with_delay` goes back. -/
def delayPackets (self : MpegTsRing) (delay : Duration) (now : Instant) : Nat :=
  min (((self.packetsByClock delay).or ((self.byteRateBps now).map fun rate =>
      rate / 8 * (delay / 1000000000) / mpegTsPacketSize)).getD self.config.preRollPackets)
    (self.state.nextSequence - self.state.firstSequence)

/-- The target position, which then moves on to a safe boundary. -/
def targetPosition (self : MpegTsRing) (preRollPackets : Nat) : Nat :=
  max (self.state.nextSequence - preRollPackets) self.state.firstSequence

end MpegTsRing

/-- The clock selects the position, and it is not before the target time. -/
structure DelayRespected (ring : MpegTsRing) (delay : Duration) (now : Instant) (head : Nat) :
    Prop where
  byClock : (ring.packetsByClock delay).isSome
  notBefore : ∃ ticks, ring.state.pcr.ticksAt (ring.targetPosition (ring.delayPackets delay now)) =
      some ticks ∧ head - durationToTicks delay ≤ ticks

section Delay

variable {run : TimelineRun}

/-- A sequence that the index finds has a sample at or behind the target. -/
theorem exists_of_sequenceAtOrAfter {timeline : PcrTimeline} {target sequence : Nat}
    (h : timeline.sequenceAtOrAfter target = some sequence) :
    ∃ sample ∈ timeline.samples, sample.sequence = sequence ∧ target ≤ sample.ticks := by
  unfold PcrTimeline.sequenceAtOrAfter at h
  obtain ⟨sample, hhead, heq⟩ := Option.map_eq_some_iff.mp h
  refine ⟨sample, (List.dropWhile_suffix _).subset (List.mem_of_mem_head? hhead), heq, ?_⟩
  have hnot := List.head?_dropWhile_not (fun sample : PcrSample => decide (sample.ticks < target))
    timeline.samples
  rw [hhead] at hnot
  exact not_lt.mp (of_decide_eq_false hnot)

/-- The index has a target exactly when its newest sample is not before the target. -/
theorem sequenceAtOrAfter_isSome_iff {timeline : PcrTimeline} (hspaced : Spaced timeline.samples)
    (target : Nat) :
    (timeline.sequenceAtOrAfter target).isSome ↔
      ∃ newest, timeline.samples.getLast? = some newest ∧ target ≤ newest.ticks := by
  constructor
  · intro hsome
    obtain ⟨sequence, hsequence⟩ := Option.isSome_iff_exists.mp hsome
    obtain ⟨sample, hmem, -, hfound⟩ := exists_of_sequenceAtOrAfter hsequence
    obtain ⟨newest, hnewest⟩ := Option.isSome_iff_exists.mp
      (List.getLast?_isSome.mpr (List.ne_nil_of_mem hmem))
    exact ⟨newest, hnewest, hfound.trans (hspaced.le_last hnewest hmem).2⟩
  · rintro ⟨newest, hnewest, hle⟩
    unfold PcrTimeline.sequenceAtOrAfter
    rw [Option.isSome_map, List.isSome_head?]
    intro hnil
    have hall := List.dropWhile_eq_nil_iff.mp hnil newest (List.mem_of_getLast? hnewest)
    exact absurd hle (not_le.mpr (of_decide_eq_true hall))

/-- The media time of a sample's packet is at least that of the sample. -/
theorem ticksAt_of_sample (h : TimelineOk run) {sample : PcrSample}
    (hmem : sample ∈ run.timeline.samples) :
    ∃ ticks, run.timeline.ticksAt sample.sequence = some ticks ∧ sample.ticks ≤ ticks := by
  have hlog : run.log ≠ [] := fun hnil => by
    rw [h.nonempty.mpr hnil] at hmem
    cases hmem
  rcases h.ticksAt_cases hlog sample.sequence with ⟨-, heq⟩ | ⟨-, front, rest, hprune, heq⟩
  · exact ⟨_, heq, h.ticks_le hmem⟩
  · exact ⟨_, heq, h.spaced.le_front hprune hmem le_rfl⟩

/-- The newest sample is less than one spacing behind the head. -/
theorem newest_near (h : TimelineOk run) (hlog : run.log ≠ []) :
    ∃ newest, run.timeline.samples.getLast? = some newest ∧
      totalTime run.log < newest.ticks + sampleSpacingTicks := by
  have hne : run.timeline.samples ≠ [] := fun hnil => hlog (h.nonempty.mp hnil)
  obtain ⟨newest, hnewest⟩ := Option.isSome_iff_exists.mp (List.getLast?_isSome.mpr hne)
  obtain ⟨front, rest, hprune⟩ := List.exists_cons_of_ne_nil
    (pruneSamples_ne_nil run.timeline.latestSequence hne)
  have hmem : front ∈ run.timeline.samples := TimelineOk.front_mem hprune
  obtain ⟨⟨pcr, hpcr, heq⟩, -⟩ := h.indexed front hmem
  have hnear := h.near run.timeline.latestSequence front rest hprune (heq ▸ h.latest pcr hpcr)
  rw [mediaTime_eq_totalTime h.latest] at hnear
  have hlast := (h.spaced.le_last hnewest hmem).2
  exact ⟨newest, hnewest, hnear.trans_le (Nat.add_le_add_right hlast _)⟩

end Delay

/-- The index reaches the target of every delay of at least one spacing. -/
theorem index_reaches_target {config : MpegTsRingConfig} {s : RingSystem}
    (h : (ringMachine config).Reachable s) {head : Nat}
    (hhead : s.ring.state.pcr.headTicks = some head) {delay : Duration}
    (hdelay : sampleSpacingTicks ≤ durationToTicks delay) :
    ∃ newest, s.ring.state.pcr.samples.getLast? = some newest ∧
      head - durationToTicks delay ≤ newest.ticks := by
  obtain ⟨run, hrun, hok, -⟩ := timed_of_reachable h
  rw [← hrun, hok.headTicks_eq] at hhead
  split at hhead
  · cases hhead
  · rename_i hlog
    obtain rfl := Option.some.inj hhead
    obtain ⟨newest, hnewest, hnear⟩ := newest_near hok hlog
    exact ⟨newest, hrun ▸ hnewest, by omega⟩

/-- The viewer delay is respected exactly when the index reaches the target time. -/
theorem viewer_delay_respected_iff (config : MpegTsRingConfig) (s : RingSystem)
    (h : (ringMachine config).Reachable s) (head : Nat)
    (hhead : s.ring.state.pcr.headTicks = some head) (delay : Duration) (now : Instant) :
    DelayRespected s.ring delay now head ↔
      ∃ newest, s.ring.state.pcr.samples.getLast? = some newest ∧
        head - durationToTicks delay ≤ newest.ticks := by
  obtain ⟨run, hrun, hok, hbefore⟩ := timed_of_reachable h
  have hclock : s.ring.packetsByClock delay =
      (s.ring.state.pcr.sequenceAtOrAfter (head - durationToTicks delay)).map fun sequence =>
        s.ring.state.nextSequence - sequence := by
    rw [MpegTsRing.packetsByClock, hhead, Option.bind_some]
  have hspaced : Spaced s.ring.state.pcr.samples := hrun ▸ hok.spaced
  rw [← sequenceAtOrAfter_isSome_iff hspaced]
  constructor
  · intro hrespected
    have hsome := hrespected.byClock
    rwa [hclock, Option.isSome_map] at hsome
  · intro hsome
    obtain ⟨sequence, hsequence⟩ := Option.isSome_iff_exists.mp hsome
    rw [hsequence, Option.map_some] at hclock
    obtain ⟨sample, hmem, rfl, htarget⟩ := exists_of_sequenceAtOrAfter hsequence
    rw [← hrun] at hmem
    have hlt := hok.sample_before hbefore hmem
    have hposition : s.ring.targetPosition (s.ring.delayPackets delay now) =
        max sample.sequence s.ring.state.firstSequence := by
      rw [MpegTsRing.targetPosition, MpegTsRing.delayPackets, hclock, Option.some_or,
        Option.getD_some]
      omega
    refine ⟨by rw [hclock]; rfl, ?_⟩
    rw [hposition, ← hrun]
    obtain ⟨ticks, hticks, hle⟩ := ticksAt_of_sample hok hmem
    obtain ⟨ticks', hticks', hmono⟩ := hok.ticksAt_mono (le_max_left _ _) hticks
    exact ⟨ticks', hticks', htarget.trans (hle.trans hmono)⟩

/-- A ring with room for sixteen packets and a pre-roll of four. -/
def delayRing : MpegTsRingConfig := ⟨16, 4, by decide, by decide, by decide⟩

/-- The head is 50 ms behind the only sample. -/
def shortClock : List RingOp :=
  [.push (samplePat ++ samplePmt ++ samplePcr 0 ++ samplePcr 50) 0]

theorem viewer_delay_respected_iff_second :
    ∃ s, (ringMachine delayRing).Reachable s ∧ s.ring.state.pcr.headTicks = some 1350000 ∧
      DelayRespected s.ring 1000000000 0 1350000 := by
  obtain ⟨s, hs, hp⟩ := (ringMachine delayRing).exists_reachable_of_run shortClock
    (fun s => decide (s.ring.state.pcr.headTicks = some 1350000)) (by decide +kernel)
  have hhead := of_decide_eq_true hp
  exact ⟨s, hs, hhead, (viewer_delay_respected_iff delayRing s hs 1350000 hhead 1000000000 0).mpr
    (index_reaches_target hs hhead (by decide))⟩

/-- With a delay of 40 ms the viewer starts at the pre-roll, 50 ms behind the head. -/
theorem viewer_delay_falls_back :
    ∃ s, (ringMachine delayRing).Reachable s ∧ s.ring.state.pcr.headTicks = some 1350000 ∧
      s.ring.packetsByClock 40000000 = none ∧
      s.ring.targetPosition (s.ring.delayPackets 40000000 0) = 0 ∧
      s.ring.state.pcr.ticksAt 0 = some 0 ∧ 1350000 - durationToTicks 40000000 = 270000 ∧
      ¬DelayRespected s.ring 40000000 0 1350000 := by
  obtain ⟨s, hs, hp⟩ := (ringMachine delayRing).exists_reachable_of_run shortClock
    (fun s => decide (s.ring.state.pcr.headTicks = some 1350000 ∧
      s.ring.packetsByClock 40000000 = none ∧
      s.ring.targetPosition (s.ring.delayPackets 40000000 0) = 0 ∧
      s.ring.state.pcr.ticksAt 0 = some 0)) (by decide +kernel)
  obtain ⟨hhead, hclock, hposition, hticks⟩ := of_decide_eq_true hp
  refine ⟨s, hs, hhead, hclock, hposition, hticks, by decide, fun hrespected => ?_⟩
  have hsome := hrespected.byClock
  rw [hclock] at hsome
  cases hsome

end IptvRelay.Media
