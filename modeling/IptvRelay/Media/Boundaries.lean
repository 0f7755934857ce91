import IptvRelay.Media.RingReaders

/-!
# The safe boundaries of a ring are in order

Pruning drops boundaries from the front only. That is enough because a PAT is confirmed after
every boundary before it: the tracker knows at most one PAT that waits for its PMT, and the PAT
that it still assembles starts behind that one.
-/

namespace IptvRelay.Media

open Blocks Psi Transition

/-! ## Where sections start -/

namespace Psi

section Starts

variable (a : SectionAssembler) (header : PacketHeader) (sequence : Nat)

/-- A section that is complete starts where its unit started, and leaves the assembler idle. -/
theorem finish_start :
    (∀ s, a.finish.1.startSequence = some s → a.startSequence = some s) ∧
      ∀ sect, a.finish.2 = some sect →
        a.startSequence = some sect.startSequence ∧ a.finish.1.startSequence = none := by
  unfold SectionAssembler.finish
  split
  · rename_i hstart
    split
    · exact ⟨fun _ h => h, by rintro _ ⟨⟩⟩
    · exact ⟨by rintro _ ⟨⟩, by rintro _ ⟨⟩; exact ⟨hstart, rfl⟩⟩
  · exact ⟨fun _ h => h, by rintro _ ⟨⟩⟩

theorem extend_start (payload : Bytes) :
    (∀ s, (a.extend payload).1.startSequence = some s → a.startSequence = some s) ∧
      ∀ sect, (a.extend payload).2 = some sect →
        a.startSequence = some sect.startSequence ∧ (a.extend payload).1.startSequence = none := by
  unfold SectionAssembler.extend
  dsimp only
  split
  · split
    · exact finish_start _
    · exact ⟨by rintro _ ⟨⟩, by rintro _ ⟨⟩⟩
  · exact finish_start _

/-- A unit starts at the observed packet, or it is the one that was open before. -/
theorem observe_start :
    (∀ s, (a.observe header sequence).1.startSequence = some s →
        s = sequence ∨ a.startSequence = some s) ∧
      ∀ sect, (a.observe header sequence).2 = some sect →
        (sect.startSequence = sequence ∨ a.startSequence = some sect.startSequence) ∧
          (a.observe header sequence).1.startSequence = none := by
  have hclear : (∀ s, SectionAssembler.clear.startSequence = some s →
      s = sequence ∨ a.startSequence = some s) ∧
        ∀ sect : CompletedSection, (none : Option CompletedSection) = some sect →
          (sect.startSequence = sequence ∨ a.startSequence = some sect.startSequence) ∧
            SectionAssembler.clear.startSequence = none :=
    ⟨by rintro _ ⟨⟩, by rintro _ ⟨⟩⟩
  unfold SectionAssembler.observe
  split
  · split
    · exact hclear
    · split
      · exact hclear
      · obtain ⟨hopen, hdone⟩ := extend_start { SectionAssembler.clear with
          startSequence := some sequence
          lastContinuityCounter := some header.continuityCounter } (List.drop _ _)
        exact ⟨fun s hs => .inl (Option.some.inj (hopen s hs)).symm, fun sect hsect =>
          (hdone sect hsect).imp_left fun h => .inl (Option.some.inj h).symm⟩
  · split
    · exact ⟨fun _ h => .inr h, by rintro _ ⟨⟩⟩
    · split
      · exact hclear
      · obtain ⟨hopen, hdone⟩ := extend_start { a with
          lastContinuityCounter := some header.continuityCounter } header.payload
        exact ⟨fun s hs => .inr (hopen s hs), fun sect hsect =>
          (hdone sect hsect).imp_left .inr⟩

end Starts

/-- The PMT of the candidate is still open, or it confirms the candidate. -/
theorem observePmt_cases (tracker : PatPmtTracker) (header : PacketHeader) (sequence : Nat) :
    (tracker.observePmt header sequence).1.pat = tracker.pat ∧
      (((tracker.observePmt header sequence).2 = none ∧
          (tracker.observePmt header sequence).1.candidateStart = tracker.candidateStart) ∨
        ∃ b, tracker.candidateStart = some b ∧ (tracker.observePmt header sequence).2 = some b ∧
          (tracker.observePmt header sequence).1.candidateStart = none) := by
  unfold PatPmtTracker.observePmt
  split
  · exact ⟨rfl, .inl ⟨rfl, rfl⟩⟩
  · rename_i candidate hcandidate
    have hstart : tracker.candidateStart = some candidate.patStartSequence := by
      unfold PatPmtTracker.candidateStart
      rw [hcandidate]
      rfl
    split
    · exact ⟨rfl, .inl ⟨rfl, rfl⟩⟩
    · split
      · exact ⟨rfl, .inl ⟨rfl, hstart.symm⟩⟩
      · split
        · exact ⟨rfl, .inr ⟨_, hstart, rfl, rfl⟩⟩
        · exact ⟨rfl, .inl ⟨rfl, hstart.symm⟩⟩

/-- A complete PAT becomes the candidate; the PAT that is open then starts at this packet. -/
theorem observePat_cases (tracker : PatPmtTracker) (header : PacketHeader) (sequence : Nat) :
    ((tracker.observePat header sequence).candidateStart = tracker.candidateStart ∧
        ∀ s, (tracker.observePat header sequence).pat.startSequence = some s →
          s = sequence ∨ tracker.pat.startSequence = some s) ∨
      ∃ b, (tracker.observePat header sequence).candidateStart = some b ∧
        (b = sequence ∨ tracker.pat.startSequence = some b) ∧
        (tracker.observePat header sequence).pat.startSequence = none := by
  obtain ⟨hopen, hdone⟩ := observe_start tracker.pat header sequence
  unfold PatPmtTracker.observePat
  split
  · dsimp only
    split
    · exact .inl ⟨rfl, hopen⟩
    · rename_i sect number pid hcomplete
      obtain ⟨other, hother, hparse⟩ := Option.bind_eq_some_iff.mp hcomplete
      obtain ⟨parsed, -, heq⟩ := Option.map_eq_some_iff.mp hparse
      obtain rfl := congrArg Prod.fst heq
      obtain ⟨hstart, hidle⟩ := hdone other hother
      exact .inr ⟨_, rfl, hstart, hidle⟩
  · exact .inl ⟨rfl, fun _ h => .inr h⟩

end Psi

/-! ## The order of starts -/

/-- Boundaries, the candidate and the open PAT start behind each other, before `next`. -/
structure InOrder (boundaries : List Nat) (tracker : PatPmtTracker) (next : Nat) : Prop where
  increasing : boundaries.Pairwise (· < ·)
  below : ∀ b ∈ boundaries, b < next
  candidate : ∀ c, tracker.candidateStart = some c → c < next ∧ ∀ b ∈ boundaries, b < c
  unit : ∀ s, tracker.pat.startSequence = some s →
    s < next ∧ (∀ b ∈ boundaries, b < s) ∧ ∀ c, tracker.candidateStart = some c → c < s

section InOrder

variable {boundaries : List Nat} {tracker : PatPmtTracker} {next : Nat}

/-- A tracker that has seen nothing agrees with any increasing boundaries. -/
theorem InOrder.reset (h : InOrder boundaries tracker next) :
    InOrder boundaries PatPmtTracker.reset next :=
  ⟨h.increasing, h.below, nofun, nofun⟩

theorem InOrder.sublist (h : InOrder boundaries tracker next) {kept : List Nat}
    (hsub : kept.Sublist boundaries) : InOrder kept tracker next where
  increasing := h.increasing.sublist hsub
  below b hb := h.below b (hsub.subset hb)
  candidate c hc := ⟨(h.candidate c hc).1, fun b hb => (h.candidate c hc).2 b (hsub.subset hb)⟩
  unit s hs :=
    ⟨(h.unit s hs).1, fun b hb => (h.unit s hs).2.1 b (hsub.subset hb), (h.unit s hs).2.2⟩

theorem InOrder.succ (h : InOrder boundaries tracker next) :
    InOrder boundaries tracker (next + 1) where
  increasing := h.increasing
  below b hb := (h.below b hb).trans next.lt_succ_self
  candidate c hc := ⟨(h.candidate c hc).1.trans next.lt_succ_self, (h.candidate c hc).2⟩
  unit s hs := ⟨(h.unit s hs).1.trans next.lt_succ_self, (h.unit s hs).2⟩

/-- What the newest packet starts is behind all that is known. -/
theorem InOrder.behind (h : InOrder boundaries tracker next) {s : Nat}
    (hs : s = next ∨ tracker.pat.startSequence = some s) :
    s < next + 1 ∧ (∀ b ∈ boundaries, b < s) ∧ ∀ c, tracker.candidateStart = some c → c < s := by
  rcases hs with rfl | hs
  · exact ⟨s.lt_succ_self, h.below, fun c hc => (h.candidate c hc).1⟩
  · exact h.succ.unit s hs

theorem InOrder.observePat (h : InOrder boundaries tracker next) (header : PacketHeader) :
    InOrder boundaries (tracker.observePat header next) (next + 1) := by
  rcases observePat_cases tracker header next with ⟨hcandidate, hopen⟩ | ⟨b, hcandidate, hb, hidle⟩
  · refine ⟨h.increasing, h.succ.below, ?_, fun s hs => ?_⟩
    · rw [hcandidate]
      exact h.succ.candidate
    · rw [hcandidate]
      exact h.behind (hopen s hs)
  · obtain ⟨hnext, hbehind, -⟩ := h.behind hb
    refine ⟨h.increasing, h.succ.below, fun c hc => ?_, fun s hs => ?_⟩
    · obtain rfl := Option.some.inj (hcandidate.symm.trans hc)
      exact ⟨hnext, hbehind⟩
    · cases hidle.symm.trans hs

/-- A confirmed candidate is the newest boundary. -/
theorem InOrder.observePmt (h : InOrder boundaries tracker next) (header : PacketHeader)
    (sequence : Nat) :
    InOrder (boundaries ++ (tracker.observePmt header sequence).2.toList)
      (tracker.observePmt header sequence).1 next := by
  obtain ⟨hpat, hcases⟩ := observePmt_cases tracker header sequence
  rcases hcases with ⟨hnone, hcandidate⟩ | ⟨b, hb, hsome, hcandidate⟩
  · rw [hnone, Option.toList_none, List.append_nil]
    refine ⟨h.increasing, h.below, ?_, ?_⟩
    · rw [hcandidate]
      exact h.candidate
    · rw [hpat, hcandidate]
      exact h.unit
  · obtain ⟨hnext, hbehind⟩ := h.candidate b hb
    rw [hsome, Option.toList_some]
    have hconfirmed : ∀ c, (tracker.observePmt header sequence).1.candidateStart ≠ some c := by
      rw [hcandidate]
      nofun
    refine ⟨?_, ?_, fun c hc => absurd hc (hconfirmed c), fun s hs => ?_⟩
    · refine List.pairwise_append.mpr ⟨h.increasing, List.pairwise_singleton _ _, ?_⟩
      intro a ha c hc
      rw [List.mem_singleton.mp hc]
      exact hbehind a ha
    · intro a ha
      rcases List.mem_append.mp ha with ha | ha
      · exact h.below a ha
      · rw [List.mem_singleton.mp ha]
        exact hnext
    · rw [hpat] at hs
      obtain ⟨hs, hall, hlast⟩ := h.unit s hs
      refine ⟨hs, fun a ha => ?_, fun c hc => absurd hc (hconfirmed c)⟩
      rcases List.mem_append.mp ha with ha | ha
      · exact hall a ha
      · rw [List.mem_singleton.mp ha]
        exact hlast b hb

theorem InOrder.observe (h : InOrder boundaries tracker next) (packet : Bytes) :
    InOrder (boundaries ++ (tracker.observe packet next).2.toList)
      (tracker.observe packet next).1 (next + 1) := by
  unfold PatPmtTracker.observe
  split
  · rw [Option.toList_none, List.append_nil]
    exact h.succ
  · exact (h.observePat _).observePmt _ _

end InOrder

/-! ## The ring -/

/-- The order inside of one packet loop, where old boundaries are still kept. -/
def StartsInOrder (state : RingState) : Prop :=
  InOrder state.safeBoundaries state.psi state.nextSequence

/-- The boundaries of a state between two operations. -/
structure BoundariesOk (state : RingState) : Prop where
  increasing : state.safeBoundaries.Pairwise (· < ·)
  retained : ∀ b ∈ state.safeBoundaries, state.firstSequence ≤ b ∧ b < state.nextSequence
  candidate : ∀ c, state.psi.candidateStart = some c →
    state.firstSequence ≤ c ∧ ∀ b ∈ state.safeBoundaries, b < c

/-- Both, as the invariant of the ring. -/
def BoundariesKept (state : RingState) : Prop := StartsInOrder state ∧ BoundariesOk state

theorem StartsInOrder.pushPacket {state : RingState} (h : StartsInOrder state) (cap : Nat)
    (now : Instant) (packet : Bytes) : StartsInOrder (state.pushPacket cap now packet) := by
  have hobserved := InOrder.observe h packet
  simpa [StartsInOrder, RingState.pushPacket, RingState.store, observePsi_safeBoundaries]
    using hobserved

theorem StartsInOrder.pushPackets (cap : Nat) (now : Instant) (packets : List Bytes)
    {state : RingState} (h : StartsInOrder state) :
    StartsInOrder (packets.foldl (RingState.pushPacket cap now) state) := by
  induction packets generalizing state with
  | nil => exact h
  | cons packet packets ih => exact ih (h.pushPacket cap now packet)

/-- Dropping from the front drops all that is too small from an increasing list. -/
theorem le_of_mem_dropWhile {first b : Nat} {boundaries : List Nat}
    (hincreasing : boundaries.Pairwise (· < ·))
    (hb : b ∈ boundaries.dropWhile fun boundary => decide (boundary < first)) : first ≤ b := by
  induction boundaries with
  | nil => cases hb
  | cons head rest ih =>
    obtain ⟨hhead, hrest⟩ := List.pairwise_cons.mp hincreasing
    rw [List.dropWhile_cons] at hb
    split at hb
    · exact ih hrest hb
    · rename_i hle
      have hle : first ≤ head := by simpa using hle
      rcases List.mem_cons.mp hb with rfl | hb
      · exact hle
      · exact hle.trans (hhead b hb).le

theorem StartsInOrder.settle {state : RingState} (h : StartsInOrder state) (bytes count : Nat)
    (now : Instant) : BoundariesKept (state.settle bytes count now) := by
  have hsub := (List.dropWhile_suffix fun boundary => decide (boundary < state.firstSequence) :
    _ <:+ state.safeBoundaries).sublist
  have hkept : InOrder (state.settle bytes count now).safeBoundaries
      (state.settle bytes count now).psi state.nextSequence := by
    simp only [RingState.settle]
    split
    · exact (InOrder.sublist h hsub).reset
    · exact InOrder.sublist h hsub
  refine ⟨hkept, hkept.increasing, fun b hb => ?_, fun c hc => ⟨?_, (hkept.candidate c hc).2⟩⟩
  · exact ⟨le_of_mem_dropWhile h.increasing hb, hkept.below b hb⟩
  · simp only [RingState.settle] at hc
    split at hc
    · cases hc
    · rename_i hany
      rw [hc] at hany
      exact not_lt.mp fun hlt => hany (decide_eq_true hlt)

/-- The state of a generation that starts. -/
theorem boundariesKept_start (storage : Bytes) (generation : Nat) :
    BoundariesKept { storage, generation } :=
  ⟨⟨.nil, nofun, nofun, nofun⟩, .nil, nofun, nofun⟩

theorem BoundariesKept.push {ring : MpegTsRing} (h : BoundariesKept ring.state) (bytes : Bytes)
    (now : Instant) : BoundariesKept (ring.push bytes now).1.state := by
  rcases push_cases ring bytes now with ⟨error, herror⟩ | ⟨-, -, -, -, hstate, -⟩
  · rw [herror]
    exact h
  · rw [hstate]
    exact (StartsInOrder.pushPackets _ _ _ h.1).settle _ _ _

theorem BoundariesKept.startNewGeneration {ring : MpegTsRing} (h : BoundariesKept ring.state) :
    BoundariesKept ring.startNewGeneration.1.state := by
  unfold MpegTsRing.startNewGeneration
  split
  · exact boundariesKept_start _ _
  · exact h

theorem BoundariesKept.close {ring : MpegTsRing} (h : BoundariesKept ring.state)
    (reason : RingCloseReason) : BoundariesKept (ring.close reason).1.state := by
  rw [close_eq]
  exact ⟨h.1, h.2.increasing, h.2.retained, h.2.candidate⟩

theorem boundariesKept_of_reachable {config : MpegTsRingConfig} {s : RingSystem}
    (h : (ringMachine config).Reachable s) : BoundariesKept s.ring.state := by
  refine h.invariant (I := fun s => BoundariesKept s.ring.state) (boundariesKept_start _ 0) ?_
  intro s op t hs _ hstep
  cases op with
  | push bytes now =>
    obtain rfl := Option.some.inj hstep
    exact hs.push bytes now
  | startNewGeneration =>
    obtain rfl := Option.some.inj hstep
    exact hs.startNewGeneration
  | close reason =>
    obtain rfl := Option.some.inj hstep
    exact hs.close reason
  | subscribe preRollPackets =>
    obtain rfl := Option.some.inj hstep
    exact hs
  | tryNext i maxPackets =>
    obtain ⟨reader, -, rfl⟩ := Option.map_eq_some_iff.mp hstep
    exact hs

/-- The boundaries are in order after every push, and what fails changes nothing. -/
theorem safe_boundaries_in_order (config : MpegTsRingConfig) (s : RingSystem)
    (h : (ringMachine config).Reachable s) :
    BoundariesOk s.ring.state ∧
      (∀ bytes now, BoundariesOk (s.ring.push bytes now).1.state) ∧
      (∀ bytes now error, (s.ring.push bytes now).2 = .error error →
        (s.ring.push bytes now).1 = s.ring) ∧
      ∀ error, s.ring.startNewGeneration.2 = .error error → s.ring.startNewGeneration.1 = s.ring := by
  have hkept := boundariesKept_of_reachable h
  refine ⟨hkept.2, fun bytes now => (hkept.push bytes now).2, ?_, fun error =>
    startNewGeneration_error⟩
  intro bytes now error herror
  rcases push_cases s.ring bytes now with ⟨_, hrefused⟩ | ⟨-, -, -, -, -, outcome, hok, -⟩
  · rw [hrefused]
  · cases hok.symm.trans herror

/-- Two boundaries in a ring of six packets, with a third PAT that waits. -/
theorem safe_boundaries_in_order_waiting :
    ∃ s, (ringMachine ⟨6, 2, by decide, by decide, by decide⟩).Reachable s ∧
      (s.ring.state.safeBoundaries = [2, 4] ∧ s.ring.state.psi.candidateStart = some 6) ∧
      BoundariesOk s.ring.state ∧
      (∀ bytes now, BoundariesOk (s.ring.push bytes now).1.state) ∧
      (∀ bytes now error, (s.ring.push bytes now).2 = .error error →
        (s.ring.push bytes now).1 = s.ring) ∧
      ∀ error, s.ring.startNewGeneration.2 = .error error →
        s.ring.startNewGeneration.1 = s.ring := by
  obtain ⟨s, hs, hp⟩ := (ringMachine ⟨6, 2, by decide, by decide, by decide⟩).exists_reachable_of_run
    [.push (samplePat ++ samplePmt ++ samplePat ++ samplePmt ++ samplePat ++ samplePmt ++ samplePat)
      0]
    (fun s => decide (s.ring.state.safeBoundaries = [2, 4] ∧
      s.ring.state.psi.candidateStart = some 6))
    (by decide +kernel)
  exact ⟨s, hs, of_decide_eq_true hp, safe_boundaries_in_order _ s hs⟩

end IptvRelay.Media
