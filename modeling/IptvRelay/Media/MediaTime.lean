import IptvRelay.Media.Pacing
import Mathlib.Algebra.GroupWithZero.Nat
import Mathlib.Algebra.Order.Group.Nat

/-!
# The media time of a sequence

The timeline keeps a sparse index of the accepted PCRs. The log of all accepted PCRs says what
the exact media time is: the sum of the steps up to a sequence. The index is never ahead of it
and less than one spacing behind, for sequences that have not been pruned.
-/

namespace IptvRelay.Media

namespace Pacing

open PcrTimeline

/-! ## The index -/

/-- The samples of an index are apart in media time. -/
def Spaced (samples : List PcrSample) : Prop :=
  samples.Pairwise fun a b => a.sequence < b.sequence ∧ a.ticks + sampleSpacingTicks ≤ b.ticks

section Index

variable {samples : List PcrSample} {sequence : Nat}

theorem pruneSamples_of_le {sample next : PcrSample} (h : next.sequence ≤ sequence)
    (rest : List PcrSample) :
    pruneSamples sequence (sample :: next :: rest) = pruneSamples sequence (next :: rest) := by
  conv_lhs => unfold pruneSamples
  exact if_pos h

theorem pruneSamples_of_lt {sample next : PcrSample} (h : sequence < next.sequence)
    (rest : List PcrSample) :
    pruneSamples sequence (sample :: next :: rest) = sample :: next :: rest := by
  conv_lhs => unfold pruneSamples
  exact if_neg (not_le.mpr h)

/-- Case analysis on what pruning does to the front of the index. -/
theorem pruneSamples_induction {motive : List PcrSample → List PcrSample → Prop} (sequence : Nat)
    (hnil : motive [] []) (hone : ∀ sample, motive [sample] [sample])
    (hstop : ∀ sample next rest, sequence < next.sequence →
      motive (sample :: next :: rest) (sample :: next :: rest))
    (hdrop : ∀ sample next rest, next.sequence ≤ sequence →
      motive (next :: rest) (pruneSamples sequence (next :: rest)) →
      motive (sample :: next :: rest) (pruneSamples sequence (next :: rest)))
    (samples : List PcrSample) : motive samples (pruneSamples sequence samples) := by
  induction samples with
  | nil => exact hnil
  | cons sample rest ih =>
    cases rest with
    | nil => exact hone sample
    | cons next rest =>
      rcases le_or_gt next.sequence sequence with hle | hlt
      · rw [pruneSamples_of_le hle]
        exact hdrop sample next rest hle ih
      · rw [pruneSamples_of_lt hlt]
        exact hstop sample next rest hlt

theorem pruneSamples_suffix (sequence : Nat) (samples : List PcrSample) :
    pruneSamples sequence samples <:+ samples := by
  refine pruneSamples_induction (motive := fun samples kept => kept <:+ samples) sequence
    List.suffix_rfl (fun _ => List.suffix_rfl) (fun _ _ _ _ => List.suffix_rfl) ?_ samples
  exact fun sample next rest _ ih => ih.trans (List.suffix_cons sample (next :: rest))

theorem pruneSamples_ne_nil (sequence : Nat) (h : samples ≠ []) : pruneSamples sequence samples ≠ [] := by
  revert h
  refine pruneSamples_induction (motive := fun samples kept => samples ≠ [] → kept ≠ []) sequence
    id (fun _ => id) (fun _ _ _ _ => id) ?_ samples
  exact fun _ _ _ _ ih _ => ih (List.cons_ne_nil _ _)

/-- An earlier pruning leaves no trace. -/
theorem pruneSamples_pruneSamples {first : Nat} (h : first ≤ sequence)
    (samples : List PcrSample) :
    pruneSamples sequence (pruneSamples first samples) = pruneSamples sequence samples := by
  refine pruneSamples_induction (motive := fun samples kept =>
    pruneSamples sequence kept = pruneSamples sequence samples) first rfl (fun _ => rfl)
    (fun _ _ _ _ => rfl) ?_ samples
  intro sample next rest hle ih
  rw [ih, pruneSamples_of_le (hle.trans h)]

theorem pruneSamples_append {sample : PcrSample} (hne : samples ≠ [])
    (hlt : sequence < sample.sequence) :
    pruneSamples sequence (samples ++ [sample]) = pruneSamples sequence samples ++ [sample] := by
  revert hne
  refine pruneSamples_induction (motive := fun samples kept => samples ≠ [] →
    pruneSamples sequence (samples ++ [sample]) = kept ++ [sample]) sequence
    (fun h => absurd rfl h) ?_ ?_ ?_ samples
  · exact fun first _ => pruneSamples_of_lt hlt []
  · exact fun first next rest hnext _ => pruneSamples_of_lt hnext (rest ++ [sample])
  · intro first next rest hle ih _
    exact (pruneSamples_of_le hle (rest ++ [sample])).trans (ih (List.cons_ne_nil _ _))

/-- What is in front after pruning is the newest sample up to the sequence, or the oldest. -/
theorem pruneSamples_front {front : PcrSample} {rest : List PcrSample}
    (h : pruneSamples sequence samples = front :: rest) :
    (samples.head? = some front ∨ front.sequence ≤ sequence) ∧
      ∀ next ∈ rest.head?, sequence < next.sequence := by
  revert front rest
  refine pruneSamples_induction (motive := fun samples kept => ∀ {front rest},
    kept = front :: rest → (samples.head? = some front ∨ front.sequence ≤ sequence) ∧
      ∀ next ∈ rest.head?, sequence < next.sequence) sequence ?_ ?_ ?_ ?_ samples
  · rintro front rest ⟨⟩
  · rintro sample front rest ⟨⟩
    exact ⟨.inl rfl, nofun⟩
  · rintro sample next others hlt front rest ⟨⟩
    refine ⟨.inl rfl, fun other hother => ?_⟩
    obtain rfl := Option.some.inj hother
    exact hlt
  · intro sample next others hle ih front rest heq
    obtain ⟨hfront, hrest⟩ := ih heq
    refine ⟨.inr (hfront.elim (fun hhead => ?_) id), hrest⟩
    obtain rfl := Option.some.inj hhead
    exact hle

theorem Spaced.suffix (h : Spaced samples) {kept : List PcrSample} (hsuffix : kept <:+ samples) :
    Spaced kept := h.sublist hsuffix.sublist

/-- The front of a spaced index is its oldest sample. -/
theorem Spaced.front_le {front : PcrSample} {rest : List PcrSample}
    (h : Spaced (front :: rest)) {sample : PcrSample} (hmem : sample ∈ front :: rest) :
    front.sequence ≤ sample.sequence ∧ front.ticks ≤ sample.ticks := by
  rcases List.mem_cons.mp hmem with rfl | hmem
  · exact ⟨le_rfl, le_rfl⟩
  · obtain ⟨hsequence, hticks⟩ := (List.pairwise_cons.mp h).1 sample hmem
    exact ⟨hsequence.le, (Nat.le_add_right _ _).trans hticks⟩

/-- No other sample up to the sequence is newer than the front. -/
theorem Spaced.le_front (h : Spaced samples) {front : PcrSample} {rest : List PcrSample}
    (hprune : pruneSamples sequence samples = front :: rest) {sample : PcrSample}
    (hmem : sample ∈ samples) (hle : sample.sequence ≤ sequence) : sample.ticks ≤ front.ticks := by
  obtain ⟨older, holder⟩ := pruneSamples_suffix sequence samples
  rw [hprune] at holder
  rw [← holder] at hmem h
  rcases List.mem_append.mp hmem with hmem | hmem
  · have hbefore := (List.pairwise_append.mp h).2.2 sample hmem front List.mem_cons_self
    exact (Nat.le_add_right _ _).trans hbefore.2
  rcases List.mem_cons.mp hmem with rfl | hmem
  · exact le_rfl
  · -- What is behind the front is behind the sequence.
    obtain ⟨next, others, rfl⟩ := List.exists_cons_of_ne_nil (List.ne_nil_of_mem hmem)
    have hnext := (pruneSamples_front hprune).2 next rfl
    have hrest : Spaced (next :: others) := h.suffix ⟨older ++ [front], by simp⟩
    exact absurd (hnext.trans_le (hrest.front_le hmem).1) (not_lt.mpr hle)

/-- The front for a sequence is the same in every part of the index that has it. -/
theorem Spaced.prune_suffix (h : Spaced samples) {kept : List PcrSample}
    (hsuffix : kept <:+ samples) {front : PcrSample} {rest : List PcrSample}
    (hprune : pruneSamples sequence kept = front :: rest) (hle : front.sequence ≤ sequence) :
    pruneSamples sequence samples = front :: rest := by
  obtain ⟨older, rfl⟩ := hsuffix
  induction older with
  | nil => exact hprune
  | cons sample older ih =>
    have htail : Spaced (older ++ kept) := (List.pairwise_cons.mp h).2
    have hrest := ih htail
    have hfront : front ∈ older ++ kept := List.mem_append.mpr
      (.inr ((pruneSamples_suffix sequence kept).subset (hprune ▸ List.mem_cons_self)))
    obtain ⟨next, others, heq⟩ := List.exists_cons_of_ne_nil (List.ne_nil_of_mem hfront)
    rw [heq] at hfront htail hrest
    rw [List.cons_append, heq, pruneSamples_of_le ((htail.front_le hfront).1.trans hle)]
    exact hrest

/-- The lookup of `ticks_at` finds what would be in front after pruning. -/
theorem lookup_eq (h : Spaced samples) :
    samples[(samples.takeWhile fun sample => decide (sample.sequence ≤ sequence)).length - 1]? =
      (pruneSamples sequence samples).head? := by
  revert h
  refine pruneSamples_induction (motive := fun samples kept => Spaced samples →
    samples[(samples.takeWhile fun sample => decide (sample.sequence ≤ sequence)).length - 1]? =
      kept.head?) sequence (fun _ => rfl) ?_ ?_ ?_ samples
  · intro sample _
    rw [List.takeWhile_cons]
    split <;> rfl
  · intro sample next rest hlt _
    have hnext : (next :: rest).takeWhile (fun sample => decide (sample.sequence ≤ sequence)) = [] := by
      rw [List.takeWhile_cons, if_neg]
      simpa using hlt
    rw [List.takeWhile_cons, hnext]
    split <;> rfl
  · intro sample next rest hle ih hspaced
    have hfront := (hspaced.front_le (List.mem_cons_of_mem sample List.mem_cons_self)).1
    have hnext : (next :: rest).takeWhile (fun sample => decide (sample.sequence ≤ sequence)) =
        next :: rest.takeWhile (fun sample => decide (sample.sequence ≤ sequence)) :=
      List.takeWhile_cons_of_pos (by simpa using hle)
    rw [← ih (List.pairwise_cons.mp hspaced).2, hnext,
      List.takeWhile_cons_of_pos (by simpa using hfront.trans hle), hnext]
    simp

end Index

/-! ## The exact media time -/

/-- A PCR that the timeline took over, and the step from the one before it. -/
structure AcceptedPcr where
  sequence : Nat
  raw : Nat
  step : Nat
  deriving DecidableEq, Repr

/-- The step to a PCR from the reference, or `none` for jitter. A discontinuity is no step. -/
def acceptedStep (reference : Option Nat) (raw : Nat) (discontinuity : Bool) : Option Nat :=
  match reference with
  | none => some 0
  | some last =>
    let forward := (raw + pcrWrapTicks - last) % pcrWrapTicks
    if discontinuity then some 0
    else if forward ≤ maxForwardJumpTicks then some forward
    else if pcrWrapTicks - forward ≤ maxBackwardJitterTicks then none
    else some 0

/-- The log after a packet: the reference is the newest accepted PCR. -/
def record (log : List AcceptedPcr) (packet : Bytes) (sequence : Nat) : List AcceptedPcr :=
  match parsePcr packet with
  | none => log
  | some (raw, discontinuity) =>
    match acceptedStep (log.getLast?.map AcceptedPcr.raw) raw discontinuity with
    | none => log
    | some step => log ++ [{ sequence, raw, step }]

/-- The sum of all accepted steps. -/
def totalTime (log : List AcceptedPcr) : Nat := (log.map AcceptedPcr.step).sum

/-- The media time after the last accepted PCR up to the sequence. -/
def mediaTime (log : List AcceptedPcr) (sequence : Nat) : Nat :=
  totalTime (log.filter fun pcr => decide (pcr.sequence ≤ sequence))

section MediaTime

variable {log : List AcceptedPcr} {sequence : Nat}

@[simp] theorem totalTime_append (log more : List AcceptedPcr) :
    totalTime (log ++ more) = totalTime log + totalTime more := by
  simp [totalTime]

theorem totalTime_sublist {part : List AcceptedPcr} (h : part.Sublist log) :
    totalTime part ≤ totalTime log := by
  induction h with
  | slnil => exact le_rfl
  | cons pcr _ ih =>
    simp only [totalTime, List.map_cons, List.sum_cons] at ih ⊢
    omega
  | cons_cons pcr _ ih =>
    simp only [totalTime, List.map_cons, List.sum_cons] at ih ⊢
    omega

theorem mediaTime_le_totalTime (log : List AcceptedPcr) (sequence : Nat) :
    mediaTime log sequence ≤ totalTime log := totalTime_sublist List.filter_sublist

theorem mediaTime_mono {sequence' : Nat} (h : sequence ≤ sequence') :
    mediaTime log sequence ≤ mediaTime log sequence' := by
  refine totalTime_sublist (List.monotone_filter_right log fun pcr hle => ?_)
  exact decide_eq_true ((of_decide_eq_true hle).trans h)

theorem mediaTime_eq_totalTime (h : ∀ pcr ∈ log, pcr.sequence ≤ sequence) :
    mediaTime log sequence = totalTime log :=
  congrArg totalTime (List.filter_eq_self.mpr fun pcr hpcr => decide_eq_true (h pcr hpcr))

theorem mediaTime_append_of_lt (pcr : AcceptedPcr) (h : sequence < pcr.sequence) :
    mediaTime (log ++ [pcr]) sequence = mediaTime log sequence := by
  unfold mediaTime
  rw [List.filter_append, List.filter_cons_of_neg (by simpa using h), List.filter_nil,
    List.append_nil]

end MediaTime

/-! ## Runs of the timeline -/

/-- A call of the timeline. -/
inductive TimelineOp where
  | observe (packet : Bytes) (sequence : Nat)
  | prune (firstSequence : Nat)
  deriving DecidableEq, Repr

/-- A timeline, the PCRs it has accepted and the sequences it was pruned to. -/
structure TimelineRun where
  timeline : PcrTimeline := {}
  log : List AcceptedPcr := []
  pruned : List Nat := []
  deriving DecidableEq, Repr

namespace TimelineRun

def step (run : TimelineRun) : TimelineOp → TimelineRun
  | .observe packet sequence =>
    { run with
      timeline := run.timeline.observe packet sequence
      log := record run.log packet sequence }
  | .prune firstSequence =>
    { run with
      timeline := run.timeline.prune firstSequence
      pruned := run.pruned ++ [firstSequence] }

def ofOps (ops : List TimelineOp) : TimelineRun := ops.foldl step {}

end TimelineRun

/-- The sequence of an observed packet. -/
def TimelineOp.sequence : TimelineOp → Option Nat
  | .observe _ sequence => some sequence
  | .prune _ => none

/-- The packets are observed in the order of their sequences. -/
def InSequence (ops : List TimelineOp) : Prop :=
  (ops.filterMap TimelineOp.sequence).Pairwise (· < ·)

instance (ops : List TimelineOp) : Decidable (InSequence ops) :=
  inferInstanceAs (Decidable (List.Pairwise _ _))

/-- What the fields of the timeline are, given the log. -/
structure TimelineOk (run : TimelineRun) : Prop where
  reference : run.timeline.lastRaw = run.log.getLast?.map AcceptedPcr.raw
  head : run.timeline.unwrapped = totalTime run.log
  started : run.timeline.hasSample = true ↔ run.log ≠ []
  nonempty : run.timeline.samples = [] ↔ run.log = []
  latest : ∀ pcr ∈ run.log, pcr.sequence ≤ run.timeline.latestSequence
  ordered : run.log.Pairwise fun a b => a.sequence < b.sequence
  spaced : Spaced run.timeline.samples
  indexed : ∀ sample ∈ run.timeline.samples,
    (∃ pcr ∈ run.log, pcr.sequence = sample.sequence) ∧
      sample.ticks = mediaTime run.log sample.sequence
  near : ∀ sequence front rest, pruneSamples sequence run.timeline.samples = front :: rest →
    front.sequence ≤ sequence → mediaTime run.log sequence < front.ticks + sampleSpacingTicks
  kept : ∀ oldest, run.timeline.samples.head? = some oldest →
    (∃ pcr, run.log.head? = some pcr ∧ pcr.sequence = oldest.sequence) ∨
      ∃ first ∈ run.pruned, oldest.sequence ≤ first

section Steps

variable {run : TimelineRun} {sequence : Nat}

theorem timelineOk_start : TimelineOk {} := by
  refine ⟨rfl, rfl, ?_, ?_, nofun, .nil, .nil, nofun, nofun, nofun⟩
  · simp
  · simp

/-- An observation is ignored, or it accepts the PCR that the log records. -/
theorem observe_cases (h : TimelineOk run) (packet : Bytes) (sequence : Nat) :
    (run.timeline.observe packet sequence = run.timeline ∧ record run.log packet sequence = run.log) ∨
      ∃ raw step, run.timeline.observe packet sequence =
          run.timeline.accept raw sequence (run.timeline.unwrapped + step) ∧
        record run.log packet sequence = run.log ++ [⟨sequence, raw, step⟩] := by
  unfold PcrTimeline.observe record
  rw [← h.reference]
  cases hparse : parsePcr packet with
  | none => exact .inl ⟨rfl, rfl⟩
  | some parsed =>
    obtain ⟨raw, discontinuity⟩ := parsed
    dsimp only
    unfold acceptedStep
    cases hlast : run.timeline.lastRaw with
    | none => exact .inr ⟨raw, 0, rfl, rfl⟩
    | some last =>
      dsimp only
      split_ifs
      · exact .inr ⟨raw, 0, rfl, rfl⟩
      · exact .inr ⟨raw, _, rfl, rfl⟩
      · exact .inl ⟨rfl, rfl⟩
      · exact .inr ⟨raw, 0, rfl, rfl⟩

/-- The PCRs of the log are before a packet that is observed next. -/
def Before (run : TimelineRun) (sequence : Nat) : Prop := ∀ pcr ∈ run.log, pcr.sequence < sequence

theorem TimelineOk.sample_before (h : TimelineOk run) (hbefore : Before run sequence)
    {sample : PcrSample} (hmem : sample ∈ run.timeline.samples) : sample.sequence < sequence := by
  obtain ⟨⟨pcr, hpcr, heq⟩, -⟩ := h.indexed sample hmem
  rw [← heq]
  exact hbefore pcr hpcr

theorem TimelineOk.ticks_le (h : TimelineOk run) {sample : PcrSample}
    (hmem : sample ∈ run.timeline.samples) : sample.ticks ≤ totalTime run.log := by
  rw [(h.indexed sample hmem).2]
  exact mediaTime_le_totalTime _ _

theorem mediaTime_accepted (hbefore : Before run sequence) (raw step : Nat) :
    mediaTime (run.log ++ [⟨sequence, raw, step⟩]) sequence = totalTime run.log + step := by
  rw [mediaTime_eq_totalTime, totalTime_append]
  · rfl
  · intro pcr hpcr
    rcases List.mem_append.mp hpcr with hpcr | hpcr
    · exact (hbefore pcr hpcr).le
    · rw [List.mem_singleton.mp hpcr]

/-- The entry of an old sample does not change when a PCR is accepted behind it. -/
theorem TimelineOk.indexed_accept (h : TimelineOk run) (hbefore : Before run sequence)
    (raw step : Nat) {sample : PcrSample} (hmem : sample ∈ run.timeline.samples) :
    (∃ pcr ∈ run.log ++ [⟨sequence, raw, step⟩], pcr.sequence = sample.sequence) ∧
      sample.ticks = mediaTime (run.log ++ [⟨sequence, raw, step⟩]) sample.sequence := by
  obtain ⟨⟨pcr, hpcr, heq⟩, hticks⟩ := h.indexed sample hmem
  have hlt := h.sample_before hbefore hmem
  refine ⟨⟨pcr, List.mem_append.mpr (.inl hpcr), heq⟩, ?_⟩
  rw [hticks, mediaTime_append_of_lt ⟨sequence, raw, step⟩ hlt]

/-- The last sample is the newest one. -/
theorem Spaced.le_last {samples : List PcrSample} (h : Spaced samples) {last : PcrSample}
    (hlast : samples.getLast? = some last) {sample : PcrSample} (hmem : sample ∈ samples) :
    sample.sequence ≤ last.sequence ∧ sample.ticks ≤ last.ticks := by
  obtain ⟨older, rfl⟩ := List.getLast?_eq_some_iff.mp hlast
  rcases List.mem_append.mp hmem with hmem | hmem
  · obtain ⟨hsequence, hticks⟩ := (List.pairwise_append.mp h).2.2 sample hmem last
      (List.mem_singleton_self last)
    exact ⟨hsequence.le, (Nat.le_add_right _ _).trans hticks⟩
  · rw [List.mem_singleton.mp hmem]
    exact ⟨le_rfl, le_rfl⟩

/-- The index after a PCR: one more sample, or the last sample is less than a spacing behind. -/
theorem accept_samples (timeline : PcrTimeline) (raw sequence unwrapped : Nat) :
    ((timeline.accept raw sequence unwrapped).samples = timeline.samples ++ [⟨sequence, unwrapped⟩] ∧
        ∀ last, timeline.samples.getLast? = some last →
          last.ticks + sampleSpacingTicks ≤ unwrapped) ∨
      (timeline.accept raw sequence unwrapped).samples = timeline.samples ∧
        ∃ last, timeline.samples.getLast? = some last ∧
          unwrapped < last.ticks + sampleSpacingTicks := by
  unfold PcrTimeline.accept
  dsimp only
  split
  · rename_i hspaced
    refine .inl ⟨rfl, fun last hlast => ?_⟩
    rw [hlast, Option.all_some] at hspaced
    exact of_decide_eq_true hspaced
  · rename_i hspaced
    cases hlast : timeline.samples.getLast? with
    | none =>
      rw [hlast] at hspaced
      exact absurd Option.all_none hspaced
    | some last =>
      rw [hlast, Option.all_some] at hspaced
      exact .inr ⟨rfl, last, rfl, not_le.mp fun hle => hspaced (decide_eq_true hle)⟩

theorem accept_fields (timeline : PcrTimeline) (raw sequence unwrapped : Nat) :
    (timeline.accept raw sequence unwrapped).lastRaw = some raw ∧
      (timeline.accept raw sequence unwrapped).unwrapped = unwrapped ∧
      (timeline.accept raw sequence unwrapped).latestSequence = sequence ∧
      (timeline.accept raw sequence unwrapped).hasSample = true := ⟨rfl, rfl, rfl, rfl⟩

/-- The new sample is apart from the index. -/
theorem TimelineOk.spaced_accept (h : TimelineOk run) (hbefore : Before run sequence)
    {unwrapped : Nat} (hfar : ∀ last, run.timeline.samples.getLast? = some last →
      last.ticks + sampleSpacingTicks ≤ unwrapped) :
    Spaced (run.timeline.samples ++ [⟨sequence, unwrapped⟩]) := by
  refine List.pairwise_append.mpr ⟨h.spaced, List.pairwise_singleton _ _, ?_⟩
  intro sample hmem new hnew
  rw [List.mem_singleton.mp hnew]
  refine ⟨h.sample_before hbefore hmem, ?_⟩
  obtain ⟨last, hlast⟩ := Option.isSome_iff_exists.mp
    (List.getLast?_isSome.mpr (List.ne_nil_of_mem hmem))
  exact (Nat.add_le_add_right (h.spaced.le_last hlast hmem).2 _).trans (hfar last hlast)

/-- The lookup error stays below one spacing when a PCR is accepted. -/
theorem TimelineOk.near_accept (h : TimelineOk run) (hbefore : Before run sequence)
    (raw step : Nat) (position : Nat) {front : PcrSample} {rest : List PcrSample}
    (hprune : pruneSamples position (run.timeline.accept raw sequence
      (run.timeline.unwrapped + step)).samples = front :: rest) (hle : front.sequence ≤ position) :
    mediaTime (run.log ++ [⟨sequence, raw, step⟩]) position < front.ticks + sampleSpacingTicks := by
  have htotal : mediaTime (run.log ++ [⟨sequence, raw, step⟩]) position ≤
      run.timeline.unwrapped + step := by
    rw [h.head]
    exact (mediaTime_le_totalTime _ _).trans (by simp [totalTime])
  have hpos : 0 < sampleSpacingTicks := by decide
  rcases accept_samples run.timeline raw sequence (run.timeline.unwrapped + step) with
    ⟨hsamples, hfar⟩ | ⟨hsamples, last, hlast, hclose⟩
  · rw [hsamples] at hprune
    have hspaced := h.spaced_accept hbefore hfar
    rcases lt_or_ge position sequence with hlt | hge
    · rw [mediaTime_append_of_lt ⟨sequence, raw, step⟩ hlt]
      by_cases hempty : run.timeline.samples = []
      · rw [hempty] at hprune
        obtain ⟨rfl, -⟩ := List.cons.inj hprune
        exact absurd hlt (not_lt.mpr hle)
      · rw [pruneSamples_append hempty hlt] at hprune
        obtain ⟨old, others, hold⟩ :=
          List.exists_cons_of_ne_nil (pruneSamples_ne_nil position hempty)
        rw [hold] at hprune
        obtain ⟨rfl, -⟩ := List.cons.inj hprune
        exact h.near position _ _ hold hle
    · have hnew := hspaced.le_front hprune
        (List.mem_append.mpr (.inr (List.mem_singleton_self _))) hge
      exact (htotal.trans hnew).trans_lt (Nat.lt_add_of_pos_right hpos)
  · rw [hsamples] at hprune
    rcases lt_or_ge position sequence with hlt | hge
    · rw [mediaTime_append_of_lt ⟨sequence, raw, step⟩ hlt]
      exact h.near position _ _ hprune hle
    · have hmem := List.mem_of_getLast? hlast
      have hfront := h.spaced.le_front hprune hmem ((h.sample_before hbefore hmem).le.trans hge)
      exact htotal.trans_lt (hclose.trans_le (Nat.add_le_add_right hfront _))

/-- A PCR is accepted. -/
theorem TimelineOk.accept (h : TimelineOk run) (hbefore : Before run sequence) (raw step : Nat) :
    TimelineOk { run with
      timeline := run.timeline.accept raw sequence (run.timeline.unwrapped + step)
      log := run.log ++ [⟨sequence, raw, step⟩] } := by
  have hcases := accept_samples run.timeline raw sequence (run.timeline.unwrapped + step)
  constructor
  · simp [(accept_fields _ _ _ _).1]
  · simp [(accept_fields _ _ _ _).2.1, h.head, totalTime]
  · simp [(accept_fields _ _ _ _).2.2.2]
  · refine iff_of_false ?_ (by simp)
    rcases hcases with ⟨hsamples, -⟩ | ⟨hsamples, last, hlast, -⟩
    · simp [hsamples]
    · rw [hsamples]
      exact List.ne_nil_of_mem (List.mem_of_getLast? hlast)
  · intro pcr hpcr
    rcases List.mem_append.mp hpcr with hpcr | hpcr
    · exact (hbefore pcr hpcr).le
    · rw [List.mem_singleton.mp hpcr]
      exact le_rfl
  · refine List.pairwise_append.mpr ⟨h.ordered, List.pairwise_singleton _ _, ?_⟩
    intro pcr hpcr new hnew
    rw [List.mem_singleton.mp hnew]
    exact hbefore pcr hpcr
  · rcases hcases with ⟨hsamples, hfar⟩ | ⟨hsamples, -⟩
    · rw [hsamples]
      exact h.spaced_accept hbefore hfar
    · rw [hsamples]
      exact h.spaced
  · intro sample hmem
    rcases hcases with ⟨hsamples, -⟩ | ⟨hsamples, -⟩
    · rw [hsamples] at hmem
      rcases List.mem_append.mp hmem with hmem | hmem
      · exact h.indexed_accept hbefore raw step hmem
      · obtain rfl := List.mem_singleton.mp hmem
        refine ⟨⟨⟨sequence, raw, step⟩, by simp, rfl⟩, ?_⟩
        rw [mediaTime_accepted hbefore, h.head]
    · rw [hsamples] at hmem
      exact h.indexed_accept hbefore raw step hmem
  · exact fun position front rest hprune hle => h.near_accept hbefore raw step position hprune hle
  · intro oldest holdest
    by_cases hempty : run.timeline.samples = []
    · have hlog := h.nonempty.mp hempty
      rcases hcases with ⟨hsamples, -⟩ | ⟨-, last, hlast, -⟩
      · rw [hsamples, hempty] at holdest
        obtain rfl := Option.some.inj holdest
        exact .inl ⟨_, by rw [hlog]; rfl, rfl⟩
      · rw [hempty] at hlast
        cases hlast
    · have hhead : run.timeline.samples.head? = some oldest := by
        rcases hcases with ⟨hsamples, -⟩ | ⟨hsamples, -⟩
        · rwa [hsamples, List.head?_append_of_ne_nil _ hempty] at holdest
        · rwa [hsamples] at holdest
      refine (h.kept oldest hhead).imp_left fun ⟨pcr, hpcr, heq⟩ => ⟨pcr, ?_, heq⟩
      rw [List.head?_append, hpcr, Option.some_or]

/-- The index is pruned. -/
theorem TimelineOk.prune (h : TimelineOk run) (first : Nat) :
    TimelineOk { run with
      timeline := run.timeline.prune first
      pruned := run.pruned ++ [first] } where
  reference := h.reference
  head := h.head
  started := h.started
  nonempty := by
    rw [← h.nonempty]
    refine ⟨fun hnil => by_contra fun hne => pruneSamples_ne_nil first hne hnil, fun hnil => ?_⟩
    have hprune : (run.timeline.prune first).samples = pruneSamples first run.timeline.samples := rfl
    rw [hprune, hnil]
    rfl
  latest := h.latest
  ordered := h.ordered
  spaced := h.spaced.suffix (pruneSamples_suffix first _)
  indexed sample hmem := h.indexed sample ((pruneSamples_suffix first _).subset hmem)
  near position front rest hprune hle :=
    h.near position front rest (h.spaced.prune_suffix (pruneSamples_suffix first _) hprune hle) hle
  kept oldest holdest := by
    obtain ⟨rest, heq⟩ := List.head?_eq_some_iff.mp holdest
    rcases (pruneSamples_front heq).1 with hhead | hle
    · exact (h.kept oldest hhead).imp_right fun ⟨f, hf, hle⟩ =>
        ⟨f, List.mem_append.mpr (.inl hf), hle⟩
    · exact .inr ⟨first, by simp, hle⟩

theorem TimelineOk.step (h : TimelineOk run) {op : TimelineOp}
    (hop : ∀ sequence, op.sequence = some sequence → Before run sequence) :
    TimelineOk (run.step op) := by
  cases op with
  | observe packet sequence =>
    have hbefore := hop sequence rfl
    simp only [TimelineRun.step]
    rcases observe_cases h packet sequence with
      ⟨hsame, hlog⟩ | ⟨raw, step, haccept, hlog⟩
    · rw [hsame, hlog]
      exact h
    · rw [haccept, hlog]
      exact h.accept hbefore raw step
  | prune first => exact h.prune first

end Steps

section Runs

theorem ofOps_snoc (ops : List TimelineOp) (op : TimelineOp) :
    TimelineRun.ofOps (ops ++ [op]) = (TimelineRun.ofOps ops).step op := by
  simp [TimelineRun.ofOps]

/-- Every accepted PCR was observed. -/
theorem observed_of_mem_log {ops : List TimelineOp} {pcr : AcceptedPcr}
    (h : pcr ∈ (TimelineRun.ofOps ops).log) : pcr.sequence ∈ ops.filterMap TimelineOp.sequence := by
  induction ops using List.reverseRecOn with
  | nil => cases h
  | append_singleton ops op ih =>
    rw [ofOps_snoc] at h
    rw [List.filterMap_append, List.mem_append]
    cases op with
    | observe packet sequence =>
      simp only [TimelineRun.step, record] at h
      split at h
      · exact .inl (ih h)
      · split at h
        · exact .inl (ih h)
        · refine (List.mem_append.mp h).imp ih fun hnew => ?_
          rw [List.mem_singleton.mp hnew]
          exact List.mem_singleton_self sequence
    | prune first => exact .inl (ih h)

theorem timelineOk_ofOps {ops : List TimelineOp} (h : InSequence ops) :
    TimelineOk (TimelineRun.ofOps ops) := by
  induction ops using List.reverseRecOn with
  | nil => exact timelineOk_start
  | append_singleton ops op ih =>
    rw [InSequence, List.filterMap_append] at h
    obtain ⟨hops, -, hbefore⟩ := List.pairwise_append.mp h
    rw [ofOps_snoc]
    refine (ih hops).step fun sequence hsequence pcr hpcr => ?_
    refine hbefore pcr.sequence (observed_of_mem_log hpcr) sequence ?_
    exact List.mem_filterMap.mpr ⟨op, List.mem_singleton_self op, hsequence⟩

variable {run : TimelineRun}

theorem TimelineOk.headTicks_eq (h : TimelineOk run) :
    run.timeline.headTicks = if run.log = [] then none else some (totalTime run.log) := by
  unfold PcrTimeline.headTicks
  rw [h.head]
  by_cases hlog : run.log = []
  · rw [if_pos hlog, if_neg fun hstarted => h.started.mp hstarted hlog]
  · rw [if_neg hlog, if_pos (h.started.mpr hlog)]

/-- At the newest PCR and behind it the media time is exact. -/
theorem ticksAt_newest {timeline : PcrTimeline} {sequence : Nat} (hstarted : timeline.hasSample = true)
    (hle : timeline.latestSequence ≤ sequence) :
    timeline.ticksAt sequence = some timeline.unwrapped := if_pos ⟨hstarted, hle⟩

/-- Before that it is what the index has. -/
theorem ticksAt_indexed (timeline : PcrTimeline) (hspaced : Spaced timeline.samples) {sequence : Nat}
    (hlt : sequence < timeline.latestSequence) :
    timeline.ticksAt sequence =
      (pruneSamples sequence timeline.samples).head?.map PcrSample.ticks := by
  unfold PcrTimeline.ticksAt
  rw [if_neg fun h => not_le.mpr hlt h.2, ← lookup_eq hspaced]

/-- The two ways to find a media time, once there is a PCR. -/
theorem TimelineOk.ticksAt_cases (h : TimelineOk run) (hlog : run.log ≠ []) (sequence : Nat) :
    (run.timeline.latestSequence ≤ sequence ∧
        run.timeline.ticksAt sequence = some (totalTime run.log)) ∨
      sequence < run.timeline.latestSequence ∧ ∃ front rest,
        pruneSamples sequence run.timeline.samples = front :: rest ∧
          run.timeline.ticksAt sequence = some front.ticks := by
  rcases le_or_gt run.timeline.latestSequence sequence with hle | hlt
  · refine .inl ⟨hle, ?_⟩
    rw [ticksAt_newest (h.started.mpr hlog) hle, h.head]
  · have hsamples : run.timeline.samples ≠ [] := fun hnil => hlog (h.nonempty.mp hnil)
    obtain ⟨front, rest, heq⟩ := List.exists_cons_of_ne_nil (pruneSamples_ne_nil sequence hsamples)
    refine .inr ⟨hlt, front, rest, heq, ?_⟩
    rw [ticksAt_indexed _ h.spaced hlt, heq]
    rfl

theorem TimelineOk.front_mem {sequence : Nat} {front : PcrSample} {rest : List PcrSample}
    (heq : pruneSamples sequence run.timeline.samples = front :: rest) :
    front ∈ run.timeline.samples :=
  (pruneSamples_suffix sequence _).subset (heq ▸ List.mem_cons_self)

/-- Without a PCR there is no media time. -/
theorem TimelineOk.log_ne_nil (h : TimelineOk run) {sequence ticks : Nat}
    (hticks : run.timeline.ticksAt sequence = some ticks) : run.log ≠ [] := by
  intro hlog
  have hstarted : ¬run.timeline.hasSample = true := fun hstarted => h.started.mp hstarted hlog
  unfold PcrTimeline.ticksAt at hticks
  rw [if_neg fun hboth => hstarted hboth.1, h.nonempty.mpr hlog] at hticks
  cases hticks

theorem TimelineOk.ticksAt_mono (h : TimelineOk run) {sequence sequence' ticks : Nat}
    (hle : sequence ≤ sequence') (hticks : run.timeline.ticksAt sequence = some ticks) :
    ∃ ticks', run.timeline.ticksAt sequence' = some ticks' ∧ ticks ≤ ticks' := by
  have hlog := h.log_ne_nil hticks
  rcases h.ticksAt_cases hlog sequence with ⟨hnew, heq⟩ | ⟨-, front, rest, hprune, heq⟩
  · obtain rfl := Option.some.inj (heq.symm.trans hticks)
    refine ⟨totalTime run.log, ?_, le_rfl⟩
    rw [ticksAt_newest (h.started.mpr hlog) (hnew.trans hle), h.head]
  · obtain rfl := Option.some.inj (heq.symm.trans hticks)
    rcases h.ticksAt_cases hlog sequence' with ⟨-, heq'⟩ | ⟨-, front', rest', hprune', heq'⟩
    · exact ⟨_, heq', h.ticks_le (TimelineOk.front_mem hprune)⟩
    · refine ⟨_, heq', ?_⟩
      -- The front for the later sequence is in what is left for the earlier one.
      have hagain := pruneSamples_pruneSamples hle run.timeline.samples
      rw [hprune, hprune'] at hagain
      have hmem : front' ∈ front :: rest :=
        (pruneSamples_suffix sequence' _).subset (hagain ▸ List.mem_cons_self)
      have hspaced : Spaced (front :: rest) :=
        hprune ▸ h.spaced.suffix (pruneSamples_suffix sequence _)
      exact (hspaced.front_le hmem).2

/-- From the first PCR on the lookup is exact up to one spacing, where nothing was pruned. -/
theorem TimelineOk.ticksAt_near (h : TimelineOk run) {sequence : Nat}
    (hfirst : ∃ pcr ∈ run.log, pcr.sequence ≤ sequence)
    (hpruned : ∀ first ∈ run.pruned, first ≤ sequence) :
    ∃ ticks, run.timeline.ticksAt sequence = some ticks ∧ ticks ≤ mediaTime run.log sequence ∧
      mediaTime run.log sequence < ticks + sampleSpacingTicks := by
  obtain ⟨pcr, hpcr, hle⟩ := hfirst
  have hpos : 0 < sampleSpacingTicks := by decide
  rcases h.ticksAt_cases (List.ne_nil_of_mem hpcr) sequence with
    ⟨hnew, heq⟩ | ⟨-, front, rest, hprune, heq⟩
  · have hexact : mediaTime run.log sequence = totalTime run.log :=
      mediaTime_eq_totalTime fun pcr hpcr => (h.latest pcr hpcr).trans hnew
    refine ⟨_, heq, hexact.ge, ?_⟩
    rw [hexact]
    exact Nat.lt_add_of_pos_right hpos
  · have hfront : front.sequence ≤ sequence := by
      rcases (pruneSamples_front hprune).1 with hhead | hfront
      · rcases h.kept front hhead with ⟨oldest, holdest, hsame⟩ | ⟨first, hmem, hkept⟩
        · obtain ⟨rest, hrest⟩ := List.head?_eq_some_iff.mp holdest
          have hordered := h.ordered
          rw [hrest] at hpcr hordered
          rw [← hsame]
          rcases List.mem_cons.mp hpcr with rfl | hpcr
          · exact hle
          · exact ((List.pairwise_cons.mp hordered).1 pcr hpcr).le.trans hle
        · exact hkept.trans (hpruned first hmem)
      · exact hfront
    refine ⟨_, heq, ?_, h.near sequence front rest hprune hfront⟩
    rw [(h.indexed front (TimelineOk.front_mem hprune)).2]
    exact mediaTime_mono hfront

theorem TimelineOk.ticksAt_prune (h : TimelineOk run) {first sequence : Nat}
    (hle : first ≤ sequence) :
    (run.timeline.prune first).ticksAt sequence = run.timeline.ticksAt sequence := by
  by_cases hlog : run.log = []
  · have hnil : run.timeline.samples = [] := h.nonempty.mpr hlog
    have hsame : pruneSamples first run.timeline.samples = run.timeline.samples := by
      rw [hnil]
      rfl
    rw [PcrTimeline.prune, hsame]
  · rcases le_or_gt run.timeline.latestSequence sequence with hnew | hlt
    · rw [ticksAt_newest (h.started.mpr hlog) hnew]
      exact ticksAt_newest (h.started.mpr hlog) hnew
    · rw [ticksAt_indexed _ h.spaced hlt, ticksAt_indexed (run.timeline.prune first)
        (h.spaced.suffix (pruneSamples_suffix first _)) hlt]
      exact congrArg (fun samples => samples.head?.map PcrSample.ticks)
        (pruneSamples_pruneSamples hle _)

/-- A call never moves the head back. -/
theorem TimelineOk.headTicks_step (h : TimelineOk run) {op : TimelineOp}
    (hop : ∀ sequence, op.sequence = some sequence → Before run sequence) {ticks : Nat}
    (hticks : run.timeline.headTicks = some ticks) :
    ∃ ticks', (run.step op).timeline.headTicks = some ticks' ∧ ticks ≤ ticks' := by
  have hgrows : ∃ more, (run.step op).log = run.log ++ more := by
    cases op with
    | observe packet sequence =>
      rcases observe_cases h packet sequence with ⟨-, hlog⟩ | ⟨raw, step, -, hlog⟩
      · exact ⟨[], hlog.trans (List.append_nil _).symm⟩
      · exact ⟨_, hlog⟩
    | prune first => exact ⟨[], (List.append_nil _).symm⟩
  obtain ⟨more, hmore⟩ := hgrows
  rw [h.headTicks_eq] at hticks
  split at hticks
  · cases hticks
  · rename_i hlog
    obtain rfl := Option.some.inj hticks
    refine ⟨totalTime (run.log ++ more), ?_, ?_⟩
    · rw [(h.step hop).headTicks_eq, hmore, if_neg (by simp [hlog])]
    · rw [totalTime_append]
      exact Nat.le_add_right _ _

/-- What the media times of a timeline are worth. -/
structure TimelineExact (run : TimelineRun) : Prop where
  head : run.timeline.headTicks = if run.log = [] then none else some (totalTime run.log)
  spaced : Spaced run.timeline.samples
  monotone : ∀ sequence sequence' ticks, sequence ≤ sequence' →
    run.timeline.ticksAt sequence = some ticks →
    ∃ ticks', run.timeline.ticksAt sequence' = some ticks' ∧ ticks ≤ ticks'
  near : ∀ sequence, (∃ pcr ∈ run.log, pcr.sequence ≤ sequence) →
    (∀ first ∈ run.pruned, first ≤ sequence) →
    ∃ ticks, run.timeline.ticksAt sequence = some ticks ∧ ticks ≤ mediaTime run.log sequence ∧
      mediaTime run.log sequence < ticks + sampleSpacingTicks
  stable : ∀ first sequence, first ≤ sequence →
    (run.timeline.prune first).ticksAt sequence = run.timeline.ticksAt sequence

/-- Every run has near media times behind what it was pruned to, and a head that never moves
back. -/
theorem pcr_timeline_exact (ops : List TimelineOp) (h : InSequence ops) :
    TimelineExact (TimelineRun.ofOps ops) ∧
      ∀ op, InSequence (ops ++ [op]) → ∀ ticks,
        (TimelineRun.ofOps ops).timeline.headTicks = some ticks →
        ∃ ticks', (TimelineRun.ofOps (ops ++ [op])).timeline.headTicks = some ticks' ∧
          ticks ≤ ticks' := by
  have hok := timelineOk_ofOps h
  refine ⟨⟨hok.headTicks_eq, hok.spaced, fun _ _ _ => hok.ticksAt_mono, fun _ => hok.ticksAt_near,
    fun _ _ => hok.ticksAt_prune⟩, fun op hop ticks hticks => ?_⟩
  rw [ofOps_snoc]
  refine hok.headTicks_step (fun sequence hsequence pcr hpcr => ?_) hticks
  rw [InSequence, List.filterMap_append] at hop
  refine (List.pairwise_append.mp hop).2.2 pcr.sequence (observed_of_mem_log hpcr) sequence ?_
  exact List.mem_filterMap.mpr ⟨op, List.mem_singleton_self op, hsequence⟩

/-- A packet on PID `0x100` with the PCR of a number of milliseconds, below six minutes. -/
def samplePcr (millis : Nat) : Bytes :=
  [0x47, 0x01, 0x00, 0x20, 0xb7, 0x10, 0, UInt8.ofNat (millis * 90 / 2 ^ 17),
    UInt8.ofNat (millis * 90 / 2 ^ 9), UInt8.ofNat (millis * 90 / 2), 0x7e, 0] ++
    List.replicate 176 0xff

def twoSeconds : List TimelineOp :=
  [.observe (samplePcr 0) 0, .observe (samplePcr 1000) 10, .observe (samplePcr 2000) 20]

theorem pcr_timeline_exact_two_seconds :
    (TimelineRun.ofOps twoSeconds).timeline.headTicks = some 54000000 ∧
      TimelineExact (TimelineRun.ofOps twoSeconds) ∧
      ∀ op, InSequence (twoSeconds ++ [op]) → ∀ ticks,
        (TimelineRun.ofOps twoSeconds).timeline.headTicks = some ticks →
        ∃ ticks', (TimelineRun.ofOps (twoSeconds ++ [op])).timeline.headTicks = some ticks' ∧
          ticks ≤ ticks' :=
  ⟨by decide +kernel, pcr_timeline_exact twoSeconds (by decide)⟩

/-- After pruning to sequence 15, the time at sequence 5 is the one of the PCR at sequence 10. -/
theorem pcr_timeline_ahead_when_pruned :
    InSequence (twoSeconds ++ [.prune 15]) ∧
      (TimelineRun.ofOps (twoSeconds ++ [.prune 15])).log.map AcceptedPcr.sequence = [0, 10, 20] ∧
      (TimelineRun.ofOps (twoSeconds ++ [.prune 15])).timeline.ticksAt 5 = some 27000000 ∧
      mediaTime (TimelineRun.ofOps (twoSeconds ++ [.prune 15])).log 5 = 0 := by
  refine ⟨by decide, ?_, ?_, ?_⟩ <;> decide +kernel

end Runs

end Pacing

end IptvRelay.Media
