import Mathlib.Data.UInt
import IptvRelay.Lib.Circular
import IptvRelay.Slate.ClockFields

/-!
# The timeline across splices

A player that reads the output keeps one log for every segment: the splice reference,
the timestamps, and where the media ended. While the segments stay short against half a
round of the 33-bit clock, each segment begins behind everything that was sent before
it, over any number of splices and rounds.
-/

namespace IptvRelay.Slate

open Transition Blocks Media Psi Muxing

/-! ## Readings of the clock -/

/-- The ticks from `a` to `b`. -/
def ticksTo (a b : UInt64) : Nat := ((b - a) &&& timestampMask).toNat

def IsReading (value : UInt64) : Prop := value.toNat < 2 ^ 33

theorem ticksTo_eq {a b : UInt64} (ha : IsReading a) (hb : IsReading b) :
    ticksTo a b = Circular.ahead (2 ^ 33) a.toNat b.toNat := by
  unfold IsReading at ha hb
  rw [ticksTo, toNat_mask, UInt64.toNat_sub, Circular.ahead]
  split_ifs <;> omega

theorem ticksTo_add {a b c : UInt64} (ha : IsReading a) (hb : IsReading b) (hc : IsReading c)
    (h : ticksTo a b + ticksTo b c < 2 ^ 33) : ticksTo a c = ticksTo a b + ticksTo b c := by
  rw [ticksTo_eq ha hb, ticksTo_eq hb hc] at h ⊢
  rw [ticksTo_eq ha hc, Circular.ahead_add ha hb h]

theorem ticksTo_sub {r a b : UInt64} (hr : IsReading r) (ha : IsReading a) (hb : IsReading b)
    (h : ticksTo r a ≤ ticksTo r b) : ticksTo a b = ticksTo r b - ticksTo r a := by
  rw [ticksTo_eq hr ha, ticksTo_eq hr hb] at h ⊢
  rw [ticksTo_eq ha hb, Circular.ahead_sub hr ha hb h]

/-- The reading some ticks behind. -/
theorem ticksTo_rebase {a : UInt64} (ha : IsReading a) {ticks : UInt64} (hd : IsReading ticks) :
    ticksTo a (rebase ticks a) = ticks.toNat := by
  have hsum : (rebase ticks a).toNat = (a.toNat + ticks.toNat) % 2 ^ 33 := by
    unfold IsReading at ha hd
    rw [rebase, toNat_mask, UInt64.toNat_add]
    omega
  rw [ticksTo_eq ha (rebase_lt ticks a), hsum, Circular.ahead_mod ha hd]

theorem laterTimestamp_toNat {a b : UInt64} (ha : IsReading a) (hb : IsReading b) :
    (laterTimestamp a b).toNat = Circular.later (2 ^ 33) a.toNat b.toNat := by
  have hhalf : (a - b) &&& timestampMask < timestampHalfRange ↔
      Circular.ahead (2 ^ 33) b.toNat a.toNat < 2 ^ 33 / 2 := by
    rw [← ticksTo_eq hb ha, ticksTo, UInt64.lt_iff_toNat_lt]
    rfl
  unfold laterTimestamp Circular.later
  rw [apply_ite UInt64.toNat]
  simp only [hhalf]

theorem isReading_laterTimestamp {a b : UInt64} (ha : IsReading a) (hb : IsReading b) :
    IsReading (laterTimestamp a b) := by
  unfold laterTimestamp
  split_ifs
  · exact ha
  · exact hb

theorem laterTimestamp_eq_right {a b : UInt64} (ha : IsReading a) (hb : IsReading b)
    (h : ticksTo a b ≤ 2 ^ 32) : laterTimestamp a b = b := by
  rw [ticksTo_eq ha hb] at h
  exact UInt64.toNat_inj.mp ((laterTimestamp_toNat ha hb).trans (Circular.later_eq_right ha hb h))

theorem ticksTo_laterTimestamp {r a b : UInt64} (hr : IsReading r) (ha : IsReading a)
    (hb : IsReading b) (hra : ticksTo r a < 2 ^ 32) (hrb : ticksTo r b < 2 ^ 32) :
    ticksTo r (laterTimestamp a b) = max (ticksTo r a) (ticksTo r b) := by
  rw [ticksTo_eq hr ha] at hra ⊢
  rw [ticksTo_eq hr hb] at hrb ⊢
  rw [ticksTo_eq hr (isReading_laterTimestamp ha hb), laterTimestamp_toNat ha hb,
    Circular.ahead_later hr ha hb hra hrb]

theorem isReading_readPcrBase {packet : Bytes} {base : UInt64} (h : readPcrBase packet = some base) :
    IsReading base := by
  unfold readPcrBase at h
  split_ifs at h
  cases h
  have h6 := packet[6]!.toNat_lt
  have h7 := packet[7]!.toNat_lt
  have h8 := packet[8]!.toNat_lt
  have h9 := packet[9]!.toNat_lt
  have h10 := packet[10]!.toNat_lt
  rw [IsReading, toNat_pcr_fields]
  omega

theorem isReading_readTimestamp (bytes : Bytes) : IsReading (readTimestamp bytes) := by
  have h0 : ((bytes[0]! >>> 1) &&& 0x07).toNat < 8 := by
    rw [toNat_timestamp_top]
    exact Nat.mod_lt _ (by decide)
  have h1 := bytes[1]!.toNat_lt
  have h2 : (bytes[2]! >>> 1).toNat < 128 := by
    have hbyte := bytes[2]!.toNat_lt
    rw [UInt8.toNat_shiftRight, Nat.shiftRight_eq_div_pow]
    simp only [UInt8.reduceToNat, Nat.reduceMod]
    omega
  have h3 := bytes[3]!.toNat_lt
  have h4 := bytes[4]!.toNat_lt
  rw [IsReading, readTimestamp, toNat_timestamp_fields _ _ _ _ _ h2]
  omega

theorem isReading_pesField {present : UInt8 → Bool} {place : Nat} {packet : Bytes} {value : UInt64}
    (h : pesField present place packet = some value) : IsReading value := by
  unfold pesField at h
  split_ifs at h
  obtain ⟨header, -, h⟩ := Option.bind_eq_some_iff.mp h
  split_ifs at h
  cases h
  exact isReading_readTimestamp _

/-! ## The player -/

/-- A timestamp of the output and the one it was in the input. -/
structure Stamp where
  input : Option UInt64
  output : UInt64
  deriving DecidableEq, Repr

/-- The PCR, PTS and DTS of a forwarded packet. -/
def stampsOf (input output : Bytes) : List Stamp :=
  [readPcrBase, ptsOf, dtsOf].filterMap fun field =>
    (field output).map fun value => ⟨field input, value⟩

/-- What one segment has sent. -/
structure SegmentLog where
  /-- One step behind all earlier output. -/
  reference : UInt64
  stamps : List Stamp := []
  /-- The estimated ends of its PES packets. -/
  ends : List UInt64 := []
  lastPcr : Option UInt64 := none
  deriving DecidableEq, Repr

namespace SegmentLog

/-- The last PCR and the ends of the media. -/
def closing (self : SegmentLog) : List UInt64 := self.lastPcr.toList ++ self.ends

def hear (self : SegmentLog) (clock : SpliceMuxer) (role : Role) (input output : Bytes) :
    SegmentLog :=
  { self with
    stamps := self.stamps ++ stampsOf input output
    ends := self.ends ++
      (latestOf output).toList.map fun latest => (latest + clock.pesStep role) &&& timestampMask
    lastPcr := (readPcrBase output).or self.lastPcr }

end SegmentLog

/-- The clock fields follow those of the muxer; the logs begin with the newest one. -/
structure Player where
  clock : SpliceMuxer := {}
  logs : List SegmentLog := []

namespace Player

/-- Where the next segment is put; the first one is where its own clock says. -/
def splicePoint (self : Player) (first : UInt64) : UInt64 :=
  self.clock.outputReference.elim first fun last => (last + spliceStepTicks) &&& timestampMask

def hear (first : UInt64) (self : Player) (write : Bytes × Emitted) : Player :=
  match write.2 with
  | .segmentStart => { self with logs := { reference := self.splicePoint first } :: self.logs }
  | .stream role packet =>
    match self.logs with
    | [] => self
    | log :: logs =>
      let clock := self.clock.tick role packet
      { clock, logs := log.hear clock role write.1 packet :: logs }
  | _ => self

end Player

/-- The writes of a journal, each with the packet that caused it. -/
def writes (journal : List Handled) : List (Bytes × Emitted) :=
  journal.flatMap fun entry => entry.written.map fun emitted => (entry.input, emitted)

def play (first : UInt64) (journal : List Handled) : Player :=
  (writes journal).foldl (Player.hear first) {}

/-! ## Segments that follow each other -/

/-- The span of a segment for which the half-range order is the order of the timeline. -/
def segmentSpan : Nat := 2 ^ 31 - 46501

/-- Every timestamp is at the splice reference or less than `span` ticks behind it. -/
def Within (span : Nat) (logs : List SegmentLog) : Prop :=
  ∀ log ∈ logs, ∀ stamp ∈ log.stamps, ticksTo log.reference stamp.output < span

def SegmentLog.Complete (log : SegmentLog) : Prop := log.lastPcr ≠ none ∧ log.ends ≠ []

/-- In the half-range order, and by a whole step. -/
def IsLater (a b : UInt64) : Prop :=
  spliceStepTicks.toNat ≤ ticksTo a b ∧ ticksTo a b < timestampHalfRange.toNat

/-- The segment `b` begins a step behind the end of `a`. -/
structure Joins (b a : SegmentLog) : Prop where
  step : ∀ value ∈ a.closing, ticksTo a.reference value + 3003 ≤ ticksTo a.reference b.reference
  near : ticksTo a.reference b.reference ≤ segmentSpan + 93002
  closing : ∀ value ∈ a.closing, IsReading value

/-- What the clock knows of the newest segment. -/
structure Current (clock : SpliceMuxer) (log : SegmentLog) : Prop where
  reference : IsReading log.reference
  pcr : ∀ value, log.lastPcr = some value → clock.lastPcr = some value ∧ IsReading value ∧
    ticksTo log.reference value < segmentSpan
  ends : log.ends ≠ [] → ∃ last, clock.mediaEnd = some last ∧ IsReading last ∧
    ticksTo log.reference last < segmentSpan + 90000 ∧
    ∀ value ∈ log.ends, IsReading value ∧ ticksTo log.reference value ≤ ticksTo log.reference last
  before : log.ends = [] → ∀ last, clock.mediaEnd = some last →
    IsReading last ∧ ticksTo last log.reference ≤ segmentSpan + 3002

/-- The splice keeps the timeline. -/
structure Spliced (player : Player) : Prop where
  steps : ∀ role, (player.clock.pesStep role).toNat ≤ 90000
  current : ∀ log logs, player.logs = log :: logs → Current player.clock log
  silent : player.logs = [] → player.clock.lastPcr = none ∧ player.clock.mediaEnd = none
  chain : player.logs.IsChain Joins
  readings : ∀ log ∈ player.logs, IsReading log.reference ∧
    ∀ stamp ∈ log.stamps, IsReading stamp.output

theorem notePesTime_steps {mux : SpliceMuxer} (h : ∀ role, (mux.pesStep role).toNat ≤ 90000)
    (role other : Role) (latest : UInt64) :
    ((notePesTime mux role latest).pesStep other).toNat ≤ 90000 := by
  unfold notePesTime
  dsimp only
  cases mux.pesTime role with
  | none => exact h other
  | some previous =>
    dsimp only [Option.elim_some]
    split_ifs with hstep
    · by_cases heq : other = role
      · subst heq
        rw [Function.update_self]
        exact UInt64.le_iff_toNat_le.mp hstep.2
      · rw [Function.update_of_ne heq]
        exact h other
    · exact h other

theorem tick_steps {mux : SpliceMuxer} (h : ∀ role, (mux.pesStep role).toNat ≤ 90000) (role : Role)
    (packet : Bytes) (other : Role) : ((mux.tick role packet).pesStep other).toNat ≤ 90000 := by
  unfold SpliceMuxer.tick
  dsimp only
  cases latestOf packet with
  | none => exact h other
  | some latest => exact notePesTime_steps h role other latest

theorem tick_lastPcr (mux : SpliceMuxer) (role : Role) (packet : Bytes) :
    (mux.tick role packet).lastPcr = (readPcrBase packet).or mux.lastPcr := by
  unfold SpliceMuxer.tick
  dsimp only
  cases latestOf packet <;> rfl

theorem tick_mediaEnd (mux : SpliceMuxer) (role : Role) (packet : Bytes) :
    (mux.tick role packet).mediaEnd = (latestOf packet).elim mux.mediaEnd fun latest =>
      some (mux.mediaEnd.elim (rebase ((mux.tick role packet).pesStep role) latest) fun previous =>
        laterTimestamp previous (rebase ((mux.tick role packet).pesStep role) latest)) := by
  unfold SpliceMuxer.tick
  dsimp only
  cases latestOf packet <;> rfl

/-- The latest timestamp of a packet is one of its timestamps. -/
theorem latestOf_mem (input : Bytes) {packet : Bytes} {latest : UInt64}
    (h : latestOf packet = some latest) :
    ∃ stamp ∈ stampsOf input packet, stamp.output = latest ∧ IsReading latest := by
  obtain ⟨pts, hpts, rfl⟩ := Option.map_eq_some_iff.mp h
  have hfield : ∀ field ∈ [readPcrBase, ptsOf, dtsOf], ∀ value, field packet = some value →
      ⟨field input, value⟩ ∈ stampsOf input packet := fun field hfield value hvalue =>
    List.mem_filterMap.mpr ⟨field, hfield, by rw [hvalue]; rfl⟩
  have hptsMem := hfield ptsOf (by simp) pts hpts
  cases hdts : dtsOf packet with
  | none => exact ⟨_, hptsMem, rfl, isReading_pesField hpts⟩
  | some dts =>
    dsimp only [Option.elim_some]
    unfold laterTimestamp
    split_ifs
    · exact ⟨_, hptsMem, rfl, isReading_pesField hpts⟩
    · exact ⟨_, hfield dtsOf (by simp) dts hdts, rfl, isReading_pesField hdts⟩

theorem isReading_stampsOf {input packet : Bytes} {stamp : Stamp} (h : stamp ∈ stampsOf input packet) :
    IsReading stamp.output := by
  obtain ⟨field, hfield, h⟩ := List.mem_filterMap.mp h
  obtain ⟨value, hvalue, rfl⟩ := Option.map_eq_some_iff.mp h
  simp only [List.mem_cons, List.not_mem_nil, or_false] at hfield
  rcases hfield with rfl | rfl | rfl
  · exact isReading_readPcrBase hvalue
  · exact isReading_pesField hvalue
  · exact isReading_pesField hvalue

section Segment

variable {clock : SpliceMuxer} {log : SegmentLog} (hsteps : ∀ role, (clock.pesStep role).toNat ≤ 90000)
  (h : Current clock log) {role : Role} {input packet : Bytes}
  (hspan : ∀ stamp ∈ stampsOf input packet, ticksTo log.reference stamp.output < segmentSpan)

include hsteps h hspan

/-- The end of a PES lies little behind its timestamp. -/
theorem ticksTo_end (role : Role) {latest : UInt64} (hlatest : latestOf packet = some latest) :
    IsReading (rebase ((clock.tick role packet).pesStep role) latest) ∧
      ticksTo log.reference (rebase ((clock.tick role packet).pesStep role) latest) <
        segmentSpan + 90000 := by
  obtain ⟨stamp, hstamp, rfl, hreading⟩ := latestOf_mem input hlatest
  have hstep := tick_steps hsteps role packet role
  have hsmall : IsReading ((clock.tick role packet).pesStep role) := by
    rw [IsReading]
    omega
  have hend := ticksTo_rebase hreading hsmall
  have hstart := hspan stamp hstamp
  refine ⟨rebase_lt _ _, ?_⟩
  rw [ticksTo_add h.reference hreading (rebase_lt _ _) (by unfold segmentSpan at hstart; omega), hend]
  omega

theorem Current.hear :
    Current (clock.tick role packet) (log.hear (clock.tick role packet) role input packet) := by
  refine ⟨h.reference, fun value hvalue => ?_, fun _ => ?_, fun hempty last hlast => ?_⟩
  · rw [tick_lastPcr]
    cases hpcr : readPcrBase packet with
    | none =>
      rw [SegmentLog.hear, hpcr] at hvalue
      exact h.pcr value hvalue
    | some base =>
      rw [SegmentLog.hear, hpcr] at hvalue
      cases hvalue
      refine ⟨rfl, isReading_readPcrBase hpcr, hspan ⟨readPcrBase input, value⟩ ?_⟩
      exact List.mem_filterMap.mpr ⟨readPcrBase, by simp, by rw [hpcr]; rfl⟩
  · rename_i hsome
    rw [tick_mediaEnd]
    cases hlatest : latestOf packet with
    | none =>
      simp only [SegmentLog.hear, hlatest, Option.toList_none, List.map_nil, List.append_nil]
        at hsome ⊢
      exact h.ends hsome
    | some latest =>
      obtain ⟨hreading, hend⟩ := ticksTo_end hsteps h hspan role hlatest
      have hends : (log.hear (clock.tick role packet) role input packet).ends = log.ends ++
          [rebase ((clock.tick role packet).pesStep role) latest] := by
        rw [SegmentLog.hear, hlatest]
        rfl
      rw [hends]
      show ∃ last, some (clock.mediaEnd.elim _ _) = some last ∧ IsReading last ∧
        ticksTo log.reference last < segmentSpan + 90000 ∧ ∀ value ∈ _, IsReading value ∧
          ticksTo log.reference value ≤ ticksTo log.reference last
      generalize rebase ((clock.tick role packet).pesStep role) latest = final at hreading hend
      by_cases hempty : log.ends = []
      · -- The first PES of the segment is behind all earlier ones.
        refine ⟨final, congrArg some ?_, hreading, hend, by simp [hempty, hreading]⟩
        cases hmedia : clock.mediaEnd with
        | none => rfl
        | some previous =>
          obtain ⟨hprevious, hbefore⟩ := h.before hempty previous hmedia
          have hsum : ticksTo previous log.reference + ticksTo log.reference final ≤ 2 ^ 32 := by
            unfold segmentSpan at hend hbefore
            omega
          refine laterTimestamp_eq_right hprevious hreading ?_
          rw [ticksTo_add hprevious h.reference hreading (by omega)]
          exact hsum
      · obtain ⟨last, hmedia, hlast, hnear, hmax⟩ := h.ends hempty
        rw [hmedia]
        have hlater := ticksTo_laterTimestamp h.reference hlast hreading
          (by unfold segmentSpan at hnear; omega) (by unfold segmentSpan at hend; omega)
        refine ⟨laterTimestamp last final, rfl, isReading_laterTimestamp hlast hreading, ?_,
          fun value hvalue => ?_⟩
        · rw [hlater]
          exact max_lt hnear hend
        · rw [hlater]
          rcases List.mem_append.mp hvalue with hvalue | hvalue
          · exact ⟨(hmax value hvalue).1, (hmax value hvalue).2.trans (le_max_left _ _)⟩
          · rw [List.mem_singleton.mp hvalue]
            exact ⟨hreading, le_max_right _ _⟩
  · cases hlatest : latestOf packet with
    | none =>
      rw [tick_mediaEnd, hlatest] at hlast
      simp only [SegmentLog.hear, hlatest, Option.toList_none, List.map_nil, List.append_nil]
        at hempty
      exact h.before hempty last hlast
    | some latest => simp [SegmentLog.hear, hlatest] at hempty

end Segment

theorem splicePoint_eq {player : Player} {pcr media : UInt64} (hpcr : player.clock.lastPcr = some pcr)
    (hmedia : player.clock.mediaEnd = some media) (first : UInt64) :
    player.splicePoint first = rebase spliceStepTicks (laterTimestamp pcr media) := by
  rw [Player.splicePoint, SpliceMuxer.outputReference, hpcr, hmedia]
  rfl

/-- The next segment begins behind the newest one. -/
theorem Current.splice {player : Player} {log : SegmentLog} (h : Current player.clock log)
    (hcomplete : log.Complete) (first : UInt64) :
    Joins { reference := player.splicePoint first } log ∧
      Current player.clock { reference := player.splicePoint first } := by
  obtain ⟨pcr, hpcr⟩ := Option.ne_none_iff_exists'.mp hcomplete.1
  obtain ⟨hclock, hreading, hnear⟩ := h.pcr pcr hpcr
  obtain ⟨last, hmedia, hlast, hend, hmax⟩ := h.ends hcomplete.2
  rw [splicePoint_eq hclock hmedia]
  have hlater := ticksTo_laterTimestamp h.reference hreading hlast
    (by unfold segmentSpan at hnear; omega) (by unfold segmentSpan at hend; omega)
  have hlaterReading := isReading_laterTimestamp hreading hlast
  generalize laterTimestamp pcr last = newest at hlater hlaterReading
  have hstep : ticksTo newest (rebase spliceStepTicks newest) = 3003 :=
    ticksTo_rebase hlaterReading (show spliceStepTicks.toNat < 2 ^ 33 by decide)
  have hreference := rebase_lt spliceStepTicks newest
  generalize rebase spliceStepTicks newest = reference at hstep hreference
  unfold segmentSpan at hnear hend
  have hbegin : ticksTo log.reference reference = max (ticksTo log.reference pcr)
      (ticksTo log.reference last) + 3003 := by
    rw [ticksTo_add h.reference hlaterReading hreference (by omega), hlater, hstep]
  refine ⟨⟨fun value hvalue => ?_, ?_, fun value hvalue => ?_⟩,
    ⟨hreference, by simp, by simp, fun _ other hother => ?_⟩⟩
  · rw [hbegin]
    rcases List.mem_append.mp hvalue with hvalue | hvalue
    · rw [hpcr] at hvalue
      cases List.mem_singleton.mp hvalue
      omega
    · have := (hmax value hvalue).2
      omega
  · rw [hbegin]
    unfold segmentSpan
    omega
  · rcases List.mem_append.mp hvalue with hvalue | hvalue
    · rw [hpcr] at hvalue
      cases List.mem_singleton.mp hvalue
      exact hreading
    · exact (hmax value hvalue).1
  · rw [hmedia] at hother
    cases hother
    refine ⟨hlast, ?_⟩
    rw [ticksTo_sub h.reference hlast hreference (by omega), hbegin]
    unfold segmentSpan
    omega

/-! ## Playing a run -/

theorem hear_segmentStart (first : UInt64) (player : Player) (input : Bytes) :
    player.hear first (input, .segmentStart) =
      { player with logs := { reference := player.splicePoint first } :: player.logs } := rfl

/-- A packet goes into the newest log. -/
theorem hear_stream (first : UInt64) {player : Player} {log : SegmentLog} {logs : List SegmentLog}
    (h : player.logs = log :: logs) (input : Bytes) (role : Role) (packet : Bytes) :
    player.hear first (input, .stream role packet) =
      { clock := player.clock.tick role packet
        logs := log.hear (player.clock.tick role packet) role input packet :: logs } := by
  simp only [Player.hear, h]

/-- What one write can do to a player. -/
theorem hear_cases (first : UInt64) (player : Player) (write : Bytes × Emitted) :
    player.hear first write = player ∨
      (write.2 = .segmentStart ∧ player.hear first write =
        { player with logs := { reference := player.splicePoint first } :: player.logs }) ∨
      ∃ role packet log logs, write.2 = .stream role packet ∧ player.logs = log :: logs ∧
        player.hear first write =
          { clock := player.clock.tick role packet
            logs := log.hear (player.clock.tick role packet) role write.1 packet :: logs } := by
  obtain ⟨input, emitted⟩ := write
  cases emitted with
  | segmentStart => exact .inr (.inl ⟨rfl, rfl⟩)
  | pat packet | pmt packet | discontinuity role packet | null packet => exact .inl rfl
  | stream role packet =>
    cases hlogs : player.logs with
    | nil =>
      refine .inl ?_
      simp only [Player.hear, hlogs]
    | cons log logs =>
      exact .inr (.inr ⟨role, packet, log, logs, rfl, rfl, hear_stream first hlogs input role packet⟩)

/-- The hypotheses on the segments: short, and all but the newest one complete. -/
structure Regular (span : Nat) (logs : List SegmentLog) : Prop where
  within : Within span logs
  complete : ∀ log ∈ logs.tail, log.Complete

/-- A player only adds to its logs. -/
theorem Regular.of_hear {span : Nat} {first : UInt64} {player : Player} {write : Bytes × Emitted}
    (h : Regular span (player.hear first write).logs) : Regular span player.logs := by
  rcases hear_cases first player write with hsame | ⟨-, hsame⟩ | ⟨role, packet, log, logs, -, hlogs, hsame⟩
  · rwa [hsame] at h
  · rw [hsame] at h
    exact ⟨fun log hlog => h.within log (List.mem_cons_of_mem _ hlog),
      fun log hlog => h.complete log (List.mem_of_mem_tail hlog)⟩
  · rw [hsame] at h
    rw [hlogs]
    refine ⟨fun other hother => ?_, h.complete⟩
    rcases List.mem_cons.mp hother with rfl | hother
    · intro stamp hstamp
      exact h.within _ (List.mem_cons_self ..) stamp (List.mem_append_left _ hstamp)
    · exact h.within other (List.mem_cons_of_mem _ hother)

theorem spliced_start : Spliced {} where
  steps _ := Nat.zero_le _
  current _ _ h := by cases h
  silent _ := ⟨rfl, rfl⟩
  chain := .nil
  readings _ h := by cases h

theorem spliced_hear {first : UInt64} (hfirst : IsReading first) {player : Player}
    {write : Bytes × Emitted} (h : Spliced player)
    (hregular : Regular segmentSpan (player.hear first write).logs) :
    Spliced (player.hear first write) := by
  rcases hear_cases first player write with hsame | ⟨-, hsame⟩ | ⟨role, packet, log, logs, -, hlogs, hsame⟩
  · rwa [hsame]
  · rw [hsame] at hregular ⊢
    cases hlogs : player.logs with
    | nil =>
      obtain ⟨hpcr, hmedia⟩ := h.silent hlogs
      have hreading : IsReading (player.splicePoint first) := by
        rw [Player.splicePoint, SpliceMuxer.outputReference, hpcr, hmedia]
        exact hfirst
      refine ⟨h.steps, ?_, by simp, .singleton _, by simp [hreading]⟩
      rintro log logs ⟨⟩
      exact ⟨hreading, by simp, by simp, fun _ last hlast => by simp [hmedia] at hlast⟩
    | cons log logs =>
      have hcomplete := hregular.complete log (by simp [hlogs])
      obtain ⟨hjoins, hcurrent⟩ := (h.current log logs hlogs).splice hcomplete first
      have hreadings : ∀ other ∈ ({ reference := player.splicePoint first } :: log :: logs :
          List SegmentLog), IsReading other.reference ∧
            ∀ stamp ∈ other.stamps, IsReading stamp.output :=
        List.forall_mem_cons.mpr ⟨⟨hcurrent.reference, by simp⟩, hlogs ▸ h.readings⟩
      refine ⟨h.steps, ?_, by simp, .cons_cons hjoins (hlogs ▸ h.chain), hreadings⟩
      rintro other others ⟨⟩
      exact hcurrent
  · rw [hsame] at hregular ⊢
    have hspan : ∀ stamp ∈ stampsOf write.1 packet,
        ticksTo log.reference stamp.output < segmentSpan := fun stamp hstamp =>
      hregular.within _ (List.mem_cons_self ..) stamp (List.mem_append_right _ hstamp)
    have hreadings := List.forall_mem_cons.mp (hlogs ▸ h.readings)
    refine ⟨tick_steps h.steps role packet, ?_, by simp, ?_,
      List.forall_mem_cons.mpr ⟨⟨hreadings.1.1, fun stamp hstamp => ?_⟩, hreadings.2⟩⟩
    · rintro other others ⟨⟩
      exact (h.current log logs hlogs).hear h.steps hspan
    · have hchain := h.chain
      rw [hlogs] at hchain
      cases logs with
      | nil => exact .singleton _
      | cons older logs =>
        obtain ⟨hjoins, hrest⟩ := List.isChain_cons_cons.mp hchain
        exact .cons_cons ⟨hjoins.step, hjoins.near, hjoins.closing⟩ hrest
    · rcases List.mem_append.mp hstamp with hstamp | hstamp
      · exact hreadings.1.2 stamp hstamp
      · exact isReading_stampsOf hstamp

theorem spliced_play {first : UInt64} (hfirst : IsReading first) (heard : List (Bytes × Emitted))
    (h : Regular segmentSpan (heard.foldl (Player.hear first) {}).logs) :
    Spliced (heard.foldl (Player.hear first) {}) := by
  induction heard using List.reverseRecOn with
  | nil => exact spliced_start
  | append_singleton heard write ih =>
    rw [List.foldl_append, List.foldl_cons, List.foldl_nil] at h ⊢
    exact spliced_hear hfirst (ih h.of_hear) h

/-! ## The unwrapped timeline -/

/-- The position of the newest splice reference on a line without wraps. -/
def origin : List SegmentLog → Nat
  | [] => 0
  | [log] => log.reference.toNat
  | b :: a :: logs => origin (a :: logs) + ticksTo a.reference b.reference

/-- The position of a reading of the newest segment. -/
def place : List SegmentLog → UInt64 → Nat
  | [], _ => 0
  | log :: logs, value => origin (log :: logs) + ticksTo log.reference value

theorem origin_mono (newer : List SegmentLog) (a : SegmentLog) (older : List SegmentLog) :
    origin (a :: older) ≤ origin (newer ++ a :: older) := by
  induction newer with
  | nil => exact le_refl _
  | cons b newer ih =>
    cases newer with
    | nil => exact Nat.le_add_right ..
    | cons c newer => exact ih.trans (Nat.le_add_right ..)

theorem origin_mod {log : SegmentLog} {logs : List SegmentLog}
    (h : ∀ other ∈ log :: logs, IsReading other.reference) :
    origin (log :: logs) % 2 ^ 33 = log.reference.toNat := by
  induction logs generalizing log with
  | nil => exact Nat.mod_eq_of_lt (h log (List.mem_cons_self ..))
  | cons a logs ih =>
    obtain ⟨hlog, hlogs⟩ := List.forall_mem_cons.mp h
    have ha := hlogs a (List.mem_cons_self ..)
    rw [origin, Nat.add_mod, ih hlogs, ticksTo_eq ha hlog, Nat.mod_eq_of_lt
      (Circular.ahead_lt ha hlog), Circular.add_ahead_mod ha hlog]

/-- The position of a reading shows it. -/
theorem place_mod {log : SegmentLog} {logs : List SegmentLog}
    (h : ∀ other ∈ log :: logs, IsReading other.reference) {value : UInt64} (hvalue : IsReading value) :
    place (log :: logs) value % 2 ^ 33 = value.toNat := by
  have hlog := h log (List.mem_cons_self ..)
  rw [place, Nat.add_mod, origin_mod h, ticksTo_eq hlog hvalue, Nat.mod_eq_of_lt
    (Circular.ahead_lt hlog hvalue), Circular.add_ahead_mod hlog hvalue]

theorem ticksTo_of_place {value other : UInt64} {p q : Nat} (hp : p % 2 ^ 33 = value.toNat)
    (hq : q % 2 ^ 33 = other.toNat) (hle : p ≤ q) (hnear : q < p + 2 ^ 33) :
    ticksTo value other = q - p := by
  have hvalue : IsReading value := by
    rw [IsReading, ← hp]
    exact Nat.mod_lt _ (by decide)
  have hother : IsReading other := by
    rw [IsReading, ← hq]
    exact Nat.mod_lt _ (by decide)
  rw [ticksTo_eq hvalue hother, ← hp, ← hq, Circular.ahead_positions (by decide) hle hnear]

/-- What the muxer guarantees for the timestamps of its segments, the newest segment first. -/
structure TimelineContinues (logs : List SegmentLog) : Prop where
  /-- Positions on the line show the readings. -/
  shown : ∀ newer log older, logs = newer ++ log :: older → ∀ stamp ∈ log.stamps,
    place (log :: older) stamp.output % 2 ^ 33 = stamp.output.toNat
  /-- A segment is behind the end of every earlier one. -/
  behind : ∀ newer b between a older, logs = newer ++ (b :: between) ++ a :: older →
    ∀ stamp ∈ b.stamps, ∀ value ∈ a.closing,
      place (a :: older) value + spliceStepTicks.toNat ≤
        place (b :: between ++ a :: older) stamp.output
  /-- The clock shows it as long as less than half a round lies between. -/
  circular : ∀ newer b between a older, logs = newer ++ (b :: between) ++ a :: older →
    ∀ stamp ∈ b.stamps, ∀ value ∈ a.closing,
      place (b :: between ++ a :: older) stamp.output <
        place (a :: older) value + timestampHalfRange.toNat → IsLater value stamp.output
  /-- In particular from one segment to the next. -/
  next : ∀ newer b a older, logs = newer ++ b :: a :: older →
    ∀ stamp ∈ b.stamps, ∀ value ∈ a.closing, IsLater value stamp.output

section Line

variable {player : Player} (h : Spliced player)

include h

theorem Spliced.references {newer : List SegmentLog} {log : SegmentLog} {older : List SegmentLog}
    (hlogs : player.logs = newer ++ log :: older) :
    ∀ other ∈ log :: older, IsReading other.reference := fun other hother =>
  (h.readings other (hlogs ▸ List.mem_append_right _ hother)).1

theorem Spliced.joins {newer : List SegmentLog} {b a : SegmentLog} {older : List SegmentLog}
    (hlogs : player.logs = newer ++ b :: a :: older) : Joins b a := by
  have hchain := h.chain
  rw [hlogs] at hchain
  exact (List.isChain_cons_cons.mp (List.isChain_append.mp hchain).2.1).1

/-- The segment right after `a`. -/
theorem Spliced.exists_after {newer : List SegmentLog} {b : SegmentLog} {between : List SegmentLog}
    {a : SegmentLog} {older : List SegmentLog}
    (hlogs : player.logs = newer ++ (b :: between) ++ a :: older) :
    ∃ later after, b :: between ++ a :: older = later ++ after :: a :: older ∧ Joins after a := by
  have hsplit : b :: between ++ a :: older = (b :: between).dropLast ++
      (b :: between).getLast (List.cons_ne_nil b between) :: a :: older := by
    conv_lhs => rw [← List.dropLast_append_getLast (List.cons_ne_nil b between)]
    rw [List.append_assoc]
    rfl
  have hall : player.logs = (newer ++ (b :: between).dropLast) ++
      (b :: between).getLast (List.cons_ne_nil b between) :: a :: older := by
    rw [hlogs, List.append_assoc, hsplit, List.append_assoc]
  exact ⟨_, _, hsplit, h.joins hall⟩

/-- Later segments are behind the one right after `a`, and that one is behind `a`. -/
theorem Spliced.place_le {newer : List SegmentLog} {b : SegmentLog} {between : List SegmentLog}
    {a : SegmentLog} {older : List SegmentLog}
    (hlogs : player.logs = newer ++ (b :: between) ++ a :: older) (reading : UInt64) {value : UInt64}
    (hvalue : value ∈ a.closing) :
    place (a :: older) value + 3003 ≤ place (b :: between ++ a :: older) reading := by
  obtain ⟨later, after, hsplit, hjoins⟩ := h.exists_after hlogs
  calc place (a :: older) value + 3003
      ≤ origin (after :: a :: older) := by
        have := hjoins.step value hvalue
        show origin (a :: older) + ticksTo a.reference value + 3003 ≤
          origin (a :: older) + ticksTo a.reference after.reference
        omega
    _ ≤ origin (later ++ after :: a :: older) := origin_mono later after (a :: older)
    _ = origin (b :: between ++ a :: older) := by rw [hsplit]
    _ ≤ place (b :: between ++ a :: older) reading := Nat.le_add_right ..

/-- Positions less than half a round apart are in the half-range order. -/
theorem Spliced.isLater {newer : List SegmentLog} {b : SegmentLog} {between : List SegmentLog}
    {a : SegmentLog} {older : List SegmentLog}
    (hlogs : player.logs = newer ++ (b :: between) ++ a :: older) {stamp : Stamp}
    (hstamp : stamp ∈ b.stamps) {value : UInt64} (hvalue : value ∈ a.closing)
    (hnear : place (b :: between ++ a :: older) stamp.output <
      place (a :: older) value + timestampHalfRange.toNat) : IsLater value stamp.output := by
  obtain ⟨later, after, -, hjoins⟩ := h.exists_after hlogs
  have hreading := (h.readings b (by simp [hlogs])).2 stamp hstamp
  have hle := h.place_le hlogs stamp.output hvalue
  have hall := hlogs
  rw [List.append_assoc] at hall
  have hhalf : timestampHalfRange.toNat = 2 ^ 32 := rfl
  rw [hhalf] at hnear
  have hshown : place (b :: between ++ a :: older) stamp.output % 2 ^ 33 = stamp.output.toNat :=
    place_mod (h.references hall) hreading
  have hticks := ticksTo_of_place (place_mod (h.references hlogs) (hjoins.closing value hvalue))
    hshown (by omega) (by omega)
  have hstep : spliceStepTicks.toNat = 3003 := rfl
  rw [IsLater, hticks, hhalf, hstep]
  constructor <;> omega

theorem Spliced.timeline (hregular : Regular segmentSpan player.logs) :
    TimelineContinues player.logs where
  shown newer log older hlogs stamp hstamp := place_mod (h.references hlogs)
    ((h.readings log (by simp [hlogs])).2 stamp hstamp)
  behind newer b between a older hlogs stamp _ value hvalue := h.place_le hlogs stamp.output hvalue
  circular newer b between a older hlogs stamp hstamp value hvalue := h.isLater hlogs hstamp hvalue
  next newer b a older hlogs stamp hstamp value hvalue := by
    have hsplit : player.logs = newer ++ (b :: []) ++ a :: older := by simpa using hlogs
    refine h.isLater hsplit hstamp hvalue ?_
    have hspan := hregular.within b (by simp [hlogs]) stamp hstamp
    have hnear := (h.joins hlogs).near
    have hhalf : timestampHalfRange.toNat = 2 ^ 32 := rfl
    rw [hhalf]
    show origin (a :: older) + ticksTo a.reference b.reference + ticksTo b.reference stamp.output <
      origin (a :: older) + ticksTo a.reference value + 2 ^ 32
    unfold segmentSpan at hspan hnear
    omega

end Line

/-! ## Following the muxer -/

structure SameClock (a b : SpliceMuxer) : Prop where
  lastPcr : a.lastPcr = b.lastPcr
  pesTime : a.pesTime = b.pesTime
  pesStep : a.pesStep = b.pesStep
  mediaEnd : a.mediaEnd = b.mediaEnd

theorem SameClock.refl (a : SpliceMuxer) : SameClock a a := ⟨rfl, rfl, rfl, rfl⟩

theorem SameClock.trans {a b c : SpliceMuxer} (h : SameClock a b) (h' : SameClock b c) :
    SameClock a c :=
  ⟨h.1.trans h'.1, h.2.trans h'.2, h.3.trans h'.3, h.4.trans h'.4⟩

theorem SameClock.tick {a b : SpliceMuxer} (h : SameClock a b) (role : Role) (packet : Bytes) :
    SameClock (a.tick role packet) (b.tick role packet) := by
  unfold SpliceMuxer.tick
  dsimp only
  rw [h.lastPcr]
  cases latestOf packet with
  | none => exact ⟨rfl, h.pesTime, h.pesStep, h.mediaEnd⟩
  | some latest =>
    refine ⟨rfl, ?_, ?_, ?_⟩ <;>
      simp only [Option.elim_some, notePesTime, h.pesTime, h.pesStep, h.mediaEnd]

/-- Tables and null packets have no time. -/
def Emitted.Untimed : Emitted → Prop
  | .segmentStart | .stream _ _ => False
  | _ => True

/-- From `s` to `t` the muxer has written nothing with a time. -/
structure Announces (s t : Muxing) : Prop where
  clock : SameClock s.mux t.mux
  out : ∃ more, t.out = s.out ++ more ∧ ∀ emitted ∈ more, emitted.Untimed

namespace Announces

theorem refl (s : Muxing) : Announces s s := ⟨.refl _, [], by simp, by simp⟩

theorem trans {s t u : Muxing} (h : Announces s t) (h' : Announces t u) : Announces s u := by
  obtain ⟨more, hmore, huntimed⟩ := h.out
  obtain ⟨rest, hrest, huntimed'⟩ := h'.out
  refine ⟨h.clock.trans h'.clock, more ++ rest, by rw [hrest, hmore, List.append_assoc], ?_⟩
  intro emitted hemitted
  rcases List.mem_append.mp hemitted with hemitted | hemitted
  · exact huntimed emitted hemitted
  · exact huntimed' emitted hemitted

theorem write {s t : Muxing} {emitted : Emitted} (hclock : SameClock s.mux t.mux)
    (hout : t.out = s.out ++ [emitted]) (huntimed : emitted.Untimed) : Announces s t :=
  ⟨hclock, [emitted], hout, by simpa using huntimed⟩

theorem adoptMap (s : Muxing) (map : Option ProgramMap) : Announces s (s.adoptMap map) :=
  ⟨⟨rfl, rfl, rfl, rfl⟩, [], by simp [Muxing.adoptMap], by simp⟩

theorem writePat (s : Muxing) : Announces s s.writePat := write ⟨rfl, rfl, rfl, rfl⟩ rfl trivial

theorem writePmt (s : Muxing) : Announces s s.writePmt := by
  unfold Muxing.writePmt
  split
  · exact refl s
  · exact write ⟨rfl, rfl, rfl, rfl⟩ rfl trivial

theorem writeDiscontinuity (s : Muxing) (role : Role) : Announces s (s.writeDiscontinuity role) :=
  write ⟨rfl, rfl, rfl, rfl⟩ rfl trivial

theorem writeDiscontinuities (roles : List Role) (s : Muxing) :
    Announces s (roles.foldl Muxing.writeDiscontinuity s) := by
  induction roles generalizing s with
  | nil => exact refl s
  | cons role roles ih => exact (writeDiscontinuity s role).trans (ih _)

end Announces

/-- What one packet can do to the timeline. -/
theorem runningPacket_clock (s : Muxing) (segment : Segment) (packet : Bytes) :
    (s.runningPacket segment packet).2.offset = segment.offset ∧
      (Announces s (s.runningPacket segment packet).1 ∨
        ∃ mid role output, Announces s mid ∧
          (s.runningPacket segment packet).1.out = mid.out ++ [.stream role output] ∧
          Moved segment.offset packet output ∧
          SameClock (mid.mux.tick role output) (s.runningPacket segment packet).1.mux) := by
  have hroute : ∀ (mid : Muxing) (running : Segment), packet.length = mpegTsPacketSize →
      running.offset = segment.offset → (mid.route running packet).2.offset = segment.offset ∧
        (Announces mid (mid.route running packet).1 ∨ ∃ role output,
          (mid.route running packet).1.out = mid.out ++ [.stream role output] ∧
          Moved segment.offset packet output ∧
          SameClock (mid.mux.tick role output) (mid.route running packet).1.mux) := by
    intro mid running hlength hoffset
    unfold route
    dsimp only
    split
    · refine ⟨hoffset, .inl ?_⟩
      split
      · exact (Announces.writePat mid).trans (Announces.writePmt _)
      · exact .refl mid
    · split
      · exact ⟨hoffset, .inl (.refl mid)⟩
      · split
        · rename_i role _ _
          obtain ⟨output, outputCc, hout, hmoved, hmux⟩ := forward_clock mid running role hlength
          refine ⟨hoffset, .inr ⟨role, output, hout, hoffset ▸ hmoved, ?_⟩⟩
          have hsame : SameClock mid.mux { mid.mux with outputCc } := ⟨rfl, rfl, rfl, rfl⟩
          rw [hmux]
          exact hsame.tick role output
        · exact ⟨hoffset, .inl (.refl mid)⟩
  unfold runningPacket
  split
  · exact ⟨rfl, .inl (.refl s)⟩
  rename_i hwhole
  rw [not_or, not_not, not_not] at hwhole
  split
  · exact ⟨rfl, .inl (.write (.refl _) rfl trivial)⟩
  dsimp only
  split
  · obtain ⟨hoffset, hannounces | ⟨role, output, hsent⟩⟩ := hroute s (segment.observePsi packet).1
      hwhole.1 rfl
    · exact ⟨hoffset, .inl hannounces⟩
    · exact ⟨hoffset, .inr ⟨s, role, output, .refl s, hsent⟩⟩
  · rename_i map hmap
    have hadopted := (Announces.adoptMap s (some map)).trans (Announces.writePmt _)
    obtain ⟨hoffset, hannounces | ⟨role, output, hsent⟩⟩ := hroute
      (s.adoptMap (some map)).writePmt ((segment.observePsi packet).1.restart map) hwhole.1 rfl
    · exact ⟨hoffset, .inl (hadopted.trans hannounces)⟩
    · exact ⟨hoffset, .inr ⟨_, role, output, hadopted, hsent⟩⟩

/-- Every timestamp of the log was moved by `offset`. -/
def SegmentLog.MovedBy (offset : UInt64) (log : SegmentLog) : Prop :=
  ∀ stamp ∈ log.stamps, stamp.input.map (rebase offset) = some stamp.output

/-- The player that has heard these writes knows the clock of the muxer. -/
structure Followed (first : UInt64) (heard : List (Bytes × Emitted)) (s : Muxing) : Prop where
  clock : SameClock (heard.foldl (Player.hear first) {}).clock s.mux
  kept : ∀ log ∈ (heard.foldl (Player.hear first) {}).logs, ∃ offset, log.MovedBy offset
  logged : ∀ write ∈ heard, ∀ role packet, write.2 = .stream role packet →
    ∀ stamp ∈ stampsOf write.1 packet,
      ∃ log ∈ (heard.foldl (Player.hear first) {}).logs, stamp ∈ log.stamps

/-- The newest log is the one of the running segment. -/
def Logs (first : UInt64) (heard : List (Bytes × Emitted)) (segment : Segment) : Prop :=
  ∃ log logs, (heard.foldl (Player.hear first) {}).logs = log :: logs ∧ log.MovedBy segment.offset

theorem foldl_hear_untimed (first : UInt64) (player : Player) (input : Bytes) (more : List Emitted)
    (h : ∀ emitted ∈ more, emitted.Untimed) :
    (more.map fun emitted => (input, emitted)).foldl (Player.hear first) player = player := by
  induction more with
  | nil => rfl
  | cons emitted more ih =>
    obtain ⟨huntimed, hmore⟩ := List.forall_mem_cons.mp h
    rw [List.map_cons, List.foldl_cons]
    cases emitted with
    | segmentStart => cases huntimed
    | stream role packet => cases huntimed
    | pat packet | pmt packet | discontinuity role packet | null packet => exact ih hmore

/-- Logs keep what they have. -/
theorem exists_log_hear (first : UInt64) {player : Player} (write : Bytes × Emitted) {stamp : Stamp}
    (h : ∃ log ∈ player.logs, stamp ∈ log.stamps) :
    ∃ log ∈ (player.hear first write).logs, stamp ∈ log.stamps := by
  obtain ⟨log, hlog, hstamp⟩ := h
  rcases hear_cases first player write with hsame | ⟨-, hsame⟩ | ⟨role, packet, newest, logs, -, hlogs, hsame⟩
  · exact ⟨log, hsame.symm ▸ hlog, hstamp⟩
  · exact ⟨log, by simp [hsame, hlog], hstamp⟩
  · rw [hsame]
    rw [hlogs] at hlog
    rcases List.mem_cons.mp hlog with rfl | hlog
    · exact ⟨_, List.mem_cons_self .., List.mem_append_left _ hstamp⟩
    · exact ⟨log, List.mem_cons_of_mem _ hlog, hstamp⟩

theorem Followed.announces {first : UInt64} {heard : List (Bytes × Emitted)} {s t : Muxing}
    (h : Followed first heard s) (hannounces : Announces s t) (input : Bytes) :
    ∃ more, t.out = s.out ++ more ∧
      (heard ++ more.map fun emitted => (input, emitted)).foldl (Player.hear first) {} =
        heard.foldl (Player.hear first) {} ∧
      Followed first (heard ++ more.map fun emitted => (input, emitted)) t := by
  obtain ⟨more, hout, huntimed⟩ := hannounces.out
  have hsame : (heard ++ more.map fun emitted => (input, emitted)).foldl (Player.hear first) {} =
      heard.foldl (Player.hear first) {} := by
    rw [List.foldl_append, foldl_hear_untimed first _ input more huntimed]
  refine ⟨more, hout, hsame, ⟨?_, ?_, fun write hwrite role packet hstream => ?_⟩⟩
  · rw [hsame]
    exact h.clock.trans hannounces.clock
  · rw [hsame]
    exact h.kept
  · rw [hsame]
    rcases List.mem_append.mp hwrite with hwrite | hwrite
    · exact h.logged write hwrite role packet hstream
    · obtain ⟨emitted, hemitted, rfl⟩ := List.mem_map.mp hwrite
      have := huntimed emitted hemitted
      rw [show emitted = .stream role packet from hstream] at this
      cases this

theorem movedBy_stampsOf {offset : UInt64} {input output : Bytes} (h : Moved offset input output) :
    ∀ stamp ∈ stampsOf input output, stamp.input.map (rebase offset) = some stamp.output := by
  intro stamp hstamp
  obtain ⟨field, hfield, hfound⟩ := List.mem_filterMap.mp hstamp
  obtain ⟨value, hvalue, rfl⟩ := Option.map_eq_some_iff.mp hfound
  simp only [List.mem_cons, List.not_mem_nil, or_false] at hfield
  rcases hfield with rfl | rfl | rfl
  · exact h.pcr.symm.trans hvalue
  · exact h.pts.symm.trans hvalue
  · exact h.dts.symm.trans hvalue

/-- A packet of the running segment goes into its log. -/
theorem Followed.stream {first : UInt64} {heard : List (Bytes × Emitted)} {s t : Muxing}
    {segment : Segment} (h : Followed first heard s) (hlogs : Logs first heard segment)
    {input output : Bytes} {role : Role} (hmoved : Moved segment.offset input output)
    (hclock : SameClock (s.mux.tick role output) t.mux) :
    Followed first (heard ++ [(input, .stream role output)]) t ∧
      Logs first (heard ++ [(input, .stream role output)]) segment := by
  obtain ⟨log, logs, heq, hoffset⟩ := hlogs
  unfold Logs
  have hnew := hear_stream first heq input role output
  have hmovedBy : (log.hear ((heard.foldl (Player.hear first) {}).clock.tick role output) role input
      output).MovedBy segment.offset := by
    intro stamp hstamp
    rcases List.mem_append.mp hstamp with hstamp | hstamp
    · exact hoffset stamp hstamp
    · exact movedBy_stampsOf hmoved stamp hstamp
  have hkept := h.kept
  rw [heq] at hkept
  refine ⟨⟨?_, ?_, fun write hwrite => ?_⟩, ?_⟩
  · rw [List.foldl_append, List.foldl_cons, List.foldl_nil, hnew]
    exact (h.clock.tick role output).trans hclock
  · rw [List.foldl_append, List.foldl_cons, List.foldl_nil, hnew]
    exact List.forall_mem_cons.mpr ⟨⟨_, hmovedBy⟩, (List.forall_mem_cons.mp hkept).2⟩
  · rw [List.foldl_append, List.foldl_cons, List.foldl_nil]
    intro other packet hstream stamp hstamp
    rcases List.mem_append.mp hwrite with hwrite | hwrite
    · exact exists_log_hear first _ (h.logged write hwrite other packet hstream stamp hstamp)
    · rw [hnew]
      cases List.mem_singleton.mp hwrite
      cases hstream
      exact ⟨_, List.mem_cons_self .., List.mem_append_right _ hstamp⟩
  · rw [List.foldl_append, List.foldl_cons, List.foldl_nil, hnew]
    exact ⟨_, _, rfl, hmovedBy⟩

theorem Followed.packet {first : UInt64} {heard : List (Bytes × Emitted)} {s : Muxing}
    {segment : Segment} (h : Followed first heard s) (hlogs : Logs first heard segment)
    (packet : Bytes) : ∃ more, (s.runningPacket segment packet).1.out = s.out ++ more ∧
      Followed first (heard ++ more.map fun emitted => (packet, emitted))
        (s.runningPacket segment packet).1 ∧
      Logs first (heard ++ more.map fun emitted => (packet, emitted))
        (s.runningPacket segment packet).2 := by
  obtain ⟨hoffset, hcases⟩ := runningPacket_clock s segment packet
  have hsegment : ∀ heard, Logs first heard segment →
      Logs first heard (s.runningPacket segment packet).2 := by
    intro heard ⟨log, logs, heq, hmoved⟩
    exact ⟨log, logs, heq, hoffset ▸ hmoved⟩
  rcases hcases with hannounces | ⟨mid, role, output, hannounces, hout, hmoved, hclock⟩
  · obtain ⟨more, hmore, hsame, hfollowed⟩ := h.announces hannounces packet
    refine ⟨more, hmore, hfollowed, hsegment _ ?_⟩
    unfold Logs
    rw [hsame]
    exact hlogs
  · obtain ⟨more, hmore, hsame, hfollowed⟩ := h.announces hannounces packet
    have hlogs' : Logs first (heard ++ more.map fun emitted => (packet, emitted)) segment := by
      unfold Logs
      rw [hsame]
      exact hlogs
    obtain ⟨hdone, hlogged⟩ := hfollowed.stream hlogs' hmoved hclock
    refine ⟨more ++ [.stream role output], by rw [hout, hmore, List.append_assoc], ?_, ?_⟩
    · rw [List.map_append, ← List.append_assoc]
      exact hdone
    · rw [List.map_append, ← List.append_assoc]
      exact hsegment _ hlogged

/-- A new segment has an empty log. -/
theorem Followed.startSegment {first : UInt64} {heard : List (Bytes × Emitted)} {s : Muxing}
    (h : Followed first heard s) (segment : Segment) (input : Bytes) :
    ∃ more, (s.startSegment segment).1.out = s.out ++ .segmentStart :: more ∧
      Followed first (heard ++ (.segmentStart :: more).map fun emitted => (input, emitted))
        (s.startSegment segment).1 ∧
      ∀ running, Logs first (heard ++ (.segmentStart :: more).map fun emitted => (input, emitted))
        running := by
  have hmarked : Followed first (heard ++ [(input, .segmentStart)])
      ⟨{ s.mux with splices := s.mux.splices + 1 }, s.out ++ [.segmentStart]⟩ := by
    refine ⟨?_, ?_, fun write hwrite role packet hstream stamp hstamp => ?_⟩
    · rw [List.foldl_append, List.foldl_cons, List.foldl_nil, hear_segmentStart]
      exact h.clock.trans ⟨rfl, rfl, rfl, rfl⟩
    · rw [List.foldl_append, List.foldl_cons, List.foldl_nil, hear_segmentStart]
      exact List.forall_mem_cons.mpr ⟨⟨0, by simp [SegmentLog.MovedBy]⟩, h.kept⟩
    · rw [List.foldl_append, List.foldl_cons, List.foldl_nil]
      rcases List.mem_append.mp hwrite with hwrite | hwrite
      · exact exists_log_hear first _ (h.logged write hwrite role packet hstream stamp hstamp)
      · cases List.mem_singleton.mp hwrite
        cases hstream
  have hannounces : Announces ⟨{ s.mux with splices := s.mux.splices + 1 }, s.out ++ [.segmentStart]⟩
      (s.startSegment segment).1 :=
    (((Announces.adoptMap _ segment.map).trans (Announces.writePat _)).trans
      (Announces.writePmt _)).trans (Announces.writeDiscontinuities _ _)
  obtain ⟨more, hmore, hsame, hfollowed⟩ := hmarked.announces hannounces input
  refine ⟨more, by rw [hmore, List.append_assoc]; rfl, ?_, fun running => ?_⟩
  · simpa using hfollowed
  · rw [List.append_assoc] at hsame
    unfold Logs
    rw [List.map_cons, show ((input, Emitted.segmentStart) :: more.map fun emitted => (input, emitted))
      = [(input, .segmentStart)] ++ more.map fun emitted => (input, emitted) from rfl, hsame,
      List.foldl_append, List.foldl_cons, List.foldl_nil, hear_segmentStart]
    exact ⟨_, _, rfl, by simp [SegmentLog.MovedBy]⟩

theorem writes_snoc (journal : List Handled) (packet : Bytes) (written : List Emitted) :
    writes (journal ++ [⟨packet, written⟩]) =
      writes journal ++ written.map fun emitted => (packet, emitted) := by
  simp [writes]

/-- In every traced run the player follows the muxer. -/
theorem followed_invariant (first : UInt64) :
    TraceInvariant (fun s journal => Followed first (writes journal) s)
      (fun _ segment journal => Logs first (writes journal) segment) (fun _ => True) where
  start := ⟨⟨rfl, rfl, rfl, rfl⟩, by simp [writes], by simp [writes]⟩
  waits := trivial
  seek _ _ _ _ := trivial
  calmSegments _ _ _ _ h := ⟨h.clock.trans ⟨rfl, rfl, rfl, rfl⟩, h.kept, h.logged⟩
  runsSegments _ _ _ _ _ h := h
  packet s segment journal packet more _ hfollowed hlogs hout _ := by
    obtain ⟨written, hwritten, hdone⟩ := hfollowed.packet hlogs packet
    obtain rfl : written = more := List.append_cancel_left (hwritten.symm.trans hout)
    rw [writes_snoc]
    exact hdone
  opens s segment journal packet more _ hfollowed hfresh _ hfound hout := by
    have hstep : s.pendingPacket segment packet =
        (s.startSegment (s.mux.seek segment packet).1).1.runningPacket
          (s.startSegment (s.mux.seek segment packet).1).2 packet := by
      simp [pendingPacket, hfresh.1, hfound]
    obtain ⟨opening, hopening, hbegun, hlogs⟩ :=
      hfollowed.startSegment (s.mux.seek segment packet).1 packet
    obtain ⟨written, hwritten, hdone⟩ := hbegun.packet (hlogs _) packet
    rw [hstep] at hout ⊢
    have hmore : .segmentStart :: more = .segmentStart :: opening ++ written :=
      List.append_cancel_left (hout.symm.trans (by rw [hwritten, hopening, List.append_assoc]))
    rw [writes_snoc, hmore, List.map_append, ← List.append_assoc]
    exact hdone

/-- Two timestamps that were moved together keep their distance. -/
theorem ticksTo_rebase_rebase (offset a b : UInt64) :
    ticksTo (rebase offset a) (rebase offset b) = ticksTo a b := by
  have ha := a.toNat_lt
  have hb := b.toNat_lt
  have ho := offset.toNat_lt
  have hdvd : 2 ^ 33 ∣ 2 ^ 64 := by decide
  simp only [ticksTo, rebase, toNat_mask, UInt64.toNat_sub, UInt64.toNat_add,
    Nat.mod_mod_of_dvd _ hdvd]
  omega

/-- The whole timeline of a run. -/
structure Timeline (first : UInt64) (t : TracedMuxing) : Prop where
  /-- The player has the clock of the muxer, with the estimated steps. -/
  clock : SameClock (play first t.journal).clock t.muxing.mux
  /-- Every timestamp of the output is in a log. -/
  logged : ∀ entry ∈ t.journal, ∀ role packet, .stream role packet ∈ entry.written →
    ∀ stamp ∈ stampsOf entry.input packet,
      ∃ log ∈ (play first t.journal).logs, stamp ∈ log.stamps
  /-- Inside a segment distances are those of the input. -/
  kept : ∀ log ∈ (play first t.journal).logs, ∀ a ∈ log.stamps, ∀ b ∈ log.stamps,
    ∃ inputA inputB, a.input = some inputA ∧ b.input = some inputB ∧
      ticksTo a.output b.output = ticksTo inputA inputB
  continues : TimelineContinues (play first t.journal).logs

/-- The timestamps of every run with short segments. -/
theorem timeline_continues {t : TracedMuxing} (h : tracedMachine.Reachable t) {first : UInt64}
    (hfirst : IsReading first) (hregular : Regular segmentSpan (play first t.journal).logs) :
    Timeline first t := by
  have hfollowed := ((followed_invariant first).settled_of_reachable h).calm
  refine ⟨hfollowed.clock, fun entry hentry role packet hpacket stamp hstamp => ?_,
    fun log hlog a ha b hb => ?_, (spliced_play hfirst (writes t.journal) hregular).timeline hregular⟩
  · refine hfollowed.logged (entry.input, .stream role packet) ?_ role packet rfl stamp hstamp
    exact List.mem_flatMap.mpr ⟨entry, hentry, List.mem_map.mpr ⟨_, hpacket, rfl⟩⟩
  · obtain ⟨offset, hmoved⟩ := hfollowed.kept log hlog
    obtain ⟨inputA, hinputA, hoffsetA⟩ := Option.map_eq_some_iff.mp (hmoved a ha)
    obtain ⟨inputB, hinputB, hoffsetB⟩ := Option.map_eq_some_iff.mp (hmoved b hb)
    refine ⟨inputA, inputB, hinputA, hinputB, ?_⟩
    rw [← hoffsetA, ← hoffsetB, ticksTo_rebase_rebase]

instance (log : SegmentLog) : Decidable log.Complete := inferInstanceAs (Decidable (_ ∧ _))

instance (span : Nat) (logs : List SegmentLog) : Decidable (Within span logs) :=
  inferInstanceAs (Decidable (∀ log ∈ logs, ∀ stamp ∈ log.stamps, _))

instance (span : Nat) (logs : List SegmentLog) : Decidable (Regular span logs) :=
  decidable_of_iff (Within span logs ∧ ∀ log ∈ logs.tail, log.Complete)
    ⟨fun h => ⟨h.1, h.2⟩, fun h => ⟨h.within, h.complete⟩⟩

instance (a b : UInt64) : Decidable (IsLater a b) := inferInstanceAs (Decidable (_ ∧ _))

/-- The second segment begins one step behind the first one. -/
theorem timeline_continues_two_segments :
    ∃ t, tracedMachine.Reachable t ∧ Timeline 0 t ∧ Regular segmentSpan (play 0 t.journal).logs ∧
      (play 0 t.journal).logs.map SegmentLog.reference = [3003, 0] := by
  obtain ⟨t, ht, hp⟩ := tracedMachine.exists_reachable_of_run spliceTwice
    (fun t => decide (Regular segmentSpan (play 0 t.journal).logs ∧
      (play 0 t.journal).logs.map SegmentLog.reference = [3003, 0]))
    (by decide +kernel)
  obtain ⟨hregular, hreferences⟩ := of_decide_eq_true hp
  exact ⟨t, ht, timeline_continues ht (by unfold IsReading; decide) hregular, hregular, hreferences⟩

/-- A video packet with the PCR `2 ^ 31 - 1`. -/
def farPcrPacket : Bytes :=
  [0x47, 0x01, 0x00, 0x20, 0xb7, 0x10, 0x3f, 0xff, 0xff, 0xff, 0x80] ++ List.replicate 177 0xff

/-- A first segment that ends far behind its only PES, and a second one with a PES that far behind
its reference. -/
def spliceFar : List MuxOp :=
  [.beginPending, .pushPending (samplePat ++ samplePmt ++ sampleKeyframe ++ farPcrPacket),
    .beginPending, .pushPending (samplePat ++ samplePmt ++
      writeTimestamp sampleKeyframe 21 (2 ^ 31 - 1))]

/-- Segments of up to `2 ^ 31` ticks can be more than half a round apart. -/
theorem long_segments_out_of_order :
    ∃ t, tracedMachine.Reachable t ∧ ∃ b ∈ (play 0 t.journal).logs, ∃ a ∈ (play 0 t.journal).logs,
      (play 0 t.journal).logs = [b, a] ∧ Within (2 ^ 31) [b, a] ∧ b.Complete ∧ a.Complete ∧
      ∃ stamp ∈ b.stamps, ∃ value ∈ a.ends, ¬ IsLater value stamp.output := by
  obtain ⟨t, ht, hp⟩ := tracedMachine.exists_reachable_of_run spliceFar
    (fun t => decide (∃ b ∈ (play 0 t.journal).logs, ∃ a ∈ (play 0 t.journal).logs,
      (play 0 t.journal).logs = [b, a] ∧ Within (2 ^ 31) [b, a] ∧ b.Complete ∧ a.Complete ∧
      ∃ stamp ∈ b.stamps, ∃ value ∈ a.ends, ¬ IsLater value stamp.output))
    (by decide +kernel)
  exact ⟨t, ht, of_decide_eq_true hp⟩

end IptvRelay.Slate
