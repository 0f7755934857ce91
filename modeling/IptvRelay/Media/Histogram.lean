import IptvRelay.Media.FrameRate
import Mathlib.Algebra.BigOperators.Intervals

/-!
# The bitrate histogram

Model of `RateMeter::rates`, and what the queue of seconds holds: the packets
between consecutive clock marks, counted by the media second of the later mark,
for the newest media seconds. Read from its back the queue is a function of the
marks alone.
-/

namespace IptvRelay.Media.Meter

def peakWindowSeconds : Nat := 5
def minCompleteSeconds : Nat := 8

structure StreamRates where
  averageBitsPerSecond : Nat
  peakBitsPerSecond : Nat
  burst : Duration
  frameRateMillihertz : Option Nat
  measured : Duration
  deriving DecidableEq, Repr

/-- `u64::saturating_mul`. -/
def satMul64 (a b : Nat) : Nat := min (a * b) (2 ^ 64 - 1)

def bitsPerPacket : Nat := mpegTsPacketSize * 8

/-- The consecutive sublists of one length. -/
def windows {α : Type} (size : Nat) (xs : List α) : List (List α) :=
  (List.range (xs.length + 1 - size)).map fun i => (xs.drop i).take size

/-- The sum of `u64` values as the release build computes it. -/
def sum64 (xs : List Nat) : Nat := xs.sum % 2 ^ 64

/-- Milliseconds as a duration. -/
def fromMillis (millis : Nat) : Duration := millis * 1000000

namespace RateMeter

/-- The seconds of the queue without the first and the last, which are partial. -/
def complete (self : RateMeter) : List Nat := (self.seconds.drop 1).take (self.seconds.length - 2)

def rates (self : RateMeter) : Option StreamRates :=
  let complete := self.complete
  if complete.length < minCompleteSeconds then none
  else
    let count := complete.length
    let average := satMul64 (sum64 complete) bitsPerPacket / count
    let means := (windows (min peakWindowSeconds count) complete).map fun window =>
      satMul64 (sum64 window) bitsPerPacket / window.length
    let peak := max (means.max?.getD average) average
    let swing := clampI64 (self.maxOffsetMillis - self.minOffsetMillis)
    some
      { averageBitsPerSecond := average
        peakBitsPerSecond := peak
        burst := fromMillis swing.toNat
        frameRateMillihertz := self.frameRateMillihertz
        measured := fromMillis (self.measuredTicks / (Pacing.pcrTicksPerSecond / 1000)) }

end RateMeter

/-! ## Clock marks -/

def MeterCall.mark : MeterCall → Option ClockMark
  | .observeClock ticks sequence _ => some { ticks, sequence }
  | _ => none

/-- The clock marks of the calls, in order. -/
def clockMarks (calls : List MeterCall) : List ClockMark := calls.filterMap MeterCall.mark

/-- The sequences increase and the ticks do not decrease. -/
def InOrder (marks : List ClockMark) : Prop :=
  marks.Pairwise fun a b => a.sequence < b.sequence ∧ a.ticks ≤ b.ticks

def mediaSecond (mark : ClockMark) : Nat := mark.ticks / Pacing.pcrTicksPerSecond

/-- The packets between consecutive marks whose later mark falls in media second `second`. -/
def packetsIn (second : Nat) : List ClockMark → Nat
  | first :: next :: rest =>
    (if mediaSecond next = second then next.sequence - first.sequence else 0) +
      packetsIn second (next :: rest)
  | _ => 0

theorem packetsIn_snoc (second : Nat) (marks : List ClockMark) (last mark : ClockMark) :
    packetsIn second (marks ++ [last, mark]) = packetsIn second (marks ++ [last]) +
      if mediaSecond mark = second then mark.sequence - last.sequence else 0 := by
  induction marks with
  | nil => simp [packetsIn]
  | cons first rest ih =>
    cases rest with
    | nil => simp [packetsIn]
    | cons next rest =>
      simp only [List.cons_append, packetsIn] at ih ⊢
      rw [ih, Nat.add_assoc]

/-- No packets are counted for a second behind all marks. -/
theorem packetsIn_eq_zero {second : Nat} {marks : List ClockMark}
    (h : ∀ mark ∈ marks, mediaSecond mark < second) : packetsIn second marks = 0 := by
  induction marks with
  | nil => rfl
  | cons first rest ih =>
    cases rest with
    | nil => rfl
    | cons next rest =>
      have hnext : mediaSecond next < second := h next (by simp)
      rw [packetsIn, if_neg hnext.ne, Nat.zero_add]
      exact ih fun mark hmark => h mark (List.mem_cons_of_mem _ hmark)

/-- Among different seconds at most one is the given second. -/
theorem sum_ite_le {seconds : List Nat} (h : seconds.Nodup) (second packets : Nat) :
    (seconds.map fun other => if second = other then packets else 0).sum ≤ packets := by
  induction seconds with
  | nil => simp
  | cons other rest ih =>
    obtain ⟨hother, hrest⟩ := List.nodup_cons.mp h
    rw [List.map_cons, List.sum_cons]
    by_cases heq : second = other
    · subst heq
      have hnone : (rest.map fun other => if second = other then packets else 0).sum = 0 :=
        List.sum_eq_zero fun n hn => by
          obtain ⟨x, hx, rfl⟩ := List.mem_map.mp hn
          exact if_neg fun hsame : second = x => hother (hsame ▸ hx)
      rw [if_pos rfl, hnone, Nat.add_zero]
    · rw [if_neg heq, Nat.zero_add]
      exact ih hrest

/-- Different seconds count different packets. -/
theorem sum_packetsIn_le (bound : Nat) {seconds : List Nat} (hseconds : seconds.Nodup)
    {first : ClockMark} {rest : List ClockMark} (h : InOrder (first :: rest))
    (hbound : ∀ mark ∈ first :: rest, mark.sequence ≤ bound) :
    (seconds.map fun second => packetsIn second (first :: rest)).sum + first.sequence ≤ bound := by
  induction rest generalizing first with
  | nil => simpa [packetsIn] using hbound
  | cons next rest ih =>
    obtain ⟨hfirst, hrest⟩ := List.pairwise_cons.mp h
    have hlt := (hfirst next (by simp)).1
    have hone := sum_ite_le hseconds (mediaSecond next) (next.sequence - first.sequence)
    have hlater := ih hrest fun mark hmark => hbound mark (List.mem_cons_of_mem _ hmark)
    simp only [packetsIn, List.sum_map_add]
    omega

/-! ## The queue read from its back -/

theorem countPackets_reverse {meter : RateMeter} (hne : meter.seconds ≠ [])
    (packets second : Nat) :
    (meter.countPackets packets second).reverse =
      ((List.replicate (min (second - meter.currentSecond) windowSeconds) 0 ++
        meter.seconds.reverse).modifyHead fun current => satAdd64 current packets).take
          windowSeconds := by
  unfold RateMeter.countPackets
  dsimp only
  generalize hopened : meter.seconds ++
    List.replicate (min (second - meter.currentSecond) windowSeconds) 0 = opened
  have hback : List.replicate (min (second - meter.currentSecond) windowSeconds) 0 ++
      meter.seconds.reverse = opened.reverse := by
    rw [← hopened, List.reverse_append, List.reverse_replicate]
  rw [hback]
  have hopen : opened ≠ [] := by
    rw [← hopened]
    exact List.append_ne_nil_of_left_ne_nil hne _
  obtain ⟨front, current, rfl⟩ : ∃ front current, opened = front ++ [current] :=
    ⟨_, _, (List.dropLast_append_getLast hopen).symm⟩
  rw [List.reverse_drop]
  simp
  omega

/-- What the meter holds after clock marks that begin with `first` and end with `last`. -/
structure Counts (meter : RateMeter) (marks : List ClockMark) (first last : ClockMark) : Prop where
  ends : ∃ front, marks = front ++ [last]
  within : ∀ mark ∈ marks,
    mediaSecond first ≤ mediaSecond mark ∧ mediaSecond mark ≤ mediaSecond last
  newest : meter.last = some last
  current : meter.currentSecond = mediaSecond last
  length : meter.seconds.length =
    min windowSeconds (mediaSecond last - mediaSecond first + 1)
  entry : ∀ k < meter.seconds.length,
    meter.seconds.reverse[k]? = some (packetsIn (meter.currentSecond - k) marks)

/-- The first mark opens its second. -/
theorem counts_first {meter : RateMeter} (hlast : meter.last = none) (hempty : meter.seconds = [])
    (mark : ClockMark) (now : Instant) :
    Counts (meter.observeClock mark.ticks mark.sequence now) [mark] mark mark := by
  have hone : (meter.observeClock mark.ticks mark.sequence now).seconds = [0] := by
    rw [RateMeter.observeClock, hlast, hempty]
    rfl
  refine ⟨⟨[], rfl⟩, by simp, ?_, ?_, ?_, ?_⟩
  · rw [RateMeter.observeClock, hlast]
  · rw [RateMeter.observeClock, hlast]
    rfl
  · rw [hone, Nat.sub_self]
    rfl
  · intro k hk
    rw [hone] at hk ⊢
    rw [List.length_singleton, Nat.lt_one_iff] at hk
    rw [hk]
    rfl

/-- With the seconds up to that of a later mark opened: these have no packets yet. -/
theorem Counts.opened {meter : RateMeter} {marks : List ClockMark} {first last : ClockMark}
    (h : Counts meter marks first last) {second : Nat} (hlater : mediaSecond last ≤ second)
    {k : Nat} (hk : k < windowSeconds) (hopen : k ≤ second - mediaSecond first) :
    (List.replicate (min (second - meter.currentSecond) windowSeconds) 0 ++
      meter.seconds.reverse)[k]? = some (packetsIn (second - k) marks) := by
  have hlength := h.length
  obtain ⟨front, hends⟩ := h.ends
  have hfirst := (h.within last (by simp [hends])).1
  rw [h.current]
  by_cases hnew : k < min (second - mediaSecond last) windowSeconds
  · rw [List.getElem?_append_left (by rwa [List.length_replicate]),
      List.getElem?_replicate_of_lt hnew,
      packetsIn_eq_zero fun mark hmark => by have := h.within mark hmark; omega]
  · rw [List.getElem?_append_right (by rw [List.length_replicate]; omega), List.length_replicate,
      h.entry _ (by omega), h.current]
    congr 2
    omega

theorem observeClock_later {meter : RateMeter} {last : ClockMark} (hlast : meter.last = some last)
    {mark : ClockMark} (hsequence : last.sequence < mark.sequence) (now : Instant) :
    (meter.observeClock mark.ticks mark.sequence now).last = some mark ∧
      (meter.observeClock mark.ticks mark.sequence now).currentSecond =
        max meter.currentSecond (mediaSecond mark) ∧
      (meter.observeClock mark.ticks mark.sequence now).seconds =
        meter.countPackets (mark.sequence - last.sequence) (mediaSecond mark) := by
  unfold RateMeter.observeClock
  rw [hlast]
  simp only [if_neg (Nat.not_le.mpr hsequence), mediaSecond, and_self]

/-- A later mark counts its packets in its second. -/
theorem Counts.observe {meter : RateMeter} {marks : List ClockMark} {first last mark : ClockMark}
    (h : Counts meter marks first last) (hsequence : last.sequence < mark.sequence)
    (hticks : last.ticks ≤ mark.ticks) (now : Instant)
    (hbound : packetsIn (mediaSecond mark) (marks ++ [mark]) < 2 ^ 64) :
    Counts (meter.observeClock mark.ticks mark.sequence now) (marks ++ [mark]) first mark := by
  have hlater : mediaSecond last ≤ mediaSecond mark := Nat.div_le_div_right hticks
  obtain ⟨front, hends⟩ := h.ends
  have hfirst := (h.within last (by simp [hends])).1
  have hlength := h.length
  have hwindow : windowSeconds = 120 := rfl
  have hne : meter.seconds ≠ [] := by
    intro hnil
    rw [hnil, List.length_nil] at hlength
    omega
  obtain ⟨hnewest, hcurrent, hseconds⟩ := observeClock_later h.newest hsequence now
  have hsecond : max meter.currentSecond (mediaSecond mark) = mediaSecond mark := by
    rw [h.current]
    exact Nat.max_eq_right hlater
  have hadd : ∀ second, packetsIn second (marks ++ [mark]) = packetsIn second marks +
      if mediaSecond mark = second then mark.sequence - last.sequence else 0 := by
    intro second
    rw [hends, List.append_assoc]
    exact packetsIn_snoc second front last mark
  have hback := countPackets_reverse hne (mark.sequence - last.sequence) (mediaSecond mark)
  have hcount : (meter.countPackets (mark.sequence - last.sequence) (mediaSecond mark)).length =
      min windowSeconds (mediaSecond mark - mediaSecond first + 1) := by
    rw [← List.length_reverse, hback, List.length_take, List.length_modifyHead,
      List.length_append, List.length_replicate, List.length_reverse, h.current]
    omega
  refine ⟨⟨marks, rfl⟩, ?_, hnewest, hcurrent.trans hsecond, hseconds ▸ hcount, ?_⟩
  · intro other hother
    rcases List.mem_append.mp hother with hold | hnew
    · have := h.within other hold
      omega
    · rw [List.mem_singleton.mp hnew]
      omega
  · intro k hk
    rw [hseconds, hcount] at hk
    have hopened := h.opened hlater (k := k) (by omega) (by omega)
    rw [hseconds, hcurrent, hsecond, hadd, hback, List.getElem?_take_of_lt (by omega),
      List.getElem?_modifyHead, hopened]
    by_cases hzero : k = 0
    · rw [hadd, if_pos rfl] at hbound
      rw [hzero, Nat.sub_zero, if_pos rfl, if_pos rfl, Option.map_some, satAdd64,
        Nat.min_eq_left (by omega)]
    · rw [if_neg hzero, if_neg (by omega), Nat.add_zero]

/-! ## Whole runs -/

/-- Calls without a clock mark leave the histogram alone. -/
theorem apply_unmarked {call : MeterCall} (h : call.mark = none) (meter : RateMeter) :
    (meter.apply call).last = meter.last ∧
      (meter.apply call).currentSecond = meter.currentSecond ∧
      (meter.apply call).seconds = meter.seconds := by
  cases call with
  | observeClock ticks sequence now => cases h
  | setVideoPid pid =>
    simp only [RateMeter.apply, RateMeter.setVideoPid]
    split <;> exact ⟨rfl, rfl, rfl⟩
  | observeVideo packet =>
    simp only [RateMeter.apply, RateMeter.observeVideo]
    split <;> exact ⟨rfl, rfl, rfl⟩

theorem packetsIn_lt {marks : List ClockMark} (horder : InOrder marks)
    (hbound : ∀ mark ∈ marks, mark.sequence < 2 ^ 64) (second : Nat) :
    packetsIn second marks < 2 ^ 64 := by
  cases marks with
  | nil => exact Nat.two_pow_pos 64
  | cons first rest =>
    have hsum := sum_packetsIn_le (2 ^ 64 - 1) (List.nodup_singleton second) horder
      fun mark hmark => Nat.le_sub_one_of_lt (hbound mark hmark)
    rw [List.map_singleton, List.sum_singleton] at hsum
    omega

/-- The histogram of a run: nothing before the first clock mark, then the counts of all marks. -/
theorem run_counts (calls : List MeterCall) (horder : InOrder (clockMarks calls))
    (hbound : ∀ mark ∈ clockMarks calls, mark.sequence < 2 ^ 64) :
    (clockMarks calls = [] ∧ (RateMeter.run calls).last = none ∧
        (RateMeter.run calls).seconds = []) ∨
      ∃ first last, (clockMarks calls).head? = some first ∧
        Counts (RateMeter.run calls) (clockMarks calls) first last := by
  induction calls using List.reverseRecOn with
  | nil => exact .inl ⟨rfl, rfl, rfl⟩
  | append_singleton calls call ih =>
    have hrun : RateMeter.run (calls ++ [call]) = (RateMeter.run calls).apply call := by
      rw [RateMeter.run, List.foldl_append]
      rfl
    have hmarks : clockMarks (calls ++ [call]) = clockMarks calls ++ call.mark.toList := by
      rw [clockMarks, List.filterMap_append]
      cases hmark : call.mark <;> simp [clockMarks, hmark]
    rw [hmarks] at horder hbound ⊢
    rw [hrun]
    have hbefore := ih (List.pairwise_append.mp horder).1
      fun mark hmark => hbound mark (List.mem_append_left _ hmark)
    cases hmark : call.mark with
    | none =>
      obtain ⟨hlast, hcurrent, hseconds⟩ := apply_unmarked hmark (RateMeter.run calls)
      rw [Option.toList_none, List.append_nil, hlast, hseconds]
      rcases hbefore with hnone | ⟨first, last, hfirst, hcounts⟩
      · exact .inl hnone
      · refine .inr ⟨first, last, hfirst, hcounts.ends, hcounts.within, ?_, ?_, ?_, ?_⟩
        · rw [hlast, hcounts.newest]
        · rw [hcurrent, hcounts.current]
        · rw [hseconds, hcounts.length]
        · rw [hseconds, hcurrent]
          exact hcounts.entry
    | some mark =>
      obtain ⟨now, rfl⟩ : ∃ now, call = .observeClock mark.ticks mark.sequence now := by
        cases call with
        | observeClock ticks sequence now =>
          cases hmark
          exact ⟨now, rfl⟩
        | setVideoPid pid => cases hmark
        | observeVideo packet => cases hmark
      rw [hmark, Option.toList_some] at horder hbound
      rw [Option.toList_some]
      right
      rcases hbefore with ⟨hnil, hlast, hseconds⟩ | ⟨first, last, hfirst, hcounts⟩
      · rw [hnil, List.nil_append]
        exact ⟨mark, mark, rfl, counts_first hlast hseconds mark now⟩
      · obtain ⟨front, hends⟩ := hcounts.ends
        have hlater := (List.pairwise_append.mp horder).2.2 last (by simp [hends]) mark (by simp)
        exact ⟨first, mark, by rw [List.head?_append, hfirst]; rfl,
          hcounts.observe hlater.1 hlater.2 now (packetsIn_lt horder hbound _)⟩

/-! ## The rates -/

/-- The packets of the `size` media seconds that end `k` seconds before the current one. -/
def packetsBack (current : Nat) (marks : List ClockMark) (k size : Nat) : Nat :=
  ∑ j ∈ Finset.range size, packetsIn (current - (k + j)) marks

/-- The complete seconds of the queue, oldest first. -/
theorem complete_eq {meter : RateMeter} {marks : List ClockMark}
    (hentry : ∀ k < meter.seconds.length,
      meter.seconds.reverse[k]? = some (packetsIn (meter.currentSecond - k) marks)) :
    meter.complete = (List.range (meter.seconds.length - 2)).map fun i =>
      packetsIn (meter.currentSecond - (meter.seconds.length - 2 - i)) marks := by
  apply List.ext_getElem?
  intro i
  rw [RateMeter.complete, List.getElem?_take, List.getElem?_drop, List.getElem?_map]
  split
  · rename_i hi
    have hback := hentry (meter.seconds.length - 2 - i) (by omega)
    rw [List.getElem?_reverse (by omega)] at hback
    rw [List.getElem?_range hi, Option.map_some, ← hback]
    congr 1
    omega
  · rename_i hi
    rw [List.getElem?_eq_none (by simpa using hi)]
    rfl

/-- A slice of the complete seconds sums up the seconds that it stands for. -/
theorem slice_sum {f : Nat → Nat} {count i size : Nat} (h : i + size ≤ count) :
    ((((List.range count).map fun i => f (count - i)).drop i).take size).sum =
      ∑ j ∈ Finset.range size, f (count + 1 - size - i + j) := by
  have hslice : (((List.range count).map fun i => f (count - i)).drop i).take size =
      (List.range size).map fun j => f (count - (i + j)) := by
    apply List.ext_getElem?
    intro j
    rw [List.getElem?_take, List.getElem?_drop, List.getElem?_map, List.getElem?_map]
    split
    · rename_i hj
      rw [List.getElem?_range hj, List.getElem?_range (by omega)]
      rfl
    · rename_i hj
      rw [List.getElem?_eq_none (by simpa using hj)]
      rfl
  rw [hslice]
  calc ((List.range size).map fun j => f (count - (i + j))).sum
      = ∑ j ∈ Finset.range size, f (count - (i + j)) := rfl
    _ = ∑ j ∈ Finset.range size, f (count + 1 - size - i + (size - 1 - j)) :=
        Finset.sum_congr rfl fun j hj => by
          have := Finset.mem_range.mp hj
          congr 1
          omega
    _ = _ := Finset.sum_range_reflect (fun j => f (count + 1 - size - i + j)) size

/-- Seconds that do not reach behind the beginning of media time count different packets. -/
theorem packetsBack_lt {marks : List ClockMark} (horder : InOrder marks)
    (hbound : ∀ mark ∈ marks, mark.sequence < 2 ^ 64) (current k size : Nat)
    (h : k + size ≤ current + 1) : packetsBack current marks k size < 2 ^ 64 := by
  cases marks with
  | nil => simp [packetsBack, packetsIn]
  | cons first rest =>
    have hnodup : ((List.range size).map fun j => current - (k + j)).Nodup := by
      refine List.Nodup.map_on (fun a ha b hb hab => ?_) List.nodup_range
      have := List.mem_range.mp ha
      have := List.mem_range.mp hb
      omega
    have hsum := sum_packetsIn_le (2 ^ 64 - 1) hnodup horder
      fun mark hmark => Nat.le_sub_one_of_lt (hbound mark hmark)
    rw [List.map_map] at hsum
    have hback : packetsBack current (first :: rest) k size =
        ((List.range size).map ((fun second => packetsIn second (first :: rest)) ∘
          fun j => current - (k + j))).sum := rfl
    omega

/-- The queue is the histogram of the newest media seconds. -/
structure ExactQueue (meter : RateMeter) (marks : List ClockMark) : Prop where
  unmarked : marks = [] → meter.seconds = []
  newest : ∀ last, marks.getLast? = some last → meter.currentSecond = mediaSecond last
  length : ∀ first last, marks.head? = some first → marks.getLast? = some last →
    meter.seconds.length = min windowSeconds (mediaSecond last - mediaSecond first + 1)
  entry : ∀ k < meter.seconds.length,
    meter.seconds.reverse[k]? = some (packetsIn (meter.currentSecond - k) marks)

/-- The average accounts for the packets of the complete seconds and the peak for every window of
five of them, in whole bits and up to the largest `u64`. -/
structure ExactRates (meter : RateMeter) (marks : List ClockMark) (rates : StreamRates) : Prop where
  enough : minCompleteSeconds ≤ meter.seconds.length - 2
  average :
    rates.averageBitsPerSecond * (meter.seconds.length - 2) ≤
        satMul64 (packetsBack meter.currentSecond marks 1 (meter.seconds.length - 2))
          bitsPerPacket ∧
      satMul64 (packetsBack meter.currentSecond marks 1 (meter.seconds.length - 2))
          bitsPerPacket <
        rates.averageBitsPerSecond * (meter.seconds.length - 2) + (meter.seconds.length - 2)
  peak : ∀ k, 1 ≤ k → k + 4 ≤ meter.seconds.length - 2 →
    satMul64 (packetsBack meter.currentSecond marks k 5) bitsPerPacket / 5 ≤
      rates.peakBitsPerSecond

theorem sum64_slice {meter : RateMeter} {marks : List ClockMark}
    (h : ExactQueue meter marks) (horder : InOrder marks)
    (hbound : ∀ mark ∈ marks, mark.sequence < 2 ^ 64)
    (hlength : meter.seconds.length ≤ meter.currentSecond + 1) (i size : Nat)
    (hi : i + size ≤ meter.seconds.length - 2) :
    sum64 ((meter.complete.drop i).take size) = packetsBack meter.currentSecond marks
      (meter.seconds.length - 2 + 1 - size - i) size := by
  have hsum := slice_sum (f := fun k => packetsIn (meter.currentSecond - k) marks) hi
  have hlt := packetsBack_lt horder hbound meter.currentSecond
    (meter.seconds.length - 2 + 1 - size - i) size (by omega)
  rw [sum64, complete_eq h.entry, hsum]
  exact Nat.mod_eq_of_lt hlt

theorem rates_exact {meter : RateMeter} {marks : List ClockMark} (h : ExactQueue meter marks)
    (horder : InOrder marks) (hbound : ∀ mark ∈ marks, mark.sequence < 2 ^ 64)
    (hlength : meter.seconds.length ≤ meter.currentSecond + 1) {rates : StreamRates}
    (hrates : meter.rates = some rates) : ExactRates meter marks rates := by
  have hcount : meter.complete.length = meter.seconds.length - 2 := by
    rw [complete_eq h.entry, List.length_map, List.length_range]
  unfold RateMeter.rates at hrates
  dsimp only at hrates
  rw [hcount] at hrates
  split at hrates
  · cases hrates
  · rename_i henough
    have hmin : minCompleteSeconds = 8 := rfl
    have htotal := sum64_slice h horder hbound hlength 0
      (meter.seconds.length - 2) (by omega)
    rw [List.drop_zero, List.take_of_length_le hcount.le] at htotal
    have hfrom : meter.seconds.length - 2 + 1 - (meter.seconds.length - 2) - 0 = 1 := by omega
    rw [hfrom] at htotal
    rw [htotal] at hrates
    cases hrates
    refine ⟨Nat.not_lt.mp henough, ⟨Nat.div_mul_le_self _ _, ?_⟩, fun k hk hwindow => ?_⟩
    · exact Nat.lt_div_mul_add (by omega)
    · refine le_max_of_le_left (List.le_max?_getD_of_mem ?_)
      have hsize : min peakWindowSeconds (meter.seconds.length - 2) = 5 :=
        Nat.min_eq_left (by unfold peakWindowSeconds; omega)
      have hsum := sum64_slice h horder hbound hlength
        (meter.seconds.length - 2 - 4 - k) 5 (by omega)
      have hback : meter.seconds.length - 2 + 1 - 5 - (meter.seconds.length - 2 - 4 - k) = k := by
        omega
      have hwide :
          ((meter.complete.drop (meter.seconds.length - 2 - 4 - k)).take 5).length = 5 := by
        rw [List.length_take, List.length_drop, hcount]
        omega
      rw [hback] at hsum
      rw [hsize, List.mem_map]
      refine ⟨_, List.mem_map.mpr ⟨meter.seconds.length - 2 - 4 - k, ?_, rfl⟩, ?_⟩
      · rw [List.mem_range, hcount]
        omega
      · rw [hsum, hwide]

/-- For every run whose clock marks have increasing 64-bit sequences and non-decreasing ticks, the
queue is the histogram of the newest media seconds, and the rates account for it. -/
theorem histogram_exact (calls : List MeterCall) (horder : InOrder (clockMarks calls))
    (hbound : ∀ mark ∈ clockMarks calls, mark.sequence < 2 ^ 64) :
    ExactQueue (RateMeter.run calls) (clockMarks calls) ∧
      ∀ rates, (RateMeter.run calls).rates = some rates →
        ExactRates (RateMeter.run calls) (clockMarks calls) rates := by
  have hqueue : ExactQueue (RateMeter.run calls) (clockMarks calls) ∧
      (RateMeter.run calls).seconds.length ≤ (RateMeter.run calls).currentSecond + 1 := by
    rcases run_counts calls horder hbound with ⟨hnil, _, hseconds⟩ | ⟨first, last, hfirst, h⟩
    · rw [hseconds]
      refine ⟨⟨fun _ => hseconds, ?_, ?_, ?_⟩, by simp⟩
      · rw [hnil]
        exact fun last hlast => by cases hlast
      · rw [hnil]
        exact fun first last hfirst => by cases hfirst
      · rw [hseconds]
        exact fun k hk => absurd hk (Nat.not_lt_zero k)
    · obtain ⟨front, hends⟩ := h.ends
      have hlast : (clockMarks calls).getLast? = some last := by
        rw [hends, List.getLast?_concat]
      refine ⟨⟨fun hnil => ?_, fun other hother => ?_, fun head other hhead hother => ?_, h.entry⟩,
        ?_⟩
      · rw [hnil] at hfirst
        cases hfirst
      · rw [hlast] at hother
        cases hother
        exact h.current
      · rw [hlast] at hother
        rw [hfirst] at hhead
        cases hother
        cases hhead
        exact h.length
      · rw [h.length, h.current]
        omega
  exact ⟨hqueue.1, fun rates hrates => rates_exact hqueue.1 horder hbound hqueue.2 hrates⟩

/-- One mark a second for twelve seconds with one packet each, and `extra` more in the seventh. -/
def burstCalls (extra : Nat) : List MeterCall :=
  (List.range 12).map fun second =>
    .observeClock (second * Pacing.pcrTicksPerSecond) (second + if second < 6 then 0 else extra) 0

theorem histogram_exact_burst :
    ExactQueue (RateMeter.run (burstCalls 1)) (clockMarks (burstCalls 1)) ∧
      ∀ rates, (RateMeter.run (burstCalls 1)).rates = some rates →
        ExactRates (RateMeter.run (burstCalls 1)) (clockMarks (burstCalls 1)) rates :=
  histogram_exact _ (by unfold InOrder; decide +kernel) (by decide +kernel)

/-- With six packets in five seconds the peak is below the mean of that window, which is rounded
down; with 2^60 packets in a second the bits saturate and the average loses most of them. -/
theorem rates_not_exact :
    (InOrder (clockMarks (burstCalls 1)) ∧
      ∃ rates, (RateMeter.run (burstCalls 1)).rates = some rates ∧
        rates.peakBitsPerSecond * 5 < packetsBack 11 (clockMarks (burstCalls 1)) 3 5 * 1504) ∧
      InOrder (clockMarks (burstCalls (2 ^ 60))) ∧
      ∃ rates, (RateMeter.run (burstCalls (2 ^ 60))).rates = some rates ∧
        rates.averageBitsPerSecond * 10 + 10 ≤
          packetsBack 11 (clockMarks (burstCalls (2 ^ 60))) 1 10 * 1504 := by
  unfold InOrder
  refine ⟨⟨by decide +kernel, ⟨1654, 1804, 11000000000, none, 11000000000⟩, ?_, ?_⟩,
    by decide +kernel, ⟨1844674407370955161, 3689348814741910323, 11000000000, none, 11000000000⟩,
    ?_, ?_⟩
  all_goals decide +kernel

end IptvRelay.Media.Meter
