import IptvRelay.Lib.Median
import IptvRelay.Media.Meter

/-!
# The reported frame rate

Model of `RateMeter::frame_rate_millihertz`. The median gap of the decode
timestamps gives the measured rate, and the first standard rate that lies within
0.5 % of it is reported instead. The search multiplies a difference by 200 in 32
bits; the checked version says where that fits.
-/

namespace IptvRelay.Media.Meter

open Sorting

def minFrameSamples : Nat := 30

def standardRatesMillihertz : List Nat :=
  [23976, 24000, 25000, 29970, 30000, 50000, 59940, 60000]

/-- `u32::abs_diff`. -/
def absDiff (a b : Nat) : Nat := (a - b) + (b - a)

/-- The measured rate lies within 0.5 % of the standard rate. -/
def Near (measured rate : Nat) : Prop := absDiff measured rate * 200 ≤ rate

instance (measured rate : Nat) : Decidable (Near measured rate) :=
  inferInstanceAs (Decidable (_ ≤ _))

/-- The first standard rate that is near; `none` when a product leaves 32 bits. -/
def snap (measured : Nat) : List Nat → Option (Option Nat)
  | [] => some none
  | rate :: rest =>
    if 2 ^ 32 ≤ absDiff measured rate * 200 then none
    else if Near measured rate then some (some rate)
    else snap measured rest

/-- The rate of the median gap, in millihertz. -/
def measuredMillihertz (gaps : List Nat) : Nat := ptsTicksPerSecond * 1000 / max (median gaps) 1

namespace RateMeter

/-- As the release build computes it: the product wraps. -/
def frameRateMillihertz (self : RateMeter) : Option Nat :=
  if self.frameGaps.length < minFrameSamples then none
  else
    let measured := measuredMillihertz self.frameGaps
    if 2 ^ 32 ≤ measured then none
    else
      let snapped := standardRatesMillihertz.find? fun rate =>
        absDiff measured rate * 200 % 2 ^ 32 ≤ rate
      some (snapped.getD measured)

/-- The same with checked arithmetic: `none` is an overflow. -/
def frameRateChecked (self : RateMeter) : Option (Option Nat) :=
  if self.frameGaps.length < minFrameSamples then some none
  else
    let measured := measuredMillihertz self.frameGaps
    if 2 ^ 32 ≤ measured then some none
    else (snap measured standardRatesMillihertz).map fun snapped => some (snapped.getD measured)

end RateMeter

/-- The calls that the ring makes on its meter. -/
inductive MeterCall where
  | setVideoPid (pid : Option UInt16)
  | observeClock (ticks sequence : Nat) (now : Instant)
  | observeVideo (packet : Bytes)
  deriving DecidableEq, Repr

def RateMeter.apply (self : RateMeter) : MeterCall → RateMeter
  | .setVideoPid pid => self.setVideoPid pid
  | .observeClock ticks sequence now => self.observeClock ticks sequence now
  | .observeVideo packet => self.observeVideo packet

/-- The meter of a new generation after the calls. -/
def RateMeter.run (calls : List MeterCall) : RateMeter := calls.foldl apply {}

/-! ## The gaps that are kept -/

/-- Every kept gap is a positive time below one second. -/
def GapsInRange (gaps : List Nat) : Prop := ∀ gap ∈ gaps, 0 < gap ∧ gap < ptsTicksPerSecond

theorem apply_gapsInRange {self : RateMeter} (h : GapsInRange self.frameGaps) (call : MeterCall) :
    GapsInRange (self.apply call).frameGaps := by
  cases call with
  | setVideoPid pid =>
    simp only [RateMeter.apply, RateMeter.setVideoPid]
    split
    · exact fun gap hgap => absurd hgap List.not_mem_nil
    · exact h
  | observeClock ticks sequence now =>
    simp only [RateMeter.apply, RateMeter.observeClock]
    split
    · exact h
    · split
      · exact h
      · exact h
  | observeVideo packet =>
    simp only [RateMeter.apply, RateMeter.observeVideo]
    split
    · exact h
    · intro gap hgap
      rcases List.mem_append.mp (List.mem_of_mem_drop hgap) with hold | hnew
      · exact h gap hold
      · rw [Option.mem_toList, Option.filter_eq_some_iff] at hnew
        exact of_decide_eq_true hnew.2

theorem run_gapsInRange (calls : List MeterCall) :
    GapsInRange (RateMeter.run calls).frameGaps := by
  suffices ∀ self : RateMeter, GapsInRange self.frameGaps →
      GapsInRange (calls.foldl RateMeter.apply self).frameGaps from
    this {} fun gap hgap => absurd hgap List.not_mem_nil
  induction calls with
  | nil => exact fun _ h => h
  | cons call rest ih => exact fun self h => ih _ (apply_gapsInRange h call)

/-! ## What is reported for a measured rate -/

/-- The rate to report: a closest standard rate when one is near, otherwise the measured rate. -/
structure ReportsNearest (measured reported : Nat) : Prop where
  either : (reported = measured ∧ ∀ rate ∈ standardRatesMillihertz, ¬ Near measured rate) ∨
    (reported ∈ standardRatesMillihertz ∧ Near measured reported ∧
      ∀ other ∈ standardRatesMillihertz, ¬ absDiff measured other < absDiff measured reported)
  standard : measured ∈ standardRatesMillihertz → reported = measured

/-- Rates near two standard rates of which the second is strictly closer. -/
def Shadowed (measured : Nat) : Prop :=
  (23988 < measured ∧ measured ≤ 24095) ∨ (29985 < measured ∧ measured ≤ 30119) ∨
    (59970 < measured ∧ measured ≤ 60239)

theorem fits_iff {measured : Nat} :
    (∀ rate ∈ standardRatesMillihertz, absDiff measured rate * 200 < 2 ^ 32) ↔
      measured ≤ 21498812 := by
  constructor
  · intro h
    have hfirst := h 23976 (by decide)
    unfold absDiff at hfirst
    omega
  · intro h rate hrate
    have hrange : 23976 ≤ rate ∧ rate ≤ 60000 := by
      revert rate
      decide
    unfold absDiff
    omega

theorem snap_eq_find {measured : Nat} {rates : List Nat}
    (h : ∀ rate ∈ rates, absDiff measured rate * 200 < 2 ^ 32) :
    snap measured rates = some (rates.find? fun rate => Near measured rate) := by
  induction rates with
  | nil => rfl
  | cons rate rest ih =>
    obtain ⟨hrate, hrest⟩ := List.forall_mem_cons.mp h
    rw [snap, if_neg (Nat.not_le.mpr hrate), ih hrest]
    split
    · rename_i hnear
      rw [List.find?_cons_of_pos (by simpa using hnear)]
    · rename_i hfar
      rw [List.find?_cons_of_neg (by simpa using hfar)]

/-- The search overflows exactly when the difference to the smallest standard rate does. -/
theorem snap_eq_none_iff {measured : Nat} :
    snap measured standardRatesMillihertz = none ↔ 21498812 < measured := by
  constructor
  · intro h
    by_contra hle
    rw [snap_eq_find (fits_iff.mpr (by omega))] at h
    cases h
  · intro h
    have hbig : 2 ^ 32 ≤ absDiff measured 23976 * 200 := by
      unfold absDiff
      omega
    rw [standardRatesMillihertz, snap, if_pos hbig]

/-- In an increasing list the first element that fits is the smallest. -/
theorem le_of_find? {xs : List Nat} (hsorted : xs.Pairwise (· < ·)) {p : Nat → Bool} {first : Nat}
    (h : xs.find? p = some first) : ∀ a ∈ xs, p a = true → first ≤ a := by
  induction xs with
  | nil => cases h
  | cons head rest ih =>
    obtain ⟨hhead, htail⟩ := List.pairwise_cons.mp hsorted
    intro a ha hpa
    cases hp : p head with
    | true =>
      rw [List.find?_cons_of_pos hp] at h
      cases h
      rcases List.mem_cons.mp ha with rfl | hrest
      · exact le_rfl
      · exact (hhead a hrest).le
    | false =>
      rw [List.find?_cons_of_neg (by simp [hp])] at h
      rcases List.mem_cons.mp ha with rfl | hrest
      · simp [hp] at hpa
      · exact ih htail h a hrest hpa

theorem forall_standard_iff {P : Nat → Prop} :
    (∀ rate ∈ standardRatesMillihertz, P rate) ↔
      P 23976 ∧ P 24000 ∧ P 25000 ∧ P 29970 ∧ P 30000 ∧ P 50000 ∧ P 59940 ∧ P 60000 := by
  simp [standardRatesMillihertz]

theorem near_iff {measured rate : Nat} :
    Near measured rate ↔ 200 * measured ≤ 201 * rate ∧ 199 * rate ≤ 200 * measured := by
  unfold Near absDiff
  omega

/-- Which of two rates is closer is told by their midpoint. -/
theorem closer_iff {measured a b : Nat} :
    absDiff measured a < absDiff measured b ↔
      (a < b ∧ 2 * measured < a + b) ∨ (b < a ∧ a + b < 2 * measured) := by
  unfold absDiff
  omega

/-- The smallest near standard rate is a closest one unless the measured rate is shadowed. -/
theorem closest_iff {measured : Nat} : ∀ rate ∈ standardRatesMillihertz, Near measured rate →
    (∀ other ∈ standardRatesMillihertz, Near measured other → rate ≤ other) →
    ((∀ other ∈ standardRatesMillihertz,
        ¬ absDiff measured other < absDiff measured rate) ↔ ¬ Shadowed measured) := by
  simp only [forall_standard_iff, near_iff, closer_iff, Shadowed, Nat.reduceLT, Nat.reduceAdd,
    Nat.reduceMul, Nat.reduceLeDiff, true_and, and_true, lt_irrefl, imp_false, implies_true,
    true_imp_iff, false_imp_iff, not_and, not_or, not_lt]
  refine ⟨?_, ?_, ?_, ?_, ?_, ?_, ?_, ?_⟩
  · intro hnear
    constructor <;> intro h <;> omega
  all_goals
    intro hnear hfirst
    constructor <;> intro h <;> omega

theorem reportsNearest_find_iff {measured : Nat} :
    ReportsNearest measured
      ((standardRatesMillihertz.find? fun rate => Near measured rate).getD measured) ↔
      ¬ Shadowed measured := by
  cases hfind : standardRatesMillihertz.find? fun rate => Near measured rate with
  | none =>
    have hfar : ∀ rate ∈ standardRatesMillihertz, ¬ Near measured rate := by
      simpa using List.find?_eq_none.mp hfind
    refine iff_of_true ⟨.inl ⟨rfl, hfar⟩, fun _ => rfl⟩ ?_
    simp only [forall_standard_iff, near_iff] at hfar
    unfold Shadowed
    omega
  | some rate =>
    have hmem : rate ∈ standardRatesMillihertz := List.mem_of_find?_eq_some hfind
    have hnear : Near measured rate := by simpa using List.find?_some hfind
    have hsorted : standardRatesMillihertz.Pairwise (· < ·) := by decide
    have hfirst : ∀ other ∈ standardRatesMillihertz, Near measured other → rate ≤ other :=
      fun other hother hn => le_of_find? hsorted hfind other hother (by simpa using hn)
    have hclosest := closest_iff rate hmem hnear hfirst
    rw [Option.getD_some]
    constructor
    · intro h
      rcases h.either with ⟨_, hfar⟩ | ⟨_, _, hclose⟩
      · exact absurd hnear (hfar rate hmem)
      · exact hclosest.mp hclose
    · intro h
      refine ⟨.inr ⟨hmem, hnear, hclosest.mpr h⟩, fun hstandard => ?_⟩
      have hself := hclosest.mpr h measured hstandard
      unfold absDiff at hself
      omega

/-! ## The exact condition on the kept gaps -/

/-- The kept gaps are not centred where the search overflows or a closer standard rate is
shadowed by an earlier one. -/
def GapsClear (gaps : List Nat) : Prop :=
  gaps.length < minFrameSamples ∨
    (¬ CentredIn 0 4 gaps ∧ ¬ CentredIn 1495 1500 gaps ∧ ¬ CentredIn 2989 3001 gaps ∧
      ¬ CentredIn 3736 3751 gaps)

instance (gaps : List Nat) : Decidable (GapsClear gaps) := inferInstanceAs (Decidable (_ ∨ _))

/-- The checked computation does not overflow and what it reports is the rate to report. -/
def FrameRateExact (meter : RateMeter) : Prop :=
  ∃ report, meter.frameRateChecked = some report ∧
    ∀ rate, report = some rate → ReportsNearest (measuredMillihertz meter.frameGaps) rate

/-- The bands of the measured rate as bands of the median gap. -/
theorem band_iff {median : Nat} (lo hi : Nat) (hmedian : 0 < median) :
    (lo ≤ 90000000 / median ∧ 90000000 / median < hi) ↔
      lo * median ≤ 90000000 ∧ 90000000 < hi * median := by
  rw [Nat.le_div_iff_mul_le hmedian, Nat.div_lt_iff_lt_mul hmedian]

theorem shadowed_iff {median : Nat} (hmedian : 0 < median) :
    Shadowed (90000000 / median) ↔ (1495 ≤ median ∧ median ≤ 1500) ∨
      (2989 ≤ median ∧ median ≤ 3001) ∨ (3736 ≤ median ∧ median ≤ 3751) := by
  have hfilm := band_iff 23989 24096 hmedian
  have hvideo := band_iff 29986 30120 hmedian
  have hdouble := band_iff 59971 60240 hmedian
  unfold Shadowed
  omega

theorem overflows_iff {median : Nat} (hmedian : 0 < median) :
    21498812 < 90000000 / median ↔ median ≤ 4 := by
  rw [← Nat.succ_le_iff, Nat.le_div_iff_mul_le hmedian]
  omega

theorem find?_of_snap {measured : Nat} {rates : List Nat} {found : Option Nat}
    (h : snap measured rates = some found) :
    (rates.find? fun rate => absDiff measured rate * 200 % 2 ^ 32 ≤ rate) = found := by
  induction rates with
  | nil => exact Option.some.inj h
  | cons rate rest ih =>
    rw [snap] at h
    split at h
    · cases h
    · rename_i hfits
      have hmod := Nat.mod_eq_of_lt (Nat.not_le.mp hfits)
      split at h
      · rename_i hnear
        rw [List.find?_cons_of_pos (by rw [hmod]; exact decide_eq_true hnear)]
        exact Option.some.inj h
      · rename_i hfar
        rw [List.find?_cons_of_neg (by rw [hmod]; simpa [Near] using hfar)]
        exact ih h

/-- What the meter reports is what the checked computation reports, wherever that does not
overflow. -/
theorem frameRateMillihertz_of_checked {meter : RateMeter} {report : Option Nat}
    (h : meter.frameRateChecked = some report) : meter.frameRateMillihertz = report := by
  unfold RateMeter.frameRateChecked at h
  unfold RateMeter.frameRateMillihertz
  split at h
  · rename_i hfew
    rw [if_pos hfew]
    exact Option.some.inj h
  · rename_i hmany
    rw [if_neg hmany]
    dsimp only at h ⊢
    split at h
    · rename_i hlarge
      rw [if_pos hlarge]
      exact Option.some.inj h
    · rename_i hsmall
      obtain ⟨found, hsnap, hreport⟩ := Option.map_eq_some_iff.mp h
      rw [if_neg hsmall, find?_of_snap hsnap, hreport]

/-- With enough gaps the report is that of the measured rate. -/
theorem frameRateExact_iff_measured {meter : RateMeter}
    (hmany : minFrameSamples ≤ meter.frameGaps.length) :
    FrameRateExact meter ↔
      ¬ 21498812 < measuredMillihertz meter.frameGaps ∧
        ¬ Shadowed (measuredMillihertz meter.frameGaps) := by
  have hsmall : ¬ 2 ^ 32 ≤ measuredMillihertz meter.frameGaps := by
    have hle := Nat.div_le_self (ptsTicksPerSecond * 1000) (max (median meter.frameGaps) 1)
    have htotal : ptsTicksPerSecond * 1000 < 2 ^ 32 := by decide
    rw [measuredMillihertz]
    omega
  have hchecked : meter.frameRateChecked =
      (snap (measuredMillihertz meter.frameGaps) standardRatesMillihertz).map fun snapped =>
        some (snapped.getD (measuredMillihertz meter.frameGaps)) := by
    unfold RateMeter.frameRateChecked
    rw [if_neg (Nat.not_lt.mpr hmany)]
    exact if_neg hsmall
  unfold FrameRateExact
  rw [hchecked]
  by_cases hover : 21498812 < measuredMillihertz meter.frameGaps
  · rw [snap_eq_none_iff.mpr hover]
    simp [hover]
  · rw [snap_eq_find (fits_iff.mpr (Nat.not_lt.mp hover))]
    simp [hover, reportsNearest_find_iff]

theorem frameRateExact_iff_clear {meter : RateMeter} (hrange : GapsInRange meter.frameGaps) :
    FrameRateExact meter ↔ GapsClear meter.frameGaps := by
  by_cases hfew : meter.frameGaps.length < minFrameSamples
  · refine iff_of_true ⟨none, ?_, by simp⟩ (.inl hfew)
    unfold RateMeter.frameRateChecked
    exact if_pos hfew
  · have hne : meter.frameGaps ≠ [] := by
      intro hnil
      rw [hnil] at hfew
      exact hfew (by decide)
    have hpos := (hrange _ (median_mem hne)).1
    have hmeasured : measuredMillihertz meter.frameGaps =
        90000000 / median meter.frameGaps := by
      rw [measuredMillihertz, Nat.max_eq_left hpos]
      rfl
    rw [frameRateExact_iff_measured (Nat.not_lt.mp hfew), hmeasured, overflows_iff hpos,
      shadowed_iff hpos, GapsClear, centredIn_iff hne, centredIn_iff hne, centredIn_iff hne,
      centredIn_iff hne]
    omega

/-- After any calls, the frame rate is computed without overflow and is the measured rate or a
closest standard rate exactly when the median of the kept gaps lies outside four bands. -/
theorem frameRate_exact_iff (calls : List MeterCall) :
    FrameRateExact (RateMeter.run calls) ↔ GapsClear (RateMeter.run calls).frameGaps :=
  frameRateExact_iff_clear (run_gapsInRange calls)

/-- The video packet of a frame with this presentation timestamp and no decode timestamp. -/
def framePacket (pts : Nat) : Bytes :=
  [0x47, 0x41, 0x00, 0x10, 0, 0, 1, 0xe0, 0, 0, 0x80, 0x80, 5,
    0x21 ||| (UInt8.ofNat (pts / 2 ^ 29) &&& 0x0e), UInt8.ofNat (pts / 2 ^ 22),
    1 ||| (UInt8.ofNat (pts / 2 ^ 14) &&& 0xfe), UInt8.ofNat (pts / 2 ^ 7),
    1 ||| (UInt8.ofNat (pts * 2) &&& 0xfe)] ++ List.replicate 170 0xff

/-- Thirty-one frames, one every `gap` ticks. -/
def frameCalls (gap : Nat) : List MeterCall :=
  (List.range 31).map fun frame => .observeVideo (framePacket (frame * gap))

theorem film_gaps : (RateMeter.run (frameCalls 3750)).frameGaps = List.replicate 30 3750 := by
  decide +kernel

/-- A film is measured at 24 000 mHz, a standard rate, and reported as 23 976 mHz. With gaps of
one tick the search overflows. -/
theorem film_not_exact : ¬ FrameRateExact (RateMeter.run (frameCalls 3750)) ∧
    measuredMillihertz (RateMeter.run (frameCalls 3750)).frameGaps = 24000 ∧
    (RateMeter.run (frameCalls 3750)).frameRateMillihertz = some 23976 ∧
    (RateMeter.run (frameCalls 1)).frameRateChecked = none := by
  refine ⟨?_, ?_, ?_, by decide +kernel⟩
  · rw [frameRateExact_iff_clear (run_gapsInRange _), film_gaps]
    decide +kernel
  · rw [film_gaps]
    decide +kernel
  · unfold RateMeter.frameRateMillihertz
    rw [film_gaps]
    decide +kernel

end IptvRelay.Media.Meter
