import IptvRelay.Lib.Checked
import IptvRelay.Media.Ring
import Mathlib.Algebra.Order.Floor.Div

/-!
# The size of a channel's ring

Model of `MpegTsRingConfig::for_bitrate` in `ring.rs` and of `policy_ring` in the API crate.
The estimate is clamped to the number of bytes of the ring, although it is a number of bits
per second. So the pre-roll of a fast stream or a small ring is shorter than the viewer delay.
-/

namespace IptvRelay.Media

open Checked Blocks

/-! ## Packets of a duration -/

/-- `Duration::MAX`. -/
def maxDuration : Duration := 2 ^ 64 * 1000000000 - 1

def durationFromSecs (seconds : Nat) : Duration := seconds * 1000000000

def durationAdd (a b : Duration) : Duration := min (a + b) maxDuration

/-- What one packet is worth, in bits times nanoseconds per second. -/
def bitsPerPacketNanoseconds : Nat := mpegTsPacketSize * 8 * 1000000000

def packetsForDuration (bitrateBitsPerSecond : Nat) (duration : Duration) :
    Except RingConfigError Nat := do
  let bitNanoseconds := bitrateBitsPerSecond * duration
  ensure (bitNanoseconds < 2 ^ 128) RingConfigError.capacityOverflow
  ensure (bitNanoseconds + (bitsPerPacketNanoseconds - 1) < 2 ^ 128) .capacityOverflow
  let packets := (bitNanoseconds + (bitsPerPacketNanoseconds - 1)) / bitsPerPacketNanoseconds
  ensure (packets < 2 ^ 64) .capacityOverflow
  return packets

def MpegTsRingConfig.forBitrate (bitrateBitsPerSecond : Nat) (bufferDuration preRoll : Duration) :
    Except RingConfigError MpegTsRingConfig := do
  ensure (bitrateBitsPerSecond ≠ 0) RingConfigError.zeroBitrate
  let capacityPackets ← packetsForDuration bitrateBitsPerSecond bufferDuration
  let preRollPackets ← packetsForDuration bitrateBitsPerSecond preRoll
  MpegTsRingConfig.new capacityPackets preRollPackets

/-! ## The policy -/

/-- The part of the policy that sizes the ring. -/
structure RingPolicy where
  duration : Duration
  maxBytes : Nat
  preRoll : Duration
  deriving DecidableEq, Repr

namespace RingPolicy

def minDurationSeconds : Nat := 60
def minBytes : Nat := 32 * 1024 * 1024

/-- The ranges of `media.ring.*` and `media.viewer.start_delay_seconds`. -/
structure InRange (policy : RingPolicy) : Prop where
  bytes : 1048576 ≤ policy.maxBytes ∧ policy.maxBytes ≤ 1073741824
  duration : durationFromSecs 1 ≤ policy.duration ∧ policy.duration ≤ durationFromSecs 120
  preRoll : policy.preRoll ≤ durationFromSecs 30

end RingPolicy

/-- What the relay knows about a stream's rate when it sizes the ring. -/
structure RingSizing where
  estimatedBitsPerSecond : UInt64
  measuredPeakBitsPerSecond : Option UInt64 := none
  measuredBurst : Option Duration := none
  deriving DecidableEq, Repr

namespace RingSizing

def defaultBurst : Duration := durationFromSecs 15
def safetyMargin : Duration := durationFromSecs 15

/-- The product wraps at 128 bits, as in a release build. -/
def pacedBytes (self : RingSizing) (preRoll : Duration) : Option Nat := do
  let peak ← self.measuredPeakBitsPerSecond
  let span := durationAdd (durationAdd preRoll (self.measuredBurst.getD defaultBurst)) safetyMargin
  let bits := peak.toNat * (span / 1000000) % 2 ^ 128 / 1000
  return min (bits / 8) (2 ^ 64 - 1)

end RingSizing

def clampNat (low high value : Nat) : Nat := max low (min value high)

/-- The capacity for a ring that asks for `requested` packets. -/
def effectiveCapacity (sizing : RingSizing) (policy : RingPolicy)
    (minimumPackets maximumPackets requested : Nat) : Nat :=
  if policy.preRoll = 0 then clampNat minimumPackets maximumPackets requested
  else match sizing.pacedBytes policy.preRoll with
    | some bytes => clampNat minimumPackets maximumPackets (bytes ⌈/⌉ mpegTsPacketSize)
    | none => maximumPackets

def policyRing (sizing : RingSizing) (policy : RingPolicy) : Except String MpegTsRingConfig := do
  let maximumPackets := max (policy.maxBytes / mpegTsPacketSize) 1
  let minimumPackets := min (RingPolicy.minBytes / mpegTsPacketSize) maximumPackets
  ensure (maximumPackets < 2 ^ 64) "the ring capacity cannot be represented on this platform"
  let maximumBitrate := min (maximumPackets * mpegTsPacketSize) (2 ^ 64 - 1)
  let bitrate := clampNat 1 maximumBitrate sizing.estimatedBitsPerSecond.toNat
  let duration := max (max policy.duration (durationFromSecs RingPolicy.minDurationSeconds))
    (min (policy.preRoll * 2) maxDuration)
  let preRoll := min policy.preRoll duration
  let requested ← (MpegTsRingConfig.forBitrate bitrate duration preRoll).mapError fun _ =>
    "the configured bitrate cannot be represented by the ring"
  let capacity := effectiveCapacity sizing policy minimumPackets maximumPackets
    requested.capacityPackets
  (MpegTsRingConfig.new capacity (min requested.preRollPackets capacity)).mapError fun _ =>
    "the configured pre-roll exceeds the effective ring capacity"

/-! ## What the numbers are for -/

/-- The packets of a duration at a rate, without the checks. -/
def packetsOf (bitsPerSecond : Nat) (duration : Duration) : Nat :=
  (bitsPerSecond * duration) ⌈/⌉ bitsPerPacketNanoseconds

namespace RingPolicy

/-- The packets that the byte ceiling allows. -/
def ceilingPackets (policy : RingPolicy) : Nat := policy.maxBytes / mpegTsPacketSize

/-- The packets that any ring gets, below the ceiling. -/
def floorPackets (policy : RingPolicy) : Nat :=
  min (minBytes / mpegTsPacketSize) policy.ceilingPackets

/-- The largest rate that the pre-roll is computed from: the bytes of the ceiling. -/
def rateLimit (policy : RingPolicy) : Nat := policy.ceilingPackets * mpegTsPacketSize

/-- The media that an unpaced ring holds. -/
def heldDuration (policy : RingPolicy) : Duration :=
  max policy.duration (durationFromSecs minDurationSeconds)

end RingPolicy

/-- The ring is what the policy and the measurements ask for. -/
structure HonoursPolicy (sizing : RingSizing) (policy : RingPolicy) (ring : MpegTsRingConfig) :
    Prop where
  capacity : 1 ≤ ring.capacityPackets ∧ ring.capacityPackets ≤ policy.ceilingPackets
  paced : 0 < policy.preRoll → ∀ bytes, sizing.pacedBytes policy.preRoll = some bytes →
    min bytes (mpegTsPacketSize * policy.ceilingPackets) ≤ mpegTsPacketSize * ring.capacityPackets
  unpaced : policy.preRoll = 0 →
    min (packetsOf sizing.estimatedBitsPerSecond.toNat policy.heldDuration) policy.ceilingPackets ≤
      ring.capacityPackets
  preRoll : ring.preRollPackets =
    min (packetsOf sizing.estimatedBitsPerSecond.toNat policy.preRoll) ring.capacityPackets

/-- The clamp of the estimate does not shorten or lengthen the pre-roll. -/
def DelayKept (sizing : RingSizing) (policy : RingPolicy) : Prop :=
  policy.preRoll = 0 ∨
    (1 ≤ sizing.estimatedBitsPerSecond.toNat ∧
      sizing.estimatedBitsPerSecond.toNat ≤ policy.rateLimit) ∨
    policy.rateLimit < sizing.estimatedBitsPerSecond.toNat ∧
      (packetsOf sizing.estimatedBitsPerSecond.toNat policy.preRoll =
          packetsOf policy.rateLimit policy.preRoll ∨
        policy.ceilingPackets ≤ packetsOf policy.rateLimit policy.preRoll ∨
        ∃ bytes, sizing.pacedBytes policy.preRoll = some bytes ∧
          bytes ≤ mpegTsPacketSize * packetsOf policy.rateLimit policy.preRoll ∧
          policy.floorPackets ≤ packetsOf policy.rateLimit policy.preRoll)

/-! ## The configuration of a policy in range -/

section Packets

theorem bitsPerPacketNanoseconds_eq : bitsPerPacketNanoseconds = 1504000000000 := rfl

theorem packetsOf_le_iff {rate packets : Nat} {duration : Duration} :
    packetsOf rate duration ≤ packets ↔ rate * duration ≤ bitsPerPacketNanoseconds * packets :=
  ceilDiv_le_iff_le_mul (by decide)

theorem packetsOf_mono {rate rate' : Nat} {duration duration' : Duration} (hrate : rate ≤ rate')
    (hduration : duration ≤ duration') : packetsOf rate duration ≤ packetsOf rate' duration' :=
  packetsOf_le_iff.mpr
    ((Nat.mul_le_mul hrate hduration).trans (packetsOf_le_iff.mp le_rfl))

theorem packetsOf_pos {rate : Nat} {duration : Duration} (hrate : 0 < rate)
    (hduration : 0 < duration) : 0 < packetsOf rate duration := by
  by_contra hzero
  have hle := packetsOf_le_iff.mp (Nat.le_of_not_lt hzero)
  have hpos := Nat.mul_pos hrate hduration
  omega

@[simp] theorem packetsOf_zero (rate : Nat) : packetsOf rate 0 = 0 := by
  have hle : packetsOf rate 0 ≤ 0 := packetsOf_le_iff.mpr (by omega)
  omega

@[simp] theorem packetsOf_zero_left (duration : Duration) : packetsOf 0 duration = 0 := by
  have hle : packetsOf 0 duration ≤ 0 := packetsOf_le_iff.mpr (by omega)
  omega

/-- The checks of `packetsForDuration` pass for two minutes at any rate. -/
theorem packetsForDuration_eq {rate : Nat} {duration : Duration} (hrate : rate < 2 ^ 64)
    (hduration : duration ≤ durationFromSecs 120) :
    packetsForDuration rate duration = .ok (packetsOf rate duration) := by
  have hduration : duration ≤ 120000000000 := hduration
  have hbits : rate * duration ≤ 2 ^ 64 * 120000000000 := Nat.mul_le_mul hrate.le hduration
  have hpackets : packetsOf rate duration ≤ 2 ^ 61 := by
    rw [packetsOf_le_iff, bitsPerPacketNanoseconds_eq]
    omega
  have hsub : rate * duration + (bitsPerPacketNanoseconds - 1) =
      rate * duration + bitsPerPacketNanoseconds - 1 := by
    rw [bitsPerPacketNanoseconds_eq]
    omega
  rw [packetsForDuration, ensure_bind (by omega), ensure_bind, hsub, ← Nat.ceilDiv_eq_add_pred_div]
  · exact ensure_bind (by unfold packetsOf at hpackets; omega) _
  · rw [bitsPerPacketNanoseconds_eq]
    omega

end Packets

section Policy

theorem MpegTsRingConfig.new_ok {capacityPackets preRollPackets : Nat} (hpos : 0 < capacityPackets)
    (hfits : capacityPackets * mpegTsPacketSize < 2 ^ 64) (hle : preRollPackets ≤ capacityPackets) :
    ∃ config, MpegTsRingConfig.new capacityPackets preRollPackets = .ok config ∧
      config.capacityPackets = capacityPackets ∧ config.preRollPackets = preRollPackets := by
  unfold MpegTsRingConfig.new
  rw [dif_neg hpos.ne', dif_pos hfits, dif_pos hle]
  exact ⟨_, rfl, rfl, rfl⟩

theorem forBitrate_ok {rate : Nat} {duration preRoll : Duration} (hrate : 0 < rate)
    (hlimit : rate ≤ 2 ^ 30) (hpos : 0 < duration) (hduration : duration ≤ durationFromSecs 120)
    (hpreRoll : preRoll ≤ duration) :
    ∃ config, MpegTsRingConfig.forBitrate rate duration preRoll = .ok config ∧
      config.capacityPackets = packetsOf rate duration ∧
      config.preRollPackets = packetsOf rate preRoll := by
  have hfits : packetsOf rate duration * mpegTsPacketSize < 2 ^ 64 := by
    have hduration : duration ≤ 120000000000 := hduration
    have hbits : rate * duration ≤ 2 ^ 30 * 120000000000 := Nat.mul_le_mul hlimit hduration
    have hpackets : packetsOf rate duration ≤ 2 ^ 30 := by
      rw [packetsOf_le_iff, bitsPerPacketNanoseconds_eq]
      omega
    unfold mpegTsPacketSize
    omega
  obtain ⟨config, hnew, hconfig⟩ := MpegTsRingConfig.new_ok (packetsOf_pos hrate hpos) hfits
    (packetsOf_mono le_rfl hpreRoll)
  refine ⟨config, ?_, hconfig⟩
  rw [MpegTsRingConfig.forBitrate, ensure_bind hrate.ne',
    packetsForDuration_eq (by omega) hduration,
    packetsForDuration_eq (by omega) (hpreRoll.trans hduration), ok_bind, ok_bind, hnew]

variable {sizing : RingSizing} {policy : RingPolicy}

theorem ceilingPackets_bounds (h : policy.InRange) :
    5577 ≤ policy.ceilingPackets ∧ policy.ceilingPackets ≤ 5711392 := by
  have hbytes := h.bytes
  unfold RingPolicy.ceilingPackets mpegTsPacketSize
  omega

theorem clampNat_bounds {low high : Nat} (h : low ≤ high) (value : Nat) :
    low ≤ clampNat low high value ∧ clampNat low high value ≤ high :=
  ⟨le_max_left _ _, max_le h (min_le_right _ _)⟩

theorem clampNat_le_iff {low high value bound : Nat} (h : low ≤ high) :
    clampNat low high value ≤ bound ↔ high ≤ bound ∨ value ≤ bound ∧ low ≤ bound := by
  unfold clampNat
  omega

theorem effectiveCapacity_bounds {minimumPackets maximumPackets requested : Nat}
    (h : minimumPackets ≤ maximumPackets) :
    minimumPackets ≤ effectiveCapacity sizing policy minimumPackets maximumPackets requested ∧
      effectiveCapacity sizing policy minimumPackets maximumPackets requested ≤ maximumPackets := by
  unfold effectiveCapacity
  split
  · exact clampNat_bounds h _
  · split
    · exact clampNat_bounds h _
    · exact ⟨h, le_rfl⟩

/-- The rate that the requested ring is computed from. -/
def effectiveRate (sizing : RingSizing) (policy : RingPolicy) : Nat :=
  clampNat 1 policy.rateLimit sizing.estimatedBitsPerSecond.toNat

/-- A ring for a delay of at most half a minute holds the duration or a minute. -/
theorem held_eq {duration preRoll : Nat} (hdelay : preRoll ≤ 30000000000)
    (hlong : duration ≤ 120000000000) :
    max (max duration 60000000000) (min (preRoll * 2) (2 ^ 64 * 1000000000 - 1)) =
        max duration 60000000000 ∧
      60000000000 ≤ max duration 60000000000 ∧ max duration 60000000000 ≤ 120000000000 := by
  omega

theorem rateLimit_bounds (h : policy.InRange) :
    1 ≤ policy.rateLimit ∧ policy.rateLimit ≤ 2 ^ 30 := by
  have hbytes := h.bytes
  unfold RingPolicy.rateLimit RingPolicy.ceilingPackets mpegTsPacketSize
  omega

theorem floorPackets_pos (h : policy.InRange) : 0 < policy.floorPackets :=
  lt_min (by decide) ((by decide : 0 < 5577).trans_le (ceilingPackets_bounds h).1)

/-- What `policy_ring` computes for a policy in range. -/
theorem policyRing_eq (sizing : RingSizing) (h : policy.InRange) :
    ∃ ring, policyRing sizing policy = .ok ring ∧
      ring.capacityPackets = effectiveCapacity sizing policy policy.floorPackets
        policy.ceilingPackets (packetsOf (effectiveRate sizing policy) policy.heldDuration) ∧
      ring.preRollPackets =
        min (packetsOf (effectiveRate sizing policy) policy.preRoll) ring.capacityPackets := by
  obtain ⟨hfloor, hceiling⟩ := ceilingPackets_bounds h
  obtain ⟨hheld, hminute, hholds⟩ := held_eq h.preRoll h.duration.2
  have hminute : durationFromSecs 60 ≤ policy.heldDuration := hminute
  have hholds : policy.heldDuration ≤ durationFromSecs 120 := hholds
  have hmaximum : max (policy.maxBytes / mpegTsPacketSize) 1 = policy.ceilingPackets :=
    max_eq_left ((by decide : 1 ≤ 5577).trans hfloor)
  have hlimit : min (policy.ceilingPackets * mpegTsPacketSize) (2 ^ 64 - 1) = policy.rateLimit := by
    have hlimits := (rateLimit_bounds h).2
    exact min_eq_left (hlimits.trans (by decide))
  have hheld : max (max policy.duration (durationFromSecs RingPolicy.minDurationSeconds))
      (min (policy.preRoll * 2) maxDuration) = policy.heldDuration := hheld
  have hshort : policy.preRoll ≤ policy.heldDuration :=
    (h.preRoll.trans (by decide)).trans hminute
  obtain ⟨hrate, hcapped⟩ := clampNat_bounds (rateLimit_bounds h).1
    sizing.estimatedBitsPerSecond.toNat
  obtain ⟨requested, hrequested, hcapacity, hpackets⟩ := forBitrate_ok hrate
    (hcapped.trans (rateLimit_bounds h).2) ((by decide : 0 < durationFromSecs 60).trans_le hminute)
    hholds hshort
  have hbounds := @effectiveCapacity_bounds sizing policy _ _ requested.capacityPackets
    (min_le_right (RingPolicy.minBytes / mpegTsPacketSize) policy.ceilingPackets)
  obtain ⟨ring, hring, hringCapacity, hringPreRoll⟩ := MpegTsRingConfig.new_ok
    ((floorPackets_pos h).trans_le hbounds.1)
    ((Nat.mul_le_mul_right mpegTsPacketSize (hbounds.2.trans hceiling)).trans_lt (by decide))
    (min_le_right requested.preRollPackets _)
  refine ⟨ring, ?_, ?_, ?_⟩
  · unfold policyRing
    simp only [hmaximum, hlimit, hheld]
    rw [ensure_bind (hceiling.trans_lt (by decide)), min_eq_left hshort, hrequested,
      Except.mapError, ok_bind, hring, Except.mapError]
  · rw [hringCapacity, hcapacity]
    rfl
  · rw [hringPreRoll, hringCapacity, hpackets]
    rfl

end Policy

/-! ## The policy is honoured except for a delay at a clamped rate -/

section Honours

variable {sizing : RingSizing} {policy : RingPolicy} {ring : MpegTsRingConfig}

theorem effectiveCapacity_paced {minimumPackets maximumPackets requested bytes : Nat}
    (hdelay : policy.preRoll ≠ 0) (hbytes : sizing.pacedBytes policy.preRoll = some bytes) :
    effectiveCapacity sizing policy minimumPackets maximumPackets requested =
      clampNat minimumPackets maximumPackets (bytes ⌈/⌉ mpegTsPacketSize) := by
  unfold effectiveCapacity
  rw [if_neg hdelay, hbytes]

theorem effectiveCapacity_unmeasured {minimumPackets maximumPackets requested : Nat}
    (hdelay : policy.preRoll ≠ 0) (hbytes : sizing.pacedBytes policy.preRoll = none) :
    effectiveCapacity sizing policy minimumPackets maximumPackets requested = maximumPackets := by
  unfold effectiveCapacity
  rw [if_neg hdelay, hbytes]

theorem effectiveCapacity_unpaced {minimumPackets maximumPackets requested : Nat}
    (hdelay : policy.preRoll = 0) :
    effectiveCapacity sizing policy minimumPackets maximumPackets requested =
      clampNat minimumPackets maximumPackets requested := if_pos hdelay

/-- A minute at the largest rate fills the ring: the rate is the bytes of the ring. -/
theorem ceilingPackets_le_packetsOf {duration : Duration}
    (hminute : durationFromSecs 60 ≤ duration) :
    policy.ceilingPackets ≤ packetsOf policy.rateLimit duration := by
  by_contra hlt
  have hle := packetsOf_le_iff.mp (Nat.le_sub_one_of_lt (not_le.mp hlt))
  have hmul : policy.rateLimit * 60000000000 ≤ policy.rateLimit * duration :=
    Nat.mul_le_mul_left _ hminute
  rw [bitsPerPacketNanoseconds_eq] at hle
  unfold RingPolicy.rateLimit mpegTsPacketSize at *
  omega

/-- What the capacity is for holds whatever the estimate is. -/
theorem covers_of_capacity
    (hcapacity : ring.capacityPackets = effectiveCapacity sizing policy policy.floorPackets
      policy.ceilingPackets (packetsOf (effectiveRate sizing policy) policy.heldDuration)) :
    (0 < policy.preRoll → ∀ bytes, sizing.pacedBytes policy.preRoll = some bytes →
        min bytes (mpegTsPacketSize * policy.ceilingPackets) ≤
          mpegTsPacketSize * ring.capacityPackets) ∧
      (policy.preRoll = 0 →
        min (packetsOf sizing.estimatedBitsPerSecond.toNat policy.heldDuration)
          policy.ceilingPackets ≤ ring.capacityPackets) := by
  constructor
  · intro hdelay bytes hbytes
    rw [hcapacity, effectiveCapacity_paced hdelay.ne' hbytes]
    have hcover : bytes ≤ mpegTsPacketSize * (bytes ⌈/⌉ mpegTsPacketSize) :=
      le_smul_ceilDiv (a := mpegTsPacketSize) (by decide)
    rcases le_total (bytes ⌈/⌉ mpegTsPacketSize) policy.ceilingPackets with hle | hle
    · refine (min_le_left _ _).trans (hcover.trans (Nat.mul_le_mul_left _ ?_))
      exact (min_eq_left hle).ge.trans (le_max_right _ _)
    · refine (min_le_right _ _).trans (Nat.mul_le_mul_left _ ?_)
      exact (min_eq_right hle).ge.trans (le_max_right _ _)
  · intro hdelay
    rw [hcapacity, effectiveCapacity_unpaced hdelay]
    have hheld : durationFromSecs 60 ≤ policy.heldDuration := le_max_right _ _
    have hmin : min (packetsOf sizing.estimatedBitsPerSecond.toNat policy.heldDuration)
        policy.ceilingPackets ≤
          min (packetsOf (effectiveRate sizing policy) policy.heldDuration)
            policy.ceilingPackets := by
      refine le_min ?_ (min_le_right _ _)
      rcases le_total sizing.estimatedBitsPerSecond.toNat policy.rateLimit with hle | hle
      · refine (min_le_left _ _).trans (packetsOf_mono ?_ le_rfl)
        exact (min_eq_left hle).ge.trans (le_max_right _ _)
      · refine (min_le_right _ _).trans ((ceilingPackets_le_packetsOf hheld).trans ?_)
        exact packetsOf_mono ((min_eq_right hle).ge.trans (le_max_right _ _)) le_rfl
    exact hmin.trans (le_max_right _ _)

/-- The capacity is at most `packets`, as a condition on the policy and the measurements. -/
theorem effectiveCapacity_le_iff {requested packets : Nat} (hdelay : policy.preRoll ≠ 0) :
    effectiveCapacity sizing policy policy.floorPackets policy.ceilingPackets requested ≤ packets ↔
      policy.ceilingPackets ≤ packets ∨ ∃ bytes, sizing.pacedBytes policy.preRoll = some bytes ∧
        bytes ≤ mpegTsPacketSize * packets ∧ policy.floorPackets ≤ packets := by
  cases hbytes : sizing.pacedBytes policy.preRoll with
  | none =>
    rw [effectiveCapacity_unmeasured hdelay hbytes]
    refine ⟨.inl, fun h => h.resolve_right ?_⟩
    rintro ⟨_, ⟨⟩, _⟩
  | some bytes =>
    have hfloor : policy.floorPackets ≤ policy.ceilingPackets := min_le_right _ _
    rw [effectiveCapacity_paced hdelay hbytes, clampNat_le_iff hfloor,
      ceilDiv_le_iff_le_mul (by decide)]
    refine or_congr_right ⟨fun h => ⟨bytes, rfl, h⟩, ?_⟩
    rintro ⟨_, ⟨⟩, h⟩
    exact h

/-- The clamp of the rate keeps the pre-roll exactly when `DelayKept` holds. -/
theorem preRoll_kept_iff (h : policy.InRange)
    (hcapacity : ring.capacityPackets = effectiveCapacity sizing policy policy.floorPackets
      policy.ceilingPackets (packetsOf (effectiveRate sizing policy) policy.heldDuration)) :
    min (packetsOf (effectiveRate sizing policy) policy.preRoll) ring.capacityPackets =
        min (packetsOf sizing.estimatedBitsPerSecond.toNat policy.preRoll) ring.capacityPackets ↔
      DelayKept sizing policy := by
  have hlimit := (rateLimit_bounds h).1
  unfold DelayKept
  by_cases hdelay : policy.preRoll = 0
  · rw [hdelay]
    simp
  have hpos : 0 < ring.capacityPackets := by
    rw [hcapacity]
    exact (floorPackets_pos h).trans_le (effectiveCapacity_bounds (min_le_right _ _)).1
  rcases Nat.eq_zero_or_pos sizing.estimatedBitsPerSecond.toNat with hzero | hestimate
  · -- A zero estimate is raised to one bit per second, which is one packet.
    have hrate : effectiveRate sizing policy = 1 := by
      rw [effectiveRate, hzero]
      exact max_eq_left (Nat.zero_le _)
    have hpacket : 0 < packetsOf 1 policy.preRoll :=
      packetsOf_pos Nat.one_pos (Nat.pos_of_ne_zero hdelay)
    rw [hrate, hzero, packetsOf_zero_left]
    refine iff_of_false (by omega) ?_
    rintro (hno | ⟨hone, -⟩ | ⟨hlt, -⟩)
    · exact hdelay hno
    · exact absurd hone (by decide)
    · exact absurd hlt (Nat.not_lt_zero _)
  rcases le_or_gt sizing.estimatedBitsPerSecond.toNat policy.rateLimit with hle | hlt
  · have hrate : effectiveRate sizing policy = sizing.estimatedBitsPerSecond.toNat := by
      rw [effectiveRate, clampNat, min_eq_left hle, max_eq_right hestimate]
    rw [hrate]
    exact iff_of_true rfl (.inr (.inl ⟨hestimate, hle⟩))
  · have hrate : effectiveRate sizing policy = policy.rateLimit := by
      rw [effectiveRate, clampNat, min_eq_right hlt.le, max_eq_right hlimit]
    have hmono : packetsOf policy.rateLimit policy.preRoll ≤
        packetsOf sizing.estimatedBitsPerSecond.toNat policy.preRoll :=
      packetsOf_mono hlt.le le_rfl
    have hfull := @effectiveCapacity_le_iff sizing policy
      (packetsOf (effectiveRate sizing policy) policy.heldDuration)
      (packetsOf policy.rateLimit policy.preRoll) hdelay
    rw [← hcapacity] at hfull
    rw [hrate, ← hfull]
    constructor
    · intro hmin
      exact .inr (.inr ⟨hlt, by omega⟩)
    · rintro (hno | ⟨-, hle⟩ | ⟨-, hkept⟩)
      · exact absurd hno hdelay
      · exact absurd hlt (not_lt.mpr hle)
      · omega

/-- The ring honours the policy exactly when the clamp keeps the delay. -/
theorem policy_ring_honours_iff (sizing : RingSizing) (policy : RingPolicy)
    (h : policy.InRange) :
    (∃ ring, policyRing sizing policy = .ok ring ∧ HonoursPolicy sizing policy ring) ↔
      DelayKept sizing policy := by
  obtain ⟨ring, hring, hcapacity, hpreRoll⟩ := policyRing_eq sizing h
  rw [← preRoll_kept_iff h hcapacity, ← hpreRoll]
  constructor
  · rintro ⟨other, hother, hhonours⟩
    obtain rfl := Except.ok.inj (hring.symm.trans hother)
    exact hhonours.preRoll
  · intro hkept
    have hbounds := @effectiveCapacity_bounds sizing policy _ _
      (packetsOf (effectiveRate sizing policy) policy.heldDuration)
      (min_le_right (RingPolicy.minBytes / mpegTsPacketSize) policy.ceilingPackets)
    obtain ⟨hpaced, hunpaced⟩ := covers_of_capacity hcapacity
    refine ⟨ring, hring, ⟨?_, hpaced, hunpaced, hkept⟩⟩
    rw [hcapacity]
    exact ⟨(floorPackets_pos h).trans_le hbounds.1, hbounds.2⟩

/-- The default policy is honoured for the fallback estimate. -/
theorem policy_ring_honours_iff_fallback :
    ∃ ring, policyRing ⟨4000000, none, none⟩ ⟨durationFromSecs 8, 67108864, durationFromSecs 30⟩ =
        .ok ring ∧
      HonoursPolicy ⟨4000000, none, none⟩ ⟨durationFromSecs 8, 67108864, durationFromSecs 30⟩ ring :=
  (policy_ring_honours_iff _ _ ⟨by decide, by decide, by decide⟩).mpr (.inr (.inl (by decide)))

/-- A ring of 1 MiB at 4 Mbit/s: the pre-roll of one second is a quarter of a second. -/
theorem policy_ring_shortens_delay :
    RingPolicy.InRange ⟨durationFromSecs 8, 1048576, durationFromSecs 1⟩ ∧
      packetsOf 4000000 (durationFromSecs 1) = 2660 ∧
      (∃ ring, policyRing ⟨4000000, none, none⟩ ⟨durationFromSecs 8, 1048576, durationFromSecs 1⟩ =
          .ok ring ∧ ring.capacityPackets = 5577 ∧ ring.preRollPackets = 698) ∧
      ¬∃ ring, policyRing ⟨4000000, none, none⟩
            ⟨durationFromSecs 8, 1048576, durationFromSecs 1⟩ = .ok ring ∧
          HonoursPolicy ⟨4000000, none, none⟩
            ⟨durationFromSecs 8, 1048576, durationFromSecs 1⟩ ring := by
  have hrange : RingPolicy.InRange ⟨durationFromSecs 8, 1048576, durationFromSecs 1⟩ :=
    ⟨by decide, by decide, by decide⟩
  obtain ⟨ring, hring, hcapacity, hpreRoll⟩ := policyRing_eq ⟨4000000, none, none⟩ hrange
  have hcapacity : ring.capacityPackets = 5577 := hcapacity.trans (by decide)
  have hpreRoll : ring.preRollPackets = 698 := by
    rw [hpreRoll, hcapacity]
    decide
  refine ⟨hrange, by decide, ⟨ring, hring, hcapacity, hpreRoll⟩, ?_⟩
  rintro ⟨other, hother, hhonours⟩
  obtain rfl := Except.ok.inj (hring.symm.trans hother)
  have hkept := hhonours.preRoll
  rw [hpreRoll, hcapacity] at hkept
  exact absurd hkept (by decide)

end Honours

end IptvRelay.Media
