import IptvRelay.Media.Pacing
import Mathlib.Tactic

/-!
# The pacer of one viewer

Model of `Pacer` in `pacing.rs`. A batch is held until its media time is due,
counted from an anchor; without a usable anchor, or when a hold would be too
long, the batch becomes the new anchor. `hold` calls itself for that, so the
model takes the number of nested calls that are allowed; two are enough.
-/

namespace IptvRelay.Media.Pacing

/-- The pacer never holds one batch longer than this: five seconds. -/
def maxHold : Duration := 5000000000

structure BatchPosition where
  sequence : Nat
  ticks : Option Nat
  byteRateBps : Option Nat
  deriving DecidableEq, Repr

inductive Anchor where
  | pcr (instant : Instant) (ticks : Nat)
  | bytes (instant : Instant) (sequence : Nat)
  deriving DecidableEq, Repr

structure Pacer where
  anchor : Option Anchor := none
  deriving DecidableEq, Repr

/-- One call of `hold`. -/
structure Step where
  before : Pacer
  position : BatchPosition
  now : Instant
  after : Pacer
  held : Duration
  deriving DecidableEq, Repr

/-- `Duration::from_nanos` of a wider number, saturating at 64 bits. -/
def fromNanos (nanos : Nat) : Duration := min nanos (2 ^ 64 - 1)

def ticksToNanos (ticks : Nat) : Nat := ticks * 1000000000 / pcrTicksPerSecond

/-- The time of as many packets at this bit rate. -/
def packetsToNanos (packets rateBps : Nat) : Nat := packets * 188 * 8 * 1000000000 / rateBps

namespace Pacer

/-- Hold until `due`, or call `again` without an anchor when that is too long. -/
def holdUntil (self : Pacer) (due now : Instant)
    (again : Pacer → Option (Pacer × Duration)) : Option (Pacer × Duration) :=
  if due - now > maxHold then again { anchor := none } else some (self, due - now)

def holdPcr (self : Pacer) (ticks : Nat) (now : Instant)
    (again : Pacer → Option (Pacer × Duration)) : Option (Pacer × Duration) :=
  match self.anchor with
  | some (.pcr instant anchorTicks) =>
    self.holdUntil (instant + fromNanos (ticksToNanos (ticks - anchorTicks))) now again
  | _ => some ({ anchor := some (.pcr now ticks) }, 0)

def holdBytes (self : Pacer) (sequence rateBps : Nat) (now : Instant)
    (again : Pacer → Option (Pacer × Duration)) : Option (Pacer × Duration) :=
  match self.anchor with
  | some (.bytes instant anchorSequence) =>
    self.holdUntil (instant + fromNanos (packetsToNanos (sequence - anchorSequence) rateBps)) now
      again
  | _ => some ({ anchor := some (.bytes now sequence) }, 0)

/-- The state and the hold for the batch at `position`; `none` when more than `depth` nested
calls are needed. -/
def hold (position : BatchPosition) (now : Instant) : Nat → Pacer → Option (Pacer × Duration)
  | 0, _ => none
  | depth + 1, self =>
    match position.ticks with
    | some ticks => self.holdPcr ticks now (hold position now depth)
    | none =>
      match position.byteRateBps.filter fun rate => decide (0 < rate) with
      | some rate => self.holdBytes position.sequence rate now (hold position now depth)
      -- No clock source yet.
      | none => some ({ anchor := none }, 0)

/-- The calls of one viewer in turn; `none` when one of them needs more than `depth` nested
calls. -/
def steps (depth : Nat) (self : Pacer) : List (BatchPosition × Instant) → Option (List Step)
  | [] => some []
  | (position, now) :: rest =>
    (hold position now depth self).bind fun result =>
      (steps depth result.1 rest).map fun later =>
        { before := self, position, now, after := result.1, held := result.2 } :: later

end Pacer

/-! ## The media time since the anchor -/

def Anchor.instant : Anchor → Instant
  | .pcr instant _ => instant
  | .bytes instant _ => instant

/-- The media time between the anchor and the batch, by the clock of the anchor. -/
def Anchor.mediaTo (anchor : Anchor) (position : BatchPosition) : Option Nat :=
  match anchor with
  | .pcr _ anchorTicks => position.ticks.map fun ticks => ticksToNanos (ticks - anchorTicks)
  | .bytes _ anchorSequence =>
    if position.ticks = none then
      (position.byteRateBps.filter fun rate => decide (0 < rate)).map fun rate =>
        packetsToNanos (position.sequence - anchorSequence) rate
    else none

namespace Step

/-- When the batch is released. -/
def release (self : Step) : Instant := self.now + self.held

def Reanchors (self : Step) : Prop := self.after.anchor ≠ self.before.anchor

/-- What one call does: an anchor is a new one of this batch, or the old one; the batch is
released when its media time is due, or at once when it is late. -/
structure Paced (step : Step) : Prop where
  bounded : step.held ≤ maxHold
  unanchored : step.after.anchor = none → step.held = 0
  fresh : ∀ anchor, step.after.anchor = some anchor → step.Reanchors →
    anchor.instant = step.now ∧ step.held = 0
  due : ∀ anchor, step.after.anchor = some anchor →
    ∃ media, anchor.mediaTo step.position = some media ∧
      anchor.instant + fromNanos media ≤ step.release ∧
      (step.held ≠ 0 → step.release = anchor.instant + fromNanos media)

end Step

/-! ## One call -/

/-- The anchor that a batch makes of itself. -/
def anchorAt (position : BatchPosition) (now : Instant) : Option Anchor :=
  match position.ticks with
  | some ticks => some (.pcr now ticks)
  | none => (position.byteRateBps.filter fun rate => decide (0 < rate)).map fun _ =>
      .bytes now position.sequence

theorem anchorAt_eq {position : BatchPosition} {now : Instant} {anchor : Anchor}
    (h : anchorAt position now = some anchor) :
    anchor.instant = now ∧ anchor.mediaTo position = some 0 := by
  unfold anchorAt at h
  split at h
  · rename_i ticks hticks
    cases h
    exact ⟨rfl, by simp [Anchor.mediaTo, hticks, ticksToNanos]⟩
  · rename_i hticks
    obtain ⟨rate, hrate, rfl⟩ := Option.map_eq_some_iff.mp h
    exact ⟨rfl, by simp [Anchor.mediaTo, hticks, hrate, packetsToNanos]⟩

/-- Releasing a batch at once with its own anchor. -/
theorem anchored_paced (self : Pacer) (position : BatchPosition) (now : Instant) :
    Step.Paced ⟨self, position, now, { anchor := anchorAt position now }, 0⟩ := by
  refine ⟨Nat.zero_le _, fun _ => rfl, fun anchor hanchor _ => ?_, fun anchor hanchor => ?_⟩
  · exact ⟨(anchorAt_eq hanchor).1, rfl⟩
  · obtain ⟨hinstant, hmedia⟩ := anchorAt_eq hanchor
    refine ⟨0, hmedia, ?_, fun h => absurd rfl h⟩
    rw [hinstant]
    exact le_rfl

/-- Holding a batch until its media time is due keeps the anchor. -/
theorem held_paced {anchor : Anchor} {position : BatchPosition} {media : Nat} {now : Instant}
    (hmedia : anchor.mediaTo position = some media)
    (hbound : anchor.instant + fromNanos media - now ≤ maxHold) :
    Step.Paced ⟨{ anchor := some anchor }, position, now, { anchor := some anchor },
      anchor.instant + fromNanos media - now⟩ := by
  refine ⟨hbound, fun h => absurd h (by simp), fun _ _ h => absurd rfl h, fun other hother => ?_⟩
  cases hother
  exact ⟨media, hmedia, le_add_tsub,
    fun hheld => Nat.add_sub_of_le (Nat.lt_of_sub_ne_zero hheld).le⟩

theorem hold_ticks {position : BatchPosition} {ticks : Nat} (h : position.ticks = some ticks)
    (now : Instant) (depth : Nat) (self : Pacer) :
    self.hold position now (depth + 1) =
      self.holdPcr ticks now (Pacer.hold position now depth) := by
  rw [Pacer.hold, h]

theorem hold_rate {position : BatchPosition} {rate : Nat} (h : position.ticks = none)
    (hrate : (position.byteRateBps.filter fun rate => decide (0 < rate)) = some rate)
    (now : Instant) (depth : Nat) (self : Pacer) :
    self.hold position now (depth + 1) =
      self.holdBytes position.sequence rate now (Pacer.hold position now depth) := by
  rw [Pacer.hold, h]
  dsimp only
  rw [hrate]

/-- A call without an anchor does not call itself again. -/
theorem hold_unanchored (position : BatchPosition) (now : Instant) (depth : Nat) :
    Pacer.hold position now (depth + 1) { anchor := none } =
      some ({ anchor := anchorAt position now }, 0) := by
  unfold Pacer.hold anchorAt
  cases position.ticks with
  | some ticks => rfl
  | none => cases position.byteRateBps.filter fun rate => decide (0 < rate) <;> rfl

/-- A batch whose hold would be too long is anchored by one further call. -/
theorem holdUntil_paced {anchor : Anchor} {position : BatchPosition} {media : Nat}
    (now : Instant) (hmedia : anchor.mediaTo position = some media) :
    ∃ after held, (∀ depth, Pacer.holdUntil { anchor := some anchor }
        (anchor.instant + fromNanos media) now (Pacer.hold position now (depth + 1)) =
          some (after, held)) ∧
      Step.Paced ⟨{ anchor := some anchor }, position, now, after, held⟩ := by
  by_cases hlong : anchor.instant + fromNanos media - now > maxHold
  · refine ⟨_, _, fun depth => ?_, anchored_paced _ position now⟩
    rw [Pacer.holdUntil, if_pos hlong, hold_unanchored]
  · exact ⟨_, _, fun _ => if_neg hlong, held_paced hmedia (Nat.not_lt.mp hlong)⟩

/-- Two nested calls are enough, and what they do is paced. -/
theorem hold_paced (position : BatchPosition) (now : Instant) (self : Pacer) :
    ∃ after held, (∀ depth, self.hold position now (depth + 2) = some (after, held)) ∧
      Step.Paced ⟨self, position, now, after, held⟩ := by
  have hown := anchored_paced self position now
  obtain ⟨anchor⟩ := self
  cases hticks : position.ticks with
  | some ticks =>
    have hat : anchorAt position now = some (.pcr now ticks) := by simp [anchorAt, hticks]
    rw [hat] at hown
    simp only [hold_ticks hticks]
    cases anchor with
    | none => exact ⟨_, _, fun _ => rfl, hown⟩
    | some anchor =>
      cases anchor with
      | bytes instant sequence => exact ⟨_, _, fun _ => rfl, hown⟩
      | pcr instant anchorTicks =>
        have hmedia : (Anchor.pcr instant anchorTicks).mediaTo position =
            some (ticksToNanos (ticks - anchorTicks)) := by simp [Anchor.mediaTo, hticks]
        obtain ⟨after, held, hrun, hpaced⟩ := holdUntil_paced now hmedia
        exact ⟨after, held, hrun, hpaced⟩
  | none =>
    cases hrate : position.byteRateBps.filter fun rate => decide (0 < rate) with
    | none =>
      have hat : anchorAt position now = none := by simp [anchorAt, hticks, hrate]
      rw [hat] at hown
      simp only [Pacer.hold, hticks, hrate]
      exact ⟨_, _, fun _ => rfl, hown⟩
    | some rate =>
      have hat : anchorAt position now = some (.bytes now position.sequence) := by
        simp [anchorAt, hticks, hrate]
      rw [hat] at hown
      simp only [hold_rate hticks hrate]
      cases anchor with
      | none => exact ⟨_, _, fun _ => rfl, hown⟩
      | some anchor =>
        cases anchor with
        | pcr instant anchorTicks => exact ⟨_, _, fun _ => rfl, hown⟩
        | bytes instant anchorSequence =>
          have hmedia : (Anchor.bytes instant anchorSequence).mediaTo position =
              some (packetsToNanos (position.sequence - anchorSequence) rate) := by
            simp [Anchor.mediaTo, hticks, hrate]
          obtain ⟨after, held, hrun, hpaced⟩ := holdUntil_paced now hmedia
          exact ⟨after, held, hrun, hpaced⟩

/-! ## All calls of a viewer -/

/-- Each call begins with the state that the one before it left. -/
def Linked : Pacer → List Step → Prop
  | _, [] => True
  | self, step :: rest => step.before = self ∧ Linked step.after rest

theorem steps_paced (self : Pacer) (calls : List (BatchPosition × Instant)) :
    ∃ steps, (∀ depth, self.steps (depth + 2) calls = some steps) ∧
      steps.map (fun step => (step.position, step.now)) = calls ∧
      (∀ step ∈ steps, step.Paced) ∧ Linked self steps := by
  induction calls generalizing self with
  | nil => exact ⟨[], fun _ => rfl, rfl, by simp, trivial⟩
  | cons call rest ih =>
    obtain ⟨position, now⟩ := call
    obtain ⟨after, held, hrun, hpaced⟩ := hold_paced position now self
    obtain ⟨steps, hsteps, hcalls, hall, hlinked⟩ := ih after
    refine ⟨⟨self, position, now, after, held⟩ :: steps, fun depth => ?_, ?_, ?_, rfl, hlinked⟩
    · rw [Pacer.steps, hrun, Option.bind_some, hsteps]
      rfl
    · rw [List.map_cons, hcalls]
    · exact List.forall_mem_cons.mpr ⟨hpaced, hall⟩

theorem Linked.suffix {self : Pacer} {before rest : List Step} (h : Linked self (before ++ rest)) :
    ∃ mid, Linked mid rest := by
  induction before generalizing self with
  | nil => exact ⟨self, h⟩
  | cons step before ih => exact ih h.2

/-- Calls that do not re-anchor keep the anchor. -/
theorem Linked.anchor_eq {self : Pacer} {segment later : List Step}
    (h : Linked self (segment ++ later)) (hkept : ∀ step ∈ segment, ¬ step.Reanchors) :
    ∀ step ∈ segment, step.after.anchor = self.anchor := by
  induction segment generalizing self with
  | nil => exact fun _ hmem => absurd hmem List.not_mem_nil
  | cons head segment ih =>
    obtain ⟨hbefore, hrest⟩ := h
    obtain ⟨hhead, htail⟩ := List.forall_mem_cons.mp hkept
    have hsame : head.after.anchor = self.anchor := by
      rw [← hbefore]
      exact not_not.mp hhead
    refine List.forall_mem_cons.mpr ⟨hsame, fun step hmem => ?_⟩
    rw [ih hrest htail step hmem, hsame]

theorem fromNanos_eq_zero {nanos : Nat} (h : fromNanos nanos = 0) : nanos = 0 := by
  have hmin : min nanos (2 ^ 64 - 1) = 0 := h
  omega

/-- A batch that sets an anchor is its zero point: it is released at once. -/
theorem Step.Paced.anchors {step : Step} (h : step.Paced) (hre : step.Reanchors) {anchor : Anchor}
    (hanchor : step.after.anchor = some anchor) :
    anchor.instant = step.release ∧ anchor.mediaTo step.position = some 0 := by
  obtain ⟨hinstant, hheld⟩ := h.fresh anchor hanchor hre
  obtain ⟨media, hmedia, hdue, _⟩ := h.due anchor hanchor
  have hrelease : step.release = step.now := by rw [Step.release, hheld, Nat.add_zero]
  rw [hrelease, hinstant] at hdue
  have hzero : media = 0 := fromNanos_eq_zero (Nat.le_zero.mp (Nat.le_of_add_le_add_left hdue))
  exact ⟨by rw [hinstant, hrelease], by rw [hmedia, hzero]⟩

/-- For any calls of a viewer at any times: every call returns within two nested calls and holds
for at most five seconds; a batch that is held is released at the anchor's instant plus the media
time since the anchor; and after a batch that sets an anchor no batch is released earlier than its
media time behind that one, until the next call that re-anchors. -/
theorem paced_calls (self : Pacer) (calls : List (BatchPosition × Instant)) :
    ∃ steps, (∀ depth, 2 ≤ depth → self.steps depth calls = some steps) ∧
      steps.map (fun step => (step.position, step.now)) = calls ∧
      (∀ step ∈ steps, step.held ≤ maxHold ∧ (step.held ≠ 0 →
        ∃ anchor media, step.after.anchor = some anchor ∧
          anchor.mediaTo step.position = some media ∧
          step.now + step.held = anchor.instant + fromNanos media)) ∧
      ∀ before first segment later anchor, steps = before ++ first :: (segment ++ later) →
        first.Reanchors → first.after.anchor = some anchor →
        (∀ step ∈ segment, ¬ step.Reanchors) →
        anchor.mediaTo first.position = some 0 ∧
          ∀ step ∈ segment, ∃ media, anchor.mediaTo step.position = some media ∧
            first.release + fromNanos media ≤ step.release := by
  obtain ⟨steps, hsteps, hcalls, hpaced, hlinked⟩ := steps_paced self calls
  refine ⟨steps, fun depth hdepth => ?_, hcalls, fun step hstep => ?_, ?_⟩
  · rw [← Nat.sub_add_cancel hdepth]
    exact hsteps _
  · have h := hpaced step hstep
    refine ⟨h.bounded, fun hheld => ?_⟩
    cases hanchor : step.after.anchor with
    | none => exact absurd (h.unanchored hanchor) hheld
    | some anchor =>
      obtain ⟨media, hmedia, _, hexact⟩ := h.due anchor hanchor
      exact ⟨anchor, media, rfl, hmedia, hexact hheld⟩
  · rintro before first segment later anchor rfl hre hanchor hkept
    have hfirst := hpaced first (by simp)
    obtain ⟨hinstant, hzero⟩ := hfirst.anchors hre hanchor
    obtain ⟨mid, hmid⟩ := hlinked.suffix
    refine ⟨hzero, fun step hstep => ?_⟩
    have hsame := hmid.2.anchor_eq hkept step hstep
    rw [hanchor] at hsame
    obtain ⟨media, hmedia, hdue, _⟩ := (hpaced step (by simp [hstep])).due anchor hsame
    exact ⟨media, hmedia, hinstant ▸ hdue⟩

/-- The media time is a `Duration`: a batch 2^64 - 1 ticks behind its anchor is due after
2^64 - 1 nanoseconds. -/
theorem saturated_media : ∃ steps step anchor media,
    Pacer.steps 2 {} [(⟨0, some 0, none⟩, 0), (⟨1, some (2 ^ 64 - 1), none⟩, 2 ^ 64 - 2)] =
      some steps ∧
    step ∈ steps ∧ step.held ≠ 0 ∧ step.after.anchor = some anchor ∧
    anchor.mediaTo step.position = some media ∧
    step.now + step.held ≠ anchor.instant + media := by
  refine ⟨[⟨{}, ⟨0, some 0, none⟩, 0, { anchor := some (.pcr 0 0) }, 0⟩,
    ⟨{ anchor := some (.pcr 0 0) }, ⟨1, some (2 ^ 64 - 1), none⟩, 2 ^ 64 - 2,
      { anchor := some (.pcr 0 0) }, 1⟩], _, .pcr 0 0, ticksToNanos (2 ^ 64 - 1), ?_,
    List.mem_cons_of_mem _ List.mem_cons_self, ?_, rfl, rfl, ?_⟩
  · decide +kernel
  · decide
  · decide +kernel

end IptvRelay.Media.Pacing
