import IptvRelay.Guide.Schedule

/-!
# Durations of events

A number of seconds becomes a `Duration` when it is at most `i64::MAX / 1000`, and an error when
it is no `i64`. In between the conversion panics. This is the only way in which building a
programme panics, and a programme that is built has exactly the interval of its durations.
-/

namespace IptvRelay.Guide

open Checked

/-- An `i64` that no `Duration` of seconds can be. -/
def BetweenLimits (seconds : Nat) : Prop :=
  (Nat.pow 2 63 - 1) / 1000 < seconds ∧ seconds < Nat.pow 2 63

instance (seconds : Nat) : Decidable (BetweenLimits seconds) := inferInstanceAs (Decidable (_ ∧ _))

theorem signedSeconds_panicked_iff {seconds : Nat} :
    signedSeconds seconds = .error .panicked ↔ BetweenLimits seconds := by
  unfold signedSeconds BetweenLimits
  by_cases hlarge : seconds < Nat.pow 2 63
  · rw [ensure_bind hlarge]
    by_cases hlong : seconds ≤ (Nat.pow 2 63 - 1) / 1000
    · rw [ensure_bind hlong]
      exact ⟨(by cases ·), fun h => absurd h.1 (not_lt.mpr hlong)⟩
    · rw [ensure, if_neg hlong]
      exact ⟨fun _ => ⟨not_le.mp hlong, hlarge⟩, fun _ => rfl⟩
  · rw [ensure, if_neg hlarge]
    exact ⟨(by cases ·), fun h => absurd h.2 hlarge⟩

/-- The conversion succeeds, overflows or panics. -/
theorem signedSeconds_cases (seconds : Nat) :
    (seconds ≤ (Nat.pow 2 63 - 1) / 1000 ∧ signedSeconds seconds = .ok (seconds * 1000000000)) ∨
    (Nat.pow 2 63 ≤ seconds ∧ signedSeconds seconds = .error .dateOverflow) ∨
    (BetweenLimits seconds ∧ signedSeconds seconds = .error .panicked) := by
  by_cases hbetween : BetweenLimits seconds
  · exact .inr (.inr ⟨hbetween, signedSeconds_panicked_iff.mpr hbetween⟩)
  unfold signedSeconds
  by_cases hlarge : seconds < Nat.pow 2 63
  · have hlong : seconds ≤ (Nat.pow 2 63 - 1) / 1000 :=
      not_lt.mp fun hlong => hbetween ⟨hlong, hlarge⟩
    rw [ensure_bind hlarge, ensure_bind hlong]
    exact .inl ⟨hlong, rfl⟩
  · rw [ensure, if_neg hlarge]
    exact .inr (.inl ⟨not_lt.mp hlarge, rfl⟩)

/-! ## Parts that do not panic -/

theorem durationSeconds_ne_panicked (event : MatchedEvent) :
    event.durationSeconds ≠ .error .panicked := by
  unfold MatchedEvent.durationSeconds
  split
  · unfold parseSeconds
    split <;> exact nofun
  · unfold parseDuration
    dsimp only
    split <;> exact nofun
  · exact nofun

theorem bind_ne_panicked {α β : Type} {first : Except EventGuideError α}
    {next : α → Except EventGuideError β} (hfirst : first ≠ .error .panicked) :
    (first >>= next) ≠ .error .panicked ↔ ∀ a, first = .ok a → next a ≠ .error .panicked := by
  cases first with
  | error error => exact ⟨fun _ _ => nofun, fun _ h => hfirst (congrArg Except.error (Except.error.inj h))⟩
  | ok a => exact ⟨fun h _ ha => Except.ok.inj ha ▸ h, fun h => h a rfl⟩

theorem ensure_return_ne_panicked {α : Type} {check : Prop} [Decidable check]
    {error : EventGuideError} (h : error ≠ .panicked) (a : α) :
    (do ensure check error; return a) ≠ Except.error EventGuideError.panicked := by
  refine (bind_ne_panicked fun hpanic => h (error_of_ensure hpanic).2).mpr fun _ _ => ?_
  exact nofun

theorem eventDurationSeconds_ne_panicked (event : MatchedEvent) :
    eventDurationSeconds event ≠ .error .panicked := by
  refine (bind_ne_panicked (durationSeconds_ne_panicked event)).mpr fun duration _ => ?_
  exact ensure_return_ne_panicked (by decide) duration

theorem checked_ne_panicked (locale : Locale) (time : Int) :
    locale.checked time ≠ .error .panicked :=
  ensure_return_ne_panicked (by decide) time

theorem renderFrom_ne_panicked (value : String → Option String) (field : Option (List Char))
    (text : List Char) : renderFrom value field text ≠ .error .panicked := by
  induction text generalizing field with
  | nil =>
    unfold renderFrom
    split <;> exact nofun
  | cons c text ih =>
    unfold renderFrom
    split
    · split
      · exact ih _
      · exact (bind_ne_panicked (ih _)).mpr fun _ _ => nofun
    · split
      · split
        · exact nofun
        · exact (bind_ne_panicked (ih _)).mpr fun _ _ => nofun
      · exact ih _

theorem renderTemplate_ne_panicked (template sourceTitle : String)
    (captures : String → Option String) (event : String) :
    renderTemplate template sourceTitle captures event ≠ .error .panicked :=
  (bind_ne_panicked (renderFrom_ne_panicked _ _ _)).mpr fun _ _ => nofun

theorem renderMatchedEventTitle_ne_panicked (event : MatchedEvent) (sourceTitle template : String) :
    renderMatchedEventTitle event sourceTitle template ≠ .error .panicked := by
  refine (bind_ne_panicked (renderTemplate_ne_panicked _ _ _ _)).mpr fun rendered _ => ?_
  split
  · refine (bind_ne_panicked (renderTemplate_ne_panicked _ _ _ _)).mpr fun title _ => ?_
    exact renderTemplate_ne_panicked _ _ _ _
  · exact nofun

/-! ## The programme -/

/-- No panic, and a programme from the start less the pre-roll to the start with the duration and
the post-roll. -/
def BuiltExactly (event : MatchedEvent)
    (result : Except EventGuideError GeneratedProgramme) : Prop :=
  result ≠ .error .panicked ∧ ∀ programme, result = .ok programme →
    programme.startsAt < programme.stopsAt ∧
    ∃ startsAt duration, event.startsAt = some startsAt ∧
      eventDurationSeconds event = .ok duration ∧
      programme.startsAt = startsAt - event.rule.lifecycle.preRollSeconds * 1000000000 ∧
      programme.stopsAt = startsAt + duration * 1000000000 +
        event.rule.lifecycle.postRollSeconds * 1000000000

/-- Of the pre-roll, the duration and the post-roll, which are converted in this order, the first
one that is too long for a `Duration` is no `i64` either. -/
def ConvertibleDurations (event : MatchedEvent) : Prop :=
  ¬BetweenLimits event.rule.lifecycle.preRollSeconds ∧
    (event.rule.lifecycle.preRollSeconds < Nat.pow 2 63 →
      ∀ duration, eventDurationSeconds event = .ok duration →
        ¬BetweenLimits duration ∧
          (duration < Nat.pow 2 63 → ¬BetweenLimits event.rule.lifecycle.postRollSeconds))

variable {locale : Locale} {event : MatchedEvent} {sourceTitle : String}

theorem buildEventProgramme_exact {programme : GeneratedProgramme}
    (h : buildEventProgramme locale event sourceTitle = .ok programme) :
    ∃ startsAt duration, event.startsAt = some startsAt ∧
      eventDurationSeconds event = .ok duration ∧
      programme.startsAt = startsAt - event.rule.lifecycle.preRollSeconds * 1000000000 ∧
      programme.stopsAt = startsAt + duration * 1000000000 +
        event.rule.lifecycle.postRollSeconds * 1000000000 := by
  obtain ⟨startsAt, hstartsAt, h⟩ := of_bind h
  obtain ⟨preRoll, hpre, h⟩ := of_bind h
  obtain ⟨seconds, hseconds, h⟩ := of_bind h
  obtain ⟨duration, hduration, h⟩ := of_bind h
  obtain ⟨postRoll, hpost, h⟩ := of_bind h
  obtain ⟨eventStart, hstart, h⟩ := of_bind h
  obtain ⟨middle, hmiddle, h⟩ := of_bind h
  obtain ⟨eventEnd, hend, h⟩ := of_bind h
  obtain ⟨title, _, h⟩ := of_bind h
  obtain rfl := of_pure h
  have hsome : event.startsAt = some startsAt := by
    unfold MatchedEvent.start at hstartsAt
    split at hstartsAt
    · rename_i hsome
      rw [hsome, Except.ok.inj hstartsAt]
    · cases hstartsAt
  refine ⟨startsAt, seconds, hsome, hseconds, ?_, ?_⟩
  · rw [Locale.checked_ok hstart, signedSeconds_ok hpre]
  · rw [Locale.checked_ok hend, Locale.checked_ok hmiddle, signedSeconds_ok hduration,
      signedSeconds_ok hpost]

/-- A conversion and what follows do not panic. -/
theorem signedSeconds_bind_ne_panicked_iff {β : Type} {seconds : Nat}
    {next : Int → Except EventGuideError β} :
    (signedSeconds seconds >>= next) ≠ .error .panicked ↔
      ¬BetweenLimits seconds ∧
        (seconds < Nat.pow 2 63 → next (seconds * 1000000000) ≠ .error .panicked) := by
  rcases signedSeconds_cases seconds with ⟨hfits, hsigned⟩ | ⟨hlarge, hsigned⟩ | ⟨hbetween, hsigned⟩
  · have hsmall : seconds < Nat.pow 2 63 := hfits.trans_lt (by decide)
    rw [hsigned, ok_bind]
    exact ⟨fun h => ⟨fun hbetween => not_lt.mpr hfits hbetween.1, fun _ => h⟩, fun h => h.2 hsmall⟩
  · rw [hsigned]
    refine ⟨fun _ => ⟨fun hbetween => ?_, fun hsmall => ?_⟩, fun _ => nofun⟩
    · exact not_lt.mpr hlarge hbetween.2
    · exact absurd hsmall (not_lt.mpr hlarge)
  · rw [hsigned]
    exact ⟨fun h => absurd rfl h, fun h => absurd hbetween h.1⟩

/-- Building panics in a conversion, or not at all. -/
theorem buildEventProgramme_ne_panicked_iff :
    buildEventProgramme locale event sourceTitle ≠ .error .panicked ↔
      (event.startsAt.isSome → ConvertibleDurations event) := by
  unfold buildEventProgramme MatchedEvent.start ConvertibleDurations
  cases hstart : event.startsAt with
  | none => simp [bind, Except.bind]
  | some startsAt =>
    simp only [Option.isSome_some, forall_const, ok_bind]
    rw [signedSeconds_bind_ne_panicked_iff]
    refine and_congr_right fun _ => imp_congr_right fun _ => ?_
    rw [bind_ne_panicked (eventDurationSeconds_ne_panicked event)]
    refine forall_congr' fun seconds => imp_congr_right fun _ => ?_
    rw [signedSeconds_bind_ne_panicked_iff]
    refine and_congr_right fun _ => imp_congr_right fun _ => ?_
    rw [signedSeconds_bind_ne_panicked_iff]
    -- behind the conversions nothing panics
    refine and_iff_left fun _ => ?_
    refine (bind_ne_panicked (checked_ne_panicked locale _)).mpr fun eventStart _ => ?_
    refine (bind_ne_panicked (checked_ne_panicked locale _)).mpr fun middle _ => ?_
    refine (bind_ne_panicked (checked_ne_panicked locale _)).mpr fun eventEnd _ => ?_
    refine (bind_ne_panicked (renderMatchedEventTitle_ne_panicked _ _ _)).mpr fun title _ => ?_
    exact nofun

/-- The programme is built exactly unless a duration that is reached lies between the limits. -/
theorem event_built_exactly_iff (locale : Locale) (event : MatchedEvent) (sourceTitle : String) :
    BuiltExactly event (buildEventProgramme locale event sourceTitle) ↔
      (event.startsAt.isSome → ConvertibleDurations event) := by
  unfold BuiltExactly
  rw [buildEventProgramme_ne_panicked_iff]
  refine and_iff_left fun programme hbuilt => ?_
  exact ⟨(buildEventProgramme_ok hbuilt).1, buildEventProgramme_exact hbuilt⟩

/-- A stream name that tells a duration of sixteen digits. -/
def endlessEvent : MatchedEvent where
  rule := { guide := ⟨3600, "Stand by", "\x7bsource\x7d"⟩ }
  startsAt := some 0
  captures name := if name = "duration" then some "9999999999999999 s" else none

theorem endless_event_panics :
    ¬BuiltExactly endlessEvent (buildEventProgramme epochLocale endlessEvent "Marathon") := by
  intro h
  have hdurations := buildEventProgramme_ne_panicked_iff.mp h.1 rfl
  have hseconds : eventDurationSeconds endlessEvent = .ok 9999999999999999 := by decide +kernel
  exact (hdurations.2 (by decide) _ hseconds).1 (by decide)

end IptvRelay.Guide
