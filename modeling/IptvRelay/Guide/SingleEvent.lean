import IptvRelay.Guide.EventPlans
import IptvRelay.Guide.Schedule

/-!
# The guide of a single event

The guide that is built for one event and the schedule of this event alone publish the same
programmes. The schedule has no source titles in its fillers.
-/

namespace IptvRelay.Guide

open Checked

/-- What both functions say about a programme. -/
structure Published where
  startsAt : Int
  stopsAt : Int
  kind : GeneratedProgrammeKind
  title : String
  stableEventKey : Option String
  deriving DecidableEq, Repr

def GeneratedProgramme.published (programme : GeneratedProgramme) : Published where
  startsAt := programme.startsAt
  stopsAt := programme.stopsAt
  kind := programme.kind
  title := programme.title
  stableEventKey := programme.stableEventKey

variable {locale : Locale} {matched : MatchedEvent} {sourceTitle : String}
  {windowStart windowEnd : Int}

/-- The schedule of one event, by the cases of the guide. -/
theorem generateEventSchedule_single (fillerTitle : String) (hwindow : windowStart < windowEnd) :
    generateEventSchedule locale [⟨matched, sourceTitle⟩] windowStart windowEnd fillerTitle =
      (buildEventProgramme locale matched sourceTitle).map fun event =>
        scheduleFrom windowStart windowEnd fillerTitle windowStart [event] := by
  unfold generateEventSchedule buildEvents
  rw [ensure_bind hwindow]
  simp only [List.mapM_cons, List.mapM_nil]
  cases buildEventProgramme locale matched sourceTitle with
  | error error => rfl
  | ok event => rfl

/-- An event in the window stands between the fillers that it leaves room for. -/
theorem scheduleFrom_single {event : GeneratedProgramme} (fillerTitle : String)
    (hmeets : Intersects windowStart windowEnd event) :
    scheduleFrom windowStart windowEnd fillerTitle windowStart [event] =
      (if windowStart < (event.clip windowStart windowEnd).startsAt then
        [filler windowStart (event.clip windowStart windowEnd).startsAt fillerTitle ""] else []) ++
      event.clip windowStart windowEnd ::
        (if (event.clip windowStart windowEnd).stopsAt < windowEnd then
          [filler (event.clip windowStart windowEnd).stopsAt windowEnd fillerTitle ""] else []) := by
  obtain ⟨hstart, hstop⟩ := hmeets
  rw [scheduleFrom, if_neg (by omega)]
  dsimp only
  have hfree : ¬(event.clip windowStart windowEnd).startsAt < windowStart :=
    not_lt.mpr (le_max_right _ _)
  rw [if_neg hfree, scheduleFrom]

theorem scheduleFrom_outside {event : GeneratedProgramme} (fillerTitle : String)
    (hwindow : windowStart < windowEnd) (houtside : ¬Intersects windowStart windowEnd event) :
    scheduleFrom windowStart windowEnd fillerTitle windowStart [event] =
      [filler windowStart windowEnd fillerTitle ""] := by
  unfold Intersects at houtside
  rw [scheduleFrom, if_pos (by omega), scheduleFrom, if_pos hwindow]

/-- Both functions fail with the same error, or publish the same programmes in the same order. -/
theorem guide_agrees_with_schedule (locale : Locale) (matched : MatchedEvent) (sourceTitle : String)
    (windowStart windowEnd : Int) :
    (generateEventGuide locale matched sourceTitle windowStart windowEnd).map
        (List.map GeneratedProgramme.published) =
      (generateEventSchedule locale [⟨matched, sourceTitle⟩] windowStart windowEnd
        matched.rule.guide.fillerTitle).map (List.map GeneratedProgramme.published) := by
  by_cases hwindow : windowStart < windowEnd
  · rw [generateEventSchedule_single _ hwindow]
    unfold generateEventGuide
    rw [ensure_bind hwindow]
    cases hbuild : buildEventProgramme locale matched sourceTitle with
    | error error => rfl
    | ok event =>
      rw [ok_bind]
      dsimp only
      have hlength := (buildEventProgramme_ok hbuild).1
      by_cases hmeets : Intersects windowStart windowEnd event
      · obtain ⟨hstart, hstop⟩ := hmeets
        have hshown : (event.clip windowStart windowEnd).startsAt <
            (event.clip windowStart windowEnd).stopsAt :=
          max_lt (lt_min hlength hstart) (lt_min hstop hwindow)
        have hrest : max (event.clip windowStart windowEnd).stopsAt windowStart =
            (event.clip windowStart windowEnd).stopsAt :=
          max_eq_left ((le_max_right _ _).trans hshown.le)
        rw [if_neg (by omega), if_pos hshown, hrest]
        refine congrArg Except.ok ?_
        dsimp only
        rw [scheduleFrom_single _ ⟨hstart, hstop⟩]
        simp only [List.map_append, List.map_cons, List.append_assoc]
        refine congrArg₂ _ ?_ (congrArg₂ _ rfl ?_)
        · split <;> rfl
        · split <;> rfl
      · have houtside : event.stopsAt ≤ windowStart ∨ windowEnd ≤ event.startsAt := by
          unfold Intersects at hmeets
          omega
        rw [if_pos houtside]
        refine congrArg Except.ok ?_
        dsimp only
        rw [scheduleFrom_outside _ hwindow hmeets]
        rfl
  · unfold generateEventGuide generateEventSchedule ensure
    rw [if_neg hwindow]
    rfl

end IptvRelay.Guide
