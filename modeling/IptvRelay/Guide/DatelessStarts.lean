import IptvRelay.Guide.Dates

/-!
# Starts without a date

Model of `resolve_time_only_start` and `resolve_spelled_date_start`, and where the starts lie that
they return.
-/

namespace IptvRelay.Guide

open Checked

variable (env : DateEnv)

/-- `NaiveDate::succ_opt`. -/
def DateEnv.succOpt (date : Int) : Option Int :=
  if date + 1 < Calendar.newYear (env.maxYear + 1) then some (date + 1) else none

/-- `NaiveDate::from_ymd_opt`. -/
def DateEnv.fromYmdOpt (year : Int) (month day : Nat) : Option Int :=
  if env.minYear ≤ year ∧ year ≤ env.maxYear then Calendar.ofDate year month day else none

def timeOnlyLookbackHours : Int := 12

def resolveTimeOnlyStart (time : String) (reference : Int) (timezone : String) :
    Except EventDateError Int := do
  let clock ← parseClockTime time
  let tz ← env.tz timezone
  let date := dateOf (tz.localTime reference)
  let resolve := fun date => tz.resolve (env.naiveText (atTime date clock)) (atTime date clock)
  let today ← resolve date
  if today < reference - timeOnlyLookbackHours * hourNanoseconds then
    match env.succOpt date with
    | some tomorrow => resolve tomorrow
    | none => throw (.invalidDate (env.dateText date) "next local day")
  else return today

def months : List (List Char) :=
  ["january".toList, "february".toList, "march".toList, "april".toList, "may".toList,
    "june".toList, "july".toList, "august".toList, "september".toList, "october".toList,
    "november".toList, "december".toList]

/-- The number of a month by the beginning of its name. -/
def monthNumber (month : String) : Option Nat :=
  let lowered := Text.asciiLowercase month.toList
  (months.findIdx? fun name => 3 ≤ lowered.length ∧ lowered <+: name).map (· + 1)

/-- The year before a day, its own and the next. -/
def yearsAround (day : Int) : List Int :=
  [Calendar.yearOf day - 1, Calendar.yearOf day, Calendar.yearOf day + 1]

/-- The date of the years around that is nearest to the reference, the earlier of two. -/
def DateEnv.nearestDate (localReference : Int) (month day : Nat) : Option Int :=
  ((yearsAround localReference).filterMap fun year => env.fromYmdOpt year month day).argmin
    fun date => Calendar.distance date localReference

def resolveSpelledDateStart (month day time : String) (reference : Int) (timezone : String) :
    Except EventDateError Int := do
  let invalid := EventDateError.invalidDate (month ++ " " ++ day) "month day time"
  match monthNumber month with
  | none => throw invalid
  | some monthNumber =>
    match Text.parseUnsigned u32Bound day.toList with
    | none => throw invalid
    | some dayNumber =>
      let clock ← parseClockTime time
      let tz ← env.tz timezone
      match env.nearestDate (dateOf (tz.localTime reference)) monthNumber dayNumber with
      | none => throw invalid
      | some date => tz.resolve (env.naiveText (atTime date clock)) (atTime date clock)

/-! ## A start by its time -/

/-- A start at a time of the reference's day or the next one, and not long before the
reference. -/
structure TimeOnlyStart (zone : Zone) (clock reference start : Int) : Prop where
  time : timeOf (zone.localTime start) = clock
  date : dateOf (zone.localTime start) = dateOf (zone.localTime reference) ∨
    dateOf (zone.localTime start) = dateOf (zone.localTime reference) + 1
  recent : reference - timeOnlyLookbackHours * hourNanoseconds ≤ start

theorem DateEnv.of_succOpt {date tomorrow : Int} (h : env.succOpt date = some tomorrow) :
    tomorrow = date + 1 := by
  unfold DateEnv.succOpt at h
  split_ifs at h
  exact (Option.some.inj h).symm

/-- A local time of the next day comes behind the reference. -/
theorem lt_of_next_day {zone : Zone} (hzone : zone.InOrder) {reference date clock start : Int}
    (hclock : 0 ≤ clock ∧ clock < dayNanoseconds)
    (hdate : dateOf (zone.localTime reference) < date)
    (h : zone.fromLocal (atTime date clock) = .single start) : reference < start := by
  apply hzone.lt_of_single _ _ _ h
  apply lt_of_dateOf_lt
  rwa [dateOf_atTime hclock]

theorem resolveTimeOnlyStart_spec {time timezone : String} {reference start : Int}
    (hzones : ∀ name zone, env.zone name = some zone → zone.InOrder)
    (h : resolveTimeOnlyStart env time reference timezone = .ok start) :
    ∃ zone clock, env.zone timezone = some zone ∧ parseClockTime time = .ok clock ∧
      TimeOnlyStart zone clock reference start := by
  obtain ⟨clock, hclock, h⟩ := of_bind h
  obtain ⟨zone, hzone, h⟩ := of_bind h
  obtain ⟨today, htoday, h⟩ := of_bind h
  have hrange := parseClockTime_range hclock
  have hzone := env.of_tz hzone
  have horder := hzones _ _ hzone
  have htoday := Zone.of_resolve htoday
  refine ⟨zone, clock, hzone, hclock, ?_⟩
  split_ifs at h with hlate
  · split at h
    · next tomorrow hsucc =>
      obtain rfl := env.of_succOpt hsucc
      have htomorrow := Zone.of_resolve h
      have hlocal := horder.localTime_of_single _ _ htomorrow
      have hbehind := lt_of_next_day horder hrange (Int.lt_add_one_of_le le_rfl) htomorrow
      have hlookback : 0 ≤ timeOnlyLookbackHours * hourNanoseconds := by decide
      exact ⟨by rw [hlocal, timeOf_atTime hrange], .inr (by rw [hlocal, dateOf_atTime hrange]),
        by omega⟩
    · cases h
  · obtain rfl := of_pure h
    have hlocal := horder.localTime_of_single _ _ htoday
    exact ⟨by rw [hlocal, timeOf_atTime hrange], .inl (by rw [hlocal, dateOf_atTime hrange]),
      Int.not_lt.mp hlate⟩

/-! ## A start by month and day -/

/-- A start at a time of the date that is nearest to the reference. -/
structure SpelledStart (zone : Zone) (month day : Nat) (clock reference start : Int) : Prop where
  time : timeOf (zone.localTime start) = clock
  date : ∃ year ∈ yearsAround (dateOf (zone.localTime reference)),
    env.fromYmdOpt year month day = some (dateOf (zone.localTime start))
  nearest : ∀ year ∈ yearsAround (dateOf (zone.localTime reference)),
    ∀ date, env.fromYmdOpt year month day = some date →
      Calendar.distance (dateOf (zone.localTime start)) (dateOf (zone.localTime reference)) ≤
        Calendar.distance date (dateOf (zone.localTime reference))

theorem DateEnv.of_fromYmdOpt {year : Int} {month day : Nat} {date : Int}
    (h : env.fromYmdOpt year month day = some date) :
    Calendar.ofDate year month day = some date := by
  unfold DateEnv.fromYmdOpt at h
  split_ifs at h
  exact h

theorem DateEnv.nearestDate_mem {localReference date : Int} {month day : Nat}
    (h : env.nearestDate localReference month day = some date) :
    ∃ year ∈ yearsAround localReference, env.fromYmdOpt year month day = some date :=
  List.mem_filterMap.mp (List.argmin_mem h)

theorem DateEnv.nearestDate_le {localReference date : Int} {month day : Nat}
    (h : env.nearestDate localReference month day = some date) :
    ∀ year ∈ yearsAround localReference, ∀ other, env.fromYmdOpt year month day = some other →
      Calendar.distance date localReference ≤ Calendar.distance other localReference := by
  intro year hyear other hother
  have hmem : other ∈ (yearsAround localReference).filterMap fun year =>
      env.fromYmdOpt year month day := List.mem_filterMap.mpr ⟨year, hyear, hother⟩
  exact @List.le_of_mem_argmin _ _ _ (fun date => Calendar.distance date localReference) _ _ _
    hmem h

/-- Away from the 29th of February and the ends of the calendar, the nearest date is near. -/
theorem SpelledStart.near {env : DateEnv} {zone : Zone} {month day : Nat}
    {clock reference start : Int} (h : SpelledStart env zone month day clock reference start)
    (hleap : ¬(month = 2 ∧ day = 29))
    (hmin : env.minYear < Calendar.yearOf (dateOf (zone.localTime reference)))
    (hmax : Calendar.yearOf (dateOf (zone.localTime reference)) < env.maxYear) :
    Calendar.distance (dateOf (zone.localTime start))
      (dateOf (zone.localTime reference)) ≤ 183 := by
  obtain ⟨year, -, hdate⟩ := h.date
  obtain ⟨near, hnear, date, hdate, hdistance⟩ := Calendar.exists_near_date
    (dateOf (zone.localTime reference)) (env.of_fromYmdOpt hdate) hleap
  have hrange : env.minYear ≤ near ∧ near ≤ env.maxYear := by
    simp only [List.mem_cons, List.not_mem_nil, or_false] at hnear
    omega
  have hfound : env.fromYmdOpt near month day = some date := by
    rw [DateEnv.fromYmdOpt, if_pos hrange, hdate]
  exact (h.nearest near hnear date hfound).trans hdistance

theorem resolveSpelledDateStart_spec {month day time timezone : String} {reference start : Int}
    (hzones : ∀ name zone, env.zone name = some zone → zone.InOrder)
    (h : resolveSpelledDateStart env month day time reference timezone = .ok start) :
    ∃ zone clock monthOf dayOf, env.zone timezone = some zone ∧
      parseClockTime time = .ok clock ∧ monthNumber month = some monthOf ∧
      Text.parseUnsigned u32Bound day.toList = some dayOf ∧
      SpelledStart env zone monthOf dayOf clock reference start := by
  unfold resolveSpelledDateStart at h
  split at h
  · cases h
  · next monthOf hmonth =>
    split at h
    · cases h
    · next dayOf hday =>
      obtain ⟨clock, hclock, h⟩ := of_bind h
      obtain ⟨zone, hzone, h⟩ := of_bind h
      have hrange := parseClockTime_range hclock
      have hzone := env.of_tz hzone
      refine ⟨zone, clock, monthOf, dayOf, hzone, hclock, hmonth, hday, ?_⟩
      split at h
      · cases h
      · next date hdate =>
        have hlocal := (hzones _ _ hzone).localTime_of_single _ _ (Zone.of_resolve h)
        refine ⟨by rw [hlocal, timeOf_atTime hrange], ?_, ?_⟩ <;>
          rw [hlocal, dateOf_atTime hrange]
        · exact env.nearestDate_mem hdate
        · exact env.nearestDate_le hdate

/-! ## Names of months -/

/-! ## Both kinds of starts -/

/-- A start by its time is on the day of the reference or the next one and at most twelve hours
old. A start by month and day is on the date nearest to the reference. -/
theorem dateless_start_spec (env : DateEnv)
    (hzones : ∀ name zone, env.zone name = some zone → zone.InOrder)
    (time timezone : String) (reference start : Int) :
    (resolveTimeOnlyStart env time reference timezone = .ok start →
      ∃ zone clock, env.zone timezone = some zone ∧ parseClockTime time = .ok clock ∧
        TimeOnlyStart zone clock reference start) ∧
    ∀ month day, resolveSpelledDateStart env month day time reference timezone = .ok start →
      ∃ zone clock monthOf dayOf, env.zone timezone = some zone ∧
        parseClockTime time = .ok clock ∧ monthNumber month = some monthOf ∧
        Text.parseUnsigned u32Bound day.toList = some dayOf ∧
        SpelledStart env zone monthOf dayOf clock reference start ∧
        (¬(monthOf = 2 ∧ dayOf = 29) →
          env.minYear < Calendar.yearOf (dateOf (zone.localTime reference)) →
          Calendar.yearOf (dateOf (zone.localTime reference)) < env.maxYear →
          Calendar.distance (dateOf (zone.localTime start))
            (dateOf (zone.localTime reference)) ≤ 183) := by
  refine ⟨resolveTimeOnlyStart_spec env hzones, fun month day h => ?_⟩
  obtain ⟨zone, clock, monthOf, dayOf, hzone, hclock, hmonth, hday, hstart⟩ :=
    resolveSpelledDateStart_spec env hzones h
  exact ⟨zone, clock, monthOf, dayOf, hzone, hclock, hmonth, hday, hstart, hstart.near⟩

theorem utcZone_inOrder : utcZone.InOrder where
  localTime_of_single _ _ h := (LocalResult.single.inj h).symm
  lt_of_single _ _ _ h hlt := (LocalResult.single.inj h) ▸ hlt

/-- The calendar of `chrono` with one zone. -/
def utcDates : DateEnv where
  zone name := if name = "UTC" then some utcZone else none
  minYear := -262143
  maxYear := 262142
  naiveText := toString
  dateText := toString
  parseDateTime _ _ := none
  parseNaiveDateTime _ _ := none
  parseNaiveDate _ _ := none

theorem utcDates_inOrder (name : String) (zone : Zone) (h : utcDates.zone name = some zone) :
    zone.InOrder := by
  have hname : (if name = "UTC" then some utcZone else none) = some zone := h
  split_ifs at hname
  exact Option.some.inj hname ▸ utcZone_inOrder

/-- Noon of the 2nd of January, and half an hour after midnight, from the evening before the new year
of 2027. -/
theorem new_year_start :
    (resolveTimeOnlyStart utcDates "00:30" 1798750800000000000 "UTC" = .ok 1798763400000000000 ∧
      ∃ zone clock, utcDates.zone "UTC" = some zone ∧ parseClockTime "00:30" = .ok clock ∧
        TimeOnlyStart zone clock 1798750800000000000 1798763400000000000) ∧
    resolveSpelledDateStart utcDates "January" "2" "12:00" 1798750800000000000 "UTC" =
      .ok 1798891200000000000 ∧
    ∃ zone clock monthOf dayOf, utcDates.zone "UTC" = some zone ∧
      parseClockTime "12:00" = .ok clock ∧ monthNumber "January" = some monthOf ∧
      Text.parseUnsigned u32Bound "2".toList = some dayOf ∧
      SpelledStart utcDates zone monthOf dayOf clock 1798750800000000000 1798891200000000000 ∧
      (¬(monthOf = 2 ∧ dayOf = 29) →
        utcDates.minYear < Calendar.yearOf (dateOf (zone.localTime 1798750800000000000)) →
        Calendar.yearOf (dateOf (zone.localTime 1798750800000000000)) < utcDates.maxYear →
        Calendar.distance (dateOf (zone.localTime 1798891200000000000))
          (dateOf (zone.localTime 1798750800000000000)) ≤ 183) := by
  have htime : resolveTimeOnlyStart utcDates "00:30" 1798750800000000000 "UTC" =
      .ok 1798763400000000000 := by decide +kernel
  have hstart : resolveSpelledDateStart utcDates "January" "2" "12:00" 1798750800000000000 "UTC" =
      .ok 1798891200000000000 := by decide +kernel
  exact ⟨⟨htime, (dateless_start_spec utcDates utcDates_inOrder "00:30" "UTC" _ _).1 htime⟩,
    hstart, (dateless_start_spec utcDates utcDates_inOrder "12:00" "UTC" _ _).2 _ _ hstart⟩

/-- On the last day of the calendar the next new year is out of range. -/
theorem last_day_far :
    ¬∀ (month day time : String) (reference start : Int) (monthOf dayOf : Nat),
      resolveSpelledDateStart utcDates month day time reference "UTC" = .ok start →
      monthNumber month = some monthOf → Text.parseUnsigned u32Bound day.toList = some dayOf →
      ¬(monthOf = 2 ∧ dayOf = 29) →
      Calendar.distance (dateOf (utcZone.localTime start))
        (dateOf (utcZone.localTime reference)) ≤ 183 := by
  intro h
  have hfar := h "January" "1" "12:00" (atTime (Calendar.newYear 262143 - 1) 0)
    (atTime (Calendar.newYear 262142) (12 * hourNanoseconds)) 1 1 (by decide +kernel)
    (by decide +kernel) (by decide +kernel) (by decide)
  exact absurd hfar (by decide +kernel)

end IptvRelay.Guide
