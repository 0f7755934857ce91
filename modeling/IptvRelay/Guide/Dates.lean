import IptvRelay.Guide.EventPlans
import IptvRelay.Lib.Calendar

/-!
# Dates of events

Model of the reading of dates in `parsers/src/events.rs`. An instant and a local time are numbers
of nanoseconds. Time zones, the texts of dates and the reading of formats are parameters.
-/

namespace IptvRelay.Guide

open Checked

inductive EventDateError where
  | unknownTimezone (timezone : String)
  | invalidDate (value format : String)
  | ambiguousLocalTime (value timezone : String)
  | nonexistentLocalTime (value timezone : String)
  | invalidTime (value : String)
  deriving DecidableEq, Repr

/-- `LocalResult` of an instant. -/
inductive LocalResult where
  | single (instant : Int)
  | ambiguous
  | nonexistent
  deriving DecidableEq, Repr

/-- A time zone of `chrono-tz`. -/
structure Zone where
  name : String
  /-- The local time at an instant. -/
  localTime : Int → Int
  fromLocal : Int → LocalResult

/-- A local time that comes once names its instant, and instants with earlier local times are
earlier. -/
structure Zone.InOrder (zone : Zone) : Prop where
  localTime_of_single : ∀ naive instant, zone.fromLocal naive = .single instant →
    zone.localTime instant = naive
  lt_of_single : ∀ naive instant other, zone.fromLocal naive = .single instant →
    zone.localTime other < naive → other < instant

def utcZone : Zone where
  name := "UTC"
  localTime := id
  fromLocal := .single

/-- What the code takes from `chrono`. -/
structure DateEnv where
  zone : String → Option Zone
  minYear : Int
  maxYear : Int
  /-- `NaiveDateTime::to_string`. -/
  naiveText : Int → String
  /-- `NaiveDate::to_string`. -/
  dateText : Int → String
  /-- `DateTime::parse_from_str` of a value and a format. -/
  parseDateTime : String → String → Option Int
  parseNaiveDateTime : String → String → Option Int
  parseNaiveDate : String → String → Option Int

/-- The day of a local time. -/
def dateOf (naive : Int) : Int := naive / dayNanoseconds

/-- The time of day of a local time. -/
def timeOf (naive : Int) : Int := naive % dayNanoseconds

def atTime (date clock : Int) : Int := date * dayNanoseconds + clock

variable (env : DateEnv)

def DateEnv.tz (timezone : String) : Except EventDateError Zone :=
  match env.zone timezone with
  | some zone => .ok zone
  | none => .error (.unknownTimezone timezone)

/-- The instant of a local time, which is written as `value` in errors. -/
def Zone.resolve (zone : Zone) (value : String) (naive : Int) : Except EventDateError Int :=
  match zone.fromLocal naive with
  | .single instant => .ok instant
  | .ambiguous => .error (.ambiguousLocalTime value zone.name)
  | .nonexistent => .error (.nonexistentLocalTime value zone.name)

/-- The instant of a text: with an offset of its own, or else in the zone. -/
def parseEventLocalDatetime (value format timezone : String) : Except EventDateError Int :=
  match env.parseDateTime value format with
  | some instant => .ok instant
  | none =>
    match (env.parseNaiveDateTime value format).or
        ((env.parseNaiveDate value format).map fun date => atTime date 0) with
    | none => .error (.invalidDate value format)
    | some naive => do
      let timezone ← env.tz timezone
      timezone.resolve value naive

/-! ## Clock times -/

def stripSuffix (ending text : List Char) : Option (List Char) :=
  if ending <:+ text then some (text.take (text.length - ending.length)) else none

def u32Bound : Nat := Nat.pow 2 32

/-- `NaiveTime::from_hms_opt` without seconds. -/
def clockOf (hour minute : Nat) : Option Int :=
  if hour < 24 ∧ minute < 60 then some (hour * hourNanoseconds + minute * 60000000000) else none

/-- The digits, and whether the time is one after noon. -/
def splitMeridiem (normalized : List Char) : List Char × Option Bool :=
  match stripSuffix "am".toList normalized with
  | some rest => (rest, some false)
  | none =>
    match stripSuffix "pm".toList normalized with
    | some rest => (rest, some true)
    | none => (normalized, none)

/-- The texts of hour and minute. -/
def clockParts (digits : List Char) (meridiem : Option Bool) : Option (List Char × List Char) :=
  match Text.splitOnce ':' digits with
  | some parts => some parts
  | none => if meridiem.isSome then some (digits, ['0']) else none

/-- The hour of the day. -/
def clockHour (hour : Nat) : Option Bool → Option Nat
  | some pm => if 1 ≤ hour ∧ hour ≤ 12 then some (hour % 12 + if pm then 12 else 0) else none
  | none => some hour

/-- `parse_clock_time`, which has one error. -/
def clockTime (value : String) : Option Int := do
  let normalized := (Text.asciiLowercase (Text.trim value.toList)).filter (· ≠ ' ')
  let parts ← clockParts (splitMeridiem normalized).1 (splitMeridiem normalized).2
  let hour ← Text.parseUnsigned u32Bound parts.1
  let minute ← Text.parseUnsigned u32Bound parts.2
  let hour ← clockHour hour (splitMeridiem normalized).2
  clockOf hour minute

def parseClockTime (value : String) : Except EventDateError Int :=
  match clockTime value with
  | some clock => .ok clock
  | none => .error (.invalidTime value)

/-! ## Days and times -/

theorem dateOf_atTime {date clock : Int} (h : 0 ≤ clock ∧ clock < dayNanoseconds) :
    dateOf (atTime date clock) = date := by
  unfold dateOf atTime
  rw [Int.add_comm, Int.add_mul_ediv_right _ _ (by decide), Int.ediv_eq_zero_of_lt h.1 h.2,
    Int.zero_add]

theorem timeOf_atTime {date clock : Int} (h : 0 ≤ clock ∧ clock < dayNanoseconds) :
    timeOf (atTime date clock) = clock := by
  unfold timeOf atTime
  rw [Int.add_comm, Int.add_mul_emod_self_right, Int.emod_eq_of_lt h.1 h.2]

theorem lt_of_dateOf_lt {first second : Int} (h : dateOf first < dateOf second) :
    first < second := by
  by_contra hle
  have hmono : dateOf second ≤ dateOf first :=
    Int.ediv_le_ediv (by decide) (Int.not_lt.mp hle)
  omega

/-! ## What is read -/

theorem clockOf_range {hour minute : Nat} {clock : Int} (h : clockOf hour minute = some clock) :
    0 ≤ clock ∧ clock < dayNanoseconds := by
  unfold clockOf at h
  split_ifs at h
  obtain rfl := Option.some.inj h
  unfold dayNanoseconds hourNanoseconds
  omega

theorem clockTime_range {value : String} {clock : Int} (h : clockTime value = some clock) :
    0 ≤ clock ∧ clock < dayNanoseconds := by
  obtain ⟨_, -, h⟩ := Option.bind_eq_some_iff.mp h
  obtain ⟨_, -, h⟩ := Option.bind_eq_some_iff.mp h
  obtain ⟨_, -, h⟩ := Option.bind_eq_some_iff.mp h
  obtain ⟨_, -, h⟩ := Option.bind_eq_some_iff.mp h
  exact clockOf_range h

theorem parseClockTime_range {time : String} {clock : Int} (h : parseClockTime time = .ok clock) :
    0 ≤ clock ∧ clock < dayNanoseconds := by
  unfold parseClockTime at h
  split at h
  · next hclock =>
    obtain rfl := Except.ok.inj h
    exact clockTime_range hclock
  · cases h

theorem DateEnv.of_tz {timezone : String} {zone : Zone} (h : env.tz timezone = .ok zone) :
    env.zone timezone = some zone := by
  unfold DateEnv.tz at h
  split at h
  · next hzone =>
    obtain rfl := Except.ok.inj h
    exact hzone
  · cases h

theorem Zone.of_resolve {zone : Zone} {value : String} {naive instant : Int}
    (h : zone.resolve value naive = .ok instant) : zone.fromLocal naive = .single instant := by
  unfold Zone.resolve at h
  split at h
  · next hlocal =>
    obtain rfl := Except.ok.inj h
    exact hlocal
  · cases h
  · cases h

end IptvRelay.Guide
