import IptvRelay.Guide.Dates
import IptvRelay.Parsers.Diagnostics

/-!
# Rules with a stop

Model of `CompiledEventRules::first_match`: the start that a rule finds in a title and the stop
that it captures, with the format and the zone in which each is read. A regular expression is
the captures that it finds in each text.
-/

namespace IptvRelay.Guide

open Checked

/-- What a match of a regular expression captured. -/
structure RegexMatch where
  name : String → Option String
  /-- `captures.get(1)`. -/
  first : Option String

structure Regex where
  captures : String → Option RegexMatch
  captureNames : List String

def Regex.isMatch (regex : Regex) (text : String) : Bool := (regex.captures text).isSome

structure DatePattern where
  regex : Regex
  format : String
  timezone : Option String

structure CompiledRule where
  rule : EventRule
  enabled : Bool := true
  timezone : String
  categoriesAny : List String := []
  metadata : List (String × String) := []
  name : Option Regex := none
  group : Option Regex := none
  epgTitle : Option Regex := none
  dates : List DatePattern

structure EventCandidate where
  name : String
  group : Option String := none
  epgTitle : Option String := none
  categories : List String := []
  metadata : String → Option String := fun _ => none

def eqIgnoreAsciiCase (first second : String) : Bool :=
  Text.asciiLowercase first.toList = Text.asciiLowercase second.toList

def matchesRule (compiled : CompiledRule) (candidate : EventCandidate) : Bool :=
  compiled.name.all (·.isMatch candidate.name) &&
  compiled.group.all (fun regex => candidate.group.any regex.isMatch) &&
  compiled.epgTitle.all (fun regex => candidate.epgTitle.any regex.isMatch) &&
  (compiled.categoriesAny.isEmpty || compiled.categoriesAny.any fun expected =>
    candidate.categories.any fun actual => eqIgnoreAsciiCase actual expected) &&
  compiled.metadata.all fun entry => candidate.metadata entry.1 = some entry.2

/-- The texts that date patterns are tried on. -/
def EventCandidate.inputs (candidate : EventCandidate) : List String :=
  candidate.name :: candidate.epgTitle.toList

def Captures.insert (values : Captures) (name value : String) : Captures :=
  Function.update values name (some value)

theorem Captures.insert_self (values : Captures) (name value : String) :
    values.insert name value name = some value := Function.update_self ..

/-- `entry(name).or_insert(value)`. -/
def Captures.orInsert (values : Captures) (name value : String) : Captures :=
  if (values name).isSome then values else values.insert name value

def collectRegexCaptures (regex : Regex) (input : String) (values : Captures) : Captures :=
  match regex.captures input with
  | none => values
  | some captures => regex.captureNames.foldl (fun values name =>
      match captures.name name with
      | some value => values.orInsert name
          (String.ofList (Text.collapseWhitespace value.toList))
      | none => values) values

def collectOptional (regex : Option Regex) (input : Option String) (values : Captures) :
    Captures :=
  match regex, input with
  | some regex, some input => collectRegexCaptures regex input values
  | _, _ => values

def collectCaptures (compiled : CompiledRule) (candidate : EventCandidate) : Captures :=
  let values := collectOptional compiled.name (some candidate.name) fun _ => none
  let values := collectOptional compiled.group candidate.group values
  let values := collectOptional compiled.epgTitle candidate.epgTitle values
  let values := compiled.dates.foldl (fun values date => candidate.inputs.foldl
    (fun values input => collectRegexCaptures date.regex input values) values) values
  match values "slot_b" with
  | some slot => Captures.orInsert (Function.update values "slot_b" none) "slot" slot
  | none => values

/-- How a date is read. -/
structure Reading where
  format : String
  timezone : String
  deriving DecidableEq, Repr

/-- The date that a pattern finds in a text, and how it is read. -/
def DatePattern.find (pattern : DatePattern) (ruleTimezone input : String) :
    Option (String × Reading) := do
  let captures ← pattern.regex.captures input
  let value ← (captures.name "datetime").or captures.first
  let timezone := (pattern.timezone.or
    ((captures.name "timezone").map Parsers.trimmed)).getD ruleTimezone
  return (Parsers.trimmed value, ⟨pattern.format, timezone⟩)

/-- The first date of a candidate, by the order of the patterns. -/
def CompiledRule.findDate (compiled : CompiledRule) (candidate : EventCandidate) :
    Option (String × Reading) :=
  compiled.dates.findSome? fun pattern =>
    candidate.inputs.findSome? fun input => pattern.find compiled.timezone input

def parseCandidateDate (env : DateEnv) (compiled : CompiledRule) (candidate : EventCandidate) :
    Except EventDateError (Option Int) :=
  match compiled.findDate candidate with
  | none => .ok none
  | some (value, reading) =>
    (parseEventLocalDatetime env value reading.format reading.timezone).map some

/-- `Duration::num_seconds`. -/
def numSeconds (duration : Int) : Int := duration.tdiv 1000000000

/-- The captures with the time between start and stop as duration. -/
def insertDuration (env : DateEnv) (reading : Reading) (start : Int) (stop : String)
    (captures : Captures) : Except EventDateError Captures := do
  let stopAt ← parseEventLocalDatetime env stop reading.format reading.timezone
  let seconds := numSeconds (stopAt - start)
  ensure (0 < seconds) (EventDateError.invalidDate stop "stop after start")
  return captures.insert "duration_seconds" (toString seconds)

def applyStopCapture (env : DateEnv) (compiled : CompiledRule) (startsAt : Option Int)
    (captures : Captures) : Except EventDateError Captures :=
  match startsAt, captures "stop", compiled.dates.head? with
  | some start, some stop, some pattern =>
    insertDuration env ⟨pattern.format, pattern.timezone.getD compiled.timezone⟩ start stop captures
  | _, _, _ => .ok captures

def CompiledRule.matchEvent (env : DateEnv) (compiled : CompiledRule) (candidate : EventCandidate) :
    Except EventDateError MatchedEvent := do
  let startsAt ← parseCandidateDate env compiled candidate
  let captures ← applyStopCapture env compiled startsAt (collectCaptures compiled candidate)
  return { rule := compiled.rule, startsAt, captures }

/-- `first_match`. -/
def firstMatch (env : DateEnv) (candidate : EventCandidate) :
    List CompiledRule → Except EventDateError (Option MatchedEvent)
  | [] => .ok none
  | compiled :: rest =>
    if ¬compiled.enabled ∨ ¬matchesRule compiled candidate then firstMatch env candidate rest
    else (compiled.matchEvent env candidate).map some

/-! ## The stop by the reading of the start -/

/-- The stop read as the start was. -/
def CompiledRule.applyStopAlike (env : DateEnv) (compiled : CompiledRule)
    (candidate : EventCandidate) (startsAt : Option Int) (captures : Captures) :
    Except EventDateError Captures :=
  match startsAt, captures "stop", compiled.findDate candidate with
  | some start, some stop, some (_, reading) => insertDuration env reading start stop captures
  | _, _, _ => .ok captures

def CompiledRule.matchAlike (env : DateEnv) (compiled : CompiledRule)
    (candidate : EventCandidate) : Except EventDateError MatchedEvent := do
  let startsAt ← parseCandidateDate env compiled candidate
  let captures ← compiled.applyStopAlike env candidate startsAt
    (collectCaptures compiled candidate)
  return { rule := compiled.rule, startsAt, captures }

section Alike

variable {compiled : CompiledRule} {candidate : EventCandidate} {value stop : String}
  {reading : Reading}

theorem CompiledRule.exists_first (hstart : compiled.findDate candidate = some (value, reading)) :
    ∃ pattern, compiled.dates.head? = some pattern := by
  unfold CompiledRule.findDate at hstart
  cases hdates : compiled.dates with
  | nil =>
    rw [hdates] at hstart
    cases hstart
  | cons pattern rest => exact ⟨pattern, rfl⟩

theorem CompiledRule.matchEvent_eq {pattern : DatePattern}
    (hstart : compiled.findDate candidate = some (value, reading))
    (hstop : collectCaptures compiled candidate "stop" = some stop)
    (hfirst : compiled.dates.head? = some pattern) (env : DateEnv) :
    compiled.matchEvent env candidate = (do
      let start ← parseEventLocalDatetime env value reading.format reading.timezone
      let captures ← insertDuration env
        ⟨pattern.format, pattern.timezone.getD compiled.timezone⟩ start stop
        (collectCaptures compiled candidate)
      return { rule := compiled.rule, startsAt := some start, captures }) := by
  unfold CompiledRule.matchEvent parseCandidateDate applyStopCapture
  rw [hstart, hstop, hfirst]
  dsimp only
  cases parseEventLocalDatetime env value reading.format reading.timezone <;> rfl

theorem CompiledRule.matchAlike_eq
    (hstart : compiled.findDate candidate = some (value, reading))
    (hstop : collectCaptures compiled candidate "stop" = some stop) (env : DateEnv) :
    compiled.matchAlike env candidate = (do
      let start ← parseEventLocalDatetime env value reading.format reading.timezone
      let captures ← insertDuration env reading start stop (collectCaptures compiled candidate)
      return { rule := compiled.rule, startsAt := some start, captures }) := by
  unfold CompiledRule.matchAlike parseCandidateDate CompiledRule.applyStopAlike
  rw [hstart, hstop]
  dsimp only
  cases parseEventLocalDatetime env value reading.format reading.timezone <;> rfl

/-- Every text of one format and zone is read as one instant, all others as a second later. -/
def oneReading (reading : Reading) : DateEnv where
  zone timezone := some
    { name := timezone
      localTime := id
      fromLocal := fun naive =>
        .single (if timezone = reading.timezone then naive else naive + 1000000000) }
  minYear := 0
  maxYear := 0
  naiveText _ := ""
  dateText _ := ""
  parseDateTime _ _ := none
  parseNaiveDateTime _ format := some (if format = reading.format then 0 else 1000000000)
  parseNaiveDate _ _ := none

theorem parse_oneReading (reading : Reading) (value : String) :
    parseEventLocalDatetime (oneReading reading) value reading.format reading.timezone = .ok 0 := by
  simp [parseEventLocalDatetime, oneReading, DateEnv.tz, Zone.resolve, ok_bind]

theorem parse_other_reading {reading other : Reading} (hne : other ≠ reading) (value : String) :
    ∃ seconds : Int, 0 < seconds ∧
      parseEventLocalDatetime (oneReading reading) value other.format other.timezone =
        .ok (seconds * 1000000000) := by
  have hread : parseEventLocalDatetime (oneReading reading) value other.format other.timezone =
      .ok (if other.timezone = reading.timezone
        then (if other.format = reading.format then 0 else 1000000000)
        else (if other.format = reading.format then 0 else 1000000000) + 1000000000) := rfl
  rw [hread]
  by_cases hformat : other.format = reading.format
  · have hzone : other.timezone ≠ reading.timezone := fun hzone =>
      hne (by cases other; cases reading; simp_all)
    exact ⟨1, by decide, by rw [if_neg hzone, if_pos hformat]; rfl⟩
  · by_cases hzone : other.timezone = reading.timezone
    · exact ⟨1, by decide, by rw [if_pos hzone, if_neg hformat]; rfl⟩
    · exact ⟨2, by decide, by rw [if_neg hzone, if_neg hformat]; rfl⟩

/-- A start and a stop that are read at one instant are refused. -/
theorem insertDuration_same (reading : Reading) (stop : String) (captures : Captures) :
    insertDuration (oneReading reading) reading 0 stop captures =
      .error (.invalidDate stop "stop after start") := by
  unfold insertDuration
  rw [parse_oneReading]
  rfl

theorem insertDuration_other {reading other : Reading} (hne : other ≠ reading) (stop : String)
    (captures : Captures) :
    ∃ result, insertDuration (oneReading reading) other 0 stop captures = .ok result := by
  obtain ⟨seconds, hpos, hparse⟩ := parse_other_reading hne stop
  unfold insertDuration
  rw [hparse, ok_bind]
  have hseconds : numSeconds (seconds * 1000000000 - 0) = seconds := by
    unfold numSeconds
    rw [Int.sub_zero, Int.mul_tdiv_cancel _ (by decide)]
  exact ⟨_, by rw [hseconds, ensure_bind hpos]; rfl⟩

end Alike

/-- The format and the zone of the first pattern, or else of the rule. -/
def CompiledRule.firstReading (compiled : CompiledRule) : Option Reading :=
  compiled.dates.head?.map fun pattern =>
    ⟨pattern.format, pattern.timezone.getD compiled.timezone⟩

theorem matchEvent_eq_matchAlike_iff {compiled : CompiledRule} {candidate : EventCandidate}
    {value stop : String} {reading : Reading}
    (hstart : compiled.findDate candidate = some (value, reading))
    (hstop : collectCaptures compiled candidate "stop" = some stop) :
    (∀ env, compiled.matchEvent env candidate = compiled.matchAlike env candidate) ↔
      compiled.firstReading = some reading := by
  obtain ⟨pattern, hfirst⟩ := compiled.exists_first hstart
  have hreading : compiled.firstReading =
      some ⟨pattern.format, pattern.timezone.getD compiled.timezone⟩ := by
    rw [CompiledRule.firstReading, hfirst]
    rfl
  rw [hreading, Option.some_inj]
  constructor
  · intro h
    by_contra hne
    have henv := h (oneReading reading)
    obtain ⟨result, hother⟩ :=
      insertDuration_other hne stop (collectCaptures compiled candidate)
    rw [compiled.matchEvent_eq hstart hstop hfirst, compiled.matchAlike_eq hstart hstop,
      parse_oneReading, ok_bind, ok_bind, insertDuration_same, hother] at henv
    cases henv
  · intro h env
    rw [compiled.matchEvent_eq hstart hstop hfirst, compiled.matchAlike_eq hstart hstop, h]

/-! ## The first match -/

/-- The first enabled rule that matches. -/
def selectRule (candidate : EventCandidate) (rules : List CompiledRule) : Option CompiledRule :=
  rules.find? fun compiled => compiled.enabled && matchesRule compiled candidate

theorem firstMatch_eq {candidate : EventCandidate} {rules : List CompiledRule}
    {compiled : CompiledRule} (h : selectRule candidate rules = some compiled) (env : DateEnv) :
    firstMatch env candidate rules = (compiled.matchEvent env candidate).map some := by
  induction rules with
  | nil => cases h
  | cons rule rest ih =>
    unfold selectRule at h ih
    rw [List.find?_cons] at h
    split at h
    · next hmatch =>
      obtain rfl := Option.some.inj h
      rw [firstMatch, if_neg (by simpa using hmatch)]
    · next hmatch =>
      rw [firstMatch, if_pos (by simp only [Bool.and_eq_false_iff] at hmatch; grind), ih h]

theorem map_some_inj {first second : Except EventDateError MatchedEvent} :
    first.map some = second.map some ↔ first = second := by
  constructor
  · intro h
    cases first <;> cases second <;> cases h <;> rfl
  · exact congrArg _

/-- The stop is read as the start was, however dates are read, exactly if the first pattern has
the format and the zone of the start. The duration is then the time between the two. -/
theorem firstMatch_stop_iff {candidate : EventCandidate} {rules : List CompiledRule}
    {compiled : CompiledRule} {value stop : String} {reading : Reading}
    (hrule : selectRule candidate rules = some compiled)
    (hstart : compiled.findDate candidate = some (value, reading))
    (hstop : collectCaptures compiled candidate "stop" = some stop) :
    ((∀ env, firstMatch env candidate rules = (compiled.matchAlike env candidate).map some) ↔
      compiled.firstReading = some reading) ∧
    ∀ env matched, compiled.firstReading = some reading →
      firstMatch env candidate rules = .ok (some matched) →
      ∃ start stopAt,
        parseEventLocalDatetime env value reading.format reading.timezone = .ok start ∧
        parseEventLocalDatetime env stop reading.format reading.timezone = .ok stopAt ∧
        matched.startsAt = some start ∧
        matched.captures "duration_seconds" = some (toString (numSeconds (stopAt - start))) := by
  have halike := matchEvent_eq_matchAlike_iff hstart hstop
  refine ⟨?_, fun env matched hreading h => ?_⟩
  · rw [← halike]
    exact forall_congr' fun env => by rw [firstMatch_eq hrule, map_some_inj]
  · have hmatch : compiled.matchAlike env candidate = .ok matched := by
      rw [firstMatch_eq hrule, halike.mpr hreading env] at h
      exact map_some_inj.mp h
    rw [compiled.matchAlike_eq hstart hstop] at hmatch
    obtain ⟨start, hparse, hmatch⟩ := of_bind hmatch
    obtain ⟨captures, hinsert, hmatch⟩ := of_bind hmatch
    obtain rfl := of_pure hmatch
    obtain ⟨stopAt, hstopAt, hinsert⟩ := of_bind hinsert
    obtain ⟨_, -, hinsert⟩ := of_bind hinsert
    obtain rfl := of_pure hinsert
    refine ⟨start, stopAt, hparse, hstopAt, rfl, ?_⟩
    dsimp only
    rw [Captures.insert_self]

def finalText : String := "Final 2026-01-01 19:00 America/New_York to 2026-01-01 22:00"

/-- One pattern without a zone of its own, which captures a date, its zone and a stop. -/
def finalRule (timezone : String) : CompiledRule where
  rule := { guide := { durationSeconds := 3600, fillerTitle := "", titleTemplate := "" } }
  timezone
  dates := [{
    regex := {
      captures := fun text => if text = finalText then some {
          name := fun name => match name with
            | "datetime" => some "2026-01-01 19:00"
            | "timezone" => some "America/New_York"
            | "stop" => some "2026-01-01 22:00"
            | _ => none
          first := some "2026-01-01 19:00" }
        else none
      captureNames := ["datetime", "timezone", "stop"] }
    format := "%Y-%m-%d %H:%M"
    timezone := none }]

/-- Winter days of New York and their texts. -/
def winterDates : DateEnv where
  zone name :=
    if name = "UTC" then some utcZone
    else if name = "America/New_York" then some
      { name, localTime := fun instant => instant - 5 * hourNanoseconds
        fromLocal := fun naive => .single (naive + 5 * hourNanoseconds) }
    else none
  minYear := -263143
  maxYear := 262142
  naiveText := toString
  dateText := toString
  parseDateTime _ _ := none
  parseNaiveDateTime value _ := match value with
    | "2026-01-01 19:00" => some (1767294000 * 1000000000)
    | "2026-01-01 22:00" => some (1767304800 * 1000000000)
    | _ => none
  parseNaiveDate _ _ := none

/-- In a rule for New York both are read alike. -/
theorem final_stop_read_alike :
    firstMatch winterDates { name := finalText } [finalRule "America/New_York"] =
      ((finalRule "America/New_York").matchAlike winterDates { name := finalText }).map some :=
  (@firstMatch_stop_iff { name := finalText } [finalRule "America/New_York"]
    (finalRule "America/New_York") "2026-01-01 19:00" "2026-01-01 22:00"
    ⟨"%Y-%m-%d %H:%M", "America/New_York"⟩ rfl (by decide +kernel) (by decide +kernel)).1.mpr
      rfl winterDates

/-- The captured zone is that of the start only, and the stop seems to come first. -/
theorem captured_zone_not_for_stop :
    (firstMatch winterDates { name := finalText } [finalRule "UTC"]).map
        (Option.map fun matched => matched.captures "duration_seconds") =
      .error (.invalidDate "2026-01-01 22:00" "stop after start") ∧
    ((finalRule "UTC").matchAlike winterDates { name := finalText }).map
        (fun matched => matched.captures "duration_seconds") = .ok (some "10800") := by
  constructor <;> decide +kernel

end IptvRelay.Guide
