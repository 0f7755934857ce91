import IptvRelay.Lib.Checked
import IptvRelay.Lib.Sorting
import IptvRelay.Lib.Text
import Mathlib.Data.List.Infix
import Mathlib.Data.Prod.Lex
import Mathlib.Data.String.Basic

/-!
# Guides of dynamic events

Model of the guide part of `parsers/src/events.rs`: durations, titles, stable keys and the
schedule of one channel. An instant is a number of nanoseconds. The range of `chrono`, its
RFC 3339 texts and the lower case of Unicode are parameters, as the schedule is built in the
same way for all of them.
-/

namespace IptvRelay.Guide

open Checked

/-- What the code takes from `chrono` and from the Unicode tables. -/
structure Locale where
  minUtc : Int
  maxUtc : Int
  rfc3339 : Int → String
  toLowercase : List Char → List Char

inductive EventGuideError where
  | missingStart
  | invalidWindow
  | invalidDuration
  | invalidCapturedDuration (value : String)
  | unknownTemplateField (field : String)
  | dateOverflow
  /-- Not an error of the source: `Duration::seconds` panics out of its range. -/
  | panicked
  deriving DecidableEq, Repr

/-! ## Rules and matches -/

structure EventLifecyclePolicy where
  preRollSeconds : Nat := 0
  postRollSeconds : Nat := 0
  deriving DecidableEq, Repr

structure EventGuidePolicy where
  durationSeconds : Nat
  fillerTitle : String
  titleTemplate : String
  deriving DecidableEq, Repr

/-- The fields that a guide reads; of the metadata only `event_title`. -/
structure EventRule where
  lifecycle : EventLifecyclePolicy := {}
  guide : EventGuidePolicy
  eventTitle : Option String := none
  deriving DecidableEq, Repr

structure MatchedEvent where
  rule : EventRule
  startsAt : Option Int
  captures : String → Option String

inductive GeneratedProgrammeKind where
  | event
  | filler
  deriving DecidableEq, Repr

structure GeneratedProgramme where
  startsAt : Int
  stopsAt : Int
  title : String
  kind : GeneratedProgrammeKind
  stableEventKey : Option String
  sourceTitle : String
  deriving DecidableEq, Repr

structure EventGuideInput where
  matched : MatchedEvent
  sourceTitle : String

/-! ## Durations -/

def u64Bound : Nat := Nat.pow 2 64

def parseSeconds (value : String) : Except EventGuideError Nat :=
  match (Text.parseUnsigned u64Bound (Text.trim value.toList)).filter (0 < ·) with
  | some seconds => .ok seconds
  | none => .error (.invalidCapturedDuration value)

/-- Seconds of a unit. -/
def unitSeconds (unit : String) : Option Nat :=
  if unit ∈ ["s", "sec", "secs", "second", "seconds"] then some 1
  else if unit ∈ ["m", "min", "mins", "minute", "minutes"] then some 60
  else if unit ∈ ["h", "hr", "hrs", "hour", "hours"] then some 3600
  else none

/-- `checked_mul`, `checked_add` and the filter: the sum is a positive `u64`. -/
def checkedSeconds (seconds : Nat) : Option Nat :=
  if seconds < u64Bound ∧ 0 < seconds then some seconds else none

/-- The value of a duration, for `parse_duration` that reports the text it was given. -/
def durationValue (normalized : List Char) : Option Nat :=
  match Text.splitOnce ':' normalized with
  | some (hours, minutes) => do
    let hours ← Text.parseUnsigned u64Bound hours
    let minutes ← Text.parseUnsigned u64Bound minutes
    guard (minutes < 60)
    checkedSeconds (hours * 3600 + minutes * 60)
  | none => do
    let number := normalized.takeWhile Char.isDigit
    let unit := normalized.dropWhile Char.isDigit
    guard (unit ≠ [])
    let amount ← Text.parseUnsigned u64Bound number
    let multiplier ← unitSeconds (String.ofList unit)
    checkedSeconds (amount * multiplier)

def parseDuration (value : String) : Except EventGuideError Nat :=
  let normalized := (Text.asciiLowercase (Text.trim value.toList)).filter (· ≠ ' ')
  match durationValue normalized with
  | some seconds => .ok seconds
  | none => .error (.invalidCapturedDuration value)

/-- The captured duration, or else the configured one. -/
def MatchedEvent.durationSeconds (event : MatchedEvent) : Except EventGuideError Nat :=
  match event.captures "duration_seconds", event.captures "duration" with
  | some value, _ => parseSeconds value
  | none, some value => parseDuration value
  | none, none => .ok event.rule.guide.durationSeconds

def eventDurationSeconds (event : MatchedEvent) : Except EventGuideError Nat := do
  let duration ← event.durationSeconds
  ensure (duration ≠ 0) EventGuideError.invalidDuration
  return duration

/-- A duration in nanoseconds. -/
def signedSeconds (seconds : Nat) : Except EventGuideError Int := do
  ensure (seconds < Nat.pow 2 63) EventGuideError.dateOverflow
  ensure (seconds ≤ (Nat.pow 2 63 - 1) / 1000) EventGuideError.panicked
  return seconds * 1000000000

/-! ## Titles -/

/-- The loop of `render_template`. In a field, the characters since the brace are kept. -/
def renderFrom (value : String → Option String) (field : Option (List Char)) :
    List Char → Except EventGuideError (List Char)
  | [] =>
    match field with
    | none => .ok []
    | some name => .error (.unknownTemplateField (String.ofList name))
  | c :: rest =>
    match field with
    | none =>
      if c = '{' then renderFrom value (some []) rest
      else do return c :: (← renderFrom value none rest)
    | some name =>
      if c = '}' then
        match value (String.ofList name) with
        | none => .error (.unknownTemplateField (String.ofList name))
        | some text => do return text.toList ++ (← renderFrom value none rest)
      else renderFrom value (some (name ++ [c])) rest

/-- What a field stands for. The first pass has no event yet. -/
def templateField (sourceTitle : String) (captures : String → Option String) (event : String)
    (field : String) : Option String :=
  if field = "source" ∨ field = "title" then some sourceTitle
  else if field = "event" then some event
  else captures field

def renderTemplate (template sourceTitle : String) (captures : String → Option String)
    (event : String) : Except EventGuideError String := do
  let rendered ← renderFrom (templateField sourceTitle captures event) none template.toList
  return String.ofList rendered

/-- `{event}`. -/
def eventField : List Char := "\x7bevent\x7d".toList

def renderEventTitle (template sourceTitle : String) (captures : String → Option String)
    (defaultTitle : String) : Except EventGuideError String := do
  let rendered ← renderTemplate template sourceTitle captures ""
  if eventField <:+: template.toList then
    let event ← renderTemplate defaultTitle sourceTitle captures ""
    renderTemplate template sourceTitle captures event
  else return rendered

def renderMatchedEventTitle (event : MatchedEvent) (sourceTitle template : String) :
    Except EventGuideError String :=
  let fallback :=
    if (event.captures "home").isSome ∧ (event.captures "away").isSome then
      "\x7baway\x7d @ \x7bhome\x7d"
    else "\x7bsource\x7d"
  let default := (event.rule.eventTitle.filter fun title => ¬eventField <:+: title.toList).getD
    fallback
  renderEventTitle template sourceTitle event.captures default

/-! ## Programmes -/

def normalizeIdentity (locale : Locale) (value : String) : List Char :=
  List.intercalate [' '] ((Text.splitWhitespace value.toList).map locale.toLowercase)

def stableEventKey (locale : Locale) (event : MatchedEvent) (sourceTitle : String)
    (startsAt : Int) : String :=
  let fields := ["league", "home", "away", "team_a", "team_b", "event"].filterMap event.captures
  let parts := (fields.map (normalizeIdentity locale)).filter (· ≠ [])
  let identity := List.intercalate ['|'] parts
  let identity := if identity = [] then normalizeIdentity locale sourceTitle else identity
  String.ofList identity ++ "|" ++ locale.rfc3339 startsAt

/-- `checked_add_signed` and `checked_sub_signed`. -/
def Locale.checked (locale : Locale) (time : Int) : Except EventGuideError Int := do
  ensure (locale.minUtc ≤ time ∧ time ≤ locale.maxUtc) EventGuideError.dateOverflow
  return time

/-- `starts_at.ok_or(MissingStart)`. -/
def MatchedEvent.start (event : MatchedEvent) : Except EventGuideError Int :=
  match event.startsAt with
  | some startsAt => .ok startsAt
  | none => .error .missingStart

def buildEventProgramme (locale : Locale) (event : MatchedEvent) (sourceTitle : String) :
    Except EventGuideError GeneratedProgramme := do
  let startsAt ← event.start
  let preRoll ← signedSeconds event.rule.lifecycle.preRollSeconds
  let duration ← signedSeconds (← eventDurationSeconds event)
  let postRoll ← signedSeconds event.rule.lifecycle.postRollSeconds
  let eventStart ← locale.checked (startsAt - preRoll)
  let eventEnd ← locale.checked (startsAt + duration)
  let eventEnd ← locale.checked (eventEnd + postRoll)
  let title ← renderMatchedEventTitle event sourceTitle event.rule.guide.titleTemplate
  return {
    startsAt := eventStart
    stopsAt := eventEnd
    title
    kind := .event
    stableEventKey := some (stableEventKey locale event sourceTitle startsAt)
    sourceTitle }

def filler (startsAt stopsAt : Int) (title sourceTitle : String) : GeneratedProgramme :=
  { startsAt
    stopsAt
    title
    kind := .filler
    stableEventKey := none
    sourceTitle }

/-! ## The schedule -/

/-- What the events are sorted by. -/
abbrev SortKey := Int ×ₗ Int ×ₗ String ×ₗ String

def GeneratedProgramme.sortKey (event : GeneratedProgramme) : SortKey :=
  toLex (event.startsAt, toLex (event.stopsAt,
    toLex (event.stableEventKey.getD "", event.sourceTitle)))

def sortEvents (events : List GeneratedProgramme) : List GeneratedProgramme :=
  Sorting.sortBy GeneratedProgramme.sortKey events

def buildEvents (locale : Locale) (inputs : List EventGuideInput) :
    Except EventGuideError (List GeneratedProgramme) :=
  inputs.mapM fun input => buildEventProgramme locale input.matched input.sourceTitle

/-- The event as it is shown in the window. -/
def GeneratedProgramme.clip (event : GeneratedProgramme) (windowStart windowEnd : Int) :
    GeneratedProgramme :=
  { event with startsAt := max event.startsAt windowStart, stopsAt := min event.stopsAt windowEnd }

/-- The loop over the sorted events and the filler behind it. -/
def scheduleFrom (windowStart windowEnd : Int) (fillerTitle : String) (cursor : Int) :
    List GeneratedProgramme → List GeneratedProgramme
  | [] => if cursor < windowEnd then [filler cursor windowEnd fillerTitle ""] else []
  | event :: events =>
    if event.stopsAt ≤ cursor ∨ event.stopsAt ≤ windowStart ∨ windowEnd ≤ event.startsAt then
      scheduleFrom windowStart windowEnd fillerTitle cursor events
    else
      let shown := event.clip windowStart windowEnd
      if shown.startsAt < cursor then
        -- An earlier event owns this interval.
        scheduleFrom windowStart windowEnd fillerTitle cursor events
      else
        let gap :=
          if cursor < shown.startsAt then [filler cursor shown.startsAt fillerTitle ""] else []
        gap ++ shown :: scheduleFrom windowStart windowEnd fillerTitle shown.stopsAt events

def generateEventSchedule (locale : Locale) (inputs : List EventGuideInput)
    (windowStart windowEnd : Int) (fillerTitle : String) :
    Except EventGuideError (List GeneratedProgramme) := do
  ensure (windowStart < windowEnd) EventGuideError.invalidWindow
  let events ← buildEvents locale inputs
  return scheduleFrom windowStart windowEnd fillerTitle windowStart (sortEvents events)

end IptvRelay.Guide
