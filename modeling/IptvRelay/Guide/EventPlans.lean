import IptvRelay.Guide.Events

/-!
# Plans of the event scan

Model of `EventChannelScanner`, `plan_event_channel` and `enrich_with_sports` in
`persistence/src/catalog.rs`, and of the pure parts in `persistence/src/event_scan.rs`. Regular
expressions, the built-in sports rules, time zones and the sports client are parameters.
-/

namespace IptvRelay.Guide

open Checked

abbrev Uuid := Nat

def builtinEventTemplateId : Uuid := 0x8b2d571e91de7000800000000000e000

/-! ## Data -/

structure SportsTeam where
  name : String
  shortName : String
  abbreviation : String
  logoUrl : Option String

/-- A date is a number of days, the confidence the bits of an `f32`. -/
structure SportsInfo where
  league : String
  localDate : Int
  eventId : Option String
  home : Option SportsTeam
  away : Option SportsTeam
  venue : Option String
  broadcasters : List String
  espnStart : Option Int
  timeConflict : Bool
  confidence : Option Nat

abbrev Captures := String → Option String

/-- `lookup_sports_info`: the answer for a league, a day, the captures and the start. -/
abbrev SportsClient := String → Int → Captures → Int → SportsInfo

structure EventScanSettings where
  upcomingPrefix : String
  endedTitle : String
  inferredDurationSeconds : Nat
  sports : Option SportsClient

structure EventTemplateRow where
  id : Uuid
  name : String
  displayName : String
  matchRegex : String
  channelNameFormat : String
  eventDurationHours : Int
  pastDateGraceHours : Int
  futureDateDays : Int
  timezone : String
  enabled : Bool

structure EventScanCandidate where
  channelId : Uuid
  streamName : String
  groupName : Option String
  sourceTimezone : Option String
  snapshotAt : Option Int

inductive EventChannelState where
  | scheduled
  | live
  | ended
  | hidden
  deriving DecidableEq, Repr

structure PlannedEventChannel where
  channelId : Uuid
  template : EventTemplateRow
  slot : Int
  rawStreamName : String
  stableName : Option String
  event : GeneratedProgramme
  state : EventChannelState
  programmes : List GeneratedProgramme
  captures : Captures
  groupName : Option String
  timezone : String
  grace : Int
  sports : Option SportsInfo

inductive ChannelScanOutcome where
  | noMatch
  | skipped (templateId : Uuid)
  | planned (plan : PlannedEventChannel)

structure EventScanSkip where
  templateId : Option Uuid
  channelId : Option Uuid
  streamName : String
  reason : String

/-- What `compile_template_rules` sets in every built-in rule. -/
structure RuleSettings where
  timezone : String
  durationSeconds : Nat
  titleTemplate : String

/-- `first_match` for a name and a group. -/
abbrev FirstMatch := String → Option String → Except String (Option MatchedEvent)

/-- What the scan uses of other crates. A time zone is its name. -/
structure ScanEnvironment where
  locale : Locale
  compileRegex : String → Except String (String → Bool)
  parseTimezone : List Char → Option String
  compileRules : RuleSettings → Except String FirstMatch
  resolveStart : MatchedEvent → Int → String → Except String (Option Int)
  guideErrorText : EventGuideError → String
  providerLabel : String → Option String
  formatLocal : Int → String → String
  localDate : Int → String → Int
  leagueFromKey : String → Option String

/-! ## Names and times -/

/-- `parse::<i32>`. -/
def parseI32 : List Char → Option Int
  | '-' :: digits =>
    if digits.head? = some '+' then none
    else (Text.parseUnsigned (Nat.pow 2 31 + 1) digits).map fun value => -value
  | text => (Text.parseUnsigned (Nat.pow 2 31) text).map Int.ofNat

def slotNumber (captures : Captures) : Int :=
  ((captures "slot").bind fun slot => parseI32 (Text.trim slot.toList)).getD 0

def displayLeague (league : List Char) : List Char :=
  let collapsed := Text.collapseWhitespace league
  if collapsed.length ≤ 4 ∧ collapsed.all Char.isAlpha then collapsed.map Char.toUpper
  else collapsed

/-- A capture without the whitespace around it, if anything is left. -/
def nonblankCapture (captures : Captures) (name : String) : Option (List Char) :=
  ((captures name).map fun value => Text.trim value.toList).filter (· ≠ [])

def stableEventChannelName (env : ScanEnvironment) (captures : Captures) (streamName : String) :
    Option String :=
  match nonblankCapture captures "league", nonblankCapture captures "slot" with
  | some league, some slot => some (String.ofList (displayLeague league ++ ' ' :: slot))
  | _, _ =>
    (((env.providerLabel streamName).map fun label =>
      Text.collapseWhitespace label.toList).filter (· ≠ [])).map String.ofList

def resolveEventTimezone (env : ScanEnvironment) (template : String)
    (source region : Option String) : String :=
  let notUtc := fun value : String => Text.trim value.toList ≠ "UTC".toList
  (([(some template).filter notUtc, source.filter notUtc, region].filterMap id).findSome?
    fun value => env.parseTimezone (Text.trim value.toList)).getD "UTC"

def hourNanoseconds : Int := 3600000000000

/-- `duration_trunc` to the hour, for times that are an `i64` of nanoseconds. -/
def truncHour (time : Int) : Int :=
  if -9223372036854775808 ≤ time ∧ time < 9223372036854775808 then time - time % hourNanoseconds else time

def Locale.add (locale : Locale) (time duration : Int) : Option Int :=
  (locale.checked (time + duration)).toOption

/-- `EventChannelState::at`. -/
def EventChannelState.ofTimes (locale : Locale) (startsAt stopsAt grace now : Int) :
    EventChannelState :=
  if now < startsAt then .scheduled
  else if now < stopsAt then .live
  else if (locale.add stopsAt grace).any fun hiddenAt => now < hiddenAt then .ended
  else .hidden

/-! ## The guide of one channel -/

/-- `generate_event_guide`. -/
def generateEventGuide (locale : Locale) (matched : MatchedEvent) (sourceTitle : String)
    (windowStart windowEnd : Int) : Except EventGuideError (List GeneratedProgramme) := do
  ensure (windowStart < windowEnd) EventGuideError.invalidWindow
  let event ← buildEventProgramme locale matched sourceTitle
  let gap := fun start stop : Int =>
    if start < stop then [filler start stop matched.rule.guide.fillerTitle sourceTitle] else []
  if event.stopsAt ≤ windowStart ∨ windowEnd ≤ event.startsAt then
    return [filler windowStart windowEnd matched.rule.guide.fillerTitle sourceTitle]
  else
    let shown := event.clip windowStart windowEnd
    return gap windowStart shown.startsAt ++
      (if shown.startsAt < shown.stopsAt then [shown] else []) ++
      gap (max shown.stopsAt windowStart) windowEnd

def upcomingTitle (env : ScanEnvironment) (label title : String) (startsAt : Int)
    (timezone : String) : String :=
  label ++ ": " ++ title ++ ", " ++ env.formatLocal startsAt timezone

def planEventChannelGuide (env : ScanEnvironment) (settings : EventScanSettings)
    (event : GeneratedProgramme) (timezone : String) (now grace : Int) :
    List GeneratedProgramme :=
  let windowStart := truncHour now
  let upcoming :=
    if windowStart < event.startsAt then
      [filler windowStart event.startsAt
        (upcomingTitle env settings.upcomingPrefix event.title event.startsAt timezone)
        event.sourceTitle]
    else []
  let ended :=
    match env.locale.add event.stopsAt grace with
    | some endedStop =>
      if 0 < grace then [filler event.stopsAt endedStop settings.endedTitle event.sourceTitle]
      else []
    | none => []
  upcoming ++ event :: ended

def dayNanoseconds : Int := 24 * hourNanoseconds

/-- The event programme of a guide of thirty days. -/
def eventProgramme (env : ScanEnvironment) (matched : MatchedEvent) (streamName : String)
    (startsAt : Int) : Except String GeneratedProgramme := do
  let windowStart := (env.locale.add startsAt (-dayNanoseconds)).getD startsAt
  let windowEnd := (env.locale.add startsAt (30 * dayNanoseconds)).getD startsAt
  let guide ← (generateEventGuide env.locale matched streamName windowStart windowEnd).mapError
    fun error => "event guide is not valid: " ++ env.guideErrorText error
  match guide.find? fun programme => programme.kind = .event with
  | some event => .ok event
  | none => .error "event guide has no event programme"

def resolvedStart (env : ScanEnvironment) (matched : MatchedEvent) (reference : Int)
    (timezone : String) : Except String Int :=
  match env.resolveStart matched reference timezone with
  | .error error => .error ("event time is not valid: " ++ error)
  | .ok none => .error "the stream name has no event start time"
  | .ok (some startsAt) => .ok startsAt

def planEventChannel (env : ScanEnvironment) (settings : EventScanSettings) (now : Int)
    (stream : EventScanCandidate) (template : EventTemplateRow) (timezone : String)
    (matched : MatchedEvent) : Except String PlannedEventChannel := do
  let startsAt ← resolvedStart env matched (stream.snapshotAt.getD now) timezone
  let matched := { matched with startsAt := some startsAt }
  let event ← eventProgramme env matched stream.streamName startsAt
  let days := max template.futureDateDays 0
  ensure (¬(env.locale.add now (days * dayNanoseconds)).any fun limit => limit < event.startsAt)
    ("event starts more than " ++ toString days ++ " days in the future")
  let grace := max template.pastDateGraceHours 1 * hourNanoseconds
  let state := EventChannelState.ofTimes env.locale event.startsAt event.stopsAt grace now
  return {
    channelId := stream.channelId
    template
    slot := slotNumber matched.captures
    rawStreamName := stream.streamName
    stableName := stableEventChannelName env matched.captures stream.streamName
    event
    state
    programmes :=
      if state = .hidden then [] else planEventChannelGuide env settings event timezone now grace
    captures := matched.captures
    groupName := stream.groupName
    timezone
    grace
    sports := none }

/-! ## The scanner -/

/-- `compile_template_rules`. -/
def templateRules (env : ScanEnvironment) (settings : EventScanSettings)
    (template : EventTemplateRow) (timezone : String) : Except String FirstMatch :=
  env.compileRules {
    timezone
    durationSeconds :=
      if 0 < template.eventDurationHours then template.eventDurationHours.toNat * 3600
      else settings.inferredDurationSeconds
    titleTemplate :=
      if Text.trim template.channelNameFormat.toList = [] then "\x7bevent\x7d"
      else template.channelNameFormat }

section Scanner

variable (env : ScanEnvironment) (settings : EventScanSettings) (now : Int)
  (regionTimezone : Option String)

/-- One turn of the loop over streams and templates, which ends with an outcome or goes on. -/
def evaluatePair (stream : EventScanCandidate) (template : EventTemplateRow) :
    Option ChannelScanOutcome × List EventScanSkip :=
  let skip := fun reason : String =>
    ({ templateId := some template.id, channelId := some stream.channelId
       streamName := stream.streamName, reason } : EventScanSkip)
  match env.compileRegex template.matchRegex with
  | .error _ => (none, [])
  | .ok isMatch =>
    if isMatch stream.streamName then
      let timezone := resolveEventTimezone env template.timezone stream.sourceTimezone regionTimezone
      match templateRules env settings template timezone with
      | .error error => (none, [skip ("built-in sports rules did not compile: " ++ error)])
      | .ok firstMatch =>
        match firstMatch stream.streamName stream.groupName with
        | .error error => (none, [skip ("event date is not valid: " ++ error)])
        | .ok none =>
          (none, if template.id = builtinEventTemplateId then []
            else [skip "matchRegex matches, but no built-in sports rule matches"])
        | .ok (some matched) =>
          match planEventChannel env settings now stream template timezone matched with
          | .ok plan => (some (.planned plan), [])
          | .error reason => (some (.skipped template.id), [skip reason])
    else (none, [])

/-- The first stream and template with an outcome, and the skips on the way. -/
def evaluatePairs : List (EventScanCandidate × EventTemplateRow) →
    ChannelScanOutcome × List EventScanSkip
  | [] => (.noMatch, [])
  | (stream, template) :: rest =>
    match evaluatePair env settings now regionTimezone stream template with
    | (some outcome, skips) => (outcome, skips)
    | (none, skips) =>
      let later := evaluatePairs rest
      (later.1, skips ++ later.2)

def evaluate (templates : List EventTemplateRow) (streams : List EventScanCandidate) :
    ChannelScanOutcome × List EventScanSkip :=
  evaluatePairs env settings now regionTimezone
    (streams.flatMap fun stream => templates.map fun template => (stream, template))

end Scanner

/-! ## Sports metadata -/

/-- `Away at Home`, when the client has found the event. -/
def SportsInfo.matchup (info : SportsInfo) : Option String := do
  let home ← info.home
  let away ← info.away
  return away.name ++ " at " ++ home.name

def SportsInfo.categories (info : SportsInfo) : List String :=
  ["Sports", "Sports event", info.league]

def SportsInfo.description (info : SportsInfo) (fallbackTitle : String) : String :=
  let parts := [info.matchup.getD fallbackTitle, "League: " ++ info.league] ++
    (info.venue.map fun venue => "Venue: " ++ venue).toList ++
    (if info.broadcasters = [] then [] else
      ["Broadcast: " ++ String.intercalate ", " info.broadcasters])
  String.intercalate ". " parts ++ "."

def detectLeague (env : ScanEnvironment) (captures : Captures) (group : Option String) :
    Option String :=
  ((captures "league").toList ++ group.toList).findSome? env.leagueFromKey

def enrichWithSports (env : ScanEnvironment) (settings : EventScanSettings) (now : Int)
    (client : SportsClient) (plan : PlannedEventChannel) : PlannedEventChannel :=
  match detectLeague env plan.captures plan.groupName with
  | none => plan
  | some league =>
    let info := client league (env.localDate plan.event.startsAt plan.timezone) plan.captures
      plan.event.startsAt
    let event := { plan.event with title := info.matchup.getD plan.event.title }
    { plan with
      event
      programmes :=
        if info.matchup.isSome then
          planEventChannelGuide env settings event plan.timezone now plan.grace
        else plan.programmes
      sports := some info }

end IptvRelay.Guide
