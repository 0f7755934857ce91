import IptvRelay.Lib.Checked
import IptvRelay.Parsers.Diagnostics

/-!
# XMLTV documents

Model of `parse_xmltv_visit_with_options` in `parsers/src/xmltv.rs`. The events come from
the reader of `quick-xml`, each with the position of the reader behind it. Urls, time zones,
the digest of a programme, the `Debug` texts of strings and the order of a hash set are
parameters.
-/

namespace IptvRelay.Parsers

open Checked

/-! ## Records -/

structure LocalizedText where
  value : String
  language : Option String
  deriving DecidableEq, Repr

structure EpgIcon (Url : Type) where
  source : Url
  width : Option Nat
  height : Option Nat
  deriving DecidableEq, Repr

structure ExtensionElement where
  name : String
  attributes : Attributes
  text : String
  deriving DecidableEq, Repr

structure EpgChannel (Url : Type) where
  id : String
  displayNames : List LocalizedText
  icons : List (EpgIcon Url)
  urls : List Url
  extensions : List ExtensionElement
  deriving DecidableEq, Repr

structure EpisodeNumber where
  value : String
  system : Option String
  deriving DecidableEq, Repr

structure ProgrammeRating (Url : Type) where
  value : String
  system : Option String
  icons : List (EpgIcon Url)
  deriving DecidableEq, Repr

structure Credit where
  role : String
  name : String
  character : Option String
  deriving DecidableEq, Repr

/-- Instants are seconds. -/
structure Programme (Url : Type) where
  channelId : String
  start : Int
  stop : Option Int
  originalStart : String
  originalStop : Option String
  titles : List LocalizedText
  subTitles : List LocalizedText
  descriptions : List LocalizedText
  categories : List LocalizedText
  episodeNumbers : List EpisodeNumber
  icons : List (EpgIcon Url)
  ratings : List (ProgrammeRating Url)
  credits : List Credit
  previouslyShown : Bool
  new : Bool
  extensions : List ExtensionElement
  deriving DecidableEq, Repr

structure XmltvDocument where
  generator : Attributes := []
  diagnostics : List Diagnostic := []
  stats : ParseStats := {}
  deriving DecidableEq, Repr

/-! ## Parameters -/

/-- `LocalResult` of `from_local_datetime`, with the offset of a single result. -/
inductive LocalTime where
  | single (utc offset : Int)
  | ambiguous
  | nonexistent
  deriving DecidableEq, Repr

structure XmltvEnv (Url Digest : Type) where
  parseUrl : String → Except String Url
  unescape : String → Except String String
  timezone : String → Option (Int → LocalTime)
  fingerprint : Programme Url → Digest
  debug : String → String
  hashOrder : List String → List String

/-! ## Events -/

inductive XmlEvent where
  | start (name : String) (attributes : List (Except String (String × String)))
  | empty (name : String) (attributes : List (Except String (String × String)))
  | text (decoded : Except String String)
  | cdata (decoded : Except String String)
  | generalRef (name : String)
  | comment (text : String)
  | finish (name : String)
  /-- The length in bytes, and the text if it is UTF-8. -/
  | docType (length : Nat) (text : Option String)
  /-- The declaration and processing instructions. -/
  | other

/-- What the reader delivers: events with the positions behind them, then the end of the input
or an error. -/
structure XmlInput where
  events : List (Nat × XmlEvent)
  position : Nat
  error : Option String := none

/-! ## Timestamps -/

inductive TimestampPrecision where
  | year
  | month
  | day
  | hour
  | minute
  | second
  deriving DecidableEq, Repr

structure XmltvTimestamp where
  utc : Int
  precision : TimestampPrecision
  offsetSeconds : Int
  timezoneWasImplicit : Bool
  original : String
  deriving DecidableEq, Repr

inductive XmltvTimestampError where
  | empty
  | invalidDigits (digits : String)
  | unsupportedPrecision (length : Nat)
  | invalidTimezone (zone : String)
  | ambiguous (value timezone : String)
  | nonexistent (value timezone : String)
  deriving DecidableEq, Repr

def XmltvTimestampError.message (debug : String → String) : XmltvTimestampError → String
  | .empty => "XMLTV timestamp is empty"
  | .invalidDigits digits => s!"invalid XMLTV timestamp digits {debug digits}"
  | .unsupportedPrecision length =>
    s!"unsupported XMLTV timestamp precision of {length} digits"
  | .invalidTimezone zone => s!"invalid XMLTV timezone {debug zone}"
  | .ambiguous value timezone =>
    s!"local XMLTV time {debug value} is ambiguous in timezone {timezone}"
  | .nonexistent value timezone =>
    s!"local XMLTV time {debug value} does not exist in timezone {timezone}"

def timestampPrecision : Nat → Option TimestampPrecision
  | 4 => some .year
  | 6 => some .month
  | 8 => some .day
  | 10 => some .hour
  | 12 => some .minute
  | 14 => some .second
  | _ => none

def isLeapYear (year : Nat) : Bool := year % 4 = 0 ∧ (year % 100 ≠ 0 ∨ year % 400 = 0)

def daysInMonth (year month : Nat) : Nat :=
  if month = 2 then if isLeapYear year then 29 else 28
  else if month ∈ [4, 6, 9, 11] then 30
  else 31

/-- Days from 1970-01-01 to a date of the Gregorian calendar. -/
def daysFromCivil (year month day : Nat) : Int :=
  let shifted : Int := if month ≤ 2 then (year : Int) - 1 else year
  let era : Int := shifted / 400
  let yearOfEra : Int := shifted - era * 400
  let dayOfYear : Int := (153 * (if month > 2 then month - 3 else month + 9 : Nat) + 2) / 5 +
    day - 1
  era * 146097 + yearOfEra * 365 + yearOfEra / 4 - yearOfEra / 100 + dayOfYear - 719468

/-- `NaiveDate::from_ymd_opt` and `and_hms_opt`, in seconds. -/
def naiveDateTime (year month day hour minute second : Nat) : Option Int :=
  if 1 ≤ month ∧ month ≤ 12 ∧ 1 ≤ day ∧ day ≤ daysInMonth year month ∧ hour < 24 ∧
      minute < 60 ∧ second < 60 then
    some (daysFromCivil year month day * 86400 + hour * 3600 + minute * 60 + second)
  else none

/-- A zone with a sign: hours and minutes with an optional colon. -/
def parseOffset (zone : List Char) : Option Int :=
  let compact := zone.filter (· ≠ ':')
  let digits := compact.drop 1
  let hours := Text.digitsValue (digits.take 2)
  let minutes := Text.digitsValue (digits.drop 2)
  if compact.length = 5 ∧ digits.all Char.isDigit ∧ hours ≤ 23 ∧ minutes ≤ 59 then
    let seconds : Int := hours * 3600 + minutes * 60
    some (if compact.head? = some '-' then -seconds else seconds)
  else none

/-- The instant and the offset of a local time. -/
def resolveTimezone (timezone : String → Option (Int → LocalTime)) (zone digits : String)
    (naive : Int) : Except XmltvTimestampError (Int × Int) :=
  if zone ∈ ["Z", "UTC", "GMT"] then .ok (naive, 0)
  else if zone.toList.head? ∈ [some '+', some '-'] then
    match parseOffset zone.toList with
    | some seconds => .ok (naive - seconds, seconds)
    | none => .error (.invalidTimezone zone)
  else match timezone zone with
    | none => .error (.invalidTimezone zone)
    | some local' => match local' naive with
      | .single utc offset => .ok (utc, offset)
      | .ambiguous => .error (.ambiguous digits zone)
      | .nonexistent => .error (.nonexistent digits zone)

/-- Two digits of a timestamp that has them. -/
def timestampField (digits : List Char) (from' default : Nat) : Nat :=
  if digits.length < from' + 2 then default
  else Text.digitsValue ((digits.drop from').take 2)

def parseXmltvTimestampInTimezone (timezone : String → Option (Int → LocalTime))
    (value defaultTimezone : String) : Except XmltvTimestampError XmltvTimestamp := do
  let text := Text.trim value.toList
  match Text.splitWhitespace text with
  | [] => throw .empty
  | digits :: parts =>
    ensure (digits.all Char.isDigit) (XmltvTimestampError.invalidDigits (String.ofList digits))
    match timestampPrecision digits.length with
    | none => throw (.unsupportedPrecision digits.length)
    | some precision =>
      match naiveDateTime (Text.digitsValue (digits.take 4)) (timestampField digits 4 1)
          (timestampField digits 6 1) (timestampField digits 8 0) (timestampField digits 10 0)
          (timestampField digits 12 0) with
      | none => throw (.invalidDigits (String.ofList digits))
      | some naive =>
        ensure (parts.length ≤ 1) (XmltvTimestampError.invalidTimezone
          (String.ofList (Text.trim (text.drop digits.length))))
        let zone := (parts.head?.map String.ofList).getD defaultTimezone
        let (utc, offsetSeconds) ←
          resolveTimezone timezone zone (String.ofList digits) naive
        return { utc, precision, offsetSeconds, timezoneWasImplicit := parts.isEmpty
                 original := value }

/-! ## Builders -/

structure ChannelBuilder (Url : Type) where
  id : Option String
  displayNames : List LocalizedText := []
  icons : List (EpgIcon Url) := []
  urls : List Url := []
  extensions : List ExtensionElement := []

structure ProgrammeBuilder (Url : Type) where
  channelId : Option String
  start : Option String
  stop : Option String
  titles : List LocalizedText := []
  subTitles : List LocalizedText := []
  descriptions : List LocalizedText := []
  categories : List LocalizedText := []
  episodeNumbers : List EpisodeNumber := []
  icons : List (EpgIcon Url) := []
  ratings : List (ProgrammeRating Url) := []
  credits : List Credit := []
  previouslyShown : Bool := false
  new : Bool := false
  extensions : List ExtensionElement := []

structure Capture where
  name : String
  attributes : Attributes
  text : String := ""
  depth : Nat := 1
  child : Option ExtensionElement := none
  children : List ExtensionElement := []
  deriving DecidableEq, Repr

def ChannelBuilder.open {Url : Type} (attributes : Attributes) : ChannelBuilder Url :=
  { id := attributes.get "id" }

def ProgrammeBuilder.open {Url : Type} (attributes : Attributes) : ProgrammeBuilder Url :=
  { channelId := attributes.get "channel"
    start := attributes.get "start"
    stop := attributes.get "stop" }

/-! ## The document -/

namespace XmltvDocument

def pushDiagnostic (document : XmltvDocument) (diagnostic : Diagnostic) : XmltvDocument :=
  { document with
    stats := document.stats.observe diagnostic
    diagnostics := document.diagnostics ++ [diagnostic] }

def warning (document : XmltvDocument) (code : DiagnosticCode) (offset : Option Nat)
    (message : String) : XmltvDocument :=
  document.pushDiagnostic
    { severity := .warning, code, line := none, byteOffset := offset, message }

def invalidRecord (document : XmltvDocument) (offset : Nat) (message : String) : XmltvDocument :=
  { document with stats.recordsSkipped := document.stats.recordsSkipped + 1 }.pushDiagnostic
    { severity := .error, code := .invalidXmltvRecord, line := none, byteOffset := some offset
      message }

def emitRecord (document : XmltvDocument) : XmltvDocument :=
  { document with stats.recordsEmitted := document.stats.recordsEmitted + 1 }

/-- An emitted record is skipped after all. -/
def withdrawRecord (document : XmltvDocument) : XmltvDocument :=
  { document with
    stats.recordsEmitted := document.stats.recordsEmitted - 1
    stats.recordsSkipped := document.stats.recordsSkipped + 1 }

def addUnknown (document : XmltvDocument) : XmltvDocument :=
  { document with stats.unknownMetadata := document.stats.unknownMetadata + 1 }

/-- A record begins. -/
def seeRecord (document : XmltvDocument) (limits : ParseLimits) :
    Except ParseError XmltvDocument := do
  ensure (¬ recordLimitReached document.stats.recordsSeen limits.maxRecords)
    (ParseError.tooManyRecords limits.maxRecords)
  return { document with stats.recordsSeen := document.stats.recordsSeen + 1 }

end XmltvDocument

/-! ## The state of the loop -/

/-- One call of a visitor. -/
inductive Visit (Url : Type) where
  | channel (channel : EpgChannel Url)
  | programme (programme : Programme Url)

/-- Both visitors work on one state. -/
structure Visitor (Url σ : Type) where
  channel : σ → EpgChannel Url → Except ParseError σ
  programme : σ → Programme Url → Except ParseError σ

/-- The variables of the loop. The calls of the visitors are kept in their order. -/
structure XmltvState (Url Digest σ : Type) where
  document : XmltvDocument := {}
  channel : Option (ChannelBuilder Url) := none
  programme : Option (ProgrammeBuilder Url) := none
  capture : Option Capture := none
  depth : Nat := 0
  declared : List String := []
  referenced : List String := []
  fingerprints : List Digest := []
  visitor : σ
  visits : List (Visit Url) := []

section Loop

variable {Url Digest σ : Type} [DecidableEq Digest]

variable (env : XmltvEnv Url Digest) (limits : ParseLimits) (defaultTimezone : String)
  (visitor : Visitor Url σ)

/-- `HashSet::insert` without its result. -/
def insertDistinct {α : Type} [DecidableEq α] (items : List α) (item : α) : List α :=
  if item ∈ items then items else items ++ [item]

/-- Of repeated attributes the last one counts. -/
def elementAttributes (offset : Nat) (attributes : List (Except String (String × String))) :
    Except ParseError Attributes :=
  attributes.foldlM (fun found item => match item with
    | .ok (key, value) => .ok (found.insert key value)
    | .error message => .error (.malformedXmltv offset message)) []

def parseIcon (attributes : Attributes) (document : XmltvDocument) (offset : Nat) :
    XmltvDocument × Option (EpgIcon Url) :=
  match attributes.get "src" with
  | none => (document, none)
  | some source => match env.parseUrl source with
    | .error error => (document.warning .invalidUrl (some offset)
        s!"invalid XMLTV icon URL: {error}", none)
    | .ok source => (document, some
        { source
          width := (attributes.get "width").bind fun value =>
            Text.parseUnsigned (Nat.pow 2 32) value.toList
          height := (attributes.get "height").bind fun value =>
            Text.parseUnsigned (Nat.pow 2 32) value.toList })

def parseIcons (document : XmltvDocument) (offset : Nat) :
    List ExtensionElement → XmltvDocument × List (EpgIcon Url)
  | [] => (document, [])
  | entry :: rest =>
    let (document, icon) := parseIcon env entry.attributes document offset
    let (document, icons) := parseIcons document offset rest
    (document, icon.toList ++ icons)

/-- A channel, unless its id is missing. -/
def finishChannel (builder : ChannelBuilder Url) (document : XmltvDocument)
    (declared : List String) (offset : Nat) :
    XmltvDocument × List String × Option (EpgChannel Url) :=
  match builder.id.filter fun id => trimmed id ≠ "" with
  | none => (document.invalidRecord offset "XMLTV channel is missing required id", declared, none)
  | some id =>
    let document := if id ∈ declared then document.warning .duplicateIdentity (some offset)
        s!"duplicate XMLTV channel id {env.debug id}; metadata fragments will be merged"
      else document
    (document.emitRecord, insertDistinct declared id, some
      { id
        displayNames := builder.displayNames
        icons := builder.icons
        urls := builder.urls
        extensions := builder.extensions })

/-- A timestamp of a programme, or the message of the record. -/
def programmeTimestamp (field raw : String) : Except String XmltvTimestamp :=
  match parseXmltvTimestampInTimezone env.timezone raw defaultTimezone with
  | .ok value => .ok value
  | .error error => .error s!"invalid programme {field}: {error.message env.debug}"

/-- The checks of a programme, with the message of the first one that fails. -/
def ProgrammeBuilder.build (builder : ProgrammeBuilder Url) : Except String (Programme Url) :=
  match builder.channelId.filter (fun id => trimmed id ≠ ""), builder.start with
  | none, _ => .error "XMLTV programme is missing required channel"
  | some _, none => .error "XMLTV programme is missing required start"
  | some channelId, some startRaw => do
    let start ← programmeTimestamp env defaultTimezone "start" startRaw
    let stop ← builder.stop.mapM (programmeTimestamp env defaultTimezone "stop")
    ensure (∀ value ∈ stop, start.utc < value.utc) "XMLTV programme stop must be after start"
    return {
      channelId
      start := start.utc
      stop := stop.map XmltvTimestamp.utc
      originalStart := start.original
      originalStop := stop.map XmltvTimestamp.original
      titles := builder.titles
      subTitles := builder.subTitles
      descriptions := builder.descriptions
      categories := builder.categories
      episodeNumbers := builder.episodeNumbers
      icons := builder.icons
      ratings := builder.ratings
      credits := builder.credits
      previouslyShown := builder.previouslyShown
      new := builder.new
      extensions := builder.extensions }

def finishProgramme (builder : ProgrammeBuilder Url) (document : XmltvDocument) (offset : Nat) :
    XmltvDocument × Option (Programme Url) :=
  match builder.build env defaultTimezone with
  | .error message => (document.invalidRecord offset message, none)
  | .ok programme => (document.emitRecord, some programme)

/-- The visitor of channels gets a finished one. -/
def visitChannel (s : XmltvState Url Digest σ) (channel : EpgChannel Url) :
    Except ParseError (XmltvState Url Digest σ) := do
  let next ← visitor.channel s.visitor channel
  return { s with visitor := next, visits := s.visits ++ [.channel channel] }

/-- A programme with a known digest is counted as skipped after all. -/
def visitUniqueProgramme (s : XmltvState Url Digest σ) (programme : Programme Url)
    (offset : Nat) : Except ParseError (XmltvState Url Digest σ) := do
  let fingerprint := env.fingerprint programme
  if fingerprint ∈ s.fingerprints then
    let document := s.document.withdrawRecord.warning .duplicateIdentity (some offset)
      "skipped exact duplicate XMLTV programme"
    return { s with document }
  else
    let next ← visitor.programme s.visitor programme
    return { s with
      fingerprints := s.fingerprints ++ [fingerprint]
      visitor := next
      visits := s.visits ++ [.programme programme] }

def closeChannel (s : XmltvState Url Digest σ) (builder : ChannelBuilder Url) (offset : Nat) :
    Except ParseError (XmltvState Url Digest σ) :=
  let (document, declared, channel) := finishChannel env builder s.document s.declared offset
  let s := { s with document, declared }
  match channel with
  | none => .ok s
  | some channel => visitChannel visitor s channel

def closeProgramme (s : XmltvState Url Digest σ) (builder : ProgrammeBuilder Url)
    (offset : Nat) : Except ParseError (XmltvState Url Digest σ) :=
  let (document, programme) := finishProgramme env defaultTimezone builder s.document offset
  let s := { s with document }
  match programme with
  | none => .ok s
  | some programme => visitUniqueProgramme env visitor
      { s with referenced := insertDistinct s.referenced programme.channelId } programme offset

/-! ## Elements inside a record -/

def preserveExtension (document : XmltvDocument) (capture : Capture) (offset : Nat) :
    XmltvDocument × ExtensionElement :=
  (document.addUnknown.warning .unknownXmlElement (some offset)
      s!"preserved unknown XMLTV element <{capture.name}>",
    { name := capture.name, attributes := capture.attributes, text := trimmed capture.text })

/-- A captured element of a channel. -/
def finishChannelCapture (capture : Capture) (channel : ChannelBuilder Url)
    (document : XmltvDocument) (offset : Nat) : ChannelBuilder Url × XmltvDocument :=
  let language := capture.attributes.get "lang"
  let text := trimmed capture.text
  if capture.name = "display-name" then
    ({ channel with displayNames := channel.displayNames ++ [⟨text, language⟩] }, document)
  else if capture.name = "url" then
    match env.parseUrl text with
    | .ok url => ({ channel with urls := channel.urls ++ [url] }, document)
    | .error error => (channel, document.warning .invalidUrl (some offset)
        s!"invalid XMLTV channel URL: {error}")
  else
    let (document, extension) := preserveExtension document capture offset
    ({ channel with extensions := channel.extensions ++ [extension] }, document)

/-- The entries of `credits`; one without a name is left out. -/
def creditOf (entry : ExtensionElement) : Option Credit :=
  let name := trimmed entry.text
  if name = "" then none
  else some { role := entry.name, name, character := entry.attributes.get "role" }

/-- `rating`: the text of its `value`, or else its own. -/
def ratingValue (capture : Capture) : String :=
  match capture.children.find? fun entry => entry.name = "value" with
  | some entry => trimmed entry.text
  | none => trimmed capture.text

/-- A captured element of a programme. -/
def finishProgrammeCapture (capture : Capture) (programme : ProgrammeBuilder Url)
    (document : XmltvDocument) (offset : Nat) : ProgrammeBuilder Url × XmltvDocument :=
  let language := capture.attributes.get "lang"
  let text := trimmed capture.text
  if capture.name = "title" then
    ({ programme with titles := programme.titles ++ [⟨text, language⟩] }, document)
  else if capture.name = "sub-title" then
    ({ programme with subTitles := programme.subTitles ++ [⟨text, language⟩] }, document)
  else if capture.name = "desc" then
    ({ programme with descriptions := programme.descriptions ++ [⟨text, language⟩] }, document)
  else if capture.name = "category" then
    ({ programme with categories := programme.categories ++ [⟨text, language⟩] }, document)
  else if capture.name = "episode-num" then
    ({ programme with episodeNumbers :=
        programme.episodeNumbers ++ [⟨text, capture.attributes.get "system"⟩] }, document)
  else if capture.name = "credits" then
    ({ programme with credits := programme.credits ++ capture.children.filterMap creditOf },
      document)
  else if capture.name = "rating" then
    if ratingValue capture = "" then (programme, document)
    else
      let (document, icons) := parseIcons env document offset
        (capture.children.filter fun entry => entry.name = "icon")
      ({ programme with ratings :=
          programme.ratings ++ [⟨ratingValue capture, capture.attributes.get "system", icons⟩] },
        document)
  else if capture.name = "previously-shown" then
    ({ programme with previouslyShown := true }, document)
  else if capture.name = "new" then ({ programme with new := true }, document)
  else
    let (document, extension) := preserveExtension document capture offset
    ({ programme with extensions := programme.extensions ++ [extension] }, document)

def finishCapture (s : XmltvState Url Digest σ) (capture : Capture) (offset : Nat) :
    XmltvState Url Digest σ :=
  match s.channel, s.programme with
  | some channel, _ =>
    let (channel, document) := finishChannelCapture env capture channel s.document offset
    { s with channel := some channel, document }
  | none, some programme =>
    let (programme, document) := finishProgrammeCapture env capture programme s.document offset
    { s with programme := some programme, document }
  | none, none => s

/-- The text goes to the child that is open. A space stands between two parts. -/
def appendCaptureText (capture : Capture) (value : String) : Except ParseError Capture := do
  let target := (capture.child.map ExtensionElement.text).getD capture.text
  ensure (target.utf8ByteSize + value.utf8ByteSize ≤ limits.maxTextBytes)
    (ParseError.textTooLarge limits.maxTextBytes)
  let text := if target ≠ "" ∧ value ≠ "" then target ++ " " ++ value else target ++ value
  return match capture.child with
    | some child => { capture with child := some { child with text } }
    | none => { capture with text }

/-! ## Events -/

/-- `Event::Start`. -/
def startElement (s : XmltvState Url Digest σ) (offset : Nat) (name : String)
    (attributes : List (Except String (String × String))) :
    Except ParseError (XmltvState Url Digest σ) := do
  let s := { s with depth := s.depth + 1 }
  ensure (s.depth ≤ limits.maxXmlDepth) (ParseError.xmlTooDeep limits.maxXmlDepth)
  let attributes ← elementAttributes offset attributes
  match s.capture with
  | some active =>
    let child := if active.depth = 1 then some { name, attributes, text := "" } else active.child
    return { s with capture := some { active with child, depth := active.depth + 1 } }
  | none =>
    if name = "tv" ∧ s.depth = 1 then
      return { s with document.generator := attributes }
    else if name = "channel" ∧ s.channel.isNone ∧ s.programme.isNone then
      let document ← s.document.seeRecord limits
      return { s with document, channel := some (.open attributes) }
    else if name = "programme" ∧ s.channel.isNone ∧ s.programme.isNone then
      let document ← s.document.seeRecord limits
      return { s with document, programme := some (.open attributes) }
    else if s.channel.isSome ∨ s.programme.isSome then
      return { s with capture := some { name, attributes } }
    else return s

/-- An element without content, in a record or outside of one. -/
def handleEmpty (s : XmltvState Url Digest σ) (offset : Nat) (name : String)
    (attributes : Attributes) : XmltvState Url Digest σ :=
  let extension : ExtensionElement := { name, attributes, text := "" }
  if name = "icon" then
    let (document, icon) := parseIcon env attributes s.document offset
    let s := { s with document }
    match icon, s.channel, s.programme with
    | some icon, some channel, _ =>
      { s with channel := some { channel with icons := channel.icons ++ [icon] } }
    | some icon, none, some programme =>
      { s with programme := some { programme with icons := programme.icons ++ [icon] } }
    | _, _, _ => s
  else match s.programme, s.channel with
    | some programme, _ =>
      if name = "new" then { s with programme := some { programme with new := true } }
      else if name = "previously-shown" then
        { s with programme := some { programme with previouslyShown := true } }
      else { s with
        document := s.document.addUnknown
        programme := some { programme with extensions := programme.extensions ++ [extension] } }
    | none, some channel => { s with
        document := s.document.addUnknown
        channel := some { channel with extensions := channel.extensions ++ [extension] } }
    | none, none => s

/-- `Event::Empty`. -/
def emptyElement (s : XmltvState Url Digest σ) (offset : Nat) (name : String)
    (attributes : List (Except String (String × String))) :
    Except ParseError (XmltvState Url Digest σ) := do
  let attributes ← elementAttributes offset attributes
  match s.capture with
  | some active =>
    return { s with capture := some { active with
      children := active.children ++ [{ name, attributes, text := "" }] } }
  | none =>
    if name = "channel" ∧ s.channel.isNone ∧ s.programme.isNone then
      let document ← s.document.seeRecord limits
      closeChannel env visitor { s with document } (.open attributes) offset
    else if name = "programme" ∧ s.channel.isNone ∧ s.programme.isNone then
      let document ← s.document.seeRecord limits
      closeProgramme env defaultTimezone visitor { s with document } (.open attributes) offset
    else return handleEmpty env s offset name attributes

/-- An error of the reader, located. -/
def located {α : Type} (offset : Nat) : Except String α → Except ParseError α
  | .ok value => .ok value
  | .error message => .error (.malformedXmltv offset message)

/-- `Event::Text` and `Event::CData` inside a captured element. -/
def captureText (s : XmltvState Url Digest σ) (offset : Nat) (value : Except String String) :
    Except ParseError (XmltvState Url Digest σ) :=
  match s.capture with
  | none => .ok s
  | some active => do
    let value ← located offset value
    let active ← appendCaptureText limits active value
    return { s with capture := some active }

/-- One level of a captured element is closed. -/
def Capture.close (active : Capture) : Capture :=
  let active := if active.depth = 2 then
      { active with child := none, children := active.children ++ active.child.toList }
    else active
  { active with depth := active.depth - 1 }

/-- The end of a record. -/
def closeRecord (s : XmltvState Url Digest σ) (offset : Nat) (name : String) :
    Except ParseError (XmltvState Url Digest σ) :=
  if name = "channel" then
    match s.channel with
    | some builder => closeChannel env visitor { s with channel := none } builder offset
    | none => .ok s
  else if name = "programme" then
    match s.programme with
    | some builder =>
      closeProgramme env defaultTimezone visitor { s with programme := none } builder offset
    | none => .ok s
  else .ok s

/-- `Event::End`. -/
def endElement (s : XmltvState Url Digest σ) (offset : Nat) (name : String) :
    Except ParseError (XmltvState Url Digest σ) :=
  match s.capture with
  | some active =>
    let active := active.close
    let s := if active.depth = 0 then finishCapture env { s with capture := none } active offset
      else { s with capture := some active }
    .ok { s with depth := s.depth - 1 }
  | none => do
    let s ← closeRecord env defaultTimezone visitor s offset name
    return { s with depth := s.depth - 1 }

def isSafeXmltvDoctype (text : Option String) : Bool :=
  match text with
  | none => false
  | some text =>
    let value := Text.trim text.toList
    let rest := value.drop 2
    let external := Text.trimStart rest
    !value.any (fun c => c ∈ ['[', ']', '<', '>']) && value.take 2 = "tv".toList &&
      (rest.isEmpty || (rest.head?.any Text.isWhitespace &&
        ("SYSTEM ".toList.isPrefixOf external || "PUBLIC ".toList.isPrefixOf external)))

/-- One round of the loop, for an event before the end. -/
def stepEvent (s : XmltvState Url Digest σ) (offset : Nat) (event : XmlEvent) :
    Except ParseError (XmltvState Url Digest σ) := do
  ensure (offset ≤ limits.maxInputBytes) (ParseError.inputTooLarge limits.maxInputBytes)
  match event with
  | .start name attributes => startElement limits s offset name attributes
  | .empty name attributes =>
    emptyElement env limits defaultTimezone visitor s offset name attributes
  | .text decoded => captureText limits s offset (decoded.bind env.unescape)
  | .cdata decoded => captureText limits s offset decoded
  | .finish name => endElement env defaultTimezone visitor s offset name
  | .docType length text =>
    ensure (length ≤ limits.maxTextBytes) (ParseError.textTooLarge limits.maxTextBytes)
    ensure (isSafeXmltvDoctype text = true) ParseError.xmlDoctypeForbidden
    return s
  | .generalRef _ | .comment _ | .other => return s

def runEvents (s : XmltvState Url Digest σ) :
    List (Nat × XmlEvent) → Except ParseError (XmltvState Url Digest σ)
  | [] => .ok s
  | (offset, event) :: rest => do
    let s ← stepEvent env limits defaultTimezone visitor s offset event
    runEvents s rest

/-- Channels that programmes name and no element declares. -/
def undeclaredChannels (s : XmltvState Url Digest σ) : List String :=
  env.hashOrder (s.referenced.filter fun id => id ∉ s.declared)

def warnUndeclared (document : XmltvDocument) (channelId : String) : XmltvDocument :=
  document.warning .undeclaredChannel none
    s!"programme references undeclared channel {env.debug channelId}"

/-- `parse_xmltv_visit_with_options`, with the calls of the visitors. -/
def parseXmltvVisitWithOptions (start : σ) (input : XmlInput) :
    Except ParseError (XmltvDocument × XmltvState Url Digest σ) := do
  let s ← runEvents env limits defaultTimezone visitor { visitor := start } input.events
  match input.error with
  | some message => throw (.malformedXmltv input.position message)
  | none =>
    ensure (input.position ≤ limits.maxInputBytes) (ParseError.inputTooLarge limits.maxInputBytes)
    let document := { s.document with stats.bytesRead := input.position }
    return ((undeclaredChannels env s).foldl (warnUndeclared env) document, s)

end Loop

end IptvRelay.Parsers
