import IptvRelay.Lib.Sorting
import IptvRelay.Output.Text
import Mathlib.Data.Prod.Lex
import Mathlib.Order.Fin.Basic

/-!
# The published guide

Model of `xmltv`, `write_programme_row` and the placeholders in `api/src/lib.rs`, for a token
that the handler has accepted, and of `category_list` and `matchup_art_url`. Decoding the sports
metadata is a parameter. The rows hold the columns that the handler reads.
-/

namespace IptvRelay.Output

/-- A stored `jsonb` value. -/
inductive JsonValue where
  | null
  | bool (value : Bool)
  | number (text : String)
  | string (text : String)
  | array (items : List JsonValue)
  | object (members : List (String × JsonValue))

/-- `get`: the member with this key. -/
def JsonValue.get (key : String) : JsonValue → Option JsonValue
  | .object members => (members.find? fun member => member.1 = key).map Prod.snd
  | _ => none

def JsonValue.asArray : JsonValue → Option (List JsonValue)
  | .array items => some items
  | _ => none

def JsonValue.asStr : JsonValue → Option String
  | .string text => some text
  | _ => none

/-! ## Rows -/

structure ChannelRow where
  id : Uuid
  channelNumber : String
  name : String
  providerName : String
  groupName : String
  logoUrl : Option String

structure SportsTeam where
  logoUrl : Option String

structure SportsInfo where
  league : String
  localDate : NaiveDate
  eventId : Option String
  home : Option SportsTeam
  away : Option SportsTeam

structure ProgrammeRow where
  channelId : Option Uuid
  channelName : String
  title : String
  description : Option String
  categories : JsonValue
  startsAt : Instant
  stopsAt : Instant
  metadata : Option JsonValue

structure ChannelRecord where
  id : Uuid
  number : String
  name : String
  group : Option String
  logoUrl : Option String
  enabled : Bool

structure ProgrammeRecord where
  channelId : Uuid
  startsAt : Instant
  stopsAt : Instant
  title : String
  description : Option String
  categories : List String

structure CatalogSnapshot where
  channels : List ChannelRecord
  programmes : List ProgrammeRecord

/-- What the handler uses of other crates. -/
structure Environment extends Formats where
  decodeSports : JsonValue → Option SportsInfo

def ProgrammeRow.sports (env : Environment) (programme : ProgrammeRow) : Option SportsInfo := do
  env.decodeSports (← (← programme.metadata).get "sports")

def ProgrammeRow.categoryList (programme : ProgrammeRow) : List String :=
  (programme.categories.asArray.map fun items => items.filterMap JsonValue.asStr).getD []

def SportsInfo.iconUrl (sports : SportsInfo) : Option String := do (← sports.home).logoUrl

/-- `is_ascii_alphanumeric` for every character of a nonempty text. -/
def validKeyPart (text : String) : Bool :=
  text.toList ≠ [] ∧ text.toList.all Char.isAlphanum

def eventKey (env : Environment) (league : String) (localDate : NaiveDate) (eventId : String) :
    Option (List Char) :=
  if validKeyPart league ∧ validKeyPart eventId then
    some (league.toList ++ '-' :: env.compactDate localDate ++ '-' :: eventId.toList)
  else none

def matchupArtUrl (env : Environment) (artBase : List Char) (sports : SportsInfo) :
    Option (List Char) := do
  let _ ← (← sports.home).logoUrl
  let _ ← (← sports.away).logoUrl
  let key ← eventKey env sports.league sports.localDate (← sports.eventId)
  return artBase ++ '/' :: key ++ ".png".toList

/-! ## Placeholders -/

def noProgramTitle : String := "No program available"

def noProgramCategory : String := "No program"

def second : Int := 1000000000

def hour : Int := 3600 * second

/-- A start and stop time of one guide programme. -/
abbrev GuideSpan := Instant × Instant

/-- The whole hour at or before a time. -/
def floorToHour (value : Int) : Int :=
  let seconds := value / second
  (seconds - seconds % 3600) * second

/-- The gaps before, between and behind spans that are sorted by their start. -/
def guideGaps (windowEnd : Instant) : Instant → List GuideSpan → List GuideSpan
  | cursor, [] => if cursor < windowEnd then [(cursor, windowEnd)] else []
  | cursor, (start, stop) :: rest =>
    if windowEnd ≤ cursor then []
    else
      (if cursor < start then [(cursor, min start windowEnd)] else []) ++
        guideGaps windowEnd (max cursor stop) rest

theorem floorToHour_gt (value : Int) : value - 3600000000000 < floorToHour value := by
  simp only [floorToHour, second]
  omega

/-- The blocks of one gap, each up to a whole hour or to the end of the gap. -/
def gapBlocks (blockStart gapEnd : Int) : List GuideSpan :=
  if 60 * second ≤ gapEnd - blockStart then
    let blockEnd := min gapEnd (floorToHour (blockStart + 2 * hour))
    (blockStart, blockEnd) :: gapBlocks blockEnd gapEnd
  else []
termination_by (gapEnd - blockStart).toNat
decreasing_by
  rename_i hgap
  have hlater : blockStart < min gapEnd (floorToHour (blockStart + 2 * hour)) := by
    have hfloor := floorToHour_gt (blockStart + 2 * hour)
    unfold hour second at *
    omega
  unfold second at hgap
  omega

def noProgramBlocks (now : Instant) (spans : List GuideSpan) : List GuideSpan :=
  (guideGaps (now + 48 * hour) (now - 6 * hour) (Sorting.sortBy Prod.fst spans)).flatMap
    fun gap => gapBlocks gap.1 gap.2

/-! ## Writing -/

section Write

variable (env : Environment)

def writeNoProgramPlaceholders (channelId : Uuid) (now : Instant) (spans : List GuideSpan) :
    List Char :=
  (noProgramBlocks now spans).flatMap fun span =>
    "  <programme channel=\"".toList ++ uuidText channelId ++ "\" start=\"".toList ++
      env.stamp span.1 ++ "\" stop=\"".toList ++ env.stamp span.2 ++ "\"><title>".toList ++
      noProgramTitle.toList ++ "</title><category>".toList ++ noProgramCategory.toList ++
      "</category></programme>\n".toList

def writeIcon (icon : Option (List Char)) : List Char :=
  icon.elim [] fun icon => "<icon src=\"".toList ++ xmlEscape icon ++ "\"/>".toList

def writeDescription (description : Option String) : List Char :=
  description.elim [] fun description =>
    "<desc>".toList ++ xmlEscape description.toList ++ "</desc>".toList

def writeCategories (categories : List String) : List Char :=
  categories.flatMap fun category =>
    "<category>".toList ++ xmlEscape category.toList ++ "</category>".toList

/-- `<channel>`, in both branches of the handler. -/
def writeChannel (id : Uuid) (name : String) (logoUrl : Option String) : List Char :=
  "  <channel id=\"".toList ++ uuidText id ++ "\"><display-name>".toList ++
    xmlEscape name.toList ++ "</display-name>".toList ++
    writeIcon (logoUrl.map String.toList) ++ "</channel>\n".toList

/-- The first elements of a programme, in both branches of the handler. -/
def writeProgrammeHead (channelId : Uuid) (startsAt stopsAt : Instant) (title : String)
    (description : Option String) (categories : List String) : List Char :=
  "  <programme channel=\"".toList ++ uuidText channelId ++ "\" start=\"".toList ++
    env.stamp startsAt ++ "\" stop=\"".toList ++ env.stamp stopsAt ++ "\"><title>".toList ++
    xmlEscape title.toList ++ "</title>".toList ++ writeDescription description ++
    writeCategories categories

/-- The icon of a sports programme: the matchup image, or the logo of the home team. -/
def programmeIcon (artBase : Option (List Char)) (sports : SportsInfo) : Option (List Char) :=
  (artBase.bind fun base => matchupArtUrl env base sports).or
    (sports.iconUrl.map String.toList)

def writeSports (artBase : Option (List Char)) (sports : Option SportsInfo) : List Char :=
  sports.elim [] fun sports =>
    writeIcon (programmeIcon env artBase sports) ++
      "<episode-num system=\"original-air-date\">".toList ++ env.date sports.localDate ++
      "</episode-num><live/>".toList

def writeProgrammeRow (channelId : Uuid) (programme : ProgrammeRow)
    (artBase : Option (List Char)) : List Char :=
  writeProgrammeHead env channelId programme.startsAt programme.stopsAt programme.title
      programme.description programme.categoryList ++
    writeSports env artBase (programme.sports env) ++ "</programme>\n".toList

def guideHeader : List Char :=
  ("<?xml version=\"1.0\" encoding=\"UTF-8\"?>\n" ++
    "<tv generator-info-name=\"IPTV Gateway\">\n").toList

/-- The channel of a programme: by its id, or the first one with the provider's name. -/
def resolveChannel (channels : List ChannelRow) (programme : ProgrammeRow) : Option ChannelRow :=
  (programme.channelId.bind fun id => channels.reverse.find? fun channel => channel.id = id).or
    (channels.find? fun channel => channel.providerName = programme.channelName)

/-- The programmes that are written, with their channels. -/
def resolvedProgrammes (channels : List ChannelRow) (programmes : List ProgrammeRow) :
    List (ChannelRow × ProgrammeRow) :=
  programmes.filterMap fun programme =>
    (resolveChannel channels programme).map fun channel => (channel, programme)

/-- `public_base_url.trim_end_matches('/')`, and the directory of the images. -/
def artBaseOf (publicBaseUrl token : String) : List Char :=
  (publicBaseUrl.toList.reverse.dropWhile fun c => c = '/').reverse ++ "/out/".toList ++
    token.toList ++ "/art".toList

/-- The guide of the database. -/
def xmltvOfDatabase (publicBaseUrl token : String) (now : Instant) (channels : List ChannelRow)
    (programmes : List ProgrammeRow) : List Char :=
  let resolved := resolvedProgrammes channels programmes
  guideHeader ++
    (channels.flatMap fun channel => writeChannel channel.id channel.name channel.logoUrl) ++
    (resolved.flatMap fun row =>
      writeProgrammeRow env row.1.id row.2 (some (artBaseOf publicBaseUrl token))) ++
    (channels.flatMap fun channel =>
      writeNoProgramPlaceholders env channel.id now
        ((resolved.filter fun row => row.1.id = channel.id).map fun row =>
          (row.2.startsAt, row.2.stopsAt))) ++
    "</tv>\n".toList

/-- `sort_by_key` of the programmes whose channel is enabled. -/
def enabledProgrammes (catalog : CatalogSnapshot) : List ProgrammeRecord :=
  Sorting.sortBy (fun programme => toLex (programme.channelId.toFin, programme.startsAt))
    (catalog.programmes.filter fun programme =>
      (catalog.channels.filter ChannelRecord.enabled).any fun channel =>
        channel.id = programme.channelId)

/-- The guide of the catalog in memory. -/
def xmltvOfMemory (now : Instant) (catalog : CatalogSnapshot) : List Char :=
  let channels := catalog.channels.filter ChannelRecord.enabled
  let programmes := enabledProgrammes catalog
  guideHeader ++
    (channels.flatMap fun channel => writeChannel channel.id channel.name channel.logoUrl) ++
    (programmes.flatMap fun programme =>
      writeProgrammeHead env programme.channelId programme.startsAt programme.stopsAt
        programme.title programme.description programme.categories ++
        "</programme>\n".toList) ++
    (channels.flatMap fun channel =>
      writeNoProgramPlaceholders env channel.id now
        ((programmes.filter fun programme => programme.channelId = channel.id).map fun programme =>
          (programme.startsAt, programme.stopsAt))) ++
    "</tv>\n".toList

/-- The catalog that the state of the server has. -/
inductive GuideSource where
  | database (channels : List ChannelRow) (programmes : List ProgrammeRow)
  | memory (catalog : CatalogSnapshot)

/-- `xmltv`: the body of the response. -/
def xmltv (publicBaseUrl token : String) (now : Instant) : GuideSource → List Char
  | .database channels programmes =>
    xmltvOfDatabase env publicBaseUrl token now channels programmes
  | .memory catalog => xmltvOfMemory env now catalog

end Write

end IptvRelay.Output
