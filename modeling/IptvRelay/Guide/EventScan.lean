import IptvRelay.Guide.EventPlans
import IptvRelay.Lib.Table

/-!
# The event scan

Model of `run_event_scan`, `scan_event_channels_report`, `write_event_channel_guide` and
`clear_unowned_event_channels` in `persistence/src/catalog.rs`, with the constraints on
`generated_programmes`. The tables have the columns that the scan reads or writes, apart from
revisions and times of change. New ids come from a supply.
-/

namespace IptvRelay.Guide

open Checked

/-! ## Tables that the scan reads -/

structure ChannelStream where
  channelId : Uuid
  providerStreamId : Uuid
  priority : Nat

structure ProviderStream where
  id : Uuid
  snapshotId : Uuid
  providerAccountId : Uuid
  name : String
  groupName : Option String
  supported : Bool

inductive SnapshotStatus where
  | staging
  | active
  | rejected
  | superseded
  deriving DecidableEq, Repr

structure SourceSnapshot where
  id : Uuid
  status : SnapshotStatus
  activatedAt : Option Int
  fetchedAt : Int

structure ProviderAccount where
  id : Uuid
  sourceTimezone : Option String

/-- The rows of the region settings are replaced by the answer to the query for the time zone. -/
structure ScanCatalog where
  templates : List EventTemplateRow
  channelStreams : List ChannelStream
  providerStreams : List ProviderStream
  snapshots : List SourceSnapshot
  accounts : List ProviderAccount
  regionTimezone : Option String
  template_ids : (templates.map EventTemplateRow.id).Nodup

/-! ## Tables that the scan writes -/

structure ScanChannel where
  id : Uuid
  enabled : Bool
  eventName : Option String

/-- `event_channels`. -/
structure EventChannelRow where
  id : Uuid
  templateId : Uuid
  channelId : Option Uuid
  slotNumber : Int
  eventTitle : Option String
  eventStart : Option Int
  eventEnd : Option Int
  rawStreamName : Option String
  state : EventChannelState

/-- The members of the `metadata` object. -/
structure ProgrammeMetadata where
  template : String
  sourceTitle : String
  stableName : Option String
  sports : Option SportsInfo
  description : Option String

/-- `generated_programmes`. -/
structure GeneratedProgrammeRow where
  id : Uuid
  eventChannelId : Uuid
  channelId : Uuid
  templateId : Uuid
  ruleId : Uuid
  ruleName : String
  stableEventKey : Option String
  sourceTitle : String
  kind : GeneratedProgrammeKind
  startsAt : Int
  stopsAt : Int
  title : String
  categories : List String
  metadata : ProgrammeMetadata

structure EventTables where
  channels : List ScanChannel
  eventChannels : List EventChannelRow
  generated : List GeneratedProgrammeRow

/-- `gen_random_uuid` and `now_v7`: an id that is not in use. -/
structure IdSupply where
  fresh : List Uuid → Uuid
  fresh_new : ∀ used, fresh used ∉ used

inductive ScanError where
  | sourceNotFound (templateId : Uuid)
  | database
  deriving DecidableEq, Repr

/-! ## Writing one guide -/

/-- `DELETE FROM event_channels`, with `ON DELETE CASCADE` of the programmes. -/
def EventTables.deleteEventChannels (p : EventChannelRow → Bool) (tables : EventTables) :
    EventTables :=
  { tables with
    eventChannels := Table.delete p tables.eventChannels
    generated := Table.delete (fun programme =>
      (tables.eventChannels.filter p).any fun row => row.id = programme.eventChannelId)
      tables.generated }

/-- The columns that the upsert sets. -/
def PlannedEventChannel.fill (plan : PlannedEventChannel) (row : EventChannelRow) :
    EventChannelRow :=
  { row with
    slotNumber := plan.slot
    eventTitle := some plan.event.title
    eventStart := some plan.event.startsAt
    eventEnd := some plan.event.stopsAt
    rawStreamName := some plan.rawStreamName
    state := plan.state }

/-- The row of a plan, with this id. -/
def PlannedEventChannel.row (plan : PlannedEventChannel) (id : Uuid) : EventChannelRow where
  id
  templateId := plan.template.id
  channelId := some plan.channelId
  slotNumber := plan.slot
  eventTitle := some plan.event.title
  eventStart := some plan.event.startsAt
  eventEnd := some plan.event.stopsAt
  rawStreamName := some plan.rawStreamName
  state := plan.state

/-- The row is the one of the template and the channel of the plan. -/
def PlannedEventChannel.owns (plan : PlannedEventChannel) (row : EventChannelRow) : Bool :=
  row.templateId = plan.template.id ∧ row.channelId = some plan.channelId

/-- A row of an earlier owner of the channel. -/
def PlannedEventChannel.replaces (plan : PlannedEventChannel) (row : EventChannelRow) : Bool :=
  row.channelId = some plan.channelId ∧ row.templateId ≠ plan.template.id

/-- `upsert_event_channel_row`: the rows, and the id of the row of the plan. -/
def upsertEventChannelRow (ids : IdSupply) (plan : PlannedEventChannel)
    (rows : List EventChannelRow) : Uuid × List EventChannelRow :=
  match rows.find? plan.owns with
  | some row => (row.id, Table.update plan.owns plan.fill rows)
  | none =>
    let id := ids.fresh (rows.map EventChannelRow.id)
    (id, rows ++ [plan.row id])

/-- The values of `INSERT INTO generated_programmes`. -/
def PlannedEventChannel.stored (plan : PlannedEventChannel) (rowId id : Uuid)
    (programme : GeneratedProgramme) : GeneratedProgrammeRow :=
  let sports := plan.sports.filter fun _ => programme.kind = .event
  let kind :=
    match programme.kind with
    | .event => "event"
    | .filler => "filler"
  { id
    eventChannelId := rowId
    channelId := plan.channelId
    templateId := plan.template.id
    ruleId := plan.template.id
    ruleName :=
      if programme.kind = .filler then plan.template.displayName ++ " filler"
      else plan.template.displayName
    stableEventKey := programme.stableEventKey
    sourceTitle := programme.sourceTitle
    kind := programme.kind
    startsAt := programme.startsAt
    stopsAt := programme.stopsAt
    title := programme.title
    categories := (sports.map SportsInfo.categories).getD ["Dynamic event", kind]
    metadata := {
      template := plan.template.name
      sourceTitle := programme.sourceTitle
      stableName := plan.stableName
      sports
      description := sports.map fun info => info.description programme.title } }

/-- The checks of the schema on a new row: its interval, no overlap on the channel, and no second
row with its key. -/
def Insertable (rows : List GeneratedProgrammeRow) (row : GeneratedProgrammeRow) : Prop :=
  row.startsAt < row.stopsAt ∧
    (∀ old ∈ rows, old.channelId = row.channelId →
      old.stopsAt ≤ row.startsAt ∨ row.stopsAt ≤ old.startsAt) ∧
    ∀ old ∈ rows, old.eventChannelId = row.eventChannelId →
      row.stableEventKey = none ∨ old.stableEventKey ≠ row.stableEventKey

instance (rows : List GeneratedProgrammeRow) (row : GeneratedProgrammeRow) :
    Decidable (Insertable rows row) := by
  unfold Insertable
  infer_instance

def insertProgramme (ids : IdSupply) (plan : PlannedEventChannel) (rowId : Uuid)
    (rows : List GeneratedProgrammeRow) (programme : GeneratedProgramme) :
    Except ScanError (List GeneratedProgrammeRow) := do
  let row := plan.stored rowId (ids.fresh (rows.map GeneratedProgrammeRow.id)) programme
  ensure (Insertable rows row) ScanError.database
  return rows ++ [row]

def setEventName (plan : PlannedEventChannel) (channels : List ScanChannel) : List ScanChannel :=
  Table.update (fun channel => channel.id = plan.channelId)
    (fun channel => { channel with eventName := plan.stableName }) channels

def writeEventChannelGuide (ids : IdSupply) (plan : PlannedEventChannel) (tables : EventTables) :
    Except ScanError EventTables := do
  let tables := tables.deleteEventChannels plan.replaces
  let (rowId, eventChannels) := upsertEventChannelRow ids plan tables.eventChannels
  let others := Table.delete (fun programme => programme.channelId = plan.channelId)
    tables.generated
  let generated ← plan.programmes.foldlM (insertProgramme ids plan rowId) others
  return { channels := setEventName plan tables.channels, eventChannels, generated }

/-! ## Clearing -/

/-- `$2::uuid IS NULL OR template_id = $2`. -/
def inScope (scope : Option Uuid) (templateId : Uuid) : Bool := scope.all fun id => id = templateId

/-- The event name goes if the channel has no owner and, in a scan for one template, a row of it. -/
def clearsName (owned : List Uuid) (scope : Option Uuid) (rows : List EventChannelRow)
    (channel : ScanChannel) : Bool :=
  channel.id ∉ owned ∧ scope.all fun id => rows.any fun row =>
    row.channelId = some channel.id ∧ row.templateId = id

def EventChannelRow.hide (row : EventChannelRow) : EventChannelRow := { row with state := .hidden }

/-- The row has no channel with an owner. -/
def EventChannelRow.unowned (owned : List Uuid) (row : EventChannelRow) : Bool :=
  row.channelId.all fun id => id ∉ owned

def clearUnownedEventChannels (owned : List Uuid) (scope : Option Uuid) (tables : EventTables) :
    EventTables where
  channels := Table.update (clearsName owned scope tables.eventChannels)
    (fun channel => { channel with eventName := none }) tables.channels
  generated := Table.delete (fun programme =>
    programme.channelId ∉ owned ∧ inScope scope programme.templateId) tables.generated
  eventChannels := Table.update (fun row => row.unowned owned && inScope scope row.templateId)
    EventChannelRow.hide tables.eventChannels

/-! ## The scan -/

/-- The joins of the candidate query, in the order of the channels and priorities. -/
def scanCandidates (catalog : ScanCatalog) (channels : List ScanChannel) :
    List EventScanCandidate :=
  let links := (channels.filter ScanChannel.enabled).flatMap fun channel =>
    catalog.channelStreams.filter fun link => link.channelId = channel.id
  (Sorting.sortBy (fun link : ChannelStream => toLex (link.channelId, link.priority)) links).flatMap
    fun link => (catalog.providerStreams.filter fun stream =>
      stream.id = link.providerStreamId ∧ stream.supported).flatMap fun stream =>
        (catalog.snapshots.filter fun snapshot =>
          snapshot.id = stream.snapshotId ∧ snapshot.status = .active).flatMap fun snapshot =>
            (catalog.accounts.filter fun account => account.id = stream.providerAccountId).map
              fun account =>
                { channelId := link.channelId
                  streamName := stream.name
                  groupName := stream.groupName
                  sourceTimezone := account.sourceTimezone
                  snapshotAt := some (snapshot.activatedAt.getD snapshot.fetchedAt) }

/-- The loop over the candidates: those with one channel id that follow each other. -/
def channelGroups : List EventScanCandidate → List (List EventScanCandidate)
  | [] => []
  | candidate :: rest =>
    (candidate :: rest.takeWhile fun next => next.channelId = candidate.channelId) ::
      channelGroups (rest.dropWhile fun next => next.channelId = candidate.channelId)
termination_by candidates => candidates.length
decreasing_by
  have hlength := (List.dropWhile_sublist
    (fun next : EventScanCandidate => next.channelId = candidate.channelId) (l := rest)).length_le
  simp only [List.length_cons]
  omega

/-- The enabled templates, with the built-in one behind all others. -/
def scanTemplates (catalog : ScanCatalog) : List EventTemplateRow :=
  Sorting.sortBy (fun template : EventTemplateRow =>
      toLex (decide (template.id = builtinEventTemplateId), template.name))
    (catalog.templates.filter EventTemplateRow.enabled)

def ChannelScanOutcome.plan? : ChannelScanOutcome → Option PlannedEventChannel
  | .planned plan => some plan
  | _ => none

structure EventScanReport where
  channelsScanned : Nat := 0
  matched : Nat := 0
  scheduled : Nat := 0
  skipped : Nat := 0
  skips : List EventScanSkip := []

def maxEventScanSkips : Nat := 200

def EventScanReport.skip (report : EventScanReport) (record : EventScanSkip) : EventScanReport :=
  if report.skips.length < maxEventScanSkips then
    { report with skips := report.skips ++ [record] }
  else report

section Scan

variable (env : ScanEnvironment) (settings : EventScanSettings) (now : Int)
  (catalog : ScanCatalog)

/-- What the loop over the channels gives. -/
def scanOutcomes (channels : List ScanChannel) : List (ChannelScanOutcome × List EventScanSkip) :=
  (channelGroups (scanCandidates catalog channels)).map
    (evaluate env settings now catalog.regionTimezone (scanTemplates catalog))

def plannedChannels (channels : List ScanChannel) : List PlannedEventChannel :=
  (scanOutcomes env settings now catalog channels).filterMap fun outcome => outcome.1.plan?

/-- The plan with its sports metadata, if the scan is for its template. -/
def enrichPlan (client : Option SportsClient) (scope : Option Uuid) (plan : PlannedEventChannel) :
    PlannedEventChannel :=
  match client with
  | none => plan
  | some client =>
    if inScope scope plan.template.id ∧ plan.state ≠ .hidden then
      enrichWithSports env settings now client plan
    else plan

/-- The records for the templates with a regular expression that does not compile. -/
def invalidTemplates (templates : List EventTemplateRow) : List EventScanSkip :=
  templates.filterMap fun template =>
    match env.compileRegex template.matchRegex with
    | .ok _ => none
    | .error error => some {
        templateId := some template.id
        channelId := none
        streamName := ""
        reason := "matchRegex is not a valid Rust regex: " ++ error }

/-- The report of the loop over the channels. -/
def reportOutcome (scope : Option Uuid) (report : EventScanReport)
    (outcome : ChannelScanOutcome × List EventScanSkip) : EventScanReport :=
  let report := outcome.2.foldl EventScanReport.skip
    { report with channelsScanned := report.channelsScanned + 1 }
  match outcome.1 with
  | .skipped templateId =>
    if inScope scope templateId then
      { report with matched := report.matched + 1, skipped := report.skipped + 1 }
    else report
  | _ => report

/-- The report of the loop over the plans. -/
def reportPlan (report : EventScanReport) (plan : PlannedEventChannel) : EventScanReport :=
  if plan.state = .hidden then
    { report with matched := report.matched + 1, skipped := report.skipped + 1 }.skip {
      templateId := some plan.template.id
      channelId := some plan.channelId
      streamName := plan.rawStreamName
      reason := "event ended before the guide window" }
  else { report with matched := report.matched + 1, scheduled := report.scheduled + 1 }

/-- The report of a scan with these outcomes that wrote these plans. -/
def scanReport (scope : Option Uuid) (outcomes : List (ChannelScanOutcome × List EventScanSkip))
    (plans : List PlannedEventChannel) : EventScanReport :=
  let compiled := (invalidTemplates env (scanTemplates catalog)).foldl EventScanReport.skip {}
  let scanned := outcomes.foldl (reportOutcome scope) compiled
  let report := plans.foldl reportPlan scanned
  { report with skips := report.skips.filter fun record => record.templateId.all (inScope scope) }

/-- `run_event_scan`, with the client of the repository. -/
def runEventScan (ids : IdSupply) (repositoryClient : Option SportsClient) (scope : Option Uuid)
    (tables : EventTables) : Except ScanError (EventScanReport × EventTables) := do
  let planned := (plannedChannels env settings now catalog tables.channels).map
    (enrichPlan env settings now (settings.sports.or repositoryClient) scope)
  let owned := planned.map PlannedEventChannel.channelId
  let inScopePlans := planned.filter fun plan => inScope scope plan.template.id
  let written ← inScopePlans.foldlM (fun tables plan => writeEventChannelGuide ids plan tables) tables
  let report := scanReport env catalog scope
    (scanOutcomes env settings now catalog tables.channels) inScopePlans
  return (report, clearUnownedEventChannels owned scope written)

def scanAllEventChannelsAt (ids : IdSupply) (repositoryClient : Option SportsClient)
    (tables : EventTables) : Except ScanError (EventScanReport × EventTables) :=
  runEventScan env settings now catalog ids repositoryClient none tables

def scanEventChannelsReport (ids : IdSupply) (repositoryClient : Option SportsClient)
    (templateId : Uuid) (tables : EventTables) :
    Except ScanError (EventScanReport × EventTables) :=
  match catalog.templates.find? fun template => template.id = templateId with
  | none => .error (.sourceNotFound templateId)
  | some template =>
    if template.enabled then
      runEventScan env settings now catalog ids repositoryClient (some templateId) tables
    else .ok ({}, tables)

/-- One scan for each of the templates, one after another. -/
def scanEach (ids : IdSupply) (repositoryClient : Option SportsClient) (templateIds : List Uuid)
    (tables : EventTables) : Except ScanError EventTables :=
  templateIds.foldlM (fun tables templateId => do
    let (_, tables) ← scanEventChannelsReport env settings now catalog ids repositoryClient
      templateId tables
    return tables) tables

end Scan

end IptvRelay.Guide
