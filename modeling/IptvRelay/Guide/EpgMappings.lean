import IptvRelay.Catalog.Channels
import IptvRelay.Lib.Sorting
import Mathlib.Data.List.Dedup
import Mathlib.Data.Prod.Lex
import Mathlib.Algebra.Order.Ring.Rat

/-!
# Mappings of channels to the guide

Model of `reconcile_epg_mappings` and of the statements of the operator on
`channel_epg_mappings` in `persistence/src/catalog.rs`. The collation of the database and
`normalize_channel_name` are parameters. A statement takes the rows of a table in the order of
the list. Identifiers of candidates and times of change are left out.
-/

namespace IptvRelay.Guide.EpgMappings

open Catalog (ChannelRow Management)
open Store (Time SnapshotRow)

/-- `epg_channels`, with the value of the first display name. -/
structure EpgChannel extends Store.EpgChannelRow where
  displayName : Option String := none
  deriving DecidableEq, Repr

/-- `channel_aliases`. -/
structure ChannelAlias where
  canonicalName : String
  aliasName : String
  deriving DecidableEq, Repr

inductive MappingMethod where
  | manual
  | previous
  | tvgId
  | callsign
  | alias
  | exactName
  | fuzzy
  | generated
  deriving DecidableEq, Repr

inductive ReviewStatus where
  | applied
  | review
  | rejected
  | manual
  deriving DecidableEq, Repr

/-- The JSON of the column `evidence`. -/
inductive MatchEvidence where
  | tvgIdExact
  | normalizedName (channelName epgName : String)
  | channelAlias (channelName canonicalName epgName : String)
  | ambiguousNormalizedName (channelName : String)
  | manualOverride (setBy : String)
  | other (json : String)
  deriving DecidableEq, Repr

/-- `review_candidates`. -/
structure ReviewCandidate where
  channelId : Store.Uuid
  epgChannelId : Store.Uuid
  method : MappingMethod
  confidence : ℚ
  evidence : MatchEvidence
  deriving DecidableEq, Repr

/-- `channel_epg_mappings`. -/
structure EpgMapping extends ReviewCandidate where
  reviewStatus : ReviewStatus := .applied
  reviewedBy : Option String := none
  reviewedAt : Option Time := none
  revision : Nat := 1
  deriving DecidableEq, Repr

structure EpgMappingStats where
  mappingsApplied : Nat
  mappingsRemoved : Nat
  reviewQueued : Nat
  deriving DecidableEq, Repr

/-- The tables that a reconciliation reads only. -/
structure EpgSources where
  channels : List ChannelRow
  epgChannels : List EpgChannel
  snapshots : List SnapshotRow
  aliases : List ChannelAlias

structure EpgTables extends EpgSources where
  mappings : List EpgMapping := []
  candidates : List ReviewCandidate := []

/-- What the code takes from the database. -/
structure TextFunctions where
  lower : String → String
  normalizeChannelName : String → String

/-- The normalized name of a missing name is empty. -/
def TextFunctions.normalize (text : TextFunctions) (raw : Option String) : String :=
  (raw.map text.normalizeChannelName).getD ""

/-! ## Names of episodes -/

/-- `s[0-9]+ e[0-9]`. -/
def startsEpisode : List Char → Bool
  | 's' :: rest =>
    rest.head?.any Char.isDigit && match rest.dropWhile Char.isDigit with
      | ' ' :: 'e' :: digit :: _ => digit.isDigit
      | _ => false
  | _ => false

/-- `[0-9]{4}`. -/
def startsYear (text : List Char) : Bool :=
  (text.take 4).length = 4 && (text.take 4).all Char.isDigit

/-- `SIMILAR TO '%(s[0-9]+ e[0-9]+|[0-9]{4})%'`. -/
def isEpisode (name : String) : Bool :=
  name.toList.tails.any fun rest => startsEpisode rest || startsYear rest

/-! ## Matches of one channel -/

namespace EpgSources

variable (text : TextFunctions) (sources : EpgSources)

/-- The active snapshot of a guide channel. -/
def activeSnapshot (epg : EpgChannel) : Option SnapshotRow :=
  sources.snapshots.find? fun snapshot => snapshot.id = epg.snapshot ∧ snapshot.status = .active

/-- `activated_at DESC NULLS LAST`. -/
def activation (snapshot : SnapshotRow) : Bool ×ₗ Timeᵒᵈ :=
  toLex (snapshot.activatedAt.isNone, OrderDual.toDual (snapshot.activatedAt.getD 0))

/-- `DISTINCT ON (lower(ec.xmltv_id))`. -/
def activeEpgChannel (xmltvId : String) : Option EpgChannel :=
  let active := sources.epgChannels.filterMap fun epg =>
    (sources.activeSnapshot epg).map fun snapshot => (snapshot, epg)
  let newest : List (SnapshotRow × EpgChannel) := Sorting.sortBy
    (fun row => (toLex (activation row.1, OrderDual.toDual row.2.id) :
      (Bool ×ₗ Timeᵒᵈ) ×ₗ Store.Uuidᵒᵈ))
    (active.filter fun row => text.lower row.2.xmltvId = xmltvId)
  newest.head?.map Prod.snd

def tvgMatch (channel : ChannelRow) : Option EpgMapping := do
  let key ← channel.canonicalKey
  guard ¬("stream:".toList <+: key.toList)
  let epg ← sources.activeEpgChannel text (text.lower key)
  return {
    channelId := channel.id
    epgChannelId := epg.id
    method := .tvgId
    confidence := 99 / 100
    evidence := .tvgIdExact }

def latestActiveXmltv : Option Store.Uuid :=
  (Sorting.sortBy activation (sources.snapshots.filter fun snapshot =>
    snapshot.kind = .xmltv ∧ snapshot.status = .active)).head?.map SnapshotRow.id

/-- The guide channels of the latest guide by their normalized name. -/
def epgNames (name : String) : List Store.Uuid :=
  if name = "" then [] else
    (sources.epgChannels.filter fun epg => sources.latestActiveXmltv = some epg.snapshot ∧
      text.normalize epg.displayName = name).map fun epg => epg.id

def uniqueEpgName (name : String) : Option Store.Uuid :=
  match sources.epgNames text name with
  | [id] => some id
  | _ => none

def isAutomatic (channel : ChannelRow) : Bool :=
  channel.managedBy = .automatic ∧ channel.canonicalKey.isSome

def channelNorm (channel : ChannelRow) : String := text.normalizeChannelName channel.name

def nameMatch (channel : ChannelRow) : Option EpgMapping := do
  let norm := channelNorm text channel
  guard (isAutomatic channel ∧ isEpisode norm = false)
  let epgId ← sources.uniqueEpgName text norm
  return {
    channelId := channel.id
    epgChannelId := epgId
    method := .exactName
    confidence := 9 / 10
    evidence := .normalizedName norm norm }

/-- One row for each alias of the name. -/
def aliasMatches (channel : ChannelRow) : List EpgMapping :=
  let norm := channelNorm text channel
  if isAutomatic channel ∧ norm ≠ "" then
    (sources.aliases.filter fun row => text.normalizeChannelName row.aliasName = norm).filterMap
      fun row =>
        let canonical := text.normalizeChannelName row.canonicalName
        (sources.uniqueEpgName text canonical).map fun epgId => {
          channelId := channel.id
          epgChannelId := epgId
          method := .alias
          confidence := 85 / 100
          evidence := .channelAlias norm row.canonicalName canonical }
  else []

/-- The candidates for a name that several guide channels have. -/
def ambiguousMatches (channel : ChannelRow) : List ReviewCandidate :=
  let norm := channelNorm text channel
  let epgIds := Sorting.sortBy id (sources.epgNames text norm)
  if isAutomatic channel ∧ isEpisode norm = false ∧ 1 < epgIds.length then
    epgIds.map fun epgChannelId => {
      channelId := channel.id
      epgChannelId
      method := .exactName
      confidence := 85 / 100
      evidence := .ambiguousNormalizedName norm }
  else []

/-- The guide channel is still a match of the channel. -/
def isMatch (channel : ChannelRow) (epgId : Store.Uuid) : Bool :=
  sources.epgChannels.any fun epg =>
    epg.id = epgId ∧ (sources.activeSnapshot epg).isSome ∧
      (channel.canonicalKey.map text.lower = some (text.lower epg.xmltvId) ∨
        text.normalize epg.displayName = channelNorm text channel ∨
        sources.aliases.any fun row =>
          text.normalizeChannelName row.aliasName = channelNorm text channel ∧
            text.normalizeChannelName row.canonicalName = text.normalize epg.displayName)

end EpgSources

/-! ## The reconciliation -/

/-- `ON CONFLICT (channel_id) DO UPDATE … WHERE review_status <> 'manual'`. -/
def EpgMapping.replace (old new : EpgMapping) : EpgMapping :=
  if old.reviewStatus = .manual then old
  else { new with
    reviewedBy := old.reviewedBy
    reviewedAt := old.reviewedAt
    revision := old.revision + 1 }

/-- The mapping that a candidate becomes before its review. -/
def ReviewCandidate.reviewed (candidate : ReviewCandidate) : EpgMapping :=
  { candidate with reviewStatus := .review }

/-- `DISTINCT ON (rc.channel_id) … ORDER BY rc.confidence DESC, rc.epg_channel_id ASC`. -/
def topCandidate (candidates : List ReviewCandidate) : Option ReviewCandidate :=
  (Sorting.sortBy (fun candidate =>
    (toLex (OrderDual.toDual candidate.confidence, candidate.epgChannelId) : ℚᵒᵈ ×ₗ Store.Uuid))
    candidates).head?

namespace EpgTables

variable (text : TextFunctions) (tables : EpgTables)

def mapping (channelId : Store.Uuid) : Option EpgMapping :=
  tables.mappings.find? fun mapping => mapping.channelId = channelId

def isMapped (channel : ChannelRow) : Bool := (tables.mapping channel.id).isSome

def isManual (channelId : Store.Uuid) : Bool :=
  (tables.mapping channelId).any fun mapping => mapping.reviewStatus = .manual

/-- One `INSERT` for many channels. It fails when it would write a row twice. -/
def applyMappings (new : List EpgMapping) : Option (EpgTables × Nat) :=
  if (new.map fun mapping => mapping.channelId).Nodup then
    let merged := new.foldl
      (Table.mergeRow (fun mapping => mapping.channelId) EpgMapping.replace) tables.mappings
    some ({ tables with mappings := merged },
      (new.filter fun mapping => !tables.isManual mapping.channelId).length)
  else none

def tvgMatches : List EpgMapping :=
  (tables.channels.filter fun channel => !tables.isManual channel.id).filterMap
    (tables.tvgMatch text)

def unmapped : List ChannelRow := tables.channels.filter fun channel => !tables.isMapped channel

def nameMatches : List EpgMapping := tables.unmapped.filterMap (tables.nameMatch text)

def allAliasMatches : List EpgMapping := tables.unmapped.flatMap (tables.aliasMatches text)

/-- `ON CONFLICT (channel_id, epg_channel_id) DO NOTHING`. -/
def queueReview : EpgTables × Nat :=
  let queued := (tables.unmapped.flatMap (tables.ambiguousMatches text)).foldl
    (Table.mergeRow (fun candidate => (candidate.channelId, candidate.epgChannelId))
      fun old _ => old) tables.candidates
  ({ tables with candidates := queued }, queued.length - tables.candidates.length)

/-- Channels with candidates and without a mapping get one for review. -/
def mapReviewed : EpgTables :=
  let waiting := tables.candidates.filter fun row => (tables.mapping row.channelId).isNone
  let channelIds := Sorting.sortBy id (waiting.map fun row => row.channelId).dedup
  let new := channelIds.filterMap fun channelId =>
    (topCandidate (waiting.filter fun row => row.channelId = channelId)).map
      ReviewCandidate.reviewed
  { tables with
    mappings := new.foldl (Table.mergeRow (fun mapping => mapping.channelId) fun old _ => old)
      tables.mappings }

/-- An automatic mapping whose guide channel is no match any more. -/
def isStale (mapping : EpgMapping) : Bool :=
  mapping.reviewStatus ≠ .manual ∧ tables.channels.any fun channel =>
    channel.id = mapping.channelId ∧ EpgSources.isAutomatic channel ∧
      tables.isMatch text channel mapping.epgChannelId = false

def removeStale : EpgTables × Nat :=
  ({ tables with mappings := Table.delete (tables.isStale text) tables.mappings },
    Table.count (tables.isStale text) tables.mappings)

/-- The transaction; `none` is rolled back. -/
def reconcileEpgMappings : Option (EpgTables × EpgMappingStats) := do
  let tables := { tables with candidates := [] }
  let (tables, tvgApplied) ← tables.applyMappings (tables.tvgMatches text)
  let (tables, nameApplied) ← tables.applyMappings (tables.nameMatches text)
  let (tables, aliasApplied) ← tables.applyMappings (tables.allAliasMatches text)
  let (tables, reviewQueued) := tables.queueReview text
  let (tables, removed) := tables.mapReviewed.removeStale text
  return (tables, {
    mappingsApplied := tvgApplied + nameApplied + aliasApplied
    mappingsRemoved := removed
    reviewQueued })

/-! ## The operator -/

/-- `none` is a violated reference. -/
def setManualEpgMapping (now : Time) (channelId epgChannelId : Store.Uuid) (actor : String) :
    Option EpgTables :=
  if channelId ∈ tables.channels.map ChannelRow.id ∧
      epgChannelId ∈ tables.epgChannels.map (fun epg => epg.id) then
    let mapping : EpgMapping := {
      channelId
      epgChannelId
      method := .manual
      confidence := 1
      evidence := .manualOverride actor
      reviewStatus := .manual
      reviewedBy := some actor
      reviewedAt := some now }
    some { tables with
      mappings := Table.mergeRow (fun mapping => mapping.channelId)
        (fun old new => { new with revision := old.revision + 1 }) tables.mappings mapping }
  else none

def removeEpgMapping (channelId : Store.Uuid) : EpgTables :=
  { tables with
    mappings := Table.delete (fun mapping => mapping.channelId = channelId) tables.mappings }

/-- The update of `resolve_review`. An accepted review needs a guide channel that exists. -/
def resolveReview (now : Time) (channelId : Store.Uuid) (accept : Bool)
    (epgChannelId : Option Store.Uuid)
    (actor : String) : Option EpgTables :=
  let resolved (f : EpgMapping → EpgMapping) : EpgTables :=
    let update (mapping : EpgMapping) : EpgMapping := { f mapping with
      reviewedBy := some actor
      reviewedAt := some now
      revision := mapping.revision + 1 }
    { tables with
      mappings :=
        Table.update (fun mapping => mapping.channelId = channelId) update tables.mappings }
  if accept then do
    let epgId ← epgChannelId
    guard ((tables.mapping channelId).isNone ∨ epgId ∈ tables.epgChannels.map fun epg => epg.id)
    return resolved fun mapping => { mapping with
      epgChannelId := epgId
      method := .manual
      confidence := 1
      reviewStatus := .applied }
  else some (resolved fun mapping => { mapping with reviewStatus := .rejected })

/-- The delete of `resolve_review`. -/
def dropCandidates (channelId : Store.Uuid) : EpgTables :=
  { tables with
    candidates := Table.delete (fun row => row.channelId = channelId) tables.candidates }

end EpgTables

end IptvRelay.Guide.EpgMappings
