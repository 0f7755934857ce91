import IptvRelay.Catalog.Channels
import IptvRelay.Lib.Sorting
import Mathlib.Data.Prod.Lex

/-!
# Rolling back a reconciliation

Model of `rollback_reconciliation` and `capture_reconciliation_snapshot` in
`persistence/src/catalog.rs`. A text of JSON stands for itself and a confidence is the bits of its
`f32`. The columns of `channel_streams` for failover, and times of change, are left out.
-/

namespace IptvRelay.Catalog

open Store (Uuid)
open Checked

/-! ## Links and mappings -/

/-- `channel_streams`, and a link of a snapshot. -/
structure LinkRow where
  channelId : Uuid
  providerStreamId : Uuid
  priority : Nat
  evidence : String
  deriving DecidableEq, Repr

def LinkRow.key (link : LinkRow) : Uuid ×ₗ Uuid := toLex (link.channelId, link.providerStreamId)

def LinkRow.place (link : LinkRow) : Uuid × Nat := (link.channelId, link.priority)

structure SnapshotEpgMapping where
  channelId : Uuid
  epgChannelId : Uuid
  method : String
  confidence : Nat
  evidence : String
  reviewStatus : String
  reviewedBy : Option String
  reviewedAt : Option Int
  deriving DecidableEq, Repr

/-- `channel_epg_mappings`. -/
structure EpgMappingRow extends SnapshotEpgMapping where
  revision : Nat
  deriving DecidableEq, Repr

/-- The table with its primary key and its unique index. -/
structure Links where
  rows : List LinkRow
  keys : (rows.map LinkRow.key).Nodup
  places : (rows.map LinkRow.place).Nodup

/-- The table with its primary key. -/
structure Mappings where
  rows : List EpgMappingRow
  channels : (rows.map fun mapping => mapping.channelId).Nodup

namespace Links

def delete (links : Links) (p : LinkRow → Bool) : Links where
  rows := Table.delete p links.rows
  keys := Table.nodup_delete links.keys
  places := Table.nodup_delete links.places

/-- `INSERT … ON CONFLICT (channel_id, provider_stream_id) DO UPDATE`. -/
def upsert (links : Links) (link : LinkRow) : Option Links :=
  if hplaces : ((Table.upsert LinkRow.key links.rows link).map LinkRow.place).Nodup then
    some ⟨Table.upsert LinkRow.key links.rows link, Table.nodup_upsert links.keys, hplaces⟩
  else none

end Links

namespace Mappings

def delete (mappings : Mappings) (p : EpgMappingRow → Bool) : Mappings where
  rows := Table.delete p mappings.rows
  channels := Table.nodup_delete mappings.channels

/-- `INSERT … ON CONFLICT (channel_id) DO UPDATE`. -/
def upsert (mappings : Mappings) (mapping : SnapshotEpgMapping) : Mappings where
  rows := Table.upsert (fun row : EpgMappingRow => row.channelId) mappings.rows
    { mapping with
      revision := ((mappings.rows.find? fun old => old.channelId = mapping.channelId).map
        fun old => old.revision + 1).getD 1 }
  channels := Table.nodup_upsert mappings.channels

end Mappings

/-! ## Snapshots -/

structure SnapshotChannel where
  id : Uuid
  channelNumber : String
  name : String
  groupName : Option String
  logoUrl : Option String
  enabled : Bool
  canonicalKey : Option String
  deriving DecidableEq, Repr

structure ReconciliationSnapshot where
  channels : List SnapshotChannel
  streamLinks : List LinkRow
  epgMappings : List SnapshotEpgMapping
  deriving DecidableEq, Repr

def ReconciliationSnapshot.ids (snapshot : ReconciliationSnapshot) : List Uuid :=
  snapshot.channels.map SnapshotChannel.id

/-- What holds of every snapshot that was captured from the tables. -/
structure ReconciliationSnapshot.Recorded (snapshot : ReconciliationSnapshot) : Prop where
  ids : snapshot.channels.Pairwise fun a b => a.id < b.id
  numbers : (snapshot.channels.map SnapshotChannel.channelNumber).Nodup
  keys : (snapshot.channels.filterMap SnapshotChannel.canonicalKey).Nodup
  links : snapshot.streamLinks.Pairwise fun a b => a.key < b.key
  places : (snapshot.streamLinks.map LinkRow.place).Nodup
  linked : ∀ link ∈ snapshot.streamLinks, link.channelId ∈ snapshot.ids
  mappings : snapshot.epgMappings.Pairwise fun a b => a.channelId < b.channelId
  mapped : ∀ mapping ∈ snapshot.epgMappings, mapping.channelId ∈ snapshot.ids

def ChannelRow.snapshot (row : ChannelRow) : SnapshotChannel where
  id := row.id
  channelNumber := row.channelNumber
  name := row.name
  groupName := row.groupName
  logoUrl := row.logoUrl
  enabled := row.enabled
  canonicalKey := row.canonicalKey

/-- A channel of the automatic set of the account. -/
def ChannelRow.isAutomatic (account : Uuid) (row : ChannelRow) : Bool :=
  row.account = some account ∧ row.managedBy = .automatic

/-- `capture_reconciliation_snapshot`. -/
def captureSnapshot (channels : Channels) (links : Links) (mappings : Mappings) (account : Uuid) :
    ReconciliationSnapshot :=
  let captured := Sorting.sortBy SnapshotChannel.id
    ((channels.rows.filter (ChannelRow.isAutomatic account)).map ChannelRow.snapshot)
  let ids := captured.map SnapshotChannel.id
  { channels := captured
    streamLinks := Sorting.sortBy LinkRow.key (links.rows.filter fun link => link.channelId ∈ ids)
    epgMappings := Sorting.sortBy SnapshotEpgMapping.channelId
      ((mappings.rows.filter fun mapping => mapping.channelId ∈ ids).map
        EpgMappingRow.toSnapshotEpgMapping) }

theorem ownedKey_of_isAutomatic {account : Uuid} {row : ChannelRow}
    (h : row.isAutomatic account = true) :
    row.ownedKey = row.canonicalKey.map fun key => (account, key) := by
  unfold ChannelRow.ownedKey
  rw [(of_decide_eq_true h).1]
  cases row.canonicalKey with
  | none => rfl
  | some key => rfl

/-- A captured snapshot is well formed. -/
theorem captureSnapshot_recorded (channels : Channels) (links : Links) (mappings : Mappings)
    (account : Uuid) : (captureSnapshot channels links mappings account).Recorded := by
  have hperm := Sorting.sortBy_perm SnapshotChannel.id
    ((channels.rows.filter (ChannelRow.isAutomatic account)).map ChannelRow.snapshot)
  refine ⟨?_, ?_, ?_, ?_, ?_, ?_, ?_, ?_⟩
  · refine Sorting.sortBy_strict ?_
    rw [List.map_map]
    exact channels.ids.sublist (List.filter_sublist.map _)
  · refine (hperm.map _).nodup_iff.mpr ?_
    rw [List.map_map]
    exact channels.numbers.sublist (List.filter_sublist.map _)
  · refine (hperm.filterMap _).nodup_iff.mpr ?_
    rw [List.filterMap_map]
    have hkeys : ((channels.rows.filter (ChannelRow.isAutomatic account)).filterMap
        ChannelRow.ownedKey).Nodup := channels.keys.sublist (List.filter_sublist.filterMap _)
    have howned : (channels.rows.filter (ChannelRow.isAutomatic account)).filterMap
          ChannelRow.ownedKey =
        ((channels.rows.filter (ChannelRow.isAutomatic account)).filterMap
          ChannelRow.canonicalKey).map fun key => (account, key) := by
      rw [List.map_filterMap]
      exact List.filterMap_congr fun row hrow => ownedKey_of_isAutomatic (List.mem_filter.mp hrow).2
    rw [howned] at hkeys
    exact hkeys.of_map _
  · exact Sorting.sortBy_strict (links.keys.sublist (List.filter_sublist.map _))
  · exact ((Sorting.sortBy_perm _ _).map _).nodup_iff.mpr
      (links.places.sublist (List.filter_sublist.map _))
  · intro link hlink
    exact of_decide_eq_true (List.mem_filter.mp ((Sorting.sortBy_perm _ _).mem_iff.mp hlink)).2
  · refine Sorting.sortBy_strict ?_
    rw [List.map_map]
    exact mappings.channels.sublist (List.filter_sublist.map _)
  · intro mapping hmapping
    obtain ⟨row, hrow, rfl⟩ := List.mem_map.mp ((Sorting.sortBy_perm _ _).mem_iff.mp hmapping)
    exact of_decide_eq_true (List.mem_filter.mp hrow).2

/-! ## The catalog -/

/-- The row of `revisions` for one reconciliation. -/
structure ReconciliationRevision where
  account : Uuid
  revision : Nat
  actor : String
  before : Option ReconciliationSnapshot
  after : ReconciliationSnapshot
  recorded : after.Recorded

/-- The tables that a rollback reads and writes. Of the streams, the guide channels and the eight
tables with other dependents of channels only the ids are kept. -/
structure CatalogState where
  channels : Channels
  links : Links
  mappings : Mappings
  dependents : List Uuid
  streams : List Uuid
  epgChannels : List Uuid
  revisions : List ReconciliationRevision
  place : Nat

def CatalogState.capture (state : CatalogState) (account : Uuid) : ReconciliationSnapshot :=
  captureSnapshot state.channels state.links state.mappings account

inductive RollbackError where
  | reconciliationRevisionNotFound (account : Uuid) (target : Nat)
  | database
  deriving DecidableEq, Repr

structure ReconciliationRollbackStats where
  targetRevision : Nat
  channelsRemoved : Nat
  channelsRestored : Nat
  streamLinksRestored : Nat
  epgMappingsRestored : Nat
  deriving DecidableEq, Repr

/-! ## The rollback -/

namespace ChannelRow

/-- A channel of the automatic set that the snapshot does not have. -/
def isExtra (account : Uuid) (targets : List Uuid) (row : ChannelRow) : Bool :=
  row.isAutomatic account && decide (row.id ∉ targets)

def detach (row : ChannelRow) : ChannelRow :=
  { row with
    enabled := false
    managedBy := .manual
    account := none
    canonicalKey := none
    revision := row.revision + 1 }

/-- The row that the statement proposes for a channel of the snapshot. -/
def restored (account : Uuid) (channel : SnapshotChannel) (channelNumber : String) :
    ChannelRow where
  id := channel.id
  channelNumber
  name := channel.name
  groupName := channel.groupName
  logoUrl := channel.logoUrl
  enabled := channel.enabled
  managedBy := .automatic
  account := some account
  canonicalKey := channel.canonicalKey
  revision := 1

end ChannelRow

namespace Channels

theorem sublist_filterMap_update {f : ChannelRow → ChannelRow} {p : ChannelRow → Bool}
    (hnone : ∀ row, p row = true → (f row).ownedKey = none) (rows : List ChannelRow) :
    ((Table.update p f rows).filterMap ChannelRow.ownedKey).Sublist
      (rows.filterMap ChannelRow.ownedKey) := by
  induction rows with
  | nil => exact List.Sublist.refl _
  | cons row rows ih =>
    unfold Table.update at ih ⊢
    rw [List.map_cons]
    cases hp : p row with
    | true =>
      rw [if_pos rfl, List.filterMap_cons_none (hnone row hp)]
      cases hkey : row.ownedKey with
      | none => rwa [List.filterMap_cons_none hkey]
      | some key =>
        rw [List.filterMap_cons_some hkey]
        exact ih.cons key
    | false =>
      rw [if_neg Bool.false_ne_true]
      cases hkey : row.ownedKey with
      | none => rwa [List.filterMap_cons_none hkey, List.filterMap_cons_none hkey]
      | some key =>
        rw [List.filterMap_cons_some hkey, List.filterMap_cons_some hkey]
        exact ih.cons_cons key

/-- `UPDATE channels SET managed_by = 'manual', …`. -/
def detach (channels : Channels) (p : ChannelRow → Bool) : Channels where
  rows := Table.update p ChannelRow.detach channels.rows
  ids := Table.nodup_update (fun _ _ => rfl) channels.ids
  numbers := Table.nodup_update (fun _ _ => rfl) channels.numbers
  keys := channels.keys.sublist (sublist_filterMap_update (fun _ _ => rfl) channels.rows)

/-- `DELETE FROM channels`. -/
def delete (channels : Channels) (p : ChannelRow → Bool) : Channels where
  rows := Table.delete p channels.rows
  ids := Table.nodup_delete channels.ids
  numbers := Table.nodup_delete channels.numbers
  keys := channels.keys.sublist (Table.delete_sublist.filterMap _)

/-- `channel_number_available_for`. -/
def numberAvailable (channels : Channels) (channelNumber : String) (id : Uuid) : Bool :=
  channels.rows.all fun row => row.channelNumber ≠ channelNumber ∨ row.id = id

/-- `INSERT … ON CONFLICT (id) DO UPDATE`, which keeps the revision of a row. -/
def restoreRow (channels : Channels) (row : ChannelRow) : Except CatalogError Channels :=
  match channels.find row.id with
  | none => channels.insert row
  | some _ => ofRows (Table.update (fun old => old.id = row.id)
      (fun old => { row with revision := old.revision }) channels.rows)

end Channels

section Rollback

variable (sequence : NumberSequence) (account : Uuid)

/-- The number of the snapshot, or else the next one of the sequence. -/
def restoredNumber (state : Channels × Nat) (channel : SnapshotChannel) :
    Except CatalogError (String × Nat) :=
  if state.1.numberAvailable channel.channelNumber channel.id then
    .ok (channel.channelNumber, state.2)
  else sequence.nextval state.2

/-- One turn of the loop over the channels of the snapshot. -/
def restoreChannel (state : Channels × Nat) (channel : SnapshotChannel) :
    Except CatalogError (Channels × Nat) := do
  let (channelNumber, place) ← restoredNumber sequence state channel
  let channels ← state.1.restoreRow (ChannelRow.restored account channel channelNumber)
  return (channels, place)

/-- One link, with its references. -/
def restoreLink (channels : Channels) (streams : List Uuid) (links : Links) (link : LinkRow) :
    Except RollbackError Links := do
  ensure (link.channelId ∈ channels.rows.map ChannelRow.id ∧ link.providerStreamId ∈ streams)
    RollbackError.database
  match links.upsert link with
  | some links => .ok links
  | none => .error .database

/-- One mapping, with its references. -/
def restoreMapping (channels : Channels) (epgChannels : List Uuid) (mappings : Mappings)
    (mapping : SnapshotEpgMapping) : Except RollbackError Mappings := do
  ensure (mapping.channelId ∈ channels.rows.map ChannelRow.id ∧ mapping.epgChannelId ∈ epgChannels)
    RollbackError.database
  return mappings.upsert mapping

/-- The tables after channels that the snapshot does not have are detached or removed, with the
links and mappings of removed and of target channels. -/
def clearTargets (state : CatalogState) (targets : List Uuid) : CatalogState :=
  let preserved := fun row : ChannelRow =>
    row.isExtra account targets && decide (row.id ∈ state.dependents)
  let detached := state.channels.detach preserved
  let removed := detached.rows.filter (ChannelRow.isExtra account targets)
  let gone := fun id : Uuid => decide (id ∈ removed.map ChannelRow.id ∨ id ∈ targets)
  { state with
    channels := detached.delete (ChannelRow.isExtra account targets)
    links := state.links.delete fun link => gone link.channelId
    mappings := state.mappings.delete fun mapping => gone mapping.channelId }

def databaseError {α : Type} (result : Except CatalogError α) : Except RollbackError α :=
  result.mapError fun _ => .database

/-- The channels, links and mappings of the snapshot, one after another. -/
def restoreSnapshot (state : CatalogState) (snapshot : ReconciliationSnapshot) :
    Except RollbackError CatalogState := do
  let (channels, place) ← databaseError
    (snapshot.channels.foldlM (restoreChannel sequence account) (state.channels, state.place))
  let links ← snapshot.streamLinks.foldlM (restoreLink channels state.streams) state.links
  let mappings ← snapshot.epgMappings.foldlM (restoreMapping channels state.epgChannels)
    state.mappings
  return { state with channels, links, mappings, place }

/-- `current_reconciliation_revision`. -/
def currentRevision (revisions : List ReconciliationRevision) : Nat :=
  ((revisions.filter fun row => row.account = account).map
    ReconciliationRevision.revision).foldr max 0

def recordRevision (state : CatalogState) (actor : String) (before : ReconciliationSnapshot) :
    CatalogState :=
  { state with
    revisions := state.revisions ++ [{
      account
      revision := currentRevision account state.revisions + 1
      actor
      before := some before
      after := state.capture account
      recorded := captureSnapshot_recorded _ _ _ account }] }

def findRevision (revisions : List ReconciliationRevision) (target : Nat) :
    Option ReconciliationRevision :=
  revisions.find? fun row => row.account = account ∧ row.revision = target

def rollbackReconciliation (target : Nat) (actor : String) (state : CatalogState) :
    Except RollbackError (ReconciliationRollbackStats × CatalogState) :=
  match findRevision account state.revisions target with
  | none => .error (.reconciliationRevisionNotFound account target)
  | some revision => do
    let snapshot := revision.after
    let cleared := clearTargets account state snapshot.ids
    let restored ← restoreSnapshot sequence account cleared snapshot
    return ({
      targetRevision := target
      channelsRemoved := state.channels.rows.length - cleared.channels.rows.length
      channelsRestored := snapshot.channels.length
      streamLinksRestored := snapshot.streamLinks.length
      epgMappingsRestored := snapshot.epgMappings.length },
      recordRevision account restored actor (state.capture account))

end Rollback

end IptvRelay.Catalog
