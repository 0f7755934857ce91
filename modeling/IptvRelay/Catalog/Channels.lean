import Mathlib.Data.List.Infix
import Mathlib.Order.Monotone.Basic
import Mathlib.Order.Nat
import Std.Data.String.ToNat
import IptvRelay.Lib.Checked
import IptvRelay.Store.Reconciliation

/-!
# Channels

The table `channels` with its constraints, the sequence of channel numbers, and the `INSERT`
that both ways of publishing a provider catalog share. The times of a row are left out.
-/

namespace IptvRelay.Catalog

open Store (Uuid)
open Checked

/-- `managed_by`. -/
inductive Management where
  | automatic
  | manual
  | event
  deriving DecidableEq, Repr

/-- `channels`. -/
structure ChannelRow where
  id : Uuid
  channelNumber : String
  name : String
  groupName : Option String := none
  logoUrl : Option String := none
  enabled : Bool := true
  managedBy : Management := .automatic
  account : Option Uuid := none
  canonicalKey : Option String := none
  revision : Nat := 1
  deriving DecidableEq, Repr

namespace ChannelRow

/-- The columns of `channels_provider_canonical_key_idx`, where both are set. -/
def ownedKey (row : ChannelRow) : Option (Uuid × String) :=
  match row.account, row.canonicalKey with
  | some account, some key => some (account, key)
  | _, _ => none

/-- The columns that a refresh of the catalog writes. -/
def description (row : ChannelRow) : String × Option String × Option String :=
  (row.name, row.groupName, row.logoUrl)

/-- The columns that it leaves alone. -/
def identity (row : ChannelRow) :
    Uuid × String × Bool × Management × Option Uuid × Option String :=
  (row.id, row.channelNumber, row.enabled, row.managedBy, row.account, row.canonicalKey)

/-- `DO UPDATE SET name, group_name, logo_url, revision`. -/
def describe (old row : ChannelRow) : ChannelRow :=
  { old with
    name := row.name
    groupName := row.groupName
    logoUrl := row.logoUrl
    revision := old.revision + 1 }

@[simp] theorem identity_describe (old row : ChannelRow) :
    (old.describe row).identity = old.identity := rfl

@[simp] theorem ownedKey_describe (old row : ChannelRow) :
    (old.describe row).ownedKey = old.ownedKey := rfl

theorem ownedKey_eq_some {row : ChannelRow} {account : Uuid} {key : String} :
    row.ownedKey = some (account, key) ↔
      row.account = some account ∧ row.canonicalKey = some key := by
  unfold ownedKey
  cases row.account with
  | none => simp
  | some other =>
    cases row.canonicalKey with
    | none => simp
    | some text => simp

end ChannelRow

inductive CatalogError where
  | channelIdTaken
  | channelNumberTaken
  | canonicalKeyTaken
  | rowAffectedTwice
  | sequenceExhausted
  deriving DecidableEq, Repr

/-- The table with its primary key and its two unique indexes. -/
structure Channels where
  rows : List ChannelRow
  ids : (rows.map ChannelRow.id).Nodup
  numbers : (rows.map ChannelRow.channelNumber).Nodup
  keys : (rows.filterMap ChannelRow.ownedKey).Nodup
  deriving DecidableEq, Repr

namespace Channels

/-- The table after a change of one row, if no constraint is violated. -/
def ofRows (rows : List ChannelRow) : Except CatalogError Channels :=
  if hids : (rows.map ChannelRow.id).Nodup then
    if hnumbers : (rows.map ChannelRow.channelNumber).Nodup then
      if hkeys : (rows.filterMap ChannelRow.ownedKey).Nodup then .ok ⟨rows, hids, hnumbers, hkeys⟩
      else .error .canonicalKeyTaken
    else .error .channelNumberTaken
  else .error .channelIdTaken

def find (channels : Channels) (id : Uuid) : Option ChannelRow :=
  channels.rows.find? fun row => row.id = id

/-- The channel of the account with this canonical key, whoever manages it. -/
def joined (channels : Channels) (account : Uuid) (key : String) : Option ChannelRow :=
  channels.rows.find? fun row => row.ownedKey = some (account, key)

/-- `INSERT INTO channels`. -/
def insert (channels : Channels) (row : ChannelRow) : Except CatalogError Channels :=
  ofRows (channels.rows ++ [row])

theorem filterMap_update {f : ChannelRow → ChannelRow} {p : ChannelRow → Bool}
    (hkeep : ∀ row, (f row).ownedKey = row.ownedKey) (rows : List ChannelRow) :
    (Table.update p f rows).filterMap ChannelRow.ownedKey =
      rows.filterMap ChannelRow.ownedKey := by
  unfold Table.update
  rw [List.filterMap_map]
  refine List.filterMap_congr fun row _ => ?_
  cases hp : p row with
  | true => simp [Function.comp, hp, hkeep]
  | false => simp [Function.comp, hp]

/-- `DO UPDATE` of the row with the same id. -/
def describe (channels : Channels) (row : ChannelRow) : Channels where
  rows := Table.update (fun old => old.id = row.id) (fun old => old.describe row) channels.rows
  ids := Table.nodup_update (fun _ _ => rfl) channels.ids
  numbers := Table.nodup_update (fun _ _ => rfl) channels.numbers
  keys := by
    rw [filterMap_update fun old => ChannelRow.ownedKey_describe old row]
    exact channels.keys

/-- One row of `INSERT … ON CONFLICT (id) DO UPDATE … WHERE … IS DISTINCT FROM …`, with the ids
of the rows that the statement has inserted or changed so far. -/
def upsertRow (state : Channels × List Uuid) (row : ChannelRow) :
    Except CatalogError (Channels × List Uuid) :=
  match state.1.find row.id with
  | none => do
    let channels ← state.1.insert row
    return (channels, row.id :: state.2)
  | some old =>
    if row.id ∈ state.2 then throw .rowAffectedTwice
    else if old.description = row.description then return state
    else return (state.1.describe row, row.id :: state.2)

/-- The statement: the table and `rows_affected`. -/
def upsertRows (channels : Channels) (rows : List ChannelRow) :
    Except CatalogError (Channels × Nat) := do
  let (channels, affected) ← rows.foldlM upsertRow (channels, [])
  return (channels, affected.length)

/-- `effective_enabled`: a new channel follows the other channels of its group. -/
def effectiveEnabled (channels : Channels) (existing : Option ChannelRow)
    (groupName : Option String) : Bool :=
  match existing, groupName with
  | some row, _ => row.enabled
  | none, none => true
  | none, some group =>
    if ∃ row ∈ channels.rows, row.groupName = some group ∧ row.enabled then true
    else if ∃ row ∈ channels.rows, row.groupName = some group then false
    else true

end Channels

/-! ## The sequence of channel numbers -/

/-- `AS integer`. -/
def sequenceMax : Nat := 2147483647

/-- The values that `nextval` returns to a transaction in turn. Other transactions draw from the
same sequence, so there may be gaps. -/
structure NumberSequence where
  value : Nat → Nat
  increasing : StrictMono value

namespace NumberSequence

/-- The number with this place in the sequence, as text. -/
def text (sequence : NumberSequence) (place : Nat) : String := toString (sequence.value place)

/-- `nextval('canonical_channel_number_seq')::text`, and the place after it. -/
def nextval (sequence : NumberSequence) (place : Nat) : Except CatalogError (String × Nat) :=
  if sequence.value place ≤ sequenceMax then .ok (sequence.text place, place + 1)
  else .error .sequenceExhausted

theorem text_injective (sequence : NumberSequence) : Function.Injective sequence.text :=
  fun _ _ h => sequence.increasing.injective (Nat.repr_injective h)

theorem nextval_ok {sequence : NumberSequence} {place next : Nat} {number : String}
    (h : sequence.nextval place = .ok (number, next)) :
    number = sequence.text place ∧ next = place + 1 := by
  unfold nextval at h
  split at h
  · obtain ⟨rfl, rfl⟩ := Prod.mk.inj (Except.ok.inj h)
    exact ⟨rfl, rfl⟩
  · cases h

end NumberSequence

/-! ## What the statement does -/

namespace Channels

variable {channels after : Channels} {row : ChannelRow}

theorem ofRows_ok {rows : List ChannelRow} (h : ofRows rows = .ok after) : after.rows = rows := by
  unfold ofRows at h
  split at h
  · split at h
    · split at h
      · rw [← Except.ok.inj h]
      · cases h
    · cases h
  · cases h

theorem rows_insert (h : channels.insert row = .ok after) :
    after.rows = channels.rows ++ [row] := ofRows_ok h

theorem find_eq_some {id : Uuid} (h : channels.find id = some row) :
    row ∈ channels.rows ∧ row.id = id :=
  ⟨List.mem_of_find?_eq_some h, by simpa using List.find?_some h⟩

theorem find_eq_none {id : Uuid} : channels.find id = none ↔
    id ∉ channels.rows.map ChannelRow.id := by
  simp [find]

theorem joined_eq_some {account : Uuid} {key : String}
    (h : channels.joined account key = some row) :
    row ∈ channels.rows ∧ row.ownedKey = some (account, key) :=
  ⟨List.mem_of_find?_eq_some h, by simpa using List.find?_some h⟩

/-- A new number is no obstacle to an insert. -/
theorem insert_number (h : row.channelNumber ∉ channels.rows.map ChannelRow.channelNumber) :
    channels.insert row ≠ .error .channelNumberTaken := by
  have hnumbers : ((channels.rows ++ [row]).map ChannelRow.channelNumber).Nodup := by
    rw [List.map_append]
    exact channels.numbers.append (List.nodup_singleton _) (by simpa using h)
  unfold insert ofRows
  split
  · split
    · exact fun h => nomatch h
    · exact fun h => nomatch h
  · exact fun h => nomatch h

/-- The three things that one row of the statement can do. -/
theorem upsertRow_cases {state next : Channels × List Uuid}
    (h : upsertRow state row = .ok next) :
    (state.1.find row.id = none ∧ state.1.insert row = .ok next.1 ∧ next.2 = row.id :: state.2) ∨
    (∃ old, state.1.find row.id = some old ∧ row.id ∉ state.2 ∧
      old.description = row.description ∧ next = state) ∨
    ∃ old, state.1.find row.id = some old ∧ row.id ∉ state.2 ∧
      old.description ≠ row.description ∧ next = (state.1.describe row, row.id :: state.2) := by
  unfold upsertRow at h
  split at h
  · rename_i hfind
    obtain ⟨inserted, hinsert, h⟩ := of_bind h
    obtain rfl := of_pure h
    exact .inl ⟨hfind, hinsert, rfl⟩
  · rename_i old hfind
    split at h
    · cases h
    · rename_i hfresh
      split at h
      · rename_i hsame
        exact .inr (.inl ⟨old, hfind, hfresh, hsame, (of_pure h).symm⟩)
      · rename_i hother
        exact .inr (.inr ⟨old, hfind, hfresh, hother, (of_pure h).symm⟩)

end Channels

end IptvRelay.Catalog
