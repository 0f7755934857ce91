import IptvRelay.Guide.EventPlans
import IptvRelay.Lib.Table
import IptvRelay.Output.Guide

/-!
# Programmes without a stop time

Model of `list_programmes_for_channels` in `persistence/src/catalog.rs` and of the handler of the
guide over it. The query reads a missing stop time as `'infinity'`, which is no `DateTime<Utc>`:
one such programme of a selected channel makes the whole query fail. The collation of the database
and the text of a JSON value are parameters.
-/

namespace IptvRelay.Output

open Checked
open IptvRelay.Guide (EventChannelState)

/-! ## Tables -/

/-- `programmes`. -/
structure ImportedProgramme where
  id : Uuid
  epgChannelId : Uuid
  startsAt : Instant
  stopsAt : Option Instant
  title : String
  subtitle : Option String
  description : Option String
  categories : JsonValue

/-- `channel_epg_mappings`. -/
structure EpgMapping where
  channelId : Uuid
  epgChannelId : Uuid
  deriving DecidableEq, Repr

/-- The columns of `channels` that the query reads. -/
structure ChannelName where
  id : Uuid
  name : String
  deriving DecidableEq, Repr

/-- `event_channels`. -/
structure EventChannel where
  id : Uuid
  state : EventChannelState
  deriving DecidableEq, Repr

/-- `generated_programmes`. -/
structure StoredProgramme where
  id : Uuid
  eventChannelId : Uuid
  channelId : Uuid
  startsAt : Instant
  stopsAt : Instant
  title : String
  sourceTitle : String
  categories : JsonValue
  metadata : JsonValue

/-- The tables of the guide with the keys and references that the query relies on. -/
structure GuideTables where
  channels : List ChannelName
  epgChannels : List Uuid
  mappings : List EpgMapping
  imported : List ImportedProgramme
  eventChannels : List EventChannel
  generated : List StoredProgramme
  channel_ids : (channels.map ChannelName.id).Nodup
  epgChannel_ids : epgChannels.Nodup
  mapping_ids : (mappings.map EpgMapping.channelId).Nodup
  eventChannel_ids : (eventChannels.map EventChannel.id).Nodup
  imported_refs : ∀ programme ∈ imported, programme.epgChannelId ∈ epgChannels
  generated_refs : ∀ programme ∈ generated,
    programme.eventChannelId ∈ eventChannels.map EventChannel.id

/-- A programme of either table. -/
inductive GuideProgramme where
  | imported (programme : ImportedProgramme)
  | generated (programme : StoredProgramme)

/-! ## The query -/

/-- A `timestamptz`. -/
inductive Timestamp where
  | finite (time : Instant)
  | infinity
  deriving DecidableEq, Repr

inductive DecodeError where
  | outOfRange
  deriving DecidableEq, Repr

/-- Only finite times are a `DateTime<Utc>`. -/
def Timestamp.decode : Timestamp → Except DecodeError Instant
  | .finite time => .ok time
  | .infinity => .error .outOfRange

/-- A row of the result, before it is decoded. -/
structure QueryRow where
  id : List Char
  channelId : Uuid
  channelName : String
  title : String
  description : Option String
  categories : JsonValue
  startsAt : Instant
  stopsAt : Timestamp
  metadata : Option JsonValue

/-- `FromRow` of `ProgrammeRow`. -/
def QueryRow.decode (row : QueryRow) : Except DecodeError ProgrammeRow := do
  let stopsAt ← row.stopsAt.decode
  return {
    channelId := some row.channelId
    channelName := row.channelName
    title := row.title
    description := row.description
    categories := row.categories
    startsAt := row.startsAt
    stopsAt
    metadata := row.metadata }

section Query

variable (jsonText : JsonValue → String) (collation : LinearOrder String)

/-- `->>`: the text of a member, or `NULL`. -/
def memberText (key : String) (value : JsonValue) : Option String :=
  match value.get key with
  | none => none
  | some .null => none
  | some (.string text) => some text
  | some other => some (jsonText other)

/-- `event_channels.state IN ('scheduled', 'live', 'ended')`. -/
def EventChannel.visible (row : EventChannel) : Bool :=
  row.state ∈ [.scheduled, .live, .ended]

/-- The joins of `imported_programmes`. -/
def importedRows (tables : GuideTables) (channelIds : List Uuid) :
    List (ChannelName × GuideProgramme) :=
  tables.imported.flatMap fun programme =>
    (tables.epgChannels.filter fun epg => epg = programme.epgChannelId).flatMap fun epg =>
      (tables.mappings.filter fun mapping =>
        mapping.epgChannelId = epg ∧ mapping.channelId ∈ channelIds).flatMap fun mapping =>
          (tables.channels.filter fun channel => channel.id = mapping.channelId).map fun channel =>
            (channel, .imported programme)

/-- The joins of `dynamic_programmes`. -/
def dynamicRows (tables : GuideTables) (channelIds : List Uuid) :
    List (ChannelName × GuideProgramme) :=
  (tables.generated.filter fun programme => programme.channelId ∈ channelIds).flatMap
    fun programme =>
      (tables.eventChannels.filter fun row =>
        row.id = programme.eventChannelId ∧ row.visible).flatMap fun _ =>
          (tables.channels.filter fun channel => channel.id = programme.channelId).map fun channel =>
            (channel, .generated programme)

/-- The columns that both parts of the query select. -/
def queryRow (channel : ChannelName) : GuideProgramme → QueryRow
  | .imported programme =>
    { id := uuidText channel.id ++ ":".toList ++ uuidText programme.id
      channelId := channel.id
      channelName := channel.name
      title := programme.title
      description := programme.description
      categories := programme.categories
      startsAt := programme.startsAt
      stopsAt := programme.stopsAt.elim .infinity .finite
      metadata := none }
  | .generated programme =>
    { id := uuidText channel.id ++ ":generated:".toList ++ uuidText programme.id
      channelId := channel.id
      channelName := channel.name
      title := programme.title
      description := (memberText jsonText "description" programme.metadata).or
        (some programme.sourceTitle)
      categories := programme.categories
      startsAt := programme.startsAt
      stopsAt := .finite programme.stopsAt
      metadata := some programme.metadata }

/-- `ORDER BY channel_id, starts_at, id`. -/
def orderedRows (tables : GuideTables) (channelIds : List Uuid) :
    List (ChannelName × GuideProgramme) :=
  letI := collation
  Sorting.sortBy
    (fun entry : ChannelName × GuideProgramme =>
      let row := queryRow jsonText entry.1 entry.2
      toLex (row.channelId.toFin, toLex (row.startsAt, String.ofList row.id)))
    (importedRows tables channelIds ++ dynamicRows tables channelIds)

def listProgrammesForChannels (tables : GuideTables) (channelIds : List Uuid) :
    Except DecodeError (List ProgrammeRow) :=
  if channelIds = [] then .ok []
  else (orderedRows jsonText collation tables channelIds).mapM fun entry =>
    (queryRow jsonText entry.1 entry.2).decode

/-- The database branch of `xmltv`, for the channels of the output profile. -/
def xmltvResponse (env : Environment) (publicBaseUrl token : String) (now : Instant)
    (tables : GuideTables) (channels : List ChannelRow) : Except DecodeError (List Char) := do
  let programmes ← listProgrammesForChannels jsonText collation tables (channels.map ChannelRow.id)
  return xmltv env publicBaseUrl token now (.database channels programmes)

end Query

/-! ## What the guide is for -/

/-- The channels of the output profile, as `list_enabled_channels_for_output_profile` returns
them. -/
structure Selection (tables : GuideTables) where
  channels : List ChannelRow
  ids : (channels.map ChannelRow.id).Nodup
  stored : ∀ channel ∈ channels, channel.id ∈ tables.channels.map ChannelName.id

/-- The programmes of a channel: those of the mapped guide channel, and the generated ones. -/
def programmesOf (tables : GuideTables) (channelId : Uuid) : List GuideProgramme :=
  (tables.imported.filter fun programme => tables.mappings.any fun mapping =>
      mapping.channelId = channelId ∧ mapping.epgChannelId = programme.epgChannelId).map .imported ++
    (tables.generated.filter fun programme =>
      programme.channelId = channelId ∧ tables.eventChannels.any fun row =>
        row.id = programme.eventChannelId ∧ row.visible).map .generated

/-- The row shows the programme, with its stop time if it has one. -/
def Shows (jsonText : JsonValue → String) (row : ProgrammeRow) : GuideProgramme → Prop
  | .imported programme =>
    row.title = programme.title ∧ row.description = programme.description ∧
      row.categories = programme.categories ∧ row.metadata = none ∧
      row.startsAt = programme.startsAt ∧
      ∀ stop, programme.stopsAt = some stop → row.stopsAt = stop
  | .generated programme =>
    row.title = programme.title ∧ row.description =
        some ((memberText jsonText "description" programme.metadata).getD programme.sourceTitle) ∧
      row.categories = programme.categories ∧ row.metadata = some programme.metadata ∧
      row.startsAt = programme.startsAt ∧ row.stopsAt = programme.stopsAt

/-- The guide is available, and for every channel each programme is written once. -/
def GuideComplete (jsonText : JsonValue → String) (collation : LinearOrder String)
    (env : Environment) (publicBaseUrl token : String) (now : Instant) {tables : GuideTables}
    (selection : Selection tables) : Prop :=
  ∃ programmes, listProgrammesForChannels jsonText collation tables
      (selection.channels.map ChannelRow.id) = .ok programmes ∧
    xmltvResponse jsonText collation env publicBaseUrl token now tables selection.channels =
      .ok (xmltv env publicBaseUrl token now (.database selection.channels programmes)) ∧
    ∀ channel ∈ selection.channels, ∃ order, order.Perm (programmesOf tables channel.id) ∧
      List.Forall₂ (Shows jsonText) (((resolvedProgrammes selection.channels programmes).filter
        fun entry => entry.1.id = channel.id).map Prod.snd) order

/-- No selected channel has a programme without a stop time. -/
def AllClosed (tables : GuideTables) (channelIds : List Uuid) : Prop :=
  ∀ programme ∈ tables.imported, programme.stopsAt = none → ∀ mapping ∈ tables.mappings,
    mapping.epgChannelId = programme.epgChannelId → mapping.channelId ∉ channelIds

/-! ## The joins -/

section Joins

variable {tables : GuideTables} {channelIds : List Uuid} {channelId : Uuid}

theorem mem_importedRows {entry : ChannelName × GuideProgramme} :
    entry ∈ importedRows tables channelIds ↔ entry.1 ∈ tables.channels ∧
      ∃ programme ∈ tables.imported, entry.2 = .imported programme ∧
        ∃ mapping ∈ tables.mappings, mapping.epgChannelId = programme.epgChannelId ∧
          mapping.channelId ∈ channelIds ∧ entry.1.id = mapping.channelId := by
  simp only [importedRows, List.mem_flatMap, List.mem_map, List.mem_filter, decide_eq_true_eq]
  constructor
  · rintro ⟨programme, hprogramme, _, ⟨-, rfl⟩, mapping, ⟨hmapping, hepg, hselected⟩, channel,
      ⟨hchannel, hid⟩, rfl⟩
    exact ⟨hchannel, programme, hprogramme, rfl, mapping, hmapping, hepg, hselected, hid⟩
  · obtain ⟨channel, guide⟩ := entry
    rintro ⟨hchannel, programme, hprogramme, rfl, mapping, hmapping, hepg, hselected, hid⟩
    exact ⟨programme, hprogramme, programme.epgChannelId,
      ⟨tables.imported_refs programme hprogramme, rfl⟩, mapping, ⟨hmapping, hepg, hselected⟩,
      channel, ⟨hchannel, hid⟩, rfl⟩

theorem id_of_mem_dynamicRows {entry : ChannelName × GuideProgramme}
    (h : entry ∈ dynamicRows tables channelIds) :
    entry.1.id ∈ channelIds ∧ ∃ programme, entry.2 = .generated programme := by
  simp only [dynamicRows, List.mem_flatMap, List.mem_map, List.mem_filter, decide_eq_true_eq] at h
  obtain ⟨programme, ⟨-, hselected⟩, -, -, channel, ⟨-, hid⟩, rfl⟩ := h
  exact ⟨hid ▸ hselected, programme, rfl⟩

/-- The last join of both parts, seen from one channel. -/
theorem joinChannel (hstored : channelId ∈ tables.channels.map ChannelName.id) (key : Uuid)
    (guide : GuideProgramme) :
    (((tables.channels.filter fun channel => channel.id = key).map fun channel =>
      (channel, guide)).filter fun entry => entry.1.id = channelId).map Prod.snd =
        if decide (key = channelId) then [guide] else [] := by
  split
  · rename_i hdecide
    have heq := of_decide_eq_true hdecide
    obtain ⟨channel, hchannel, hid⟩ := List.mem_map.mp hstored
    rw [heq, ← hid, Table.filter_of_key tables.channel_ids hchannel]
    simp
  · rename_i hdecide
    have hne := of_decide_eq_false (Bool.eq_false_of_not_eq_true hdecide)
    rw [List.map_eq_nil_iff, List.filter_eq_nil_iff]
    intro entry hentry hid
    obtain ⟨channel, hchannel, rfl⟩ := List.mem_map.mp hentry
    have hkey := of_decide_eq_true (List.mem_filter.mp hchannel).2
    exact hne (hkey.symm.trans (of_decide_eq_true hid))

theorem flatMap_if {α β : Type} (p : α → Bool) (f : α → β) (xs : List α) :
    (xs.flatMap fun x => if p x then [f x] else []) = (xs.filter p).map f := by
  induction xs with
  | nil => rfl
  | cons x xs ih =>
    rw [List.flatMap_cons, ih, List.filter_cons]
    by_cases hp : p x
    · simp [hp]
    · simp [hp]

/-- A join on a unique key finds one row or none. -/
theorem flatMap_key {α β κ : Type} [DecidableEq κ] {rows : List α} {key : α → κ}
    (h : (rows.map key).Nodup) (k : κ) (p : α → Bool) (ys : List β) :
    ((rows.filter fun row => key row = k ∧ p row).flatMap fun _ => ys) =
      if rows.any fun row => key row = k ∧ p row then ys else [] := by
  split
  · rename_i hany
    obtain ⟨row, hrow, hboth⟩ := List.any_eq_true.mp hany
    obtain ⟨rfl, hp⟩ := of_decide_eq_true hboth
    have hsplit : (rows.filter fun other => key other = key row ∧ p other) =
        (rows.filter fun other => key other = key row).filter p := by
      rw [List.filter_filter]
      refine List.filter_congr fun other _ => ?_
      rw [Bool.decide_and, Bool.decide_eq_true, Bool.and_comm]
    rw [hsplit, Table.filter_of_key h hrow, List.filter_cons, if_pos hp]
    exact List.append_nil ys
  · rename_i hnone
    have hnil : (rows.filter fun row => key row = k ∧ p row) = [] :=
      List.filter_eq_nil_iff.mpr fun row hrow hboth =>
        hnone (List.any_eq_true.mpr ⟨row, hrow, hboth⟩)
    rw [hnil]
    rfl

/-- The rows of one channel that the imported part adds. -/
theorem importedRows_of_channel (hselected : channelId ∈ channelIds)
    (hstored : channelId ∈ tables.channels.map ChannelName.id) :
    ((importedRows tables channelIds).filter fun entry => entry.1.id = channelId).map Prod.snd =
      (tables.imported.filter fun programme => tables.mappings.any fun mapping =>
        mapping.channelId = channelId ∧ mapping.epgChannelId = programme.epgChannelId).map
          .imported := by
  have hepgs : (tables.epgChannels.map id).Nodup := by
    rw [List.map_id]
    exact tables.epgChannel_ids
  rw [importedRows, List.filter_flatMap, List.map_flatMap, ← flatMap_if]
  refine List.flatMap_congr fun programme hprogramme => ?_
  have hepg : (tables.epgChannels.filter fun epg => epg = programme.epgChannelId) =
      [programme.epgChannelId] :=
    @Table.filter_of_key _ _ _ _ _ id hepgs (tables.imported_refs programme hprogramme)
  have hmappings : (tables.mappings.filter fun mapping =>
        mapping.epgChannelId = programme.epgChannelId ∧ mapping.channelId ∈ channelIds).filter
          (fun mapping => mapping.channelId = channelId) =
      tables.mappings.filter fun mapping => mapping.channelId = channelId ∧
        decide (mapping.epgChannelId = programme.epgChannelId) := by
    rw [List.filter_filter]
    refine List.filter_congr fun mapping _ => ?_
    rw [← Bool.decide_and, decide_eq_decide, decide_eq_true_iff]
    constructor
    · rintro ⟨hid, hepg, -⟩
      exact ⟨hid, hepg⟩
    · rintro ⟨hid, hepg⟩
      exact ⟨hid, hepg, hid ▸ hselected⟩
  rw [hepg, List.flatMap_singleton, List.filter_flatMap, List.map_flatMap]
  simp only [joinChannel hstored]
  rw [flatMap_if, hmappings, List.map_eq_flatMap, flatMap_key tables.mapping_ids]
  simp only [decide_eq_true_eq]

/-- The rows of one channel that the generated part adds. -/
theorem dynamicRows_of_channel (hselected : channelId ∈ channelIds)
    (hstored : channelId ∈ tables.channels.map ChannelName.id) :
    ((dynamicRows tables channelIds).filter fun entry => entry.1.id = channelId).map Prod.snd =
      (tables.generated.filter fun programme =>
        programme.channelId = channelId ∧ tables.eventChannels.any fun row =>
          row.id = programme.eventChannelId ∧ row.visible).map .generated := by
  have hrow : ∀ programme : StoredProgramme,
      ((((tables.eventChannels.filter fun row =>
        row.id = programme.eventChannelId ∧ row.visible).flatMap fun _ =>
          (tables.channels.filter fun channel => channel.id = programme.channelId).map fun channel =>
            (channel, GuideProgramme.generated programme)).filter fun entry =>
              entry.1.id = channelId).map Prod.snd) =
      if decide (programme.channelId = channelId) &&
          tables.eventChannels.any fun row => row.id = programme.eventChannelId ∧ row.visible then
        [.generated programme] else [] := by
    intro programme
    rw [List.filter_flatMap, List.map_flatMap]
    simp only [joinChannel hstored]
    rw [flatMap_key tables.eventChannel_ids]
    cases hid : decide (programme.channelId = channelId) with
    | true => rw [Bool.true_and]; rfl
    | false => rw [Bool.false_and, if_neg Bool.false_ne_true, ite_self]
  rw [dynamicRows, List.filter_flatMap, List.map_flatMap]
  simp only [hrow]
  rw [flatMap_if, List.filter_filter]
  refine congrArg (List.map GuideProgramme.generated) (List.filter_congr fun programme _ => ?_)
  rw [Bool.decide_and, Bool.decide_eq_true, Bool.and_assoc]
  cases hid : decide (programme.channelId = channelId) with
  | true =>
    rw [Bool.true_and, Bool.true_and, of_decide_eq_true hid, decide_eq_true hselected,
      Bool.and_true]
  | false => rw [Bool.false_and, Bool.false_and]

theorem rows_of_channel (hselected : channelId ∈ channelIds)
    (hstored : channelId ∈ tables.channels.map ChannelName.id) :
    ((importedRows tables channelIds ++ dynamicRows tables channelIds).filter fun entry =>
      entry.1.id = channelId).map Prod.snd = programmesOf tables channelId := by
  rw [List.filter_append, List.map_append, importedRows_of_channel hselected hstored,
    dynamicRows_of_channel hselected hstored]
  rfl

theorem selected_of_mem {entry : ChannelName × GuideProgramme}
    (h : entry ∈ importedRows tables channelIds ++ dynamicRows tables channelIds) :
    entry.1.id ∈ channelIds := by
  rcases List.mem_append.mp h with h | h
  · obtain ⟨-, _, -, -, mapping, -, -, hselected, hid⟩ := mem_importedRows.mp h
    exact hid ▸ hselected
  · exact (id_of_mem_dynamicRows h).1

end Joins

/-! ## Decoding -/

section Decoding

variable (jsonText : JsonValue → String) {collation : LinearOrder String}

/-- The stop time of a row that can be decoded. -/
def GuideProgramme.stop : GuideProgramme → Instant
  | .imported programme => programme.stopsAt.getD 0
  | .generated programme => programme.stopsAt

/-- What a row is decoded to. -/
def shownRow (entry : ChannelName × GuideProgramme) : ProgrammeRow :=
  let row := queryRow jsonText entry.1 entry.2
  { channelId := some row.channelId
    channelName := row.channelName
    title := row.title
    description := row.description
    categories := row.categories
    startsAt := row.startsAt
    stopsAt := entry.2.stop
    metadata := row.metadata }

/-- A programme with a stop time, or one that was generated. -/
def GuideProgramme.Closed : GuideProgramme → Prop
  | .imported programme => programme.stopsAt ≠ none
  | .generated _ => True

theorem decode_closed (channel : ChannelName) {guide : GuideProgramme} (h : guide.Closed) :
    (queryRow jsonText channel guide).decode = .ok (shownRow jsonText (channel, guide)) := by
  cases guide with
  | imported programme =>
    obtain ⟨stop, hstop⟩ := Option.ne_none_iff_exists'.mp h
    simp only [queryRow, shownRow, GuideProgramme.stop, hstop, QueryRow.decode, Option.elim_some,
      Timestamp.decode, Option.getD_some]
    rfl
  | generated programme => rfl

theorem decode_open (channel : ChannelName) {programme : ImportedProgramme}
    (h : programme.stopsAt = none) (row : ProgrammeRow) :
    (queryRow jsonText channel (.imported programme)).decode ≠ .ok row := by
  simp only [queryRow, QueryRow.decode, h, Option.elim_none, Timestamp.decode]
  exact fun hok => by cases hok

theorem shows_shownRow (entry : ChannelName × GuideProgramme) :
    Shows jsonText (shownRow jsonText entry) entry.2 := by
  obtain ⟨channel, guide⟩ := entry
  cases guide with
  | imported programme =>
    refine ⟨rfl, rfl, rfl, rfl, rfl, fun stop hstop => ?_⟩
    change programme.stopsAt.getD 0 = stop
    rw [hstop, Option.getD_some]
  | generated programme =>
    refine ⟨rfl, ?_, rfl, rfl, rfl, rfl⟩
    change (memberText jsonText "description" programme.metadata).or
      (some programme.sourceTitle) = _
    cases memberText jsonText "description" programme.metadata with
    | none => rfl
    | some text => rfl

/-- A row belongs to the channel that its id names. -/
theorem resolveChannel_shownRow {channels : List ChannelRow}
    (hids : (channels.map ChannelRow.id).Nodup) {entry : ChannelName × GuideProgramme}
    (h : entry.1.id ∈ channels.map ChannelRow.id) :
    ∃ channel, resolveChannel channels (shownRow jsonText entry) = some channel ∧
      channel.id = entry.1.id := by
  obtain ⟨channel, hchannel, hid⟩ := List.mem_map.mp h
  have hreverse : (channels.reverse.map ChannelRow.id).Nodup := by
    rw [List.map_reverse, List.nodup_reverse]
    exact hids
  refine ⟨channel, ?_, hid⟩
  have hfound := Table.find?_of_key hreverse (List.mem_reverse.mpr hchannel)
  have hrow : (shownRow jsonText entry).channelId = some channel.id := by
    rw [hid]
    obtain ⟨_, guide⟩ := entry
    cases guide with
    | imported programme => rfl
    | generated programme => rfl
  rw [resolveChannel, hrow, Option.bind_some, hfound]
  rfl

theorem resolved_of_channel {channels : List ChannelRow}
    (hids : (channels.map ChannelRow.id).Nodup) (channelId : Uuid)
    {entries : List (ChannelName × GuideProgramme)}
    (h : ∀ entry ∈ entries, entry.1.id ∈ channels.map ChannelRow.id) :
    ((resolvedProgrammes channels (entries.map (shownRow jsonText))).filter fun entry =>
      entry.1.id = channelId).map Prod.snd =
        (entries.filter fun entry => entry.1.id = channelId).map (shownRow jsonText) := by
  induction entries with
  | nil => rfl
  | cons entry entries ih =>
    have hrest := ih fun other hother => h other (List.mem_cons_of_mem entry hother)
    obtain ⟨channel, hresolve, hid⟩ :=
      resolveChannel_shownRow jsonText hids (h entry List.mem_cons_self)
    unfold resolvedProgrammes at *
    rw [List.map_cons, List.filterMap_cons, hresolve, Option.map_some, List.filter_cons,
      List.filter_cons]
    by_cases hsame : entry.1.id = channelId
    · rw [if_pos (decide_eq_true (hid.trans hsame)), if_pos (decide_eq_true hsame),
        List.map_cons, List.map_cons, hrest]
    · have hother : ¬channel.id = channelId := fun heq => hsame (hid.symm.trans heq)
      rw [if_neg fun heq => hother (of_decide_eq_true heq),
        if_neg fun heq => hsame (of_decide_eq_true heq), hrest]

theorem orderedRows_perm (tables : GuideTables) (channelIds : List Uuid) :
    (orderedRows jsonText collation tables channelIds).Perm
      (importedRows tables channelIds ++ dynamicRows tables channelIds) :=
  letI := collation
  Sorting.sortBy_perm _ _

theorem closed_of_allClosed {tables : GuideTables} {channelIds : List Uuid}
    (h : AllClosed tables channelIds) {entry : ChannelName × GuideProgramme}
    (hentry : entry ∈ orderedRows jsonText collation tables channelIds) : entry.2.Closed := by
  rcases List.mem_append.mp ((orderedRows_perm jsonText tables channelIds).mem_iff.mp hentry) with
    hrow | hrow
  · obtain ⟨-, programme, hprogramme, hguide, mapping, hmapping, hepg, hselected, -⟩ :=
      mem_importedRows.mp hrow
    rw [hguide]
    exact fun hopen => h programme hprogramme hopen mapping hmapping hepg hselected
  · obtain ⟨-, programme, hguide⟩ := id_of_mem_dynamicRows hrow
    rw [hguide]
    trivial

/-- Without open programmes the query returns all its rows. -/
theorem listProgrammes_closed {tables : GuideTables} {channelIds : List Uuid}
    (h : AllClosed tables channelIds) (hne : channelIds ≠ []) :
    listProgrammesForChannels jsonText collation tables channelIds =
      .ok ((orderedRows jsonText collation tables channelIds).map (shownRow jsonText)) := by
  rw [listProgrammesForChannels, if_neg hne]
  exact mapM_eq_map fun entry hentry =>
    decode_closed jsonText entry.1 (closed_of_allClosed jsonText h hentry)

/-- One open programme is enough for the query to fail. -/
theorem listProgrammes_open {tables : GuideTables} {channelIds : List Uuid}
    {programme : ImportedProgramme} (hprogramme : programme ∈ tables.imported)
    (hopen : programme.stopsAt = none) {mapping : EpgMapping} (hmapping : mapping ∈ tables.mappings)
    (hepg : mapping.epgChannelId = programme.epgChannelId)
    (hselected : mapping.channelId ∈ channelIds)
    (hstored : mapping.channelId ∈ tables.channels.map ChannelName.id)
    (rows : List ProgrammeRow) :
    listProgrammesForChannels jsonText collation tables channelIds ≠ .ok rows := by
  obtain ⟨channel, hchannel, hid⟩ := List.mem_map.mp hstored
  have hrow : (channel, GuideProgramme.imported programme) ∈ importedRows tables channelIds :=
    mem_importedRows.mpr
      ⟨hchannel, programme, hprogramme, rfl, mapping, hmapping, hepg, hselected, hid⟩
  rw [listProgrammesForChannels, if_neg (List.ne_nil_of_mem hselected)]
  exact mapM_ne_ok ((orderedRows_perm jsonText tables channelIds).mem_iff.mpr
    (List.mem_append_left _ hrow)) (fun row => decode_open jsonText channel hopen row) rows

end Decoding

/-! ## When the guide is complete -/

section Complete

variable {jsonText : JsonValue → String} {collation : LinearOrder String} {env : Environment}
  {publicBaseUrl token : String} {now : Instant} {tables : GuideTables}

theorem guideComplete_of_closed {selection : Selection tables}
    (h : AllClosed tables (selection.channels.map ChannelRow.id)) :
    GuideComplete jsonText collation env publicBaseUrl token now selection := by
  by_cases hnone : selection.channels = []
  · refine ⟨[], ?_, ?_, ?_⟩
    · rw [hnone]
      rfl
    · rw [xmltvResponse, hnone]
      rfl
    · rw [hnone]
      exact fun _ hchannel => nomatch hchannel
  · have hlist := @listProgrammes_closed jsonText collation _ _ h
      fun hnil => hnone (List.map_eq_nil_iff.mp hnil)
    refine ⟨_, hlist, ?_, fun channel hchannel => ?_⟩
    · rw [xmltvResponse, hlist]
      rfl
    · have hperm := @orderedRows_perm jsonText collation tables
        (selection.channels.map ChannelRow.id)
      refine ⟨((orderedRows jsonText collation tables (selection.channels.map ChannelRow.id)).filter
        fun entry => entry.1.id = channel.id).map Prod.snd, ?_, ?_⟩
      · rw [← rows_of_channel (List.mem_map_of_mem hchannel) (selection.stored channel hchannel)]
        exact (hperm.filter _).map _
      · rw [resolved_of_channel jsonText selection.ids channel.id
          fun entry hentry => selected_of_mem (hperm.mem_iff.mp hentry), List.forall₂_map_left_iff,
          List.forall₂_map_right_iff, List.forall₂_same]
        exact fun entry _ => shows_shownRow jsonText entry

theorem not_complete_of_open {selection : Selection tables} {programme : ImportedProgramme}
    (hprogramme : programme ∈ tables.imported) (hopen : programme.stopsAt = none)
    {mapping : EpgMapping} (hmapping : mapping ∈ tables.mappings)
    (hepg : mapping.epgChannelId = programme.epgChannelId)
    (hselected : mapping.channelId ∈ selection.channels.map ChannelRow.id) :
    ¬GuideComplete jsonText collation env publicBaseUrl token now selection := by
  rintro ⟨programmes, hlist, -, -⟩
  obtain ⟨channel, hchannel, hid⟩ := List.mem_map.mp hselected
  exact listProgrammes_open jsonText hprogramme hopen hmapping hepg hselected
    (hid ▸ selection.stored channel hchannel) programmes hlist

/-- The guide is available and complete exactly if no selected channel has a programme without a
stop time. -/
theorem guide_complete_iff (selection : Selection tables) :
    GuideComplete jsonText collation env publicBaseUrl token now selection ↔
      AllClosed tables (selection.channels.map ChannelRow.id) := by
  constructor
  · intro hcomplete programme hprogramme hopen mapping hmapping hepg hselected
    exact not_complete_of_open hprogramme hopen hmapping hepg hselected hcomplete
  · exact guideComplete_of_closed

end Complete

/-- Two channels with a guide. The programme of the first one has no stop time. -/
def nightTables : GuideTables where
  channels := [⟨1, "News"⟩, ⟨2, "Sport"⟩]
  epgChannels := [10, 20]
  mappings := [⟨1, 10⟩, ⟨2, 20⟩]
  imported := [
    { id := 100, epgChannelId := 10, startsAt := 0, stopsAt := none, title := "Night loop"
      subtitle := none, description := none, categories := .array [] },
    { id := 200, epgChannelId := 20, startsAt := 0, stopsAt := some hour, title := "Match"
      subtitle := none, description := none, categories := .array [] }]
  eventChannels := []
  generated := []
  channel_ids := by decide
  epgChannel_ids := by decide
  mapping_ids := by decide
  eventChannel_ids := List.nodup_nil
  imported_refs := by decide
  generated_refs := fun _ hprogramme => nomatch hprogramme

/-- An output profile with only the second channel, and one with both. -/
def sportSelection : Selection nightTables where
  channels := [⟨2, "2", "Sport", "Sport", "All", none⟩]
  ids := by decide
  stored := by decide

def bothSelection : Selection nightTables where
  channels := [⟨1, "1", "News", "News", "All", none⟩, ⟨2, "2", "Sport", "Sport", "All", none⟩]
  ids := by decide
  stored := by decide

/-- The programme without a stop time takes the guide of the other channel with it. -/
theorem guide_fails_for_all_channels :
    (∀ (jsonText : JsonValue → String) (collation : LinearOrder String) (env : Environment)
      (publicBaseUrl token : String) (now : Instant),
      GuideComplete jsonText collation env publicBaseUrl token now sportSelection) ∧
    ¬∃ (jsonText : JsonValue → String) (collation : LinearOrder String) (env : Environment)
      (publicBaseUrl token : String) (now : Instant),
      GuideComplete jsonText collation env publicBaseUrl token now bothSelection := by
  constructor
  · intro jsonText collation env publicBaseUrl token now
    refine guideComplete_of_closed ?_
    intro programme hprogramme hopen mapping hmapping hepg hselected
    rcases List.mem_cons.mp hprogramme with rfl | hprogramme
    · have hnews : mapping = ⟨1, 10⟩ := by
        have hkey : ∀ mapping ∈ nightTables.mappings, mapping.epgChannelId = 10 →
          mapping = ⟨1, 10⟩ := by decide
        exact hkey mapping hmapping hepg
      rw [hnews] at hselected
      exact absurd hselected (by decide)
    · obtain rfl := List.mem_singleton.mp hprogramme
      cases hopen
  · rintro ⟨jsonText, collation, env, publicBaseUrl, token, now, h⟩
    exact not_complete_of_open List.mem_cons_self rfl List.mem_cons_self rfl List.mem_cons_self h

end IptvRelay.Output
