import IptvRelay.Guide.EventScan

/-!
# The steps of event scans

A scan writes the guide of each planned channel in its scope and then clears the channels without
an owner. What a sequence of such steps leaves in the tables is described channel by channel, and
depends on the steps that were made, not on their order.
-/

namespace IptvRelay.Guide

open Checked

/-- The rows of one channel. -/
def rowsOf (tables : EventTables) (channelId : Uuid) : List EventChannelRow :=
  tables.eventChannels.filter fun row => row.channelId = some channelId

/-- The programmes of one channel. -/
def programmesOf (tables : EventTables) (channelId : Uuid) : List GeneratedProgrammeRow :=
  tables.generated.filter fun programme => programme.channelId = channelId

/-! ## Writing one guide -/

/-- Rows that hold these programmes, one each. -/
def Stores (plan : PlannedEventChannel) (rowId : Uuid) :
    List GeneratedProgramme → List GeneratedProgrammeRow → Prop :=
  List.Forall₂ fun programme row => ∃ id, row = plan.stored rowId id programme

theorem insertProgrammes_ok {ids : IdSupply} {plan : PlannedEventChannel} {rowId : Uuid}
    {programmes : List GeneratedProgramme} {rows result : List GeneratedProgrammeRow}
    (h : programmes.foldlM (insertProgramme ids plan rowId) rows = .ok result) :
    ∃ new, result = rows ++ new ∧ Stores plan rowId programmes new := by
  induction programmes generalizing rows with
  | nil =>
    obtain rfl := of_pure h
    exact ⟨[], (List.append_nil rows).symm, .nil⟩
  | cons programme programmes ih =>
    obtain ⟨next, hnext, h⟩ := of_bind h
    obtain ⟨_, _, hnext⟩ := of_bind hnext
    obtain rfl := of_pure hnext
    obtain ⟨new, rfl, hnew⟩ := ih h
    exact ⟨_ :: new, List.append_assoc _ _ _, .cons ⟨_, rfl⟩ hnew⟩

theorem exists_of_stores {plan : PlannedEventChannel} {rowId : Uuid}
    {programmes : List GeneratedProgramme} {rows : List GeneratedProgrammeRow}
    (h : Stores plan rowId programmes rows) {row : GeneratedProgrammeRow} (hrow : row ∈ rows) :
    ∃ programme ∈ programmes, ∃ id, row = plan.stored rowId id programme := by
  induction h with
  | nil => cases hrow
  | cons hfirst _ ih =>
    rcases List.mem_cons.mp hrow with rfl | hrow
    · exact ⟨_, List.mem_cons_self, hfirst⟩
    · obtain ⟨programme, hmem, hstored⟩ := ih hrow
      exact ⟨programme, List.mem_cons_of_mem _ hmem, hstored⟩

theorem channelId_of_stores {plan : PlannedEventChannel} {rowId : Uuid}
    {programmes : List GeneratedProgramme} {rows : List GeneratedProgrammeRow}
    (h : Stores plan rowId programmes rows) {row : GeneratedProgrammeRow} (hrow : row ∈ rows) :
    row.channelId = plan.channelId ∧ row.eventChannelId = rowId := by
  obtain ⟨programme, -, id, rfl⟩ := exists_of_stores h hrow
  exact ⟨rfl, rfl⟩

section Upsert

variable {ids : IdSupply} {plan : PlannedEventChannel} {rows : List EventChannelRow}

theorem owns_iff {row : EventChannelRow} :
    plan.owns row = true ↔ row.templateId = plan.template.id ∧
      row.channelId = some plan.channelId := decide_eq_true_iff

theorem fill_of_owns {row : EventChannelRow} (h : plan.owns row = true) :
    plan.fill row = plan.row row.id := by
  obtain ⟨htemplate, hchannel⟩ := owns_iff.mp h
  unfold PlannedEventChannel.fill PlannedEventChannel.row
  rw [← htemplate, ← hchannel]

/-- Outside the channel of the plan the upsert changes nothing. -/
theorem filter_upsert {q : EventChannelRow → Bool}
    (hq : ∀ row, row.channelId = some plan.channelId → q row = false) :
    (upsertEventChannelRow ids plan rows).2.filter q = rows.filter q := by
  unfold upsertEventChannelRow
  split
  · refine Table.filter_update_of_disjoint fun row _ howns => ?_
    have hchannel := (owns_iff.mp howns).2
    exact ⟨hq row hchannel, hq (plan.fill row) hchannel⟩
  · rw [List.filter_append, List.filter_cons, hq _ rfl]
    exact List.append_nil _

theorem nodup_upsert (h : (rows.map EventChannelRow.id).Nodup) :
    ((upsertEventChannelRow ids plan rows).2.map EventChannelRow.id).Nodup := by
  unfold upsertEventChannelRow
  split
  · exact Table.nodup_update (fun _ _ => rfl) h
  · rw [List.map_append]
    refine List.nodup_append.mpr ⟨h, List.nodup_singleton _, ?_⟩
    intro id hid other hother
    rw [List.mem_singleton.mp hother]
    exact fun heq => ids.fresh_new _ (heq ▸ hid)

/-- Behind the upsert the plan has one row. It keeps the id of a row that was there. -/
theorem upsert_of_channel
    (hkeys : ((rows.filter fun row => row.channelId = some plan.channelId).map
      EventChannelRow.templateId).Nodup)
    (hothers : ∀ row ∈ rows, row.channelId = some plan.channelId →
      row.templateId = plan.template.id) :
    ((upsertEventChannelRow ids plan rows).2.filter fun row =>
        row.channelId = some plan.channelId) =
      [plan.row (upsertEventChannelRow ids plan rows).1] ∧
    ∀ row ∈ rows, plan.owns row = true → (upsertEventChannelRow ids plan rows).1 = row.id := by
  have howns : ∀ row ∈ rows.filter fun row => row.channelId = some plan.channelId,
      plan.owns row = true := by
    intro row hrow
    obtain ⟨hrow, hchannel⟩ := List.mem_filter.mp hrow
    exact owns_iff.mpr ⟨hothers row hrow (of_decide_eq_true hchannel), of_decide_eq_true hchannel⟩
  have hmem : ∀ row ∈ rows, plan.owns row = true →
      row ∈ rows.filter fun row => row.channelId = some plan.channelId := fun row hrow howns =>
    List.mem_filter.mpr ⟨hrow, decide_eq_true (owns_iff.mp howns).2⟩
  unfold upsertEventChannelRow
  cases hfound : rows.find? plan.owns with
  | some row =>
    have hrow := hmem row (List.mem_of_find?_eq_some hfound) (List.find?_some hfound)
    have hsame : ∀ other ∈ rows.filter fun row => row.channelId = some plan.channelId,
        other.templateId = row.templateId := fun other hother =>
      (owns_iff.mp (howns other hother)).1.trans (owns_iff.mp (howns row hrow)).1.symm
    have hone : (rows.filter fun row => row.channelId = some plan.channelId) = [row] := by
      rw [← Table.filter_of_key hkeys hrow]
      exact (List.filter_eq_self.mpr fun other hother => decide_eq_true (hsame other hother)).symm
    refine ⟨?_, fun other hother hother' => ?_⟩
    · have hupdate : (Table.update plan.owns plan.fill rows).filter (fun row =>
          row.channelId = some plan.channelId) = Table.update plan.owns plan.fill [row] := by
        rw [← hone]
        exact Table.filter_update fun _ => rfl
      refine hupdate.trans ?_
      rw [Table.update, List.map_singleton, if_pos (howns row hrow), fill_of_owns (howns row hrow)]
    · have hin := hmem other hother hother'
      rw [hone] at hin
      rw [List.mem_singleton.mp hin]
  | none =>
    have hnone := List.find?_eq_none.mp hfound
    refine ⟨?_, fun row hrow howns => absurd howns (hnone row hrow)⟩
    have hnil : (rows.filter fun row => row.channelId = some plan.channelId) = [] :=
      List.filter_eq_nil_iff.mpr fun row hrow hchannel =>
        hnone row hrow (howns row (List.mem_filter.mpr ⟨hrow, hchannel⟩))
    rw [List.filter_append, hnil, List.nil_append, List.filter_cons]
    exact if_pos (decide_eq_true rfl)

end Upsert

/-- What a successful write does to the tables. -/
structure Wrote (plan : PlannedEventChannel) (tables tables' : EventTables) : Prop where
  channels : tables'.channels = setEventName plan tables.channels
  ids : (tables'.eventChannels.map EventChannelRow.id).Nodup
  others : ∀ q : EventChannelRow → Bool,
    (∀ row, row.channelId = some plan.channelId → q row = false) →
      tables'.eventChannels.filter q = tables.eventChannels.filter q
  row : ∃ rowId, rowsOf tables' plan.channelId = [plan.row rowId] ∧
    (∀ row ∈ tables.eventChannels, plan.owns row = true → rowId = row.id) ∧
    Stores plan rowId plan.programmes (programmesOf tables' plan.channelId)
  generated : ∀ programme ∈ tables'.generated, programme.channelId ≠ plan.channelId →
    programme ∈ tables.generated
  kept : ∀ channelId ≠ plan.channelId, (∀ programme ∈ programmesOf tables channelId,
      ∃ row ∈ tables.eventChannels, row.id = programme.eventChannelId ∧
        row.channelId ≠ some plan.channelId) →
    programmesOf tables' channelId = programmesOf tables channelId

theorem replaces_iff {plan : PlannedEventChannel} {row : EventChannelRow} :
    plan.replaces row = true ↔ row.channelId = some plan.channelId ∧
      row.templateId ≠ plan.template.id := decide_eq_true_iff

section Write

variable {ids : IdSupply} {plan : PlannedEventChannel} {tables tables' : EventTables}

theorem rowsOf_delete (hkeys : ((rowsOf tables plan.channelId).map EventChannelRow.templateId).Nodup) :
    (((tables.deleteEventChannels plan.replaces).eventChannels.filter fun row =>
      row.channelId = some plan.channelId).map EventChannelRow.templateId).Nodup := by
  refine hkeys.sublist (List.Sublist.map _ ?_)
  exact Table.delete_sublist.filter _

theorem template_of_delete {row : EventChannelRow}
    (hrow : row ∈ (tables.deleteEventChannels plan.replaces).eventChannels)
    (hchannel : row.channelId = some plan.channelId) : row.templateId = plan.template.id := by
  by_contra hne
  have hkept := (Table.mem_delete.mp hrow).2
  rw [replaces_iff.mpr ⟨hchannel, hne⟩] at hkept
  cases hkept

theorem write_ok (hids : (tables.eventChannels.map EventChannelRow.id).Nodup)
    (hkeys : ((rowsOf tables plan.channelId).map EventChannelRow.templateId).Nodup)
    (h : writeEventChannelGuide ids plan tables = .ok tables') : Wrote plan tables tables' := by
  obtain ⟨generated, hgenerated, h⟩ := of_bind h
  obtain rfl := of_pure h
  obtain ⟨new, rfl, hnew⟩ := insertProgrammes_ok hgenerated
  have hchannel : ∀ row ∈ new, row.channelId = plan.channelId := fun row hrow =>
    (channelId_of_stores hnew hrow).1
  obtain ⟨hrow, hid⟩ := @upsert_of_channel ids _ _ (rowsOf_delete hkeys)
    fun row => template_of_delete
  refine ⟨rfl, nodup_upsert (Table.nodup_delete hids), fun q hq => ?_, ⟨_, hrow, ?_, ?_⟩, ?_, ?_⟩
  · refine (filter_upsert hq).trans (Table.filter_delete_of_disjoint fun row _ hdelete => ?_)
    exact hq row (replaces_iff.mp hdelete).1
  · intro row hmem howns
    refine hid row (Table.mem_delete.mpr ⟨hmem, ?_⟩) howns
    refine decide_eq_false fun hdelete => hdelete.2 (owns_iff.mp howns).1
  · have hold : (Table.delete (fun programme : GeneratedProgrammeRow =>
        decide (programme.channelId = plan.channelId))
        (tables.deleteEventChannels plan.replaces).generated).filter
          (fun programme => programme.channelId = plan.channelId) = [] :=
      List.filter_eq_nil_iff.mpr fun programme hprogramme heq => by
        have hother := (Table.mem_delete.mp hprogramme).2
        rw [heq] at hother
        cases hother
    have hall : new.filter (fun programme => programme.channelId = plan.channelId) = new :=
      List.filter_eq_self.mpr fun programme hprogramme =>
        decide_eq_true (hchannel programme hprogramme)
    have hprogrammes : (Table.delete (fun programme : GeneratedProgrammeRow =>
        decide (programme.channelId = plan.channelId))
        (tables.deleteEventChannels plan.replaces).generated ++ new).filter
          (fun programme => programme.channelId = plan.channelId) = new := by
      rw [List.filter_append, hold, hall, List.nil_append]
    exact (congrArg (Stores plan _ plan.programmes) hprogrammes).mpr hnew
  · intro programme hprogramme hother
    rcases List.mem_append.mp hprogramme with hprogramme | hprogramme
    · exact (Table.mem_delete.mp (Table.mem_delete.mp hprogramme).1).1
    · exact absurd (hchannel programme hprogramme) hother
  · intro channelId hother hrefs
    have hnil : new.filter (fun programme => programme.channelId = channelId) = [] :=
      List.filter_eq_nil_iff.mpr fun programme hprogramme heq =>
        hother ((of_decide_eq_true heq).symm.trans (hchannel programme hprogramme))
    unfold programmesOf
    rw [List.filter_append, hnil, List.append_nil, Table.filter_delete_of_disjoint,
      EventTables.deleteEventChannels, Table.filter_delete_of_disjoint]
    · intro programme hprogramme hdelete
      by_contra hin
      have hmem : programme ∈ programmesOf tables channelId :=
        List.mem_filter.mpr ⟨hprogramme, by simpa using hin⟩
      obtain ⟨row, hrow, hrowId, hfree⟩ := hrefs programme hmem
      obtain ⟨deleted, hdeleted, hdeletedId⟩ := List.any_eq_true.mp hdelete
      obtain ⟨hdeleted, hreplaced⟩ := List.mem_filter.mp hdeleted
      have hsame : deleted = row := Table.eq_of_key hids hdeleted hrow
        ((of_decide_eq_true hdeletedId).trans hrowId.symm)
      exact hfree (hsame ▸ (replaces_iff.mp hreplaced).1)
    · intro programme _ hdelete
      exact decide_eq_false fun heq => hother (heq.symm.trans (of_decide_eq_true hdelete))

end Write

/-! ## Sequences of steps -/

/-- One transaction of a scan. -/
inductive ScanStep where
  | write (plan : PlannedEventChannel)
  | clear (scope : Option Uuid)

namespace ScanStep

def run (ids : IdSupply) (owned : List Uuid) (tables : EventTables) :
    ScanStep → Except ScanError EventTables
  | .write plan => writeEventChannelGuide ids plan tables
  | .clear scope => .ok (clearUnownedEventChannels owned scope tables)

/-- The step clears what belongs to the template. -/
def covers (templateId : Uuid) : ScanStep → Bool
  | .write _ => false
  | .clear scope => inScope scope templateId

/-- The step clears the event name of a channel without an owner. -/
def clears (owned : List Uuid) (rows : List EventChannelRow) (channel : ScanChannel) :
    ScanStep → Bool
  | .write _ => false
  | .clear scope => clearsName owned scope rows channel

end ScanStep

def ownedChannels (plans : List PlannedEventChannel) : List Uuid :=
  plans.map PlannedEventChannel.channelId

/-- The keys and references of the schema. -/
structure EventTables.WellFormed (tables : EventTables) : Prop where
  ids : (tables.eventChannels.map EventChannelRow.id).Nodup
  keys : ∀ channelId, ((rowsOf tables channelId).map EventChannelRow.templateId).Nodup

/-- The guide of the plan is in the tables. -/
def Written (plan : PlannedEventChannel) (tables : EventTables) : Prop :=
  ∃ rowId, rowsOf tables plan.channelId = [plan.row rowId] ∧
    Stores plan rowId plan.programmes (programmesOf tables plan.channelId)

/-- What the rows of a planned channel always are: those of the plan have the id that a row of it
had at the start, and no such row is lost. -/
structure Keyed (start : EventTables) (plan : PlannedEventChannel) (tables : EventTables) :
    Prop where
  keys : ((rowsOf tables plan.channelId).map EventChannelRow.templateId).Nodup
  same : ∀ row ∈ tables.eventChannels, plan.owns row = true →
    ∀ old ∈ start.eventChannels, plan.owns old = true → row.id = old.id
  lasts : (∃ old ∈ start.eventChannels, plan.owns old = true) →
    ∃ row ∈ tables.eventChannels, plan.owns row = true

/-- What the steps so far have made of the tables at the start. -/
structure Progress (plans : List PlannedEventChannel) (start : EventTables)
    (steps : List ScanStep) (tables : EventTables) : Prop where
  ids : (tables.eventChannels.map EventChannelRow.id).Nodup
  channels : (tables.channels.map fun channel => (channel.id, channel.enabled)) =
    start.channels.map fun channel => (channel.id, channel.enabled)
  ownedNames : ∀ plan ∈ plans, ScanStep.write plan ∈ steps → ∀ channel ∈ tables.channels,
    channel.id = plan.channelId → channel.eventName = plan.stableName
  otherNames : ∀ channel ∈ tables.channels, channel.id ∉ ownedChannels plans →
    channel.eventName = none ∨ (channel ∈ start.channels ∧ ∀ step ∈ steps,
      step.clears (ownedChannels plans) start.eventChannels channel = false)
  others : (tables.eventChannels.filter fun row => row.unowned (ownedChannels plans)) =
    Table.update (fun row => steps.any (ScanStep.covers row.templateId)) EventChannelRow.hide
      (start.eventChannels.filter fun row => row.unowned (ownedChannels plans))
  keyed : ∀ plan ∈ plans, Keyed start plan tables
  written : ∀ plan ∈ plans, ScanStep.write plan ∈ steps → Written plan tables
  rest : ∀ programme ∈ tables.generated, programme.channelId ∉ ownedChannels plans →
    programme ∈ start.generated ∧
      steps.any (ScanStep.covers programme.templateId) = false

section Steps

variable {plans : List PlannedEventChannel} {start tables tables' : EventTables}
  {steps : List ScanStep}

theorem progress_start (h : start.WellFormed) : Progress plans start [] start where
  ids := h.ids
  channels := rfl
  ownedNames := fun _ _ hmem => nomatch hmem
  otherNames := fun channel hchannel _ => .inr ⟨hchannel, fun _ hmem => nomatch hmem⟩
  others := by
    unfold Table.update
    exact (List.map_id _).symm
  keyed := fun plan _ => {
    keys := h.keys plan.channelId
    same := by
      intro row hrow howns old hold howns'
      have hmem : ∀ row ∈ start.eventChannels, plan.owns row = true →
          row ∈ rowsOf start plan.channelId := fun row hrow howns =>
        List.mem_filter.mpr ⟨hrow, decide_eq_true (owns_iff.mp howns).2⟩
      have heq := Table.eq_of_key (h.keys plan.channelId) (hmem row hrow howns)
        (hmem old hold howns') ((owns_iff.mp howns).1.trans (owns_iff.mp howns').1.symm)
      rw [heq]
    lasts := id }
  written := fun _ _ hmem => nomatch hmem
  rest := fun programme hprogramme _ => ⟨hprogramme, rfl⟩

theorem owned_of_mem {plan : PlannedEventChannel} (h : plan ∈ plans) :
    plan.channelId ∈ ownedChannels plans := List.mem_map_of_mem h

theorem not_unowned {owned : List Uuid} {channelId : Uuid} (h : channelId ∈ owned)
    {row : EventChannelRow} (hrow : row.channelId = some channelId) : row.unowned owned = false := by
  unfold EventChannelRow.unowned
  rw [hrow, Option.all_some]
  exact decide_eq_false (not_not_intro h)

/-- A write leaves the rows of the other channels alone. -/
theorem Wrote.rowsOf_other {plan : PlannedEventChannel} (h : Wrote plan tables tables')
    {channelId : Uuid} (hne : channelId ≠ plan.channelId) :
    rowsOf tables' channelId = rowsOf tables channelId :=
  h.others _ fun _ hrow => decide_eq_false fun heq =>
    hne (Option.some.inj (heq.symm.trans hrow))

theorem mem_rowsOf {channelId : Uuid} {row : EventChannelRow} :
    row ∈ rowsOf tables channelId ↔ row ∈ tables.eventChannels ∧ row.channelId = some channelId := by
  rw [rowsOf, List.mem_filter, decide_eq_true_iff]

/-- The keys of a plan only depend on the rows of its channel. -/
theorem Keyed.of_rowsOf {plan : PlannedEventChannel} (h : Keyed start plan tables)
    (hrows : rowsOf tables' plan.channelId = rowsOf tables plan.channelId) :
    Keyed start plan tables' := by
  have hmem : ∀ row, plan.owns row = true →
      (row ∈ tables'.eventChannels ↔ row ∈ tables.eventChannels) := by
    intro row howns
    have hchannel := (owns_iff.mp howns).2
    have hboth : row ∈ rowsOf tables' plan.channelId ↔ row ∈ rowsOf tables plan.channelId := by
      rw [hrows]
    rw [mem_rowsOf, mem_rowsOf] at hboth
    exact ⟨fun hrow => (hboth.mp ⟨hrow, hchannel⟩).1, fun hrow => (hboth.mpr ⟨hrow, hchannel⟩).1⟩
  refine ⟨hrows ▸ h.keys, fun row hrow howns => h.same row ((hmem row howns).mp hrow) howns, ?_⟩
  intro hold
  obtain ⟨row, hrow, howns⟩ := h.lasts hold
  exact ⟨row, (hmem row howns).mpr hrow, howns⟩

theorem Keyed.write {plan : PlannedEventChannel} (h : Keyed start plan tables)
    (hwrote : Wrote plan tables tables') : Keyed start plan tables' := by
  obtain ⟨rowId, hrows, hid, -⟩ := hwrote.row
  have hone : ∀ row ∈ tables'.eventChannels, plan.owns row = true → row = plan.row rowId := by
    intro row hrow howns
    have hmem := mem_rowsOf.mpr ⟨hrow, (owns_iff.mp howns).2⟩
    rw [hrows] at hmem
    exact List.mem_singleton.mp hmem
  have hself : plan.row rowId ∈ tables'.eventChannels := by
    have hmem : plan.row rowId ∈ rowsOf tables' plan.channelId := by
      rw [hrows]
      exact List.mem_singleton_self _
    exact (mem_rowsOf.mp hmem).1
  refine ⟨?_, ?_, fun _ => ⟨_, hself, owns_iff.mpr ⟨rfl, rfl⟩⟩⟩
  · rw [hrows]
    exact List.nodup_singleton _
  · intro row hrow howns old hold howns'
    obtain ⟨before, hbefore, hbeforeOwns⟩ := h.lasts ⟨old, hold, howns'⟩
    rw [hone row hrow howns]
    exact (hid before hbefore hbeforeOwns).trans
      (h.same before hbefore hbeforeOwns old hold howns')

/-- What is written for one channel is not touched by a write for another one. -/
theorem Written.write_other {plan other : PlannedEventChannel} (h : Written other tables)
    (hwrote : Wrote plan tables tables') (hne : other.channelId ≠ plan.channelId) :
    Written other tables' := by
  obtain ⟨rowId, hrows, hstores⟩ := h
  refine ⟨rowId, (hwrote.rowsOf_other hne).trans hrows, ?_⟩
  rw [hwrote.kept other.channelId hne]
  · exact hstores
  · intro programme hprogramme
    have hmem : other.row rowId ∈ rowsOf tables other.channelId := by
      rw [hrows]
      exact List.mem_singleton_self _
    refine ⟨other.row rowId, (mem_rowsOf.mp hmem).1,
      (channelId_of_stores hstores hprogramme).2.symm, fun heq => hne (Option.some.inj heq)⟩

/-- One write keeps the description of the tables. -/
theorem Progress.write {plan : PlannedEventChannel} (hnodup : (ownedChannels plans).Nodup)
    (h : Progress plans start steps tables) (hplan : plan ∈ plans)
    (hwrote : Wrote plan tables tables') :
    Progress plans start (steps ++ [.write plan]) tables' := by
  have hother : ∀ other ∈ plans, other ≠ plan → other.channelId ≠ plan.channelId :=
    fun other hmem hne heq => hne (Table.eq_of_key hnodup hmem hplan heq)
  have hcovers : ∀ templateId, (steps ++ [ScanStep.write plan]).any (ScanStep.covers templateId) =
      steps.any (ScanStep.covers templateId) := by
    intro templateId
    rw [List.any_append]
    exact Bool.or_false _
  have hmem : ∀ other ∈ plans, ScanStep.write other ∈ steps ++ [ScanStep.write plan] →
      other = plan ∨ ScanStep.write other ∈ steps := by
    intro other _ hstep
    rcases List.mem_append.mp hstep with hstep | hstep
    · exact .inr hstep
    · exact .inl (ScanStep.write.inj (List.mem_singleton.mp hstep))
  refine ⟨hwrote.ids, ?_, ?_, ?_, ?_, ?_, ?_, ?_⟩
  · rw [hwrote.channels, ← h.channels]
    exact Table.map_update fun channel _ => rfl
  · intro other hmemOther hstep channel hchannel hid
    rw [hwrote.channels] at hchannel
    by_cases hsame : other = plan
    · obtain ⟨old, hold, rfl⟩ := Table.mem_update.mp hchannel
      by_cases hset : old.id = plan.channelId
      · rw [if_pos (decide_eq_true hset), hsame]
      · rw [if_neg fun heq => hset (of_decide_eq_true heq)] at hid
        exact absurd (hid.trans (congrArg _ hsame)) hset
    · rcases Table.update_cases hchannel with ⟨hold, -⟩ | ⟨old, hold, hset, rfl⟩
      · exact h.ownedNames other hmemOther ((hmem other hmemOther hstep).resolve_left hsame)
          channel hold hid
      · exact absurd (hid.symm.trans (of_decide_eq_true hset)) (hother other hmemOther hsame)
  · intro channel hchannel hfree
    rw [hwrote.channels] at hchannel
    rcases Table.update_cases hchannel with ⟨hold, -⟩ | ⟨old, -, hset, rfl⟩
    · refine (h.otherNames channel hold hfree).imp_right fun ⟨hstart, hsteps⟩ => ⟨hstart, ?_⟩
      intro step hstep
      rcases List.mem_append.mp hstep with hstep | hstep
      · exact hsteps step hstep
      · rw [List.mem_singleton.mp hstep]
        rfl
    · have howned : old.id ∈ ownedChannels plans := of_decide_eq_true hset ▸ owned_of_mem hplan
      exact absurd howned hfree
  · simp only [hcovers]
    rw [← h.others]
    exact hwrote.others _ fun row => not_unowned (owned_of_mem hplan)
  · intro other hmemOther
    by_cases hsame : other = plan
    · rw [hsame]
      exact (h.keyed plan hplan).write hwrote
    · exact (h.keyed other hmemOther).of_rowsOf
        (hwrote.rowsOf_other (hother other hmemOther hsame))
  · intro other hmemOther hstep
    by_cases hsame : other = plan
    · obtain ⟨rowId, hrows, -, hstores⟩ := hwrote.row
      exact hsame ▸ ⟨rowId, hrows, hstores⟩
    · exact (h.written other hmemOther ((hmem other hmemOther hstep).resolve_left hsame)).write_other
        hwrote (hother other hmemOther hsame)
  · intro programme hprogramme hfree
    have hne : programme.channelId ≠ plan.channelId :=
      fun heq => hfree (heq ▸ owned_of_mem hplan)
    rw [hcovers]
    exact h.rest programme (hwrote.generated programme hprogramme hne) hfree

/-- Clearing leaves the rows of the planned channels alone. -/
theorem rowsOf_clear {channelId : Uuid} {owned : List Uuid} (h : channelId ∈ owned)
    (scope : Option Uuid) :
    rowsOf (clearUnownedEventChannels owned scope tables) channelId = rowsOf tables channelId := by
  refine Table.filter_update_of_disjoint fun row _ hhide => ?_
  have hfree := (Bool.and_eq_true_iff.mp hhide).1
  have hne : ¬row.channelId = some channelId := fun heq => by
    rw [not_unowned h heq] at hfree
    cases hfree
  exact ⟨decide_eq_false hne, decide_eq_false hne⟩

theorem programmesOf_clear {channelId : Uuid} {owned : List Uuid} (h : channelId ∈ owned)
    (scope : Option Uuid) :
    programmesOf (clearUnownedEventChannels owned scope tables) channelId =
      programmesOf tables channelId := by
  refine Table.filter_delete_of_disjoint fun programme _ hdelete => decide_eq_false fun heq => ?_
  exact (of_decide_eq_true hdelete).1 (heq ▸ h)

/-- Whether a name goes depends on the templates that have a row of the channel, which are those of
the start. -/
theorem clearsName_eq (h : Progress plans start steps tables) (scope : Option Uuid)
    (channel : ScanChannel) :
    clearsName (ownedChannels plans) scope tables.eventChannels channel =
      clearsName (ownedChannels plans) scope start.eventChannels channel := by
  by_cases howned : channel.id ∈ ownedChannels plans
  · unfold clearsName
    rw [decide_eq_decide]
    exact ⟨fun hboth => absurd howned hboth.1, fun hboth => absurd howned hboth.1⟩
  · have hany : ∀ (rows : List EventChannelRow) (templateId : Uuid),
        (rows.any fun row => row.channelId = some channel.id ∧ row.templateId = templateId) =
          (rows.filter fun row => row.unowned (ownedChannels plans)).any fun row =>
            row.channelId = some channel.id ∧ row.templateId = templateId := by
      intro rows templateId
      rw [List.any_filter]
      refine congrArg rows.any (funext fun row => ?_)
      cases hrow : decide (row.channelId = some channel.id ∧ row.templateId = templateId) with
      | false => rw [Bool.and_false]
      | true =>
        have hfree : row.unowned (ownedChannels plans) = true := by
          unfold EventChannelRow.unowned
          rw [(of_decide_eq_true hrow).1, Option.all_some]
          exact decide_eq_true howned
        rw [hfree, Bool.and_true]
    have hsame : ∀ templateId,
        (tables.eventChannels.any fun row =>
          row.channelId = some channel.id ∧ row.templateId = templateId) =
        start.eventChannels.any fun row =>
          row.channelId = some channel.id ∧ row.templateId = templateId := by
      intro templateId
      rw [hany tables.eventChannels, hany start.eventChannels, h.others, Table.update, List.any_map]
      refine congrArg (List.any _) (funext fun row => ?_)
      rw [Function.comp_apply]
      split <;> rfl
    unfold clearsName
    simp only [hsame]

/-- Clearing keeps the description of the tables. -/
theorem Progress.clear (h : Progress plans start steps tables) (scope : Option Uuid) :
    Progress plans start (steps ++ [.clear scope])
      (clearUnownedEventChannels (ownedChannels plans) scope tables) := by
  have hmem : ∀ plan, ScanStep.write plan ∈ steps ++ [ScanStep.clear scope] →
      ScanStep.write plan ∈ steps := by
    intro plan hstep
    rcases List.mem_append.mp hstep with hstep | hstep
    · exact hstep
    · cases List.mem_singleton.mp hstep
  refine ⟨?_, ?_, ?_, ?_, ?_, ?_, ?_, ?_⟩
  · exact Table.nodup_update (fun _ _ => rfl) h.ids
  · rw [← h.channels]
    exact Table.map_update fun channel _ => rfl
  · intro plan hplan hstep channel hchannel hid
    rcases Table.update_cases hchannel with ⟨hold, -⟩ | ⟨old, hold, hclear, rfl⟩
    · exact h.ownedNames plan hplan (hmem plan hstep) channel hold hid
    · exact absurd (hid ▸ owned_of_mem hplan) (of_decide_eq_true hclear).1
  · intro channel hchannel hfree
    rcases Table.update_cases hchannel with ⟨hold, hkept⟩ | ⟨old, -, -, rfl⟩
    · refine (h.otherNames channel hold hfree).imp_right fun ⟨hstart, hsteps⟩ => ⟨hstart, ?_⟩
      intro step hstep
      rcases List.mem_append.mp hstep with hstep | hstep
      · exact hsteps step hstep
      · rw [List.mem_singleton.mp hstep]
        exact (clearsName_eq h scope channel).symm.trans hkept
    · exact .inl rfl
  · have hkeep : ∀ row : EventChannelRow, row.hide.unowned (ownedChannels plans) =
        row.unowned (ownedChannels plans) := fun _ => rfl
    have hsplit : ((clearUnownedEventChannels (ownedChannels plans) scope
        tables).eventChannels.filter fun row => row.unowned (ownedChannels plans)) =
        Table.update (fun row => row.unowned (ownedChannels plans) && inScope scope row.templateId)
          EventChannelRow.hide
          (tables.eventChannels.filter fun row => row.unowned (ownedChannels plans)) :=
      Table.filter_update hkeep
    rw [hsplit, h.others]
    unfold Table.update
    rw [List.map_map]
    refine List.map_congr_left fun row hrow => ?_
    have hfree := (List.mem_filter.mp hrow).2
    simp only [Function.comp_apply, List.any_append, List.any_cons, List.any_nil, Bool.or_false]
    by_cases hbefore : steps.any (ScanStep.covers row.templateId) = true
    · rw [if_pos hbefore, if_pos (Bool.or_eq_true_iff.mpr (.inl hbefore))]
      split <;> rfl
    · have hother := Bool.eq_false_of_not_eq_true hbefore
      simp only [hother, Bool.false_or, if_neg Bool.false_ne_true, hfree, Bool.true_and]
      rfl
  · intro plan hplan
    exact (h.keyed plan hplan).of_rowsOf (rowsOf_clear (owned_of_mem hplan) scope)
  · intro plan hplan hstep
    obtain ⟨rowId, hrows, hstores⟩ := h.written plan hplan (hmem plan hstep)
    refine ⟨rowId, (rowsOf_clear (owned_of_mem hplan) scope).trans hrows, ?_⟩
    rw [programmesOf_clear (owned_of_mem hplan) scope]
    exact hstores
  · intro programme hprogramme hfree
    obtain ⟨hold, hkept⟩ := Table.mem_delete.mp hprogramme
    obtain ⟨hstart, hbefore⟩ := h.rest programme hold hfree
    refine ⟨hstart, ?_⟩
    rw [List.any_append, hbefore, Bool.false_or, List.any_cons, List.any_nil, Bool.or_false]
    cases hscope : inScope scope programme.templateId with
    | true => exact absurd (decide_eq_true ⟨hfree, hscope⟩) (Bool.not_eq_true _ ▸ hkept)
    | false => exact hscope

/-- The steps are those of scans that plan these guides. -/
def Plans (plans : List PlannedEventChannel) (steps : List ScanStep) : Prop :=
  ∀ plan, ScanStep.write plan ∈ steps → plan ∈ plans

/-- Whole runs. -/
theorem Progress.run {ids : IdSupply} (hnodup : (ownedChannels plans).Nodup)
    {more : List ScanStep} (hplans : Plans plans more) (h : Progress plans start steps tables)
    (hrun : more.foldlM (ScanStep.run ids (ownedChannels plans)) tables = .ok tables') :
    Progress plans start (steps ++ more) tables' := by
  induction more generalizing steps tables with
  | nil =>
    obtain rfl := of_pure hrun
    rwa [List.append_nil]
  | cons step more ih =>
    obtain ⟨next, hnext, hrun⟩ := of_bind hrun
    have hmore : Plans plans more := fun plan hmem => hplans plan (List.mem_cons_of_mem step hmem)
    have hprogress : Progress plans start (steps ++ [step]) next := by
      cases step with
      | write plan =>
        have hplan := hplans plan List.mem_cons_self
        exact h.write hnodup hplan (write_ok h.ids (h.keyed plan hplan).keys hnext)
      | clear scope =>
        obtain rfl := Except.ok.inj hnext
        exact h.clear scope
    have hfinal := ih hmore hprogress hrun
    rwa [List.append_assoc] at hfinal

end Steps

end IptvRelay.Guide
