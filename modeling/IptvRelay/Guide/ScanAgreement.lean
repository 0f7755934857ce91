import IptvRelay.Guide.ScanSteps

/-!
# Scans for single templates agree with a full scan

The tables behind a full scan and behind one scan for each enabled template, in any order, hold the
same event rows, programmes and stable names, apart from new ids.
-/

namespace IptvRelay.Guide

open Checked

/-! ## The same guides -/

/-- The row was there at the start, under its template and channel. -/
def EventChannelRow.lasting (start : EventTables) (row : EventChannelRow) : Bool :=
  start.eventChannels.any fun old =>
    old.id = row.id ∧ old.templateId = row.templateId ∧ old.channelId = row.channelId

/-- A row with its id, or without one if it is new. -/
def EventChannelRow.view (start : EventTables) (row : EventChannelRow) :
    Option Uuid × EventChannelRow :=
  (if row.lasting start then some row.id else none, { row with id := 0 })

/-- A programme without its id, and the row that it refers to. -/
def GeneratedProgrammeRow.view (start tables : EventTables) (programme : GeneratedProgrammeRow) :
    Option (Option Uuid × EventChannelRow) × GeneratedProgrammeRow :=
  ((tables.eventChannels.find? fun row => row.id = programme.eventChannelId).map
    (EventChannelRow.view start), { programme with id := 0, eventChannelId := 0 })

/-- Tables with the same event rows, programmes and stable names, up to ids that are not from the
start. -/
structure SameGuides (start a b : EventTables) : Prop where
  channels : a.channels = b.channels
  eventChannels : (a.eventChannels.map (EventChannelRow.view start)).Perm
    (b.eventChannels.map (EventChannelRow.view start))
  generated : (a.generated.map (GeneratedProgrammeRow.view start a)).Perm
    (b.generated.map (GeneratedProgrammeRow.view start b))

/-- All that the steps have to do is done. -/
structure Settled (plans : List PlannedEventChannel) (start tables : EventTables) : Prop where
  ids : (tables.eventChannels.map EventChannelRow.id).Nodup
  channels : (tables.channels.map fun channel => (channel.id, channel.enabled)) =
    start.channels.map fun channel => (channel.id, channel.enabled)
  names : ∀ channel ∈ tables.channels, channel.eventName =
    (plans.find? fun plan => plan.channelId = channel.id).bind PlannedEventChannel.stableName
  others : (tables.eventChannels.filter fun row => row.unowned (ownedChannels plans)) =
    (start.eventChannels.filter fun row => row.unowned (ownedChannels plans)).map
      EventChannelRow.hide
  keyed : ∀ plan ∈ plans, Keyed start plan tables
  written : ∀ plan ∈ plans, Written plan tables
  rest : ∀ programme ∈ tables.generated, programme.channelId ∈ ownedChannels plans

section Settled

variable {plans : List PlannedEventChannel} {start tables a b : EventTables}
  {steps : List ScanStep} {enabled : List Uuid}

theorem mem_owned {channelId : Uuid} :
    channelId ∈ ownedChannels plans ↔ ∃ plan ∈ plans, plan.channelId = channelId := List.mem_map

/-- A step that covers a template with a row of the channel clears its name. -/
theorem clears_of_covers {step : ScanStep} {channel : ScanChannel} {row : EventChannelRow}
    (hcovers : step.covers row.templateId = true) (hrow : row ∈ start.eventChannels)
    (hchannel : row.channelId = some channel.id) (hfree : channel.id ∉ ownedChannels plans) :
    step.clears (ownedChannels plans) start.eventChannels channel = true := by
  cases step with
  | write plan => cases hcovers
  | clear scope =>
    refine decide_eq_true ⟨hfree, ?_⟩
    cases scope with
    | none => rfl
    | some templateId =>
      have htemplate : templateId = row.templateId := of_decide_eq_true hcovers
      exact List.any_eq_true.mpr ⟨row, hrow, decide_eq_true ⟨hchannel, htemplate.symm⟩⟩

/-- Steps that write every plan and clear for every template settle the tables. -/
theorem settled_of_progress (hnodup : (ownedChannels plans).Nodup)
    (h : Progress plans start steps tables)
    (hwritten : ∀ plan ∈ plans, ScanStep.write plan ∈ steps)
    (hcovered : ∀ templateId ∈ enabled, steps.any (ScanStep.covers templateId) = true)
    (hrows : ∀ row ∈ start.eventChannels, row.templateId ∈ enabled)
    (hprogrammes : ∀ programme ∈ start.generated, programme.templateId ∈ enabled)
    (hnames : ∀ channel ∈ start.channels, channel.eventName ≠ none →
      ∃ row ∈ start.eventChannels, row.channelId = some channel.id) :
    Settled plans start tables := by
  refine ⟨h.ids, h.channels, ?_, ?_, h.keyed, fun plan hplan =>
    h.written plan hplan (hwritten plan hplan), ?_⟩
  · intro channel hchannel
    by_cases howned : channel.id ∈ ownedChannels plans
    · obtain ⟨plan, hplan, hid⟩ := mem_owned.mp howned
      rw [← hid, Table.find?_of_key hnodup hplan]
      exact h.ownedNames plan hplan (hwritten plan hplan) channel hchannel hid.symm
    · have hnone : (plans.find? fun plan => plan.channelId = channel.id) = none :=
        List.find?_eq_none.mpr fun plan hplan heq =>
          howned (mem_owned.mpr ⟨plan, hplan, of_decide_eq_true heq⟩)
      rw [hnone, Option.bind_none]
      rcases h.otherNames channel hchannel howned with hname | ⟨hstart, hkept⟩
      · exact hname
      · by_contra hname
        obtain ⟨row, hrow, hof⟩ := hnames channel hstart hname
        obtain ⟨step, hstep, hcovers⟩ := List.any_eq_true.mp (hcovered _ (hrows row hrow))
        have hclears := clears_of_covers hcovers hrow hof howned
        rw [hkept step hstep] at hclears
        cases hclears
  · rw [h.others]
    refine List.map_congr_left fun row hrow => ?_
    exact if_pos (hcovered _ (hrows row (List.mem_filter.mp hrow).1))
  · intro programme hprogramme
    by_contra hfree
    obtain ⟨hstart, hkept⟩ := h.rest programme hprogramme hfree
    rw [hcovered _ (hprogrammes programme hstart)] at hkept
    cases hkept

/-! ## Two ways to settle -/

theorem Settled.channels_eq (ha : Settled plans start a) (hb : Settled plans start b) :
    a.channels = b.channels := by
  have hall : ∀ tables, Settled plans start tables → tables.channels =
      (start.channels.map fun channel => (channel.id, channel.enabled)).map fun pair =>
        { id := pair.1, enabled := pair.2
          eventName := (plans.find? fun plan => plan.channelId = pair.1).bind
            PlannedEventChannel.stableName } := by
    intro tables h
    rw [← h.channels, List.map_map]
    refine (List.map_id _).symm.trans (List.map_congr_left fun channel hchannel => ?_)
    rw [Function.comp_apply, ← h.names channel hchannel]
    rfl
  rw [hall a ha, hall b hb]

/-- The ids that a plan has in two tables are both from the start and equal, or both new. -/
theorem view_row_eq {plan : PlannedEventChannel} {rowA rowB : Uuid}
    (ha : Keyed start plan a) (hb : Keyed start plan b)
    (hrowA : rowsOf a plan.channelId = [plan.row rowA])
    (hrowB : rowsOf b plan.channelId = [plan.row rowB]) :
    (plan.row rowA).view start = (plan.row rowB).view start := by
  have hid : ∀ {tables : EventTables} {rowId : Uuid}, Keyed start plan tables →
      rowsOf tables plan.channelId = [plan.row rowId] →
      ∀ old ∈ start.eventChannels, plan.owns old = true → rowId = old.id := by
    intro tables rowId h hrow old hold howns
    have hmem : plan.row rowId ∈ rowsOf tables plan.channelId := by
      rw [hrow]
      exact List.mem_singleton_self _
    exact h.same _ (mem_rowsOf.mp hmem).1 (owns_iff.mpr ⟨rfl, rfl⟩) old hold howns
  have hlasting : ∀ rowId, (plan.row rowId).lasting start = true →
      ∃ old ∈ start.eventChannels, plan.owns old = true := by
    intro rowId h
    obtain ⟨old, hold, hsame⟩ := List.any_eq_true.mp h
    obtain ⟨-, htemplate, hchannel⟩ := of_decide_eq_true hsame
    exact ⟨old, hold, owns_iff.mpr ⟨htemplate, hchannel⟩⟩
  by_cases hold : ∃ old ∈ start.eventChannels, plan.owns old = true
  · obtain ⟨old, hold, howns⟩ := hold
    rw [hid ha hrowA old hold howns, hid hb hrowB old hold howns]
  · have hnew : ∀ rowId, (plan.row rowId).view start = (none, plan.row 0) := by
      intro rowId
      unfold EventChannelRow.view
      rw [if_neg fun h => hold (hlasting rowId h)]
      rfl
    rw [hnew rowA, hnew rowB]

/-- The rows of a channel look the same. -/
theorem Settled.rows_eq (ha : Settled plans start a) (hb : Settled plans start b)
    (channelId : Option Uuid) :
    (a.eventChannels.filter fun row => row.channelId = channelId).map
        (EventChannelRow.view start) =
      (b.eventChannels.filter fun row => row.channelId = channelId).map
        (EventChannelRow.view start) := by
  by_cases howned : ∃ plan ∈ plans, channelId = some plan.channelId
  · obtain ⟨plan, hplan, rfl⟩ := howned
    obtain ⟨rowA, hrowA, -⟩ := ha.written plan hplan
    obtain ⟨rowB, hrowB, -⟩ := hb.written plan hplan
    have hview := view_row_eq (ha.keyed plan hplan) (hb.keyed plan hplan) hrowA hrowB
    calc (rowsOf a plan.channelId).map (EventChannelRow.view start)
        = [(plan.row rowA).view start] := by rw [hrowA, List.map_singleton]
      _ = [(plan.row rowB).view start] := by rw [hview]
      _ = (rowsOf b plan.channelId).map (EventChannelRow.view start) := by
        rw [hrowB, List.map_singleton]
  · have hsplit : ∀ rows : List EventChannelRow,
        (rows.filter fun row => row.channelId = channelId) =
          (rows.filter fun row => row.unowned (ownedChannels plans)).filter fun row =>
            row.channelId = channelId := by
      intro rows
      rw [List.filter_filter]
      refine List.filter_congr fun row _ => ?_
      by_cases hrow : row.channelId = channelId
      · have hfree : row.unowned (ownedChannels plans) = true := by
          unfold EventChannelRow.unowned
          rw [hrow]
          cases channelId with
          | none => rfl
          | some id =>
            rw [Option.all_some]
            refine decide_eq_true fun hmem => ?_
            obtain ⟨plan, hplan, rfl⟩ := mem_owned.mp hmem
            exact howned ⟨plan, hplan, rfl⟩
        rw [hfree, Bool.and_true]
      · rw [decide_eq_false hrow, Bool.false_and]
    rw [hsplit a.eventChannels, hsplit b.eventChannels, ha.others, hb.others]

theorem find?_row {rowId : Uuid} {plan : PlannedEventChannel} (h : Settled plans start tables)
    (hrow : rowsOf tables plan.channelId = [plan.row rowId]) :
    (tables.eventChannels.find? fun row => row.id = rowId) = some (plan.row rowId) := by
  have hmem : plan.row rowId ∈ rowsOf tables plan.channelId := by
    rw [hrow]
    exact List.mem_singleton_self _
  exact Table.find?_of_key h.ids (mem_rowsOf.mp hmem).1

/-- What the stored programmes of a plan look like. -/
theorem view_stored {plan : PlannedEventChannel} {rowId : Uuid} (h : Settled plans start tables)
    (hrow : rowsOf tables plan.channelId = [plan.row rowId])
    {programmes : List GeneratedProgramme} {rows : List GeneratedProgrammeRow}
    (hstores : Stores plan rowId programmes rows) :
    rows.map (GeneratedProgrammeRow.view start tables) = programmes.map fun programme =>
      (some ((plan.row rowId).view start), plan.stored 0 0 programme) := by
  induction hstores with
  | nil => rfl
  | @cons programme _ _ _ hfirst _ ih =>
    obtain ⟨id, rfl⟩ := hfirst
    have hfind : (tables.eventChannels.find? fun row =>
        row.id = (plan.stored rowId id programme).eventChannelId) = some (plan.row rowId) :=
      find?_row h hrow
    rw [List.map_cons, List.map_cons, ih, GeneratedProgrammeRow.view, hfind]
    rfl

theorem Settled.programmes_eq (ha : Settled plans start a) (hb : Settled plans start b)
    (channelId : Uuid) :
    (programmesOf a channelId).map (GeneratedProgrammeRow.view start a) =
      (programmesOf b channelId).map (GeneratedProgrammeRow.view start b) := by
  by_cases howned : channelId ∈ ownedChannels plans
  · obtain ⟨plan, hplan, rfl⟩ := mem_owned.mp howned
    obtain ⟨rowA, hrowA, hstoresA⟩ := ha.written plan hplan
    obtain ⟨rowB, hrowB, hstoresB⟩ := hb.written plan hplan
    rw [view_stored ha hrowA hstoresA, view_stored hb hrowB hstoresB,
      view_row_eq (ha.keyed plan hplan) (hb.keyed plan hplan) hrowA hrowB]
  · have hnil : ∀ tables, Settled plans start tables → programmesOf tables channelId = [] :=
      fun tables h => List.filter_eq_nil_iff.mpr fun programme hprogramme heq =>
        howned (of_decide_eq_true heq ▸ h.rest programme hprogramme)
    rw [hnil a ha, hnil b hb]
    rfl

theorem Settled.same (ha : Settled plans start a) (hb : Settled plans start b) :
    SameGuides start a b := by
  refine ⟨ha.channels_eq hb, ?_, ?_⟩
  · refine Table.perm_of_filter (fun view => view.2.channelId) fun channelId => ?_
    rw [List.filter_map, List.filter_map]
    exact .of_eq (ha.rows_eq hb channelId)
  · refine Table.perm_of_filter (fun view => view.2.channelId) fun channelId => ?_
    rw [List.filter_map, List.filter_map]
    exact .of_eq (ha.programmes_eq hb channelId)

end Settled

end IptvRelay.Guide
