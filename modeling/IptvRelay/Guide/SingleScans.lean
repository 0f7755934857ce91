import IptvRelay.Guide.PlannedChannels
import IptvRelay.Guide.ScanAgreement

/-!
# Scanning one template at a time

Both kinds of scan are sequences of the same steps. They succeed when each generated programme
belongs to the channel of its event row, as the scan itself writes it.
-/

namespace IptvRelay.Guide

open Checked

/-! ## Writes that succeed -/

/-- Each programme refers to an event row of its channel. -/
def EventTables.Attached (tables : EventTables) : Prop :=
  ∀ programme ∈ tables.generated, ∃ row ∈ tables.eventChannels,
    row.id = programme.eventChannelId ∧ row.channelId = some programme.channelId

section Writes

variable {ids : IdSupply} {plan : PlannedEventChannel} {tables tables' : EventTables}

/-- Rows that do not stand in the way of these programmes. -/
def Clear (plan : PlannedEventChannel) (rowId : Uuid) (rows : List GeneratedProgrammeRow)
    (programmes : List GeneratedProgramme) : Prop :=
  ∀ row ∈ rows, ∀ programme ∈ programmes,
    (row.channelId = plan.channelId → row.stopsAt ≤ programme.startsAt) ∧
      (row.eventChannelId = rowId → row.stableEventKey = none ∨ programme.stableEventKey = none)

theorem insertable_of_clear {rowId id : Uuid} {rows : List GeneratedProgrammeRow}
    {programme : GeneratedProgramme} (hpositive : programme.startsAt < programme.stopsAt)
    (h : Clear plan rowId rows [programme]) : Insertable rows (plan.stored rowId id programme) := by
  have hrow := fun row hmem => h row hmem programme (List.mem_singleton_self _)
  refine ⟨hpositive, fun row hmem hchannel => .inl ((hrow row hmem).1 hchannel), ?_⟩
  intro row hmem hevent
  by_cases hkey : programme.stableEventKey = none
  · exact .inl hkey
  · refine .inr fun heq => ?_
    rcases (hrow row hmem).2 hevent with hnone | hnone
    · exact hkey (heq.symm.trans hnone)
    · exact hkey hnone

theorem insertProgrammes_total {rowId : Uuid} {programmes : List GeneratedProgramme}
    {rows : List GeneratedProgrammeRow} (h : Storable programmes)
    (hclear : Clear plan rowId rows programmes) :
    ∃ result, programmes.foldlM (insertProgramme ids plan rowId) rows = .ok result := by
  induction programmes generalizing rows with
  | nil => exact ⟨rows, rfl⟩
  | cons programme programmes ih =>
    obtain ⟨hfirst, hrest⟩ := List.pairwise_cons.mp h.follows
    have hinsert : Insertable rows (plan.stored rowId
        (ids.fresh (rows.map GeneratedProgrammeRow.id)) programme) :=
      insertable_of_clear (h.positive programme List.mem_cons_self) fun row hrow other hother =>
        hclear row hrow other (List.mem_singleton.mp hother ▸ List.mem_cons_self)
    have hstep : insertProgramme ids plan rowId rows programme = .ok (rows ++ [plan.stored rowId
        (ids.fresh (rows.map GeneratedProgrammeRow.id)) programme]) := by
      unfold insertProgramme
      rw [ensure_bind hinsert]
      rfl
    rw [List.foldlM_cons, hstep, ok_bind]
    refine ih ⟨fun other hother => h.positive other (List.mem_cons_of_mem _ hother), hrest⟩ ?_
    intro row hrow other hother
    rcases List.mem_append.mp hrow with hrow | hrow
    · exact hclear row hrow other (List.mem_cons_of_mem _ hother)
    · rw [List.mem_singleton.mp hrow]
      obtain ⟨hbehind, hkeys⟩ := hfirst other hother
      exact ⟨fun _ => hbehind, fun _ => hkeys⟩

/-- The id of the row of a plan is not the id of a row of another channel. -/
theorem upsert_id_of_channel {rows : List EventChannelRow}
    (hids : (rows.map EventChannelRow.id).Nodup) {row : EventChannelRow} (hrow : row ∈ rows)
    (hid : row.id = (upsertEventChannelRow ids plan rows).1) :
    row.channelId = some plan.channelId := by
  unfold upsertEventChannelRow at hid
  cases hfound : rows.find? plan.owns with
  | some found =>
    rw [hfound] at hid
    rw [Table.eq_of_key hids hrow (List.mem_of_find?_eq_some hfound) hid]
    exact (owns_iff.mp (List.find?_some hfound)).2
  | none =>
    rw [hfound] at hid
    have hnew : row.id = ids.fresh (rows.map EventChannelRow.id) := hid
    exact absurd (hnew ▸ List.mem_map_of_mem hrow) (ids.fresh_new (rows.map EventChannelRow.id))

theorem write_total (hids : (tables.eventChannels.map EventChannelRow.id).Nodup)
    (hattached : tables.Attached) (hplan : Storable plan.programmes) :
    ∃ tables', writeEventChannelGuide ids plan tables = .ok tables' := by
  have hkept := @Table.nodup_delete _ _ plan.replaces _ _ hids
  have hclear : Clear plan (upsertEventChannelRow ids plan
        (tables.deleteEventChannels plan.replaces).eventChannels).1
      (Table.delete (fun programme => programme.channelId = plan.channelId)
        (tables.deleteEventChannels plan.replaces).generated) plan.programmes := by
    intro row hrow programme _
    obtain ⟨hrow, hother⟩ := Table.mem_delete.mp hrow
    have hne := of_decide_eq_false hother
    refine ⟨fun heq => absurd heq hne, fun hid => ?_⟩
    obtain ⟨event, hevent, heventId, hchannel⟩ := hattached row (Table.mem_delete.mp hrow).1
    have hnot : ¬event.channelId = some plan.channelId := fun heq =>
      hne (Option.some.inj (hchannel.symm.trans heq))
    have hlast : event ∈ (tables.deleteEventChannels plan.replaces).eventChannels :=
      Table.mem_delete.mpr ⟨hevent, decide_eq_false fun heq => hnot heq.1⟩
    exact absurd (upsert_id_of_channel hkept hlast (heventId.trans hid)) hnot
  obtain ⟨result, hresult⟩ := @insertProgrammes_total ids _ _ _ _ hplan hclear
  unfold writeEventChannelGuide
  simp only [hresult, ok_bind]
  exact ⟨_, rfl⟩

/-- A write attaches its programmes and keeps the others attached. -/
theorem Wrote.attached (h : Wrote plan tables tables') (hattached : tables.Attached) :
    tables'.Attached := by
  intro programme hprogramme
  by_cases hchannel : programme.channelId = plan.channelId
  · obtain ⟨rowId, hrows, -, hstores⟩ := h.row
    have hmem : plan.row rowId ∈ rowsOf tables' plan.channelId := by
      rw [hrows]
      exact List.mem_singleton_self _
    have hof : programme ∈ programmesOf tables' plan.channelId :=
      List.mem_filter.mpr ⟨hprogramme, decide_eq_true hchannel⟩
    exact ⟨plan.row rowId, (mem_rowsOf.mp hmem).1, (channelId_of_stores hstores hof).2.symm,
      congrArg some hchannel.symm⟩
  · obtain ⟨row, hrow, hid, hof⟩ := hattached programme (h.generated programme hprogramme hchannel)
    have hmem : row ∈ rowsOf tables' programme.channelId := by
      rw [h.rowsOf_other hchannel]
      exact mem_rowsOf.mpr ⟨hrow, hof⟩
    exact ⟨row, (mem_rowsOf.mp hmem).1, hid, hof⟩

theorem attached_clear (owned : List Uuid) (scope : Option Uuid) (h : tables.Attached) :
    (clearUnownedEventChannels owned scope tables).Attached := by
  intro programme hprogramme
  obtain ⟨row, hrow, hid, hof⟩ := h programme (Table.mem_delete.mp hprogramme).1
  refine ⟨_, Table.mem_update_of_mem hrow, ?_⟩
  split
  · exact ⟨hid, hof⟩
  · exact ⟨hid, hof⟩

end Writes

/-! ## Runs -/

section Runs

variable {plans : List PlannedEventChannel} {start tables tables' : EventTables}
  {steps : List ScanStep} {ids : IdSupply}

/-- From attached tables all steps succeed. -/
theorem run_total (hnodup : (ownedChannels plans).Nodup)
    (hsound : ∀ plan ∈ plans, Storable plan.programmes) {more : List ScanStep}
    (hplans : Plans plans more) (h : Progress plans start steps tables)
    (hattached : tables.Attached) :
    ∃ tables', more.foldlM (ScanStep.run ids (ownedChannels plans)) tables = .ok tables' ∧
      tables'.Attached := by
  induction more generalizing steps tables with
  | nil => exact ⟨tables, rfl, hattached⟩
  | cons step more ih =>
    have hmore : Plans plans more := fun plan hmem => hplans plan (List.mem_cons_of_mem step hmem)
    cases step with
    | write plan =>
      have hplan := hplans plan List.mem_cons_self
      obtain ⟨next, hnext⟩ := @write_total ids _ _ h.ids hattached (hsound plan hplan)
      have hwrote := write_ok h.ids (h.keyed plan hplan).keys hnext
      obtain ⟨last, hlast, hfinal⟩ := ih hmore (h.write hnodup hplan hwrote)
        (hwrote.attached hattached)
      refine ⟨last, ?_, hfinal⟩
      rw [List.foldlM_cons]
      change (writeEventChannelGuide ids plan tables >>= _) = _
      rw [hnext, ok_bind]
      exact hlast
    | clear scope =>
      obtain ⟨last, hlast, hfinal⟩ := ih hmore (h.clear scope) (attached_clear _ scope hattached)
      refine ⟨last, ?_, hfinal⟩
      rw [List.foldlM_cons]
      exact hlast

/-- The steps of one scan. -/
def scanSteps (plans : List PlannedEventChannel) (scope : Option Uuid) : List ScanStep :=
  (plans.filter fun plan => inScope scope plan.template.id).map .write ++ [.clear scope]

theorem plans_scanSteps (scope : Option Uuid) : Plans plans (scanSteps plans scope) := by
  intro plan hmem
  rcases List.mem_append.mp hmem with hmem | hmem
  · obtain ⟨other, hother, heq⟩ := List.mem_map.mp hmem
    exact ScanStep.write.inj heq ▸ (List.mem_filter.mp hother).1
  · cases List.mem_singleton.mp hmem

theorem write_mem_scanSteps {plan : PlannedEventChannel} {scope : Option Uuid} (hplan : plan ∈ plans)
    (hscope : inScope scope plan.template.id = true) :
    ScanStep.write plan ∈ scanSteps plans scope :=
  List.mem_append_left _ (List.mem_map_of_mem (List.mem_filter.mpr ⟨hplan, hscope⟩))

theorem clear_mem_scanSteps (scope : Option Uuid) : ScanStep.clear scope ∈ scanSteps plans scope :=
  List.mem_append_right _ (List.mem_singleton_self _)

end Runs

section Scans

variable (env : ScanEnvironment) (settings : EventScanSettings) (now : Int)
  (catalog : ScanCatalog) (client : Option SportsClient)

/-- The plans of a full scan. -/
def fullPlans (channels : List ScanChannel) : List PlannedEventChannel :=
  (plannedChannels env settings now catalog channels).map
    (enrichPlan env settings now (settings.sports.or client) none)

variable {env settings now catalog client} {start tables tables' : EventTables}
  {ids : IdSupply}

theorem owned_fullPlans {channels : List ScanChannel} (scope : Option Uuid) :
    ((plannedChannels env settings now catalog channels).map
      (enrichPlan env settings now (settings.sports.or client) scope)).map
        PlannedEventChannel.channelId =
      ownedChannels (fullPlans env settings now catalog client channels) := by
  unfold ownedChannels fullPlans
  rw [List.map_map, List.map_map]
  refine List.map_congr_left fun plan _ => ?_
  exact (enrichPlan_channelId _ scope plan).trans (enrichPlan_channelId _ none plan).symm

theorem fullPlans_nodup {channels : List ScanChannel} :
    (ownedChannels (fullPlans env settings now catalog client channels)).Nodup := by
  have hids : ownedChannels (fullPlans env settings now catalog client channels) =
      (plannedChannels env settings now catalog channels).map PlannedEventChannel.channelId := by
    unfold ownedChannels fullPlans
    rw [List.map_map]
    exact List.map_congr_left fun plan _ => enrichPlan_channelId _ none plan
  rw [hids]
  exact plannedChannels_nodup

theorem fullPlans_sound {channels : List ScanChannel} {plan : PlannedEventChannel}
    (h : plan ∈ fullPlans env settings now catalog client channels) :
    (plan.template ∈ catalog.templates ∧ plan.template.enabled = true) ∧ Sound plan := by
  obtain ⟨planned, hplanned, rfl⟩ := List.mem_map.mp h
  obtain ⟨htemplate, hsound⟩ := mem_plannedChannels hplanned
  rw [enrichPlan_template]
  exact ⟨htemplate, enrichPlan_sound _ none planned hsound⟩

/-- The plans in the scope of a scan are those of a full scan. -/
theorem inScope_fullPlans {channels : List ScanChannel} (scope : Option Uuid) :
    (((plannedChannels env settings now catalog channels).map
      (enrichPlan env settings now (settings.sports.or client) scope)).filter fun plan =>
        inScope scope plan.template.id) =
      (fullPlans env settings now catalog client channels).filter fun plan =>
        inScope scope plan.template.id := by
  unfold fullPlans
  rw [List.filter_map, List.filter_map]
  simp only [Function.comp_def, enrichPlan_template]
  refine List.map_congr_left fun plan hplan => ?_
  exact enrichPlan_of_inScope _ scope plan (List.mem_filter.mp hplan).2

/-- A scan makes its steps, whatever the names and rows are by then. -/
theorem runEventScan_eq (scope : Option Uuid)
    (hchannels : (tables.channels.map fun channel => (channel.id, channel.enabled)) =
      start.channels.map fun channel => (channel.id, channel.enabled)) :
    ∃ report, runEventScan env settings now catalog ids client scope tables =
      ((scanSteps (fullPlans env settings now catalog client start.channels) scope).foldlM
        (ScanStep.run ids (ownedChannels (fullPlans env settings now catalog client
          start.channels))) tables).map fun result => (report, result) := by
  refine ⟨scanReport env catalog scope (scanOutcomes env settings now catalog tables.channels)
    ((fullPlans env settings now catalog client start.channels).filter fun plan =>
      inScope scope plan.template.id), ?_⟩
  unfold runEventScan scanSteps
  simp only [plannedChannels_congr hchannels, inScope_fullPlans, owned_fullPlans]
  rw [List.foldlM_append, List.foldlM_map]
  change _ = ((((fullPlans env settings now catalog client start.channels).filter fun plan =>
    inScope scope plan.template.id).foldlM (fun tables plan =>
      writeEventChannelGuide ids plan tables) tables) >>= _).map _
  cases ((fullPlans env settings now catalog client start.channels).filter fun plan =>
    inScope scope plan.template.id).foldlM (fun tables plan =>
      writeEventChannelGuide ids plan tables) tables with
  | error error => rfl
  | ok written => rfl

/-! ## One scan after another -/

def enabledTemplates (catalog : ScanCatalog) : List Uuid :=
  (catalog.templates.filter EventTemplateRow.enabled).map EventTemplateRow.id

/-- The scans for these templates, as steps. -/
def eachSteps (plans : List PlannedEventChannel) (templateIds : List Uuid) : List ScanStep :=
  templateIds.flatMap fun templateId => scanSteps plans (some templateId)

theorem scanEventChannelsReport_eq {templateId : Uuid} (h : templateId ∈ enabledTemplates catalog) :
    scanEventChannelsReport env settings now catalog ids client templateId tables =
      runEventScan env settings now catalog ids client (some templateId) tables := by
  obtain ⟨template, htemplate, rfl⟩ := List.mem_map.mp h
  obtain ⟨htemplate, henabled⟩ := List.mem_filter.mp htemplate
  rw [scanEventChannelsReport, Table.find?_of_key catalog.template_ids htemplate]
  exact if_pos henabled

/-- The scans for a list of templates make their steps. -/
theorem scanEach_eq {steps : List ScanStep}
    (h : Progress (fullPlans env settings now catalog client start.channels) start steps tables)
    {templateIds : List Uuid} (htemplates : ∀ id ∈ templateIds, id ∈ enabledTemplates catalog) :
    scanEach env settings now catalog ids client templateIds tables =
      (eachSteps (fullPlans env settings now catalog client start.channels) templateIds).foldlM
        (ScanStep.run ids (ownedChannels (fullPlans env settings now catalog client
          start.channels))) tables := by
  induction templateIds generalizing steps tables with
  | nil => rfl
  | cons templateId templateIds ih =>
    have hrest : ∀ id ∈ templateIds, id ∈ enabledTemplates catalog :=
      fun id hid => htemplates id (List.mem_cons_of_mem _ hid)
    obtain ⟨report, hscan⟩ := @runEventScan_eq env settings now catalog client start tables
      ids (some templateId) h.channels
    rw [scanEach, List.foldlM_cons, eachSteps, List.flatMap_cons, List.foldlM_append]
    rw [scanEventChannelsReport_eq (htemplates templateId List.mem_cons_self), hscan]
    cases hrun : (scanSteps (fullPlans env settings now catalog client start.channels)
        (some templateId)).foldlM (ScanStep.run ids (ownedChannels (fullPlans env settings now
          catalog client start.channels))) tables with
    | error error => rfl
    | ok next => exact ih (h.run fullPlans_nodup (plans_scanSteps _) hrun) hrest

theorem mem_eachSteps {plans : List PlannedEventChannel} {templateIds : List Uuid} {step : ScanStep} :
    step ∈ eachSteps plans templateIds ↔
      ∃ templateId ∈ templateIds, step ∈ scanSteps plans (some templateId) := List.mem_flatMap

theorem plans_eachSteps {plans : List PlannedEventChannel} (templateIds : List Uuid) :
    Plans plans (eachSteps plans templateIds) := by
  intro plan hmem
  obtain ⟨templateId, -, hstep⟩ := mem_eachSteps.mp hmem
  exact plans_scanSteps (some templateId) plan hstep

/-- What the agreement needs of the tables at the start: all rows and programmes belong to enabled
templates, and only channels with an event row have an event name. -/
structure Ready (catalog : ScanCatalog) (tables : EventTables) : Prop where
  wellFormed : tables.WellFormed
  rows : ∀ row ∈ tables.eventChannels, row.templateId ∈ enabledTemplates catalog
  programmes : ∀ programme ∈ tables.generated, programme.templateId ∈ enabledTemplates catalog
  names : ∀ channel ∈ tables.channels, channel.eventName ≠ none →
    ∃ row ∈ tables.eventChannels, row.channelId = some channel.id

/-- A full scan settles the tables. -/
theorem scanAll_settled (h : Ready catalog tables) {report : EventScanReport}
    (hscan : scanAllEventChannelsAt env settings now catalog ids client tables =
      .ok (report, tables')) :
    Settled (fullPlans env settings now catalog client tables.channels) tables tables' := by
  obtain ⟨other, heq⟩ := @runEventScan_eq env settings now catalog client tables tables ids none rfl
  rw [scanAllEventChannelsAt, heq] at hscan
  cases hrun : (scanSteps (fullPlans env settings now catalog client tables.channels) none).foldlM
      (ScanStep.run ids (ownedChannels (fullPlans env settings now catalog client
        tables.channels))) tables with
  | error error =>
    rw [hrun] at hscan
    cases hscan
  | ok last =>
    rw [hrun] at hscan
    cases hscan
    refine settled_of_progress fullPlans_nodup
      ((progress_start h.wellFormed).run fullPlans_nodup (plans_scanSteps _) hrun)
      (fun plan hplan => write_mem_scanSteps hplan rfl) (fun templateId _ => ?_) h.rows h.programmes
      h.names
    exact List.any_eq_true.mpr ⟨.clear none, clear_mem_scanSteps none, rfl⟩

/-- One scan for each enabled template settles the tables, in any order. -/
theorem scanEach_settled (h : Ready catalog tables) {templateIds : List Uuid}
    (horder : templateIds.Perm (enabledTemplates catalog))
    (hscan : scanEach env settings now catalog ids client templateIds tables = .ok tables') :
    Settled (fullPlans env settings now catalog client tables.channels) tables tables' := by
  have hstart := @progress_start (fullPlans env settings now catalog client tables.channels) _
    h.wellFormed
  rw [scanEach_eq hstart fun id hid => horder.mem_iff.mp hid] at hscan
  refine settled_of_progress fullPlans_nodup (hstart.run fullPlans_nodup (plans_eachSteps _) hscan) ?_ ?_ h.rows
    h.programmes h.names
  · intro plan hplan
    obtain ⟨⟨htemplate, henabled⟩, -⟩ := fullPlans_sound hplan
    have hmem : plan.template.id ∈ templateIds :=
      horder.mem_iff.mpr (List.mem_map_of_mem (List.mem_filter.mpr ⟨htemplate, henabled⟩))
    exact mem_eachSteps.mpr ⟨_, hmem, write_mem_scanSteps hplan (decide_eq_true rfl)⟩
  · intro templateId hmem
    exact List.any_eq_true.mpr ⟨.clear (some templateId), mem_eachSteps.mpr
      ⟨templateId, horder.mem_iff.mpr hmem, clear_mem_scanSteps _⟩, decide_eq_true rfl⟩

/-- From attached tables every scan succeeds, and leaves attached tables. -/
theorem scans_total (h : Ready catalog tables) (hattached : tables.Attached)
    {templateIds : List Uuid} (horder : templateIds.Perm (enabledTemplates catalog)) :
    (∃ report full, scanAllEventChannelsAt env settings now catalog ids client tables =
        .ok (report, full) ∧ full.Attached) ∧
      ∃ each, scanEach env settings now catalog ids client templateIds tables = .ok each ∧
        each.Attached := by
  have hstart := @progress_start (fullPlans env settings now catalog client tables.channels) _
    h.wellFormed
  have hsound : ∀ plan ∈ fullPlans env settings now catalog client tables.channels,
      Storable plan.programmes := fun plan hplan => (fullPlans_sound hplan).2.programmes
  constructor
  · obtain ⟨report, heq⟩ := @runEventScan_eq env settings now catalog client tables tables ids none
      rfl
    obtain ⟨last, hlast, hfinal⟩ := @run_total _ _ _ _ ids fullPlans_nodup hsound _
      (plans_scanSteps none) hstart hattached
    rw [scanAllEventChannelsAt, heq, hlast]
    exact ⟨report, last, rfl, hfinal⟩
  · obtain ⟨last, hlast, hfinal⟩ := @run_total _ _ _ _ ids fullPlans_nodup hsound _
      (plans_eachSteps templateIds) hstart hattached
    rw [scanEach_eq hstart fun id hid => horder.mem_iff.mp hid]
    exact ⟨last, hlast, hfinal⟩

end Scans

/-- Scans for the enabled templates one by one end with the guides of a full scan, whatever their
order. When every programme belongs to the channel of its event row, all scans end, and leave the
programmes so. -/
theorem single_scans_agree (env : ScanEnvironment) (settings : EventScanSettings) (now : Int)
    (catalog : ScanCatalog) (client : Option SportsClient) (ids ids' : IdSupply)
    (tables : EventTables) (h : Ready catalog tables) (templateIds : List Uuid)
    (horder : templateIds.Perm (enabledTemplates catalog)) :
    (∀ report full each,
      scanAllEventChannelsAt env settings now catalog ids client tables = .ok (report, full) →
      scanEach env settings now catalog ids' client templateIds tables = .ok each →
        SameGuides tables full each) ∧
    (tables.Attached →
      (∃ report full, scanAllEventChannelsAt env settings now catalog ids client tables =
        .ok (report, full) ∧ full.Attached) ∧
      ∃ each, scanEach env settings now catalog ids' client templateIds tables = .ok each ∧
        each.Attached) := by
  constructor
  · intro report full each hfull heach
    exact (scanAll_settled h hfull).same (scanEach_settled h horder heach)
  · intro hattached
    exact ⟨(scans_total h hattached horder).1, (scans_total h hattached horder).2⟩

section Example

/-- Plain names as regular expressions and one event at the epoch for every match. -/
def plainEnvironment : ScanEnvironment where
  locale := epochLocale
  compileRegex pattern := .ok fun name => pattern.toList <:+: name.toList
  parseTimezone name := some (String.ofList name)
  compileRules rules := .ok fun _ _ =>
    .ok (some ⟨{ guide := ⟨rules.durationSeconds, "", "\x7bsource\x7d"⟩ }, none, fun _ => none⟩)
  resolveStart _ _ _ := .ok (some 0)
  guideErrorText _ := "no guide"
  providerLabel _ := none
  formatLocal _ _ := "Jan 1 12:00 AM UTC"
  localDate _ _ := 0
  leagueFromKey _ := none

def epochSettings : EventScanSettings := ⟨"Upcoming", "Event ended", 10800, none⟩

def leagueTemplate (id : Uuid) (league : String) : EventTemplateRow where
  id
  name := league
  displayName := league
  matchRegex := league
  channelNameFormat := ""
  eventDurationHours := 3
  pastDateGraceHours := 4
  futureDateDays := 7
  timezone := "UTC"
  enabled := true

/-- A channel whose stream has changed from one league to the other. -/
def movedCatalog : ScanCatalog where
  templates := [leagueTemplate 1 "NBA", leagueTemplate 2 "NHL"]
  channelStreams := [⟨7, 17, 0⟩]
  providerStreams := [⟨17, 27, 37, "NHL 01: Sharks @ Kings", none, true⟩]
  snapshots := [⟨27, .active, none, 0⟩]
  accounts := [⟨37, none⟩]
  regionTimezone := none
  template_ids := by decide

def movedTables : EventTables where
  channels := [⟨7, true, some "NBA 01"⟩]
  eventChannels := [⟨70, 1, some 7, 1, some "Lakers @ Bulls", some 0, some hourNanoseconds,
    some "NBA 01: Lakers @ Bulls", .live⟩]
  generated := [{
    id := 700, eventChannelId := 70, channelId := 7, templateId := 1, ruleId := 1, ruleName := "NBA"
    stableEventKey := none, sourceTitle := "NBA 01: Lakers @ Bulls", kind := .event, startsAt := 0
    stopsAt := hourNanoseconds, title := "Lakers @ Bulls", categories := ["Dynamic event", "event"]
    metadata := ⟨"NBA", "NBA 01: Lakers @ Bulls", some "NBA 01", none, none⟩ }]

theorem foldr_max_ge {ids : List Uuid} {id : Uuid} (h : id ∈ ids) : id ≤ ids.foldr max 0 := by
  induction ids with
  | nil => cases h
  | cons first ids ih =>
    rcases List.mem_cons.mp h with rfl | h
    · exact le_max_left _ _
    · exact (ih h).trans (le_max_right _ _)

def countingIds : IdSupply where
  fresh used := used.foldr max 0 + 1
  fresh_new _ hmem := Nat.not_succ_le_self _ (foldr_max_ge hmem)

theorem movedTables_ready : Ready movedCatalog movedTables where
  wellFormed := ⟨List.nodup_singleton _, fun channelId =>
    (List.nodup_singleton _).sublist (List.filter_sublist.map EventChannelRow.templateId)⟩
  rows := fun row hrow => by
    rw [List.mem_singleton.mp hrow]
    decide
  programmes := fun programme hprogramme => by
    rw [List.mem_singleton.mp hprogramme]
    decide
  names := fun channel hchannel _ => by
    rw [List.mem_singleton.mp hchannel]
    exact ⟨_, List.mem_singleton_self _, rfl⟩

theorem movedTables_attached : movedTables.Attached := by
  intro programme hprogramme
  rw [List.mem_singleton.mp hprogramme]
  exact ⟨_, List.mem_singleton_self _, rfl, rfl⟩

/-- The channel moves from the first template to the second one, which is scanned first: its one row
and all its programmes have the second template then. -/
theorem single_scans_agree_moved :
    ∃ report full each, scanAllEventChannelsAt plainEnvironment epochSettings 0 movedCatalog
        countingIds none movedTables = .ok (report, full) ∧
      scanEach plainEnvironment epochSettings 0 movedCatalog countingIds none [2, 1] movedTables =
        .ok each ∧ SameGuides movedTables full each ∧
      (rowsOf full 7).map EventChannelRow.templateId = [2] ∧
      ∀ programme ∈ programmesOf full 7, programme.templateId = 2 := by
  obtain ⟨hagree, htotal⟩ := single_scans_agree plainEnvironment epochSettings 0 movedCatalog none
    countingIds countingIds movedTables movedTables_ready [2, 1] (by decide)
  obtain ⟨⟨report, full, hfull, -⟩, each, heach, -⟩ := htotal movedTables_attached
  have hplans : (fullPlans plainEnvironment epochSettings 0 movedCatalog none
      movedTables.channels).map (fun plan => (plan.channelId, plan.template.id)) = [(7, 2)] := by
    decide +kernel
  obtain ⟨plan, hplan, hids⟩ := List.mem_map.mp (hplans ▸ List.mem_singleton_self _)
  obtain ⟨hchannel, htemplate⟩ := Prod.mk.inj hids
  obtain ⟨rowId, hrows, hprogrammes⟩ := (scanAll_settled movedTables_ready hfull).written plan hplan
  rw [hchannel] at hrows hprogrammes
  refine ⟨report, full, each, hfull, heach, hagree report full each hfull heach, ?_,
    fun programme hmem => ?_⟩
  · rw [hrows, List.map_singleton]
    exact congrArg (fun id => [id]) htemplate
  · obtain ⟨_, -, id, rfl⟩ := exists_of_stores hprogrammes hmem
    exact htemplate

end Example

end IptvRelay.Guide
