import IptvRelay.Guide.EpgDecisions
import IptvRelay.Lib.Machine

/-!
# Reconciliations in a row

A reconciliation looks for names and aliases before it removes what is no match any more, so a
channel that loses its mapping gets another one by the next reconciliation only. Behind two of
them nothing is left to do. Manual mappings stay through any run of the system.
-/

namespace IptvRelay.Guide.EpgMappings

open Catalog (ChannelRow)
open Store (Time SnapshotRow)
open Transition

/-! ## Decisions in a row -/

/-- Mappings that differ in their revisions only. -/
def SameMapping (a b : Option EpgMapping) : Prop :=
  a.map (fun mapping => { mapping with revision := 0 }) =
    b.map fun mapping => { mapping with revision := 0 }

section Decisions

variable {text : TextFunctions} {sources : EpgSources} {channel : ChannelRow}
  {old : Option EpgMapping} {mapping : EpgMapping}

theorem SameMapping.refl (old : Option EpgMapping) : SameMapping old old := rfl

theorem decision_of_manual (h : mapping.reviewStatus = .manual) :
    sources.decision text channel (some mapping) = some mapping := if_pos h

/-- What is decided is manual, a match by id, or kept. -/
theorem decision_keeps (h : sources.decision text channel old = some mapping)
    (hmanual : mapping.reviewStatus ≠ .manual) :
    sources.keeps text channel mapping.epgChannelId = true := by
  rw [decision_eq_filter, Option.filter_eq_some_iff] at h
  simpa [hmanual] using h.2

/-- A mapping that is kept is decided again. -/
theorem decision_of_keeps (hkeeps : mapping.reviewStatus ≠ .manual →
    sources.keeps text channel mapping.epgChannelId = true) :
    sources.decision text channel (some mapping) ≠ none := by
  by_cases hmanual : mapping.reviewStatus = .manual
  · simp [EpgSources.decision, hmanual]
  · cases htvg : sources.tvgMatch text channel with
    | none => simp [EpgSources.decision, hmanual, htvg, hkeeps hmanual]
    | some new => simp [EpgSources.decision, hmanual, htvg]

/-- What is decided stays, up to its revision. -/
theorem sameMapping_decision (h : sources.decision text channel old = some mapping) :
    SameMapping (sources.decision text channel (some mapping)) (some mapping) := by
  by_cases hmanual : mapping.reviewStatus = .manual
  · rw [decision_of_manual hmanual]
    exact SameMapping.refl _
  · cases htvg : sources.tvgMatch text channel with
    | none =>
      have hsame : sources.decision text channel (some mapping) = some mapping := by
        simp [EpgSources.decision, hmanual, htvg, decision_keeps h hmanual]
      rw [hsame]
      exact SameMapping.refl _
    | some new =>
      have hagain : sources.decision text channel (some mapping) = some (mapping.replace new) := by
        simp [EpgSources.decision, hmanual, htvg]
      rw [hagain]
      -- The mapping is that match already.
      cases old with
      | none =>
        have hfirst : sources.firstMatch text channel = some new := by
          rw [EpgSources.firstMatch, htvg, Option.some_or]
        obtain rfl : new = mapping := Option.some.inj (hfirst.symm.trans h)
        simp [SameMapping, EpgMapping.replace, hmanual]
      | some old =>
        have hold : old.reviewStatus ≠ .manual := by
          intro hold
          rw [decision_of_manual hold] at h
          exact hmanual (Option.some.inj h ▸ hold)
        have hmapping : old.replace new = mapping := by
          simpa [EpgSources.decision, hold, htvg] using h
        have hnew : new.reviewStatus ≠ .manual := by
          rwa [← hmapping, replace_reviewStatus hold] at hmanual
        simp [← hmapping, SameMapping, EpgMapping.replace, hold, hnew]

/-- Two decisions leave nothing to decide. -/
theorem sameMapping_decision_decision : SameMapping
    (sources.decision text channel
      (sources.decision text channel (sources.decision text channel old)))
    (sources.decision text channel (sources.decision text channel old)) := by
  cases hagain : sources.decision text channel (sources.decision text channel old) with
  | some mapping => exact sameMapping_decision hagain
  | none =>
    cases hfirst : sources.decision text channel old with
    | none =>
      rw [hfirst] at hagain
      rw [hagain]
      exact SameMapping.refl _
    | some mapping =>
      rw [hfirst] at hagain
      exact absurd hagain (decision_of_keeps (decision_keeps hfirst))

end Decisions

/-! ## Reconciliations -/

section Reconciliations

variable {text : TextFunctions} {tables after : EpgTables} {stats : EpgMappingStats}
  {channel : ChannelRow}

theorem reconcile_sources (hvalid : tables.Valid)
    (h : tables.reconcileEpgMappings text = some (after, stats)) :
    after.toEpgSources = tables.toEpgSources := by
  obtain ⟨before, rfl, -, hsources, -⟩ := before_removal hvalid h
  exact hsources

theorem reconcile_valid (hvalid : tables.Valid)
    (h : tables.reconcileEpgMappings text = some (after, stats)) : after.Valid := by
  obtain ⟨before, rfl, -, hsources, hkeys, hmapped, -⟩ := before_removal hvalid h
  refine ⟨?_, ?_, Table.nodup_delete hkeys, fun k hk => ?_⟩
  · exact hsources ▸ hvalid.channels
  · exact hsources ▸ hvalid.epgChannels
  · have hk := hmapped k ((Table.delete_sublist.map _).subset hk)
    exact hsources ▸ hk

/-- A reconciliation has removed no mapping exactly if every mapped channel is still mapped. -/
theorem removed_eq_zero_iff (hvalid : tables.Valid)
    (h : tables.reconcileEpgMappings text = some (after, stats)) :
    stats.mappingsRemoved = 0 ↔ ∀ channel ∈ tables.channels,
      tables.mapping channel.id ≠ none → after.mapping channel.id ≠ none := by
  have hdecided := fun channel (hmem : channel ∈ tables.channels) =>
    mapping_reconciled hvalid h hmem
  obtain ⟨before, rfl, hremoved, hsources, hkeys, hmapped, hproposed⟩ := before_removal hvalid h
  rw [hremoved]
  refine Iff.trans Table.count_eq_zero ?_
  constructor
  · intro hfresh channel hmem hmapping
    have hkept : Table.delete (before.isStale text) before.mappings = before.mappings :=
      List.filter_eq_self.mpr fun row hrow => by rw [hfresh row hrow]; rfl
    have hsame : (before.removeStale text).1.mapping channel.id = before.mapping channel.id := by
      simp only [EpgTables.removeStale, EpgTables.mapping, hkept]
    rw [hsame, hproposed channel hmem]
    obtain ⟨mapping, hmapping⟩ := Option.ne_none_iff_exists'.mp hmapping
    rw [hmapping]
    by_cases hmanual : mapping.reviewStatus = .manual
    · simp [EpgSources.proposed, hmanual]
    · cases htvg : tables.tvgMatch text channel <;> simp [EpgSources.proposed, hmanual, htvg]
  · intro hkept row hrow
    obtain ⟨channel, hmem, hid⟩ := List.mem_map.mp (hmapped _ (List.mem_map_of_mem hrow))
    have hfound : before.mapping channel.id = some row := by
      rw [hid]
      exact Table.find?_of_key hkeys hrow
    by_contra hstale
    have hlost : (before.removeStale text).1.mapping channel.id = none := by
      have hdeleted : (before.removeStale text).1.mapping channel.id =
          (before.mapping channel.id).filter fun mapping => !before.isStale text mapping :=
        Table.find?_delete hkeys channel.id
      rw [hdeleted, hfound]
      simpa [Option.filter] using hstale
    have hnone : tables.mapping channel.id = none := by
      by_contra hmapped
      exact hkept channel hmem hmapped hlost
    -- An unmapped channel keeps what it has got.
    have hfirst := hproposed channel hmem
    rw [hfound, hnone] at hfirst
    rw [hdecided channel hmem, hnone] at hlost
    exact Option.some_ne_none row (hfirst.trans hlost)

/-- What a reconciliation has decided is not removed by the next one. -/
theorem removed_again {first second : EpgTables} {stats' : EpgMappingStats} (hvalid : tables.Valid)
    (hfirst : tables.reconcileEpgMappings text = some (first, stats))
    (hsecond : first.reconcileEpgMappings text = some (second, stats')) :
    stats'.mappingsRemoved = 0 := by
  have hs₁ := reconcile_sources hvalid hfirst
  have hvalid₁ := reconcile_valid hvalid hfirst
  rw [removed_eq_zero_iff hvalid₁ hsecond]
  intro channel hmem hmapped
  have hold : channel ∈ tables.channels := hs₁ ▸ hmem
  obtain ⟨mapping, hmapping⟩ := Option.ne_none_iff_exists'.mp hmapped
  rw [mapping_reconciled hvalid₁ hsecond hmem, hs₁, hmapping]
  rw [mapping_reconciled hvalid hfirst hold] at hmapping
  exact decision_of_keeps (decision_keeps hmapping)

/-- An unmapped channel has no candidates left behind a decision. -/
theorem ambiguousMatches_of_firstMatch (h : tables.firstMatch text channel = none) :
    tables.aliasMatches text channel = [] ∧ tables.ambiguousMatches text channel = [] := by
  obtain ⟨-, h⟩ := Option.or_eq_none_iff.mp h
  obtain ⟨-, h⟩ := Option.or_eq_none_iff.mp h
  obtain ⟨halias, h⟩ := Option.or_eq_none_iff.mp h
  refine ⟨List.head?_eq_none_iff.mp halias, ?_⟩
  have hsorted := List.head?_eq_none_iff.mp (Option.map_eq_none_iff.mp h)
  exact (hsorted ▸ Sorting.sortBy_perm _ _ : List.Perm [] _).symm.eq_nil

end Reconciliations

section Example

/-- Names that are normalized already. -/
def plainText : TextFunctions where
  lower name := name
  normalizeChannelName name := name

def guideSnapshot (id : Store.Uuid) (status : Store.SnapshotStatus) : SnapshotRow where
  id
  owner := .epgSource 7
  kind := .xmltv
  status
  checksum := id
  byteCount := 1
  recordCount := 1
  diagnosticCount := 0
  fetchedAt := id
  activatedAt := some id

def newsChannel : ChannelRow :=
  { id := 1, channelNumber := "1", name := "news", canonicalKey := some "key" }

/-- A new guide has taken the place of the one that the channel is mapped to. -/
def refreshedTables : EpgTables where
  channels := [newsChannel]
  epgChannels := [
    { id := 10, snapshot := 100, xmltvId := "n", displayName := some "news" },
    { id := 11, snapshot := 101, xmltvId := "n", displayName := some "news" }]
  snapshots := [guideSnapshot 100 .superseded, guideSnapshot 101 .active]
  aliases := []
  mappings := [{
    channelId := 1, epgChannelId := 10, method := .exactName, confidence := 9 / 10
    evidence := .normalizedName "news" "news" }]

/-- A channel that a rollback has detached, one of the operator, one with the key of the guide, and
one whose name two guide channels have. -/
def decidedTables : EpgTables where
  channels := [
    { id := 1, channelNumber := "1", name := "news", managedBy := .manual, enabled := false },
    { id := 2, channelNumber := "2", name := "news", canonicalKey := some "key" },
    { id := 3, channelNumber := "3", name := "weather", canonicalKey := some "n" },
    { id := 4, channelNumber := "4", name := "sport", canonicalKey := some "other" }]
  epgChannels := [
    { id := 10, snapshot := 100, xmltvId := "n", displayName := some "news" },
    { id := 11, snapshot := 101, xmltvId := "n", displayName := some "news" },
    { id := 12, snapshot := 101, xmltvId := "s", displayName := some "sport" },
    { id := 13, snapshot := 101, xmltvId := "t", displayName := some "sport" }]
  snapshots := [guideSnapshot 100 .superseded, guideSnapshot 101 .active]
  aliases := []
  mappings := [
    { channelId := 1, epgChannelId := 10, method := .tvgId, confidence := 99 / 100,
      evidence := .tvgIdExact },
    { channelId := 2, epgChannelId := 10, method := .manual, confidence := 1,
      evidence := .manualOverride "operator", reviewStatus := .manual },
    { channelId := 3, epgChannelId := 10, method := .tvgId, confidence := 99 / 100,
      evidence := .tvgIdExact }]

theorem refreshedTables_valid : refreshedTables.Valid :=
  ⟨by decide, by decide, by decide, by decide⟩

/-- Names with a mark for their quality. -/
def markedText : TextFunctions where
  lower name := name
  normalizeChannelName name := if name = "news hd" then "news" else name

/-- Two aliases of one name, for different channels of the guide. -/
def clashingTables : EpgTables where
  channels := [newsChannel]
  epgChannels := [
    { id := 10, snapshot := 100, xmltvId := "a", displayName := some "first" },
    { id := 11, snapshot := 100, xmltvId := "b", displayName := some "second" }]
  snapshots := [guideSnapshot 100 .active]
  aliases := [⟨"first", "news"⟩, ⟨"second", "news hd"⟩]

def operatorMapping : EpgMapping where
  channelId := 1
  epgChannelId := 10
  method := .manual
  confidence := 1
  evidence := .manualOverride "operator"
  reviewStatus := .manual

end Example

/-- A reconciliation decides for each channel by its mapping and its matches, whatever the other
channels are: a manual mapping stays, a match by id wins, any other mapping stays while it is a
match, and an unmapped channel gets its best match, with the candidates of its name for review if
there is no better one. It fails exactly if the aliases of an unmapped channel clash. -/
theorem reconcile_decides (text : TextFunctions) (tables : EpgTables) (hvalid : tables.Valid) :
    (∀ after stats, tables.reconcileEpgMappings text = some (after, stats) →
      after.Valid ∧ after.toEpgSources = tables.toEpgSources ∧
      ∀ channel ∈ tables.channels,
        after.mapping channel.id = tables.decision text channel (tables.mapping channel.id) ∧
        after.candidates.filter (fun row => row.channelId = channel.id) =
          if tables.mapping channel.id = none ∧ tables.tvgMatch text channel = none ∧
              tables.nameMatch text channel = none ∧ tables.aliasMatches text channel = [] then
            tables.ambiguousMatches text channel
          else []) ∧
    (tables.reconcileEpgMappings text = none ↔ ∃ channel ∈ tables.channels,
      tables.mapping channel.id = none ∧ tables.aliasClash text channel = true) := by
  refine ⟨fun after stats h => ⟨reconcile_valid hvalid h, reconcile_sources hvalid h, ?_⟩,
    reconcile_eq_none_iff hvalid⟩
  intro channel hmem
  exact ⟨mapping_reconciled hvalid h hmem, candidates_reconciled hvalid h hmem⟩

/-- The detached channel stays mapped to the old guide like that of the operator, the key leads to
the new guide, and the candidates of the last channel are for review. Two aliases of one channel are
enough for nothing to be reconciled. -/
theorem reconcile_decides_detached : (∃ after stats,
    decidedTables.reconcileEpgMappings plainText = some (after, stats) ∧
    [1, 2, 3, 4].map (fun channelId => (after.mapping channelId).map fun mapping =>
      (mapping.epgChannelId, mapping.reviewStatus)) =
        [some (10, .applied), some (10, .manual), some (11, .applied), some (12, .review)] ∧
    (after.candidates.filter fun row => row.channelId = 4).map (fun row => row.epgChannelId) =
      [12, 13]) ∧
    clashingTables.reconcileEpgMappings markedText = none := by
  obtain ⟨hsome, hnone⟩ := reconcile_decides plainText decidedTables
    ⟨by decide, by decide, by decide, by decide⟩
  refine ⟨?_, (reconcile_decides markedText clashingTables
    ⟨by decide, by decide, by decide, by decide⟩).2.mpr
    ⟨newsChannel, List.mem_singleton_self _, by decide, by decide⟩⟩
  obtain ⟨⟨after, stats⟩, hafter⟩ : ∃ result,
      decidedTables.reconcileEpgMappings plainText = some result := by
    rw [← Option.ne_none_iff_exists', Ne, hnone]
    decide
  obtain ⟨-, -, hdecided⟩ := hsome after stats hafter
  simp only [decidedTables, List.forall_mem_cons] at hdecided
  obtain ⟨⟨h₁, -⟩, ⟨h₂, -⟩, ⟨h₃, -⟩, ⟨h₄, hqueued⟩, -⟩ := hdecided
  refine ⟨after, stats, hafter, ?_, ?_⟩
  · simp only [List.map_cons, List.map_nil, h₁, h₂, h₃, h₄]
    decide +kernel
  · rw [hqueued]
    decide +kernel

/-- A reconciliation that removes no mapping settles the mappings, and any other one does so with
the next. Behind that a reconciliation succeeds, removes nothing, changes revisions only, and leaves
no candidate for review. -/
theorem mappings_settle (text : TextFunctions) (tables first second : EpgTables)
    (stats stats' : EpgMappingStats) (hvalid : tables.Valid)
    (hfirst : tables.reconcileEpgMappings text = some (first, stats))
    (hsecond : first.reconcileEpgMappings text = some (second, stats')) :
    stats'.mappingsRemoved = 0 ∧
    (stats.mappingsRemoved = 0 → ∀ channel ∈ tables.channels,
      SameMapping (second.mapping channel.id) (first.mapping channel.id)) ∧
    ∃ third stats'', second.reconcileEpgMappings text = some (third, stats'') ∧
      stats''.mappingsRemoved = 0 ∧ ∀ channel ∈ tables.channels,
        SameMapping (third.mapping channel.id) (second.mapping channel.id) ∧
        third.candidates.filter (fun row => row.channelId = channel.id) = [] := by
  have hvalid₁ := reconcile_valid hvalid hfirst
  have hvalid₂ := reconcile_valid hvalid₁ hsecond
  have hs₁ := reconcile_sources hvalid hfirst
  have hs₂ := (reconcile_sources hvalid₁ hsecond).trans hs₁
  have hm₁ := fun channel (hmem : channel ∈ tables.channels) =>
    mapping_reconciled hvalid hfirst hmem
  have hm₂ : ∀ channel ∈ tables.channels, second.mapping channel.id =
      tables.decision text channel (first.mapping channel.id) := by
    intro channel hmem
    rw [mapping_reconciled hvalid₁ hsecond (by rwa [hs₁]), hs₁]
  -- A channel that is unmapped now has no match at all.
  have hopen : ∀ channel ∈ tables.channels, second.mapping channel.id = none →
      tables.firstMatch text channel = none := by
    intro channel hmem hnone
    rw [hm₂ channel hmem] at hnone
    cases hmapping : first.mapping channel.id with
    | none => rwa [hmapping] at hnone
    | some mapping =>
      rw [hmapping] at hnone
      rw [hm₁ channel hmem] at hmapping
      exact absurd hnone (decision_of_keeps (decision_keeps hmapping))
  refine ⟨removed_again hvalid hfirst hsecond, fun hremoved channel hmem => ?_, ?_⟩
  · rw [hm₂ channel hmem]
    cases hmapping : first.mapping channel.id with
    | some mapping =>
      rw [hm₁ channel hmem] at hmapping
      exact sameMapping_decision hmapping
    | none =>
      have hbefore : tables.mapping channel.id = none := by
        by_contra hmapped
        exact (removed_eq_zero_iff hvalid hfirst).mp hremoved channel hmem hmapped hmapping
      rw [hm₁ channel hmem, hbefore] at hmapping
      rw [hmapping]
      exact SameMapping.refl _
  · obtain ⟨⟨third, stats''⟩, hthird⟩ : ∃ result,
        second.reconcileEpgMappings text = some result := by
      rw [← Option.ne_none_iff_exists', Ne, reconcile_eq_none_iff hvalid₂]
      rintro ⟨channel, hmem, hnone, hclash⟩
      rw [hs₂] at hmem hclash
      obtain ⟨-, -, hlong⟩ := of_decide_eq_true hclash
      rw [(ambiguousMatches_of_firstMatch (hopen channel hmem hnone)).1] at hlong
      exact Nat.not_lt_zero 1 hlong
    refine ⟨third, stats'', hthird, removed_again hvalid₁ hsecond hthird,
      fun channel hmem => ⟨?_, ?_⟩⟩
    · rw [mapping_reconciled hvalid₂ hthird (by rwa [hs₂]), hs₂, hm₂ channel hmem,
        hm₁ channel hmem]
      exact sameMapping_decision_decision
    · rw [candidates_reconciled hvalid₂ hthird (by rwa [hs₂]), hs₂]
      split
      · rename_i hunmapped
        exact (ambiguousMatches_of_firstMatch (hopen channel hmem hunmapped.1)).2
      · rfl

/-! ## Runs -/

inductive MappingOp where
  | reconcile
  | setManual (now : Time) (channelId epgChannelId : Store.Uuid) (actor : String)
  | remove (channelId : Store.Uuid)
  | resolve (now : Time) (channelId : Store.Uuid) (accept : Bool) (epgChannelId : Option Store.Uuid)
      (actor : String)
  | dropCandidates (channelId : Store.Uuid)
  | rollback (target : List Store.Uuid) (channels : List ChannelRow) (restored : List EpgMapping)
  | change (sources : EpgSources)

/-- Everything else that writes channels, guides and aliases. Rows that refer to what is gone are
deleted with it. -/
def EpgTables.change (tables : EpgTables) (sources : EpgSources) : Option EpgTables :=
  let present (channelId epgChannelId : Store.Uuid) : Bool :=
    channelId ∈ sources.channels.map ChannelRow.id ∧
      epgChannelId ∈ sources.epgChannels.map fun epg => epg.id
  if (sources.channels.map ChannelRow.id).Nodup ∧
      (sources.epgChannels.map fun epg => epg.id).Nodup then
    some { sources with
      mappings := Table.delete (fun row => !present row.channelId row.epgChannelId) tables.mappings
      candidates :=
        Table.delete (fun row => !present row.channelId row.epgChannelId) tables.candidates }
  else none

/-- `rollback_reconciliation`, with the channels of the snapshot, all channels as it leaves them,
and the mappings of the snapshot. -/
def EpgTables.rollback (tables : EpgTables) (target : List Store.Uuid)
    (channels : List ChannelRow) (restored : List EpgMapping) : Option EpgTables := do
  let present (channelId : Store.Uuid) : Bool := channelId ∈ channels.map ChannelRow.id
  guard ((channels.map ChannelRow.id).Nodup ∧ ∀ row ∈ restored, present row.channelId ∧
    row.epgChannelId ∈ tables.epgChannels.map fun epg => epg.id)
  let kept := Table.delete (fun row => row.channelId ∈ target ∨ !present row.channelId)
    tables.mappings
  return { tables with
    channels
    mappings := (restored.map fun row => { row with revision := 1 }).foldl
      (Table.mergeRow (fun mapping => mapping.channelId)
        fun old new => { new with revision := old.revision + 1 }) kept
    candidates := Table.delete (fun row => !present row.channelId) tables.candidates }

def mappingMachine (text : TextFunctions) (tables : EpgTables) : Machine EpgTables MappingOp where
  start := tables
  step tables
    | .reconcile => (tables.reconcileEpgMappings text).map Prod.fst
    | .setManual now channelId epgChannelId actor =>
      tables.setManualEpgMapping now channelId epgChannelId actor
    | .remove channelId => some (tables.removeEpgMapping channelId)
    | .resolve now channelId accept epgChannelId actor =>
      tables.resolveReview now channelId accept epgChannelId actor
    | .dropCandidates channelId => some (tables.dropCandidates channelId)
    | .rollback target channels restored => tables.rollback target channels restored
    | .change sources => tables.change sources

/-- The operator changes the mapping of the channel or rolls the channel back, or the channel or
its guide channel goes. -/
def Touches (channelId epgChannelId : Store.Uuid) : MappingOp → Prop
  | .setManual _ touched _ _ | .remove touched | .resolve _ touched _ _ _ => touched = channelId
  | .rollback target channels restored => channelId ∈ target ∨
      channelId ∉ channels.map ChannelRow.id ∨ channelId ∈ restored.map fun row => row.channelId
  | .change sources => channelId ∉ sources.channels.map ChannelRow.id ∨
      epgChannelId ∉ sources.epgChannels.map fun epg => epg.id
  | .reconcile | .dropCandidates _ => False

instance (channelId epgChannelId : Store.Uuid) :
    (op : MappingOp) → Decidable (Touches channelId epgChannelId op)
  | .setManual _ touched _ _ | .remove touched | .resolve _ touched _ _ _ =>
    inferInstanceAs (Decidable (touched = channelId))
  | .rollback target channels restored =>
    inferInstanceAs (Decidable (channelId ∈ target ∨ channelId ∉ channels.map ChannelRow.id ∨
      channelId ∈ restored.map fun row => row.channelId))
  | .change sources =>
    inferInstanceAs (Decidable (channelId ∉ sources.channels.map ChannelRow.id ∨
      epgChannelId ∉ sources.epgChannels.map fun epg => epg.id))
  | .reconcile | .dropCandidates _ => isFalse id

section Runs

variable {text : TextFunctions} {tables s t : EpgTables} {op : MappingOp}

theorem setManual_channelId (old new : EpgMapping) (_ : old.channelId = new.channelId) :
    ({ new with revision := old.revision + 1 } : EpgMapping).channelId = new.channelId := rfl

theorem resolveReview_eq_some {now : Time} {channelId : Store.Uuid} {accept : Bool}
    {epgChannelId : Option Store.Uuid} {actor : String}
    (h : s.resolveReview now channelId accept epgChannelId actor = some t) :
    ∃ f : EpgMapping → EpgMapping, (∀ mapping, (f mapping).channelId = mapping.channelId) ∧
      t = { s with mappings :=
        Table.update (fun mapping => mapping.channelId = channelId) f s.mappings } := by
  unfold EpgTables.resolveReview at h
  dsimp only at h
  split at h
  · obtain ⟨epgId, -, h⟩ := Option.bind_eq_some_iff.mp h
    obtain ⟨-, h⟩ := Checked.of_guard h
    obtain rfl := Option.some.inj h
    refine ⟨_, ?_, rfl⟩
    exact fun mapping => rfl
  · obtain rfl := Option.some.inj h
    refine ⟨_, ?_, rfl⟩
    exact fun mapping => rfl

theorem change_eq_some {sources : EpgSources} (hvalid : s.Valid) (h : s.change sources = some t) :
    t.Valid ∧ ∀ channelId mapping,
      s.mapping channelId = some mapping → channelId ∈ sources.channels.map ChannelRow.id →
        mapping.epgChannelId ∈ (sources.epgChannels.map fun epg => epg.id) →
          t.mapping channelId = some mapping := by
  unfold EpgTables.change at h
  dsimp only at h
  split at h
  · rename_i hkeys
    obtain rfl := Option.some.inj h
    refine ⟨⟨hkeys.1, hkeys.2, Table.nodup_delete hvalid.mappings, fun k hk => ?_⟩, ?_⟩
    · obtain ⟨mapping, hmapping, rfl⟩ := List.mem_map.mp hk
      have hpresent := (Table.mem_delete.mp hmapping).2
      rw [Bool.not_eq_false'] at hpresent
      exact (of_decide_eq_true hpresent).1
    · intro channelId mapping hmapping hchannel hepg
      have hid : mapping.channelId = channelId := by simpa using List.find?_some hmapping
      refine (Table.find?_delete hvalid.mappings channelId).trans ?_
      change (s.mapping channelId).filter _ = _
      rw [hmapping, Option.filter_some, if_pos]
      rw [Bool.not_not, hid]
      exact decide_eq_true ⟨hchannel, hepg⟩
  · cases h

/-- The keys hold in every state. -/
theorem valid_step (hvalid : s.Valid) (h : (mappingMachine text tables).step s op = some t) :
    t.Valid := by
  cases op with
  | reconcile =>
    obtain ⟨⟨after, stats⟩, hafter, rfl⟩ := Option.map_eq_some_iff.mp h
    exact reconcile_valid hvalid hafter
  | setManual now channelId epgChannelId actor =>
    simp only [mappingMachine, EpgTables.setManualEpgMapping] at h
    split at h
    · rename_i hpresent
      obtain rfl := Option.some.inj h
      refine ⟨hvalid.channels, hvalid.epgChannels,
        Table.nodup_mergeRow setManual_channelId hvalid.mappings, fun k hk => ?_⟩
      rcases Table.mem_keys_mergeRow setManual_channelId hk with hk | rfl
      · exact hvalid.mapped k hk
      · exact hpresent.1
    · cases h
  | remove channelId =>
    obtain rfl := Option.some.inj h
    exact ⟨hvalid.channels, hvalid.epgChannels, Table.nodup_delete hvalid.mappings,
      fun k hk => hvalid.mapped k ((Table.delete_sublist.map _).subset hk)⟩
  | resolve now channelId accept epgChannelId actor =>
    obtain ⟨f, hf, rfl⟩ := resolveReview_eq_some h
    refine ⟨hvalid.channels, hvalid.epgChannels,
      Table.nodup_update (fun mapping _ => hf mapping) hvalid.mappings, fun k hk => ?_⟩
    rw [Table.map_update fun mapping _ => hf mapping] at hk
    exact hvalid.mapped k hk
  | dropCandidates channelId =>
    obtain rfl := Option.some.inj h
    exact ⟨hvalid.channels, hvalid.epgChannels, hvalid.mappings, hvalid.mapped⟩
  | rollback target channels restored =>
    obtain ⟨⟨hchannels, hrows⟩, h⟩ := Checked.of_guard h
    obtain rfl := Option.some.inj h
    refine ⟨hchannels, hvalid.epgChannels,
      Table.nodup_foldl_mergeRow setManual_channelId _ (Table.nodup_delete hvalid.mappings),
      fun k hk => ?_⟩
    rcases Table.mem_keys_foldl_mergeRow setManual_channelId hk with hk | hk
    · obtain ⟨mapping, hmapping, rfl⟩ := List.mem_map.mp hk
      simpa using (not_or.mp (of_decide_eq_false (Table.mem_delete.mp hmapping).2)).2
    · rw [List.map_map] at hk
      obtain ⟨row, hrow, rfl⟩ := List.mem_map.mp hk
      exact of_decide_eq_true (hrows row hrow).1
  | change sources => exact (change_eq_some hvalid h).1

/-- A step that does not touch a manual mapping keeps it. -/
theorem manual_step {mapping : EpgMapping} {channelId : Store.Uuid} (hvalid : s.Valid)
    (hmapping : s.mapping channelId = some mapping) (hmanual : mapping.reviewStatus = .manual)
    (hop : ¬Touches channelId mapping.epgChannelId op)
    (h : (mappingMachine text tables).step s op = some t) : t.mapping channelId = some mapping := by
  cases op with
  | reconcile =>
    obtain ⟨⟨after, stats⟩, hafter, rfl⟩ := Option.map_eq_some_iff.mp h
    have hid : mapping.channelId = channelId := by simpa using List.find?_some hmapping
    have hmem := hvalid.mapped channelId
      (hid ▸ List.mem_map_of_mem (List.mem_of_find?_eq_some hmapping))
    obtain ⟨channel, hchannel, rfl⟩ := List.mem_map.mp hmem
    rw [mapping_reconciled hvalid hafter hchannel, hmapping, decision_of_manual hmanual]
  | setManual now touched epgChannelId actor =>
    simp only [mappingMachine, EpgTables.setManualEpgMapping] at h
    split at h
    · obtain rfl := Option.some.inj h
      rw [← hmapping]
      refine (Table.find?_mergeRow setManual_channelId channelId).trans (if_neg ?_)
      exact hop
    · cases h
  | remove touched =>
    obtain rfl := Option.some.inj h
    refine (Table.find?_delete hvalid.mappings channelId).trans ?_
    have hid : mapping.channelId = channelId := by simpa using List.find?_some hmapping
    have hother : ¬channelId = touched := fun hsame => hop hsame.symm
    change (s.mapping channelId).filter _ = _
    simp [hmapping, Option.filter, hid, hother]
  | resolve now touched accept epgChannelId actor =>
    obtain ⟨f, hf, rfl⟩ := resolveReview_eq_some h
    have hid : mapping.channelId = channelId := by simpa using List.find?_some hmapping
    have hother : ¬channelId = touched := fun hsame => hop hsame.symm
    refine (Table.find?_update fun row _ => by rw [hf row]).trans ?_
    change (s.mapping channelId).map _ = _
    simp [hmapping, hid, hother]
  | dropCandidates touched =>
    obtain rfl := Option.some.inj h
    exact hmapping
  | rollback target channels restored =>
    obtain ⟨hother, hop⟩ := not_or.mp hop
    obtain ⟨hchannel, hrows⟩ := not_or.mp hop
    obtain ⟨-, h⟩ := Checked.of_guard h
    obtain rfl := Option.some.inj h
    have hid : mapping.channelId = channelId := by simpa using List.find?_some hmapping
    refine (Table.find?_foldl_mergeRow_of_not_mem setManual_channelId ?_).trans ?_
    · rw [List.map_map]
      exact hrows
    · refine (Table.find?_delete hvalid.mappings channelId).trans ?_
      change (s.mapping channelId).filter _ = _
      simp [hmapping, Option.filter, hid, hother, not_not.mp hchannel]
  | change sources =>
    obtain ⟨hchannel, hepg⟩ := not_or.mp hop
    exact (change_eq_some hvalid h).2 channelId mapping hmapping (not_not.mp hchannel)
      (not_not.mp hepg)

end Runs

/-- The channel of a new guide loses its mapping and gets it back. -/
theorem mappings_settle_refreshed : ∃ first second stats stats',
    refreshedTables.reconcileEpgMappings plainText = some (first, stats) ∧
    first.reconcileEpgMappings plainText = some (second, stats') ∧
    first.mapping 1 = none ∧
    (second.mapping 1).map (fun mapping => mapping.epgChannelId) = some 11 ∧
    ∃ third stats'', second.reconcileEpgMappings plainText = some (third, stats'') ∧
      stats''.mappingsRemoved = 0 := by
  have hruns : (refreshedTables.reconcileEpgMappings plainText).any (fun first =>
      decide (first.1.mapping 1 = none) &&
        (first.1.reconcileEpgMappings plainText).any fun second => decide
          ((second.1.mapping 1).map (fun mapping => mapping.epgChannelId) = some 11)) = true := by
    decide
  obtain ⟨⟨first, stats⟩, hfirst, hruns⟩ := (Option.any_eq_true _ _).mp hruns
  obtain ⟨hlost, hruns⟩ := Bool.and_eq_true_iff.mp hruns
  obtain ⟨⟨second, stats'⟩, hsecond, hback⟩ := (Option.any_eq_true _ _).mp hruns
  obtain ⟨-, -, third, stats'', hthird, hremoved, -⟩ := mappings_settle plainText refreshedTables
    first second stats stats' refreshedTables_valid hfirst hsecond
  exact ⟨first, second, stats, stats', hfirst, hsecond, of_decide_eq_true hlost,
    of_decide_eq_true hback, third, stats'', hthird, hremoved⟩

/-- However channels, guides and aliases change and whatever else happens, reconciliations leave a
manual mapping alone until the operator touches it, its channel is rolled back, or its channel or
guide channel goes. -/
theorem manual_mapping_kept (text : TextFunctions) (tables : EpgTables) (hvalid : tables.Valid)
    {s t : EpgTables} (hreach : (mappingMachine text tables).Reachable s) {channelId : Store.Uuid}
    {mapping : EpgMapping} (hmapping : s.mapping channelId = some mapping)
    (hmanual : mapping.reviewStatus = .manual)
    (path : (mappingMachine text tables).LeadsWhere
      (fun _ op => ¬Touches channelId mapping.epgChannelId op) s t) :
    t.mapping channelId = some mapping := by
  have hs : s.Valid := hreach.invariant hvalid fun _ _ _ hs _ hstep => valid_step hs hstep
  have ht : t.Valid ∧ t.mapping channelId = some mapping := by
    induction path with
    | refl => exact ⟨hs, hmapping⟩
    | step _ hop hstep ih =>
      exact ⟨valid_step ih.1 hstep, manual_step ih.1 ih.2 hmanual hop hstep⟩
  exact ht.2

/-- A mapping to the old guide stays when the operator has set it. -/
theorem manual_mapping_kept_reconciled : ∃ t : EpgTables, t.candidates = [] ∧
    t.mapping 1 = some operatorMapping := by
  let tables : EpgTables := { refreshedTables with mappings := [operatorMapping] }
  have hvalid : tables.Valid := ⟨by decide, by decide, by decide, by decide⟩
  obtain ⟨s, t, hreach, path, hends⟩ := (mappingMachine plainText tables).exists_leadsWhere_of_run
    (fun _ op => ¬Touches 1 10 op) (fun _ op => decide (¬Touches 1 10 op))
    [] [.reconcile, .rollback [2] [newsChannel] [], .dropCandidates 1, .reconcile]
    (fun s t => decide (s.mapping 1 = some operatorMapping ∧ t.candidates = []))
    (fun _ _ hop => of_decide_eq_true hop) (by decide)
  obtain ⟨hmapping, hcandidates⟩ := of_decide_eq_true hends
  exact ⟨t, hcandidates,
    manual_mapping_kept plainText tables hvalid hreach.reachable hmapping rfl path⟩

/-- A review that the operator has accepted is no manual mapping. -/
example : ((refreshedTables.resolveReview 5 1 true (some 10) "operator").bind fun tables =>
    (tables.reconcileEpgMappings plainText).map fun result => result.1.mapping 1) = some none := by
  decide

end IptvRelay.Guide.EpgMappings
