import IptvRelay.Guide.EventScan
import IptvRelay.Guide.Schedule
import Mathlib.Data.List.TakeWhile

/-!
# What the scan plans

A plan is for a channel with candidates, under an enabled template. No channel has two plans, and
the programmes of a plan pass the checks of the schema.
-/

namespace IptvRelay.Guide

open Checked

/-! ## The guide of a plan -/

/-- The second programme starts behind the first one, and at most one of them has a key. -/
def Follows (a b : GeneratedProgramme) : Prop :=
  a.stopsAt ≤ b.startsAt ∧ (a.stableEventKey = none ∨ b.stableEventKey = none)

/-- Programmes that the schema accepts together. -/
structure Storable (programmes : List GeneratedProgramme) : Prop where
  positive : ∀ programme ∈ programmes, programme.startsAt < programme.stopsAt
  follows : programmes.Pairwise Follows

theorem Locale.add_eq {locale : Locale} {time duration sum : Int}
    (h : locale.add time duration = some sum) : sum = time + duration :=
  Locale.checked_ok (of_toOption h)

section Plan

variable {env : ScanEnvironment} {settings : EventScanSettings} {now : Int}

theorem planEventChannelGuide_storable {event : GeneratedProgramme} {timezone : String}
    {grace : Int} (hevent : event.startsAt < event.stopsAt) :
    Storable (planEventChannelGuide env settings event timezone now grace) := by
  have hended : ∀ endedStop, env.locale.add event.stopsAt grace = some endedStop → 0 < grace →
      event.stopsAt < endedStop := by
    intro endedStop hadd hgrace
    have hsum := Locale.add_eq hadd
    omega
  unfold planEventChannelGuide
  constructor
  · intro programme hprogramme
    rcases List.mem_append.mp hprogramme with hmem | hmem
    · split at hmem
      · rename_i hlt
        rw [List.mem_singleton.mp hmem]
        exact hlt
      · cases hmem
    · rcases List.mem_cons.mp hmem with rfl | hmem
      · exact hevent
      · split at hmem
        · rename_i endedStop hadd
          split at hmem
          · rename_i hgrace
            rw [List.mem_singleton.mp hmem]
            exact hended endedStop hadd hgrace
          · cases hmem
        · cases hmem
  · rw [List.pairwise_append, List.pairwise_cons]
    refine ⟨?_, ⟨?_, ?_⟩, ?_⟩
    · split
      · exact List.pairwise_singleton _ _
      · exact .nil
    · intro programme hmem
      split at hmem
      · split at hmem
        · rw [List.mem_singleton.mp hmem]
          exact ⟨le_refl _, .inr rfl⟩
        · cases hmem
      · cases hmem
    · split
      · split
        · exact List.pairwise_singleton _ _
        · exact .nil
      · exact .nil
    · intro first hfirst second hsecond
      split at hfirst
      · rw [List.mem_singleton.mp hfirst]
        rcases List.mem_cons.mp hsecond with rfl | hsecond
        · exact ⟨le_refl _, .inl rfl⟩
        · refine ⟨?_, .inl rfl⟩
          split at hsecond
          · split at hsecond
            · rw [List.mem_singleton.mp hsecond]
              exact hevent.le
            · cases hsecond
          · cases hsecond
      · cases hfirst

/-- The event programme of a guide has a positive length. -/
theorem eventProgramme_ok {matched : MatchedEvent} {streamName : String} {startsAt : Int}
    {event : GeneratedProgramme} (h : eventProgramme env matched streamName startsAt = .ok event) :
    event.startsAt < event.stopsAt := by
  obtain ⟨guide, hguide, h⟩ := of_bind h
  have hfound : guide.find? (fun programme => programme.kind = .event) = some event := by
    split at h
    · rename_i found hfound
      rw [hfound, Except.ok.inj h]
    · cases h
  have hkind : event.kind = .event := by simpa using List.find?_some hfound
  have hmem := List.mem_of_find?_eq_some hfound
  cases hbuilt : generateEventGuide env.locale matched streamName
      ((env.locale.add startsAt (-dayNanoseconds)).getD startsAt)
      ((env.locale.add startsAt (30 * dayNanoseconds)).getD startsAt) with
  | error error =>
    rw [hbuilt] at hguide
    cases hguide
  | ok built =>
    rw [hbuilt] at hguide
    obtain rfl := Except.ok.inj hguide
    obtain ⟨_, _, hbuilt⟩ := of_bind hbuilt
    obtain ⟨whole, _, hbuilt⟩ := of_bind hbuilt
    split at hbuilt
    · obtain rfl := of_pure hbuilt
      rw [List.mem_singleton.mp hmem] at hkind
      cases hkind
    · obtain rfl := of_pure hbuilt
      have hfiller : ∀ start stop : Int, event ∉ (if start < stop then
          [filler start stop matched.rule.guide.fillerTitle streamName] else []) := by
        intro start stop hin
        split at hin
        · rw [List.mem_singleton.mp hin] at hkind
          cases hkind
        · cases hin
      rcases List.mem_append.mp hmem with hmem | hmem
      · rcases List.mem_append.mp hmem with hmem | hmem
        · exact absurd hmem (hfiller _ _)
        · split at hmem
          · rename_i hlt
            rw [List.mem_singleton.mp hmem]
            exact hlt
          · cases hmem
      · exact absurd hmem (hfiller _ _)

/-- A plan can be stored, and can be built again with another title. -/
structure Sound (plan : PlannedEventChannel) : Prop where
  event : plan.event.startsAt < plan.event.stopsAt
  programmes : Storable plan.programmes

theorem planEventChannel_ok {stream : EventScanCandidate} {template : EventTemplateRow}
    {timezone : String} {matched : MatchedEvent} {plan : PlannedEventChannel}
    (h : planEventChannel env settings now stream template timezone matched = .ok plan) :
    plan.channelId = stream.channelId ∧ plan.template = template ∧ Sound plan := by
  obtain ⟨startsAt, -, h⟩ := of_bind h
  obtain ⟨event, hevent, h⟩ := of_bind h
  obtain ⟨_, -, h⟩ := of_bind h
  obtain rfl := of_pure h
  have hpositive := eventProgramme_ok hevent
  refine ⟨rfl, rfl, hpositive, ?_⟩
  change Storable (if _ then [] else _)
  split
  · exact ⟨fun _ hmem => (nomatch hmem), .nil⟩
  · exact planEventChannelGuide_storable hpositive

theorem enrichWithSports_sound {client : SportsClient} {plan : PlannedEventChannel}
    (h : Sound plan) : Sound (enrichWithSports env settings now client plan) := by
  unfold enrichWithSports
  split
  · exact h
  · refine ⟨h.event, ?_⟩
    change Storable (if _ then _ else _)
    split
    · exact planEventChannelGuide_storable h.event
    · exact h.programmes

theorem enrichWithSports_keeps (client : SportsClient) (plan : PlannedEventChannel) :
    (enrichWithSports env settings now client plan).channelId = plan.channelId ∧
      (enrichWithSports env settings now client plan).template = plan.template := by
  unfold enrichWithSports
  split
  · exact ⟨rfl, rfl⟩
  · exact ⟨rfl, rfl⟩

section Enrich

variable (client : Option SportsClient) (scope : Option Uuid) (plan : PlannedEventChannel)

theorem enrichPlan_sound (h : Sound plan) :
    Sound (enrichPlan env settings now client scope plan) := by
  unfold enrichPlan
  split
  · exact h
  · split
    · exact enrichWithSports_sound h
    · exact h

theorem enrichPlan_channelId :
    (enrichPlan env settings now client scope plan).channelId = plan.channelId := by
  unfold enrichPlan
  split
  · rfl
  · split
    · exact (enrichWithSports_keeps _ plan).1
    · rfl

theorem enrichPlan_template :
    (enrichPlan env settings now client scope plan).template = plan.template := by
  unfold enrichPlan
  split
  · rfl
  · split
    · exact (enrichWithSports_keeps _ plan).2
    · rfl

/-- In its scope a plan gets the metadata that a full scan gives it. -/
theorem enrichPlan_of_inScope (h : inScope scope plan.template.id = true) :
    enrichPlan env settings now client scope plan = enrichPlan env settings now client none plan := by
  have hfull : inScope none plan.template.id = true := rfl
  unfold enrichPlan
  rw [h, hfull]

end Enrich

theorem evaluatePair_planned {regionTimezone : Option String} {stream : EventScanCandidate}
    {template : EventTemplateRow} {plan : PlannedEventChannel} {skips : List EventScanSkip}
    (h : evaluatePair env settings now regionTimezone stream template =
      (some (.planned plan), skips)) :
    plan.channelId = stream.channelId ∧ plan.template = template ∧ Sound plan := by
  unfold evaluatePair at h
  cases hregex : env.compileRegex template.matchRegex with
  | error error =>
    rw [hregex] at h
    cases h
  | ok isMatch =>
    simp only [hregex] at h
    split at h
    · cases hrules : templateRules env settings template (resolveEventTimezone env
          template.timezone stream.sourceTimezone regionTimezone) with
      | error error =>
        rw [hrules] at h
        cases h
      | ok firstMatch =>
        simp only [hrules] at h
        cases hmatch : firstMatch stream.streamName stream.groupName with
        | error error =>
          rw [hmatch] at h
          cases h
        | ok found =>
          cases found with
          | none =>
            rw [hmatch] at h
            cases h
          | some matched =>
            simp only [hmatch] at h
            cases hplan : planEventChannel env settings now stream template (resolveEventTimezone
                env template.timezone stream.sourceTimezone regionTimezone) matched with
            | error reason =>
              rw [hplan] at h
              cases h
            | ok built =>
              rw [hplan] at h
              cases h
              exact planEventChannel_ok hplan
    · cases h

/-- A planned outcome comes from one of the pairs. -/
theorem evaluatePairs_planned {regionTimezone : Option String}
    {pairs : List (EventScanCandidate × EventTemplateRow)} {plan : PlannedEventChannel}
    (h : (evaluatePairs env settings now regionTimezone pairs).1.plan? = some plan) :
    ∃ pair ∈ pairs, plan.channelId = pair.1.channelId ∧ plan.template = pair.2 ∧ Sound plan := by
  induction pairs with
  | nil => cases h
  | cons pair pairs ih =>
    obtain ⟨stream, template⟩ := pair
    cases hpair : evaluatePair env settings now regionTimezone stream template with
    | mk outcome skips =>
      cases outcome with
      | none =>
        have hrest : (evaluatePairs env settings now regionTimezone pairs).1.plan? = some plan := by
          rw [evaluatePairs, hpair] at h
          exact h
        obtain ⟨other, hother, hof⟩ := ih hrest
        exact ⟨other, List.mem_cons_of_mem _ hother, hof⟩
      | some outcome =>
        refine ⟨(stream, template), List.mem_cons_self, ?_⟩
        have hplan : outcome.plan? = some plan := by
          rw [evaluatePairs, hpair] at h
          exact h
        cases outcome with
        | noMatch => cases hplan
        | skipped templateId => cases hplan
        | planned planned =>
          obtain rfl := Option.some.inj hplan
          exact evaluatePair_planned hpair

end Plan

/-! ## One plan for a channel -/

section Groups

/-- The candidates of a group have one channel, which no other group has. -/
theorem channelGroups_sorted {candidates : List EventScanCandidate}
    (h : candidates.Pairwise fun a b => a.channelId ≤ b.channelId) :
    (∀ group ∈ channelGroups candidates, (∀ a ∈ group, a ∈ candidates) ∧
      ∀ a ∈ group, ∀ b ∈ group, a.channelId = b.channelId) ∧
    (channelGroups candidates).Pairwise fun first second =>
      ∀ a ∈ first, ∀ b ∈ second, a.channelId ≠ b.channelId := by
  induction candidates using channelGroups.induct with
  | case1 =>
    rw [channelGroups]
    exact ⟨fun _ hmem => (nomatch hmem), .nil⟩
  | case2 candidate rest ih =>
    obtain ⟨hfirst, hrest⟩ := List.pairwise_cons.mp h
    have hlater : (rest.dropWhile fun next => next.channelId = candidate.channelId).Pairwise
        fun a b => a.channelId ≤ b.channelId := hrest.sublist (List.dropWhile_sublist _)
    obtain ⟨hgroups, hapart⟩ := ih hlater
    have hsame : ∀ a ∈ candidate :: rest.takeWhile fun next =>
        next.channelId = candidate.channelId, a.channelId = candidate.channelId := by
      intro a ha
      rcases List.mem_cons.mp ha with rfl | ha
      · rfl
      · simpa using List.mem_takeWhile_imp ha
    have hbehind : ∀ b ∈ rest.dropWhile fun next => next.channelId = candidate.channelId,
        b.channelId ≠ candidate.channelId := by
      intro b hb
      cases hdrop : rest.dropWhile fun next => next.channelId = candidate.channelId with
      | nil =>
        rw [hdrop] at hb
        cases hb
      | cons next later =>
        have hhead : ¬decide (next.channelId = candidate.channelId) = true := by
          have hnot := List.head?_dropWhile_not
            (fun next : EventScanCandidate => decide (next.channelId = candidate.channelId)) rest
          rw [hdrop] at hnot
          exact fun heq => by simp [heq] at hnot
        have hne : next.channelId ≠ candidate.channelId := fun heq => hhead (decide_eq_true heq)
        have hmem : next ∈ rest := (List.dropWhile_sublist _).subset (hdrop ▸ List.mem_cons_self)
        have hlt : candidate.channelId < next.channelId :=
          lt_of_le_of_ne (hfirst next hmem) hne.symm
        rw [hdrop] at hb hlater
        rcases List.mem_cons.mp hb with rfl | hb
        · exact hne
        · exact (hlt.trans_le ((List.pairwise_cons.mp hlater).1 b hb)).ne'
    rw [channelGroups]
    refine ⟨fun group hgroup => ?_, List.pairwise_cons.mpr ⟨fun group hgroup a ha b hb => ?_,
      hapart⟩⟩
    · rcases List.mem_cons.mp hgroup with rfl | hgroup
      · refine ⟨fun a ha => ?_, fun a ha b hb => (hsame a ha).trans (hsame b hb).symm⟩
        rcases List.mem_cons.mp ha with rfl | ha
        · exact List.mem_cons_self
        · exact List.mem_cons_of_mem _ ((List.takeWhile_sublist _).subset ha)
      · obtain ⟨hmem, hone⟩ := hgroups group hgroup
        exact ⟨fun a ha => List.mem_cons_of_mem _ ((List.dropWhile_sublist _).subset (hmem a ha)),
          hone⟩
    · rw [hsame a ha]
      exact (hbehind b ((hgroups group hgroup).1 b hb)).symm

variable {env : ScanEnvironment} {settings : EventScanSettings} {now : Int}
  {catalog : ScanCatalog} {channels : List ScanChannel}

theorem scanCandidates_sorted :
    (scanCandidates catalog channels).Pairwise fun a b => a.channelId ≤ b.channelId := by
  have hchannel : ∀ (link : ChannelStream) (candidate : EventScanCandidate),
      candidate ∈ ((catalog.providerStreams.filter fun stream =>
        stream.id = link.providerStreamId ∧ stream.supported).flatMap fun stream =>
          (catalog.snapshots.filter fun snapshot =>
            snapshot.id = stream.snapshotId ∧ snapshot.status = .active).flatMap fun snapshot =>
              (catalog.accounts.filter fun account => account.id = stream.providerAccountId).map
                fun account =>
                  ({ channelId := link.channelId
                     streamName := stream.name
                     groupName := stream.groupName
                     sourceTimezone := account.sourceTimezone
                     snapshotAt := some (snapshot.activatedAt.getD snapshot.fetchedAt) } :
                    EventScanCandidate)) → candidate.channelId = link.channelId := by
    intro link candidate hmem
    obtain ⟨_, _, hmem⟩ := List.mem_flatMap.mp hmem
    obtain ⟨_, _, hmem⟩ := List.mem_flatMap.mp hmem
    obtain ⟨_, _, rfl⟩ := List.mem_map.mp hmem
    rfl
  unfold scanCandidates
  refine List.pairwise_flatMap.mpr ⟨fun link _ => ?_, ?_⟩
  · refine List.Pairwise.imp_of_mem (fun {a b} ha hb _ => ?_) (List.pairwise_of_forall fun _ _ => trivial)
    exact ((hchannel link a ha).trans (hchannel link b hb).symm).le
  · refine (Sorting.sortBy_sorted _ _).imp fun {a b} hle x hx y hy => ?_
    rw [hchannel a x hx, hchannel b y hy]
    rcases Prod.Lex.toLex_le_toLex.mp hle with hlt | ⟨heq, -⟩
    · exact hlt.le
    · exact heq.le

/-- A plan is for a group of candidates and under one of the templates of the scan. -/
theorem planned_ok {plan : PlannedEventChannel}
    {group : List EventScanCandidate}
    (h : (evaluate env settings now catalog.regionTimezone (scanTemplates catalog) group).1.plan? =
      some plan) :
    (∃ candidate ∈ group, plan.channelId = candidate.channelId) ∧
      plan.template ∈ scanTemplates catalog ∧ Sound plan := by
  obtain ⟨pair, hpair, hchannel, htemplate, hsound⟩ := evaluatePairs_planned h
  obtain ⟨stream, hstream, hpair⟩ := List.mem_flatMap.mp hpair
  obtain ⟨template, hmem, rfl⟩ := List.mem_map.mp hpair
  exact ⟨⟨stream, hstream, hchannel⟩, htemplate ▸ hmem, hsound⟩

theorem mem_scanTemplates {template : EventTemplateRow} :
    template ∈ scanTemplates catalog ↔ template ∈ catalog.templates ∧ template.enabled = true := by
  rw [scanTemplates, (Sorting.sortBy_perm _ _).mem_iff, List.mem_filter]

theorem plannedChannels_eq : plannedChannels env settings now catalog channels =
    (channelGroups (scanCandidates catalog channels)).filterMap fun group =>
      (evaluate env settings now catalog.regionTimezone (scanTemplates catalog) group).1.plan? := by
  rw [plannedChannels, scanOutcomes, List.filterMap_map]
  rfl

/-- Every plan is sound and under an enabled template. -/
theorem mem_plannedChannels {plan : PlannedEventChannel}
    (h : plan ∈ plannedChannels env settings now catalog channels) :
    (plan.template ∈ catalog.templates ∧ plan.template.enabled = true) ∧ Sound plan := by
  rw [plannedChannels_eq] at h
  obtain ⟨group, -, hplan⟩ := List.mem_filterMap.mp h
  obtain ⟨-, htemplate, hsound⟩ := planned_ok hplan
  exact ⟨mem_scanTemplates.mp htemplate, hsound⟩

/-- No channel is planned twice. -/
theorem plannedChannels_nodup :
    ((plannedChannels env settings now catalog channels).map
      PlannedEventChannel.channelId).Nodup := by
  rw [plannedChannels_eq, List.Nodup, List.pairwise_map, List.pairwise_filterMap]
  refine (channelGroups_sorted scanCandidates_sorted).2.imp ?_
  intro first second hapart plan hplan other hother heq
  obtain ⟨⟨a, ha, hfirst⟩, -⟩ := planned_ok hplan
  obtain ⟨⟨b, hb, hsecond⟩, -⟩ := planned_ok hother
  exact hapart a ha b hb (hfirst.symm.trans (heq.trans hsecond))

/-- The plans depend on which channels there are and are enabled, not on their names. -/
theorem plannedChannels_congr {channels' : List ScanChannel}
    (h : (channels.map fun channel => (channel.id, channel.enabled)) =
      channels'.map fun channel => (channel.id, channel.enabled)) :
    plannedChannels env settings now catalog channels =
      plannedChannels env settings now catalog channels' := by
  have hids : ∀ channels : List ScanChannel,
      ((channels.filter ScanChannel.enabled).flatMap fun channel =>
        catalog.channelStreams.filter fun link => link.channelId = channel.id) =
      ((channels.map fun channel => (channel.id, channel.enabled)).filter Prod.snd).flatMap
        fun pair => catalog.channelStreams.filter fun link => link.channelId = pair.1 := by
    intro channels
    rw [List.filter_map, List.flatMap_map]
    rfl
  rw [plannedChannels_eq, plannedChannels_eq, scanCandidates, scanCandidates, hids channels,
    hids channels', h]

end Groups

end IptvRelay.Guide
