import IptvRelay.Playback.Plan

/-!
# What health does to a plan

Health statements and rankings decide the order of a plan and never its candidates: behind a
ranking the plan is sorted by health and quality, and no run of health statements changes the
generation of a shared session.
-/

namespace IptvRelay.Playback

open StreamTables PlaybackTables

/-! ## The order -/

section Order

variable {tables : PlaybackTables} {channelId : Uuid} {row : ChannelPlaybackCandidateRow}

/-- A row of the plan comes from one link and its stream. -/
theorem candidate_eq_some {link : ChannelStream} (h : tables.candidate link = some row) :
    ∃ stream, tables.toStreamTables.find link.providerStreamId = some stream ∧
      row.providerStreamId = stream.id ∧ row.healthStatus = stream.healthStatus ∧
      row.priority = link.priority ∧ row.qualityRank = link.qualityRank := by
  obtain ⟨channel, -, h⟩ := Option.bind_eq_some_iff.mp h
  obtain ⟨stream, hstream, h⟩ := Option.bind_eq_some_iff.mp h
  obtain ⟨account, -, h⟩ := Option.bind_eq_some_iff.mp h
  obtain ⟨snapshot, -, h⟩ := Option.bind_eq_some_iff.mp h
  obtain ⟨_, -, h⟩ := Option.bind_eq_some_iff.mp h
  obtain rfl := Option.some.inj h
  exact ⟨stream, hstream, rfl, rfl, rfl, rfl⟩

theorem mem_eligible : row ∈ tables.eligible channelId ↔
    ∃ link ∈ tables.links, link.channelId = channelId ∧ tables.candidate link = some row := by
  simp only [eligible, List.mem_filterMap, List.mem_filter]
  constructor
  · rintro ⟨link, ⟨hlink, hchannel⟩, hrow⟩
    exact ⟨link, hlink, of_decide_eq_true hchannel, hrow⟩
  · rintro ⟨link, hlink, hchannel, hrow⟩
    exact ⟨link, ⟨hlink, decide_eq_true hchannel⟩, hrow⟩

/-- The streams of a plan are different. -/
theorem nodup_eligible (h : tables.toStreamTables.Valid) :
    ((tables.eligible channelId).map ChannelPlaybackCandidateRow.providerStreamId).Nodup := by
  have hsub : ∀ links : List ChannelStream, ((links.filterMap tables.candidate).map
      ChannelPlaybackCandidateRow.providerStreamId).Sublist
        (links.map ChannelStream.providerStreamId) := by
    intro links
    induction links with
    | nil => exact .slnil
    | cons link rest ih =>
      cases hrow : tables.candidate link with
      | none =>
        rw [List.filterMap_cons_none hrow]
        exact ih.cons _
      | some row =>
        obtain ⟨stream, hstream, hid, -⟩ := candidate_eq_some hrow
        rw [List.filterMap_cons_some hrow, List.map_cons, List.map_cons, hid,
          (find_eq_some hstream).2]
        exact ih.cons_cons _
  exact (nodup_column h.links).sublist (hsub _)

/-- The ranks of a channel are those that a ranking would give it now. -/
def Ranked (tables : StreamTables) (channelId : Uuid) : Prop :=
  ∀ link ∈ tables.links, link.channelId = channelId →
    link.qualityRank = (tables.rerank link).qualityRank

theorem ranked_of_map {before after : StreamTables} (hsame : SameButRanks before after)
    (hlinks : ∀ link ∈ after.links, link.channelId = channelId →
      ∃ old ∈ before.links, link = before.rerank old) : Ranked after channelId := by
  intro link hlink hchannel
  obtain ⟨old, -, rfl⟩ := hlinks link hlink hchannel
  rw [hsame.rerank, rerank_rerank]

theorem logStreamHealth_eq_some {tables logged : StreamTables} {now : Time}
    {update : StreamHealthUpdate} (h : tables.logStreamHealth now update = some logged) :
    ∃ checks, logged = { tables with checks } := by
  unfold logStreamHealth at h
  split at h
  · exact ⟨_, (Option.some.inj h).symm⟩
  · cases h

/-- The streams that have a link are there to be logged. -/
theorem logStreamHealth_of_linked {tables : StreamTables} (now : Time)
    {update : StreamHealthUpdate} (hvalid : tables.Valid)
    (hlinked : channelId ∈ tables.channelsForStream update.providerStreamId) :
    (tables.setStreamHealth now update).logStreamHealth now update ≠ none := by
  obtain ⟨link, hlink, -⟩ := List.mem_map.mp hlinked
  obtain ⟨hlink, hstream⟩ := List.mem_filter.mp hlink
  have hids : (tables.setStreamHealth now update).streams.map ProviderStream.id =
      tables.streams.map ProviderStream.id := Table.map_update fun _ _ => rfl
  have hmem := hvalid.references link hlink
  rw [of_decide_eq_true hstream, ← hids] at hmem
  rw [logStreamHealth, if_pos (List.mem_map.mp hmem)]
  exact Option.some_ne_none _

/-- A health update ranks every channel of its stream. -/
theorem ranked_updateStreamHealthAndRank {tables : StreamTables} {now : Time}
    {update : StreamHealthUpdate} (hvalid : tables.Valid)
    (hlinked : channelId ∈ tables.channelsForStream update.providerStreamId) :
    Ranked (tables.updateStreamHealthAndRank now update) channelId := by
  obtain ⟨logged, hlogged⟩ :=
    Option.ne_none_iff_exists'.mp (logStreamHealth_of_linked now hvalid hlinked)
  have hupdate : tables.updateStreamHealthAndRank now update =
      (logged.channelsForStream update.providerStreamId).foldl rankChannelStreamsByQuality
        logged := by
    simp only [updateStreamHealthAndRank, hlogged]
  obtain ⟨checks, rfl⟩ := logStreamHealth_eq_some hlogged
  rw [hupdate]
  obtain ⟨hsame, -, -, hlinks⟩ := foldl_rankChannel
    (tables.channelsForStream update.providerStreamId)
    { tables.setStreamHealth now update with checks }
  refine ranked_of_map hsame fun link hlink hchannel => ?_
  obtain ⟨old, hold, rfl⟩ := List.mem_map.mp (hlinks ▸ hlink)
  refine ⟨old, hold, if_pos ?_⟩
  split at hchannel
  · assumption
  · rw [hchannel]
    exact hlinked

theorem ranked_rankAll {tables : StreamTables} :
    Ranked tables.rankAllChannelStreamsByQuality channelId := by
  obtain ⟨hsame, -, -, -⟩ := foldl_rankChannel (tables.links.map ChannelStream.channelId) tables
  rw [← rankAll_eq_foldl] at hsame
  refine ranked_of_map hsame fun link hlink _ => ?_
  obtain ⟨old, hold, rfl⟩ := List.mem_map.mp hlink
  exact ⟨old, hold, rfl⟩

/-- Health first, then quality. -/
def plannedKey (stream : ProviderStream) (priority : Nat) : Nat ×ₗ RankKey :=
  toLex (playedHealth stream.healthStatus, rankKey (priority, stream))

theorem plannedKey_lt (hvalid : tables.toStreamTables.Valid)
    (hranked : Ranked tables.toStreamTables channelId) {a b : ChannelPlaybackCandidateRow}
    (ha : a ∈ tables.eligible channelId) (hb : b ∈ tables.eligible channelId)
    (hne : a.providerStreamId ≠ b.providerStreamId) (hle : candidateKey a ≤ candidateKey b)
    {s t : ProviderStream} (hs : tables.toStreamTables.find a.providerStreamId = some s)
    (ht : tables.toStreamTables.find b.providerStreamId = some t) :
    plannedKey s a.priority < plannedKey t b.priority := by
  obtain ⟨linkA, hlinkA, hchannelA, hrowA⟩ := mem_eligible.mp ha
  obtain ⟨linkB, hlinkB, hchannelB, hrowB⟩ := mem_eligible.mp hb
  obtain ⟨streamA, hstreamA, hidA, hhealthA, hpriorityA, hrankA⟩ := candidate_eq_some hrowA
  obtain ⟨streamB, hstreamB, hidB, hhealthB, hpriorityB, hrankB⟩ := candidate_eq_some hrowB
  rw [hidA, (find_eq_some hstreamA).2] at hs
  rw [hidB, (find_eq_some hstreamB).2] at ht
  obtain rfl := Option.some.inj (hstreamA.symm.trans hs)
  obtain rfl := Option.some.inj (hstreamB.symm.trans ht)
  have hlt := rerank_lt_iff hvalid hlinkA hlinkB (hchannelA.trans hchannelB.symm) hstreamA hstreamB
  have hgt := rerank_lt_iff hvalid hlinkB hlinkA (hchannelB.trans hchannelA.symm) hstreamB hstreamA
  rw [← hranked linkA hlinkA hchannelA, ← hranked linkB hlinkB hchannelB, ← hrankA, ← hrankB,
    ← hpriorityA, ← hpriorityB] at hlt hgt
  rw [plannedKey, plannedKey, Prod.Lex.toLex_lt_toLex, ← hhealthA, ← hhealthB]
  rcases Prod.Lex.toLex_le_toLex.mp hle with hhealth | ⟨hhealth, hrank⟩
  · exact .inl hhealth
  · refine .inr ⟨hhealth, ?_⟩
    rcases Prod.Lex.toLex_le_toLex.mp hrank with hrank | ⟨hrank, -⟩
    · exact hlt.mp hrank
    · -- Equal ranks are those of equal keys, and the priority tells two links apart.
      have hrank : a.qualityRank = b.qualityRank := hrank
      rw [hrank] at hlt hgt
      have hkey := le_antisymm (not_lt.mp (mt hgt.mpr (Nat.lt_irrefl _)))
        (not_lt.mp (mt hlt.mpr (Nat.lt_irrefl _)))
      have hpriority := congrArg (fun key : RankKey => (ofLex (ofLex key).2).2) hkey
      have hsame : linkA = linkB := List.inj_on_of_nodup_map hvalid.priorities hlinkA hlinkB
        (Prod.ext (hchannelA.trans hchannelB.symm) (by rw [← hpriorityA, ← hpriorityB]; exact hpriority))
      subst hsame
      obtain rfl := Option.some.inj (hrowA.symm.trans hrowB)
      exact absurd rfl hne

/-- The candidates of a plan. -/
theorem plan_candidates {plan : ChannelPlaybackPlan}
    (h : tables.channelPlaybackPlan channelId = some plan) :
    plan.candidates = Sorting.sortBy candidateKey (tables.eligible channelId) := by
  obtain ⟨first, -, rfl⟩ := Option.map_eq_some_iff.mp h
  rfl

end Order

/-! ## Health statements -/

inductive HealthOp where
  | tryMarkStreamChecking (now : Time) (id : Uuid)
  | releaseStreamCheckingClaim (id : Uuid)
  | recoverStrandedCheckingStreams (now strandedTimeout : Time)
  | resetStrandedCheckingStreams
  | updateStreamHealthAndRank (now : Time) (update : StreamHealthUpdate)
  | recordPassiveStreamInfo (now : Time) (update : StreamHealthUpdate) (minAge : Time)
  | recordStreamMeasurement (sample : StreamMeasurement)
  | rankChannelStreamsByQuality (channelId : Uuid)
  | rankAllChannelStreamsByQuality

/-- A statement that fails changes nothing. -/
def HealthOp.apply (tables : StreamTables) : HealthOp → StreamTables
  | .tryMarkStreamChecking now id => (tables.tryMarkStreamChecking now id).1
  | .releaseStreamCheckingClaim id => tables.releaseStreamCheckingClaim id
  | .recoverStrandedCheckingStreams now strandedTimeout =>
    tables.recoverStrandedCheckingStreams now strandedTimeout
  | .resetStrandedCheckingStreams => tables.resetStrandedCheckingStreams
  | .updateStreamHealthAndRank now update => tables.updateStreamHealthAndRank now update
  | .recordPassiveStreamInfo now update minAge => (tables.recordPassiveStreamInfo now update minAge).1
  | .recordStreamMeasurement sample => ((tables.recordStreamMeasurement sample).map Prod.fst).getD tables
  | .rankChannelStreamsByQuality channelId => tables.rankChannelStreamsByQuality channelId
  | .rankAllChannelStreamsByQuality => tables.rankAllChannelStreamsByQuality

/-- The columns of a stream that no health statement writes. -/
def identityColumns (stream : ProviderStream) : Uuid × Uuid × Uuid × Bool :=
  (stream.id, stream.providerAccountId, stream.snapshotId, stream.supported)

/-- The tables differ in what health statements write. -/
structure SameIdentities (before after : StreamTables) : Prop where
  streams : after.streams.map identityColumns = before.streams.map identityColumns
  links : after.links.map (fun link => (link.channelId, link.providerStreamId, link.priority)) =
    before.links.map fun link => (link.channelId, link.providerStreamId, link.priority)

section Runs

variable {before middle after : StreamTables}

theorem SameIdentities.refl (tables : StreamTables) : SameIdentities tables tables := ⟨rfl, rfl⟩

theorem SameIdentities.trans (h : SameIdentities before middle)
    (hnext : SameIdentities middle after) : SameIdentities before after :=
  ⟨hnext.streams.trans h.streams, hnext.links.trans h.links⟩

theorem SameIdentities.of_ranks (h : SameButRanks before after) : SameIdentities before after :=
  ⟨by rw [h.streams], h.links⟩

theorem sameIdentities_updateStreams {p : ProviderStream → Bool}
    {f : ProviderStream → ProviderStream} (hf : ∀ stream, identityColumns (f stream) =
      identityColumns stream) : SameIdentities before (before.updateStreams p f) :=
  ⟨Table.map_update fun stream _ => hf stream, rfl⟩

theorem sameIdentities_apply (op : HealthOp) : SameIdentities before (op.apply before) := by
  cases op with
  | tryMarkStreamChecking now id => exact sameIdentities_updateStreams fun _ => rfl
  | releaseStreamCheckingClaim id => exact sameIdentities_updateStreams fun _ => rfl
  | recoverStrandedCheckingStreams now timeout => exact sameIdentities_updateStreams fun _ => rfl
  | resetStrandedCheckingStreams => exact sameIdentities_updateStreams fun _ => rfl
  | updateStreamHealthAndRank now update =>
    have hset : SameIdentities before (before.setStreamHealth now update) :=
      sameIdentities_updateStreams fun _ => rfl
    simp only [HealthOp.apply, updateStreamHealthAndRank]
    split
    · exact hset
    · rename_i logged hlogged
      obtain ⟨checks, rfl⟩ := logStreamHealth_eq_some hlogged
      have hlog : SameIdentities before { before.setStreamHealth now update with checks } :=
        ⟨hset.streams, hset.links⟩
      exact hlog.trans (.of_ranks (foldl_rankChannel _ _).1)
  | recordPassiveStreamInfo now update minAge =>
    simp only [HealthOp.apply, recordPassiveStreamInfo]
    split
    · refine SameIdentities.trans ?_ (.of_ranks (foldl_rankChannel _ _).1)
      exact sameIdentities_updateStreams fun _ => rfl
    · exact .refl _
  | recordStreamMeasurement sample =>
    simp only [HealthOp.apply, recordStreamMeasurement]
    split
    · exact .refl _
    · split
      · split
        · exact ⟨rfl, rfl⟩
        · exact ⟨Table.map_update fun _ _ => rfl, rfl⟩
      · exact .refl _
  | rankChannelStreamsByQuality channelId => exact .of_ranks (.rankChannel before channelId)
  | rankAllChannelStreamsByQuality =>
    have hsame := (foldl_rankChannel (before.links.map ChannelStream.channelId) before).1
    rw [← rankAll_eq_foldl] at hsame
    exact .of_ranks hsame

theorem sameIdentities_run (ops : List HealthOp) :
    SameIdentities before (ops.foldl HealthOp.apply before) := by
  induction ops generalizing before with
  | nil => exact .refl _
  | cons op rest ih => exact (sameIdentities_apply op).trans ih

theorem SameIdentities.channelsForStream (h : SameIdentities before after) (streamId : Uuid) :
    after.channelsForStream streamId = before.channelsForStream streamId := by
  have hcolumns : ∀ tables : StreamTables, tables.channelsForStream streamId =
      ((tables.links.map fun link => (link.channelId, link.providerStreamId, link.priority)).filter
        fun columns => columns.2.1 = streamId).map Prod.fst := by
    intro tables
    rw [StreamTables.channelsForStream, List.filter_map, List.map_map]
    rfl
  rw [hcolumns, hcolumns, h.links]

/-- Health statements keep the keys of the schema. -/
theorem SameIdentities.valid (h : SameIdentities before after) (hvalid : before.Valid) :
    after.Valid := by
  have hids : after.streams.map ProviderStream.id = before.streams.map ProviderStream.id := by
    have hmap := congrArg (List.map Prod.fst) h.streams
    rw [List.map_map, List.map_map] at hmap
    exact hmap
  have hkeys := congrArg (List.map fun columns : Uuid × Uuid × Nat => (columns.1, columns.2.1)) h.links
  have hpriorities :=
    congrArg (List.map fun columns : Uuid × Uuid × Nat => (columns.1, columns.2.2)) h.links
  have hstreams := congrArg (List.map fun columns : Uuid × Uuid × Nat => columns.2.1) h.links
  simp only [List.map_map, Function.comp_def] at hkeys hpriorities hstreams
  refine ⟨hids ▸ hvalid.streams, hkeys ▸ hvalid.links, hpriorities ▸ hvalid.priorities, ?_⟩
  intro link hlink
  have hmem := List.mem_map_of_mem (f := ChannelStream.providerStreamId) hlink
  obtain ⟨old, hold, hsame⟩ := List.mem_map.mp (hstreams ▸ hmem)
  rw [hids, ← hsame]
  exact hvalid.references old hold

end Runs

/-- Behind a ranking of the channel, its plan lists every stream that can be played exactly once,
and it is sorted by health, then by width, height and frame rate, then by the ranked health and
the priority. -/
theorem plan_sorted_of_ranked (tables : PlaybackTables) (hvalid : tables.toStreamTables.Valid)
    (channelId : Uuid) (hranked : Ranked tables.toStreamTables channelId)
    (plan : ChannelPlaybackPlan) (hplan : tables.channelPlaybackPlan channelId = some plan) :
    plan.candidates.Perm (tables.eligible channelId) ∧
    plan.candidates.Pairwise fun a b => ∀ s t,
      tables.toStreamTables.find a.providerStreamId = some s →
      tables.toStreamTables.find b.providerStreamId = some t →
      plannedKey s a.priority < plannedKey t b.priority := by
  rw [plan_candidates hplan]
  have hperm := Sorting.sortBy_perm candidateKey (tables.eligible channelId)
  have hids : (Sorting.sortBy candidateKey (tables.eligible channelId)).Pairwise
      fun a b => a.providerStreamId ≠ b.providerStreamId :=
    List.pairwise_map.mp ((hperm.map _).nodup_iff.mpr (nodup_eligible hvalid))
  refine ⟨hperm, ?_⟩
  refine List.Pairwise.imp_of_mem ?_ ((Sorting.sortBy_sorted candidateKey _).and hids)
  intro a b ha hb hboth s t hs ht
  exact plannedKey_lt hvalid hranked (hperm.mem_iff.mp ha) (hperm.mem_iff.mp hb) hboth.2 hboth.1
    hs ht

section Generation

variable {tables : PlaybackTables} {channelId : Uuid} {row : ChannelPlaybackCandidateRow}

/-- The identity of a candidate, from the columns that no health statement writes. -/
def identityOf (tables : PlaybackTables) (channelId streamId : Uuid) : Option Identity := do
  let channel ← tables.channels.find? fun channel => channel.id = channelId
  let columns ← (tables.streams.map identityColumns).find? fun columns => columns.1 = streamId
  let account ← tables.accounts.find? fun account => account.id = columns.2.1
  let snapshot ← tables.snapshots.find? fun snapshot => snapshot.id = columns.2.2.1
  guard (channel.enabled ∧ account.enabled ∧ columns.2.2.2 ∧ snapshot.active)
  return (columns.1, snapshot.id, columns.2.1, account.revision,
    account.connectionPoolId.getD account.id, account.inputAdapter)

theorem candidate_identity (link : ChannelStream) :
    (tables.candidate link).map ChannelPlaybackCandidateRow.identity =
      identityOf tables link.channelId link.providerStreamId := by
  have hfind : (tables.streams.map identityColumns).find?
      (fun columns => decide (columns.1 = link.providerStreamId)) =
      (tables.toStreamTables.find link.providerStreamId).map identityColumns := List.find?_map
  rw [candidate, identityOf, hfind]
  cases tables.channels.find? fun channel => channel.id = link.channelId with
  | none => rfl
  | some channel =>
    cases tables.toStreamTables.find link.providerStreamId with
    | none => rfl
    | some stream =>
      simp only [Option.bind_eq_bind, Option.bind_some, Option.map_some, identityColumns]
      cases tables.accounts.find? fun account => account.id = stream.providerAccountId with
      | none => rfl
      | some account =>
        simp only [Option.bind_some]
        cases tables.snapshots.find? fun snapshot => snapshot.id = stream.snapshotId with
        | none => rfl
        | some snapshot =>
          by_cases hplayed : channel.enabled = true ∧ account.enabled = true ∧
            stream.supported = true ∧ snapshot.active = true
          · simp [guard, hplayed, ChannelPlaybackCandidateRow.identity]
          · simp [guard, hplayed]

theorem channel_of_eligible (h : row ∈ tables.eligible channelId) :
    ∃ channel, tables.channels.find? (fun channel => channel.id = channelId) = some channel ∧
      row.channelId = channel.id ∧ row.channelRevision = channel.revision := by
  obtain ⟨link, -, rfl, hrow⟩ := mem_eligible.mp h
  obtain ⟨channel, hchannel, hrow⟩ := Option.bind_eq_some_iff.mp hrow
  obtain ⟨stream, -, hrow⟩ := Option.bind_eq_some_iff.mp hrow
  obtain ⟨account, -, hrow⟩ := Option.bind_eq_some_iff.mp hrow
  obtain ⟨snapshot, -, hrow⟩ := Option.bind_eq_some_iff.mp hrow
  obtain ⟨_, -, hrow⟩ := Option.bind_eq_some_iff.mp hrow
  obtain rfl := Option.some.inj hrow
  exact ⟨channel, hchannel, rfl, rfl⟩

/-- The candidates of a plan, as the digest sees them. -/
theorem eligible_identities (tables : PlaybackTables) (channelId : Uuid) :
    (tables.eligible channelId).map ChannelPlaybackCandidateRow.identity =
      ((tables.links.map fun link => (link.channelId, link.providerStreamId, link.priority)).filter
        fun columns => columns.1 = channelId).filterMap fun columns =>
          identityOf tables columns.1 columns.2.1 := by
  rw [eligible, List.map_filterMap, List.filter_map, List.filterMap_map]
  simp only [candidate_identity, Function.comp_def]

/-- The tables behind a run of health statements. -/
def PlaybackTables.runHealth (tables : PlaybackTables) (ops : List HealthOp) : PlaybackTables :=
  { tables with toStreamTables := ops.foldl HealthOp.apply tables.toStreamTables }

theorem eligible_run (ops : List HealthOp) :
    ((tables.runHealth ops).eligible channelId).map ChannelPlaybackCandidateRow.identity =
      (tables.eligible channelId).map ChannelPlaybackCandidateRow.identity := by
  have hsame := @sameIdentities_run tables.toStreamTables ops
  rw [eligible_identities, eligible_identities]
  have hidentity : identityOf (tables.runHealth ops) = identityOf tables := by
    funext channelId streamId
    simp only [identityOf, PlaybackTables.runHealth, hsame.streams]
  rw [hidentity]
  have hlinks : (tables.runHealth ops).links.map
      (fun link => (link.channelId, link.providerStreamId, link.priority)) =
      tables.links.map fun link => (link.channelId, link.providerStreamId, link.priority) :=
    hsame.links
  rw [hlinks]

/-- Where the plan's channel columns come from. -/
theorem plan_channel {plan : ChannelPlaybackPlan}
    (h : tables.channelPlaybackPlan channelId = some plan) :
    ∃ channel, tables.channels.find? (fun channel => channel.id = channelId) = some channel ∧
      plan.channelId = channel.id ∧ plan.channelRevision = channel.revision := by
  obtain ⟨first, hfirst, rfl⟩ := Option.map_eq_some_iff.mp h
  have hmem := List.mem_of_mem_head? hfirst
  exact channel_of_eligible ((Sorting.sortBy_perm _ _).mem_iff.mp hmem)

theorem plan_eq_none : tables.channelPlaybackPlan channelId = none ↔
    tables.eligible channelId = [] := by
  simp only [channelPlaybackPlan, Option.map_eq_none_iff, List.head?_eq_none_iff]
  have hperm := Sorting.sortBy_perm candidateKey (tables.eligible channelId)
  constructor
  · intro h
    rw [h] at hperm
    exact hperm.symm.eq_nil
  · intro h
    rw [h]
    rfl

end Generation

section Example

/-- Channel 9 with two streams; the second one has been linked with the better rank. -/
def exampleTables : PlaybackTables where
  streams := [exampleStream 2 (some 1920), exampleStream 3 (some 1280)]
  links := [
    { channelId := 9, providerStreamId := 2, priority := 1, qualityRank := 2 },
    { channelId := 9, providerStreamId := 3, priority := 0, qualityRank := 1 }]
  channels := [{ id := 9, name := "News", enabled := true, revision := 4 }]
  accounts := [{
    id := 1, connectionPoolId := none, maxConnections := 1, inputAdapter := .auto, enabled := true
    revision := 7, alternativeBaseUrls := some [] }]
  pools := []
  snapshots := [{ id := 5, active := true }]

theorem exampleTables_valid : exampleTables.toStreamTables.Valid :=
  ⟨by decide, by decide, by decide, by decide⟩

/-- The probe of the second stream finds it dead. -/
def exampleUpdate : StreamHealthUpdate where
  providerStreamId := 3
  status := .dead

end Example

/-- No run of health statements, rankings and measurements makes a channel playable or
unplayable, or changes the generation under which its viewers share a session. -/
theorem generation_run (tables : PlaybackTables) (hvalid : tables.toStreamTables.Valid)
    (channelId : Uuid) (ops : List HealthOp) (sha256 : List UInt8 → BitVec 64) :
    ((tables.runHealth ops).channelPlaybackPlan channelId).map (playbackGeneration sha256) =
      (tables.channelPlaybackPlan channelId).map (playbackGeneration sha256) := by
  have hsame := @eligible_run tables channelId ops
  cases hplan : tables.channelPlaybackPlan channelId with
  | none =>
    rw [plan_eq_none.mp hplan, List.map_nil, List.map_eq_nil_iff] at hsame
    rw [plan_eq_none.mpr hsame]
  | some plan =>
    cases hafter : (tables.runHealth ops).channelPlaybackPlan channelId with
    | none =>
      rw [plan_eq_none.mp hafter, List.map_nil, eq_comm, List.map_eq_nil_iff] at hsame
      rw [plan_eq_none.mpr hsame] at hplan
      cases hplan
    | some after =>
      obtain ⟨channel, hchannel, hid, hrevision⟩ := plan_channel hplan
      obtain ⟨other, hother, hid', hrevision'⟩ := plan_channel hafter
      obtain rfl := Option.some.inj (hchannel.symm.trans hother)
      have hbefore := Sorting.sortBy_perm candidateKey (tables.eligible channelId)
      have hperm := Sorting.sortBy_perm candidateKey ((tables.runHealth ops).eligible channelId)
      have hidentities := (hperm.map ChannelPlaybackCandidateRow.identity).trans
        (hsame ▸ (hbefore.map ChannelPlaybackCandidateRow.identity).symm)
      rw [← plan_candidates hplan, ← plan_candidates hafter] at hidentities
      have hnodup : (plan.candidates.map ChannelPlaybackCandidateRow.providerStreamId).Nodup := by
        rw [plan_candidates hplan]
        exact (hbefore.map _).nodup_iff.mpr (nodup_eligible hvalid)
      have hbytes := generationBytes_of_perm hnodup (hid.trans hid'.symm)
        (hrevision.trans hrevision'.symm) hidentities.symm
      rw [Option.map_some, Option.map_some, playbackGeneration, playbackGeneration, hbytes]

theorem generation_run_claimed :
    ((exampleTables.runHealth [.tryMarkStreamChecking 1 3, .updateStreamHealthAndRank 2
      exampleUpdate]).channelPlaybackPlan 9).map (playbackGeneration fun bytes => bytes.length) =
    (exampleTables.channelPlaybackPlan 9).map (playbackGeneration fun bytes => bytes.length) :=
  generation_run exampleTables exampleTables_valid 9 _ _

/-- Behind any run of health statements that ends with the health update of a stream of the
channel, the plan lists every stream that can be played exactly once, and it is sorted by
health, then by width, height and frame rate, then by the ranked health and the priority. -/
theorem plan_sorted_after_update (tables : PlaybackTables) (hvalid : tables.toStreamTables.Valid)
    (channelId : Uuid) (ops : List HealthOp) (now : Time) (update : StreamHealthUpdate)
    (hlinked : channelId ∈ tables.channelsForStream update.providerStreamId)
    (plan : ChannelPlaybackPlan)
    (hplan : (tables.runHealth (ops ++ [.updateStreamHealthAndRank now update])).channelPlaybackPlan
      channelId = some plan) :
    plan.candidates.Perm
      ((tables.runHealth (ops ++ [.updateStreamHealthAndRank now update])).eligible channelId) ∧
    plan.candidates.Pairwise fun a b => ∀ s t,
      (tables.runHealth (ops ++ [.updateStreamHealthAndRank now update])).toStreamTables.find
        a.providerStreamId = some s →
      (tables.runHealth (ops ++ [.updateStreamHealthAndRank now update])).toStreamTables.find
        b.providerStreamId = some t →
      plannedKey s a.priority < plannedKey t b.priority := by
  have hbefore := @sameIdentities_run tables.toStreamTables ops
  have hafter := @sameIdentities_run tables.toStreamTables
    (ops ++ [.updateStreamHealthAndRank now update])
  have hlinked' : channelId ∈ (ops.foldl HealthOp.apply tables.toStreamTables).channelsForStream
      update.providerStreamId := by
    rw [hbefore.channelsForStream]
    exact hlinked
  have hranked : Ranked (tables.runHealth
      (ops ++ [.updateStreamHealthAndRank now update])).toStreamTables channelId := by
    have hrun : (tables.runHealth (ops ++ [.updateStreamHealthAndRank now update])).toStreamTables =
        (ops.foldl HealthOp.apply tables.toStreamTables).updateStreamHealthAndRank now update := by
      rw [runHealth, List.foldl_append]
      rfl
    rw [hrun]
    exact ranked_updateStreamHealthAndRank (hbefore.valid hvalid) hlinked'
  exact plan_sorted_of_ranked _ (hafter.valid hvalid) channelId hranked plan hplan

theorem plan_sorted_after_update_dead : ∃ plan,
    (exampleTables.runHealth ([.tryMarkStreamChecking 1 3] ++
      [.updateStreamHealthAndRank 2 exampleUpdate])).channelPlaybackPlan 9 = some plan ∧
    plan.candidates.map ChannelPlaybackCandidateRow.providerStreamId = [2, 3] ∧
    plan.candidates.Perm ((exampleTables.runHealth ([.tryMarkStreamChecking 1 3] ++
      [.updateStreamHealthAndRank 2 exampleUpdate])).eligible 9) := by
  obtain ⟨plan, hplan, hids⟩ := (Option.any_eq_true _ _).mp
    (by decide +kernel : ((exampleTables.runHealth ([.tryMarkStreamChecking 1 3] ++
      [.updateStreamHealthAndRank 2 exampleUpdate])).channelPlaybackPlan 9).any (fun plan =>
        plan.candidates.map ChannelPlaybackCandidateRow.providerStreamId = [2, 3]) = true)
  exact ⟨plan, hplan, of_decide_eq_true hids, (plan_sorted_after_update exampleTables
    exampleTables_valid 9 [.tryMarkStreamChecking 1 3] 2 exampleUpdate (by decide) plan hplan).1⟩

end IptvRelay.Playback
