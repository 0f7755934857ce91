import IptvRelay.Guide.EpgMappings

/-!
# What a reconciliation decides for one channel

The transaction works on all channels at once, one kind of match after the other. For one
channel it is a decision that depends on the mapping of the channel and on its matches only, and
the transaction fails exactly if an unmapped channel has two matches by aliases.
-/

namespace IptvRelay.Guide.EpgMappings

open Catalog (ChannelRow)
open Store (Time SnapshotRow)

/-! ## Decisions -/

namespace EpgSources

variable (text : TextFunctions) (sources : EpgSources)

/-- Channels that are not automatic keep their mappings. -/
def keeps (channel : ChannelRow) (epgId : Store.Uuid) : Bool :=
  !isAutomatic channel || sources.isMatch text channel epgId

/-- The mapping for review. -/
def reviewMatch (channel : ChannelRow) : Option EpgMapping :=
  (topCandidate (sources.ambiguousMatches text channel)).map ReviewCandidate.reviewed

/-- A channel without a mapping gets its best match. -/
def firstMatch (channel : ChannelRow) : Option EpgMapping :=
  (sources.tvgMatch text channel).or <| (sources.nameMatch text channel).or <|
    (sources.aliasMatches text channel).head?.or <| sources.reviewMatch text channel

/-- A mapping that is not manual gives way to a match by id, and otherwise it stays as long as it
is a match. -/
def decision (channel : ChannelRow) : Option EpgMapping → Option EpgMapping
  | none => sources.firstMatch text channel
  | some mapping =>
    if mapping.reviewStatus = .manual then some mapping
    else match sources.tvgMatch text channel with
      | some new => some (mapping.replace new)
      | none => if sources.keeps text channel mapping.epgChannelId then some mapping else none

/-- Aliases of the channel lead to two guide channels, or twice to one, and no better match is
found. -/
def aliasClash (channel : ChannelRow) : Bool :=
  sources.tvgMatch text channel = none ∧ sources.nameMatch text channel = none ∧
    1 < (sources.aliasMatches text channel).length

end EpgSources

/-- The keys of the schema, and the references to channels. -/
structure EpgTables.Valid (tables : EpgTables) : Prop where
  channels : (tables.channels.map ChannelRow.id).Nodup
  epgChannels : (tables.epgChannels.map fun epg => epg.id).Nodup
  mappings : (tables.mappings.map fun mapping => mapping.channelId).Nodup
  mapped : ∀ channelId ∈ tables.mappings.map (fun mapping => mapping.channelId),
    channelId ∈ tables.channels.map ChannelRow.id

/-! ## Matches -/

section Matches

variable {text : TextFunctions} {sources : EpgSources} {channel : ChannelRow}
  {mapping : EpgMapping} {name : String} {id : Store.Uuid}

theorem replace_channelId (old new : EpgMapping) (h : old.channelId = new.channelId) :
    (old.replace new).channelId = new.channelId := by
  unfold EpgMapping.replace
  split
  · exact h
  · rfl

theorem replace_epgChannelId {old new : EpgMapping} (h : old.reviewStatus ≠ .manual) :
    (old.replace new).epgChannelId = new.epgChannelId := by
  rw [EpgMapping.replace, if_neg h]

theorem replace_reviewStatus {old new : EpgMapping} (h : old.reviewStatus ≠ .manual) :
    (old.replace new).reviewStatus = new.reviewStatus := by
  rw [EpgMapping.replace, if_neg h]

theorem activeEpgChannel_eq_some {xmltvId : String} {epg : EpgChannel}
    (h : sources.activeEpgChannel text xmltvId = some epg) :
    epg ∈ sources.epgChannels ∧ (sources.activeSnapshot epg).isSome ∧
      text.lower epg.xmltvId = xmltvId := by
  obtain ⟨⟨snapshot, other⟩, hhead, rfl⟩ := Option.map_eq_some_iff.mp h
  have hmem := (Sorting.sortBy_perm _ _).mem_iff.mp (List.mem_of_head? hhead)
  obtain ⟨hactive, hid⟩ := List.mem_filter.mp hmem
  obtain ⟨epg, hepg, hsnapshot⟩ := List.mem_filterMap.mp hactive
  obtain ⟨found, hfound, hpair⟩ := Option.map_eq_some_iff.mp hsnapshot
  obtain ⟨rfl, rfl⟩ := Prod.mk.inj hpair
  exact ⟨hepg, hfound ▸ rfl, of_decide_eq_true hid⟩

theorem mem_epgNames (h : id ∈ sources.epgNames text name) :
    name ≠ "" ∧ ∃ epg ∈ sources.epgChannels, epg.id = id ∧
      sources.latestActiveXmltv = some epg.snapshot ∧ text.normalize epg.displayName = name := by
  unfold EpgSources.epgNames at h
  split at h
  · cases h
  · rename_i hname
    obtain ⟨epg, hepg, hid⟩ := List.mem_map.mp h
    obtain ⟨hmem, hlatest⟩ := List.mem_filter.mp hepg
    obtain ⟨hlatest, hnorm⟩ := of_decide_eq_true hlatest
    exact ⟨hname, epg, hmem, hid, hlatest, hnorm⟩

theorem uniqueEpgName_mem (h : sources.uniqueEpgName text name = some id) :
    id ∈ sources.epgNames text name := by
  unfold EpgSources.uniqueEpgName at h
  split at h
  · rename_i other hnames
    obtain rfl := Option.some.inj h
    rw [hnames]
    exact List.mem_singleton_self _
  · cases h

/-- The channels of the latest guide are active. -/
theorem activeSnapshot_of_latest {epg : EpgChannel}
    (h : sources.latestActiveXmltv = some epg.snapshot) : (sources.activeSnapshot epg).isSome := by
  obtain ⟨snapshot, hhead, hid⟩ := Option.map_eq_some_iff.mp h
  have hmem := (Sorting.sortBy_perm _ _).mem_iff.mp (List.mem_of_head? hhead)
  obtain ⟨hsnapshot, hactive⟩ := List.mem_filter.mp hmem
  rw [EpgSources.activeSnapshot, List.find?_isSome]
  exact ⟨snapshot, hsnapshot, decide_eq_true ⟨hid, (of_decide_eq_true hactive).2⟩⟩

/-- A guide channel whose name is the channel's, or that an alias of the channel leads to. -/
theorem isMatch_of_name (h : id ∈ sources.epgNames text name)
    (hname : name = EpgSources.channelNorm text channel ∨ ∃ row ∈ sources.aliases,
      text.normalizeChannelName row.aliasName = EpgSources.channelNorm text channel ∧
        text.normalizeChannelName row.canonicalName = name) :
    sources.isMatch text channel id = true := by
  obtain ⟨-, epg, hepg, rfl, hlatest, hnorm⟩ := mem_epgNames h
  refine List.any_eq_true.mpr ⟨epg, hepg,
    decide_eq_true ⟨rfl, activeSnapshot_of_latest hlatest, ?_⟩⟩
  rcases hname with rfl | ⟨row, hrow, halias, hcanonical⟩
  · exact .inr (.inl hnorm)
  · refine .inr (.inr (List.any_eq_true.mpr ⟨row, hrow, decide_eq_true ⟨halias, ?_⟩⟩))
    rw [hcanonical, hnorm]

theorem tvgMatch_eq_some (h : sources.tvgMatch text channel = some mapping) :
    mapping.channelId = channel.id ∧ mapping.reviewStatus = .applied ∧
      sources.isMatch text channel mapping.epgChannelId = true := by
  obtain ⟨key, hkey, h⟩ := Option.bind_eq_some_iff.mp h
  obtain ⟨-, h⟩ := Checked.of_guard h
  obtain ⟨epg, hepg, h⟩ := Option.bind_eq_some_iff.mp h
  obtain rfl := Option.some.inj h
  obtain ⟨hmem, hactive, hid⟩ := activeEpgChannel_eq_some hepg
  refine ⟨rfl, rfl, List.any_eq_true.mpr ⟨epg, hmem, decide_eq_true ⟨rfl, hactive, .inl ?_⟩⟩⟩
  rw [hkey, Option.map_some, hid]

theorem nameMatch_eq_some (h : sources.nameMatch text channel = some mapping) :
    mapping.channelId = channel.id ∧ mapping.reviewStatus = .applied ∧
      sources.isMatch text channel mapping.epgChannelId = true := by
  obtain ⟨-, h⟩ := Checked.of_guard h
  obtain ⟨id, hid, h⟩ := Option.bind_eq_some_iff.mp h
  obtain rfl := Option.some.inj h
  exact ⟨rfl, rfl, isMatch_of_name (uniqueEpgName_mem hid) (.inl rfl)⟩

theorem mem_aliasMatches (h : mapping ∈ sources.aliasMatches text channel) :
    mapping.channelId = channel.id ∧ mapping.reviewStatus = .applied ∧
      sources.isMatch text channel mapping.epgChannelId = true := by
  unfold EpgSources.aliasMatches at h
  dsimp only at h
  split at h
  · obtain ⟨row, hrow, h⟩ := List.mem_filterMap.mp h
    obtain ⟨hmem, halias⟩ := List.mem_filter.mp hrow
    obtain ⟨id, hid, rfl⟩ := Option.map_eq_some_iff.mp h
    exact ⟨rfl, rfl, isMatch_of_name (uniqueEpgName_mem hid)
      (.inr ⟨row, hmem, of_decide_eq_true halias, rfl⟩)⟩
  · cases h

theorem mem_ambiguousMatches {candidate : ReviewCandidate}
    (h : candidate ∈ sources.ambiguousMatches text channel) :
    candidate.channelId = channel.id ∧
      sources.isMatch text channel candidate.epgChannelId = true := by
  unfold EpgSources.ambiguousMatches at h
  dsimp only at h
  split at h
  · obtain ⟨id, hid, rfl⟩ := List.mem_map.mp h
    exact ⟨rfl, isMatch_of_name ((Sorting.sortBy_perm _ _).mem_iff.mp hid) (.inl rfl)⟩
  · cases h

theorem topCandidate_mem {candidates : List ReviewCandidate} {candidate : ReviewCandidate}
    (h : topCandidate candidates = some candidate) : candidate ∈ candidates :=
  (Sorting.sortBy_perm _ _).mem_iff.mp (List.mem_of_head? h)

theorem reviewMatch_eq_some (h : sources.reviewMatch text channel = some mapping) :
    mapping.channelId = channel.id ∧ mapping.reviewStatus = .review ∧
      sources.isMatch text channel mapping.epgChannelId = true := by
  obtain ⟨candidate, hcandidate, rfl⟩ := Option.map_eq_some_iff.mp h
  obtain ⟨hid, hmatch⟩ := mem_ambiguousMatches (topCandidate_mem hcandidate)
  exact ⟨hid, rfl, hmatch⟩

/-- What a channel gets is its own, not manual, and stays. -/
theorem firstMatch_eq_some (h : sources.firstMatch text channel = some mapping) :
    mapping.channelId = channel.id ∧ mapping.reviewStatus ≠ .manual ∧
      sources.isMatch text channel mapping.epgChannelId = true := by
  rcases Option.or_eq_some_iff.mp h with h | ⟨-, h⟩
  · obtain ⟨hid, hstatus, hmatch⟩ := tvgMatch_eq_some h
    exact ⟨hid, by simp [hstatus], hmatch⟩
  rcases Option.or_eq_some_iff.mp h with h | ⟨-, h⟩
  · obtain ⟨hid, hstatus, hmatch⟩ := nameMatch_eq_some h
    exact ⟨hid, by simp [hstatus], hmatch⟩
  rcases Option.or_eq_some_iff.mp h with h | ⟨-, h⟩
  · obtain ⟨hid, hstatus, hmatch⟩ := mem_aliasMatches (List.mem_of_head? h)
    exact ⟨hid, by simp [hstatus], hmatch⟩
  · obtain ⟨hid, hstatus, hmatch⟩ := reviewMatch_eq_some h
    exact ⟨hid, by simp [hstatus], hmatch⟩

theorem keeps_of_isMatch {epgId : Store.Uuid} (h : sources.isMatch text channel epgId = true) :
    sources.keeps text channel epgId = true := by
  rw [EpgSources.keeps, h, Bool.or_true]

/-- The candidates of a channel are different guide channels. -/
theorem nodup_ambiguousMatches (h : (sources.epgChannels.map fun epg => epg.id).Nodup) :
    ((sources.ambiguousMatches text channel).map fun candidate =>
      (candidate.channelId, candidate.epgChannelId)).Nodup := by
  unfold EpgSources.ambiguousMatches
  dsimp only
  split
  · rw [List.map_map]
    refine List.Nodup.map (fun a b hab => (Prod.mk.inj hab).2) ?_
    refine (Sorting.sortBy_perm _ _).nodup_iff.mpr ?_
    unfold EpgSources.epgNames
    split
    · exact List.nodup_nil
    · exact h.sublist (List.filter_sublist.map _)
  · exact List.nodup_nil

end Matches

/-! ## Statements -/

section Statements

variable {text : TextFunctions} {tables after : EpgTables} {channel : ChannelRow}
  {new : List EpgMapping} {n : Nat}

/-- The rows that one of the chosen channels has made. -/
theorem find?_made {channels : List ChannelRow} {p : ChannelRow → Bool}
    {f : ChannelRow → List EpgMapping} (h : (channels.map ChannelRow.id).Nodup)
    (hkey : ∀ c ∈ channels, ∀ mapping ∈ f c, mapping.channelId = c.id) (hmem : channel ∈ channels) :
    ((channels.filter p).flatMap f).find? (fun mapping => mapping.channelId = channel.id) =
      if p channel then (f channel).head? else none := by
  have hfilter : ((channels.filter p).map ChannelRow.id).Nodup :=
    h.sublist (List.filter_sublist.map _)
  have hkey : ∀ c ∈ channels.filter p, ∀ mapping ∈ f c, mapping.channelId = c.id :=
    fun c hc => hkey c (List.mem_filter.mp hc).1
  rw [← List.head?_filter]
  split
  · rename_i hp
    rw [Table.filter_flatMap_of_key hfilter hkey (List.mem_filter.mpr ⟨hmem, hp⟩)]
  · rename_i hp
    rw [Table.filter_flatMap_of_not_mem hkey]
    · rfl
    · intro hid
      obtain ⟨other, hother, hsame⟩ := List.mem_map.mp hid
      obtain ⟨hmem', hp'⟩ := List.mem_filter.mp hother
      obtain rfl := Table.eq_of_key h hmem' hmem hsame
      exact hp hp'

theorem toList_head? {α : Type} (a : Option α) : a.toList.head? = a := by
  cases a <;> rfl

theorem applyMappings_eq_some (h : tables.applyMappings new = some (after, n)) :
    (new.map fun mapping => mapping.channelId).Nodup ∧ after = { tables with
      mappings := new.foldl (Table.mergeRow (fun mapping => mapping.channelId)
        EpgMapping.replace) tables.mappings } := by
  unfold EpgTables.applyMappings at h
  split at h
  · rename_i hnew
    exact ⟨hnew, (Prod.mk.inj (Option.some.inj h)).1.symm⟩
  · cases h

theorem applyMappings_mapping (h : tables.applyMappings new = some (after, n)) (k : Store.Uuid) :
    after.mapping k = (new.find? fun mapping => mapping.channelId = k).elim (tables.mapping k)
      fun row => some ((tables.mapping k).elim row fun old => old.replace row) := by
  obtain ⟨hnew, rfl⟩ := applyMappings_eq_some h
  exact Table.find?_foldl_mergeRow replace_channelId hnew k

theorem applyMappings_sources (h : tables.applyMappings new = some (after, n)) :
    after.toEpgSources = tables.toEpgSources ∧ after.candidates = tables.candidates := by
  obtain ⟨-, rfl⟩ := applyMappings_eq_some h
  exact ⟨rfl, rfl⟩

theorem applyMappings_nodup (h : tables.applyMappings new = some (after, n))
    (hkeys : (tables.mappings.map fun mapping => mapping.channelId).Nodup) :
    (after.mappings.map fun mapping => mapping.channelId).Nodup := by
  obtain ⟨-, rfl⟩ := applyMappings_eq_some h
  exact Table.nodup_foldl_mergeRow replace_channelId new hkeys

/-- Statements map channels of the schema only. -/
theorem applyMappings_mapped {ids : List Store.Uuid} (h : tables.applyMappings new = some (after, n))
    (hmapped : ∀ k ∈ tables.mappings.map (fun mapping => mapping.channelId), k ∈ ids)
    (hnew : ∀ mapping ∈ new, mapping.channelId ∈ ids) :
    ∀ k ∈ after.mappings.map (fun mapping => mapping.channelId), k ∈ ids := by
  obtain ⟨-, rfl⟩ := applyMappings_eq_some h
  intro k hk
  rcases Table.mem_keys_foldl_mergeRow replace_channelId hk with hk | hk
  · exact hmapped k hk
  · obtain ⟨mapping, hmapping, rfl⟩ := List.mem_map.mp hk
    exact hnew mapping hmapping

theorem applyMappings_eq_none :
    tables.applyMappings new = none ↔ ¬(new.map fun mapping => mapping.channelId).Nodup := by
  unfold EpgTables.applyMappings
  split
  · rename_i hnew
    exact ⟨fun h => (by cases h), fun h => absurd hnew h⟩
  · rename_i hnew
    exact ⟨fun _ => hnew, fun _ => rfl⟩

/-- The first statement: matches by id, for channels without a manual mapping. -/
theorem tvgMatches_mapping (hchannels : (tables.channels.map ChannelRow.id).Nodup)
    (h : tables.applyMappings (tables.tvgMatches text) = some (after, n))
    (hmem : channel ∈ tables.channels) :
    after.mapping channel.id = if tables.isManual channel.id then tables.mapping channel.id
      else (tables.tvgMatch text channel).elim (tables.mapping channel.id) fun row =>
        some ((tables.mapping channel.id).elim row fun old => old.replace row) := by
  rw [applyMappings_mapping h, EpgTables.tvgMatches, List.filterMap_eq_flatMap_toList,
    find?_made hchannels _ hmem, toList_head?]
  · cases tables.isManual channel.id <;> rfl
  · intro c _ mapping hmapping
    exact (tvgMatch_eq_some (Option.mem_toList.mp hmapping)).1

/-- A statement for unmapped channels. -/
theorem unmapped_mapping {f : ChannelRow → List EpgMapping}
    (hchannels : (tables.channels.map ChannelRow.id).Nodup)
    (hkey : ∀ c ∈ tables.channels, ∀ mapping ∈ f c, mapping.channelId = c.id)
    (h : tables.applyMappings (tables.unmapped.flatMap f) = some (after, n))
    (hmem : channel ∈ tables.channels) :
    after.mapping channel.id = (tables.mapping channel.id).or (f channel).head? := by
  rw [applyMappings_mapping h, EpgTables.unmapped, find?_made hchannels hkey hmem,
    EpgTables.isMapped]
  cases tables.mapping channel.id with
  | none => cases (f channel).head? <;> rfl
  | some mapping => rfl

theorem nodup_unmapped (hchannels : (tables.channels.map ChannelRow.id).Nodup) :
    (tables.unmapped.map ChannelRow.id).Nodup :=
  hchannels.sublist (List.filter_sublist.map _)

/-- At most one match for each channel never fails. -/
theorem nodup_matches {channels : List ChannelRow} {f : ChannelRow → Option EpgMapping}
    (h : (channels.map ChannelRow.id).Nodup)
    (hkey : ∀ c mapping, f c = some mapping → mapping.channelId = c.id) :
    ((channels.filterMap f).map fun mapping => mapping.channelId).Nodup := by
  rw [List.filterMap_eq_flatMap_toList]
  refine Table.nodup_flatMap_of_key h ?_ (fun _ _ hsame => hsame) fun c _ => ?_
  · intro c _ mapping hmapping
    exact hkey c mapping (Option.mem_toList.mp hmapping)
  · cases f c with
    | none => exact List.nodup_nil
    | some mapping => exact List.nodup_singleton _

theorem allAliasMatches_nodup_iff (hchannels : (tables.channels.map ChannelRow.id).Nodup) :
    ((tables.allAliasMatches text).map fun mapping => mapping.channelId).Nodup ↔
      ∀ c ∈ tables.unmapped, (tables.aliasMatches text c).length ≤ 1 := by
  have hkey : ∀ c ∈ tables.unmapped, ∀ mapping ∈ tables.aliasMatches text c,
      mapping.channelId = c.id := fun c _ mapping hmapping => (mem_aliasMatches hmapping).1
  constructor
  · intro h c hc
    exact Table.length_le_one_of_nodup h hkey hc
  · intro h
    refine Table.nodup_flatMap_of_key (nodup_unmapped hchannels) hkey (fun _ _ hsame => hsame) ?_
    intro c hc
    match hmade : tables.aliasMatches text c with
    | [] => exact List.nodup_nil
    | [_] => exact List.nodup_singleton _
    | _ :: _ :: _ =>
      have hlength := h c hc
      simp [hmade] at hlength

/-! ### Reviews -/

theorem queueReview_candidates (hchannels : (tables.channels.map ChannelRow.id).Nodup)
    (hepg : (tables.epgChannels.map fun epg => epg.id).Nodup) (hnone : tables.candidates = []) :
    (tables.queueReview text).1.candidates =
      tables.unmapped.flatMap (tables.ambiguousMatches text) := by
  unfold EpgTables.queueReview
  rw [hnone]
  have hkey : ∀ c ∈ tables.unmapped, ∀ candidate ∈ tables.ambiguousMatches text c,
      candidate.channelId = c.id := by
    intro c _ candidate hcandidate
    exact (mem_ambiguousMatches hcandidate).1
  exact Table.foldl_mergeRow_of_new (Table.nodup_flatMap_of_key (nodup_unmapped hchannels) hkey
    (fun a b hsame => (Prod.mk.inj hsame).1) fun c _ => nodup_ambiguousMatches hepg)

/-- The candidates of a channel that is still unmapped. -/
theorem queueReview_filter (hchannels : (tables.channels.map ChannelRow.id).Nodup)
    (hepg : (tables.epgChannels.map fun epg => epg.id).Nodup) (hnone : tables.candidates = [])
    (hmem : channel ∈ tables.channels) :
    (tables.queueReview text).1.candidates.filter (fun row => row.channelId = channel.id) =
      if tables.isMapped channel then [] else tables.ambiguousMatches text channel := by
  have hkey : ∀ c ∈ tables.unmapped, ∀ candidate ∈ tables.ambiguousMatches text c,
      candidate.channelId = c.id := by
    intro c _ candidate hcandidate
    exact (mem_ambiguousMatches hcandidate).1
  rw [queueReview_candidates hchannels hepg hnone]
  split
  · rename_i hmapped
    apply Table.filter_flatMap_of_not_mem hkey
    intro hid
    obtain ⟨other, hother, hsame⟩ := List.mem_map.mp hid
    obtain ⟨hmem', hunmapped⟩ := List.mem_filter.mp hother
    obtain rfl := Table.eq_of_key hchannels hmem' hmem hsame
    simp [hmapped] at hunmapped
  · rename_i hunmapped
    exact Table.filter_flatMap_of_key (nodup_unmapped hchannels) hkey
      (List.mem_filter.mpr ⟨hmem, by simpa using hunmapped⟩)

/-- A channel without a mapping gets its top candidate. -/
theorem mapReviewed_mapping (k : Store.Uuid) : tables.mapReviewed.mapping k = (tables.mapping k).or
    ((topCandidate (tables.candidates.filter fun row => row.channelId = k)).map
      ReviewCandidate.reviewed) := by
  let waiting := tables.candidates.filter fun row => (tables.mapping row.channelId).isNone
  let channelIds := Sorting.sortBy id (waiting.map fun row => row.channelId).dedup
  let top (channelId : Store.Uuid) : Option EpgMapping :=
    (topCandidate (waiting.filter fun row => row.channelId = channelId)).map
      ReviewCandidate.reviewed
  have hids : channelIds.Nodup :=
    (Sorting.sortBy_perm _ _).nodup_iff.mpr (List.nodup_dedup _)
  have hids : (channelIds.map fun channelId => channelId).Nodup := by rwa [List.map_id']
  have htop : ∀ channelId mapping, top channelId = some mapping →
      mapping.channelId = channelId := by
    intro channelId mapping hmapping
    obtain ⟨candidate, hcandidate, rfl⟩ := Option.map_eq_some_iff.mp hmapping
    exact of_decide_eq_true (List.mem_filter.mp (topCandidate_mem hcandidate)).2
  have hkey : ∀ channelId ∈ channelIds, ∀ mapping ∈ (top channelId).toList,
      mapping.channelId = channelId := fun channelId _ mapping hmapping =>
    htop channelId mapping (Option.mem_toList.mp hmapping)
  have hnodup : ((channelIds.filterMap top).map fun mapping => mapping.channelId).Nodup := by
    rw [List.filterMap_eq_flatMap_toList]
    refine Table.nodup_flatMap_of_key hids hkey (fun _ _ hsame => hsame) fun channelId _ => ?_
    cases top channelId with
    | none => exact List.nodup_nil
    | some mapping => exact List.nodup_singleton _
  have hfind : (channelIds.filterMap top).find? (fun mapping => mapping.channelId = k) = top k := by
    rw [List.filterMap_eq_flatMap_toList, ← List.head?_filter]
    by_cases hk : k ∈ channelIds
    · rw [Table.filter_flatMap_of_key hids hkey hk, toList_head?]
    · rw [Table.filter_flatMap_of_not_mem hkey (by rwa [List.map_id'])]
      have hempty : waiting.filter (fun row => row.channelId = k) = [] := by
        refine List.filter_eq_nil_iff.mpr fun row hrow hid => hk ?_
        refine (Sorting.sortBy_perm _ _).mem_iff.mpr (List.mem_dedup.mpr ?_)
        exact List.mem_map.mpr ⟨row, hrow, of_decide_eq_true hid⟩
      simp only [top, hempty]
      rfl
  have hmerged : tables.mapReviewed.mapping k = (top k).elim (tables.mapping k) fun row =>
      some ((tables.mapping k).elim row fun old => old) := by
    rw [← hfind]
    exact Table.find?_foldl_mergeRow (fun _ _ hsame => hsame) hnodup k
  rw [hmerged]
  cases hmapping : tables.mapping k with
  | some mapping => cases top k <;> rfl
  | none =>
    have hwaiting : waiting.filter (fun row => row.channelId = k) =
        tables.candidates.filter fun row => row.channelId = k := by
      rw [List.filter_filter]
      refine List.filter_congr fun row _ => ?_
      by_cases hk : row.channelId = k
      · simp [hk, hmapping]
      · simp [hk]
    simp only [top, hwaiting]
    cases (topCandidate (tables.candidates.filter fun row => row.channelId = k)).map
      ReviewCandidate.reviewed <;> rfl

theorem mapReviewed_nodup (h : (tables.mappings.map fun mapping => mapping.channelId).Nodup) :
    (tables.mapReviewed.mappings.map fun mapping => mapping.channelId).Nodup :=
  Table.nodup_foldl_mergeRow (fun _ _ hsame => hsame) _ h

theorem mapReviewed_mapped {ids : List Store.Uuid}
    (hmapped : ∀ k ∈ tables.mappings.map (fun mapping => mapping.channelId), k ∈ ids)
    (hcandidates : ∀ row ∈ tables.candidates, row.channelId ∈ ids) :
    ∀ k ∈ tables.mapReviewed.mappings.map (fun mapping => mapping.channelId), k ∈ ids := by
  intro k hk
  rcases Table.mem_keys_foldl_mergeRow (fun _ _ hsame => hsame) hk with hk | hk
  · exact hmapped k hk
  · obtain ⟨mapping, hmapping, rfl⟩ := List.mem_map.mp hk
    obtain ⟨channelId, -, htop⟩ := List.mem_filterMap.mp hmapping
    obtain ⟨candidate, hcandidate, rfl⟩ := Option.map_eq_some_iff.mp htop
    obtain ⟨hwaiting, -⟩ := List.mem_filter.mp (topCandidate_mem hcandidate)
    exact hcandidates candidate (List.mem_filter.mp hwaiting).1

/-- The last statement, for a channel of the schema. -/
theorem removeStale_mapping (hchannels : (tables.channels.map ChannelRow.id).Nodup)
    (hkeys : (tables.mappings.map fun mapping => mapping.channelId).Nodup)
    (hmem : channel ∈ tables.channels) :
    (tables.removeStale text).1.mapping channel.id = (tables.mapping channel.id).filter
      fun mapping => mapping.reviewStatus = .manual ||
        tables.keeps text channel mapping.epgChannelId := by
  have hdeleted : (tables.removeStale text).1.mapping channel.id =
      (tables.mapping channel.id).filter fun mapping => !tables.isStale text mapping :=
    Table.find?_delete hkeys channel.id
  rw [hdeleted]
  cases hmapping : tables.mapping channel.id with
  | none => rfl
  | some mapping =>
    have hid : mapping.channelId = channel.id := by
      simpa using List.find?_some hmapping
    have hstale : tables.isStale text mapping = (decide (mapping.reviewStatus ≠ .manual) &&
        !tables.keeps text channel mapping.epgChannelId) := by
      have hany : (tables.channels.any fun other => other.id = mapping.channelId ∧
          EpgSources.isAutomatic other ∧
            tables.isMatch text other mapping.epgChannelId = false) =
          !tables.keeps text channel mapping.epgChannelId := by
        rw [Bool.eq_iff_iff, List.any_eq_true]
        constructor
        · rintro ⟨other, hother, hcond⟩
          obtain ⟨hsame, hautomatic, hmatch⟩ := of_decide_eq_true hcond
          obtain rfl := Table.eq_of_key hchannels hother hmem (hsame.trans hid)
          simp [EpgSources.keeps, hautomatic, hmatch]
        · intro hkeeps
          refine ⟨channel, hmem, decide_eq_true ⟨hid.symm, ?_⟩⟩
          simpa [EpgSources.keeps] using hkeeps
      rw [EpgTables.isStale, Bool.decide_and, Bool.decide_eq_true, hany]
    simp [Option.filter, hstale]

end Statements

/-! ## The transaction -/

section Transaction

variable {text : TextFunctions} {tables after : EpgTables} {channel : ChannelRow}
  {stats : EpgMappingStats}

/-- The statements of a successful reconciliation. -/
theorem reconcile_eq_some (h : tables.reconcileEpgMappings text = some (after, stats)) :
    ∃ tvg named aliased n₁ n₂ n₃,
      ({ tables with candidates := [] } : EpgTables).applyMappings
        (({ tables with candidates := [] } : EpgTables).tvgMatches text) = some (tvg, n₁) ∧
      tvg.applyMappings (tvg.nameMatches text) = some (named, n₂) ∧
      named.applyMappings (named.allAliasMatches text) = some (aliased, n₃) ∧
      after = ((aliased.queueReview text).1.mapReviewed.removeStale text).1 ∧
      stats.mappingsRemoved = ((aliased.queueReview text).1.mapReviewed.removeStale text).2 := by
  obtain ⟨⟨tvg, n₁⟩, htvg, h⟩ := Option.bind_eq_some_iff.mp h
  obtain ⟨⟨named, n₂⟩, hnamed, h⟩ := Option.bind_eq_some_iff.mp h
  obtain ⟨⟨aliased, n₃⟩, haliased, h⟩ := Option.bind_eq_some_iff.mp h
  obtain ⟨rfl, rfl⟩ := Prod.mk.inj (Option.some.inj h)
  exact ⟨tvg, named, aliased, n₁, n₂, n₃, htvg, hnamed, haliased, rfl, rfl⟩

/-- The tables between the statements. Each statement adds what the statements before it have
not found. -/
theorem between_statements (hvalid : tables.Valid) {tvg named : EpgTables} {n₁ n₂ : Nat}
    (htvg : ({ tables with candidates := [] } : EpgTables).applyMappings
      (({ tables with candidates := [] } : EpgTables).tvgMatches text) = some (tvg, n₁))
    (hnamed : tvg.applyMappings (tvg.nameMatches text) = some (named, n₂)) :
    named.toEpgSources = tables.toEpgSources ∧
    (∀ channel ∈ tables.channels, named.mapping channel.id =
      (if tables.isManual channel.id then tables.mapping channel.id
        else (tables.tvgMatch text channel).elim (tables.mapping channel.id) fun row =>
          some ((tables.mapping channel.id).elim row fun old => old.replace row)).or
        (tables.nameMatch text channel)) ∧
    ∀ aliased n₃, named.applyMappings (named.allAliasMatches text) = some (aliased, n₃) →
      aliased.toEpgSources = tables.toEpgSources ∧ aliased.candidates = [] ∧
      (aliased.mappings.map fun mapping => mapping.channelId).Nodup ∧
      ∀ channel ∈ tables.channels, aliased.mapping channel.id = (named.mapping channel.id).or
        (tables.aliasMatches text channel).head? := by
  obtain ⟨hs₁, hc₁⟩ := applyMappings_sources htvg
  obtain ⟨hs₂, hc₂⟩ := applyMappings_sources hnamed
  have hs₁ : tvg.toEpgSources = tables.toEpgSources := hs₁
  have hs₂ : named.toEpgSources = tables.toEpgSources := hs₂.trans hs₁
  have hkeys₂ := applyMappings_nodup hnamed (applyMappings_nodup htvg hvalid.mappings)
  refine ⟨hs₂, fun channel hmem => ?_, fun aliased n₃ haliased => ?_⟩
  · have hm₁ := tvgMatches_mapping
      (show (({ tables with candidates := [] } : EpgTables).channels.map ChannelRow.id).Nodup from
        hvalid.channels) htvg hmem
    rw [EpgTables.nameMatches, List.filterMap_eq_flatMap_toList] at hnamed
    rw [unmapped_mapping (by rw [hs₁]; exact hvalid.channels) _ hnamed (by rwa [hs₁]),
      toList_head?, hs₁, hm₁]
    · rfl
    · intro c _ mapping hmapping
      exact (nameMatch_eq_some (Option.mem_toList.mp hmapping)).1
  · obtain ⟨hs₃, hc₃⟩ := applyMappings_sources haliased
    refine ⟨hs₃.trans hs₂, (hc₃.trans hc₂).trans hc₁, applyMappings_nodup haliased hkeys₂, ?_⟩
    intro channel hmem
    rw [unmapped_mapping (by rw [hs₂]; exact hvalid.channels)
      (fun c _ mapping hmapping => (mem_aliasMatches hmapping).1) haliased (by rwa [hs₂]), hs₂]

/-- A channel that the first two statements leave without a mapping. -/
theorem open_iff : (if tables.isManual channel.id then tables.mapping channel.id
      else (tables.tvgMatch text channel).elim (tables.mapping channel.id) fun row =>
        some ((tables.mapping channel.id).elim row fun old => old.replace row)).or
      (tables.nameMatch text channel) = none ↔
    tables.mapping channel.id = none ∧ tables.tvgMatch text channel = none ∧
      tables.nameMatch text channel = none := by
  rw [EpgTables.isManual, Option.or_eq_none_iff]
  cases hmapping : tables.mapping channel.id with
  | none => cases tables.tvgMatch text channel <;> simp
  | some mapping =>
    by_cases hmanual : mapping.reviewStatus = .manual
    · simp [hmanual]
    · cases tables.tvgMatch text channel <;> simp [hmanual]

/-- What a channel has before the last statement. -/
def EpgSources.proposed (text : TextFunctions) (sources : EpgSources) (channel : ChannelRow) :
    Option EpgMapping → Option EpgMapping
  | none => sources.firstMatch text channel
  | some mapping =>
    if mapping.reviewStatus = .manual then some mapping
    else (sources.tvgMatch text channel).elim (some mapping) fun new => some (mapping.replace new)

theorem decision_eq_filter {sources : EpgSources} (old : Option EpgMapping) :
    sources.decision text channel old = (sources.proposed text channel old).filter
      fun mapping => mapping.reviewStatus = .manual ||
        sources.keeps text channel mapping.epgChannelId := by
  cases old with
  | none =>
    change sources.firstMatch text channel = (sources.firstMatch text channel).filter _
    cases hfound : sources.firstMatch text channel with
    | none => rfl
    | some mapping => simp [Option.filter, keeps_of_isMatch (firstMatch_eq_some hfound).2.2]
  | some mapping =>
    by_cases hmanual : mapping.reviewStatus = .manual
    · simp [EpgSources.decision, EpgSources.proposed, hmanual, Option.filter]
    · cases hfound : sources.tvgMatch text channel with
      | none => simp [EpgSources.decision, EpgSources.proposed, hmanual, hfound, Option.filter]
      | some new =>
        have hkeeps := keeps_of_isMatch (tvgMatch_eq_some hfound).2.2
        simp [EpgSources.decision, EpgSources.proposed, hmanual, hfound, Option.filter,
          replace_epgChannelId hmanual, hkeeps]

/-- The tables before the last statement. -/
theorem before_removal (hvalid : tables.Valid)
    (h : tables.reconcileEpgMappings text = some (after, stats)) :
    ∃ before : EpgTables, after = (before.removeStale text).1 ∧
      stats.mappingsRemoved = (before.removeStale text).2 ∧
      before.toEpgSources = tables.toEpgSources ∧
      (before.mappings.map fun mapping => mapping.channelId).Nodup ∧
      (∀ k ∈ before.mappings.map (fun mapping => mapping.channelId),
        k ∈ tables.channels.map ChannelRow.id) ∧
      ∀ channel ∈ tables.channels, before.mapping channel.id =
        tables.proposed text channel (tables.mapping channel.id) := by
  obtain ⟨tvg, named, aliased, n₁, n₂, n₃, htvg, hnamed, haliased, rfl, hremoved⟩ :=
    reconcile_eq_some h
  obtain ⟨hs₂, hm₂, hbehind⟩ := between_statements hvalid htvg hnamed
  obtain ⟨hs₃, hc₃, hkeys₃, hm₃⟩ := hbehind aliased n₃ haliased
  refine ⟨(aliased.queueReview text).1.mapReviewed, rfl, hremoved, hs₃, mapReviewed_nodup hkeys₃,
    ?_, fun channel hmem => ?_⟩
  · have hs₁ : tvg.toEpgSources = tables.toEpgSources := (applyMappings_sources htvg).1
    have hmem_unmapped : ∀ other : EpgTables, other.toEpgSources = tables.toEpgSources →
        ∀ channel ∈ other.unmapped, channel.id ∈ tables.channels.map ChannelRow.id := by
      intro other hother channel hchannel
      rw [← hother]
      exact List.mem_map_of_mem (List.mem_filter.mp hchannel).1
    have hmapped₁ := applyMappings_mapped htvg hvalid.mapped fun mapping hmapping => by
      obtain ⟨channel, hchannel, hmapping⟩ := List.mem_filterMap.mp hmapping
      rw [(tvgMatch_eq_some hmapping).1]
      exact List.mem_map_of_mem (List.mem_filter.mp hchannel).1
    have hmapped₂ := applyMappings_mapped hnamed hmapped₁ fun mapping hmapping => by
      obtain ⟨channel, hchannel, hmapping⟩ := List.mem_filterMap.mp hmapping
      rw [(nameMatch_eq_some hmapping).1]
      exact hmem_unmapped tvg hs₁ channel hchannel
    have hmapped₃ := applyMappings_mapped haliased hmapped₂ fun mapping hmapping => by
      obtain ⟨channel, hchannel, hmapping⟩ := List.mem_flatMap.mp hmapping
      rw [(mem_aliasMatches hmapping).1]
      exact hmem_unmapped named hs₂ channel hchannel
    refine mapReviewed_mapped hmapped₃ fun row hrow => ?_
    rw [queueReview_candidates (by rw [hs₃]; exact hvalid.channels)
      (by rw [hs₃]; exact hvalid.epgChannels) hc₃] at hrow
    obtain ⟨channel, hchannel, hrow⟩ := List.mem_flatMap.mp hrow
    rw [(mem_ambiguousMatches hrow).1]
    exact hmem_unmapped aliased hs₃ channel hchannel
  have hm₄ : (aliased.queueReview text).1.mapReviewed.mapping channel.id =
      (aliased.mapping channel.id).or (tables.reviewMatch text channel) := by
    rw [mapReviewed_mapping, queueReview_filter (by rw [hs₃]; exact hvalid.channels)
      (by rw [hs₃]; exact hvalid.epgChannels) hc₃ (by rwa [hs₃]), EpgTables.isMapped]
    change (aliased.mapping channel.id).or _ = _
    cases aliased.mapping channel.id with
    | none => rw [if_neg (by simp), EpgSources.reviewMatch, hs₃]
    | some mapping => rfl
  rw [hm₄, hm₃ channel hmem, hm₂ channel hmem, EpgTables.isManual]
  cases hmapping : tables.mapping channel.id with
  | none =>
    simp only [Option.any_none, Bool.false_eq_true, if_false, Option.elim_none,
      EpgSources.proposed, EpgSources.firstMatch]
    rw [Option.or_assoc, Option.or_assoc]
    cases tables.tvgMatch text channel <;> rfl
  | some mapping =>
    by_cases hmanual : mapping.reviewStatus = .manual
    · simp [EpgSources.proposed, hmanual]
    · cases hfound : tables.tvgMatch text channel <;> simp [EpgSources.proposed, hmanual, hfound]

/-- The mapping of a channel behind the transaction is decided by its mapping before. -/
theorem mapping_reconciled (hvalid : tables.Valid)
    (h : tables.reconcileEpgMappings text = some (after, stats))
    (hmem : channel ∈ tables.channels) :
    after.mapping channel.id = tables.decision text channel (tables.mapping channel.id) := by
  obtain ⟨before, rfl, -, hsources, hkeys, -, hmapping⟩ := before_removal hvalid h
  rw [removeStale_mapping (by rw [hsources]; exact hvalid.channels) hkeys (by rwa [hsources]),
    hmapping channel hmem, hsources, decision_eq_filter]

/-- The candidates that wait behind the transaction. -/
theorem candidates_reconciled (hvalid : tables.Valid)
    (h : tables.reconcileEpgMappings text = some (after, stats))
    (hmem : channel ∈ tables.channels) :
    after.candidates.filter (fun row => row.channelId = channel.id) =
      if tables.mapping channel.id = none ∧ tables.tvgMatch text channel = none ∧
          tables.nameMatch text channel = none ∧ tables.aliasMatches text channel = [] then
        tables.ambiguousMatches text channel
      else [] := by
  obtain ⟨tvg, named, aliased, n₁, n₂, n₃, htvg, hnamed, haliased, rfl, -⟩ := reconcile_eq_some h
  obtain ⟨-, hm₂, hbehind⟩ := between_statements hvalid htvg hnamed
  obtain ⟨hs₃, hc₃, -, hm₃⟩ := hbehind aliased n₃ haliased
  have hopen : aliased.isMapped channel = false ↔ tables.mapping channel.id = none ∧
      tables.tvgMatch text channel = none ∧ tables.nameMatch text channel = none ∧
        tables.aliasMatches text channel = [] := by
    rw [EpgTables.isMapped, Option.isSome_eq_false_iff, Option.isNone_iff_eq_none,
      hm₃ channel hmem, Option.or_eq_none_iff, hm₂ channel hmem, open_iff, List.head?_eq_none_iff,
      and_assoc, and_assoc]
  refine (queueReview_filter (by rw [hs₃]; exact hvalid.channels)
    (by rw [hs₃]; exact hvalid.epgChannels) hc₃ (by rwa [hs₃])).trans ?_
  rw [← if_congr hopen rfl rfl, hs₃]
  cases aliased.isMapped channel <;> rfl

/-- Only aliases can make a reconciliation fail. -/
theorem reconcile_eq_none_iff (hvalid : tables.Valid) :
    tables.reconcileEpgMappings text = none ↔ ∃ channel ∈ tables.channels,
      tables.mapping channel.id = none ∧ tables.aliasClash text channel = true := by
  obtain ⟨⟨tvg, n₁⟩, htvg⟩ : ∃ tvg, ({ tables with candidates := [] } : EpgTables).applyMappings
      (({ tables with candidates := [] } : EpgTables).tvgMatches text) = some tvg := by
    rw [← Option.ne_none_iff_exists', Ne, applyMappings_eq_none, not_not]
    exact nodup_matches (hvalid.channels.sublist (List.filter_sublist.map _))
      fun c mapping hmapping => (tvgMatch_eq_some hmapping).1
  have hs₁ : tvg.toEpgSources = tables.toEpgSources := (applyMappings_sources htvg).1
  obtain ⟨⟨named, n₂⟩, hnamed⟩ : ∃ named,
      tvg.applyMappings (tvg.nameMatches text) = some named := by
    rw [← Option.ne_none_iff_exists', Ne, applyMappings_eq_none, not_not]
    exact nodup_matches (nodup_unmapped (by rw [hs₁]; exact hvalid.channels))
      fun c mapping hmapping => (nameMatch_eq_some hmapping).1
  obtain ⟨hs₂, hm₂, -⟩ := between_statements hvalid htvg hnamed
  have hopen : ∀ channel ∈ tables.channels, named.mapping channel.id = none ↔
      tables.mapping channel.id = none ∧ tables.tvgMatch text channel = none ∧
        tables.nameMatch text channel = none :=
    fun channel hmem => by rw [hm₂ channel hmem, open_iff]
  have hfails : tables.reconcileEpgMappings text = none ↔
      named.applyMappings (named.allAliasMatches text) = none := by
    simp only [EpgTables.reconcileEpgMappings, htvg, hnamed, Option.bind_eq_bind, Option.bind_some]
    cases named.applyMappings (named.allAliasMatches text) with
    | none => simp
    | some aliased => simp
  rw [hfails, applyMappings_eq_none,
    allAliasMatches_nodup_iff (by rw [hs₂]; exact hvalid.channels)]
  simp only [EpgTables.unmapped, EpgTables.isMapped, List.mem_filter, hs₂]
  constructor
  · intro h
    push Not at h
    obtain ⟨channel, ⟨hmem, hunmapped⟩, hlong⟩ := h
    have hnone : named.mapping channel.id = none := by simpa using hunmapped
    obtain ⟨hmapping, htvg, hname⟩ := (hopen channel hmem).mp hnone
    exact ⟨channel, hmem, hmapping, decide_eq_true ⟨htvg, hname, hlong⟩⟩
  · rintro ⟨channel, hmem, hmapping, hclash⟩ h
    obtain ⟨htvg, hname, hlong⟩ := of_decide_eq_true hclash
    have hnone := (hopen channel hmem).mpr ⟨hmapping, htvg, hname⟩
    exact absurd (h channel ⟨hmem, by simp [hnone]⟩) (Nat.not_le.mpr hlong)

end Transaction

end IptvRelay.Guide.EpgMappings
