import IptvRelay.Playback.StreamHealth

/-!
# The order of quality

What the ranking statements leave: the ranks of a channel are those of its streams in the order
of their size, their health and the priority of their link. Ranks are no input of the ranking,
so one statement for all channels does what a statement for each channel does.
-/

namespace IptvRelay.Playback

namespace StreamTables

variable {tables other : StreamTables} {channelId streamId : Uuid} {link : ChannelStream}
  {stream : ProviderStream}

/-! ## Positions -/

theorem find_eq_some (h : tables.find streamId = some stream) :
    stream ∈ tables.streams ∧ stream.id = streamId :=
  ⟨List.mem_of_find?_eq_some h, by simpa using List.find?_some h⟩

theorem mem_joinedStreams {joined : Joined} :
    joined ∈ tables.joinedStreams channelId ↔ ∃ link ∈ tables.links, link.channelId = channelId ∧
      tables.find link.providerStreamId = some joined.2 ∧ link.priority = joined.1 := by
  simp only [joinedStreams, List.mem_filterMap, List.mem_filter, Option.map_eq_some_iff]
  constructor
  · rintro ⟨link, ⟨hlink, hchannel⟩, stream, hstream, rfl⟩
    exact ⟨link, hlink, of_decide_eq_true hchannel, hstream, rfl⟩
  · rintro ⟨link, hlink, hchannel, hstream, hpriority⟩
    exact ⟨link, ⟨hlink, decide_eq_true hchannel⟩, joined.2, hstream, by rw [hpriority]⟩

/-- A column of the links of a channel, of those that have a stream. -/
theorem joinedStreams_sublist {β : Type} (column : ChannelStream → β) (value : Joined → β)
    (hsame : ∀ link ∈ tables.links, ∀ stream, tables.find link.providerStreamId = some stream →
      value (link.priority, stream) = column link) :
    ((tables.joinedStreams channelId).map value).Sublist
      ((tables.links.filter fun link => link.channelId = channelId).map column) := by
  have hall : ∀ links : List ChannelStream, (∀ link ∈ links, link ∈ tables.links) →
      ((links.filterMap fun link => (tables.find link.providerStreamId).map fun stream =>
        (link.priority, stream)).map value).Sublist (links.map column) := by
    intro links hlinks
    induction links with
    | nil => exact .slnil
    | cons link rest ih =>
      have hrest := ih fun other hother => hlinks other (List.mem_cons_of_mem _ hother)
      cases hstream : tables.find link.providerStreamId with
      | none =>
        rw [List.filterMap_cons_none (by rw [hstream]; rfl)]
        exact hrest.cons _
      | some stream =>
        rw [List.filterMap_cons_some (by rw [hstream]; rfl), List.map_cons, List.map_cons,
          hsame link (hlinks link List.mem_cons_self) stream hstream]
        exact hrest.cons_cons _
  exact hall _ fun link hlink => (List.mem_filter.mp hlink).1

/-- A column that the schema keeps unique among the links of a channel. -/
theorem nodup_column {β : Type} {column : ChannelStream → β}
    (h : (tables.links.map fun link => (link.channelId, column link)).Nodup) :
    ((tables.links.filter fun link => link.channelId = channelId).map column).Nodup := by
  refine List.Nodup.map_on ?_ ((List.Nodup.of_map _ h).filter _)
  intro a ha b hb hsame
  obtain ⟨ha, hchannel⟩ := List.mem_filter.mp ha
  obtain ⟨hb, hchannel'⟩ := List.mem_filter.mp hb
  have hsame' : a.channelId = b.channelId :=
    (of_decide_eq_true hchannel).trans (of_decide_eq_true hchannel').symm
  exact List.inj_on_of_nodup_map h ha hb (Prod.ext hsame' hsame)

theorem nodup_ids (h : tables.Valid) :
    ((tables.joinedStreams channelId).map fun joined => joined.2.id).Nodup :=
  (nodup_column h.links).sublist (joinedStreams_sublist ChannelStream.providerStreamId _
    fun _ _ _ hstream => (find_eq_some hstream).2)

theorem nodup_keys (h : tables.Valid) :
    ((tables.joinedStreams channelId).map rankKey).Nodup := by
  have hpriorities : ((tables.joinedStreams channelId).map Prod.fst).Nodup :=
    (nodup_column h.priorities).sublist
      (joinedStreams_sublist ChannelStream.priority _ fun _ _ _ _ => rfl)
  refine List.Nodup.map_on ?_ (List.Nodup.of_map _ hpriorities)
  intro a ha b hb hsame
  have hkey := congrArg (fun key : RankKey => (ofLex (ofLex key).2).2) hsame
  exact List.inj_on_of_nodup_map hpriorities ha hb hkey

theorem rankedStreams_strict (h : tables.Valid) :
    (tables.rankedStreams channelId).Pairwise fun a b => rankKey a < rankKey b :=
  Sorting.sortBy_strict (nodup_keys h)

/-- The rank of a stream counts from one. -/
theorem newRank_eq_some (h : tables.Valid) {joined : Joined}
    (hmem : joined ∈ tables.joinedStreams channelId) :
    ∃ i, tables.newRank channelId joined.2.id = some (i + 1) ∧
      (tables.rankedStreams channelId)[i]? = some joined := by
  have hmem' : joined ∈ tables.rankedStreams channelId :=
    (Sorting.sortBy_perm _ _).mem_iff.mpr hmem
  have hids : ((tables.rankedStreams channelId).map fun joined => joined.2.id).Nodup :=
    ((Sorting.sortBy_perm rankKey _).map _).nodup_iff.mpr (nodup_ids h)
  cases hfound : (tables.rankedStreams channelId).findIdx?
      fun other => other.2.id = joined.2.id with
  | none =>
    have hall := List.findIdx?_eq_none_iff.mp hfound joined hmem'
    simp at hall
  | some i =>
    obtain ⟨hi, hsame, -⟩ := List.findIdx?_eq_some_iff_getElem.mp hfound
    refine ⟨i, by rw [newRank, hfound]; rfl, List.getElem?_eq_some_iff.mpr ⟨hi, ?_⟩⟩
    exact List.inj_on_of_nodup_map hids (List.getElem_mem hi) hmem' (of_decide_eq_true hsame)

/-! ## Ranks -/

/-- The link of a channel with its stream. -/
theorem joined_of_link (h : tables.Valid) (hlink : link ∈ tables.links) :
    ∃ stream, tables.find link.providerStreamId = some stream ∧
      (link.priority, stream) ∈ tables.joinedStreams link.channelId := by
  obtain ⟨stream, hstream, hid⟩ := List.mem_map.mp (h.references link hlink)
  have hfind : tables.find link.providerStreamId = some stream := by
    rw [← hid]
    exact Table.find?_of_key h.streams hstream
  exact ⟨stream, hfind, mem_joinedStreams.mpr ⟨link, hlink, rfl, hfind, rfl⟩⟩

theorem rerank_qualityRank (h : tables.Valid) (hlink : link ∈ tables.links)
    (hstream : tables.find link.providerStreamId = some stream) :
    ∃ i, (tables.rerank link).qualityRank = i + 1 ∧
      (tables.rankedStreams link.channelId)[i]? = some (link.priority, stream) := by
  obtain ⟨found, hfound, hmem⟩ := joined_of_link h hlink
  obtain rfl := Option.some.inj (hstream.symm.trans hfound)
  obtain ⟨i, hrank, hi⟩ := newRank_eq_some h hmem
  refine ⟨i, ?_, hi⟩
  rw [rerank, ← (find_eq_some hstream).2, hrank]

/-- A better stream of a channel has the smaller rank. -/
theorem rerank_lt_iff (h : tables.Valid) {a b : ChannelStream} (ha : a ∈ tables.links)
    (hb : b ∈ tables.links) (hchannel : a.channelId = b.channelId) {s t : ProviderStream}
    (hs : tables.find a.providerStreamId = some s) (ht : tables.find b.providerStreamId = some t) :
    (tables.rerank a).qualityRank < (tables.rerank b).qualityRank ↔
      rankKey (a.priority, s) < rankKey (b.priority, t) := by
  obtain ⟨i, hi, hai⟩ := rerank_qualityRank h ha hs
  obtain ⟨j, hj, hbj⟩ := rerank_qualityRank h hb ht
  rw [hchannel] at hai
  rw [hi, hj, Nat.add_lt_add_iff_right]
  exact Sorting.lt_iff_of_strict (rankedStreams_strict h) hai hbj

@[simp] theorem rerank_channelId : (tables.rerank link).channelId = link.channelId := by
  unfold rerank
  split
  · rfl
  · rfl

@[simp] theorem rerank_providerStreamId :
    (tables.rerank link).providerStreamId = link.providerStreamId := by
  unfold rerank
  split
  · rfl
  · rfl

@[simp] theorem rerank_priority : (tables.rerank link).priority = link.priority := by
  unfold rerank
  split
  · rfl
  · rfl

theorem rerank_rerank : tables.rerank (tables.rerank link) = tables.rerank link := by
  cases hrank : tables.newRank link.channelId link.providerStreamId with
  | none => simp [rerank, hrank]
  | some rank => simp [rerank, hrank]

/-! ## Channels one by one -/

/-- Tables that differ in ranks only. -/
structure SameButRanks (tables other : StreamTables) : Prop where
  streams : other.streams = tables.streams
  links : other.links.map (fun link => (link.channelId, link.providerStreamId, link.priority)) =
    tables.links.map fun link => (link.channelId, link.providerStreamId, link.priority)

theorem SameButRanks.joinedStreams (h : SameButRanks tables other) :
    other.joinedStreams channelId = tables.joinedStreams channelId := by
  have hjoin : ∀ t : StreamTables, t.joinedStreams channelId =
      ((t.links.map fun link => (link.channelId, link.providerStreamId, link.priority)).filter
        fun columns => columns.1 = channelId).filterMap fun columns =>
          (t.find columns.2.1).map fun stream => (columns.2.2, stream) := by
    intro t
    rw [StreamTables.joinedStreams, List.filter_map, List.filterMap_map]
    rfl
  have hfind : other.find = tables.find := by
    funext id
    rw [find, h.streams, find]
  rw [hjoin, hjoin, h.links, hfind]

theorem SameButRanks.rerank (h : SameButRanks tables other) :
    other.rerank link = tables.rerank link := by
  simp only [StreamTables.rerank, newRank, rankedStreams, h.joinedStreams]

theorem SameButRanks.rankChannel (tables : StreamTables) (channelId : Uuid) :
    SameButRanks tables (tables.rankChannelStreamsByQuality channelId) where
  streams := rfl
  links := Table.map_update fun link _ => by simp

theorem SameButRanks.trans {last : StreamTables} (h : SameButRanks tables other)
    (hlast : SameButRanks other last) : SameButRanks tables last :=
  ⟨hlast.streams.trans h.streams, hlast.links.trans h.links⟩

/-- Ranking one channel after the other. -/
theorem foldl_rankChannel (channels : List Uuid) (tables : StreamTables) :
    SameButRanks tables (channels.foldl rankChannelStreamsByQuality tables) ∧
    (channels.foldl rankChannelStreamsByQuality tables).checks = tables.checks ∧
    (channels.foldl rankChannelStreamsByQuality tables).measurements = tables.measurements ∧
    (channels.foldl rankChannelStreamsByQuality tables).links =
      tables.links.map fun link => if link.channelId ∈ channels then tables.rerank link else link := by
  induction channels generalizing tables with
  | nil => exact ⟨⟨rfl, rfl⟩, rfl, rfl, by simp⟩
  | cons channel rest ih =>
    have hfirst := SameButRanks.rankChannel tables channel
    obtain ⟨hsame, hchecks, hmeasurements, hlinks⟩ := ih (tables.rankChannelStreamsByQuality channel)
    have hrerank : (tables.rankChannelStreamsByQuality channel).rerank = tables.rerank :=
      funext fun link => hfirst.rerank
    rw [hrerank] at hlinks
    refine ⟨hfirst.trans hsame, hchecks, hmeasurements, ?_⟩
    rw [List.foldl_cons, hlinks, rankChannelStreamsByQuality, Table.update, List.map_map]
    refine List.map_congr_left fun link _ => ?_
    by_cases hchannel : link.channelId = channel
    · simp [hchannel, rerank_rerank]
    · simp [hchannel]

end StreamTables

open StreamTables

/-- One statement for all channels leaves the ranks that a statement for each channel leaves. -/
theorem rankAll_eq_foldl (tables : StreamTables) :
    tables.rankAllChannelStreamsByQuality =
      (tables.links.map ChannelStream.channelId).foldl rankChannelStreamsByQuality tables := by
  obtain ⟨hsame, hchecks, hmeasurements, hlinks⟩ :=
    foldl_rankChannel (tables.links.map ChannelStream.channelId) tables
  have hall : tables.links.map tables.rerank = tables.links.map fun link =>
      if link.channelId ∈ tables.links.map ChannelStream.channelId then tables.rerank link
      else link :=
    List.map_congr_left fun link hlink => (if_pos (List.mem_map_of_mem hlink)).symm
  rw [rankAllChannelStreamsByQuality, hall, ← hlinks, ← hsame.streams]
  cases hfold : (tables.links.map ChannelStream.channelId).foldl rankChannelStreamsByQuality tables
  rw [hfold] at hchecks hmeasurements
  rw [← hchecks, ← hmeasurements]

end IptvRelay.Playback
