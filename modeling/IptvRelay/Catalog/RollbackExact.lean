import IptvRelay.Catalog.Candidates
import IptvRelay.Catalog.RestoredChannels

/-!
# When a rollback restores its revision

The rollback of a revision whose streams and guide channels are still there restores it exactly if
its channel numbers are free when their turn comes. They are not free for the channels of the
revision that come too early, and for those that a detached channel has kept.
-/

namespace IptvRelay.Catalog

open Store (Uuid)
open Checked

/-! ## What a rollback is to do -/

/-- A channel of another account. -/
def ChannelRow.isForeign (account : Uuid) (row : ChannelRow) : Bool :=
  decide (row.account ≠ none ∧ row.account ≠ some account)

namespace CatalogState

def foreignChannels (account : Uuid) (state : CatalogState) : List ChannelRow :=
  state.channels.rows.filter (ChannelRow.isForeign account)

def foreignLinks (account : Uuid) (state : CatalogState) : List LinkRow :=
  state.links.rows.filter fun link =>
    link.channelId ∈ (state.foreignChannels account).map ChannelRow.id

def foreignMappings (account : Uuid) (state : CatalogState) : List EpgMappingRow :=
  state.mappings.rows.filter fun mapping =>
    mapping.channelId ∈ (state.foreignChannels account).map ChannelRow.id

end CatalogState

/-- The tables after a rollback: the snapshot for the account, and the others as before. -/
structure RolledBack (account : Uuid) (snapshot : ReconciliationSnapshot)
    (before after : CatalogState) : Prop where
  capture : after.capture account = snapshot
  channels : after.foreignChannels account = before.foreignChannels account
  links : after.foreignLinks account = before.foreignLinks account
  mappings : after.foreignMappings account = before.foreignMappings account

/-- A channel that the rollback deletes. -/
def CatalogState.isRemoved (state : CatalogState) (account : Uuid) (targets : List Uuid)
    (row : ChannelRow) : Prop :=
  row.isExtra account targets = true ∧ row.id ∉ state.dependents

/-- The numbers of the snapshot are free when their turn comes, the keys as well, its channels
belong to no other account, and its streams and guide channels exist. -/
structure Fits (account : Uuid) (snapshot : ReconciliationSnapshot) (state : CatalogState) :
    Prop where
  outside : ∀ row ∈ state.channels.rows, row.id ∉ snapshot.ids →
    ¬state.isRemoved account snapshot.ids row →
      ∀ channel ∈ snapshot.channels, row.channelNumber ≠ channel.channelNumber
  order : ∀ channel ∈ snapshot.channels, ∀ row ∈ state.channels.rows, row.id ∈ snapshot.ids →
    channel.id < row.id → row.channelNumber ≠ channel.channelNumber
  keys : ∀ channel ∈ snapshot.channels, ∀ row ∈ state.channels.rows,
    row.account = some account → row.canonicalKey = channel.canonicalKey →
      row.canonicalKey ≠ none →
        row.isExtra account snapshot.ids = true ∨ (row.id ∈ snapshot.ids ∧ ¬channel.id < row.id)
  foreign : ∀ row ∈ state.channels.rows, row.id ∈ snapshot.ids →
    row.isForeign account = false
  streams : ∀ link ∈ snapshot.streamLinks, link.providerStreamId ∈ state.streams
  epgChannels : ∀ mapping ∈ snapshot.epgMappings, mapping.epgChannelId ∈ state.epgChannels

instance (state : CatalogState) (account : Uuid) (targets : List Uuid) (row : ChannelRow) :
    Decidable (state.isRemoved account targets row) := inferInstanceAs (Decidable (_ ∧ _))

section Rollback

variable {sequence : NumberSequence} {account : Uuid} {snapshot : ReconciliationSnapshot}
  {state : CatalogState}

/-! ## The cleared tables -/

theorem isAutomatic_detach (row : ChannelRow) : row.detach.isAutomatic account = false :=
  decide_eq_false fun h => nomatch h.1

theorem not_isForeign_of_isAutomatic {row : ChannelRow} (h : row.isAutomatic account = true) :
    row.isForeign account = false :=
  decide_eq_false fun hforeign => hforeign.2 (of_decide_eq_true h).1

theorem isExtra_cases {targets : List Uuid} {row : ChannelRow} :
    row.isExtra account targets = true ↔ row.isAutomatic account = true ∧ row.id ∉ targets := by
  unfold ChannelRow.isExtra
  rw [Bool.and_eq_true, decide_eq_true_iff]

/-- A channel stays as it is or is detached. -/
theorem mem_clearTargets {targets : List Uuid} {row : ChannelRow} :
    row ∈ (clearTargets account state targets).channels.rows ↔
      (row ∈ state.channels.rows ∧ row.isExtra account targets = false) ∨
      ∃ old ∈ state.channels.rows, old.isExtra account targets = true ∧
        old.id ∈ state.dependents ∧ row = old.detach := by
  have hdetached : ∀ old : ChannelRow, old.detach.isExtra account targets = false := fun old => by
    unfold ChannelRow.isExtra
    rw [isAutomatic_detach, Bool.false_and]
  refine Table.mem_delete.trans ⟨?_, ?_⟩
  · rintro ⟨hmem, hkept⟩
    rcases Table.update_cases hmem with ⟨hold, -⟩ | ⟨old, hold, hpreserved, rfl⟩
    · exact .inl ⟨hold, hkept⟩
    · obtain ⟨hextra, hdependents⟩ := Bool.and_eq_true_iff.mp hpreserved
      exact .inr ⟨old, hold, hextra, of_decide_eq_true hdependents, rfl⟩
  · rintro (⟨hold, hkept⟩ | ⟨old, hold, hextra, hdependents, rfl⟩)
    · refine ⟨Table.mem_update.mpr ⟨row, hold, if_neg ?_⟩, hkept⟩
      rw [hkept]
      exact Bool.false_ne_true
    · refine ⟨Table.mem_update.mpr ⟨old, hold, if_pos ?_⟩, hdetached old⟩
      rw [hextra, decide_eq_true hdependents]
      rfl

/-- The channels of the snapshot are not touched. -/
theorem mem_clearTargets_of_target {targets : List Uuid} {row : ChannelRow}
    (hrow : row.id ∈ targets) :
    row ∈ (clearTargets account state targets).channels.rows ↔ row ∈ state.channels.rows := by
  rw [mem_clearTargets]
  constructor
  · rintro (⟨hmem, -⟩ | ⟨old, -, hextra, -, rfl⟩)
    · exact hmem
    · exact absurd hrow (isExtra_cases.mp hextra).2
  · intro hmem
    refine .inl ⟨hmem, Bool.eq_false_iff.mpr fun hextra => ?_⟩
    exact (isExtra_cases.mp hextra).2 hrow

/-- What the tables before must leave free is what the cleared tables must. -/
theorem fitting_clearTargets (h : Fits account snapshot state) :
    Fitting account (clearTargets account state snapshot.ids).channels snapshot.channels := by
  refine ⟨?_, ?_, ?_⟩
  · intro row hrow hout channel hchannel
    rcases mem_clearTargets.mp hrow with ⟨hold, hkept⟩ | ⟨old, hold, hextra, hdependents, rfl⟩
    · refine h.outside row hold hout (fun hremoved => ?_) channel hchannel
      rw [hremoved.1] at hkept
      cases hkept
    · exact h.outside old hold hout (fun hremoved => hremoved.2 hdependents) channel hchannel
  · intro channel hchannel row hrow hin hlt
    exact h.order channel hchannel row ((mem_clearTargets_of_target hin).mp hrow) hin hlt
  · intro channel hchannel key hkey row hrow hheld
    rcases mem_clearTargets.mp hrow with ⟨hold, hkept⟩ | ⟨old, -, -, -, rfl⟩
    · obtain ⟨haccount, hrowKey⟩ := ChannelRow.ownedKey_eq_some.mp hheld
      have hsome : row.canonicalKey ≠ none := fun hnone => nomatch hrowKey.symm.trans hnone
      refine (h.keys channel hchannel row hold haccount (hrowKey.trans hkey.symm)
        hsome).resolve_left fun hextra => ?_
      rw [hextra] at hkept
      cases hkept
    · cases hheld

/-- Back from the cleared tables to the tables before. -/
theorem fits_of_fitting
    (h : Fitting account (clearTargets account state snapshot.ids).channels snapshot.channels)
    (hforeign : ∀ row ∈ state.channels.rows, row.id ∈ snapshot.ids →
      row.isForeign account = false)
    (hstreams : ∀ link ∈ snapshot.streamLinks, link.providerStreamId ∈ state.streams)
    (hepgChannels : ∀ mapping ∈ snapshot.epgMappings, mapping.epgChannelId ∈ state.epgChannels) :
    Fits account snapshot state := by
  refine ⟨?_, ?_, ?_, hforeign, hstreams, hepgChannels⟩
  · intro row hrow hout hstays channel hchannel
    cases hextra : row.isExtra account snapshot.ids with
    | false =>
      exact h.outside row (mem_clearTargets.mpr (.inl ⟨hrow, hextra⟩)) hout channel hchannel
    | true =>
      have hdependents : row.id ∈ state.dependents :=
        not_not.mp fun hnone => hstays ⟨hextra, hnone⟩
      exact h.outside row.detach
        (mem_clearTargets.mpr (.inr ⟨row, hrow, hextra, hdependents, rfl⟩)) hout channel hchannel
  · intro channel hchannel row hrow hin hlt
    exact h.order channel hchannel row ((mem_clearTargets_of_target hin).mpr hrow) hin hlt
  · intro channel hchannel row hrow haccount hkey hsome
    cases hextra : row.isExtra account snapshot.ids with
    | true => exact .inl rfl
    | false =>
      obtain ⟨key, hrowKey⟩ := Option.ne_none_iff_exists'.mp hsome
      exact .inr (h.keys channel hchannel key (hkey.symm.trans hrowKey) row
        (mem_clearTargets.mpr (.inl ⟨hrow, hextra⟩))
        (ChannelRow.ownedKey_eq_some.mpr ⟨haccount, hrowKey⟩))

/-- No channel of another account is detached or removed. -/
theorem foreignChannels_clearTargets (targets : List Uuid) :
    (clearTargets account state targets).foreignChannels account =
      state.foreignChannels account := by
  have hextra : ∀ row : ChannelRow, row.isExtra account targets = true →
      row.isForeign account = false := fun row h =>
    not_isForeign_of_isAutomatic (isExtra_cases.mp h).1
  refine (Table.filter_delete_of_disjoint fun row _ h => hextra row h).trans
    (Table.filter_update_of_disjoint fun row _ h => ⟨?_, decide_eq_false fun h => h.1 rfl⟩)
  exact hextra row (Bool.and_eq_true_iff.mp h).1

/-! ## Links and mappings -/

/-- Links with new keys and places, whose channels and streams exist, are appended. -/
theorem restoreLinks_total {channels : Channels} {streams : List Uuid} {links : Links}
    {todo : List LinkRow}
    (hexists : ∀ link ∈ todo, link.channelId ∈ channels.rows.map ChannelRow.id ∧
      link.providerStreamId ∈ streams)
    (hkeys : ((links.rows ++ todo).map LinkRow.key).Nodup)
    (hplaces : ((links.rows ++ todo).map LinkRow.place).Nodup) :
    ∃ last, todo.foldlM (restoreLink channels streams) links = .ok last ∧
      last.rows = links.rows ++ todo := by
  induction todo generalizing links with
  | nil => exact ⟨links, rfl, (List.append_nil _).symm⟩
  | cons link todo ih =>
    have hsplit : links.rows ++ link :: todo = (links.rows ++ [link]) ++ todo := by simp
    rw [hsplit] at hkeys hplaces ⊢
    have hnew : link.key ∉ links.rows.map LinkRow.key := by
      have hfirst := hkeys.sublist ((List.sublist_append_left _ todo).map LinkRow.key)
      rw [List.map_append] at hfirst
      exact fun hmem => List.disjoint_of_nodup_append hfirst hmem List.mem_cons_self
    have hrows := Table.upsert_of_new hnew
    have hfree : ((Table.upsert LinkRow.key links.rows link).map LinkRow.place).Nodup := by
      rw [hrows]
      exact hplaces.sublist ((List.sublist_append_left _ todo).map LinkRow.place)
    have hturn : restoreLink channels streams links link =
        .ok ⟨_, Table.nodup_upsert links.keys, hfree⟩ := by
      unfold restoreLink Links.upsert
      rw [ensure_bind (hexists link List.mem_cons_self), dif_pos hfree]
    rw [← hrows] at hkeys hplaces ⊢
    rw [List.foldlM_cons, hturn]
    exact ih (fun other hother => hexists other (List.mem_cons_of_mem _ hother)) hkeys hplaces

theorem restoreMappings_total {channels : Channels} {epgChannels : List Uuid}
    {mappings : Mappings} {todo : List SnapshotEpgMapping}
    (hexists : ∀ mapping ∈ todo, mapping.channelId ∈ channels.rows.map ChannelRow.id ∧
      mapping.epgChannelId ∈ epgChannels)
    (hnew : (todo.map SnapshotEpgMapping.channelId).Nodup)
    (hfree : ∀ mapping ∈ todo, mapping.channelId ∉ mappings.rows.map fun row => row.channelId) :
    ∃ last new, todo.foldlM (restoreMapping channels epgChannels) mappings = .ok last ∧
      last.rows = mappings.rows ++ new ∧ new.map EpgMappingRow.toSnapshotEpgMapping = todo := by
  induction todo generalizing mappings with
  | nil => exact ⟨mappings, [], rfl, (List.append_nil _).symm, rfl⟩
  | cons mapping todo ih =>
    obtain ⟨hself, hrest⟩ := List.nodup_cons.mp hnew
    obtain ⟨row, hrow, hrows⟩ : ∃ row : EpgMappingRow, row.toSnapshotEpgMapping = mapping ∧
        (mappings.upsert mapping).rows = mappings.rows ++ [row] :=
      ⟨_, rfl, Table.upsert_of_new (hfree mapping List.mem_cons_self)⟩
    obtain ⟨last, new, hlast, happend, hmap⟩ := @ih (mappings.upsert mapping)
      (fun other hother => hexists other (List.mem_cons_of_mem _ hother)) hrest (by
        intro other hother hmem
        rw [hrows, List.map_append, List.mem_append] at hmem
        rcases hmem with hmem | hmem
        · exact hfree other (List.mem_cons_of_mem _ hother) hmem
        · rw [List.map_singleton, List.mem_singleton, hrow] at hmem
          exact hself (hmem ▸ List.mem_map_of_mem hother))
    refine ⟨last, row :: new, ?_, ?_, by rw [List.map_cons, hrow, hmap]⟩
    · rw [List.foldlM_cons]
      unfold restoreMapping
      rw [ensure_bind (hexists mapping List.mem_cons_self)]
      exact hlast
    · rw [happend, hrows, List.append_assoc, List.singleton_append]

/-- Restored links have their streams. -/
theorem streams_of_restoreLinks {channels : Channels} {streams : List Uuid} {links last : Links}
    {todo : List LinkRow} (h : todo.foldlM (restoreLink channels streams) links = .ok last) :
    ∀ link ∈ todo, link.providerStreamId ∈ streams := by
  induction todo generalizing links with
  | nil => exact fun link hlink => absurd hlink List.not_mem_nil
  | cons first todo ih =>
    obtain ⟨middle, hfirst, hrest⟩ := of_bind h
    obtain ⟨_, hexists, -⟩ := of_bind hfirst
    exact List.forall_mem_cons.mpr ⟨(of_ensure hexists).2, ih hrest⟩

theorem epgChannels_of_restoreMappings {channels : Channels} {epgChannels : List Uuid}
    {mappings last : Mappings} {todo : List SnapshotEpgMapping}
    (h : todo.foldlM (restoreMapping channels epgChannels) mappings = .ok last) :
    ∀ mapping ∈ todo, mapping.epgChannelId ∈ epgChannels := by
  induction todo generalizing mappings with
  | nil => exact fun mapping hmapping => absurd hmapping List.not_mem_nil
  | cons first todo ih =>
    obtain ⟨middle, hfirst, hrest⟩ := of_bind h
    obtain ⟨_, hexists, -⟩ := of_bind hfirst
    exact List.forall_mem_cons.mpr ⟨(of_ensure hexists).2, ih hrest⟩

/-! ## A snapshot that fits is restored -/

/-- The restored channels are the automatic channels of the account. -/
theorem captured_restored (hrecorded : snapshot.Recorded) {channels : Channels}
    (h : Restoring account (clearTargets account state snapshot.ids).channels snapshot.channels
      channels) :
    Sorting.sortBy SnapshotChannel.id
      ((channels.rows.filter (ChannelRow.isAutomatic account)).map ChannelRow.snapshot) =
        snapshot.channels := by
  refine Sorting.sortBy_eq_of_strict ?_ hrecorded.ids
  have hids : ((channels.rows.filter (ChannelRow.isAutomatic account)).map
      ChannelRow.snapshot).Nodup := by
    refine List.Nodup.of_map SnapshotChannel.id ?_
    rw [List.map_map]
    exact channels.ids.sublist (List.filter_sublist.map _)
  refine (List.perm_ext_iff_of_nodup hids (hrecorded.ids.imp fun hlt heq =>
    hlt.ne (congrArg _ heq))).mpr fun channel => ?_
  rw [List.mem_map]
  constructor
  · rintro ⟨row, hrow, rfl⟩
    obtain ⟨hrow, hautomatic⟩ := List.mem_filter.mp hrow
    by_cases hin : row.id ∈ snapshot.ids
    · obtain ⟨channel, hchannel, hid⟩ := List.mem_map.mp hin
      obtain ⟨other, hother, hsnapshot, -⟩ := h.done channel hchannel
      have hsame := Table.eq_of_key channels.ids hrow hother
        (hid.symm.trans (congrArg SnapshotChannel.id hsnapshot).symm)
      rw [hsame, hsnapshot]
      exact hchannel
    · rcases mem_clearTargets.mp ((h.others row hin).mp hrow) with ⟨-, hkept⟩ | ⟨old, -, -, -, rfl⟩
      · rw [isExtra_cases.mpr ⟨hautomatic, hin⟩] at hkept
        cases hkept
      · rw [isAutomatic_detach] at hautomatic
        cases hautomatic
  · intro hchannel
    obtain ⟨row, hrow, hsnapshot, hautomatic⟩ := h.done channel hchannel
    exact ⟨row, List.mem_filter.mpr ⟨hrow, hautomatic⟩, hsnapshot⟩

theorem mem_foreignIds {id : Uuid}
    (h : id ∈ (state.foreignChannels account).map ChannelRow.id) :
    ∃ row ∈ state.channels.rows, row.id = id ∧ row.isForeign account = true := by
  obtain ⟨row, hrow, hid⟩ := List.mem_map.mp h
  exact ⟨row, (List.mem_filter.mp hrow).1, hid, (List.mem_filter.mp hrow).2⟩

/-- The channels of other accounts are not among those that the rollback clears. -/
theorem not_cleared_of_foreign (h : Fits account snapshot state) {id : Uuid}
    (hid : id ∈ (state.foreignChannels account).map ChannelRow.id) :
    id ∉ snapshot.ids ∧ ∀ row ∈ ((state.channels.detach fun row =>
        row.isExtra account snapshot.ids && decide (row.id ∈ state.dependents)).rows.filter
          (ChannelRow.isExtra account snapshot.ids)), row.id ≠ id := by
  obtain ⟨row, hrow, rfl, hforeign⟩ := mem_foreignIds hid
  constructor
  · intro hin
    rw [h.foreign row hrow hin] at hforeign
    cases hforeign
  · intro other hother heq
    obtain ⟨hother, hextra⟩ := List.mem_filter.mp hother
    rcases Table.update_cases hother with ⟨hold, -⟩ | ⟨old, -, -, rfl⟩
    · rw [← Table.eq_of_key state.channels.ids hold hrow heq,
        not_isForeign_of_isAutomatic (isExtra_cases.mp hextra).1] at hforeign
      cases hforeign
    · rw [isExtra_cases, isAutomatic_detach] at hextra
      cases hextra.1

/-- Links or mappings of other accounts, behind the clearing and the restored rows. -/
theorem filter_foreign_restored {α : Type} {channelId : α → Uuid} (h : Fits account snapshot state)
    {rows new : List α} (hnew : ∀ row ∈ new, channelId row ∈ snapshot.ids) :
    ((Table.delete (fun row => decide (channelId row ∈ ((state.channels.detach fun row =>
        row.isExtra account snapshot.ids && decide (row.id ∈ state.dependents)).rows.filter
          (ChannelRow.isExtra account snapshot.ids)).map ChannelRow.id ∨
            channelId row ∈ snapshot.ids)) rows ++ new).filter fun row =>
        channelId row ∈ (state.foreignChannels account).map ChannelRow.id) =
      rows.filter fun row => channelId row ∈ (state.foreignChannels account).map ChannelRow.id := by
  have hnone : (new.filter fun row =>
      channelId row ∈ (state.foreignChannels account).map ChannelRow.id) = [] := by
    refine List.filter_eq_nil_iff.mpr fun row hrow hforeign => ?_
    exact (not_cleared_of_foreign h (of_decide_eq_true hforeign)).1 (hnew row hrow)
  rw [List.filter_append, hnone, List.append_nil, Table.filter_delete_of_disjoint]
  · intro row _ hgone
    refine decide_eq_false fun hforeign => ?_
    obtain ⟨hout, hkept⟩ := not_cleared_of_foreign h hforeign
    rcases of_decide_eq_true hgone with hremoved | hin
    · obtain ⟨other, hother, heq⟩ := List.mem_map.mp hremoved
      exact hkept other hother heq
    · exact hout hin

theorem foreignChannels_restored (h : Fits account snapshot state) {channels : Channels}
    {first last : Nat}
    (hchannels : snapshot.channels.foldlM (restoreChannel sequence account)
      ((clearTargets account state snapshot.ids).channels, first) = .ok (channels, last)) :
    channels.rows.filter (ChannelRow.isForeign account) = state.foreignChannels account := by
  refine (filter_restoreChannels hchannels ?_ ?_).trans (foreignChannels_clearTargets snapshot.ids)
  · exact fun row haccount => decide_eq_false fun hforeign => hforeign.2 haccount
  · exact fun old hold hin => h.foreign old ((mem_clearTargets_of_target hin).mp hold) hin

/-- A query for the channels of the snapshot sees the new rows only. -/
theorem filter_restored {α : Type} {channelId : α → Uuid} {ids : List Uuid} {old new : List α}
    (hold : ∀ row ∈ old, channelId row ∉ ids) (hnew : ∀ row ∈ new, channelId row ∈ ids) :
    ((old ++ new).filter fun row => channelId row ∈ ids) = new := by
  rw [List.filter_append, List.filter_eq_nil_iff.mpr fun row hrow hin =>
    hold row hrow (of_decide_eq_true hin), List.nil_append]
  exact List.filter_eq_self.mpr fun row hrow => decide_eq_true (hnew row hrow)

theorem captureSnapshot_restored (hrecorded : snapshot.Recorded) {channels : Channels}
    {links : Links} {mappings : Mappings} {oldLinks : List LinkRow}
    {oldMappings newMappings : List EpgMappingRow}
    (hchannels : Restoring account (clearTargets account state snapshot.ids).channels
      snapshot.channels channels)
    (hlinks : links.rows = oldLinks ++ snapshot.streamLinks)
    (hmappings : mappings.rows = oldMappings ++ newMappings)
    (hlinksOut : ∀ link ∈ oldLinks, link.channelId ∉ snapshot.ids)
    (hmappingsOut : ∀ row ∈ oldMappings, row.channelId ∉ snapshot.ids)
    (hmap : newMappings.map EpgMappingRow.toSnapshotEpgMapping = snapshot.epgMappings) :
    captureSnapshot channels links mappings account = snapshot := by
  have hlinked := filter_restored hlinksOut hrecorded.linked
  have hmapped := filter_restored hmappingsOut fun row hrow =>
    hrecorded.mapped row.toSnapshotEpgMapping (hmap ▸ List.mem_map_of_mem hrow)
  unfold ReconciliationSnapshot.ids at hlinked hmapped
  unfold captureSnapshot
  rw [captured_restored hrecorded hchannels, hlinks, hmappings]
  dsimp only
  rw [hlinked, hmapped, hmap, Sorting.sortBy_eq_of_strict (.refl _) hrecorded.links,
    Sorting.sortBy_eq_of_strict (.refl _) hrecorded.mappings]

/-- The restored channels are there for their links and mappings. -/
theorem Restoring.mem_ids {start channels : Channels} {done : List SnapshotChannel}
    (h : Restoring account start done channels) :
    ∀ id ∈ done.map SnapshotChannel.id, id ∈ channels.rows.map ChannelRow.id := by
  intro id hid
  obtain ⟨channel, hchannel, rfl⟩ := List.mem_map.mp hid
  obtain ⟨row, hrow, hsnapshot, -⟩ := h.done channel hchannel
  exact List.mem_map.mpr ⟨row, hrow, congrArg SnapshotChannel.id hsnapshot⟩

theorem not_target_of_link {targets : List Uuid} {link : LinkRow}
    (h : link ∈ (clearTargets account state targets).links.rows) : link.channelId ∉ targets :=
  fun hin => absurd (decide_eq_true (Or.inr hin)) (Bool.eq_false_iff.mp (Table.mem_delete.mp h).2)

theorem not_target_of_mapping {targets : List Uuid} {row : EpgMappingRow}
    (h : row ∈ (clearTargets account state targets).mappings.rows) : row.channelId ∉ targets :=
  fun hin => absurd (decide_eq_true (Or.inr hin)) (Bool.eq_false_iff.mp (Table.mem_delete.mp h).2)

/-- A snapshot that fits is restored, whatever else the tables hold. -/
theorem restored_of_fits (hrecorded : snapshot.Recorded) (h : Fits account snapshot state) :
    ∃ after, restoreSnapshot sequence account (clearTargets account state snapshot.ids) snapshot =
      .ok after ∧ RolledBack account snapshot state after := by
  let cleared := clearTargets account state snapshot.ids
  obtain ⟨channels, hchannels, hrestoring⟩ :=
    @restoreChannels_total sequence account (cleared.channels, cleared.place) cleared.channels []
      snapshot.channels hrecorded.ids hrecorded.numbers hrecorded.keys (fitting_clearTargets h)
      ⟨fun _ _ => Iff.rfl, fun _ hmem => absurd hmem List.not_mem_nil⟩
  have hthere := hrestoring.mem_ids
  obtain ⟨links, hlinks, hlinkRows⟩ := @restoreLinks_total channels state.streams cleared.links
    snapshot.streamLinks (fun link hlink => ⟨hthere _ (hrecorded.linked link hlink),
      h.streams link hlink⟩) (by
      rw [List.map_append]
      refine cleared.links.keys.append (List.pairwise_map.mpr (hrecorded.links.imp LT.lt.ne)) ?_
      intro key hfirst hsecond
      obtain ⟨old, hold, rfl⟩ := List.mem_map.mp hfirst
      obtain ⟨new, hnew, hkey⟩ := List.mem_map.mp hsecond
      have hsame : new.channelId = old.channelId := congrArg (fun key => (ofLex key).1) hkey
      exact not_target_of_link hold (hsame ▸ hrecorded.linked new hnew)) (by
      rw [List.map_append]
      refine cleared.links.places.append hrecorded.places ?_
      intro place hfirst hsecond
      obtain ⟨old, hold, rfl⟩ := List.mem_map.mp hfirst
      obtain ⟨new, hnew, hplace⟩ := List.mem_map.mp hsecond
      have hsame : new.channelId = old.channelId := congrArg Prod.fst hplace
      exact not_target_of_link hold (hsame ▸ hrecorded.linked new hnew))
  obtain ⟨mappings, new, hmappings, hmappingRows, hmap⟩ := @restoreMappings_total channels
    state.epgChannels cleared.mappings snapshot.epgMappings (fun mapping hmapping =>
      ⟨hthere _ (hrecorded.mapped mapping hmapping), h.epgChannels mapping hmapping⟩)
    (List.pairwise_map.mpr (hrecorded.mappings.imp LT.lt.ne)) (by
      intro mapping hmapping hmem
      obtain ⟨old, hold, hid⟩ := List.mem_map.mp hmem
      exact not_target_of_mapping hold (hid ▸ hrecorded.mapped mapping hmapping))
  have hnewIds : ∀ row ∈ new, row.channelId ∈ snapshot.ids := fun row hrow =>
    hrecorded.mapped row.toSnapshotEpgMapping (hmap ▸ List.mem_map_of_mem hrow)
  refine ⟨{ cleared with channels, links, mappings }, ?_, ?_⟩
  · unfold restoreSnapshot
    rw [hchannels]
    change (snapshot.streamLinks.foldlM (restoreLink channels state.streams) cleared.links >>= _) =
      _
    rw [hlinks]
    change (snapshot.epgMappings.foldlM (restoreMapping channels state.epgChannels)
      cleared.mappings >>= _) = _
    rw [hmappings]
    rfl
  · have hforeign := foreignChannels_restored h hchannels
    refine ⟨?_, hforeign, ?_, ?_⟩
    · exact captureSnapshot_restored hrecorded hrestoring hlinkRows hmappingRows
        (fun _ => not_target_of_link) (fun _ => not_target_of_mapping) hmap
    · unfold CatalogState.foreignLinks CatalogState.foreignChannels
      rw [hforeign, hlinkRows]
      exact filter_foreign_restored h hrecorded.linked
    · unfold CatalogState.foreignMappings CatalogState.foreignChannels
      rw [hforeign, hmappingRows]
      exact filter_foreign_restored h hnewIds

/-! ## A snapshot that is restored fits -/

theorem restoreSnapshot_cases {after : CatalogState}
    (h : restoreSnapshot sequence account state snapshot = .ok after) :
    snapshot.channels.foldlM (restoreChannel sequence account) (state.channels, state.place) =
        .ok (after.channels, after.place) ∧
      snapshot.streamLinks.foldlM (restoreLink after.channels state.streams) state.links =
        .ok after.links ∧
      snapshot.epgMappings.foldlM (restoreMapping after.channels state.epgChannels)
        state.mappings = .ok after.mappings := by
  unfold restoreSnapshot at h
  obtain ⟨⟨channels, place⟩, hchannels, h⟩ := of_bind h
  obtain ⟨links, hlinks, h⟩ := of_bind h
  obtain ⟨mappings, hmappings, h⟩ := of_bind h
  obtain rfl := of_pure h
  refine ⟨?_, hlinks, hmappings⟩
  unfold databaseError at hchannels
  cases hloop : snapshot.channels.foldlM (restoreChannel sequence account)
      (state.channels, state.place) with
  | error error =>
    rw [hloop] at hchannels
    cases hchannels
  | ok last =>
    rw [hloop] at hchannels
    exact congrArg Except.ok (Except.ok.inj hchannels)

theorem fits_of_restored (hrecorded : snapshot.Recorded) {after : CatalogState}
    (hrestored : restoreSnapshot sequence account (clearTargets account state snapshot.ids)
      snapshot = .ok after) (h : RolledBack account snapshot state after) :
    Fits account snapshot state := by
  obtain ⟨hchannels, hlinks, hmappings⟩ := restoreSnapshot_cases hrestored
  -- Every channel of the snapshot is an automatic channel behind the rollback.
  have hrow : ∀ channel ∈ snapshot.channels, ∃ row ∈ after.channels.rows,
      row.snapshot = channel ∧ row.isAutomatic account = true := by
    intro channel hchannel
    have hcaptured : channel ∈ (after.capture account).channels := by rwa [h.capture]
    obtain ⟨row, hrow, hsnapshot⟩ :=
      List.mem_map.mp ((Sorting.sortBy_perm _ _).mem_iff.mp hcaptured)
    exact ⟨row, (List.mem_filter.mp hrow).1, hsnapshot, (List.mem_filter.mp hrow).2⟩
  refine fits_of_fitting (fitting_of_restored hrecorded.ids hchannels fun channel hchannel => ?_)
    ?_ (streams_of_restoreLinks hlinks) (epgChannels_of_restoreMappings hmappings)
  · obtain ⟨row, hmem, rfl, -⟩ := hrow channel hchannel
    exact ⟨row, hmem, rfl, rfl⟩
  · intro row hmem hin
    rw [Bool.eq_false_iff]
    intro hforeign
    have hkept : row ∈ after.foreignChannels account := by
      rw [h.channels]
      exact List.mem_filter.mpr ⟨hmem, hforeign⟩
    obtain ⟨channel, hchannel, hid⟩ := List.mem_map.mp hin
    obtain ⟨other, hother, hsnapshot, hautomatic⟩ := hrow channel hchannel
    have hsame := Table.eq_of_key after.channels.ids (List.mem_filter.mp hkept).1 hother
      (hid.symm.trans (congrArg SnapshotChannel.id hsnapshot).symm)
    rw [hsame, not_isForeign_of_isAutomatic hautomatic] at hforeign
    cases hforeign

/-! ## The rollback of a revision -/

variable {target : Nat} {actor : String} {revision : ReconciliationRevision}

/-- The rollback is done and has restored the snapshot. -/
def Restores (sequence : NumberSequence) (account : Uuid) (target : Nat) (actor : String)
    (snapshot : ReconciliationSnapshot) (state : CatalogState) : Prop :=
  ∃ stats after, rollbackReconciliation sequence account target actor state = .ok (stats, after) ∧
    RolledBack account snapshot state after

theorem rollbackReconciliation_cases {stats : ReconciliationRollbackStats} {after : CatalogState}
    (hfound : findRevision account state.revisions target = some revision)
    (h : rollbackReconciliation sequence account target actor state = .ok (stats, after)) :
    ∃ restored, restoreSnapshot sequence account
        (clearTargets account state revision.after.ids) revision.after = .ok restored ∧
      after = recordRevision account restored actor (state.capture account) := by
  unfold rollbackReconciliation at h
  rw [hfound] at h
  obtain ⟨restored, hrestored, h⟩ := of_bind h
  exact ⟨restored, hrestored, (Prod.mk.inj (of_pure h)).2.symm⟩

theorem rollbackReconciliation_ok {restored : CatalogState}
    (hfound : findRevision account state.revisions target = some revision)
    (h : restoreSnapshot sequence account (clearTargets account state revision.after.ids)
      revision.after = .ok restored) :
    ∃ stats, rollbackReconciliation sequence account target actor state =
      .ok (stats, recordRevision account restored actor (state.capture account)) := by
  unfold rollbackReconciliation
  rw [hfound]
  dsimp only
  rw [h]
  exact ⟨_, rfl⟩

theorem restores_iff (hfound : findRevision account state.revisions target = some revision) :
    Restores sequence account target actor revision.after state ↔
      Fits account revision.after state := by
  constructor
  · rintro ⟨stats, after, hok, hback⟩
    obtain ⟨restored, hrestored, rfl⟩ := rollbackReconciliation_cases hfound hok
    exact fits_of_restored revision.recorded hrestored
      ⟨hback.capture, hback.channels, hback.links, hback.mappings⟩
  · intro h
    obtain ⟨restored, hrestored, hback⟩ := restored_of_fits revision.recorded h
    obtain ⟨stats, hok⟩ := rollbackReconciliation_ok hfound hrestored
    exact ⟨stats, _, hok, hback.capture, hback.channels, hback.links, hback.mappings⟩

theorem findRevision_append {revisions more : List ReconciliationRevision}
    (h : findRevision account revisions target = some revision) :
    findRevision account (revisions ++ more) target = some revision := by
  unfold findRevision at h ⊢
  rw [List.find?_append, h]
  rfl

theorem revisions_restoreSnapshot {after : CatalogState}
    (h : restoreSnapshot sequence account state snapshot = .ok after) :
    after.revisions = state.revisions := by
  unfold restoreSnapshot at h
  obtain ⟨⟨channels, place⟩, -, h⟩ := of_bind h
  obtain ⟨links, -, h⟩ := of_bind h
  obtain ⟨mappings, -, h⟩ := of_bind h
  obtain rfl := of_pure h
  rfl

/-- A rollback forgets no revision. -/
theorem findRevision_rollback {stats : ReconciliationRollbackStats} {after : CatalogState}
    {other : Nat} {found : ReconciliationRevision}
    (hfound : findRevision account state.revisions target = some revision)
    (h : rollbackReconciliation sequence account target actor state = .ok (stats, after))
    (hother : findRevision account state.revisions other = some found) :
    findRevision account after.revisions other = some found := by
  obtain ⟨restored, hrestored, rfl⟩ := rollbackReconciliation_cases hfound h
  have hkept := revisions_restoreSnapshot hrestored
  refine findRevision_append ?_
  rw [hkept]
  exact hother

theorem RolledBack.trans_iff {middle last : CatalogState} {other : ReconciliationSnapshot}
    (h : RolledBack account other state middle) :
    RolledBack account snapshot middle last ↔ RolledBack account snapshot state last := by
  constructor
  · intro hlast
    exact ⟨hlast.capture, hlast.channels.trans h.channels, hlast.links.trans h.links,
      hlast.mappings.trans h.mappings⟩
  · intro hlast
    exact ⟨hlast.capture, hlast.channels.trans h.channels.symm, hlast.links.trans h.links.symm,
      hlast.mappings.trans h.mappings.symm⟩

/-- The rollback restores the revision exactly if it fits the tables, and the way back to the
revision that was current restores the tables exactly if that one fits behind the first rollback. -/
theorem rollback_restores_iff
    (hfound : findRevision account state.revisions target = some revision) :
    (Restores sequence account target actor revision.after state ↔
      Fits account revision.after state) ∧
    ∀ stats middle, rollbackReconciliation sequence account target actor state =
        .ok (stats, middle) → RolledBack account revision.after state middle →
      ∀ current previous, findRevision account state.revisions current = some previous →
        previous.after = state.capture account →
        ((∃ stats last, rollbackReconciliation sequence account current actor middle =
            .ok (stats, last) ∧ RolledBack account (state.capture account) state last) ↔
          Fits account (state.capture account) middle) := by
  refine ⟨restores_iff hfound, ?_⟩
  intro stats middle hok hback current previous hcurrent hsame
  have hiff := @restores_iff sequence account middle current actor previous
    (findRevision_rollback hfound hok hcurrent)
  rw [hsame] at hiff
  rw [← hiff]
  unfold Restores
  simp only [hback.trans_iff]

end Rollback

/-! ## A channel that has moved, and one that was detached -/

namespace Sample

def row (id : Uuid) (channelNumber key : String) : ChannelRow where
  id
  channelNumber
  name := "News"
  account := some 7
  canonicalKey := some key

theorem pair_ids (first second : String) :
    ([row 1 first "one", row 2 second "two"].map ChannelRow.id).Nodup := by simp [row]

theorem pair_numbers {first second : String} (h : first ≠ second) :
    ([row 1 first "one", row 2 second "two"].map ChannelRow.channelNumber).Nodup := by
  simpa [row] using h

theorem pair_keys (first second : String) :
    ([row 1 first "one", row 2 second "two"].filterMap ChannelRow.ownedKey).Nodup := by
  simp [row, ChannelRow.ownedKey]

/-- Two channels of the account. -/
def pair (first second : String) (h : first ≠ second) : Channels where
  rows := [row 1 first "one", row 2 second "two"]
  ids := pair_ids first second
  numbers := pair_numbers h
  keys := pair_keys first second

theorem single_nodup (number : String) : ([row 1 number "one"].map ChannelRow.id).Nodup ∧
    ([row 1 number "one"].map ChannelRow.channelNumber).Nodup ∧
    ([row 1 number "one"].filterMap ChannelRow.ownedKey).Nodup := by
  simp [row, ChannelRow.ownedKey]

/-- One of them. -/
def single (number : String) : Channels where
  rows := [row 1 number "one"]
  ids := (single_nodup number).1
  numbers := (single_nodup number).2.1
  keys := (single_nodup number).2.2

def linkRows : List LinkRow := [⟨1, 11, 0, "[]"⟩]

theorem linkRows_keys : (linkRows.map LinkRow.key).Nodup := List.nodup_singleton _

theorem linkRows_places : (linkRows.map LinkRow.place).Nodup := List.nodup_singleton _

def links : Links := ⟨linkRows, linkRows_keys, linkRows_places⟩

def mappingRows : List EpgMappingRow :=
  [{ channelId := 1, epgChannelId := 21, method := "tvg-id", confidence := 0, evidence := "[]"
     reviewStatus := "applied", reviewedBy := none, reviewedAt := none, revision := 1 }]

theorem mappingRows_channels : (mappingRows.map fun mapping => mapping.channelId).Nodup :=
  List.nodup_singleton _

def mappings : Mappings := ⟨mappingRows, mappingRows_channels⟩

/-- The revision that was recorded with these channels. -/
def recorded (revision : Nat) (channels : Channels) : ReconciliationRevision where
  account := 7
  revision
  actor := "reconciler"
  before := none
  after := captureSnapshot channels links mappings 7
  recorded := captureSnapshot_recorded channels links mappings 7

theorem one_ne_two : "1" ≠ "2" := by decide

theorem one_ne_three : "1" ≠ "3" := by decide

theorem six_ne_five : "6" ≠ "5" := by decide

/-- The second channel has moved from 2 to 3. -/
def moved : CatalogState where
  channels := pair "1" "3" one_ne_three
  links
  mappings
  dependents := []
  streams := [11]
  epgChannels := [21]
  revisions := [recorded 1 (pair "1" "2" one_ne_two), recorded 2 (pair "1" "3" one_ne_three)]
  place := 0

/-- The first channel has moved from 5 to 6, and the second, which is new, has taken its number
and has dependents. -/
def taken : CatalogState where
  channels := pair "6" "5" six_ne_five
  links
  mappings
  dependents := [2]
  streams := [11]
  epgChannels := [21]
  revisions := [recorded 1 (single "5"), recorded 2 (pair "6" "5" six_ne_five)]
  place := 0

theorem fits_moved : Fits 7 (recorded 1 (pair "1" "2" one_ne_two)).after moved := by
  refine ⟨?_, ?_, ?_, ?_, ?_, ?_⟩
  all_goals decide +kernel

/-- The tables behind the first rollback. -/
theorem movedBack : (rollbackReconciliation freshSequence 7 1 "operator" moved).toOption.map
    (fun result => (result.2.channels.rows, result.2.dependents, result.2.streams,
      result.2.epgChannels)) =
    some ((pair "1" "2" one_ne_two).rows, [], [11], [21]) := by decide +kernel

end Sample

open Sample in
/-- There and back. -/
theorem rollback_restores_moved :
    ∃ stats middle, rollbackReconciliation freshSequence 7 1 "operator" moved =
        .ok (stats, middle) ∧
      RolledBack 7 (recorded 1 (pair "1" "2" one_ne_two)).after moved middle ∧
      ∃ stats last, rollbackReconciliation freshSequence 7 2 "operator" middle =
        .ok (stats, last) ∧ RolledBack 7 (moved.capture 7) moved last := by
  have hboth := @rollback_restores_iff freshSequence 7 moved 1 "operator"
    (recorded 1 (pair "1" "2" one_ne_two)) rfl
  obtain ⟨stats, middle, hok, hback⟩ := hboth.1.mpr fits_moved
  refine ⟨stats, middle, hok, hback, ?_⟩
  refine (hboth.2 stats middle hok hback 2 (recorded 2 (pair "1" "3" one_ne_three)) rfl rfl).mpr ?_
  have htables := movedBack
  rw [hok] at htables
  simp only [Except.toOption, Option.map_some, Option.some.injEq, Prod.mk.injEq] at htables
  obtain ⟨hrows, hdependents, hstreams, hepgChannels⟩ := htables
  refine ⟨?_, ?_, ?_, ?_, ?_, ?_⟩
  all_goals
    simp only [CatalogState.isRemoved, hrows, hdependents, hstreams, hepgChannels]
    decide +kernel

open Sample in
/-- The number is held inside the automatic set only, and still the channel does not get it back. -/
theorem rollback_fails_for_detached :
    findRevision 7 taken.revisions 1 = some (recorded 1 (single "5")) ∧
    (∀ link ∈ (recorded 1 (single "5")).after.streamLinks, link.providerStreamId ∈ taken.streams) ∧
    (∀ mapping ∈ (recorded 1 (single "5")).after.epgMappings,
      mapping.epgChannelId ∈ taken.epgChannels) ∧
    (∀ row ∈ taken.channels.rows, row.isAutomatic 7 = false →
      ∀ channel ∈ (recorded 1 (single "5")).after.channels,
        row.channelNumber ≠ channel.channelNumber) ∧
    ¬Restores freshSequence 7 1 "operator" (recorded 1 (single "5")).after taken := by
  refine ⟨rfl, by decide +kernel, by decide +kernel, by decide +kernel, ?_⟩
  rw [restores_iff rfl]
  intro h
  exact absurd h.outside (by decide +kernel)

end IptvRelay.Catalog
