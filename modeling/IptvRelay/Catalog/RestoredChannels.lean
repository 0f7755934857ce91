import IptvRelay.Catalog.Rollback
import Mathlib.Data.List.Pairwise

/-!
# When a rollback restores its revision

The channels of a snapshot are restored in the order of their ids. A channel gets its number back
if no other channel holds it at that time, also one that is restored later or was just detached.
-/

namespace IptvRelay.Catalog

open Store (Uuid)
open Checked

/-! ## Restoring one channel -/

namespace Channels

variable {channels after : Channels} {row : ChannelRow}

theorem ofRows_total {rows : List ChannelRow} (hids : (rows.map ChannelRow.id).Nodup)
    (hnumbers : (rows.map ChannelRow.channelNumber).Nodup)
    (hkeys : (rows.filterMap ChannelRow.ownedKey).Nodup) :
    ofRows rows = .ok ⟨rows, hids, hnumbers, hkeys⟩ := by
  rw [ofRows, dif_pos hids, dif_pos hnumbers, dif_pos hkeys]

/-- The row behind the statement, with the revision that it keeps. -/
theorem restoreRow_cases (h : channels.restoreRow row = .ok after) :
    (row.id ∉ channels.rows.map ChannelRow.id ∧ after.rows = channels.rows ++ [row]) ∨
    ((∃ old ∈ channels.rows, old.id = row.id) ∧ after.rows =
      Table.update (fun old => old.id = row.id) (fun old => { row with revision := old.revision })
        channels.rows) := by
  unfold restoreRow at h
  split at h
  · rename_i hfind
    exact .inl ⟨find_eq_none.mp hfind, rows_insert h⟩
  · rename_i old hfind
    obtain ⟨hold, hid⟩ := find_eq_some hfind
    exact .inr ⟨⟨old, hold, hid⟩, ofRows_ok h⟩

/-- The other rows stay as they are. -/
theorem mem_restoreRow_other (h : channels.restoreRow row = .ok after) {other : ChannelRow}
    (hother : other.id ≠ row.id) : other ∈ after.rows ↔ other ∈ channels.rows := by
  rcases restoreRow_cases h with ⟨-, hrows⟩ | ⟨-, hrows⟩
  · rw [hrows, List.mem_append, List.mem_singleton]
    exact ⟨fun hmem => hmem.resolve_right fun heq => hother (congrArg _ heq), .inl⟩
  · rw [hrows]
    constructor
    · intro hmem
      rcases Table.update_cases hmem with ⟨hold, -⟩ | ⟨_, -, -, rfl⟩
      · exact hold
      · exact absurd rfl hother
    · intro hmem
      exact Table.mem_update.mpr ⟨other, hmem, if_neg fun heq => hother (of_decide_eq_true heq)⟩

theorem mem_restoreRow_self (h : channels.restoreRow row = .ok after) :
    ∃ revision, { row with revision } ∈ after.rows := by
  rcases restoreRow_cases h with ⟨-, hrows⟩ | ⟨⟨old, hold, hid⟩, hrows⟩
  · refine ⟨row.revision, ?_⟩
    rw [hrows]
    exact List.mem_append_right _ (List.mem_singleton_self _)
  · refine ⟨old.revision, ?_⟩
    rw [hrows]
    exact Table.mem_update.mpr ⟨old, hold, if_pos (decide_eq_true hid)⟩

/-- A part of the table without the row, before and after. -/
theorem filter_restoreRow (h : channels.restoreRow row = .ok after) {q : ChannelRow → Bool}
    (hnew : ∀ revision, q { row with revision } = false)
    (hold : ∀ old ∈ channels.rows, old.id = row.id → q old = false) :
    after.rows.filter q = channels.rows.filter q := by
  rcases restoreRow_cases h with ⟨-, hrows⟩ | ⟨-, hrows⟩
  · rw [hrows, List.filter_append, List.filter_cons_of_neg (by simpa using hnew row.revision)]
    exact List.append_nil _
  · rw [hrows]
    exact Table.filter_update_of_disjoint fun old hmem hid =>
      ⟨hold old hmem (of_decide_eq_true hid), hnew old.revision⟩

/-- Values that differ from row to row, also after a change of the row with this id. -/
theorem pairwise_update {rows : List ChannelRow} {R : ChannelRow → ChannelRow → Prop}
    (hsymm : ∀ a b, R a b → R b a) (hids : (rows.map ChannelRow.id).Nodup) (hrows : rows.Pairwise R)
    {id : Uuid} {f : ChannelRow → ChannelRow}
    (hnew : ∀ old ∈ rows, ∀ other ∈ rows, old.id = id → other.id ≠ id → R (f old) other) :
    (Table.update (fun old => old.id = id) f rows).Pairwise R := by
  unfold Table.update
  rw [List.pairwise_map]
  refine ((List.pairwise_map.mp hids).and hrows).imp_of_mem fun {a b} ha hb hboth => ?_
  obtain ⟨hne, hR⟩ := hboth
  by_cases hida : a.id = id
  · have hidb : b.id ≠ id := fun heq => hne (hida.trans heq.symm)
    rw [if_pos (decide_eq_true hida), if_neg fun heq => hidb (of_decide_eq_true heq)]
    exact hnew a ha b hb hida hidb
  · rw [if_neg fun heq => hida (of_decide_eq_true heq)]
    by_cases hidb : b.id = id
    · rw [if_pos (decide_eq_true hidb)]
      exact hsymm _ _ (hnew b hb a ha hidb hida)
    · rw [if_neg fun heq => hidb (of_decide_eq_true heq)]
      exact hR

/-- A row with a free number and a free key can be restored. -/
theorem restoreRow_total
    (hnumber : ∀ other ∈ channels.rows, other.id ≠ row.id →
      other.channelNumber ≠ row.channelNumber)
    (hkey : ∀ other ∈ channels.rows, other.id ≠ row.id →
      ∀ key, row.ownedKey = some key → other.ownedKey ≠ some key) :
    ∃ after, channels.restoreRow row = .ok after := by
  unfold restoreRow
  have hkeys := List.pairwise_filterMap.mp channels.keys
  cases hfind : channels.find row.id with
  | none =>
    have hnew := find_eq_none.mp hfind
    have hother : ∀ other ∈ channels.rows, other.id ≠ row.id := fun other hmem heq =>
      hnew (heq ▸ List.mem_map_of_mem hmem)
    refine ⟨_, ofRows_total ?_ ?_ ?_⟩
    · rw [List.map_append]
      exact channels.ids.append (List.nodup_singleton _) (by simpa using hnew)
    · rw [List.map_append]
      refine channels.numbers.append (List.nodup_singleton _) ?_
      simpa using fun other hmem => hnumber other hmem (hother other hmem)
    · refine List.pairwise_filterMap.mpr (List.pairwise_append.mpr ⟨hkeys,
        List.pairwise_singleton _ _, ?_⟩)
      intro other hmem last hlast key hold key' hown heq
      rw [List.mem_singleton.mp hlast] at hown
      exact hkey other hmem (hother other hmem) key' hown (heq ▸ hold)
  | some found =>
    refine ⟨_, ofRows_total ?_ ?_ ?_⟩
    · exact Table.nodup_update (fun old hid => (of_decide_eq_true hid).symm) channels.ids
    · rw [List.Nodup, List.pairwise_map]
      refine pairwise_update (fun _ _ hne => hne.symm) channels.ids
        (List.pairwise_map.mp channels.numbers) fun old _ other hother _ hid => ?_
      exact (hnumber other hother hid).symm
    · rw [List.Nodup, List.pairwise_filterMap]
      refine pairwise_update (fun _ _ h key hkey key' hkey' => (h key' hkey' key hkey).symm)
        channels.ids hkeys fun old _ other hother _ hid => ?_
      intro key hown key' hold heq
      exact hkey other hother hid key hown (heq ▸ hold)

end Channels

/-- Rows with one key are the same row. -/
theorem eq_of_ownedKey (channels : Channels) {a b : ChannelRow} {key : Uuid × String}
    (ha : a ∈ channels.rows) (hb : b ∈ channels.rows) (hkeyA : a.ownedKey = some key)
    (hkeyB : b.ownedKey = some key) : a = b := by
  by_contra hne
  have hpairwise := List.pairwise_filterMap.mp channels.keys
  have hsymm : Std.Symm fun a b : ChannelRow => ∀ k, a.ownedKey = some k →
      ∀ k', b.ownedKey = some k' → k ≠ k' := ⟨fun a b h k hk k' hk' => (h k' hk' k hk).symm⟩
  exact hpairwise.forall ha hb hne key hkeyA key hkeyB rfl

/-! ## Restoring the channels of a snapshot -/

section Channels

variable {sequence : NumberSequence} {account : Uuid} {state next : Channels × Nat}
  {channel : SnapshotChannel}

theorem numberAvailable_iff {channels : Channels} {channelNumber : String} {id : Uuid} :
    channels.numberAvailable channelNumber id = true ↔
      ∀ row ∈ channels.rows, row.id ≠ id → row.channelNumber ≠ channelNumber := by
  unfold Channels.numberAvailable
  rw [List.all_eq_true]
  refine forall₂_congr fun row _ => ?_
  rw [decide_eq_true_iff]
  exact ⟨fun h hid => h.resolve_right hid, fun h => or_iff_not_imp_right.mpr h⟩

/-- One turn of the loop restores one row under some number. -/
theorem restoreChannel_ok (h : restoreChannel sequence account state channel = .ok next) :
    ∃ channelNumber, state.1.restoreRow (ChannelRow.restored account channel channelNumber) =
      .ok next.1 := by
  obtain ⟨⟨channelNumber, place⟩, -, h⟩ := of_bind h
  obtain ⟨channels, hrow, h⟩ := of_bind h
  obtain rfl := of_pure h
  exact ⟨channelNumber, hrow⟩

theorem restoreChannel_available
    (h : state.1.numberAvailable channel.channelNumber channel.id = true) {after : Channels}
    (hrow : state.1.restoreRow (ChannelRow.restored account channel channel.channelNumber) =
      .ok after) :
    restoreChannel sequence account state channel = .ok (after, state.2) := by
  unfold restoreChannel restoredNumber
  rw [if_pos h, ok_bind]
  change (state.1.restoreRow (ChannelRow.restored account channel channel.channelNumber) >>= _) = _
  rw [hrow]
  rfl

/-- The loop leaves the channels alone that the snapshot does not have. -/
theorem mem_restoreChannels_other {todo : List SnapshotChannel}
    (h : todo.foldlM (restoreChannel sequence account) state = .ok next) {row : ChannelRow}
    (hrow : row.id ∉ todo.map SnapshotChannel.id) : row ∈ next.1.rows ↔ row ∈ state.1.rows := by
  induction todo generalizing state with
  | nil =>
    obtain rfl := of_pure h
    rfl
  | cons channel todo ih =>
    obtain ⟨middle, hfirst, hrest⟩ := of_bind h
    obtain ⟨hne, hrow⟩ := not_or.mp (List.mem_cons.not.mp hrow)
    obtain ⟨channelNumber, hrestored⟩ := restoreChannel_ok hfirst
    exact (ih hrest hrow).trans (Channels.mem_restoreRow_other hrestored hne)

/-- A part of the table without the channels of the snapshot, before and after. -/
theorem filter_restoreChannels {todo : List SnapshotChannel} {q : ChannelRow → Bool}
    (h : todo.foldlM (restoreChannel sequence account) state = .ok next)
    (hnew : ∀ row : ChannelRow, row.account = some account → q row = false)
    (hold : ∀ old ∈ state.1.rows, old.id ∈ todo.map SnapshotChannel.id → q old = false) :
    next.1.rows.filter q = state.1.rows.filter q := by
  induction todo generalizing state with
  | nil =>
    obtain rfl := of_pure h
    rfl
  | cons channel todo ih =>
    obtain ⟨middle, hfirst, hrest⟩ := of_bind h
    obtain ⟨channelNumber, hrestored⟩ := restoreChannel_ok hfirst
    refine (ih hrest fun old hmem hid => ?_).trans
      (Channels.filter_restoreRow hrestored (fun _ => hnew _ rfl) fun old hmem hid =>
        hold old hmem (List.mem_cons.mpr (.inl hid)))
    by_cases hsame : old.id = channel.id
    · obtain ⟨revision, hself⟩ := Channels.mem_restoreRow_self hrestored
      have heq : old = { ChannelRow.restored account channel channelNumber with revision } :=
        Table.eq_of_key middle.1.ids hmem hself hsame
      rw [heq]
      exact hnew _ rfl
    · exact hold old ((Channels.mem_restoreRow_other hrestored hsame).mp hmem)
        (List.mem_cons_of_mem _ hid)

/-- What the channels that are there must leave free for those of the snapshot. -/
structure Fitting (account : Uuid) (channels : Channels) (wanted : List SnapshotChannel) :
    Prop where
  outside : ∀ row ∈ channels.rows, row.id ∉ wanted.map SnapshotChannel.id →
    ∀ channel ∈ wanted, row.channelNumber ≠ channel.channelNumber
  order : ∀ channel ∈ wanted, ∀ row ∈ channels.rows, row.id ∈ wanted.map SnapshotChannel.id →
    channel.id < row.id → row.channelNumber ≠ channel.channelNumber
  keys : ∀ channel ∈ wanted, ∀ key, channel.canonicalKey = some key → ∀ row ∈ channels.rows,
    row.ownedKey = some (account, key) →
      row.id ∈ wanted.map SnapshotChannel.id ∧ ¬channel.id < row.id

/-- The loop in the middle: some channels are restored, all others are as before. -/
structure Restoring (account : Uuid) (start : Channels) (done : List SnapshotChannel)
    (channels : Channels) : Prop where
  others : ∀ row : ChannelRow, row.id ∉ done.map SnapshotChannel.id →
    (row ∈ channels.rows ↔ row ∈ start.rows)
  done : ∀ channel ∈ done, ∃ row ∈ channels.rows, row.snapshot = channel ∧
    row.isAutomatic account = true

theorem ownedKey_restored {channelNumber : String} :
    (ChannelRow.restored account channel channelNumber).ownedKey =
      channel.canonicalKey.map fun key => (account, key) :=
  ownedKey_of_isAutomatic (decide_eq_true ⟨rfl, rfl⟩)

/-- A row that may stand in the way of a channel, in the middle of the loop. -/
theorem Restoring.cases {start channels : Channels} {done todo : List SnapshotChannel}
    (h : Restoring account start done channels)
    (hids : (done ++ channel :: todo).Pairwise fun a b => a.id < b.id) {row : ChannelRow}
    (hrow : row ∈ channels.rows) (hne : row.id ≠ channel.id) :
    (∃ earlier ∈ done, row.snapshot = earlier ∧ row.isAutomatic account = true) ∨
    (row ∈ start.rows ∧ row.id ∉ (done ++ channel :: todo).map SnapshotChannel.id) ∨
    (row ∈ start.rows ∧ row.id ∈ (done ++ channel :: todo).map SnapshotChannel.id ∧
      channel.id < row.id) := by
  by_cases hdone : row.id ∈ done.map SnapshotChannel.id
  · obtain ⟨earlier, hearlier, hid⟩ := List.mem_map.mp hdone
    obtain ⟨other, hother, hsnapshot, hautomatic⟩ := h.done earlier hearlier
    have hsame : row = other := Table.eq_of_key channels.ids hrow hother
      (hid.symm.trans (congrArg SnapshotChannel.id hsnapshot).symm)
    exact .inl ⟨earlier, hearlier, hsame ▸ hsnapshot, hsame ▸ hautomatic⟩
  · have hstart := (h.others row hdone).mp hrow
    by_cases hin : row.id ∈ (done ++ channel :: todo).map SnapshotChannel.id
    · refine .inr (.inr ⟨hstart, hin, ?_⟩)
      rw [List.map_append, List.map_cons, List.mem_append, List.mem_cons] at hin
      obtain ⟨later, hlater, hid⟩ := List.mem_map.mp
        ((hin.resolve_left hdone).resolve_left hne)
      rw [← hid]
      exact (List.pairwise_cons.mp (List.pairwise_append.mp hids).2.1).1 later hlater
    · exact .inr (.inl ⟨hstart, hin⟩)

/-- One channel gets its number back. -/
theorem restoreChannel_total {start : Channels} {done todo : List SnapshotChannel}
    (hids : (done ++ channel :: todo).Pairwise fun a b => a.id < b.id)
    (hnumbers : ((done ++ channel :: todo).map SnapshotChannel.channelNumber).Nodup)
    (hkeys : ((done ++ channel :: todo).filterMap SnapshotChannel.canonicalKey).Nodup)
    (hfits : Fitting account start (done ++ channel :: todo))
    (h : Restoring account start done state.1) :
    ∃ after, restoreChannel sequence account state channel = .ok (after, state.2) ∧
      Restoring account start (done ++ [channel]) after := by
  have hmem : channel ∈ done ++ channel :: todo :=
    List.mem_append_right _ List.mem_cons_self
  have hnumber : ∀ row ∈ state.1.rows, row.id ≠ channel.id →
      row.channelNumber ≠ channel.channelNumber := by
    intro row hrow hne
    rcases h.cases hids hrow hne with ⟨earlier, hearlier, hsnapshot, -⟩ | ⟨hstart, hout⟩ |
      ⟨hstart, hin, hlt⟩
    · rw [List.map_append, List.map_cons] at hnumbers
      have hapart := (List.nodup_append.mp hnumbers).2.2 earlier.channelNumber
        (List.mem_map_of_mem hearlier) channel.channelNumber List.mem_cons_self
      rw [← hsnapshot] at hapart
      exact hapart
    · exact hfits.outside row hstart hout channel hmem
    · exact hfits.order channel hmem row hstart hin hlt
  have hkey : ∀ row ∈ state.1.rows, row.id ≠ channel.id → ∀ key,
      (ChannelRow.restored account channel channel.channelNumber).ownedKey = some key →
        row.ownedKey ≠ some key := by
    intro row hrow hne key hown hheld
    rw [ownedKey_restored] at hown
    obtain ⟨text, htext, rfl⟩ := Option.map_eq_some_iff.mp hown
    rcases h.cases hids hrow hne with ⟨earlier, hearlier, hsnapshot, hautomatic⟩ |
      ⟨hstart, hout⟩ | ⟨hstart, -, hlt⟩
    · rw [ownedKey_of_isAutomatic hautomatic] at hheld
      obtain ⟨other, hother, heq⟩ := Option.map_eq_some_iff.mp hheld
      have hsame : other = text := (Prod.mk.inj heq).2
      have hearlierKey : earlier.canonicalKey = some text := by
        rw [← hsnapshot, ← hsame]
        exact hother
      rw [List.filterMap_append, List.filterMap_cons_some htext] at hkeys
      exact (List.nodup_append.mp hkeys).2.2 text (List.mem_filterMap.mpr
        ⟨earlier, hearlier, hearlierKey⟩) text List.mem_cons_self rfl
    · exact hout (hfits.keys channel hmem text htext row hstart hheld).1
    · exact (hfits.keys channel hmem text htext row hstart hheld).2 hlt
  obtain ⟨after, hafter⟩ := @Channels.restoreRow_total state.1
    (ChannelRow.restored account channel channel.channelNumber) hnumber hkey
  refine ⟨after, restoreChannel_available (numberAvailable_iff.mpr hnumber) hafter, ?_, ?_⟩
  · intro row hrow
    rw [List.map_append, List.mem_append, not_or, List.map_singleton, List.mem_singleton] at hrow
    exact (Channels.mem_restoreRow_other hafter hrow.2).trans (h.others row hrow.1)
  · intro other hother
    rcases List.mem_append.mp hother with hother | hother
    · obtain ⟨row, hrow, hsnapshot, hautomatic⟩ := h.done other hother
      have hlt := (List.pairwise_append.mp hids).2.2 other hother channel List.mem_cons_self
      have hne : row.id ≠ channel.id := by
        have hid : row.id = other.id := congrArg SnapshotChannel.id hsnapshot
        rw [hid]
        exact hlt.ne
      exact ⟨row, (Channels.mem_restoreRow_other hafter hne).mpr hrow, hsnapshot, hautomatic⟩
    · obtain ⟨revision, hself⟩ := Channels.mem_restoreRow_self hafter
      rw [List.mem_singleton.mp hother]
      exact ⟨_, hself, rfl, decide_eq_true ⟨rfl, rfl⟩⟩

/-- The whole loop restores the channels of a snapshot that fits. -/
theorem restoreChannels_total {start : Channels} {done todo : List SnapshotChannel}
    (hids : (done ++ todo).Pairwise fun a b => a.id < b.id)
    (hnumbers : ((done ++ todo).map SnapshotChannel.channelNumber).Nodup)
    (hkeys : ((done ++ todo).filterMap SnapshotChannel.canonicalKey).Nodup)
    (hfits : Fitting account start (done ++ todo)) (h : Restoring account start done state.1) :
    ∃ after, todo.foldlM (restoreChannel sequence account) state = .ok (after, state.2) ∧
      Restoring account start (done ++ todo) after := by
  induction todo generalizing done state with
  | nil =>
    rw [List.append_nil]
    exact ⟨state.1, rfl, h⟩
  | cons channel todo ih =>
    obtain ⟨middle, hfirst, hmiddle⟩ :=
      @restoreChannel_total sequence account state channel start done todo hids hnumbers hkeys
        hfits h
    have hsplit : done ++ channel :: todo = (done ++ [channel]) ++ todo := by simp
    rw [hsplit] at hids hnumbers hkeys hfits ⊢
    obtain ⟨after, hrest, hafter⟩ := @ih (middle, state.2) _ hids hnumbers hkeys hfits hmiddle
    refine ⟨after, ?_, hafter⟩
    rw [List.foldlM_cons, hfirst, ok_bind]
    exact hrest

/-- A loop that has restored every number did not find any of them taken. -/
theorem fitting_of_restored {wanted : List SnapshotChannel}
    (hids : wanted.Pairwise fun a b => a.id < b.id)
    (h : wanted.foldlM (restoreChannel sequence account) state = .ok next)
    (hnumbers : ∀ channel ∈ wanted, ∃ row ∈ next.1.rows, row.id = channel.id ∧
      row.channelNumber = channel.channelNumber) :
    Fitting account state.1 wanted := by
  -- The turn of one channel: every row that it does not have yet is still there behind it.
  have hturn : ∀ channel ∈ wanted, ∃ after : Channels,
      (∃ row ∈ after.rows, row.id = channel.id ∧ row.channelNumber = channel.channelNumber ∧
        row.ownedKey = channel.canonicalKey.map fun key => (account, key)) ∧
      ∀ row ∈ state.1.rows, row.id ∉ wanted.map SnapshotChannel.id ∨ channel.id < row.id →
        row ∈ after.rows := by
    intro channel hchannel
    obtain ⟨done, todo, rfl⟩ := List.append_of_mem hchannel
    rw [List.foldlM_append] at h
    obtain ⟨before, hbefore, h⟩ := of_bind h
    obtain ⟨middle, hmiddle, hrest⟩ := of_bind h
    obtain ⟨channelNumber, hrestored⟩ := restoreChannel_ok hmiddle
    obtain ⟨hdone, htodo, hapart⟩ := List.pairwise_append.mp hids
    obtain ⟨hlater, -⟩ := List.pairwise_cons.mp htodo
    have hself : channel.id ∉ todo.map SnapshotChannel.id := fun hmem => by
      obtain ⟨other, hother, hid⟩ := List.mem_map.mp hmem
      exact (hlater other hother).ne hid.symm
    refine ⟨middle.1, ?_, ?_⟩
    · obtain ⟨revision, hrow⟩ := Channels.mem_restoreRow_self hrestored
      obtain ⟨last, hlast, hid, hnumber⟩ := hnumbers channel hchannel
      have hkept := (mem_restoreChannels_other hrest hself).mpr hrow
      have hsame := Table.eq_of_key next.1.ids hlast hkept hid
      refine ⟨_, hrow, rfl, ?_, @ownedKey_restored account channel channelNumber⟩
      rw [← hsame]
      exact hnumber
    · intro row hrow hfree
      have hne : row.id ≠ channel.id := by
        rcases hfree with hout | hlt
        · exact fun heq => hout (heq ▸ List.mem_map_of_mem hchannel)
        · exact hlt.ne'
      have hout : row.id ∉ done.map SnapshotChannel.id := by
        intro hmem
        rcases hfree with hfree | hlt
        · rw [List.map_append] at hfree
          exact hfree (List.mem_append_left _ hmem)
        · obtain ⟨earlier, hearlier, hid⟩ := List.mem_map.mp hmem
          have hearly := hapart earlier hearlier channel List.mem_cons_self
          rw [hid] at hearly
          exact absurd hlt hearly.not_gt
      exact (Channels.mem_restoreRow_other hrestored hne).mpr
        ((mem_restoreChannels_other hbefore hout).mpr hrow)
  have hnumber : ∀ channel ∈ wanted, ∀ row ∈ state.1.rows, row.id ≠ channel.id →
      row.id ∉ wanted.map SnapshotChannel.id ∨ channel.id < row.id →
        row.channelNumber ≠ channel.channelNumber := by
    intro channel hchannel row hrow hne hfree heq
    obtain ⟨after, ⟨own, hown, hid, hnumber, -⟩, hkept⟩ := hturn channel hchannel
    have hsame := Table.eq_of_key after.numbers (hkept row hrow hfree) hown (heq.trans hnumber.symm)
    exact hne (hsame ▸ hid)
  refine ⟨?_, ?_, ?_⟩
  · intro row hrow hout channel hchannel
    exact hnumber channel hchannel row hrow
      (fun heq => hout (heq ▸ List.mem_map_of_mem hchannel)) (.inl hout)
  · intro channel hchannel row hrow _ hlt
    exact hnumber channel hchannel row hrow hlt.ne' (.inr hlt)
  · intro channel hchannel key hkey row hrow hheld
    obtain ⟨after, ⟨own, hown, hid, -, hownKey⟩, hkept⟩ := hturn channel hchannel
    rw [hkey, Option.map_some] at hownKey
    by_contra hnot
    have hfree : row.id ∉ wanted.map SnapshotChannel.id ∨ channel.id < row.id := by
      by_contra hneither
      obtain ⟨hin, hle⟩ := not_or.mp hneither
      exact hnot ⟨not_not.mp hin, hle⟩
    have hmem := hkept row hrow hfree
    have hne : row ≠ own := fun heq => by
      rcases hfree with hout | hlt
      · exact hout (heq ▸ hid ▸ List.mem_map_of_mem hchannel)
      · rw [heq, hid] at hlt
        exact lt_irrefl _ hlt
    exact hne (eq_of_ownedKey after hmem hown hheld hownKey)

end Channels

end IptvRelay.Catalog
