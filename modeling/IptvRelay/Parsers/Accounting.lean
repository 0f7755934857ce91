import IptvRelay.Parsers.M3u
import IptvRelay.Parsers.Xmltv

/-!
# Accounting of the parsers

Every record that a parser has seen is emitted, skipped or still open. Of a playlist the open
record is the entry that waits for its url, of a guide it is the element that is not closed.
-/

namespace IptvRelay.Parsers

open Checked

/-! ## Playlists -/

/-- A diagnostic changes no counter of records. -/
theorem observe_records (stats : ParseStats) (diagnostic : Diagnostic) :
    (stats.observe diagnostic).recordsSeen = stats.recordsSeen ∧
      (stats.observe diagnostic).recordsEmitted = stats.recordsEmitted ∧
      (stats.observe diagnostic).recordsSkipped = stats.recordsSkipped := by
  unfold ParseStats.observe
  split <;> exact ⟨rfl, rfl, rfl⟩

/-- `seen = emitted + skipped + waiting`, with as many calls of the visitor as emitted. -/
structure Accounted (stats : ParseStats) (waiting visits : Nat) : Prop where
  seen : stats.recordsSeen = stats.recordsEmitted + stats.recordsSkipped + waiting
  emitted : visits = stats.recordsEmitted

theorem Accounted.observe {stats : ParseStats} {waiting visits : Nat}
    (h : Accounted stats waiting visits) (diagnostic : Diagnostic) :
    Accounted (stats.observe diagnostic) waiting visits := by
  obtain ⟨hseen, hemitted, hskipped⟩ := observe_records stats diagnostic
  exact ⟨by rw [hseen, hemitted, hskipped]; exact h.seen, by rw [hemitted]; exact h.emitted⟩

section Playlists

variable {Url Duration σ : Type} {env : M3uEnv Url Duration} {limits : ParseLimits}
  {visit : σ → M3uEntry Url Duration → Except ParseError σ} {s t : M3uState Url Duration σ}

structure PlaylistCounts (limits : ParseLimits) (s : M3uState Url Duration σ) : Prop where
  counts : Accounted s.playlist.stats s.pending.toList.length s.visits.length
  bound : s.playlist.stats.recordsEmitted ≤ limits.maxRecords

theorem Accounted.warning {playlist : M3uPlaylist} {waiting visits : Nat}
    {code : DiagnosticCode} {line : Option Nat} {message : String}
    (h : Accounted playlist.stats waiting visits) :
    Accounted (playlist.warning code line message).stats waiting visits :=
  h.observe ⟨.warning, code, line, none, message⟩

theorem foldl_pushDiagnostic_stats {waiting visits : Nat} (diagnostics : List Diagnostic)
    {playlist : M3uPlaylist} (h : Accounted playlist.stats waiting visits) :
    Accounted (diagnostics.foldl M3uPlaylist.pushDiagnostic playlist).stats waiting visits := by
  induction diagnostics generalizing playlist with
  | nil => exact h
  | cons diagnostic diagnostics ih => exact ih (h.observe diagnostic)

theorem Accounted.replacePending {playlist : M3uPlaylist}
    {pending : Option (PendingEntry Duration)} {visits : Nat}
    (hseen : playlist.stats.recordsSeen = playlist.stats.recordsEmitted +
      playlist.stats.recordsSkipped + pending.toList.length + 1)
    (hemitted : visits = playlist.stats.recordsEmitted) :
    Accounted (Parsers.replacePending playlist pending).stats 1 visits := by
  cases pending with
  | none => exact ⟨hseen, hemitted⟩
  | some previous =>
    rw [Option.toList_some, List.length_singleton] at hseen
    have hskip : Accounted playlist.skipRecord.stats 1 visits := by
      refine ⟨?_, hemitted⟩
      simp only [M3uPlaylist.skipRecord]
      omega
    exact hskip.warning

theorem playlistCounts_extinf {number : Nat} {line : List Char} (h : PlaylistCounts limits s)
    (hstep : extinfLine env limits s number line = .ok t) : PlaylistCounts limits t := by
  obtain ⟨⟨hseen, hemitted⟩, hbound⟩ := h
  unfold extinfLine at hstep
  obtain ⟨_, -, hstep⟩ := of_bind hstep
  obtain rfl := of_pure hstep
  have hreplaced : Accounted (replacePending { s.playlist with
      stats.recordsSeen := s.playlist.stats.recordsSeen + 1 } s.pending).stats 1
      s.visits.length := Accounted.replacePending (congrArg (· + 1) hseen) hemitted
  have hcounts := foldl_pushDiagnostic_stats (parseExtinf env line number).2.1 hreplaced
  exact ⟨⟨hcounts.seen, hcounts.emitted⟩, (hcounts.emitted.symm.trans hemitted).trans_le hbound⟩

theorem observeDirective_counts {playlist : M3uPlaylist} {directive : M3uDirective}
    {waiting visits : Nat} (h : Accounted playlist.stats waiting visits) :
    Accounted (playlist.observeDirective directive).stats waiting visits := by
  unfold M3uPlaylist.observeDirective
  split_ifs
  · exact h
  · exact ⟨h.seen, h.emitted⟩

theorem playlistCounts_directive {line : List Char} (h : PlaylistCounts limits s) :
    PlaylistCounts limits (directiveLine s line) := by
  have hcounts : Accounted (s.playlist.observeDirective (parseDirective line)).stats
      s.pending.toList.length s.visits.length := observeDirective_counts h.counts
  have hbound : (s.playlist.observeDirective (parseDirective line)).stats.recordsEmitted ≤
      limits.maxRecords := (hcounts.emitted.symm.trans h.counts.emitted).trans_le h.bound
  unfold directiveLine
  cases hpending : s.pending with
  | some entry =>
    rw [hpending] at hcounts
    exact ⟨hcounts, hbound⟩
  | none =>
    rw [hpending] at hcounts
    exact ⟨hcounts, hbound⟩

/-- The entry of a url counts as seen, in either way. -/
theorem takeEntry_counts (h : PlaylistCounts limits s) (number : Nat) (url : Url) :
    Accounted (takeEntry s number url).1.stats 1 s.visits.length := by
  obtain ⟨⟨hseen, hemitted⟩, -⟩ := h
  unfold takeEntry
  cases hpending : s.pending with
  | some pending =>
    rw [hpending] at hseen
    exact ⟨hseen, hemitted⟩
  | none =>
    rw [hpending] at hseen
    have hwarned : Accounted (s.playlist.warning .orphanUrl (some number)
        "URL has no preceding EXTINF; preserving it as an unnamed entry").stats 0
        s.visits.length := Accounted.warning ⟨hseen, hemitted⟩
    exact ⟨congrArg (· + 1) hwarned.seen, hwarned.emitted⟩

theorem playlistCounts_url {number : Nat} {url : Url} (h : PlaylistCounts limits s)
    (hstep : urlLine limits visit s number url = .ok t) : PlaylistCounts limits t := by
  have hcounts := takeEntry_counts h number url
  unfold urlLine at hstep
  obtain ⟨_, hlimit, hstep⟩ := of_bind hstep
  have hlimit := of_ensure hlimit
  rw [← h.counts.emitted, hcounts.emitted] at hlimit
  generalize takeEntry s number url = taken at hcounts hlimit hstep
  obtain ⟨playlist, entry⟩ := taken
  obtain ⟨next, -, hstep⟩ := of_bind hstep
  obtain rfl := of_pure hstep
  obtain ⟨hseen, hemitted⟩ := hcounts
  refine ⟨⟨?_, ?_⟩, hlimit⟩
  · simp only [Option.toList_none, List.length_nil]
    simp only at hseen
    omega
  · simp only [List.length_append, List.length_singleton]
    simp only at hemitted
    omega

theorem playlistCounts_invalidUrl {number : Nat} {error : String} (h : PlaylistCounts limits s) :
    PlaylistCounts limits (invalidUrlLine s number error) := by
  obtain ⟨⟨hseen, hemitted⟩, hbound⟩ := h
  unfold invalidUrlLine
  cases hpending : s.pending with
  | some pending =>
    rw [hpending, Option.toList_some, List.length_singleton] at hseen
    refine ⟨⟨?_, hemitted⟩, hbound⟩
    simp only [Option.isSome_some, if_true, M3uPlaylist.skipRecord, M3uPlaylist.pushDiagnostic,
      ParseStats.observe, Option.toList_none, List.length_nil]
    omega
  | none =>
    rw [hpending] at hseen
    exact ⟨⟨hseen, hemitted⟩, hbound⟩

theorem playlistCounts_content {number : Nat} {line : List Char} (h : PlaylistCounts limits s)
    (hstep : contentLine env limits visit s number line = .ok t) : PlaylistCounts limits t := by
  unfold contentLine at hstep
  split_ifs at hstep
  · exact playlistCounts_extinf h hstep
  · obtain rfl := Except.ok.inj hstep
    exact playlistCounts_directive h
  · split at hstep
    · exact playlistCounts_url h hstep
    · obtain rfl := Except.ok.inj hstep
      exact playlistCounts_invalidUrl h

theorem PlaylistCounts.warning {code : DiagnosticCode} {line : Option Nat} {message : String}
    (h : PlaylistCounts limits s) :
    PlaylistCounts limits
      { s with sawContent := true, playlist := s.playlist.warning code line message } := by
  have hcounts : Accounted (s.playlist.warning code line message).stats s.pending.toList.length
      s.visits.length := h.counts.warning
  exact ⟨hcounts, (hcounts.emitted.symm.trans h.counts.emitted).trans_le h.bound⟩

/-- One line keeps the books. -/
theorem playlistCounts_step {number : Nat} {line : String} (h : PlaylistCounts limits s)
    (hstep : stepLine env limits visit s number line = .ok t) : PlaylistCounts limits t := by
  have hread : PlaylistCounts limits
      { s with playlist.stats.linesRead := s.playlist.stats.linesRead + 1 } :=
    ⟨⟨h.counts.seen, h.counts.emitted⟩, h.bound⟩
  unfold stepLine at hstep
  simp only at hstep
  split_ifs at hstep
  · obtain rfl := Except.ok.inj hstep
    exact hread
  · exact playlistCounts_content hread hstep
  · obtain rfl := Except.ok.inj hstep
    exact ⟨⟨h.counts.seen, h.counts.emitted⟩, h.bound⟩
  · exact playlistCounts_content hread.warning hstep

/-- So does the whole playlist. -/
theorem playlistCounts_run {reader last : LineReader} (h : PlaylistCounts limits s)
    (hrun : runLines env limits visit s reader = .ok (t, last)) : PlaylistCounts limits t := by
  induction s, reader using runLines.induct limits with
  | case1 s reader error hnext =>
    rw [runLines, hnext] at hrun
    cases hrun
  | case2 s reader next hnext =>
    rw [runLines, hnext] at hrun
    obtain ⟨rfl, -⟩ := Prod.mk.inj (Except.ok.inj hrun)
    exact h
  | case3 s reader number line next hnext ih =>
    rw [runLines, hnext] at hrun
    obtain ⟨u, hstep, hrun⟩ := of_bind hrun
    exact ih u (playlistCounts_step h hstep) hrun

/-- The warning about an empty playlist counts no record. -/
theorem Accounted.emptyPlaylist {playlist : M3uPlaylist} {visits : Nat} (empty : Bool)
    (h : Accounted playlist.stats 0 visits) :
    Accounted (if empty = true then playlist.warning .missingHeader none "empty playlist"
      else playlist).stats 0 visits := by
  split
  · exact h.warning
  · exact h

/-- The entry at the end of the input is skipped. -/
theorem finishPlaylist_counts {bytesRead : Nat} (h : PlaylistCounts limits s) :
    Accounted (finishPlaylist s bytesRead).stats 0 s.visits.length := by
  obtain ⟨⟨hseen, hemitted⟩, -⟩ := h
  unfold finishPlaylist
  cases hpending : s.pending with
  | none =>
    rw [hpending] at hseen
    have hsame : Accounted s.playlist.stats 0 s.visits.length := ⟨hseen, hemitted⟩
    have hend := hsame.emptyPlaylist (!s.sawHeader && !s.sawContent)
    exact ⟨hend.seen, hend.emitted⟩
  | some entry =>
    rw [hpending] at hseen
    have hskip : Accounted s.playlist.skipRecord.stats 0 s.visits.length := ⟨hseen, hemitted⟩
    have hwarned := @Accounted.warning _ _ _ .orphanMetadata (some entry.line)
      "EXTINF at end of input has no URL" hskip
    have hend := hwarned.emptyPlaylist (!s.sawHeader && !s.sawContent)
    exact ⟨hend.seen, hend.emitted⟩

theorem finishPlaylist_severities (s : M3uState Url Duration σ) (bytesRead : Nat) :
    (finishPlaylist s bytesRead).stats.warnings =
        (finishPlaylist s bytesRead).countSeverity .warning ∧
      (finishPlaylist s bytesRead).stats.errors =
        (finishPlaylist s bytesRead).countSeverity .error := ⟨rfl, rfl⟩

end Playlists

/-! ## Guides -/

section Guides

variable {Url Digest σ : Type} {env : XmltvEnv Url Digest}
  {limits : ParseLimits} {defaultTimezone : String} {visitor : Visitor Url σ}
  {s t : XmltvState Url Digest σ}

def visitedProgrammes (visits : List (Visit Url)) : List (Programme Url) :=
  visits.filterMap fun
    | .programme programme => some programme
    | .channel _ => none

/-- What the visitors have got, with some records still open. -/
structure VisitsOk (env : XmltvEnv Url Digest) (s : XmltvState Url Digest σ) (waiting : Nat) :
    Prop where
  counts : Accounted s.document.stats waiting s.visits.length
  fingerprints : s.fingerprints = (visitedProgrammes s.visits).map env.fingerprint
  distinct : s.fingerprints.Nodup
  intervals : ∀ programme ∈ visitedProgrammes s.visits,
    ∀ stop ∈ programme.stop, programme.start < stop

/-- The counters of records. -/
def XmltvDocument.records (document : XmltvDocument) : Nat × Nat × Nat :=
  (document.stats.recordsSeen, document.stats.recordsEmitted, document.stats.recordsSkipped)

theorem Accounted.of_records {before after : XmltvDocument} {waiting visits : Nat}
    (h : Accounted before.stats waiting visits) (hsame : after.records = before.records) :
    Accounted after.stats waiting visits := by
  obtain ⟨hseen, hrest⟩ := Prod.mk.inj hsame
  obtain ⟨hemitted, hskipped⟩ := Prod.mk.inj hrest
  exact ⟨by rw [hseen, hemitted, hskipped]; exact h.seen, by rw [hemitted]; exact h.emitted⟩

/-- The places of the loop that a finished record leaves alone. -/
structure SamePlaces (s t : XmltvState Url Digest σ) : Prop where
  channel : t.channel = s.channel
  programme : t.programme = s.programme
  capture : t.capture = s.capture
  depth : t.depth = s.depth

/-- A record that was open is emitted or skipped. -/
structure Finished (before after : XmltvDocument) (emitted : Nat) : Prop where
  seen : after.stats.recordsSeen = before.stats.recordsSeen
  total : after.stats.recordsEmitted + after.stats.recordsSkipped =
    before.stats.recordsEmitted + before.stats.recordsSkipped + 1
  emitted : after.stats.recordsEmitted = before.stats.recordsEmitted + emitted

theorem Finished.accounted {before after : XmltvDocument} {emitted visits : Nat}
    (h : Finished before after emitted) (hopen : Accounted before.stats 1 visits) :
    Accounted after.stats 0 (visits + emitted) := by
  obtain ⟨hseen, htotal, hemitted⟩ := h
  obtain ⟨hsum, hvisits⟩ := hopen
  exact ⟨by omega, by omega⟩

theorem finishChannel_finished {builder : ChannelBuilder Url} {document after : XmltvDocument}
    {declared names : List String} {offset : Nat} {channel : Option (EpgChannel Url)}
    (h : finishChannel env builder document declared offset = (after, names, channel)) :
    Finished document after channel.toList.length := by
  unfold finishChannel at h
  split at h
  · obtain ⟨rfl, hrest⟩ := Prod.mk.inj h
    obtain ⟨-, rfl⟩ := Prod.mk.inj hrest
    exact ⟨rfl, rfl, rfl⟩
  · obtain ⟨rfl, hrest⟩ := Prod.mk.inj h
    obtain ⟨-, rfl⟩ := Prod.mk.inj hrest
    split_ifs
    · exact ⟨rfl, Nat.add_right_comm _ _ _, rfl⟩
    · exact ⟨rfl, Nat.add_right_comm _ _ _, rfl⟩

/-- A programme that is built ends after it starts. -/
theorem build_interval {builder : ProgrammeBuilder Url} {programme : Programme Url}
    (h : builder.build env defaultTimezone = .ok programme) :
    ∀ stop ∈ programme.stop, programme.start < stop := by
  unfold ProgrammeBuilder.build at h
  split at h
  · cases h
  · cases h
  · obtain ⟨start, -, h⟩ := of_bind h
    obtain ⟨stop, -, h⟩ := of_bind h
    obtain ⟨_, hafter, h⟩ := of_bind h
    obtain rfl := of_pure h
    intro utc hutc
    obtain ⟨value, hvalue, rfl⟩ := Option.map_eq_some_iff.mp hutc
    exact of_ensure hafter value hvalue

theorem finishProgramme_finished {builder : ProgrammeBuilder Url} {document after : XmltvDocument}
    {offset : Nat} {programme : Option (Programme Url)}
    (h : finishProgramme env defaultTimezone builder document offset = (after, programme)) :
    Finished document after programme.toList.length ∧
      ∀ built ∈ programme, builder.build env defaultTimezone = .ok built := by
  unfold finishProgramme at h
  split at h
  · obtain ⟨rfl, rfl⟩ := Prod.mk.inj h
    exact ⟨⟨rfl, rfl, rfl⟩, nofun⟩
  · rename_i built hbuilt
    obtain ⟨rfl, rfl⟩ := Prod.mk.inj h
    refine ⟨⟨rfl, Nat.add_right_comm _ _ _, rfl⟩, fun other hother => ?_⟩
    rw [hbuilt, Option.mem_some_iff.mp hother]

/-- A closed channel is emitted or skipped. -/
theorem closeChannel_ok {builder : ChannelBuilder Url} {offset : Nat} (h : VisitsOk env s 1)
    (hstep : closeChannel env visitor s builder offset = .ok t) :
    VisitsOk env t 0 ∧ SamePlaces s t := by
  unfold closeChannel at hstep
  generalize hfinish : finishChannel env builder s.document s.declared offset = finished at hstep
  obtain ⟨document, declared, channel⟩ := finished
  have hcounts := (finishChannel_finished hfinish).accounted h.counts
  cases channel with
  | none =>
    obtain rfl := Except.ok.inj hstep
    exact ⟨⟨hcounts, h.fingerprints, h.distinct, h.intervals⟩, ⟨rfl, rfl, rfl, rfl⟩⟩
  | some channel =>
    unfold visitChannel at hstep
    obtain ⟨next, -, hstep⟩ := of_bind hstep
    obtain rfl := of_pure hstep
    have hvisits : visitedProgrammes (s.visits ++ [.channel channel]) =
        visitedProgrammes s.visits := by simp [visitedProgrammes]
    refine ⟨⟨?_, ?_, h.distinct, ?_⟩, ⟨rfl, rfl, rfl, rfl⟩⟩
    · simpa using hcounts
    · rw [hvisits]
      exact h.fingerprints
    · rw [hvisits]
      exact h.intervals

variable [DecidableEq Digest]

/-- A repeated programme is taken back, every other one is visited. -/
theorem visitUniqueProgramme_ok {programme : Programme Url} {offset : Nat}
    (hcounts : Accounted s.document.stats 0 (s.visits.length + 1))
    (hfingerprints : s.fingerprints = (visitedProgrammes s.visits).map env.fingerprint)
    (hdistinct : s.fingerprints.Nodup)
    (hintervals : ∀ programme ∈ visitedProgrammes s.visits,
      ∀ stop ∈ programme.stop, programme.start < stop)
    (hinterval : ∀ stop ∈ programme.stop, programme.start < stop)
    (hstep : visitUniqueProgramme env visitor s programme offset = .ok t) :
    VisitsOk env t 0 ∧ SamePlaces s t := by
  unfold visitUniqueProgramme at hstep
  simp only at hstep
  split_ifs at hstep with hknown
  · obtain rfl := of_pure hstep
    obtain ⟨hseen, hemitted⟩ := hcounts
    refine ⟨⟨⟨?_, ?_⟩, hfingerprints, hdistinct, hintervals⟩, ⟨rfl, rfl, rfl, rfl⟩⟩
    · simp only [XmltvDocument.warning, XmltvDocument.pushDiagnostic, ParseStats.observe,
        XmltvDocument.withdrawRecord]
      omega
    · simp only [XmltvDocument.warning, XmltvDocument.pushDiagnostic, ParseStats.observe,
        XmltvDocument.withdrawRecord]
      omega
  · obtain ⟨next, -, hstep⟩ := of_bind hstep
    obtain rfl := of_pure hstep
    have hvisits : visitedProgrammes (s.visits ++ [.programme programme]) =
        visitedProgrammes s.visits ++ [programme] := by simp [visitedProgrammes]
    refine ⟨⟨?_, ?_, ?_, ?_⟩, ⟨rfl, rfl, rfl, rfl⟩⟩
    · rw [List.length_append, List.length_singleton]
      exact hcounts
    · rw [hvisits, List.map_append, ← hfingerprints]
      rfl
    · exact List.nodup_append.mpr ⟨hdistinct, List.nodup_singleton _, by
        rintro a ha b hb rfl
        exact hknown (List.mem_singleton.mp hb ▸ ha)⟩
    · rw [hvisits]
      intro other hother
      rcases List.mem_append.mp hother with hold | hnew
      · exact hintervals other hold
      · rw [List.mem_singleton.mp hnew]
        exact hinterval

/-- A closed programme is emitted or skipped. -/
theorem closeProgramme_ok {builder : ProgrammeBuilder Url} {offset : Nat} (h : VisitsOk env s 1)
    (hstep : closeProgramme env defaultTimezone visitor s builder offset = .ok t) :
    VisitsOk env t 0 ∧ SamePlaces s t := by
  unfold closeProgramme at hstep
  generalize hfinish : finishProgramme env defaultTimezone builder s.document offset =
    finished at hstep
  obtain ⟨document, programme⟩ := finished
  obtain ⟨hfinished, hbuilt⟩ := finishProgramme_finished hfinish
  have hcounts := hfinished.accounted h.counts
  cases programme with
  | none =>
    obtain rfl := Except.ok.inj hstep
    exact ⟨⟨hcounts, h.fingerprints, h.distinct, h.intervals⟩, ⟨rfl, rfl, rfl, rfl⟩⟩
  | some programme =>
    obtain ⟨hvisits, hplaces⟩ := visitUniqueProgramme_ok
      (s := { s with document, referenced := insertDistinct s.referenced programme.channelId })
      hcounts h.fingerprints h.distinct h.intervals (build_interval (hbuilt programme rfl)) hstep
    exact ⟨hvisits, hplaces.channel, hplaces.programme, hplaces.capture, hplaces.depth⟩

/-! ### Places -/

/-- The content of an open record changes at most. -/
structure Inside (s t : XmltvState Url Digest σ) : Prop where
  records : t.document.records = s.document.records
  channel : t.channel.isSome = s.channel.isSome
  programme : t.programme.isSome = s.programme.isSome
  fingerprints : t.fingerprints = s.fingerprints
  visits : t.visits = s.visits

omit [DecidableEq Digest] in
theorem Inside.visitsOk {waiting : Nat} (h : Inside s t) (hs : VisitsOk env s waiting) :
    VisitsOk env t waiting := by
  refine ⟨?_, ?_, ?_, ?_⟩
  · rw [h.visits]
    exact hs.counts.of_records h.records
  · rw [h.fingerprints, h.visits]
    exact hs.fingerprints
  · rw [h.fingerprints]
    exact hs.distinct
  · rw [h.visits]
    exact hs.intervals

omit [DecidableEq Digest] in
theorem parseIcon_records (attributes : Attributes) (document : XmltvDocument) (offset : Nat) :
    (parseIcon env attributes document offset).1.records = document.records := by
  unfold parseIcon
  split
  · rfl
  · split <;> rfl

omit [DecidableEq Digest] in
theorem parseIcons_records (document : XmltvDocument) (offset : Nat)
    (entries : List ExtensionElement) :
    (parseIcons env document offset entries).1.records = document.records := by
  induction entries generalizing document with
  | nil => rfl
  | cons entry rest ih => exact (ih _).trans (parseIcon_records ..)

omit [DecidableEq Digest] in
theorem finishChannelCapture_records (capture : Capture) (channel : ChannelBuilder Url)
    (document : XmltvDocument) (offset : Nat) :
    (finishChannelCapture env capture channel document offset).2.records = document.records := by
  unfold finishChannelCapture
  simp only
  split_ifs
  · rfl
  · split <;> rfl
  · rfl

omit [DecidableEq Digest] in
theorem records_ite {c : Prop} [Decidable c] {a b : ProgrammeBuilder Url × XmltvDocument}
    {records : Nat × Nat × Nat} (ha : a.2.records = records) (hb : b.2.records = records) :
    (if c then a else b).2.records = records := by
  split
  · exact ha
  · exact hb

omit [DecidableEq Digest] in
theorem finishProgrammeCapture_records (capture : Capture) (programme : ProgrammeBuilder Url)
    (document : XmltvDocument) (offset : Nat) :
    (finishProgrammeCapture env capture programme document offset).2.records =
      document.records := by
  unfold finishProgrammeCapture
  refine records_ite rfl (records_ite rfl (records_ite rfl (records_ite rfl (records_ite rfl
    (records_ite rfl (records_ite ?_ (records_ite rfl (records_ite rfl rfl))))))))
  exact records_ite rfl (parseIcons_records ..)

omit [DecidableEq Digest] in
/-- A captured element ends inside its record. -/
theorem finishCapture_inside (capture : Capture) (offset : Nat) :
    Inside s (finishCapture env s capture offset) ∧
      (finishCapture env s capture offset).capture = s.capture ∧
      (finishCapture env s capture offset).depth = s.depth := by
  unfold finishCapture
  split
  · rename_i channel hchannel
    refine ⟨⟨finishChannelCapture_records .., ?_, rfl, rfl, rfl⟩, rfl, rfl⟩
    rw [hchannel]
    rfl
  · rename_i programme hchannel hprogramme
    refine ⟨⟨finishProgrammeCapture_records .., rfl, ?_, rfl, rfl⟩, rfl, rfl⟩
    rw [hprogramme]
    rfl
  · exact ⟨⟨rfl, rfl, rfl, rfl, rfl⟩, rfl, rfl⟩

omit [DecidableEq Digest] in
theorem handleEmpty_inside (offset : Nat) (name : String) (attributes : Attributes) :
    Inside s (handleEmpty env s offset name attributes) ∧
      (handleEmpty env s offset name attributes).capture = s.capture ∧
      (handleEmpty env s offset name attributes).depth = s.depth := by
  unfold handleEmpty
  by_cases hname : name = "icon"
  · simp only [if_pos hname]
    have hicon : (parseIcon env attributes s.document offset).1.records = s.document.records :=
      parseIcon_records ..
    split
    · rename_i icon channel _ hchannel
      exact ⟨⟨hicon, by rw [hchannel]; rfl, rfl, rfl, rfl⟩, rfl, rfl⟩
    · rename_i icon programme _ hchannel hprogramme
      exact ⟨⟨hicon, rfl, by rw [hprogramme]; rfl, rfl, rfl⟩, rfl, rfl⟩
    · exact ⟨⟨hicon, rfl, rfl, rfl, rfl⟩, rfl, rfl⟩
  · simp only [if_neg hname]
    split
    · rename_i programme hprogramme
      split_ifs
      all_goals exact ⟨⟨rfl, rfl, by rw [hprogramme]; rfl, rfl, rfl⟩, rfl, rfl⟩
    · rename_i channel hprogramme hchannel
      exact ⟨⟨rfl, by rw [hchannel]; rfl, rfl, rfl, rfl⟩, rfl, rfl⟩
    · exact ⟨⟨rfl, rfl, rfl, rfl, rfl⟩, rfl, rfl⟩

/-! ### Nesting -/

/-- The reader checks that an end closes the innermost open element. -/
def nestEvent (stack : List String) : XmlEvent → Option (List String)
  | .start name _ => some (name :: stack)
  | .finish name => if stack.head? = some name then some stack.tail else none
  | _ => some stack

/-- The open elements behind the events, the innermost one first. -/
def openElements (stack : List String) : List (Nat × XmlEvent) → Option (List String)
  | [] => some stack
  | (_, event) :: rest => (nestEvent stack event).bind fun stack => openElements stack rest

/-- The elements that are records. -/
def isRecord (name : String) : Bool := name = "channel" ∨ name = "programme"

/-- The outermost record is open, and inside it as many elements as are captured. -/
def InRecord (record : String) (stack : List String) (capture : Option Capture) : Prop :=
  ∃ inner rest, stack = inner ++ record :: rest ∧ (∀ name ∈ rest, isRecord name = false) ∧
    inner.length = (capture.map Capture.depth).getD 0 ∧ ∀ active ∈ capture, 0 < active.depth

/-- Which record the open elements belong to. -/
inductive RecordOpen (stack : List String) : Bool → Bool → Option Capture → Prop where
  | outside : (∀ name ∈ stack, isRecord name = false) → RecordOpen stack false false none
  | channel {capture : Option Capture} : InRecord "channel" stack capture →
      RecordOpen stack true false capture
  | programme {capture : Option Capture} : InRecord "programme" stack capture →
      RecordOpen stack false true capture

def openRecords (s : XmltvState Url Digest σ) : Nat :=
  s.channel.isSome.toNat + s.programme.isSome.toNat

/-- What every round of the loop keeps. -/
structure GuideOk (env : XmltvEnv Url Digest) (stack : List String)
    (s : XmltvState Url Digest σ) : Prop where
  depth : s.depth = stack.length
  record : RecordOpen stack s.channel.isSome s.programme.isSome s.capture
  visits : VisitsOk env s (openRecords s)

omit [DecidableEq Digest] in
/-- A change inside of a record keeps the books. -/
theorem GuideOk.inside {stack stack' : List String} (hs : GuideOk env stack s) (h : Inside s t)
    (hdepth : t.depth = stack'.length)
    (hrecord : RecordOpen stack' s.channel.isSome s.programme.isSome t.capture) :
    GuideOk env stack' t := by
  refine ⟨hdepth, ?_, ?_⟩
  · rw [h.channel, h.programme]
    exact hrecord
  · rw [openRecords, h.channel, h.programme]
    exact h.visitsOk hs.visits

/-- Inside of a record, elements open and close with their captures. -/
theorem RecordOpen.of_inRecord {stack stack' : List String} {channel programme : Bool}
    {capture capture' : Option Capture} (h : RecordOpen stack channel programme capture)
    (hopen : channel = true ∨ programme = true)
    (hin : ∀ record, InRecord record stack capture → InRecord record stack' capture') :
    RecordOpen stack' channel programme capture' := by
  cases h with
  | outside hnone => simp at hopen
  | channel hrecord => exact .channel (hin _ hrecord)
  | programme hrecord => exact .programme (hin _ hrecord)

theorem RecordOpen.of_active {stack : List String} {channel programme : Bool} {active : Capture}
    (h : RecordOpen stack channel programme (some active)) :
    channel = true ∨ programme = true := by
  cases h with
  | channel => exact .inl rfl
  | programme => exact .inr rfl

theorem RecordOpen.stack_of_outside {Channel Programme : Type} {stack : List String}
    {channel : Option Channel} {programme : Option Programme} {capture : Option Capture}
    (h : RecordOpen stack channel.isSome programme.isSome capture) (hchannel : channel.isNone)
    (hprogramme : programme.isNone) : ∀ name ∈ stack, isRecord name = false := by
  rw [Option.isNone_iff_eq_none] at hchannel hprogramme
  rw [hchannel, hprogramme] at h
  cases h with
  | outside hnone => exact hnone

theorem RecordOpen.of_nil {channel programme : Bool} {capture : Option Capture}
    (h : RecordOpen [] channel programme capture) :
    channel = false ∧ programme = false ∧ capture = none := by
  cases h with
  | outside hnone => exact ⟨rfl, rfl, rfl⟩
  | channel hin =>
    obtain ⟨inner, rest, hnil, -⟩ := hin
    simp at hnil
  | programme hin =>
    obtain ⟨inner, rest, hnil, -⟩ := hin
    simp at hnil

omit [DecidableEq Digest] in
/-- A record that begins outside of another one. -/
theorem GuideOk.seeRecord {stack : List String} {document : XmltvDocument}
    (h : GuideOk env stack s) (hchannel : s.channel.isNone) (hprogramme : s.programme.isNone)
    (hsee : s.document.seeRecord limits = .ok document) :
    Accounted document.stats 1 s.visits.length := by
  have hcounts := h.visits.counts
  have hzero : openRecords s = 0 := by
    rw [openRecords, Option.isNone_iff_eq_none.mp hchannel, Option.isNone_iff_eq_none.mp hprogramme]
    rfl
  rw [hzero] at hcounts
  unfold XmltvDocument.seeRecord at hsee
  obtain ⟨_, -, hsee⟩ := of_bind hsee
  obtain rfl := of_pure hsee
  exact ⟨congrArg (· + 1) hcounts.seen, hcounts.emitted⟩

omit [DecidableEq Digest] in
theorem guideOk_start {stack : List String} {offset : Nat} {name : String}
    {attributes : List (Except String (String × String))} (h : GuideOk env stack s)
    (hstep : startElement limits s offset name attributes = .ok t) :
    GuideOk env (name :: stack) t := by
  have hrecord := h.record
  have hdepth : s.depth + 1 = (name :: stack).length := congrArg (· + 1) h.depth
  unfold startElement at hstep
  obtain ⟨_, -, hstep⟩ := of_bind hstep
  obtain ⟨found, -, hstep⟩ := of_bind hstep
  cases hcapture : s.capture with
  | some active =>
    rw [hcapture] at hrecord
    simp only [hcapture] at hstep
    obtain rfl := of_pure hstep
    refine h.inside ⟨rfl, rfl, rfl, rfl, rfl⟩ hdepth (hrecord.of_inRecord hrecord.of_active ?_)
    rintro record ⟨inner, rest, rfl, hrest, hlength, -⟩
    refine ⟨name :: inner, rest, rfl, hrest, congrArg (· + 1) hlength, ?_⟩
    rintro other ⟨⟩
    exact Nat.succ_pos _
  | none =>
    rw [hcapture] at hrecord
    simp only [hcapture] at hstep
    split_ifs at hstep with htv hchannel hprogramme hopen
    · obtain rfl := of_pure hstep
      refine h.inside ⟨rfl, rfl, rfl, rfl, rfl⟩ hdepth ?_
      -- At depth one no element has been open.
      have hstack : stack = [] := by
        have hone : s.depth + 1 = 1 := htv.2
        rw [h.depth] at hone
        exact List.length_eq_zero_iff.mp (Nat.succ.inj hone)
      subst hstack
      obtain ⟨hchannel, hprogramme, -⟩ := hrecord.of_nil
      rw [hchannel, hprogramme]
      refine .outside ?_
      simp [htv.1, isRecord]
    · obtain ⟨document, hsee, hstep⟩ := of_bind hstep
      obtain rfl := of_pure hstep
      obtain ⟨rfl, hnone, hnone'⟩ := hchannel
      have hcounts := h.seeRecord hnone hnone' hsee
      have houtside := hrecord.stack_of_outside hnone hnone'
      rw [Option.isNone_iff_eq_none] at hnone'
      refine ⟨hdepth, ?_, ?_, h.visits.fingerprints, h.visits.distinct, h.visits.intervals⟩
      · rw [hnone']
        exact .channel ⟨[], stack, rfl, houtside, rfl, nofun⟩
      · simp only [openRecords, hnone']
        exact hcounts
    · obtain ⟨document, hsee, hstep⟩ := of_bind hstep
      obtain rfl := of_pure hstep
      obtain ⟨rfl, hnone, hnone'⟩ := hprogramme
      have hcounts := h.seeRecord hnone hnone' hsee
      have houtside := hrecord.stack_of_outside hnone hnone'
      rw [Option.isNone_iff_eq_none] at hnone
      refine ⟨hdepth, ?_, ?_, h.visits.fingerprints, h.visits.distinct, h.visits.intervals⟩
      · rw [hnone]
        exact .programme ⟨[], stack, rfl, houtside, rfl, nofun⟩
      · simp only [openRecords, hnone]
        exact hcounts
    · obtain rfl := of_pure hstep
      refine h.inside ⟨rfl, rfl, rfl, rfl, rfl⟩ hdepth (hrecord.of_inRecord hopen ?_)
      rintro record ⟨inner, rest, rfl, hrest, hlength, -⟩
      obtain rfl := List.length_eq_zero_iff.mp hlength
      refine ⟨[name], rest, rfl, hrest, rfl, ?_⟩
      rintro other ⟨⟩
      exact Nat.succ_pos _
    · obtain rfl := of_pure hstep
      refine h.inside ⟨rfl, rfl, rfl, rfl, rfl⟩ hdepth ?_
      obtain ⟨hnochannel, hnoprogramme⟩ := not_or.mp hopen
      have hnone : s.channel.isNone := by simpa using hnochannel
      have hnone' : s.programme.isNone := by simpa using hnoprogramme
      have houtside := hrecord.stack_of_outside hnone hnone'
      simp only [Bool.not_eq_true] at hnochannel hnoprogramme
      rw [hnochannel, hnoprogramme]
      refine .outside (List.forall_mem_cons.mpr ⟨?_, houtside⟩)
      have hname : name ≠ "channel" := fun heq => hchannel ⟨heq, hnone, hnone'⟩
      have hname' : name ≠ "programme" := fun heq => hprogramme ⟨heq, hnone, hnone'⟩
      simp [isRecord, hname, hname']

omit [DecidableEq Digest] in
/-- Outside of records every one is emitted or skipped. -/
theorem GuideOk.outside {stack : List String} (hvisits : VisitsOk env t 0)
    (hplaces : t.channel = none ∧ t.programme = none ∧ t.capture = none)
    (hstack : ∀ name ∈ stack, isRecord name = false)
    (hdepth : t.depth = stack.length) : GuideOk env stack t := by
  obtain ⟨hchannel, hprogramme, hcapture⟩ := hplaces
  refine ⟨hdepth, ?_, ?_⟩
  · rw [hchannel, hprogramme, hcapture]
    exact .outside hstack
  · rw [openRecords, hchannel, hprogramme]
    exact hvisits

theorem guideOk_empty {stack : List String} {offset : Nat} {name : String}
    {attributes : List (Except String (String × String))} (h : GuideOk env stack s)
    (hstep : emptyElement env limits defaultTimezone visitor s offset name attributes = .ok t) :
    GuideOk env stack t := by
  unfold emptyElement at hstep
  obtain ⟨found, -, hstep⟩ := of_bind hstep
  cases hcapture : s.capture with
  | some active =>
    have hrecord := h.record
    rw [hcapture] at hrecord
    simp only [hcapture] at hstep
    obtain rfl := of_pure hstep
    refine h.inside ⟨rfl, rfl, rfl, rfl, rfl⟩ h.depth (hrecord.of_inRecord hrecord.of_active ?_)
    rintro record ⟨inner, rest, rfl, hrest, hlength, hpos⟩
    refine ⟨inner, rest, rfl, hrest, hlength, ?_⟩
    rintro other ⟨⟩
    exact hpos active rfl
  | none =>
    simp only [hcapture] at hstep
    split_ifs at hstep with hchannel hprogramme
    · obtain ⟨document, hsee, hstep⟩ := of_bind hstep
      obtain ⟨-, hnone, hnone'⟩ := hchannel
      have hcounts := h.seeRecord hnone hnone' hsee
      obtain ⟨hvisits, hplaces⟩ := closeChannel_ok (s := { s with document, capture := none })
        ⟨hcounts, h.visits.fingerprints, h.visits.distinct, h.visits.intervals⟩ hstep
      exact .outside hvisits ⟨hplaces.channel.trans (Option.isNone_iff_eq_none.mp hnone),
        hplaces.programme.trans (Option.isNone_iff_eq_none.mp hnone'), hplaces.capture⟩
        (h.record.stack_of_outside hnone hnone') (hplaces.depth.trans h.depth)
    · obtain ⟨document, hsee, hstep⟩ := of_bind hstep
      obtain ⟨-, hnone, hnone'⟩ := hprogramme
      have hcounts := h.seeRecord hnone hnone' hsee
      obtain ⟨hvisits, hplaces⟩ := closeProgramme_ok (s := { s with document, capture := none })
        ⟨hcounts, h.visits.fingerprints, h.visits.distinct, h.visits.intervals⟩ hstep
      exact .outside hvisits ⟨hplaces.channel.trans (Option.isNone_iff_eq_none.mp hnone),
        hplaces.programme.trans (Option.isNone_iff_eq_none.mp hnone'), hplaces.capture⟩
        (h.record.stack_of_outside hnone hnone') (hplaces.depth.trans h.depth)
    · obtain rfl := of_pure hstep
      obtain ⟨hinside, hsame, hdepth⟩ : Inside s (handleEmpty env s offset name found) ∧ _ ∧ _ :=
        handleEmpty_inside offset name found
      refine h.inside hinside (hdepth.trans h.depth) ?_
      rw [hsame]
      exact h.record

omit [DecidableEq Digest] in
theorem guideOk_text {stack : List String} {offset : Nat} {value : Except String String}
    (h : GuideOk env stack s) (hstep : captureText limits s offset value = .ok t) :
    GuideOk env stack t := by
  unfold captureText at hstep
  split at hstep
  · obtain rfl := Except.ok.inj hstep
    exact h
  · rename_i active hcapture
    obtain ⟨text, -, hstep⟩ := of_bind hstep
    obtain ⟨next, happend, hstep⟩ := of_bind hstep
    obtain rfl := of_pure hstep
    have hdepth : next.depth = active.depth := by
      unfold appendCaptureText at happend
      obtain ⟨_, -, happend⟩ := of_bind happend
      obtain rfl := of_pure happend
      split <;> rfl
    have hrecord := h.record
    rw [hcapture] at hrecord
    refine h.inside ⟨rfl, rfl, rfl, rfl, rfl⟩ h.depth (hrecord.of_inRecord hrecord.of_active ?_)
    rintro record ⟨inner, rest, rfl, hrest, hlength, hpos⟩
    refine ⟨inner, rest, rfl, hrest, hlength.trans hdepth.symm, ?_⟩
    rintro other ⟨⟩
    rw [hdepth]
    exact hpos active rfl

/-- The innermost captured element closes. -/
theorem InRecord.close {record name : String} {stack : List String} {active : Capture}
    (h : InRecord record (name :: stack) (some active)) :
    InRecord record stack (if active.close.depth = 0 then none else some active.close) := by
  obtain ⟨inner, rest, hstack, houter, hlength, hpos⟩ := h
  have hpos := hpos active rfl
  have hdepth : active.close.depth = active.depth - 1 := by
    unfold Capture.close
    simp only
    split_ifs <;> rfl
  cases inner with
  | nil =>
    simp at hlength
    omega
  | cons first inner =>
    obtain ⟨-, hrest⟩ := List.cons.inj hstack
    simp only [List.length_cons, Option.map_some, Option.getD_some] at hlength
    have hinner : inner.length = active.close.depth := by omega
    split_ifs with hzero
    · exact ⟨inner, rest, hrest, houter, hinner.trans hzero, nofun⟩
    · refine ⟨inner, rest, hrest, houter, hinner, ?_⟩
      rintro other ⟨⟩
      omega

theorem InRecord.name_eq {record name : String} {stack : List String}
    (h : InRecord record (name :: stack) none) :
    name = record ∧ ∀ name ∈ stack, isRecord name = false := by
  obtain ⟨inner, rest, hstack, houter, hlength, -⟩ := h
  obtain rfl := List.length_eq_zero_iff.mp hlength
  obtain ⟨rfl, rfl⟩ := List.cons.inj hstack
  exact ⟨rfl, houter⟩

/-- The end of an element outside of captures closes the record, or no record. -/
theorem closeRecord_ok {stack : List String} {offset : Nat} {name : String}
    (h : GuideOk env (name :: stack) s) (hcapture : s.capture = none)
    (hstep : closeRecord env defaultTimezone visitor s offset name = .ok t) :
    VisitsOk env t 0 ∧ (t.channel = none ∧ t.programme = none ∧ t.capture = none) ∧
      (∀ name ∈ stack, isRecord name = false) ∧ t.depth = s.depth := by
  have hrecord := h.record
  have hvisits := h.visits
  unfold closeRecord at hstep
  rw [hcapture] at hrecord
  rw [openRecords] at hvisits
  cases hchannel : s.channel with
  | some builder =>
    cases hprogramme : s.programme with
    | some other =>
      rw [hchannel, hprogramme] at hrecord
      cases hrecord
    | none =>
      rw [hchannel, hprogramme] at hrecord hvisits
      cases hrecord with
      | channel hin =>
        obtain ⟨rfl, houter⟩ := hin.name_eq
        simp only [if_true, hchannel] at hstep
        obtain ⟨hvisits, hplaces⟩ := closeChannel_ok (s := { s with channel := none })
          ⟨hvisits.counts, hvisits.fingerprints, hvisits.distinct, hvisits.intervals⟩ hstep
        exact ⟨hvisits, ⟨hplaces.channel, hplaces.programme.trans hprogramme,
          hplaces.capture.trans hcapture⟩, houter, hplaces.depth⟩
  | none =>
    cases hprogramme : s.programme with
    | some builder =>
      rw [hchannel, hprogramme] at hrecord hvisits
      cases hrecord with
      | programme hin =>
        obtain ⟨rfl, houter⟩ := hin.name_eq
        have hname : ¬("programme" = "channel") := by decide
        simp only [if_neg hname, if_true, hprogramme] at hstep
        obtain ⟨hvisits, hplaces⟩ := closeProgramme_ok (s := { s with programme := none })
          ⟨hvisits.counts, hvisits.fingerprints, hvisits.distinct, hvisits.intervals⟩ hstep
        exact ⟨hvisits, ⟨hplaces.channel.trans hchannel, hplaces.programme,
          hplaces.capture.trans hcapture⟩, houter, hplaces.depth⟩
    | none =>
      rw [hchannel, hprogramme] at hvisits hrecord
      simp only [hchannel, hprogramme, ite_self] at hstep
      obtain rfl := Except.ok.inj hstep
      cases hrecord with
      | outside houtside =>
        exact ⟨hvisits, ⟨hchannel, hprogramme, hcapture⟩,
          (List.forall_mem_cons.mp houtside).2, rfl⟩

theorem guideOk_end {stack : List String} {offset : Nat} {name : String}
    (h : GuideOk env (name :: stack) s)
    (hstep : endElement env defaultTimezone visitor s offset name = .ok t) :
    GuideOk env stack t := by
  have hrecord := h.record
  have hdepth : s.depth - 1 = stack.length := by
    rw [h.depth]
    rfl
  unfold endElement at hstep
  split at hstep
  · rename_i active hcapture
    rw [hcapture] at hrecord
    obtain rfl := Except.ok.inj hstep
    have hclosed := hrecord.of_inRecord hrecord.of_active fun record hin => hin.close
    split_ifs with hzero
    · obtain ⟨hinside, hsame, hlevel⟩ :
          Inside { s with capture := none } (finishCapture env { s with capture := none }
            active.close offset) ∧ _ ∧ _ := finishCapture_inside active.close offset
      rw [if_pos hzero] at hclosed
      refine h.inside ⟨hinside.records, hinside.channel, hinside.programme, hinside.fingerprints,
        hinside.visits⟩ ?_ ?_
      · rw [hlevel]
        exact hdepth
      · rw [hsame]
        exact hclosed
    · rw [if_neg hzero] at hclosed
      exact h.inside ⟨rfl, rfl, rfl, rfl, rfl⟩ hdepth hclosed
  · rename_i hcapture
    obtain ⟨closed, hclose, hstep⟩ := of_bind hstep
    obtain rfl := of_pure hstep
    obtain ⟨hvisits, hplaces, houter, hlevel⟩ := closeRecord_ok h hcapture hclose
    refine .outside ⟨hvisits.counts, hvisits.fingerprints, hvisits.distinct, hvisits.intervals⟩
      hplaces houter ?_
    rw [hlevel]
    exact hdepth

/-- One round of the loop keeps the books. -/
theorem guideOk_step {stack stack' : List String} {offset : Nat} {event : XmlEvent}
    (h : GuideOk env stack s) (hnest : nestEvent stack event = some stack')
    (hstep : stepEvent env limits defaultTimezone visitor s offset event = .ok t) :
    GuideOk env stack' t := by
  unfold stepEvent at hstep
  obtain ⟨_, -, hstep⟩ := of_bind hstep
  cases event with
  | start name attributes =>
    obtain rfl := Option.some.inj hnest
    exact guideOk_start h hstep
  | empty name attributes =>
    obtain rfl := Option.some.inj hnest
    exact guideOk_empty h hstep
  | text decoded =>
    obtain rfl := Option.some.inj hnest
    exact guideOk_text h hstep
  | cdata decoded =>
    obtain rfl := Option.some.inj hnest
    exact guideOk_text h hstep
  | finish name =>
    simp only [nestEvent] at hnest
    split_ifs at hnest with hhead
    obtain rfl := Option.some.inj hnest
    cases stack with
    | nil => cases hhead
    | cons top stack =>
      obtain rfl := Option.some.inj hhead
      exact guideOk_end h hstep
  | docType length text =>
    obtain rfl := Option.some.inj hnest
    obtain ⟨_, -, hstep⟩ := of_bind hstep
    obtain ⟨_, -, hstep⟩ := of_bind hstep
    obtain rfl := of_pure hstep
    exact h
  | generalRef name =>
    obtain rfl := Option.some.inj hnest
    obtain rfl := of_pure hstep
    exact h
  | comment text =>
    obtain rfl := Option.some.inj hnest
    obtain rfl := of_pure hstep
    exact h
  | other =>
    obtain rfl := Option.some.inj hnest
    obtain rfl := of_pure hstep
    exact h

/-- So does the whole document. -/
theorem guideOk_run {events : List (Nat × XmlEvent)} {stack stack' : List String}
    (h : GuideOk env stack s) (hnest : openElements stack events = some stack')
    (hrun : runEvents env limits defaultTimezone visitor s events = .ok t) :
    GuideOk env stack' t := by
  induction events generalizing s stack with
  | nil =>
    obtain rfl := Option.some.inj hnest
    obtain rfl := Except.ok.inj hrun
    exact h
  | cons first rest ih =>
    obtain ⟨offset, event⟩ := first
    obtain ⟨next, hnext, hnest⟩ := Option.bind_eq_some_iff.mp hnest
    obtain ⟨u, hstep, hrun⟩ := of_bind hrun
    exact ih (guideOk_step h hnext hstep) hnest hrun

omit [DecidableEq Digest] in
theorem foldl_warnUndeclared_records (names : List String) (document : XmltvDocument) :
    (names.foldl (warnUndeclared env) document).records = document.records := by
  induction names generalizing document with
  | nil => rfl
  | cons name names ih => exact ih _

/-- Once all elements are closed, every record of a guide is emitted or skipped. -/
theorem guide_accounted {start : σ} {input : XmlInput} {document : XmltvDocument}
    (hclosed : openElements [] input.events = some [])
    (hparse : parseXmltvVisitWithOptions env limits defaultTimezone visitor start input =
      .ok (document, s)) :
    Accounted document.stats 0 s.visits.length ∧ VisitsOk env s 0 := by
  unfold parseXmltvVisitWithOptions at hparse
  obtain ⟨last, hrun, hparse⟩ := of_bind hparse
  have hstart : GuideOk env [] ({ visitor := start } : XmltvState Url Digest σ) :=
    .outside ⟨⟨rfl, rfl⟩, rfl, List.nodup_nil, nofun⟩ ⟨rfl, rfl, rfl⟩ nofun rfl
  have hok := guideOk_run hstart hclosed hrun
  obtain ⟨hchannel, hprogramme, -⟩ := hok.record.of_nil
  have hvisits := hok.visits
  rw [openRecords, hchannel, hprogramme] at hvisits
  split at hparse
  · cases hparse
  · obtain ⟨_, -, hparse⟩ := of_bind hparse
    obtain ⟨rfl, rfl⟩ := Prod.mk.inj (of_pure hparse)
    exact ⟨hvisits.counts.of_records (foldl_warnUndeclared_records ..), hvisits⟩

end Guides

/-! ## Both parsers -/

/-- The counters of a summary agree with the calls of the visitors and with the diagnostics. -/
theorem parsers_account {Url Duration Digest σ τ : Type} [DecidableEq Digest]
    (m3uEnv : M3uEnv Url Duration) (xmltvEnv : XmltvEnv Url Digest) (limits : ParseLimits)
    (visit : σ → M3uEntry Url Duration → Except ParseError σ) (visitor : Visitor Url τ) :
    (∀ start buffers failure playlist s,
      parseM3uVisit m3uEnv limits visit start buffers failure = .ok (playlist, s) →
        playlist.stats.recordsSeen =
          playlist.stats.recordsEmitted + playlist.stats.recordsSkipped ∧
        playlist.stats.recordsEmitted = s.visits.length ∧
        playlist.stats.recordsEmitted ≤ limits.maxRecords ∧
        playlist.stats.warnings = playlist.countSeverity .warning ∧
        playlist.stats.errors = playlist.countSeverity .error) ∧
    ∀ defaultTimezone start input document s, openElements [] input.events = some [] →
      parseXmltvVisitWithOptions xmltvEnv limits defaultTimezone visitor start input =
        .ok (document, s) →
        document.stats.recordsSeen =
          document.stats.recordsEmitted + document.stats.recordsSkipped ∧
        document.stats.recordsEmitted = s.visits.length ∧
        (visitedProgrammes s.visits).Nodup ∧
        ∀ programme ∈ visitedProgrammes s.visits,
          ∀ stop ∈ programme.stop, programme.start < stop := by
  refine ⟨fun start buffers failure playlist s hparse => ?_,
    fun defaultTimezone start input document s hclosed hparse => ?_⟩
  · unfold parseM3uVisit at hparse
    obtain ⟨⟨last, reader⟩, hrun, hparse⟩ := of_bind hparse
    obtain ⟨rfl, rfl⟩ := Prod.mk.inj (of_pure hparse)
    have hstart : PlaylistCounts limits ({ visitor := start } : M3uState Url Duration σ) :=
      ⟨⟨rfl, rfl⟩, Nat.zero_le _⟩
    have hcounts := playlistCounts_run hstart hrun
    have hfinish : Accounted (finishPlaylist last reader.bytesRead).stats 0 last.visits.length :=
      finishPlaylist_counts hcounts
    refine ⟨hfinish.seen, hfinish.emitted.symm, ?_, finishPlaylist_severities last _⟩
    rw [← hfinish.emitted, hcounts.counts.emitted]
    exact hcounts.bound
  · obtain ⟨hcounts, hvisits⟩ := guide_accounted hclosed hparse
    refine ⟨hcounts.seen, hcounts.emitted.symm, ?_, hvisits.intervals⟩
    have hdistinct := hvisits.distinct
    rw [hvisits.fingerprints] at hdistinct
    exact hdistinct.of_map

def webUrl (text : String) : Except String String :=
  if "http".toList.isPrefixOf text.toList then .ok text
  else .error "relative URL without a base"

def webM3u : M3uEnv String Nat :=
  { parseUrl := webUrl
    parseDuration := fun text => Text.parseUnsigned (Nat.pow 2 32) text.toList
    debug := String.quote }

/-- Texts without references, no time zone besides UTC, and a programme as its own digest. -/
def webXmltv : XmltvEnv String (Programme String) :=
  { parseUrl := webUrl
    unescape := .ok
    timezone := fun _ => none
    fingerprint := id
    debug := String.quote
    hashOrder := id }

def smallLimits : ParseLimits :=
  { maxInputBytes := 1000, maxLineBytes := 100, maxRecords := 10, maxTextBytes := 100
    maxXmlDepth := 10 }

/-- Entries without a url, and urls without an entry. -/
def newsPlaylist : List (List UInt8) :=
  ["#EXTM3U\n#EXTINF:0 tvg-id=news,News\n#EXTINF:1,Sp".toUTF8.toList,
    "ort\nhttp://a/1\nnowhere\nhttp://a/2\n#EXTINF:2,Late".toUTF8.toList]

/-- One programme twice, and one that ends before it starts. -/
def newsGuide : XmlInput :=
  { events := [(4, .start "tv" []), (20, .empty "channel" [.ok ("id", "news")]),
      (60, .start "programme" [.ok ("channel", "news"), .ok ("start", "2026")]),
      (67, .start "title" []), (71, .text (.ok "News")), (79, .finish "title"),
      (91, .finish "programme"),
      (130, .start "programme" [.ok ("channel", "news"), .ok ("start", "2026")]),
      (137, .start "title" []), (141, .text (.ok "News")), (149, .finish "title"),
      (161, .finish "programme"),
      (210, .empty "programme"
        [.ok ("channel", "news"), .ok ("start", "2026"), .ok ("stop", "2025")]),
      (215, .finish "tv")]
    position := 215 }

/-- Of four records of the playlist two are emitted, and two of the four of the guide. -/
theorem parsers_account_news :
    (∃ playlist s, parseM3uVisit webM3u smallLimits (fun n _ => .ok (n + 1)) 0 newsPlaylist none =
        .ok (playlist, s) ∧ s.visitor = 2 ∧ playlist.stats.recordsEmitted = s.visits.length) ∧
    ∃ document s, parseXmltvVisitWithOptions webXmltv smallLimits "UTC"
        { channel := fun n _ => .ok (n + 1), programme := fun n _ => .ok (n + 1) } 0 newsGuide =
        .ok (document, s) ∧ s.visitor = 2 ∧
      document.stats.recordsSeen =
        document.stats.recordsEmitted + document.stats.recordsSkipped := by
  have hspec := parsers_account webM3u webXmltv smallLimits (fun n _ => .ok (n + 1))
    { channel := fun n _ => .ok (n + 1), programme := fun n _ => .ok (n + 1) }
  constructor
  · have heval : (parseM3uVisit webM3u smallLimits (fun n _ => .ok (n + 1)) 0 newsPlaylist
        none).toOption.any (fun result => decide (result.2.visitor = 2)) = true := by
      decide +kernel
    obtain ⟨⟨playlist, s⟩, hparse, hvisitor⟩ := (Option.any_eq_true _ _).mp heval
    have hparse := of_toOption hparse
    exact ⟨playlist, s, hparse, of_decide_eq_true hvisitor,
      (hspec.1 0 newsPlaylist none playlist s hparse).2.1⟩
  · have heval : (parseXmltvVisitWithOptions webXmltv smallLimits "UTC"
        { channel := fun n _ => .ok (n + 1), programme := fun n _ => .ok (n + 1) } 0
        newsGuide).toOption.any (fun result => decide (result.2.visitor = 2)) = true := by
      decide +kernel
    obtain ⟨⟨document, s⟩, hparse, hvisitor⟩ := (Option.any_eq_true _ _).mp heval
    have hparse := of_toOption hparse
    exact ⟨document, s, hparse, of_decide_eq_true hvisitor,
      (hspec.2 "UTC" 0 newsGuide document s (by decide +kernel) hparse).1⟩

end IptvRelay.Parsers
