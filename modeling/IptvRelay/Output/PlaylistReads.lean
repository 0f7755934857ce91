import IptvRelay.Output.Playlist
import IptvRelay.Parsers.Extinf
import IptvRelay.Parsers.Lines

/-!
# Reading the published playlist

The reader of playlists gets back what the playlist says about each channel, for every way in
which the text reaches it in slices.
-/

namespace IptvRelay.Output

open Parsers Checked

/-! ## Urls -/

/-- The characters of urls: code points of the URL Standard, percent signs, and the brackets and
number signs of hosts and fragments. -/
def isUrlChar (c : Char) : Bool :=
  c.isAlphanum || c ∈ "!$&()*+,-./:;=?@_~%#[]".toList || c = apostrophe ||
    (0xA0 ≤ c.toNat && !(0xFDD0 ≤ c.toNat && c.toNat ≤ 0xFDEF) && c.toNat % 0x10000 < 0xFFFE)

/-- A scheme and the characters of urls; the parser accepts it. -/
structure ValidAbsoluteUrl {Url Duration : Type} (env : M3uEnv Url Duration) (text : List Char) :
    Prop where
  scheme : text.head?.any Char.isAlpha = true
  chars : text.all isUrlChar = true
  parsed : (env.parseUrl (String.ofList text)).toOption.isSome = true

/-- An entry that says what the playlist says about the channel. -/
structure ReadsAs {Url Duration : Type} (env : M3uEnv Url Duration) (publicBaseUrl token : String)
    (channel : OutputChannel) (entry : M3uEntry Url Duration) : Prop where
  tvgId : entry.attributes.get "tvg-id" = some (String.ofList (uuidText channel.id))
  tvgName : entry.attributes.get "tvg-name" =
    some (String.ofList (m3uEscape channel.name.toList))
  tvgLogo : entry.attributes.get "tvg-logo" =
    some (String.ofList (m3uEscape channel.logo.toList))
  tvgChno : entry.attributes.get "tvg-chno" =
    some (String.ofList (m3uEscape channel.number.toList))
  groupTitle : entry.attributes.get "group-title" =
    some (String.ofList (m3uEscape channel.group.toList))
  title : entry.title = String.ofList (Text.trim (replaceLineBreaks channel.name.toList))
  url : env.parseUrl (String.ofList (streamUrl publicBaseUrl token channel.id)) = .ok entry.url

/-! ## What is written -/

theorem quotationMark_notMem_m3uEscape (value : List Char) : quotationMark ∉ m3uEscape value := by
  intro hmem
  obtain ⟨c, -, hc⟩ := List.mem_flatMap.mp hmem
  split_ifs at hc with hquote
  · exact absurd (List.mem_singleton.mp hc) (by decide)
  · exact hquote (List.mem_singleton.mp hc).symm

/-- Replacing line breaks leaves none. -/
theorem lineBreak_notMem_replaceLineBreaks {c : Char} (hc : c = '\r' ∨ c = '\n')
    (text : List Char) : c ∉ replaceLineBreaks text := by
  intro hmem
  obtain ⟨d, -, hd⟩ := List.mem_flatMap.mp hmem
  split_ifs at hd with hbreak
  · obtain rfl := List.mem_singleton.mp hd
    exact absurd hc (by decide)
  · obtain rfl := List.mem_singleton.mp hd
    exact hbreak hc

theorem lineBreak_notMem_m3uEscape {c : Char} (hc : c = '\r' ∨ c = '\n') (value : List Char) :
    c ∉ m3uEscape value := by
  intro hmem
  obtain ⟨d, hd, hmem⟩ := List.mem_flatMap.mp hmem
  split_ifs at hmem
  · obtain rfl := List.mem_singleton.mp hmem
    exact absurd hc (by decide)
  · obtain rfl := List.mem_singleton.mp hmem
    exact lineBreak_notMem_replaceLineBreaks hc value hd

/-- The attributes of a channel. -/
def channelAttributes (channel : OutputChannel) : List (List Char × List Char) :=
  [("tvg-id".toList, uuidText channel.id), ("tvg-name".toList, m3uEscape channel.name.toList),
    ("tvg-logo".toList, m3uEscape channel.logo.toList),
    ("tvg-chno".toList, m3uEscape channel.number.toList),
    ("group-title".toList, m3uEscape channel.group.toList)]

/-- The first line of a channel. -/
def extinf (channel : OutputChannel) : List Char :=
  "#EXTINF:".toList ++ ("-1".toList ++ (channelAttributes channel).flatMap quotedAttribute ++
    ',' :: replaceLineBreaks channel.name.toList)

/-- The same without whitespace at its end. -/
def trimmedExtinf (channel : OutputChannel) : List Char :=
  "#EXTINF:".toList ++ ("-1".toList ++ (channelAttributes channel).flatMap quotedAttribute ++
    ',' :: Text.trimEnd (replaceLineBreaks channel.name.toList))

theorem trim_extinf (channel : OutputChannel) :
    Text.trim (extinf channel) = trimmedExtinf channel := by
  have hline : ∀ title, "#EXTINF:".toList ++ ("-1".toList ++
      (channelAttributes channel).flatMap quotedAttribute ++ ',' :: title) =
      '#' :: ("EXTINF:-1".toList ++ (channelAttributes channel).flatMap quotedAttribute) ++
        ',' :: title := by
    intro title
    repeat rw [String.toList_ofList]
    simp only [List.cons_append, List.nil_append]
  unfold extinf trimmedExtinf
  rw [hline, hline, Text.trim_line (by decide) (by decide)]

theorem writeEntry_eq (publicBaseUrl token : String) (channel : OutputChannel) (rest : List Char) :
    writeEntry publicBaseUrl token channel ++ rest =
      extinf channel ++ '\n' :: (streamUrl publicBaseUrl token channel.id ++ '\n' :: rest) := by
  unfold writeEntry extinf channelAttributes
  simp only [quotedAttribute_mk, List.flatMap_cons, List.flatMap_nil, List.cons_append,
    List.nil_append, List.append_assoc, Parsers.quotationMark]
  repeat rw [String.toList_ofList]
  simp only [List.cons_append, List.nil_append]

theorem playlistHeader_eq (publicBaseUrl token : String) (rest : List Char) :
    playlistHeader publicBaseUrl token ++ rest =
      ("#EXTM3U".toList ++ quotedAttribute ("x-tvg-url".toList, guideUrl publicBaseUrl token)) ++
        '\n' :: rest := by
  unfold playlistHeader
  simp only [quotedAttribute_mk, List.cons_append, List.nil_append, List.append_assoc,
    Parsers.quotationMark]
  repeat rw [String.toList_ofList]
  simp only [List.cons_append, List.nil_append]

theorem wellQuoted_channelAttributes (channel : OutputChannel) :
    ∀ pair ∈ channelAttributes channel, WellQuoted pair := by
  intro pair hpair
  simp only [channelAttributes, List.mem_cons, List.not_mem_nil, or_false] at hpair
  have hid : quotationMark ∉ uuidText channel.id :=
    fun hmem => absurd (isPlain_uuidText channel.id _ hmem) (by decide)
  have hword : ∀ key ∈ ["tvg-id", "tvg-name", "tvg-logo", "tvg-chno", "group-title"],
      key.toList ≠ [] ∧ ∀ c ∈ key.toList, isWordChar c = true := by
    intro key hkey
    have hall : (["tvg-id", "tvg-name", "tvg-logo", "tvg-chno", "group-title"].all fun key =>
        decide (key.toList ≠ []) && key.toList.all isWordChar) = true := by decide
    simpa using List.all_eq_true.mp hall key hkey
  rcases hpair with rfl | rfl | rfl | rfl | rfl
  · exact ⟨(hword "tvg-id" (by decide)).1, (hword "tvg-id" (by decide)).2, hid⟩
  · exact ⟨(hword "tvg-name" (by decide)).1, (hword "tvg-name" (by decide)).2,
      quotationMark_notMem_m3uEscape _⟩
  · exact ⟨(hword "tvg-logo" (by decide)).1, (hword "tvg-logo" (by decide)).2,
      quotationMark_notMem_m3uEscape _⟩
  · exact ⟨(hword "tvg-chno" (by decide)).1, (hword "tvg-chno" (by decide)).2,
      quotationMark_notMem_m3uEscape _⟩
  · exact ⟨(hword "group-title" (by decide)).1, (hword "group-title" (by decide)).2,
      quotationMark_notMem_m3uEscape _⟩

theorem value_notMem_channelAttributes {c : Char} (hc : c = '\r' ∨ c = '\n')
    (channel : OutputChannel) : ∀ pair ∈ channelAttributes channel, c ∉ pair.2 := by
  intro pair hpair
  simp only [channelAttributes, List.mem_cons, List.not_mem_nil, or_false] at hpair
  rcases hpair with rfl | rfl | rfl | rfl | rfl
  · intro hmem
    have hplain := isPlain_uuidText channel.id c hmem
    rcases hc with rfl | rfl <;> exact absurd hplain (by decide)
  all_goals exact lineBreak_notMem_m3uEscape hc _

theorem lineBreak_notMem_quotedAttribute {c : Char} (hc : c = '\r' ∨ c = '\n')
    {pair : List Char × List Char} (hpair : WellQuoted pair) (hvalue : c ∉ pair.2) :
    c ∉ quotedAttribute pair := by
  have hkey : c ∉ pair.1 := by
    intro hmem
    have hvisible := isWhitespace_of_isWordChar (hpair.key_chars c hmem)
    rcases hc with rfl | rfl <;> exact absurd hvisible (by decide)
  simp only [quotedAttribute, List.cons_append, List.append_assoc, List.mem_cons, List.mem_append,
    not_or, List.not_mem_nil, not_false_eq_true, and_true]
  rcases hc with rfl | rfl <;> exact ⟨by decide, hkey, by decide, by decide, hvalue, by decide⟩

theorem lineBreak_notMem_extinf {c : Char} (hc : c = '\r' ∨ c = '\n') (channel : OutputChannel) :
    c ∉ extinf channel := by
  have hattributes : c ∉ (channelAttributes channel).flatMap quotedAttribute := by
    intro hmem
    obtain ⟨pair, hpair, hmem⟩ := List.mem_flatMap.mp hmem
    exact lineBreak_notMem_quotedAttribute hc (wellQuoted_channelAttributes channel pair hpair)
      (value_notMem_channelAttributes hc channel pair hpair) hmem
  have hname := lineBreak_notMem_replaceLineBreaks hc channel.name.toList
  unfold extinf
  simp only [List.mem_append, List.mem_cons, not_or]
  rcases hc with rfl | rfl <;> exact ⟨by decide, ⟨by decide, hattributes⟩, by decide, hname⟩

theorem notMem_of_isUrlChar {text : List Char} (h : text.all isUrlChar = true) {c : Char}
    (hc : isUrlChar c = false) : c ∉ text := by
  intro hmem
  rw [List.all_eq_true.mp h c hmem] at hc
  cases hc

/-! ## Lines -/

section Read

variable {Url Duration σ : Type} {env : M3uEnv Url Duration} {limits : ParseLimits}
  {visit : σ → M3uEntry Url Duration → σ} {start : σ} {s : M3uState Url Duration σ}
  {visits : List (M3uEntry Url Duration)} {reader : LineReader} {rest : List Char}
  {publicBaseUrl token : String} {channel : OutputChannel} {duration : Duration}

/-- What the loop has after these entries, with nothing to complain about. -/
structure Reading (visit : σ → M3uEntry Url Duration → σ) (start : σ)
    (s : M3uState Url Duration σ) (visits : List (M3uEntry Url Duration)) : Prop where
  sawContent : s.sawContent = true
  pending : s.pending = none
  diagnostics : s.playlist.diagnostics = []
  seen : s.playlist.stats.recordsSeen = visits.length
  emitted : s.playlist.stats.recordsEmitted = visits.length
  visitor : s.visitor = visits.foldl visit start
  visited : s.visits = visits

/-- A visitor that accepts every entry. -/
def accept (visit : σ → M3uEntry Url Duration → σ) (state : σ) (entry : M3uEntry Url Duration) :
    Except ParseError σ := .ok (visit state entry)

/-- A line without a mark of the byte order is read behind its trimmed text. -/
theorem stepLine_content {line text : List Char} {number : Nat}
    (hmark : line.head? ≠ some (Char.ofNat 0xFEFF)) (htrim : Text.trim line = text)
    (hne : text ≠ []) (hsaw : s.sawContent = true) :
    stepLine env limits (accept visit) s number (String.ofList line) =
      contentLine env limits (accept visit)
        { s with playlist.stats.linesRead := s.playlist.stats.linesRead + 1 } number text := by
  have hstrip : stripPrefix line [Char.ofNat 0xFEFF] = none := by
    refine if_neg fun hprefix => hmark ?_
    obtain ⟨rest, rfl⟩ := List.isPrefixOf_iff_prefix.mp hprefix
    rfl
  simp only [stepLine, String.toList_ofList, hstrip, Option.getD_none, htrim, if_neg hne, hsaw,
    if_true]

/-- The entry that waits for the url of the channel. -/
def pendingEntry (channel : OutputChannel) (duration : Duration) (number : Nat) :
    PendingEntry Duration :=
  { durationSeconds := some duration
    title := String.ofList (Text.trim (replaceLineBreaks channel.name.toList))
    attributes := (channelAttributes channel).foldl insertPair []
    rawExtinf := String.ofList (trimmedExtinf channel), line := number }

theorem parseExtinf_trimmedExtinf (hduration : env.parseDuration "-1" = some duration)
    (channel : OutputChannel) (number : Nat) :
    parseExtinf env (trimmedExtinf channel) number =
      (pendingEntry channel duration number, [], []) := by
  have hparse := @parseExtinf_written _ _ env "-1".toList
    (Text.trimEnd (replaceLineBreaks channel.name.toList)) duration (channelAttributes channel)
    (List.all_eq_true.mp (by decide)) (by decide) hduration (wellQuoted_channelAttributes channel) number
  rw [Text.trim_trimEnd] at hparse
  exact hparse

/-- The first line of a channel. -/
theorem stepLine_extinf (h : Reading visit start s visits)
    (hduration : env.parseDuration "-1" = some duration)
    (hrecords : visits.length < limits.maxRecords) (number : Nat) :
    stepLine env limits (accept visit) s number (String.ofList (extinf channel)) =
      .ok { s with
        pending := some (pendingEntry channel duration number)
        playlist := { s.playlist with
          stats := { s.playlist.stats with
            linesRead := s.playlist.stats.linesRead + 1
            recordsSeen := s.playlist.stats.recordsSeen + 1 } } } := by
  have hne : trimmedExtinf channel ≠ [] := List.append_ne_nil_of_left_ne_nil (by decide) _
  have hprefix : "#EXTINF:".toList.isPrefixOf (trimmedExtinf channel) = true :=
    List.isPrefixOf_iff_prefix.mpr (List.prefix_append _ _)
  have hlimit : ¬recordLimitReached s.playlist.stats.recordsSeen limits.maxRecords = true := by
    simp only [recordLimitReached, h.seen, decide_eq_true_eq]
    omega
  have hmark : (extinf channel).head? ≠ some (Char.ofNat 0xFEFF) := by
    unfold extinf
    rw [List.head?_append_of_ne_nil _ (by decide)]
    decide
  rw [stepLine_content hmark (trim_extinf channel) hne h.sawContent]
  unfold contentLine
  rw [if_pos hprefix]
  unfold extinfLine
  rw [ensure_bind hlimit]
  simp only [parseExtinf_trimmedExtinf hduration, h.pending, replacePending, List.foldl_nil, List.append_nil, h.diagnostics]
  rfl

theorem isWhitespace_of_isAlpha {c : Char} (h : c.isAlpha = true) :
    Text.isWhitespace c = false := by
  have hrange : 65 ≤ c.toNat ∧ c.toNat ≤ 122 := by
    have hcases : (c.isUpper || c.isLower) = true := h
    have hupper : c.isUpper = decide (c.val ≥ 'A'.val ∧ c.val ≤ 'Z'.val) := rfl
    have hlower : c.isLower = (decide (c.val ≥ 'a'.val) && decide (c.val ≤ 'z'.val)) := rfl
    simp only [hupper, hlower, Bool.or_eq_true, Bool.and_eq_true, decide_eq_true_eq, ge_iff_le,
      UInt32.le_iff_toNat_le] at hcases
    have hnat : c.toNat = c.val.toNat := rfl
    have hbounds : 'A'.val.toNat = 65 ∧ 'Z'.val.toNat = 90 ∧ 'a'.val.toNat = 97 ∧
        'z'.val.toNat = 122 := ⟨rfl, rfl, rfl, rfl⟩
    omega
  simp only [Text.isWhitespace, decide_eq_false_iff_not]
  omega

/-- The pending entry with its url. -/
def entryOf (pending : PendingEntry Duration) (url : Url) : M3uEntry Url Duration :=
  { durationSeconds := pending.durationSeconds, title := pending.title
    attributes := pending.attributes, url, directives := pending.directives
    rawExtinf := some pending.rawExtinf }

/-- The second line of a channel. -/
theorem stepLine_url {text : List Char} (hurl : ValidAbsoluteUrl env text)
    (hlast : ∀ c ∈ text.getLast?, Text.isWhitespace c = false) (hsaw : s.sawContent = true)
    (hemitted : s.playlist.stats.recordsEmitted < limits.maxRecords)
    {pending : PendingEntry Duration} (hpending : s.pending = some pending) (number : Nat) :
    ∃ url, env.parseUrl (String.ofList text) = .ok url ∧
      stepLine env limits (accept visit) s number (String.ofList text) =
        .ok { s with
          playlist := { s.playlist with
            stats := { s.playlist.stats with
              linesRead := s.playlist.stats.linesRead + 1
              recordsEmitted := s.playlist.stats.recordsEmitted + 1 } }
          pending := none
          visitor := visit s.visitor (entryOf pending url)
          visits := s.visits ++ [entryOf pending url] } := by
  obtain ⟨hscheme, -, hparsed⟩ := hurl
  obtain ⟨url, hparse⟩ := Option.isSome_iff_exists.mp hparsed
  have hparse := of_toOption hparse
  refine ⟨url, hparse, ?_⟩
  obtain ⟨c, hhead, hc⟩ := (Option.any_eq_true _ _).mp hscheme
  obtain ⟨rest, rfl⟩ := List.head?_eq_some_iff.mp hhead
  have hne : c ≠ '#' ∧ c ≠ Char.ofNat 0xFEFF := by
    constructor <;> rintro rfl <;> exact absurd hc (by decide)
  have htrim : Text.trim (c :: rest) = c :: rest := by
    refine Text.trim_of_visible (fun d hd => ?_) hlast
    obtain rfl := Option.some.inj hd
    exact isWhitespace_of_isAlpha hc
  have hprefix : ¬"#EXTINF:".toList.isPrefixOf (c :: rest) = true := by
    intro hprefix
    obtain ⟨tail, htail⟩ := List.isPrefixOf_iff_prefix.mp hprefix
    exact hne.1 (List.cons.inj htail).1.symm
  have hdirective : ¬(c :: rest).head? = some '#' := fun hhash => hne.1 (Option.some.inj hhash)
  have hmark : (c :: rest).head? ≠ some (Char.ofNat 0xFEFF) :=
    fun hhash => hne.2 (Option.some.inj hhash)
  rw [stepLine_content hmark htrim (List.cons_ne_nil c rest) hsaw]
  unfold contentLine
  rw [if_neg hprefix, if_neg hdirective, hparse]
  simp only
  unfold urlLine
  rw [ensure_bind hemitted]
  simp only [takeEntry, hpending]
  rfl

/-- The keys of the attributes are in lower case and differ. -/
theorem get_channelAttributes {key : String} {value : List Char}
    (hpair : (key.toList, value) ∈ channelAttributes channel) :
    ((channelAttributes channel).foldl insertPair []).get key = some (String.ofList value) := by
  let keys := ["tvg-id", "tvg-name", "tvg-logo", "tvg-chno", "group-title"]
  have hlower : ∀ key ∈ keys, String.ofList (Text.asciiLowercase key.toList) = key := by decide
  have hkeys : (channelAttributes channel).map Prod.fst = keys.map String.toList := rfl
  have hnames : ((channelAttributes channel).map fun pair =>
      String.ofList (Text.asciiLowercase pair.1)) = keys := by
    have hmap := congrArg (List.map fun key => String.ofList (Text.asciiLowercase key)) hkeys
    rw [List.map_map, List.map_map] at hmap
    refine hmap.trans ((List.map_congr_left hlower).trans (List.map_id keys))
  have hget := get_foldl_insertPair (by rw [hnames]; decide) hpair
  have hkey : key ∈ keys := by
    have hmem : key.toList ∈ keys.map String.toList :=
      hkeys ▸ List.mem_map_of_mem (f := Prod.fst) hpair
    obtain ⟨other, hother, heq⟩ := List.mem_map.mp hmem
    rwa [← String.toList_inj.mp heq]
  rwa [hlower key hkey] at hget

theorem get_entryOf {number : Nat} {url : Url} {key : String} {value : List Char}
    (hpair : (key.toList, value) ∈ channelAttributes channel) :
    (entryOf (pendingEntry channel duration number) url).attributes.get key =
      some (String.ofList value) := by
  simp only [entryOf, pendingEntry, get_channelAttributes hpair]

theorem readsAs_entryOf {number : Nat} {url : Url}
    (hurl : env.parseUrl (String.ofList (streamUrl publicBaseUrl token channel.id)) = .ok url) :
    ReadsAs env publicBaseUrl token channel (entryOf (pendingEntry channel duration number) url) where
  tvgId := get_entryOf (.head _)
  tvgName := get_entryOf (.tail _ (.head _))
  tvgLogo := get_entryOf (.tail _ (.tail _ (.head _)))
  tvgChno := get_entryOf (.tail _ (.tail _ (.tail _ (.head _))))
  groupTitle := get_entryOf (.tail _ (.tail _ (.tail _ (.tail _ (.head _)))))
  title := rfl
  url := hurl

/-! ## The playlist -/

theorem last_streamUrl (publicBaseUrl token : String) (id : Uuid) :
    ∀ c ∈ (streamUrl publicBaseUrl token id).getLast?, Text.isWhitespace c = false := by
  intro c hc
  unfold streamUrl at hc
  rw [List.getLast?_append, show ".ts".toList.getLast? = some 's' from by decide,
    Option.some_or] at hc
  obtain rfl := Option.some.inj hc
  decide

/-- The lines of a channel give its entry. -/
theorem reading_entry (h : Reading visit start s visits)
    (hduration : env.parseDuration "-1" = some duration)
    (hrecords : visits.length < limits.maxRecords)
    (hurl : ValidAbsoluteUrl env (streamUrl publicBaseUrl token channel.id))
    (hbefore : reader.Before limits (writeEntry publicBaseUrl token channel ++ rest)) :
    ∃ entry s' reader', ReadsAs env publicBaseUrl token channel entry ∧
      Reading visit start s' (visits ++ [entry]) ∧ LineReader.Before limits reader' rest ∧
      runLines env limits (accept visit) s reader =
        runLines env limits (accept visit) s' reader' := by
  rw [writeEntry_eq] at hbefore
  obtain ⟨middle, hfirst, hbefore⟩ := LineReader.nextLine_line hbefore
    (lineBreak_notMem_extinf (.inr rfl) channel) (lineBreak_notMem_extinf (.inl rfl) channel)
  obtain ⟨last, hsecond, hbefore⟩ := LineReader.nextLine_line hbefore
    (notMem_of_isUrlChar hurl.chars (by decide)) (notMem_of_isUrlChar hurl.chars (by decide))
  have hextinf := @stepLine_extinf _ _ _ env limits visit start s visits channel duration h
    hduration hrecords (reader.lineNumber + 1)
  rw [runLines_line hfirst, hextinf]
  let waiting : M3uState Url Duration σ := { s with
    pending := some (pendingEntry channel duration (reader.lineNumber + 1))
    playlist := { s.playlist with
      stats := { s.playlist.stats with
        linesRead := s.playlist.stats.linesRead + 1
        recordsSeen := s.playlist.stats.recordsSeen + 1 } } }
  obtain ⟨url, hparse, hstep⟩ := @stepLine_url _ _ _ env limits visit waiting _ hurl
    (last_streamUrl publicBaseUrl token channel.id) h.sawContent (h.emitted.trans_lt hrecords) _
    rfl (middle.lineNumber + 1)
  have hrun := @runLines_line _ _ _ env _ (accept visit) waiting _ _ _ _ hsecond
  rw [hstep] at hrun
  refine ⟨entryOf (pendingEntry channel duration (reader.lineNumber + 1)) url, _, last,
    readsAs_entryOf hparse, ?_, hbefore, hrun⟩
  exact ⟨h.sawContent, rfl, h.diagnostics,
    by rw [List.length_append, ← h.seen]; rfl, by rw [List.length_append, ← h.emitted]; rfl,
    by rw [List.foldl_concat, ← h.visitor], by rw [← h.visited]⟩

/-- So do the lines of all channels. -/
theorem reading_entries {channels : List OutputChannel} (h : Reading visit start s visits)
    (hduration : env.parseDuration "-1" = some duration)
    (hrecords : visits.length + channels.length ≤ limits.maxRecords)
    (hurls : ∀ channel ∈ channels,
      ValidAbsoluteUrl env (streamUrl publicBaseUrl token channel.id))
    (hbefore : reader.Before limits (channels.flatMap (writeEntry publicBaseUrl token))) :
    ∃ entries s' reader', List.Forall₂ (ReadsAs env publicBaseUrl token) channels entries ∧
      Reading visit start s' (visits ++ entries) ∧
      runLines env limits (accept visit) s reader = .ok (s', reader') := by
  induction channels generalizing s visits reader with
  | nil =>
    obtain ⟨last, hend⟩ := LineReader.nextLine_end hbefore
    exact ⟨[], s, last, .nil, by rwa [List.append_nil], runLines_end hend⟩
  | cons channel channels ih =>
    rw [List.flatMap_cons] at hbefore
    rw [List.length_cons] at hrecords
    obtain ⟨entry, middle, reader', hentry, hmiddle, hbefore, hrun⟩ :=
      reading_entry h hduration (by omega) (hurls channel List.mem_cons_self) hbefore
    obtain ⟨entries, s', last, hentries, hreading, hrest⟩ := ih hmiddle
      (by rw [List.length_append, List.length_singleton]; omega)
      (fun other hother => hurls other (List.mem_cons_of_mem channel hother)) hbefore
    refine ⟨entry :: entries, s', last, .cons hentry hentries, ?_, hrun.trans hrest⟩
    rwa [List.append_assoc, List.singleton_append] at hreading

theorem wellQuoted_guideUrl (hurl : ValidAbsoluteUrl env (guideUrl publicBaseUrl token)) :
    WellQuoted ("x-tvg-url".toList, guideUrl publicBaseUrl token) := by
  have hword : "x-tvg-url".toList ≠ [] ∧ ∀ c ∈ "x-tvg-url".toList, isWordChar c = true :=
    ⟨by decide, List.all_eq_true.mp (by decide)⟩
  exact ⟨hword.1, hword.2, notMem_of_isUrlChar hurl.chars (by decide)⟩

/-- The header line starts the reading, without complaints about its attribute. -/
theorem stepLine_header {pair : List Char × List Char} (hpair : WellQuoted pair) (start : σ)
    (number : Nat) :
    ∃ s : M3uState Url Duration σ, Reading visit start s [] ∧
      stepLine env limits (accept visit) { visitor := start } number
        (String.ofList ("#EXTM3U".toList ++ quotedAttribute pair)) = .ok s := by
  have hflat : [pair].flatMap quotedAttribute = quotedAttribute pair := List.flatMap_singleton ..
  have hpairs : ∀ other ∈ [pair], WellQuoted other := by simpa using hpair
  have htrim : Text.trim ("#EXTM3U".toList ++ quotedAttribute pair) =
      "#EXTM3U".toList ++ quotedAttribute pair := by
    refine Text.trim_of_visible (fun c hc => ?_) fun c hc => ?_
    · rw [List.head?_append_of_ne_nil _ (by decide)] at hc
      obtain rfl : '#' = c := Option.some.inj hc
      decide
    · have hlast : (quotedAttribute pair).getLast? = some Parsers.quotationMark :=
        List.getLast?_concat
      rw [List.getLast?_append, hlast, Option.some_or] at hc
      obtain rfl := Option.some.inj hc
      decide
  have hstrip : stripPrefix ("#EXTM3U".toList ++ quotedAttribute pair) [Char.ofNat 0xFEFF] =
      none := by
    refine if_neg fun hprefix => ?_
    obtain ⟨rest, hrest⟩ := List.isPrefixOf_iff_prefix.mp hprefix
    have hhead := congrArg List.head? hrest
    rw [List.head?_append_of_ne_nil _ (by decide)] at hhead
    exact absurd (Option.some.inj hhead) (by decide)
  have hne : "#EXTM3U".toList ++ quotedAttribute pair ≠ [] :=
    List.append_ne_nil_of_left_ne_nil (by decide) _
  have hprefix := List.isPrefixOf_iff_prefix.mpr
    (List.prefix_append "#EXTM3U".toList (quotedAttribute pair))
  have hlength : "#EXTM3U".length = "#EXTM3U".toList.length := rfl
  have hparse := @parseAttributes_trimmed env.debug number [] [pair] hpairs
  rw [hflat] at hparse
  have hstep : stepLine env limits (accept visit) { visitor := start } number
      (String.ofList ("#EXTM3U".toList ++ quotedAttribute pair)) =
      .ok { visitor := start, sawContent := true, sawHeader := true
            playlist := { header := { attributes := [pair].foldl insertPair []
                                      raw := String.ofList ("#EXTM3U".toList ++
                                        quotedAttribute pair) }
                          stats := { linesRead := 1 } } } := by
    unfold stepLine
    simp only [String.toList_ofList, hstrip, Option.getD_none, htrim, if_neg hne,
      Bool.false_eq_true, if_false, if_pos hprefix, parseHeader, hlength, List.drop_left, hparse,
      List.append_nil]
  exact ⟨_, ⟨rfl, rfl, rfl, rfl, rfl, rfl, rfl⟩, hstep⟩

/-- The first line of the playlist is its header. -/
theorem reading_header (hurl : ValidAbsoluteUrl env (guideUrl publicBaseUrl token)) (start : σ)
    (hbefore : reader.Before limits (playlistHeader publicBaseUrl token ++ rest)) :
    ∃ s reader', Reading visit start s ([] : List (M3uEntry Url Duration)) ∧
      LineReader.Before limits reader' rest ∧
      runLines env limits (accept visit) { visitor := start } reader =
        runLines env limits (accept visit) s reader' := by
  have hquoted := wellQuoted_guideUrl hurl
  have hbreak : ∀ c, c = '\r' ∨ c = '\n' → c ∉ "#EXTM3U".toList ++
      quotedAttribute ("x-tvg-url".toList, guideUrl publicBaseUrl token) := by
    intro c hc hmem
    rcases List.mem_append.mp hmem with hmem | hmem
    · rcases hc with rfl | rfl <;> exact absurd hmem (by decide)
    · refine lineBreak_notMem_quotedAttribute hc hquoted (notMem_of_isUrlChar hurl.chars ?_) hmem
      rcases hc with rfl | rfl <;> decide
  rw [playlistHeader_eq] at hbefore
  obtain ⟨next, hnext, hbefore⟩ :=
    LineReader.nextLine_line hbefore (hbreak '\n' (.inr rfl)) (hbreak '\r' (.inl rfl))
  obtain ⟨s, hreading, hstep⟩ := @stepLine_header _ _ _ env limits visit _ hquoted start
    (reader.lineNumber + 1)
  refine ⟨s, next, hreading, hbefore, ?_⟩
  rw [runLines_line hnext, hstep]
  rfl

/-- For urls that are valid and limits that are large enough, the playlist is read back, in
whatever slices it comes. -/
theorem playlist_reads_back (env : M3uEnv Url Duration) (limits : ParseLimits)
    (visit : σ → M3uEntry Url Duration → σ) (start : σ) (publicBaseUrl token : String)
    (source : PlaylistSource) (buffers : List (List UInt8))
    (hguide : ValidAbsoluteUrl env (guideUrl publicBaseUrl token))
    (hstreams : ∀ channel ∈ source.outputs,
      ValidAbsoluteUrl env (streamUrl publicBaseUrl token channel.id))
    (hduration : (env.parseDuration "-1").isSome = true)
    (hslices : [] ∉ buffers)
    (hbytes : buffers.flatten = Utf8.encode (playlist publicBaseUrl token source))
    (hline : buffers.flatten.length ≤ limits.maxLineBytes)
    (hinput : buffers.flatten.length ≤ limits.maxInputBytes)
    (hrecords : source.outputs.length ≤ limits.maxRecords) :
    ∃ document s, parseM3uVisit env limits (accept visit) start buffers none = .ok (document, s) ∧
      document.diagnostics = [] ∧
      List.Forall₂ (ReadsAs env publicBaseUrl token) source.outputs s.visits ∧
      s.visitor = s.visits.foldl visit start := by
  obtain ⟨duration, hduration⟩ := Option.isSome_iff_exists.mp hduration
  have hbefore : LineReader.Before limits { buffers, failure := none }
      (playlistHeader publicBaseUrl token ++
        source.outputs.flatMap (writeEntry publicBaseUrl token)) :=
    ⟨hslices, rfl, hbytes, hbytes ▸ hline, by rw [Nat.zero_add]; exact hbytes ▸ hinput⟩
  obtain ⟨first, reader, hfirst, hbefore, hheader⟩ :=
    @reading_header _ _ _ _ _ visit _ _ _ _ hguide start hbefore
  obtain ⟨entries, s, last, hentries, hreading, hrun⟩ := reading_entries hfirst hduration
    (by rw [List.length_nil, Nat.zero_add]; exact hrecords) hstreams hbefore
  rw [List.nil_append] at hreading
  refine ⟨finishPlaylist s last.bytesRead, s, ?_, ?_, hreading.visited ▸ hentries,
    hreading.visited ▸ hreading.visitor⟩
  · rw [parseM3uVisit, hheader, hrun]
    rfl
  · simp only [finishPlaylist, hreading.pending, hreading.sawContent, Bool.not_true, Bool.and_false,
      Bool.false_eq_true, if_false, hreading.diagnostics]

end Read

/-- Web urls, and whole numbers of seconds. -/
def localM3u : M3uEnv String Int :=
  { parseUrl := fun text =>
      if "http://".toList.isPrefixOf text.toList then .ok text
      else .error "relative URL without a base"
    parseDuration := fun text =>
      if text.toList.head? = some '-' then
        (Text.parseUnsigned (Nat.pow 2 32) text.toList.tail).map fun n => -(n : Int)
      else (Text.parseUnsigned (Nat.pow 2 32) text.toList).map Int.ofNat
    debug := String.quote }

/-- A name with everything that has a meaning in a playlist. -/
def awkwardCatalog : CatalogSnapshot :=
  { channels := [{ id := 7, number := "7.1", name := " #1, \"it's\"\r\n,\uFEFFnews ", group := none
                   logoUrl := some "http://a/\"b\"", enabled := true }]
    programmes := [] }

def wideLimits : ParseLimits :=
  { maxInputBytes := 1000, maxLineBytes := 1000, maxRecords := 10, maxTextBytes := 0
    maxXmlDepth := 0 }

theorem playlist_reads_back_awkward :
    ∃ document s, parseM3uVisit localM3u wideLimits (accept fun n _ => n + 1) 0
        [Utf8.encode (playlist "http://relay:8080" "t-0" (.memory awkwardCatalog))] none =
        .ok (document, s) ∧ document.diagnostics = [] ∧
      List.Forall₂ (ReadsAs localM3u "http://relay:8080" "t-0")
        (PlaylistSource.memory awkwardCatalog).outputs s.visits ∧
      s.visitor = s.visits.foldl (fun n _ => n + 1) 0 := by
  have hsize : [Utf8.encode (playlist "http://relay:8080" "t-0"
      (.memory awkwardCatalog))].flatten.length ≤ 1000 := by decide +kernel
  have hguide : ValidAbsoluteUrl localM3u (guideUrl "http://relay:8080" "t-0") := by
    unfold guideUrl
    repeat rw [String.toList_ofList]
    exact ⟨by decide +kernel, by decide +kernel, by decide +kernel⟩
  exact playlist_reads_back localM3u wideLimits (fun n _ => n + 1) 0 "http://relay:8080" "t-0"
    (.memory awkwardCatalog)
    [Utf8.encode (playlist "http://relay:8080" "t-0" (.memory awkwardCatalog))] hguide
    (fun channel hchannel => by
      obtain rfl := List.mem_singleton.mp hchannel
      exact ⟨by decide +kernel, by decide +kernel, by decide +kernel⟩)
    (by decide +kernel) (by decide +kernel) (List.append_nil _) hsize hsize (by decide +kernel)

end IptvRelay.Output
