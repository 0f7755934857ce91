import IptvRelay.Lib.Checked
import IptvRelay.Parsers.Diagnostics
import Mathlib.Algebra.GroupWithZero.Nat
import Mathlib.Data.List.TakeWhile

/-!
# Extended M3U playlists

Model of `parsers/src/m3u.rs`. A buffered reader is the list of the slices that it returns,
one for each call that fills its buffer; an empty slice reads as the end of the input. Urls,
durations and the `Debug` texts of strings are parameters.
-/

namespace IptvRelay.Parsers

open Checked

structure M3uHeader where
  attributes : Attributes := []
  raw : String := ""
  deriving DecidableEq, Repr

structure M3uDirective where
  name : String
  value : Option String
  raw : String
  deriving DecidableEq, Repr

structure M3uEntry (Url Duration : Type) where
  durationSeconds : Option Duration
  title : String
  attributes : Attributes
  url : Url
  directives : List M3uDirective
  rawExtinf : Option String
  deriving DecidableEq, Repr

structure M3uPlaylist where
  header : M3uHeader := {}
  globalDirectives : List M3uDirective := []
  diagnostics : List Diagnostic := []
  stats : ParseStats := {}
  deriving DecidableEq, Repr

structure PendingEntry (Duration : Type) where
  durationSeconds : Option Duration
  title : String
  attributes : Attributes
  directives : List M3uDirective := []
  rawExtinf : String
  line : Nat
  deriving DecidableEq, Repr

structure M3uEnv (Url Duration : Type) where
  parseUrl : String → Except String Url
  /-- A finite number. -/
  parseDuration : String → Option Duration
  debug : String → String

/-! ## Lines -/

/-- `BoundedLineReader`; the reader may end in an error. -/
structure LineReader where
  buffers : List (List UInt8)
  failure : Option String := none
  bytesRead : Nat := 0
  lineNumber : Nat := 0
  deriving DecidableEq, Repr

def newline : UInt8 := 10

def carriageReturn : UInt8 := 13

/-- The bytes of a line up to its end in this slice. -/
def lineBytes (available : List UInt8) : Nat :=
  match available.findIdx? (· = newline) with
  | some index => index + 1
  | none => available.length

namespace LineReader

/-- Read to the end of a line, behind the bytes of the line that have been read. -/
def readLine (limits : ParseLimits) (line : List UInt8) (failure : Option String)
    (bytesRead lineNumber : Nat) :
    List (List UInt8) → Except ParseError (List UInt8 × LineReader)
  | [] => match failure with
    | some message => .error (.io message)
    | none => .ok (line, { buffers := [], failure, bytesRead, lineNumber })
  | available :: rest =>
    if available = [] then .ok (line, { buffers := rest, failure, bytesRead, lineNumber })
    else do
      let take := lineBytes available
      ensure (line.length + take ≤ limits.maxLineBytes)
        (ParseError.lineTooLong (lineNumber + 1) limits.maxLineBytes)
      ensure (bytesRead + take ≤ limits.maxInputBytes)
        (ParseError.inputTooLarge limits.maxInputBytes)
      let line := line ++ available.take take
      if (available.take take).getLast? = some newline then
        return (line, { buffers := if available.drop take = [] then rest
                          else available.drop take :: rest
                        failure, bytesRead := bytesRead + take, lineNumber })
      else readLine limits line failure (bytesRead + take) lineNumber rest

/-- The line without its end. -/
def stripLineEnd (line : List UInt8) : List UInt8 :=
  (line.reverse.dropWhile fun byte => byte = newline ∨ byte = carriageReturn).reverse

/-- `next_line`. -/
def nextLine (limits : ParseLimits) (reader : LineReader) :
    Except ParseError (Option (Nat × String) × LineReader) := do
  let (line, reader) ←
    readLine limits [] reader.failure reader.bytesRead reader.lineNumber reader.buffers
  if line = [] then return (none, reader)
  else
    let reader := { reader with lineNumber := reader.lineNumber + 1 }
    match String.fromUTF8? ⟨(stripLineEnd line).toArray⟩ with
    | none => throw (.invalidUtf8 reader.lineNumber)
    | some text => return (some (reader.lineNumber, text), reader)

end LineReader

/-- Bytes and slices. -/
def buffersSize (buffers : List (List UInt8)) : Nat :=
  (buffers.map fun buffer => buffer.length + 1).sum

def LineReader.size (reader : LineReader) : Nat := buffersSize reader.buffers

theorem lineBytes_pos {available : List UInt8} (h : available ≠ []) : 0 < lineBytes available := by
  unfold lineBytes
  split
  · omega
  · exact List.length_pos_iff.mpr h

/-- A line takes bytes from the reader. -/
theorem LineReader.readLine_size {limits : ParseLimits} {line : List UInt8}
    {failure : Option String} {bytesRead lineNumber : Nat} {buffers : List (List UInt8)}
    {result : List UInt8} {reader : LineReader}
    (h : readLine limits line failure bytesRead lineNumber buffers = .ok (result, reader)) :
    reader.size ≤ buffersSize buffers ∧ (result ≠ line → reader.size < buffersSize buffers) := by
  induction buffers generalizing line bytesRead with
  | nil =>
    unfold readLine at h
    split at h
    · cases h
    · obtain ⟨rfl, rfl⟩ := Prod.mk.inj (Except.ok.inj h)
      exact ⟨le_rfl, fun hne => absurd rfl hne⟩
  | cons available rest ih =>
    unfold readLine at h
    split_ifs at h with hempty
    · obtain ⟨rfl, rfl⟩ := Prod.mk.inj (Except.ok.inj h)
      simp [LineReader.size, buffersSize, hempty]
    · have hpos := lineBytes_pos hempty
      obtain ⟨_, -, h⟩ := of_bind h
      obtain ⟨_, -, h⟩ := of_bind h
      have hlength := List.length_pos_iff.mpr hempty
      split_ifs at h with hnewline hdrop
      · obtain ⟨-, rfl⟩ := Prod.mk.inj (of_pure h)
        simp only [LineReader.size, buffersSize, List.map_cons, List.sum_cons]
        omega
      · obtain ⟨-, rfl⟩ := Prod.mk.inj (of_pure h)
        simp only [LineReader.size, buffersSize, List.map_cons, List.sum_cons, List.length_drop]
        omega
      · have hrest := (ih h).1
        simp only [buffersSize, List.map_cons, List.sum_cons] at hrest ⊢
        omega

theorem LineReader.nextLine_size {limits : ParseLimits} {reader next : LineReader}
    {line : Nat × String} (h : reader.nextLine limits = .ok (some line, next)) :
    next.size < reader.size := by
  unfold LineReader.nextLine at h
  obtain ⟨⟨bytes, after⟩, hread, h⟩ := of_bind h
  have hsize := LineReader.readLine_size hread
  simp only at h
  split_ifs at h with hempty
  · cases h
  · split at h
    · cases h
    · obtain ⟨-, rfl⟩ := Prod.mk.inj (of_pure h)
      exact hsize.2 hempty

/-! ## Attributes -/

/-- `u8::is_ascii_whitespace`. -/
def isAsciiWhitespace (c : Char) : Bool := c ∈ [' ', '\t', '\n', '\x0c', '\r']

def invalidAttribute (line : Nat) (message : String) : Diagnostic :=
  { severity := .warning, code := .invalidAttribute, line := some line, byteOffset := none
    message }

def apostrophe : Char := Char.ofNat 39

def quotationMark : Char := Char.ofNat 34

/-- The value behind an equals sign, what is left, and whether a quote was not closed. -/
def attributeValue (text : List Char) : List Char × List Char × Bool :=
  match text.dropWhile isAsciiWhitespace with
  | [] => ([], [], false)
  | c :: rest =>
    if c = apostrophe ∨ c = quotationMark then
      let value := rest.takeWhile (· ≠ c)
      match rest.dropWhile (· ≠ c) with
      | [] => (value, [], true)
      | _ :: rest => (value, rest, false)
    else
      ((c :: rest).takeWhile fun c => !isAsciiWhitespace c,
        (c :: rest).dropWhile fun c => !isAsciiWhitespace c, false)

theorem attributeValue_rest_le (text : List Char) :
    (attributeValue text).2.1.length ≤ text.length := by
  unfold attributeValue
  have hdrop := List.length_dropWhile_le isAsciiWhitespace text
  split
  · simp
  · rename_i c rest heq
    rw [heq, List.length_cons] at hdrop
    split_ifs
    · have hrest := List.length_dropWhile_le (· ≠ c) rest
      split
      · simp
      · rename_i tail htail
        rw [htail, List.length_cons] at hrest
        simp only
        omega
    · have hrest := List.length_dropWhile_le (fun c => !isAsciiWhitespace c) (c :: rest)
      rw [List.length_cons] at hrest
      simp only
      omega

/-- The characters of a key. -/
def isKeyChar (c : Char) : Bool := !isAsciiWhitespace c && c ≠ '='

/-- What stands behind a key and the whitespace after it. -/
def behindKey (text : List Char) : List Char :=
  (text.dropWhile isKeyChar).dropWhile isAsciiWhitespace

theorem length_behindKey_le (text : List Char) : (behindKey text).length ≤ text.length :=
  (List.length_dropWhile_le _ _).trans (List.length_dropWhile_le _ _)

/-- A text that begins with no whitespace has a key, or an equals sign in its place. -/
theorem length_behindKey_lt {c : Char} {rest : List Char} (hc : isAsciiWhitespace c = false)
    (hother : (behindKey (c :: rest)).head? ≠ some '=') :
    (behindKey (c :: rest)).length ≤ rest.length := by
  have hkeyChar : isKeyChar c = true := by
    by_contra hnot
    have hequals : c = '=' := by simpa [isKeyChar, hc] using hnot
    refine hother ?_
    rw [behindKey, List.dropWhile_cons_of_neg hnot, List.dropWhile_cons_of_neg (by simp [hc]),
      hequals, List.head?_cons]
  rw [behindKey, List.dropWhile_cons_of_pos hkeyChar]
  exact (List.length_dropWhile_le _ _).trans (List.length_dropWhile_le _ _)

/-- The attributes and the diagnostics behind those found so far. -/
def parseAttributes (debug : String → String) (line : Nat) (attributes : Attributes)
    (text : List Char) : Attributes × List Diagnostic :=
  match _htext : text.dropWhile isAsciiWhitespace with
  | [] => (attributes, [])
  | c :: rest =>
    let key := String.ofList ((c :: rest).takeWhile isKeyChar)
    if (behindKey (c :: rest)).head? = some '=' then
      let value := attributeValue (behindKey (c :: rest)).tail
      let attributes := if key = "" then attributes
        else attributes.insert (String.ofList (Text.asciiLowercase key.toList))
          (String.ofList value.1)
      let found := parseAttributes debug line attributes value.2.1
      (found.1, (if value.2.2 then
          [invalidAttribute line s!"attribute {debug key} has an unterminated quote"]
        else []) ++ found.2)
    else
      -- The word behind a key without a value is passed over with it.
      let found := parseAttributes debug line attributes
        ((behindKey (c :: rest)).dropWhile fun c => !isAsciiWhitespace c)
      (found.1,
        invalidAttribute line s!"attribute {debug key} has no '=' and was ignored" :: found.2)
termination_by text.length
decreasing_by
  all_goals
    have htext' := List.length_dropWhile_le isAsciiWhitespace text
    rw [_htext, List.length_cons] at htext'
  · rename_i hequals
    have hvalue := attributeValue_rest_le (behindKey (c :: rest)).tail
    have hbehind := length_behindKey_le (c :: rest)
    have hpos : 0 < (behindKey (c :: rest)).length :=
      List.length_pos_iff.mpr fun hnil => by simp [hnil] at hequals
    rw [List.length_tail] at hvalue
    rw [List.length_cons] at hbehind
    omega
  · rename_i hother
    have hc : isAsciiWhitespace c = false := by
      have hhead := List.head_dropWhile_not (p := isAsciiWhitespace) (l := text) (by simp [_htext])
      simpa [_htext] using hhead
    have hbehind := length_behindKey_lt hc hother
    have hword := List.length_dropWhile_le (fun c => !isAsciiWhitespace c)
      (behindKey (c :: rest))
    omega

/-! ## Lines of a playlist -/

/-- `str::strip_prefix`. -/
def stripPrefix (text start : List Char) : Option (List Char) :=
  if start.isPrefixOf text then some (text.drop start.length) else none

/-- The metadata before the first comma outside quotes, and the title behind it. -/
def splitTitle (quote : Option Char) : List Char → List Char × List Char
  | [] => ([], [])
  | c :: rest =>
    if c = ',' ∧ quote = none then ([], rest)
    else
      let quote := if c = apostrophe ∨ c = quotationMark then
          if quote = some c then none else if quote = none then some c else quote
        else quote
      let (metadata, title) := splitTitle quote rest
      (c :: metadata, title)

section Lines

variable {Url Duration : Type} (env : M3uEnv Url Duration)

def parseHeader (line : List Char) (number : Nat) : M3uHeader × List Diagnostic :=
  let (attributes, diagnostics) := parseAttributes env.debug number []
    (Text.trim (line.drop "#EXTM3U".length))
  ({ attributes, raw := String.ofList line }, diagnostics)

/-- The duration, or a warning about a text that is none. -/
def parseExtinfDuration (raw : List Char) (number : Nat) : Option Duration × List Diagnostic :=
  if raw = [] then (none, [])
  else match env.parseDuration (String.ofList raw) with
    | some duration => (some duration, [])
    | none => (none, [
        { severity := .warning, code := .invalidDuration, line := some number, byteOffset := none
          message := s!"invalid EXTINF duration {env.debug (String.ofList raw)}" }])

def parseExtinf (line : List Char) (number : Nat) :
    PendingEntry Duration × List Diagnostic × List Diagnostic :=
  let (metadata, title) := splitTitle none (line.drop "#EXTINF:".length)
  let metadata := Text.trim metadata
  let durationRaw := metadata.takeWhile fun c => !Text.isWhitespace c
  let attributeRaw := Text.trim (metadata.dropWhile fun c => !Text.isWhitespace c)
  let (durationSeconds, durationDiagnostics) := parseExtinfDuration env durationRaw number
  let (attributes, diagnostics) := parseAttributes env.debug number [] attributeRaw
  ({ durationSeconds, title := String.ofList (Text.trim title), attributes
     rawExtinf := String.ofList line, line := number }, durationDiagnostics, diagnostics)

def parseDirective (line : List Char) : M3uDirective :=
  let withoutHash := (stripPrefix line ['#']).getD line
  match Text.splitOnce ':' withoutHash with
  | none => { name := String.ofList withoutHash, value := none, raw := String.ofList line }
  | some (name, value) =>
    { name := String.ofList name, value := some (String.ofList value), raw := String.ofList line }

/-- The directive is kept with the entry; `EXTGRP` gives it a group if it has none. -/
def PendingEntry.addDirective (entry : PendingEntry Duration) (directive : M3uDirective) :
    PendingEntry Duration :=
  let attributes := match directive.value with
    | some value =>
      if Text.asciiLowercase directive.name.toList = "extgrp".toList ∧
          (entry.attributes.get "group-title").isNone then
        entry.attributes.insert "group-title" (trimmed value)
      else entry.attributes
    | none => entry.attributes
  { entry with attributes, directives := entry.directives ++ [directive] }

end Lines

/-! ## The loop -/

namespace M3uPlaylist

def pushDiagnostic (playlist : M3uPlaylist) (diagnostic : Diagnostic) : M3uPlaylist :=
  { playlist with
    stats := playlist.stats.observe diagnostic
    diagnostics := playlist.diagnostics ++ [diagnostic] }

def warning (playlist : M3uPlaylist) (code : DiagnosticCode) (line : Option Nat)
    (message : String) : M3uPlaylist :=
  playlist.pushDiagnostic { severity := .warning, code, line, byteOffset := none, message }

def skipRecord (playlist : M3uPlaylist) : M3uPlaylist :=
  { playlist with stats.recordsSkipped := playlist.stats.recordsSkipped + 1 }

/-- Only two directives are known. -/
def observeDirective (playlist : M3uPlaylist) (directive : M3uDirective) : M3uPlaylist :=
  if directive.name = "EXTGRP" ∨ directive.name = "EXTVLCOPT" then playlist
  else { playlist with stats.unknownMetadata := playlist.stats.unknownMetadata + 1 }

def countSeverity (playlist : M3uPlaylist) (severity : Severity) : Nat :=
  (playlist.diagnostics.filter fun item => item.severity = severity).length

end M3uPlaylist

/-- The variables of the loop. The calls of the visitor are kept in their order. -/
structure M3uState (Url Duration σ : Type) where
  playlist : M3uPlaylist := {}
  pending : Option (PendingEntry Duration) := none
  sawContent : Bool := false
  sawHeader : Bool := false
  visitor : σ
  visits : List (M3uEntry Url Duration) := []

section Loop

variable {Url Duration σ : Type} (env : M3uEnv Url Duration) (limits : ParseLimits)
  (visit : σ → M3uEntry Url Duration → Except ParseError σ)

/-- An entry that still waits for its url is given up for another one. -/
def replacePending (playlist : M3uPlaylist) : Option (PendingEntry Duration) → M3uPlaylist
  | some previous => playlist.skipRecord.warning .replacedPendingEntry (some previous.line)
      "EXTINF was replaced by another EXTINF before a URL was found"
  | none => playlist

/-- A line that begins with `#EXTINF:`. -/
def extinfLine (s : M3uState Url Duration σ) (number : Nat) (line : List Char) :
    Except ParseError (M3uState Url Duration σ) := do
  ensure (¬ recordLimitReached s.playlist.stats.recordsSeen limits.maxRecords)
    (ParseError.tooManyRecords limits.maxRecords)
  let playlist := { s.playlist with stats.recordsSeen := s.playlist.stats.recordsSeen + 1 }
  let playlist := replacePending playlist s.pending
  let (entry, durationDiagnostics, diagnostics) := parseExtinf env line number
  let playlist := durationDiagnostics.foldl M3uPlaylist.pushDiagnostic playlist
  -- The diagnostics of attributes are counted at the end only.
  let playlist := { playlist with diagnostics := playlist.diagnostics ++ diagnostics }
  return { s with playlist, pending := some entry }

/-- Any other line that begins with `#`. -/
def directiveLine (s : M3uState Url Duration σ) (line : List Char) : M3uState Url Duration σ :=
  let directive := parseDirective line
  let playlist := s.playlist.observeDirective directive
  match s.pending with
  | some entry => { s with playlist, pending := some (entry.addDirective directive) }
  | none => { s with playlist := { playlist with
      globalDirectives := playlist.globalDirectives ++ [directive] } }

/-- The entry of a url, with the playlist after a warning about a url on its own. -/
def takeEntry (s : M3uState Url Duration σ) (number : Nat) (url : Url) :
    M3uPlaylist × M3uEntry Url Duration :=
  match s.pending with
  | some pending => (s.playlist,
      { durationSeconds := pending.durationSeconds, title := pending.title
        attributes := pending.attributes, url, directives := pending.directives
        rawExtinf := some pending.rawExtinf })
  | none =>
    let playlist := s.playlist.warning .orphanUrl (some number)
      "URL has no preceding EXTINF; preserving it as an unnamed entry"
    ({ playlist with stats.recordsSeen := playlist.stats.recordsSeen + 1 },
      { durationSeconds := none, title := "", attributes := [], url, directives := []
        rawExtinf := none })

/-- A line with a url. -/
def urlLine (s : M3uState Url Duration σ) (number : Nat) (url : Url) :
    Except ParseError (M3uState Url Duration σ) := do
  ensure (s.playlist.stats.recordsEmitted < limits.maxRecords)
    (ParseError.tooManyRecords limits.maxRecords)
  let (playlist, entry) := takeEntry s number url
  let next ← visit s.visitor entry
  return { s with
    playlist := { playlist with stats.recordsEmitted := playlist.stats.recordsEmitted + 1 }
    pending := none
    visitor := next
    visits := s.visits ++ [entry] }

/-- A line that is no url: an entry that waits for one is given up. -/
def invalidUrlLine (s : M3uState Url Duration σ) (number : Nat) (error : String) :
    M3uState Url Duration σ :=
  let playlist := if s.pending.isSome then s.playlist.skipRecord else s.playlist
  { s with
    pending := none
    playlist := playlist.pushDiagnostic
      { severity := .error, code := .invalidUrl, line := some number, byteOffset := none
        message := s!"invalid absolute stream URL: {error}" } }

/-- A line with content, after the header. -/
def contentLine (s : M3uState Url Duration σ) (number : Nat) (line : List Char) :
    Except ParseError (M3uState Url Duration σ) :=
  if "#EXTINF:".toList.isPrefixOf line then extinfLine env limits s number line
  else if line.head? = some '#' then .ok (directiveLine s line)
  else match env.parseUrl (String.ofList line) with
    | .ok url => urlLine limits visit s number url
    | .error error => .ok (invalidUrlLine s number error)

/-- One round of the loop. -/
def stepLine (s : M3uState Url Duration σ) (number : Nat) (line : String) :
    Except ParseError (M3uState Url Duration σ) :=
  let s := { s with playlist.stats.linesRead := s.playlist.stats.linesRead + 1 }
  let text := Text.trim ((stripPrefix line.toList [Char.ofNat 0xFEFF]).getD line.toList)
  if text = [] then .ok s
  else if s.sawContent then contentLine env limits visit s number text
  else if "#EXTM3U".toList.isPrefixOf text then
    let (header, diagnostics) := parseHeader env text number
    .ok { s with
      sawContent := true
      sawHeader := true
      playlist := { s.playlist with
        header, diagnostics := s.playlist.diagnostics ++ diagnostics } }
  else
    contentLine env limits visit
      { s with
        sawContent := true
        playlist := s.playlist.warning .missingHeader (some number)
          "playlist does not begin with #EXTM3U" } number text

/-- After the last line. The counters of severities are taken from the diagnostics. -/
def finishPlaylist (s : M3uState Url Duration σ) (bytesRead : Nat) : M3uPlaylist :=
  let playlist := match s.pending with
    | some entry => s.playlist.skipRecord.warning .orphanMetadata (some entry.line)
        "EXTINF at end of input has no URL"
    | none => s.playlist
  let playlist := if !s.sawHeader && !s.sawContent then
      playlist.warning .missingHeader none "empty playlist"
    else playlist
  { playlist with
    stats.bytesRead := bytesRead
    stats.warnings := playlist.countSeverity .warning
    stats.errors := playlist.countSeverity .error }

/-- Line by line to the end. -/
def runLines (s : M3uState Url Duration σ) (reader : LineReader) :
    Except ParseError (M3uState Url Duration σ × LineReader) :=
  match _hnext : reader.nextLine limits with
  | .error error => .error error
  | .ok (none, reader) => .ok (s, reader)
  | .ok (some (number, line), next) => do
    let s ← stepLine env limits visit s number line
    runLines s next
termination_by reader.size
decreasing_by exact LineReader.nextLine_size _hnext

/-- `parse_m3u_visit`, with the calls of the visitor. -/
def parseM3uVisit (start : σ) (buffers : List (List UInt8)) (failure : Option String) :
    Except ParseError (M3uPlaylist × M3uState Url Duration σ) := do
  let (s, reader) ← runLines env limits visit { visitor := start } { buffers, failure }
  return (finishPlaylist s reader.bytesRead, s)

end Loop

end IptvRelay.Parsers
