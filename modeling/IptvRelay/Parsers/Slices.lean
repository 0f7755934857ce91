import IptvRelay.Parsers.Lines

/-!
# Slices of a buffered playlist

Two readers of the same bytes deliver the same lines, or fail at the same line, however the bytes
are cut. The errors may differ: the limit that is met first depends on the cuts.
-/

namespace IptvRelay.Parsers

open Checked

namespace LineReader

variable {limits : ParseLimits} {line : List UInt8} {bytesRead lineNumber : Nat}
  {buffers : List (List UInt8)} {failure : Option String}

/-- The line keeps the limits, and the reader does not fail before its end. -/
structure Fits (limits : ParseLimits) (line : List UInt8) (bytesRead : Nat) (bytes : List UInt8)
    (failure : Option String) : Prop where
  line : line.length + lineBytes bytes ≤ limits.maxLineBytes
  input : bytesRead + lineBytes bytes ≤ limits.maxInputBytes
  ends : failure = none ∨ newline ∈ bytes

/-- A line that does not fit is not read, wherever the slices end. -/
theorem readLine_error (hbuffers : [] ∉ buffers) (hline : line.length ≤ limits.maxLineBytes)
    (hinput : bytesRead ≤ limits.maxInputBytes)
    (h : ¬Fits limits line bytesRead buffers.flatten failure) :
    ∃ error, readLine limits line failure bytesRead lineNumber buffers = .error error := by
  induction buffers generalizing line bytesRead with
  | nil =>
    cases failure with
    | none => exact absurd ⟨hline, hinput, .inl rfl⟩ h
    | some message => exact ⟨_, rfl⟩
  | cons available buffers ih =>
    have hempty : available ≠ [] := Ne.symm (List.ne_of_not_mem_cons hbuffers)
    have hbuffers : [] ∉ buffers := List.not_mem_of_not_mem_cons hbuffers
    unfold readLine
    rw [if_neg hempty]
    dsimp only
    by_cases hlong : line.length + lineBytes available ≤ limits.maxLineBytes
    · rw [ensure_bind hlong]
      by_cases hlarge : bytesRead + lineBytes available ≤ limits.maxInputBytes
      · rw [ensure_bind hlarge]
        have hnewline : newline ∉ available := by
          intro hmem
          obtain ⟨first, behind, rfl, hfirst⟩ := exists_line hmem
          rw [lineBytes_line hfirst] at hlong hlarge
          refine h ⟨?_, ?_, .inr (by simp)⟩ <;>
            rwa [List.flatten_cons, List.append_assoc, List.cons_append, lineBytes_line hfirst]
        have hlast : ¬(available.take (lineBytes available)).getLast? = some newline :=
          fun hlast => hnewline (List.mem_of_mem_take (List.mem_of_getLast? hlast))
        rw [if_neg hlast]
        rw [lineBytes_of_open hnewline] at hlong hlarge ⊢
        rw [List.take_length]
        refine ih hbuffers (by rwa [List.length_append]) hlarge fun hfits => h ?_
        rw [List.flatten_cons]
        obtain ⟨hline, hinput, hend⟩ := hfits
        rw [List.length_append] at hline
        refine ⟨?_, ?_, hend.imp id fun hmem => List.mem_append_right _ hmem⟩ <;>
          rw [lineBytes_append_of_open hnewline] <;> omega
      · rw [ensure, if_neg hlarge]
        exact ⟨_, rfl⟩
    · rw [ensure, if_neg hlong]
      exact ⟨_, rfl⟩

/-! ## Two readers -/

/-- Readers of the same bytes that keep the limit of the input. -/
structure SameBytes (limits : ParseLimits) (first second : LineReader) : Prop where
  firstSlices : [] ∉ first.buffers
  secondSlices : [] ∉ second.buffers
  bytes : first.buffers.flatten = second.buffers.flatten
  failure : first.failure = second.failure
  bytesRead : first.bytesRead = second.bytesRead
  lineNumber : first.lineNumber = second.lineNumber
  within : first.bytesRead ≤ limits.maxInputBytes

/-- Both computations fail, or both succeed with results that are related. -/
def Agree {ε α : Type} (related : α → α → Prop) (first second : Except ε α) : Prop :=
  (∃ a b, first = .ok a ∧ second = .ok b ∧ related a b) ∨
    ((∃ error, first = .error error) ∧ ∃ error, second = .error error)

variable {first second : LineReader}

theorem SameBytes.readLine (h : SameBytes limits first second) :
    Agree (fun a b => a.1 = b.1 ∧ SameBytes limits a.2 b.2)
      (readLine limits [] first.failure first.bytesRead first.lineNumber first.buffers)
      (readLine limits [] second.failure second.bytesRead second.lineNumber second.buffers) := by
  by_cases hfits : Fits limits [] first.bytesRead first.buffers.flatten first.failure
  · have hfits' : Fits limits [] second.bytesRead second.buffers.flatten second.failure := by
      rw [← h.bytes, ← h.failure, ← h.bytesRead]
      exact hfits
    obtain ⟨rest, hrest, hflatten, hread⟩ := @readLine_ok limits [] _ first.lineNumber _ _
      h.firstSlices hfits.ends hfits.line hfits.input
    obtain ⟨rest', hrest', hflatten', hread'⟩ := @readLine_ok limits [] _ second.lineNumber _ _
      h.secondSlices hfits'.ends hfits'.line hfits'.input
    refine .inl ⟨_, _, hread, hread', by rw [h.bytes], hrest, hrest', ?_, h.failure, ?_,
      h.lineNumber, hfits.input⟩
    · rw [hflatten, hflatten', h.bytes]
    · rw [h.bytesRead, h.bytes]
  · have hfits' : ¬Fits limits [] second.bytesRead second.buffers.flatten second.failure := by
      rw [← h.bytes, ← h.failure, ← h.bytesRead]
      exact hfits
    exact .inr ⟨readLine_error h.firstSlices (Nat.zero_le _) h.within hfits,
      readLine_error h.secondSlices (Nat.zero_le _) (h.bytesRead ▸ h.within) hfits'⟩

/-- The next line is the same, or both readers fail. -/
theorem SameBytes.nextLine (h : SameBytes limits first second) :
    Agree (fun a b => a.1 = b.1 ∧ SameBytes limits a.2 b.2)
      (first.nextLine limits) (second.nextLine limits) := by
  unfold LineReader.nextLine
  rcases h.readLine with ⟨⟨line, next⟩, ⟨line', next'⟩, hread, hread', rfl, hsame⟩ |
    ⟨⟨error, hread⟩, error', hread'⟩
  · dsimp only at hsame
    rw [hread, hread', ok_bind, ok_bind]
    dsimp only
    split
    · exact .inl ⟨_, _, rfl, rfl, rfl, hsame⟩
    · rw [hsame.lineNumber]
      split
      · exact .inr ⟨⟨_, rfl⟩, _, rfl⟩
      · refine .inl ⟨_, _, rfl, rfl, rfl, ?_⟩
        exact ⟨hsame.firstSlices, hsame.secondSlices, hsame.bytes, hsame.failure,
          hsame.bytesRead, rfl, hsame.within⟩
  · rw [hread, hread']
    exact .inr ⟨⟨error, rfl⟩, error', rfl⟩

end LineReader

/-! ## The parser -/

section Parser

open LineReader

variable {Url Duration σ : Type} {env : M3uEnv Url Duration} {limits : ParseLimits}
  {visit : σ → M3uEntry Url Duration → Except ParseError σ}

theorem runLines_error {s : M3uState Url Duration σ} {reader : LineReader} {error : ParseError}
    (h : reader.nextLine limits = .error error) :
    runLines env limits visit s reader = .error error := by
  rw [runLines]
  split
  · rename_i hnext
    exact congrArg Except.error (Except.error.inj (hnext.symm.trans h))
  · rename_i hnext
    cases hnext.symm.trans h
  · rename_i hnext
    cases hnext.symm.trans h

/-- Round by round both loops do the same; the induction is on what is left of the first one. -/
theorem runLines_agree {first second : LineReader} (h : SameBytes limits first second)
    (s : M3uState Url Duration σ) :
    Agree (fun a b => a.1 = b.1 ∧ a.2.bytesRead = b.2.bytesRead)
      (runLines env limits visit s first) (runLines env limits visit s second) := by
  induction hsize : first.size using Nat.strong_induction_on generalizing first second s with
  | h size ih =>
    rcases h.nextLine with ⟨⟨line, next⟩, ⟨line', next'⟩, hnext, hnext', rfl, hsame⟩ |
      ⟨⟨error, hnext⟩, error', hnext'⟩
    · cases line with
      | none =>
        rw [runLines_end hnext, runLines_end hnext']
        exact .inl ⟨_, _, rfl, rfl, rfl, hsame.bytesRead⟩
      | some numbered =>
        obtain ⟨number, line⟩ := numbered
        rw [runLines_line hnext, runLines_line hnext']
        cases stepLine env limits visit s number line with
        | error error => exact .inr ⟨⟨error, rfl⟩, error, rfl⟩
        | ok after => exact ih next.size (hsize ▸ nextLine_size hnext) hsame after rfl
    · rw [runLines_error hnext, runLines_error hnext']
      exact .inr ⟨⟨error, rfl⟩, error', rfl⟩

/-- Two readers of the same bytes give the same playlist and the same visits, or both fail. -/
theorem parse_of_same_bytes (env : M3uEnv Url Duration) (limits : ParseLimits)
    (visit : σ → M3uEntry Url Duration → Except ParseError σ) (start : σ)
    (failure : Option String) (first second : List (List UInt8)) (hfirst : [] ∉ first)
    (hsecond : [] ∉ second) (hbytes : first.flatten = second.flatten) :
    ∀ playlist s, parseM3uVisit env limits visit start first failure = .ok (playlist, s) ↔
      parseM3uVisit env limits visit start second failure = .ok (playlist, s) := by
  have hsame : SameBytes limits { buffers := first, failure } { buffers := second, failure } :=
    ⟨hfirst, hsecond, hbytes, rfl, rfl, rfl, Nat.zero_le _⟩
  unfold parseM3uVisit
  rcases @runLines_agree _ _ _ env _ visit _ _ hsame { visitor := start } with
    ⟨⟨s, reader⟩, ⟨s', reader'⟩, hrun, hrun', rfl, hread⟩ | ⟨⟨error, hrun⟩, error', hrun'⟩
  · dsimp only at hread
    rw [hrun, hrun', ok_bind, ok_bind]
    dsimp only
    rw [hread]
    exact fun _ _ => Iff.rfl
  · rw [hrun, hrun']
    exact fun _ _ => ⟨nofun, nofun⟩

end Parser

/-- Urls are words that begin with `h`, durations are not read. -/
def wordUrls : M3uEnv String Unit where
  parseUrl text := if text.toList.head? = some 'h' then .ok text else .error "relative URL"
  parseDuration _ := none
  debug := String.quote

/-- An entry, cut inside of a line and between the two bytes of a line end. -/
theorem parse_of_same_bytes_cut :
    let limits : ParseLimits := { maxInputBytes := 64, maxLineBytes := 32, maxRecords := 4
                                  maxTextBytes := 16, maxXmlDepth := 0 }
    let parse := parseM3uVisit wordUrls limits (fun n _ => .ok (n + 1)) 0
    ∃ playlist s, s.visitor = 1 ∧ s.visits.map M3uEntry.title = ["News"] ∧
      parse ["#EXTM3U\r\n#EXTINF:-1,News\nhttp:/".toUTF8.toList, "/a".toUTF8.toList] none =
        .ok (playlist, s) ∧
      parse ["#EXTM3U\r".toUTF8.toList, "\n#EXTINF:-1,News\nhttp://a".toUTF8.toList] none =
        .ok (playlist, s) := by
  intro limits parse
  have hparsed : (parse ["#EXTM3U\r\n#EXTINF:-1,News\nhttp:/".toUTF8.toList,
      "/a".toUTF8.toList] none).toOption.map (fun result =>
        (result.2.visitor, result.2.visits.map M3uEntry.title)) = some (1, ["News"]) := by
    decide +kernel
  obtain ⟨⟨playlist, s⟩, hfirst, hvisits⟩ := Option.map_eq_some_iff.mp hparsed
  obtain ⟨hvisitor, hvisits⟩ := Prod.mk.inj hvisits
  have hfirst := of_toOption hfirst
  exact ⟨playlist, s, hvisitor, hvisits, hfirst, (parse_of_same_bytes wordUrls limits
    (fun n _ => .ok (n + 1)) 0 none _ _ (by decide +kernel) (by decide +kernel)
    (by decide +kernel) playlist s).mp hfirst⟩

end IptvRelay.Parsers
