import IptvRelay.Lib.Utf8
import IptvRelay.Parsers.M3u

/-!
# Lines of a buffered text

A line and what is left behind it depend on the bytes of the slices only, and not on where the
reader cuts them. A line of a text is read back from its bytes.
-/

namespace IptvRelay.Parsers

open Checked

/-! ## Slices -/

/-- A slice without a newline is passed over. -/
theorem lineBytes_append_of_open {available : List UInt8} (h : newline ∉ available)
    (rest : List UInt8) : lineBytes (available ++ rest) = available.length + lineBytes rest := by
  have hnone : available.findIdx? (· = newline) = none :=
    List.findIdx?_eq_none_iff.mpr fun byte hbyte =>
      decide_eq_false fun heq => h (heq ▸ hbyte)
  unfold lineBytes
  rw [List.findIdx?_append, hnone, Option.none_or]
  cases rest.findIdx? (· = newline) with
  | none => simp
  | some index => simp only [Option.map_some, Nat.add_assoc, Nat.add_comm index]

theorem lineBytes_of_open {available : List UInt8} (h : newline ∉ available) :
    lineBytes available = available.length := by
  have happend := lineBytes_append_of_open h []
  rwa [List.append_nil] at happend

theorem lineBytes_line {line : List UInt8} (h : newline ∉ line) (rest : List UInt8) :
    lineBytes (line ++ newline :: rest) = line.length + 1 := by
  rw [lineBytes_append_of_open h]
  simp [lineBytes, List.findIdx?_cons]

theorem take_line (line rest : List UInt8) :
    (line ++ newline :: rest).take (line.length + 1) = line ++ [newline] := by
  rw [List.take_length_add_append]
  rfl

theorem drop_line (line rest : List UInt8) :
    (line ++ newline :: rest).drop (line.length + 1) = rest := by
  rw [List.drop_length_add_append]
  rfl

/-- The first line, if the bytes end one. -/
theorem exists_line {bytes : List UInt8} (h : newline ∈ bytes) :
    ∃ line rest, bytes = line ++ newline :: rest ∧ newline ∉ line :=
  let ⟨line, rest, heq, hline⟩ := List.eq_append_cons_of_mem h
  ⟨line, rest, heq, hline⟩

namespace LineReader

variable {limits : ParseLimits} {line : List UInt8} {bytesRead lineNumber : Nat}
  {buffers : List (List UInt8)}

/-- Reading a line takes its bytes from the slices. The reader fails behind the last slice only. -/
theorem readLine_ok {failure : Option String} (hbuffers : [] ∉ buffers)
    (hend : failure = none ∨ newline ∈ buffers.flatten)
    (hline : line.length + lineBytes buffers.flatten ≤ limits.maxLineBytes)
    (hinput : bytesRead + lineBytes buffers.flatten ≤ limits.maxInputBytes) :
    ∃ rest, [] ∉ rest ∧ rest.flatten = buffers.flatten.drop (lineBytes buffers.flatten) ∧
      readLine limits line failure bytesRead lineNumber buffers =
        .ok (line ++ buffers.flatten.take (lineBytes buffers.flatten),
          { buffers := rest, failure, bytesRead := bytesRead + lineBytes buffers.flatten
            lineNumber }) := by
  induction buffers generalizing line bytesRead with
  | nil =>
    obtain rfl := hend.resolve_right List.not_mem_nil
    refine ⟨[], List.not_mem_nil, rfl, ?_⟩
    simp [readLine, lineBytes]
  | cons available buffers ih =>
    have hempty : available ≠ [] := Ne.symm (List.ne_of_not_mem_cons hbuffers)
    have hbuffers : [] ∉ buffers := List.not_mem_of_not_mem_cons hbuffers
    rw [List.flatten_cons] at *
    unfold readLine
    rw [if_neg hempty]
    by_cases hnewline : newline ∈ available
    · -- The line ends in this slice.
      obtain ⟨first, behind, rfl, hfirst⟩ := exists_line hnewline
      rw [List.append_assoc, List.cons_append, lineBytes_line hfirst] at *
      refine ⟨if behind = [] then buffers else behind :: buffers, ?_, ?_, ?_⟩
      · split_ifs with hbehind
        · assumption
        · exact List.not_mem_cons_of_ne_of_not_mem (Ne.symm hbehind) (by assumption)
      · rw [drop_line]
        split_ifs with hbehind
        · rw [hbehind, List.nil_append]
        · rfl
      · simp only [lineBytes_line hfirst, take_line, drop_line]
        rw [ensure_bind hline, ensure_bind hinput, if_pos List.getLast?_concat]
        rfl
    · -- The line goes on in the next slice.
      have hlast : ¬available.getLast? = some newline :=
        fun hlast => hnewline (List.mem_of_getLast? hlast)
      have hend : failure = none ∨ newline ∈ buffers.flatten :=
        hend.imp id fun hmem => (List.mem_append.mp hmem).resolve_left hnewline
      rw [lineBytes_append_of_open hnewline] at *
      obtain ⟨rest, hrest, hflatten, hread⟩ := @ih (line ++ available)
        (bytesRead + available.length) hbuffers hend (by rw [List.length_append]; omega) (by omega)
      refine ⟨rest, hrest, ?_, ?_⟩
      · rw [hflatten, List.drop_length_add_append]
      · simp only [lineBytes_of_open hnewline, List.take_length]
        rw [ensure_bind (by omega), ensure_bind (by omega), if_neg hlast, hread,
          List.take_length_add_append, List.append_assoc, Nat.add_assoc]

/-! ## Lines of a text -/

/-- The reader stands before this text, which keeps the limits. -/
structure Before (limits : ParseLimits) (reader : LineReader) (text : List Char) : Prop where
  slices : [] ∉ reader.buffers
  failure : reader.failure = none
  bytes : reader.buffers.flatten = Utf8.encode text
  line : (Utf8.encode text).length ≤ limits.maxLineBytes
  input : reader.bytesRead + (Utf8.encode text).length ≤ limits.maxInputBytes

theorem stripLineEnd_line {line : List UInt8} (hnewline : newline ∉ line)
    (hreturn : carriageReturn ∉ line) : stripLineEnd (line ++ [newline]) = line := by
  have hkept : line.reverse.dropWhile (fun byte => byte = newline ∨ byte = carriageReturn) =
      line.reverse := by
    cases hline : line.reverse with
    | nil => rfl
    | cons byte rest =>
      have hmem : byte ∈ line := List.mem_reverse.mp (hline ▸ List.mem_cons_self)
      refine List.dropWhile_cons_of_neg ?_
      simpa using ⟨fun h => hnewline (h ▸ hmem), fun h => hreturn (h ▸ hmem)⟩
  rw [stripLineEnd, List.reverse_concat, List.dropWhile_cons_of_pos (by simp), hkept,
    List.reverse_reverse]

variable {reader : LineReader} {text rest : List Char}

/-- A line of the text is read as it is. -/
theorem nextLine_line (h : Before limits reader (text ++ '\n' :: rest)) (hnewline : '\n' ∉ text)
    (hreturn : '\r' ∉ text) :
    ∃ next, reader.nextLine limits =
        .ok (some (reader.lineNumber + 1, String.ofList text), next) ∧ Before limits next rest := by
  have hbytes : Utf8.encode (text ++ '\n' :: rest) =
      Utf8.encode text ++ newline :: Utf8.encode rest := by
    rw [Utf8.encode_append, Utf8.encode_cons]
    rfl
  have hopen : newline ∉ Utf8.encode text :=
    fun hmem => hnewline (Utf8.mem_of_mem_encode hmem (by decide))
  have hnoReturn : carriageReturn ∉ Utf8.encode text :=
    fun hmem => hreturn (Utf8.mem_of_mem_encode hmem (by decide))
  obtain ⟨hslices, hfailure, hflatten, hline, hinput⟩ := h
  rw [hbytes] at hflatten hline hinput
  rw [List.length_append, List.length_cons] at hline hinput
  have hlength := lineBytes_line hopen (Utf8.encode rest)
  rw [← hflatten] at hlength
  obtain ⟨slices, hrest, htail, hread⟩ := @readLine_ok limits [] reader.bytesRead
    reader.lineNumber reader.buffers none hslices (.inl rfl) (by rw [hlength, List.length_nil]; omega)
    (by rw [hlength]; omega)
  rw [hlength, hflatten, take_line, List.nil_append] at hread
  rw [hlength, hflatten, drop_line] at htail
  refine ⟨{ buffers := slices, bytesRead := reader.bytesRead + ((Utf8.encode text).length + 1)
            lineNumber := reader.lineNumber + 1 }, ?_, hrest, rfl, htail, by omega, ?_⟩
  · unfold nextLine
    rw [hfailure, hread]
    have hne : Utf8.encode text ++ [newline] ≠ [] := by simp
    simp only [bind, Except.bind, if_neg hne, stripLineEnd_line hopen hnoReturn,
      Utf8.fromUTF8_encode]
    rfl
  · simp only
    omega

theorem nextLine_end (h : Before limits reader []) :
    ∃ next, reader.nextLine limits = .ok (none, next) := by
  obtain ⟨slices, -, -, hread⟩ := @readLine_ok limits [] reader.bytesRead
    reader.lineNumber reader.buffers none h.slices (.inl rfl) (by rw [h.bytes]; exact Nat.zero_le _)
    (by rw [h.bytes]; exact h.input)
  rw [h.bytes] at hread
  exact ⟨_, by unfold nextLine; rw [h.failure, hread]; rfl⟩

end LineReader

/-! ## Rounds of the loop -/

section Loop

variable {Url Duration σ : Type} {env : M3uEnv Url Duration} {limits : ParseLimits}
  {visit : σ → M3uEntry Url Duration → Except ParseError σ} {s : M3uState Url Duration σ}
  {reader next : LineReader}

theorem runLines_line {number : Nat} {line : String}
    (h : reader.nextLine limits = .ok (some (number, line), next)) :
    runLines env limits visit s reader =
      stepLine env limits visit s number line >>= fun s => runLines env limits visit s next := by
  rw [runLines]
  split
  · rename_i hnext
    rw [h] at hnext
    cases hnext
  · rename_i hnext
    rw [h] at hnext
    cases hnext
  · rename_i hnext
    rw [h] at hnext
    obtain ⟨hline, rfl⟩ := Prod.mk.inj (Except.ok.inj hnext)
    obtain ⟨rfl, rfl⟩ := Prod.mk.inj (Option.some.inj hline)
    rfl

theorem runLines_end (h : reader.nextLine limits = .ok (none, next)) :
    runLines env limits visit s reader = .ok (s, next) := by
  rw [runLines]
  split
  · rename_i hnext
    rw [h] at hnext
    cases hnext
  · rename_i hnext
    rw [h] at hnext
    obtain ⟨-, rfl⟩ := Prod.mk.inj (Except.ok.inj hnext)
    rfl
  · rename_i hnext
    rw [h] at hnext
    cases hnext

end Loop

end IptvRelay.Parsers
