import IptvRelay.Ingest.StagedRows

/-!
# Staged rows as a queue

A full memory moves to the spool file in the middle of a push. When that fails, or when a line is
written in part, the rows are not what was pushed any more; every other push keeps the queue.
-/

namespace IptvRelay.Ingest.Staging

open Transition

section

variable {T : Type} (format : RowFormat T)

/-! ## Lines -/

def line (row : T) : Bytes := format.toVec row ++ [newline]

def lines (rows : List T) : Bytes := rows.flatMap (line format)

theorem length_line (row : T) : (line format row).length = (format.toVec row).length + 1 := by
  rw [line, List.length_append]
  rfl

theorem lines_cons (row : T) (rows : List T) :
    lines format (row :: rows) = line format row ++ lines format rows := List.flatMap_cons

theorem lines_append (rows others : List T) :
    lines format (rows ++ others) = lines format rows ++ lines format others :=
  List.flatMap_append

theorem lines_singleton (row : T) : lines format [row] = line format row := by
  rw [lines_cons]
  exact List.append_nil _

theorem readLine_line {text : Bytes} (h : newline ∉ text) (rest : Bytes) :
    readLine (text ++ newline :: rest) = (text ++ [newline], rest) := by
  induction text with
  | nil => rw [List.nil_append, readLine, if_pos rfl, List.nil_append]
  | cons byte text ih =>
    obtain ⟨hbyte, htext⟩ := not_or.mp (mt List.mem_cons.mpr h)
    rw [List.cons_append, readLine, if_neg (Ne.symm hbyte), ih htext]
    rfl

/-- What is left without a newline. -/
theorem readLine_rest {text : Bytes} (h : newline ∉ text) : readLine text = (text, []) := by
  induction text with
  | nil => rfl
  | cons byte text ih =>
    obtain ⟨hbyte, htext⟩ := not_or.mp (mt List.mem_cons.mpr h)
    rw [readLine, if_neg (Ne.symm hbyte), ih htext]

theorem readLine_lines (row : T) (rest : Bytes) :
    readLine (line format row ++ rest) = (line format row, rest) := by
  rw [line, List.append_assoc]
  exact readLine_line (format.newline_not_written row) rest

theorem isEmpty_line (row : T) (rest : Bytes) : (line format row ++ rest).isEmpty = false := by
  rw [line, List.append_assoc]
  cases format.toVec row <;> rfl

/-- Lines in front of other bytes are read as their rows. -/
theorem readBatch_lines (rows : List T) (wanted : Nat) (tail : Bytes) :
    readBatch format (rows.length + wanted) (lines format rows ++ tail) =
      ((readBatch format wanted tail).1.map (rows ++ ·), (readBatch format wanted tail).2) := by
  induction rows with
  | nil =>
    rw [List.length_nil, Nat.zero_add]
    change readBatch format wanted tail = _
    rcases readBatch format wanted tail with ⟨_ | _, _⟩ <;> rfl
  | cons row rows ih =>
    have hcount : (row :: rows).length + wanted = rows.length + wanted + 1 := by
      rw [List.length_cons]
      omega
    rw [hcount, lines_cons, List.append_assoc, readBatch, isEmpty_line, readLine_lines,
      if_neg Bool.false_ne_true, line, format.round_trip]
    dsimp only
    rw [ih]
    rcases readBatch format wanted tail with ⟨_ | _, _⟩ <;> rfl

theorem readBatch_all (rows : List T) (wanted : Nat) :
    readBatch format wanted (lines format rows) =
      (.ok (rows.take wanted), lines format (rows.drop wanted)) := by
  by_cases hlong : wanted ≤ rows.length
  · have hread := readBatch_lines format (rows.take wanted) 0 (lines format (rows.drop wanted))
    rw [← lines_append, List.take_append_drop, List.length_take, min_eq_left hlong,
      Nat.add_zero] at hread
    rw [hread, readBatch]
    simp [Except.map]
  · have hshort := le_of_not_ge hlong
    obtain ⟨more, rfl⟩ := Nat.exists_eq_add_of_le hshort
    have hread := readBatch_lines format rows more []
    have hnone : readBatch format more [] = (.ok [], []) := by
      cases more <;> rfl
    rw [List.append_nil, hnone] at hread
    rw [hread, List.take_of_length_le hshort, List.drop_of_length_le hshort]
    simp [Except.map, lines]

/-! ## Complete reads -/

/-- A reader in front of these rows. -/
structure Holds (reader : StagedBatchReader T) (rows : List T) : Prop where
  contents : reader.memory = some rows ∨
    reader.memory = none ∧ reader.reader = some (lines format rows)

theorem next_holds {reader : StagedBatchReader T} {rows : List T} (h : Holds format reader rows) :
    (next format reader).1 = nonEmpty (rows.take reader.batchSize) ∧
      Holds format (next format reader).2 (rows.drop reader.batchSize) ∧
      (next format reader).2.batchSize = reader.batchSize := by
  obtain ⟨memory, unread, batchSize⟩ := reader
  rcases h.contents with hmemory | ⟨hmemory, hunread⟩
  · cases hmemory
    exact ⟨rfl, ⟨.inl rfl⟩, rfl⟩
  · cases hmemory
    cases hunread
    rw [next]
    dsimp only
    rw [readBatch_all]
    exact ⟨rfl, ⟨.inr ⟨rfl, rfl⟩⟩, rfl⟩

/-- The batches of a reader are its rows, `batchSize` at a time. -/
theorem reads_of_holds {rows : List T} {reader : StagedBatchReader T}
    (h : Holds format reader rows) (hsize : 0 < reader.batchSize) :
    ∃ read, Reads format reader read ∧ read.flatten = rows ∧
      ∀ batch ∈ read, batch ≠ [] ∧ batch.length ≤ reader.batchSize := by
  induction hn : rows.length using Nat.strong_induction_on generalizing rows reader with
  | _ n ih =>
    obtain ⟨hnext, hrest, hsame⟩ := next_holds format h
    cases rows with
    | nil =>
      refine ⟨[], .done ?_, rfl, by simp⟩
      rw [hnext, List.take_nil]
      rfl
    | cons row rows =>
      have hne : (row :: rows).take reader.batchSize ≠ [] := by
        intro hnil
        rcases List.take_eq_nil_iff.mp hnil with hzero | hnone
        · omega
        · cases hnone
      have hshorter : ((row :: rows).drop reader.batchSize).length < n := by
        rw [List.length_drop, hn]
        rw [List.length_cons] at hn
        omega
      obtain ⟨read, hread, hflat, hbatches⟩ := ih _ hshorter hrest (hsame ▸ hsize) rfl
      refine ⟨(row :: rows).take reader.batchSize :: read, .batch ?_ hread, ?_, ?_⟩
      · rw [hnext, nonEmpty, if_neg (mt List.isEmpty_iff.mp hne)]
      · rw [List.flatten_cons, hflat, List.take_append_drop]
      · rintro batch (_ | ⟨_, hbatch⟩)
        · exact ⟨hne, List.length_take_le _ _⟩
        · exact hsame ▸ hbatches batch hbatch

/-! ## Writes -/

/-- A file whose position is its end. -/
def atEnd (bytes : Bytes) : SpoolFile := ⟨bytes, bytes.length⟩

theorem write_atEnd (bytes data : Bytes) : (atEnd bytes).write data = atEnd (bytes ++ data) := by
  simp [SpoolFile.write, atEnd]

theorem writeJsonLine_atEnd (bytes : Bytes) (row : T) (written limit room : Nat) :
    writeJsonLine format (atEnd bytes) row written limit room =
      if limit < written + (line format row).length then
        (atEnd bytes, .error (.stagingTooLarge limit))
      else if (line format row).length ≤ room then
        (atEnd (bytes ++ line format row),
          .ok (written + (line format row).length, room - (line format row).length))
      else (atEnd (bytes ++ (line format row).take room), .error .artifactIo) := by
  rw [length_line, writeJsonLine]
  split_ifs with hlimit hroom
  · rfl
  · have hfirst : (format.toVec row).length ≤ room := by omega
    have hsecond : [newline].length ≤ room - (format.toVec row).length := by
      rw [List.length_singleton]
      omega
    rw [writeAll, if_pos hfirst, List.take_of_length_le hfirst, write_atEnd]
    dsimp only
    rw [writeAll, if_pos hsecond, List.take_of_length_le hsecond, write_atEnd, List.append_assoc]
    dsimp only
    rw [List.length_singleton, Nat.sub_sub]
    rfl
  · by_cases hfirst : (format.toVec row).length ≤ room
    · have hsame : room = (format.toVec row).length := by omega
      subst hsame
      rw [writeAll, if_pos hfirst, List.take_length, write_atEnd]
      dsimp only
      rw [writeAll, Nat.sub_self, if_neg (by simp), List.take_zero, write_atEnd, List.append_nil,
        line, List.take_left]
    · rw [writeAll, if_neg hfirst, write_atEnd, line,
        List.take_append_of_le_length (le_of_not_ge hfirst)]

/-- A drain that fits writes all rows. -/
theorem drain_ok {limit room written : Nat} {rows : List T} (bytes : Bytes)
    (hlimit : written + (lines format rows).length ≤ limit)
    (hroom : (lines format rows).length ≤ room) :
    drain format limit (atEnd bytes) written room rows =
      (atEnd (bytes ++ lines format rows), written + (lines format rows).length,
        .ok (room - (lines format rows).length)) := by
  induction rows generalizing bytes written room with
  | nil =>
    rw [drain]
    simp [lines]
  | cons row rows ih =>
    rw [lines_cons, List.length_append] at hlimit hroom ⊢
    rw [drain, writeJsonLine_atEnd, if_neg (by omega), if_pos (by omega)]
    dsimp only
    rw [ih _ (by omega) (by omega), List.append_assoc, Nat.add_assoc, Nat.sub_sub]

/-- A drain that does not fit fails. -/
theorem drain_error {limit room written : Nat} {rows : List T} (bytes : Bytes)
    (h : ¬(written + (lines format rows).length ≤ limit ∧ (lines format rows).length ≤ room))
    (hwritten : written ≤ limit) :
    ∃ error, (drain format limit (atEnd bytes) written room rows).2.2 = .error error := by
  induction rows generalizing bytes written room with
  | nil => exact absurd ⟨hwritten, Nat.zero_le _⟩ h
  | cons row rows ih =>
    rw [lines_cons, List.length_append] at h
    rw [drain, writeJsonLine_atEnd]
    by_cases hlimit : limit < written + (line format row).length
    · rw [if_pos hlimit]
      exact ⟨_, rfl⟩
    rw [if_neg hlimit]
    by_cases hroom : (line format row).length ≤ room
    · rw [if_pos hroom]
      exact ih _ (by omega) (by omega)
    · rw [if_neg hroom]
      exact ⟨_, rfl⟩

/-! ## One push -/

/-- The line is refused, written in full, or not begun. -/
def LineSafe (row : T) (written limit room : Nat) : Prop :=
  limit < written + (line format row).length ∨ (line format row).length ≤ room ∨ room = 0

/-- The rows in memory fit into the limit of the spool and onto the disk. -/
def DrainFits (rows : StagedRows T) (disk : Disk) : Prop :=
  rows.spoolBytes + (lines format rows.memory).length ≤ rows.maxSpoolBytes ∧
    (lines format rows.memory).length ≤ disk.room

/-- A push that keeps the queue. -/
structure PushSafe (rows : StagedRows T) (row : T) (disk : Disk) : Prop where
  spooled : rows.spool.isSome = true →
    LineSafe format row rows.spoolBytes rows.maxSpoolBytes disk.room
  drained : rows.spool = none →
    rows.memory.length < rows.maxInMemory ∨ disk.created = false ∨
      DrainFits format rows disk ∧
        LineSafe format row (rows.spoolBytes + (lines format rows.memory).length)
          rows.maxSpoolBytes (disk.room - (lines format rows.memory).length)

/-- The rows are all in memory or all in the file. -/
structure Stored (rows : StagedRows T) (pushed : List T) : Prop where
  len : rows.len = pushed.length
  bound : 0 < rows.maxInMemory
  contents : rows.spool = none ∧ rows.memory = pushed ∧ rows.spoolBytes = 0 ∨
    rows.spool = some (atEnd (lines format pushed))

/-- The rows after a push; one that returns an error must not change them. -/
def after (pushed : List T) (row : T) (result : Except StageError Unit) : List T :=
  if result.isOk then pushed ++ [row] else pushed

theorem Stored.faithful {rows : StagedRows T} {pushed : List T} (h : Stored format rows pushed) :
    Faithful format rows pushed := by
  refine ⟨h.len, fun n => ?_⟩
  have hpositive : 0 < max n 1 := lt_max_of_lt_right Nat.one_pos
  rcases h.contents with ⟨hspool, hmemory, -⟩ | hspool
  · rw [batches, hspool, hmemory]
    have hholds : Holds format ⟨some pushed, none, max n 1⟩ pushed := ⟨.inl rfl⟩
    exact reads_of_holds format hholds hpositive
  · rw [batches, hspool]
    have hholds : Holds format ⟨none, some (lines format pushed), max n 1⟩ pushed :=
      ⟨.inr ⟨rfl, rfl⟩⟩
    exact reads_of_holds format hholds hpositive

theorem appendRow_stored {rows : StagedRows T} {pushed : List T} {row : T} {room : Nat}
    (hlen : rows.len = pushed.length) (hbound : 0 < rows.maxInMemory)
    (hsafe : LineSafe format row rows.spoolBytes rows.maxSpoolBytes room) :
    Stored format (appendRow format rows (atEnd (lines format pushed)) row room).1
      (after pushed row (appendRow format rows (atEnd (lines format pushed)) row room).2) := by
  rw [appendRow, writeJsonLine_atEnd]
  split_ifs with hlimit hroom
  · exact ⟨hlen, hbound, .inr rfl⟩
  · refine ⟨?_, hbound, .inr ?_⟩
    · change rows.len + 1 = (pushed ++ [row]).length
      rw [hlen, List.length_append, List.length_singleton]
    · change some (atEnd _) = some (atEnd (lines format (pushed ++ [row])))
      rw [lines_append, lines_singleton]
  · have hzero : room = 0 := (hsafe.resolve_left hlimit).resolve_left hroom
    subst hzero
    refine ⟨hlen, hbound, .inr ?_⟩
    rw [List.take_zero, List.append_nil]
    rfl

/-- The state of a full memory that has moved to the file. -/
def spooled (rows : StagedRows T) : StagedRows T :=
  { rows with memory := [], spoolBytes := rows.spoolBytes + (lines format rows.memory).length }

theorem push_full {rows : StagedRows T} {disk : Disk} (row : T) (hspool : rows.spool = none)
    (hfull : ¬ rows.memory.length < rows.maxInMemory) (hcreated : ¬ disk.created = false)
    (hfits : DrainFits format rows disk) : push format rows row disk =
      appendRow format (spooled format rows) (atEnd (lines format rows.memory)) row
        (disk.room - (lines format rows.memory).length) := by
  have hdrain := drain_ok format [] hfits.1 hfits.2
  rw [List.nil_append] at hdrain
  obtain ⟨maxInMemory, maxSpoolBytes, spoolBytes, len, memory, spool⟩ := rows
  cases hspool
  rw [push]
  dsimp only
  rw [if_neg hfull, if_neg hcreated, show (⟨[], 0⟩ : SpoolFile) = atEnd [] from rfl, hdrain]
  rfl

/-- A safe push appends its row or leaves the queue alone. -/
theorem push_stored {rows : StagedRows T} {pushed : List T} {row : T} {disk : Disk}
    (h : Stored format rows pushed) (hsafe : PushSafe format rows row disk) :
    Stored format (push format rows row disk).1
      (after pushed row (push format rows row disk).2) := by
  rcases h.contents with ⟨hspool, hmemory, hbytes⟩ | hspool
  · by_cases hfree : rows.memory.length < rows.maxInMemory
    · rw [push, hspool]
      dsimp only
      rw [if_pos hfree]
      refine ⟨?_, h.bound, .inl ⟨rfl, ?_, hbytes⟩⟩
      · change rows.len + 1 = (pushed ++ [row]).length
        rw [h.len, List.length_append, List.length_singleton]
      · change rows.memory ++ [row] = pushed ++ [row]
        rw [hmemory]
    by_cases hcreated : disk.created = false
    · rw [push, hspool]
      dsimp only
      rw [if_neg hfree, if_pos hcreated]
      exact h
    obtain ⟨hfits, hline⟩ := ((hsafe.drained hspool).resolve_left hfree).resolve_left hcreated
    rw [push_full format row hspool hfree hcreated hfits, hmemory]
    have hlen : (spooled format rows).len = pushed.length := h.len
    rw [← hmemory] at hlen ⊢
    exact appendRow_stored format hlen h.bound hline
  · rw [push, hspool]
    exact appendRow_stored format h.len h.bound (hsafe.spooled (by rw [hspool]; rfl))

/-! ## Pushes that lose rows -/

/-- A line that was begun and not ended is not read, or read as some row. -/
theorem readBatch_open {part : Bytes} (hne : part ≠ []) (hopen : newline ∉ part) :
    (readBatch format 1 part).1 = .error .artifactIo ∨
      ∃ row, (readBatch format 1 part).1 = .ok [row] := by
  rw [readBatch, if_neg (mt List.isEmpty_iff.mp hne), readLine_rest hopen]
  dsimp only
  cases format.fromLine part with
  | none => exact .inl rfl
  | some row => exact .inr ⟨row, rfl⟩

theorem next_of_error {unread : Bytes} {size : Nat} {error : StageError}
    (h : (readBatch format size unread).1 = .error error) :
    (next format (⟨none, some unread, size⟩ : StagedBatchReader T)).1 = some (.error error) := by
  rw [next]
  dsimp only
  generalize readBatch format size unread = result at h ⊢
  obtain ⟨_ | _, _⟩ := result <;> cases h
  rfl

theorem next_of_ok {unread : Bytes} {size : Nat} {batch : List T}
    (h : (readBatch format size unread).1 = .ok batch) :
    (next format (⟨none, some unread, size⟩ : StagedBatchReader T)).1 = nonEmpty batch := by
  rw [next]
  dsimp only
  generalize readBatch format size unread = result at h ⊢
  obtain ⟨_ | _, _⟩ := result <;> cases h
  rfl

/-- Rows with a part of a line behind them are not a queue of these rows. -/
theorem not_faithful_of_open {rows : StagedRows T} {pushed : List T} {part : Bytes}
    (hspool : rows.spool = some (atEnd (lines format pushed ++ part))) (hne : part ≠ [])
    (hopen : newline ∉ part) : ¬ Faithful format rows pushed := by
  intro hfaithful
  obtain ⟨read, hread, hflat, -⟩ := hfaithful.delivers (pushed.length + 1)
  rw [batches, hspool] at hread
  dsimp only [atEnd] at hread
  rw [max_eq_left (Nat.le_add_left 1 _)] at hread
  have hbatch := congrArg Prod.fst (readBatch_lines format pushed 1 part)
  dsimp only at hbatch
  rcases readBatch_open format hne hopen with herror | ⟨row, hrow⟩
  · rw [herror] at hbatch
    have hfirst := next_of_error format hbatch
    cases hread with
    | done hend =>
      rw [hfirst] at hend
      cases hend
    | batch hbegin hrest =>
      rw [hfirst] at hbegin
      cases hbegin
  · rw [hrow] at hbatch
    have hfirst := next_of_ok format hbatch
    have hmore : nonEmpty (pushed ++ [row]) = some (.ok (pushed ++ [row])) := by
      rw [nonEmpty, if_neg]
      simp
    rw [hmore] at hfirst
    cases hread with
    | done hend =>
      rw [hfirst] at hend
      cases hend
    | batch hbegin hrest =>
      rw [hfirst] at hbegin
      cases hbegin
      have hlength := congrArg List.length hflat
      simp at hlength

/-- A line that is written in part is no row and stays in the file. -/
theorem appendRow_breaks {rows : StagedRows T} {pushed : List T} {row : T} {room : Nat}
    (h : ¬ LineSafe format row rows.spoolBytes rows.maxSpoolBytes room) :
    ¬ Faithful format (appendRow format rows (atEnd (lines format pushed)) row room).1
      (after pushed row (appendRow format rows (atEnd (lines format pushed)) row room).2) := by
  obtain ⟨hlimit, hrest⟩ := not_or.mp h
  obtain ⟨hroom, hsome⟩ := not_or.mp hrest
  rw [appendRow, writeJsonLine_atEnd, if_neg hlimit, if_neg hroom]
  have hpart : (line format row).take room = (format.toVec row).take room := by
    rw [length_line] at hroom
    rw [line, List.take_append_of_le_length (by omega)]
  have hspool : ({ rows with spool := some (atEnd (lines format pushed ++
      (line format row).take room)) } : StagedRows T).spool = some (atEnd (lines format pushed ++
      (line format row).take room)) := rfl
  refine not_faithful_of_open format hspool ?_ ?_
  · rw [ne_eq, List.take_eq_nil_iff, not_or]
    exact ⟨hsome, List.append_ne_nil_of_right_ne_nil _ (List.cons_ne_nil _ _)⟩
  · rw [hpart]
    exact fun hmem => format.newline_not_written row (List.mem_of_mem_take hmem)

/-- A full memory that cannot be written is emptied all the same. -/
theorem drain_breaks {rows : StagedRows T} {pushed : List T} {row : T} {disk : Disk}
    (h : Stored format rows pushed) (hspool : rows.spool = none)
    (hfull : ¬ rows.memory.length < rows.maxInMemory) (hcreated : ¬ disk.created = false)
    (hfits : ¬ DrainFits format rows disk) :
    ¬ Faithful format (push format rows row disk).1
      (after pushed row (push format rows row disk).2) := by
  obtain ⟨-, hmemory, hbytes⟩ := h.contents.resolve_right (by rw [hspool]; simp)
  have hrows : pushed ≠ [] := by
    rintro rfl
    rw [hmemory] at hfull
    exact hfull h.bound
  obtain ⟨error, hdrain⟩ := drain_error format [] hfits (by omega)
  have hpush : ∃ spoolBytes, push format rows row disk =
      ({ rows with memory := [], spoolBytes, spool := none }, .error error) := by
    obtain ⟨maxInMemory, maxSpoolBytes, spoolBytes, len, memory, spool⟩ := rows
    cases hspool
    rw [push]
    dsimp only
    rw [if_neg hfull, if_neg hcreated, show (⟨[], 0⟩ : SpoolFile) = atEnd [] from rfl]
    generalize drain format maxSpoolBytes (atEnd []) spoolBytes disk.room memory = result at hdrain
    obtain ⟨file, spoolBytes, outcome⟩ := result
    cases hdrain
    exact ⟨spoolBytes, rfl⟩
  obtain ⟨spoolBytes, hpush⟩ := hpush
  rw [hpush]
  intro hfaithful
  obtain ⟨read, hread, hflat, -⟩ := hfaithful.delivers 1
  cases hread with
  | done hend => exact hrows hflat.symm
  | batch hbegin hrest => cases hbegin

theorem push_breaks {rows : StagedRows T} {pushed : List T} {row : T} {disk : Disk}
    (h : Stored format rows pushed) (hrisk : ¬ PushSafe format rows row disk) :
    ¬ Faithful format (push format rows row disk).1
      (after pushed row (push format rows row disk).2) := by
  rcases h.contents with ⟨hspool, hmemory, -⟩ | hspool
  · have hsome : ¬ rows.spool.isSome = true := by simp [hspool]
    have hfull : ¬ rows.memory.length < rows.maxInMemory := fun hfree =>
      hrisk ⟨fun h => absurd h hsome, fun _ => .inl hfree⟩
    have hcreated : ¬ disk.created = false := fun hnone =>
      hrisk ⟨fun h => absurd h hsome, fun _ => .inr (.inl hnone)⟩
    by_cases hfits : DrainFits format rows disk
    · rw [push_full format row hspool hfull hcreated hfits, ← hmemory]
      apply appendRow_breaks
      exact fun hline => hrisk ⟨fun h => absurd h hsome, fun _ => .inr (.inr ⟨hfits, hline⟩)⟩
    · exact drain_breaks format h hspool hfull hcreated hfits
  · have hsome : ¬ rows.spool = none := by simp [hspool]
    rw [push, hspool]
    apply appendRow_breaks
    exact fun hline => hrisk ⟨fun _ => hline, fun h => absurd h hsome⟩

/-! ## Runs -/

/-- Staged rows with the rows of the pushes that returned `Ok`. -/
structure State (T : Type) where
  rows : StagedRows T
  pushed : List T

inductive Call (T : Type) where
  | push (row : T) (disk : Disk)
  /-- A read of all batches. -/
  | readToEnd

def call (state : State T) : Call T → State T
  | .push row disk =>
    let result := push format state.rows row disk
    ⟨result.1, after state.pushed row result.2⟩
  | .readToEnd => ⟨readToEnd state.rows, state.pushed⟩

/-- Calls on staged rows with these limits. -/
def machine (maxInMemory maxSpoolBytes : Nat) : Machine (State T) (Call T) where
  start := ⟨withSpoolLimit maxInMemory maxSpoolBytes, []⟩
  step state made := some (call format state made)

def Safe (state : State T) : Call T → Prop
  | .push row disk => PushSafe format state.rows row disk
  | .readToEnd => True

variable (maxInMemory maxSpoolBytes : Nat)

theorem stored_of_reachable {state : State T}
    (h : (machine format maxInMemory maxSpoolBytes).ReachableWhere (Safe format) state) :
    Stored format state.rows state.pushed := by
  apply h.invariant
  · exact ⟨rfl, lt_max_of_lt_right Nat.one_pos, .inl ⟨rfl, rfl, rfl⟩⟩
  · intro state made next hstored hsafe hstep
    cases hstep
    cases made with
    | push row disk => exact push_stored format hstored hsafe
    | readToEnd =>
      refine ⟨hstored.len, hstored.bound, ?_⟩
      rcases hstored.contents with ⟨hspool, hmemory, hbytes⟩ | hspool
      · refine .inl ⟨?_, hmemory, hbytes⟩
        change state.rows.spool.map _ = none
        rw [hspool]
        rfl
      · refine .inr ?_
        change state.rows.spool.map _ = _
        rw [hspool]
        rfl

/-- While every push is safe the rows are a faithful queue, and the first push that is not ends
that. -/
theorem staged_rows_faithful :
    (∀ state, (machine format maxInMemory maxSpoolBytes).ReachableWhere (Safe format) state →
      Faithful format state.rows state.pushed) ∧
    ∀ state made, (machine format maxInMemory maxSpoolBytes).ReachableWhere (Safe format) state →
      ¬ Safe format state made →
      ¬ Faithful format (call format state made).rows (call format state made).pushed := by
  refine ⟨fun state h => (stored_of_reachable format _ _ h).faithful, ?_⟩
  intro state made h hrisk
  cases made with
  | push row disk => exact push_breaks format (stored_of_reachable format _ _ h) hrisk
  | readToEnd => exact absurd trivial hrisk

end

/-- `true` and `false` as JSON. -/
def boolFormat : RowFormat Bool where
  toVec row := if row then [0x74, 0x72, 0x75, 0x65] else [0x66, 0x61, 0x6c, 0x73, 0x65]
  fromLine line :=
    if line = [0x74, 0x72, 0x75, 0x65, newline] then some true
    else if line = [0x66, 0x61, 0x6c, 0x73, 0x65, newline] then some false
    else none
  newline_not_written row := by cases row <;> decide
  round_trip row := by cases row <;> rfl

/-- The first push fills the memory. -/
def fullMemory : StagedRows Bool := (push boolFormat (withSpoolLimit 1 100) true ⟨true, 100⟩).1

/-- The second push moves it to the file. -/
theorem staged_rows_faithful_spooled :
    Faithful boolFormat (push boolFormat fullMemory false ⟨true, 100⟩).1 [true, false] := by
  have hfirst : Safe boolFormat ⟨withSpoolLimit 1 100, []⟩ (.push true ⟨true, 100⟩) :=
    ⟨fun h => absurd h (by decide), fun _ => .inl (by decide)⟩
  have hsecond : Safe boolFormat ⟨fullMemory, [true]⟩ (.push false ⟨true, 100⟩) :=
    ⟨fun h => absurd h (by decide), fun _ => .inr (.inr
      ⟨⟨by decide, by decide⟩, .inr (.inl (by decide))⟩)⟩
  exact (staged_rows_faithful boolFormat 1 100).1 _ (.step (.step .start hfirst rfl) hsecond rfl)

/-- One row in memory that is longer than the spool may get. -/
def oneRow : StagedRows Bool := (push boolFormat (withSpoolLimit 1 3) true ⟨true, 1000⟩).1

theorem limit_error_loses_rows :
    (push boolFormat oneRow false ⟨true, 1000⟩).2 = .error (.stagingTooLarge 3) ∧
      (push boolFormat oneRow false ⟨true, 1000⟩).1.len = 1 ∧
      (∀ n, (next boolFormat (batches (push boolFormat oneRow false ⟨true, 1000⟩).1 n)).1 = none) ∧
      ¬ ∀ (T : Type) (format : RowFormat T) (maxInMemory maxSpoolBytes : Nat) (state : State T),
        (machine format maxInMemory maxSpoolBytes).Reachable state →
          Faithful format state.rows state.pushed := by
  have hnone : ∀ n,
      (next boolFormat (batches (push boolFormat oneRow false ⟨true, 1000⟩).1 n)).1 = none := by
    intro n
    change nonEmpty (List.take (max n 1) ([] : List Bool)) = none
    rw [List.take_nil]
    rfl
  refine ⟨rfl, rfl, hnone, fun h => ?_⟩
  have hreach : (machine boolFormat 1 3).Reachable
      ⟨(push boolFormat oneRow false ⟨true, 1000⟩).1, [true]⟩ :=
    .step (a := .push false ⟨true, 1000⟩)
      (.step (a := .push true ⟨true, 1000⟩) .start trivial rfl) trivial rfl
  obtain ⟨read, hread, hflat, -⟩ := (h Bool boolFormat 1 3 _ hreach).delivers 1
  cases hread with
  | done hend => cases hflat
  | batch hbegin hrest =>
    rw [hnone] at hbegin
    cases hbegin

end IptvRelay.Ingest.Staging
