import IptvRelay.Lib.Machine
import Mathlib.Tactic

/-!
# Staged rows

Model of `StagedRows` in `ingest/src/model.rs`: rows that wait in memory up to a bound and in a
spool file behind it, one JSON line for each row. What the file system lets a push do is an input
of the push. Reads do not fail. The bound and the batch size are those that
`Vec::with_capacity` can allocate; it panics at larger ones.
-/

namespace IptvRelay.Ingest.Staging

open Transition

abbrev Bytes := List UInt8

def newline : UInt8 := 0x0a

/-- How rows are written as JSON and read from a line. -/
structure RowFormat (T : Type) where
  toVec : T → Bytes
  /-- `serde_json::from_str(line.trim_end())`. -/
  fromLine : Bytes → Option T
  newline_not_written : ∀ row, newline ∉ toVec row
  round_trip : ∀ row, fromLine (toVec row ++ [newline]) = some row

inductive StageError where
  | stagingTooLarge (limit : Nat)
  | artifactIo
  deriving DecidableEq, Repr

/-- An open file. -/
structure SpoolFile where
  bytes : Bytes
  position : Nat
  deriving DecidableEq, Repr

def SpoolFile.write (file : SpoolFile) (data : Bytes) : SpoolFile where
  bytes := file.bytes.take file.position ++ data ++ file.bytes.drop (file.position + data.length)
  position := file.position + data.length

/-- What the file system does during one push: `tempfile` succeeds, and `room` more bytes can be
written. -/
structure Disk where
  created : Bool
  room : Nat
  deriving DecidableEq, Repr

/-- `write_all`: the bytes that still fit are written, then it fails. -/
def writeAll (file : SpoolFile) (data : Bytes) (room : Nat) : SpoolFile × Option Nat :=
  (file.write (data.take room), if data.length ≤ room then some (room - data.length) else none)

structure StagedRows (T : Type) where
  maxInMemory : Nat
  maxSpoolBytes : Nat
  spoolBytes : Nat
  len : Nat
  memory : List T
  spool : Option SpoolFile
  deriving DecidableEq, Repr

structure StagedBatchReader (T : Type) where
  memory : Option (List T)
  /-- The bytes of the file that are not read yet. -/
  reader : Option Bytes
  batchSize : Nat
  deriving DecidableEq, Repr

section Model

variable {T : Type} (format : RowFormat T)

/-! ## Pushing -/

/-- The bytes in the file and the room behind the line. -/
def writeJsonLine (file : SpoolFile) (row : T) (written limit room : Nat) :
    SpoolFile × Except StageError (Nat × Nat) :=
  let encoded := format.toVec row
  let next := written + (encoded.length + 1)
  if limit < next then (file, .error (.stagingTooLarge limit))
  else
    match writeAll file encoded room with
    | (file, none) => (file, .error .artifactIo)
    | (file, some room) =>
      match writeAll file [newline] room with
      | (file, none) => (file, .error .artifactIo)
      | (file, some room) => (file, .ok (next, room))

/-- The loop over `memory.drain(..)`; the number is `spool_bytes`. -/
def drain (limit : Nat) : SpoolFile → Nat → Nat → List T → SpoolFile × Nat × Except StageError Nat
  | file, written, room, [] => (file, written, .ok room)
  | file, written, room, buffered :: rest =>
    match writeJsonLine format file buffered written limit room with
    | (file, .error error) => (file, written, .error error)
    | (file, .ok (next, room)) => drain limit file next room rest

def withSpoolLimit (maxInMemory maxSpoolBytes : Nat) : StagedRows T where
  maxInMemory := max maxInMemory 1
  maxSpoolBytes := maxSpoolBytes
  spoolBytes := 0
  len := 0
  memory := []
  spool := none

/-- The end of `push`: one more line in the spool. -/
def appendRow (rows : StagedRows T) (file : SpoolFile) (row : T) (room : Nat) :
    StagedRows T × Except StageError Unit :=
  match writeJsonLine format file row rows.spoolBytes rows.maxSpoolBytes room with
  | (file, .error error) => ({ rows with spool := some file }, .error error)
  | (file, .ok (next, _)) =>
    ({ rows with spool := some file, spoolBytes := next, len := rows.len + 1 }, .ok ())

def push (rows : StagedRows T) (row : T) (disk : Disk) : StagedRows T × Except StageError Unit :=
  match rows.spool with
  | some file => appendRow format rows file row disk.room
  | none =>
    if rows.memory.length < rows.maxInMemory then
      ({ rows with memory := rows.memory ++ [row], len := rows.len + 1 }, .ok ())
    else if disk.created = false then (rows, .error .artifactIo)
    else
      match drain format rows.maxSpoolBytes ⟨[], 0⟩ rows.spoolBytes disk.room rows.memory with
      -- `drain(..)` empties the memory, however the loop ends, and the file is dropped.
      | (_, spoolBytes, .error error) => ({ rows with memory := [], spoolBytes }, .error error)
      | (file, spoolBytes, .ok room) =>
        appendRow format { rows with memory := [], spoolBytes } file row room

/-! ## Reading -/

def batches (rows : StagedRows T) (batchSize : Nat) : StagedBatchReader T :=
  match rows.spool with
  | some file => ⟨none, some file.bytes, max batchSize 1⟩
  | none => ⟨some rows.memory, none, max batchSize 1⟩

/-- The end of a complete read: the clone of the file shares its position. -/
def readToEnd (rows : StagedRows T) : StagedRows T :=
  { rows with spool := rows.spool.map fun file => { file with position := file.bytes.length } }

/-- `read_line`: a line with its newline, or what is left. -/
def readLine : Bytes → Bytes × Bytes
  | [] => ([], [])
  | byte :: rest =>
    if byte = newline then ([byte], rest) else (byte :: (readLine rest).1, (readLine rest).2)

/-- The loop of `next` over the lines of the file. -/
def readBatch : Nat → Bytes → Except StageError (List T) × Bytes
  | 0, unread => (.ok [], unread)
  | wanted + 1, unread =>
    if unread.isEmpty then (.ok [], unread)
    else
      match format.fromLine (readLine unread).1 with
      | none => (.error .artifactIo, (readLine unread).2)
      | some row =>
        match readBatch wanted (readLine unread).2 with
        | (.error error, unread) => (.error error, unread)
        | (.ok batch, unread) => (.ok (row :: batch), unread)

/-- `(!batch.is_empty()).then_some(Ok(batch))`. -/
def nonEmpty (batch : List T) : Option (Except StageError (List T)) :=
  if batch.isEmpty then none else some (.ok batch)

def next (reader : StagedBatchReader T) :
    Option (Except StageError (List T)) × StagedBatchReader T :=
  match reader.memory, reader.reader with
  | some memory, _ =>
    (nonEmpty (memory.take reader.batchSize),
      { reader with memory := some (memory.drop reader.batchSize) })
  | none, none => (none, reader)
  | none, some unread =>
    match readBatch format reader.batchSize unread with
    | (.error error, unread) => (some (.error error), { reader with reader := some unread })
    | (.ok batch, unread) => (nonEmpty batch, { reader with reader := some unread })

/-- The iterator gives these batches and then ends. -/
inductive Reads : StagedBatchReader T → List (List T) → Prop
  | done {reader : StagedBatchReader T} : (next format reader).1 = none → Reads reader []
  | batch {reader : StagedBatchReader T} {batch : List T} {rest : List (List T)} :
      (next format reader).1 = some (.ok batch) → Reads (next format reader).2 rest →
      Reads reader (batch :: rest)

/-- A faithful queue of these rows. -/
structure Faithful (rows : StagedRows T) (pushed : List T) : Prop where
  len : rows.len = pushed.length
  delivers : ∀ n, ∃ read, Reads format (batches rows n) read ∧ read.flatten = pushed ∧
    ∀ batch ∈ read, batch ≠ [] ∧ batch.length ≤ max n 1

end Model

end IptvRelay.Ingest.Staging
