import IptvRelay.Lib.Table
import IptvRelay.Lib.Text

/-!
# Diagnostics and limits

Model of `parsers/src/diagnostics.rs`, and of the attribute maps that both parsers fill.
-/

namespace IptvRelay.Parsers

inductive Severity where
  | warning
  | error
  deriving DecidableEq, Repr

inductive DiagnosticCode where
  | missingHeader
  | orphanMetadata
  | orphanUrl
  | replacedPendingEntry
  | invalidAttribute
  | invalidDuration
  | invalidUrl
  | invalidXmltvRecord
  | unknownXmlElement
  | undeclaredChannel
  | duplicateIdentity
  deriving DecidableEq, Repr

structure Diagnostic where
  severity : Severity
  code : DiagnosticCode
  line : Option Nat
  byteOffset : Option Nat
  message : String
  deriving DecidableEq, Repr

structure ParseStats where
  bytesRead : Nat := 0
  linesRead : Nat := 0
  recordsSeen : Nat := 0
  recordsEmitted : Nat := 0
  recordsSkipped : Nat := 0
  unknownMetadata : Nat := 0
  warnings : Nat := 0
  errors : Nat := 0
  deriving DecidableEq, Repr

def ParseStats.observe (stats : ParseStats) (diagnostic : Diagnostic) : ParseStats :=
  match diagnostic.severity with
  | .warning => { stats with warnings := stats.warnings + 1 }
  | .error => { stats with errors := stats.errors + 1 }

structure ParseLimits where
  maxInputBytes : Nat
  maxLineBytes : Nat
  maxRecords : Nat
  maxTextBytes : Nat
  maxXmlDepth : Nat
  deriving DecidableEq, Repr

inductive ParseError where
  | io (message : String)
  | inputTooLarge (limit : Nat)
  | lineTooLong (line limit : Nat)
  | tooManyRecords (limit : Nat)
  | textTooLarge (limit : Nat)
  | xmlTooDeep (limit : Nat)
  | invalidUtf8 (line : Nat)
  | malformedXmltv (offset : Nat) (message : String)
  | xmlDoctypeForbidden
  deriving DecidableEq, Repr

def recordLimitReached (seen maximum : Nat) : Bool := maximum ≤ seen

/-- `BTreeMap<String, String>`. -/
abbrev Attributes := List (String × String)

namespace Attributes

def get (attributes : Attributes) (key : String) : Option String :=
  (attributes.find? fun entry => entry.1 = key).map Prod.snd

def insert (attributes : Attributes) (key value : String) : Attributes :=
  Table.upsert Prod.fst attributes (key, value)

end Attributes

/-- `str::trim`. -/
def trimmed (text : String) : String := String.ofList (Text.trim text.toList)

end IptvRelay.Parsers
