import IptvRelay.Lib.Machine
import IptvRelay.Lib.Sorting
import Mathlib.Algebra.Order.Group.Int
import Mathlib.Data.String.Basic

/-!
# Operator settings under concurrent transactions

Model of `load_operator_setting_scope`, `replace_operator_setting_scope` and
`rollback_operator_setting_scope` in `persistence/src/catalog.rs`. Calls run concurrently,
one statement at a time, at read-committed isolation: a statement sees the committed rows,
and what a transaction writes is invisible to the others until it commits. An insert whose
unique key another open transaction has inserted waits for that transaction, and so does a
delete of rows that another open transaction has deleted. Of the table `revisions`, only
the rows of type `operator-settings` are modelled.
-/

namespace IptvRelay.Settings

open Transition

/-- `(scope, scope_id)`. -/
structure Scope where
  scope : String
  scopeId : String
  deriving DecidableEq, Repr

/-- A `BTreeMap<String, Value>`: its entries in the order of their keys. -/
structure Values (υ : Type) where
  entries : List (String × υ)
  sorted : entries.Pairwise fun a b => a.1 < b.1

structure RevisionRow (ρ υ : Type) where
  resourceId : ρ
  revision : Int
  actor : String
  beforeValue : Int × List (String × υ)
  afterValue : Values υ

structure OverrideRow (υ : Type) where
  scope : Scope
  key : String
  value : υ
  revision : Int
  updatedBy : String
  deriving DecidableEq

/-- The committed rows. -/
structure Database (ρ υ : Type) where
  revisions : List (RevisionRow ρ υ) := []
  overrides : List (OverrideRow υ) := []

/-- `OperatorSettingScopeState`. -/
structure ScopeState (υ : Type) where
  values : List (String × υ)
  revision : Int

inductive SettingError where
  | settingRevisionConflict (expected actual : Int)
  | settingRevisionNotFound (scope : Scope) (target : Int)
  | database
  deriving DecidableEq, Repr

/-- What a transaction is to write; a rollback expects no revision. -/
structure Write (υ : Type) where
  scope : Scope
  values : Values υ
  expectedRevision : Option Int
  actor : String

/-- A call between two of its statements. From the insert of its revision to the commit, a
transaction has uncommitted rows: that revision, then the overrides it has deleted and
inserted. -/
inductive Call (υ : Type) where
  | load (scope : Scope)
  | loadValues (scope : Scope) (revision : Int)
  | replace (write : Write υ)
  | rollback (scope : Scope) (targetRevision : Int) (actor : String)
  | restore (write : Write υ)
  | snapshot (write : Write υ) (current : Int)
  | insertRevision (write : Write υ) (current : Int) (before : Int × List (String × υ))
  | deleteOverrides (write : Write υ) (current : Int) (before : Int × List (String × υ))
  | insertOverrides (write : Write υ) (current : Int) (before : Int × List (String × υ))
      (deleted inserted : List (OverrideRow υ)) (rest : List (String × υ))
  | returned (state : ScopeState υ)
  | failed (error : SettingError)

/-- The reads of loads and the commits of writes, in order. -/
inductive Event (υ : Type) where
  | loaded (scope : Scope) (state : ScopeState υ)
  | committed (write : Write υ) (revision : Int)

structure Service (ρ υ : Type) where
  db : Database ρ υ := {}
  calls : List (Call υ) := []
  log : List (Event υ) := []

section Statements

variable {ρ υ : Type} [DecidableEq ρ] (resourceId : Scope → ρ)

/-- The revisions of a scope. -/
def Database.history (db : Database ρ υ) (scope : Scope) : List (RevisionRow ρ υ) :=
  db.revisions.filter fun row => row.resourceId = resourceId scope

/-- `SELECT COALESCE(MAX(revision), 0)`. -/
def Database.currentRevision (db : Database ρ υ) (scope : Scope) : Int :=
  (((db.history resourceId scope).map RevisionRow.revision).max?).getD 0

omit [DecidableEq ρ] in
/-- The overrides of a scope. -/
def Database.scopeRows (db : Database ρ υ) (scope : Scope) : List (OverrideRow υ) :=
  db.overrides.filter fun row => row.scope = scope

omit [DecidableEq ρ] in
/-- `SELECT key, value … ORDER BY key`. -/
def Database.scopeValues (db : Database ρ υ) (scope : Scope) : List (String × υ) :=
  (Sorting.sortBy OverrideRow.key (db.scopeRows scope)).map fun row => (row.key, row.value)

omit [DecidableEq ρ] in
/-- The unique key of the uncommitted revision of a call. -/
def Call.heldRevision : Call υ → Option (ρ × Int)
  | .deleteOverrides write current _ | .insertOverrides write current _ _ _ _ =>
    some (resourceId write.scope, current + 1)
  | _ => none

/-- The overrides that a call has deleted and not committed. -/
def Call.deletedRows : Call υ → List (OverrideRow υ)
  | .insertOverrides _ _ _ deleted _ _ => deleted
  | _ => []

/-- The overrides that a call has inserted and not committed. -/
def Call.insertedRows : Call υ → List (OverrideRow υ)
  | .insertOverrides _ _ _ _ inserted _ => inserted
  | _ => []

/-- The primary key of `operator_setting_overrides`. -/
def OverrideRow.primaryKey (row : OverrideRow υ) : Scope × String := (row.scope, row.key)

/-- Some other call meets the condition. -/
def otherCall (calls : List (Call υ)) (i : Nat) (p : Call υ → Bool) : Bool :=
  (calls.eraseIdx i).any p

variable [DecidableEq υ]

/-- The commit of a transaction. -/
def Database.commit (db : Database ρ υ) (write : Write υ) (current : Int)
    (before : Int × List (String × υ)) (deleted inserted : List (OverrideRow υ)) :
    Database ρ υ where
  revisions := db.revisions ++ [{
    resourceId := resourceId write.scope
    revision := current + 1
    actor := write.actor
    beforeValue := before
    afterValue := write.values }]
  overrides := db.overrides.filter (fun row => row ∉ deleted) ++ inserted

/-- The next statement of a call: the call behind it, the committed rows, and what is logged.
`none` means that the statement waits, or that the call is over. -/
def nextStatement (db : Database ρ υ) (calls : List (Call υ)) (i : Nat) :
    Call υ → Option (Call υ × Database ρ υ × List (Event υ))
  | .load scope => some (.loadValues scope (db.currentRevision resourceId scope), db, [])
  | .loadValues scope revision =>
    let state := { values := db.scopeValues scope, revision }
    some (.returned state, db, [.loaded scope state])
  | .replace write =>
    let current := db.currentRevision resourceId write.scope
    match write.expectedRevision with
    | some expected =>
      if expected ≠ current then some (.failed (.settingRevisionConflict expected current), db, [])
      else some (.snapshot write current, db, [])
    | none => some (.snapshot write current, db, [])
  | .rollback scope targetRevision actor =>
    match (db.history resourceId scope).find? fun row => row.revision = targetRevision with
    | none => some (.failed (.settingRevisionNotFound scope targetRevision), db, [])
    | some row =>
      some (.restore { scope, values := row.afterValue, expectedRevision := none, actor }, db, [])
  | .restore write =>
    some (.snapshot write (db.currentRevision resourceId write.scope), db, [])
  | .snapshot write current =>
    some (.insertRevision write current (current, db.scopeValues write.scope), db, [])
  | .insertRevision write current before =>
    if (db.history resourceId write.scope).any fun row => row.revision = current + 1 then
      some (.failed .database, db, [])
    else if otherCall calls i fun call =>
        call.heldRevision resourceId = some (resourceId write.scope, current + 1) then none
    else some (.deleteOverrides write current before, db, [])
  | .deleteOverrides write current before =>
    let rows := db.scopeRows write.scope
    if otherCall calls i fun call => call.deletedRows.any fun row => row ∈ rows then none
    else some (.insertOverrides write current before rows [] write.values.entries, db, [])
  | .insertOverrides write current before deleted inserted ((key, value) :: rest) =>
    let row := { scope := write.scope, key, value, revision := current + 1, updatedBy := write.actor }
    if (db.overrides.filter (fun old => old ∉ deleted) ++ inserted).any fun old =>
        old.primaryKey = row.primaryKey then
      some (.failed .database, db, [])
    else if otherCall calls i fun call =>
        call.insertedRows.any fun old => old.primaryKey = row.primaryKey then none
    else some (.insertOverrides write current before deleted (inserted ++ [row]) rest, db, [])
  | .insertOverrides write current before deleted inserted [] =>
    some (.returned { values := write.values.entries, revision := current + 1 },
      db.commit resourceId write current before deleted inserted,
      [.committed write (current + 1)])
  | .returned _ | .failed _ => none

end Statements

inductive Op (υ : Type) where
  | load (scope : Scope)
  | replace (scope : Scope) (values : Values υ) (expectedRevision : Option Int) (actor : String)
  | rollback (scope : Scope) (targetRevision : Int) (actor : String)
  | advance (i : Nat)
  | fail (i : Nat)

/-- The call that an operation begins. -/
def Op.call {υ : Type} : Op υ → Option (Call υ)
  | .load scope => some (.load scope)
  | .replace scope values expectedRevision actor =>
    some (.replace { scope, values, expectedRevision, actor })
  | .rollback scope targetRevision actor => some (.rollback scope targetRevision actor)
  | .advance _ | .fail _ => none

section Machine

variable {ρ υ : Type} [DecidableEq ρ] [DecidableEq υ] (resourceId : Scope → ρ)

/-- Calls begin, run their next statement, or fail at any point. A failure before the commit rolls
the transaction back; one behind it loses the answer. -/
def Service.step (s : Service ρ υ) : Op υ → Option (Service ρ υ)
  | .advance i => do
    let call ← s.calls[i]?
    let (next, db, events) ← nextStatement resourceId s.db s.calls i call
    return { db, calls := s.calls.set i next, log := s.log ++ events }
  | .fail i => some { s with calls := s.calls.set i (.failed .database) }
  | op => op.call.map fun call => { s with calls := s.calls ++ [call] }

/-- From empty tables. -/
def settingsMachine (ρ υ : Type) [DecidableEq ρ] [DecidableEq υ] (resourceId : Scope → ρ) :
    Machine (Service ρ υ) (Op υ) where
  start := {}
  step := Service.step resourceId

end Machine

end IptvRelay.Settings
