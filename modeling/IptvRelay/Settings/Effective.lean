import IptvRelay.Lib.Checked
import IptvRelay.Settings.Transactions
import Mathlib.Data.Prod.Lex
import Std.Data.TreeMap.Lemmas

/-!
# Effective settings

Model of `domain/src/config.rs`, of `OperatorSettingOverrides` in `persistence/src/catalog.rs` and
of the handlers of the overrides in `api/src/lib.rs`, for requests that are authorized and decoded.
Of a definition, the texts for the operator, the unit, the risk and what it takes to apply a change
are left out.
-/

namespace IptvRelay.Settings

open Transition

/-! ## Values -/

/-- `serde_json::Value`. An integer is one from `-2 ^ 63` to `2 ^ 64 - 1`, and an array or an object
is its text. -/
inductive Value where
  | null
  | boolean (value : Bool)
  | integer (value : Int)
  | float (text : String)
  | string (text : String)
  | compound (text : String)
  deriving DecidableEq, Repr

namespace Value

def isBoolean : Value → Bool
  | boolean _ => true
  | _ => false

def isString : Value → Bool
  | string _ => true
  | _ => false

def asI64 : Value → Option Int
  | integer value => if value < 2 ^ 63 then some value else none
  | _ => none

def asStr : Value → Option String
  | string text => some text
  | _ => none

end Value

/-! ## Definitions -/

inductive SettingValueKind where
  | boolean
  | integer
  | string
  | choice
  deriving DecidableEq, Repr

structure SettingDefinition where
  key : String
  valueKind : SettingValueKind
  defaultValue : Value
  minimum : Option Int
  maximum : Option Int
  choices : List String
  providerOverridable : Bool
  groupOverridable : Bool
  deriving DecidableEq, Repr

inductive SettingValidationError where
  | unknownSetting (key : String)
  | wrongType (key expected : String)
  | outOfRange (key : String) (minimum maximum : Int)
  | invalidChoice (key : String) (choices : List String)
  | providerOverrideForbidden (key : String)
  | groupOverrideForbidden (key : String)
  deriving DecidableEq, Repr

namespace SettingDefinition

def wrongType (self : SettingDefinition) (expected : String) : SettingValidationError :=
  .wrongType self.key expected

def validate (self : SettingDefinition) (value : Value) : Except SettingValidationError Unit :=
  match self.valueKind with
  | .boolean => if value.isBoolean then .ok () else .error (self.wrongType "a boolean")
  | .integer =>
    match value.asI64 with
    | none => .error (self.wrongType "an integer")
    | some value =>
      let minimum := self.minimum.getD (-(2 ^ 63))
      let maximum := self.maximum.getD (2 ^ 63 - 1)
      if minimum ≤ value ∧ value ≤ maximum then .ok ()
      else .error (.outOfRange self.key minimum maximum)
  | .string => if value.isString then .ok () else .error (self.wrongType "a string")
  | .choice =>
    match value.asStr with
    | none => .error (self.wrongType "a string choice")
    | some value =>
      if value ∈ self.choices then .ok () else .error (.invalidChoice self.key self.choices)

end SettingDefinition

def integerSetting (key : String) (defaultValue minimum maximum : Int)
    (providerOverridable groupOverridable : Bool) : SettingDefinition where
  key := key
  valueKind := .integer
  defaultValue := .integer defaultValue
  minimum := some minimum
  maximum := some maximum
  choices := []
  providerOverridable := providerOverridable
  groupOverridable := groupOverridable

def choiceSetting (key defaultValue : String) (choices : List String)
    (providerOverridable groupOverridable : Bool) : SettingDefinition where
  key := key
  valueKind := .choice
  defaultValue := .string defaultValue
  minimum := none
  maximum := none
  choices := choices
  providerOverridable := providerOverridable
  groupOverridable := groupOverridable

def stringSetting (key defaultValue : String) (providerOverridable groupOverridable : Bool) :
    SettingDefinition where
  key := key
  valueKind := .string
  defaultValue := .string defaultValue
  minimum := none
  maximum := none
  choices := []
  providerOverridable := providerOverridable
  groupOverridable := groupOverridable

def settingCatalog : List SettingDefinition := [
  integerSetting "ingest.max_download_bytes" 2147483648 1048576 8589934592 true false,
  integerSetting "ingest.max_m3u_line_bytes" 1048576 4096 16777216 true false,
  integerSetting "media.ring.duration_seconds" 8 1 120 true false,
  integerSetting "media.ring.max_bytes" 67108864 1048576 1073741824 true false,
  integerSetting "media.viewer.start_delay_seconds" 30 0 30 true false,
  integerSetting "media.recovery.window_seconds" 10 0 60 true false,
  choiceSetting "media.adapter" "auto" ["auto", "native-ts", "ffmpeg", "vlc"] true false,
  integerSetting "events.inferred_duration_seconds" 10800 300 86400 true true,
  stringSetting "events.filler_title" "No programs available" true true]

/-- The definition of a key. -/
def findDefinition (key : String) : Option SettingDefinition :=
  settingCatalog.find? fun definition => definition.key = key

/-! ## Inheritance -/

inductive InheritanceSource where
  | systemDefault
  | global
  | provider (id : String)
  | channelGroup (id : String)
  deriving DecidableEq, Repr

structure EffectiveSetting where
  definition : SettingDefinition
  value : Value
  inheritedFrom : InheritanceSource
  deriving DecidableEq, Repr

/-- `BTreeMap<String, Value>`. -/
abbrev Overrides := Std.TreeMap String Value

structure SettingOverrides where
  global : Overrides := {}
  provider : Overrides := {}
  group : Overrides := {}

/-- The value of one setting. -/
def resolveSetting (overrides : SettingOverrides) (providerId groupId : String)
    (definition : SettingDefinition) : Except SettingValidationError EffectiveSetting := do
  let (value, inheritedFrom) ←
    match overrides.group[definition.key]? with
    | some value =>
      if definition.groupOverridable then .ok (value, .channelGroup groupId)
      else .error (.groupOverrideForbidden definition.key)
    | none =>
      match overrides.provider[definition.key]? with
      | some value =>
        if definition.providerOverridable then .ok (value, .provider providerId)
        else .error (.providerOverrideForbidden definition.key)
      | none =>
        match overrides.global[definition.key]? with
        | some value => .ok (value, .global)
        | none => .ok (definition.defaultValue, .systemDefault)
  definition.validate value
  return { definition, value, inheritedFrom }

def resolveSettings (overrides : SettingOverrides) (providerId groupId : String) :
    Except SettingValidationError (List EffectiveSetting) :=
  let keys := overrides.global.keys ++ overrides.provider.keys ++ overrides.group.keys
  match keys.find? fun key => (findDefinition key).isNone with
  | some key => .error (.unknownSetting key)
  | none => settingCatalog.mapM (resolveSetting overrides providerId groupId)

/-! ## Stored overrides -/

structure OperatorSettingOverrides where
  global : Overrides := {}
  providers : Std.TreeMap String Overrides := {}
  groups : Std.TreeMap String Overrides := {}

namespace OperatorSettingOverrides

/-- Insert into the map of an identifier. -/
def insertInto (maps : Std.TreeMap String Overrides) (row : OverrideRow Value) :
    Std.TreeMap String Overrides :=
  maps.insert row.scope.scopeId ((maps.getD row.scope.scopeId {}).insert row.key row.value)

def set (self : OperatorSettingOverrides) (row : OverrideRow Value) : OperatorSettingOverrides :=
  if row.scope.scope = "global" then { self with global := self.global.insert row.key row.value }
  else if row.scope.scope = "provider" then { self with providers := insertInto self.providers row }
  else if row.scope.scope = "group" then { self with groups := insertInto self.groups row }
  else self

def toDomain (self : OperatorSettingOverrides) (providerId groupId : String) :
    SettingOverrides where
  global := self.global
  provider := self.providers.getD providerId {}
  group := self.groups.getD groupId {}

end OperatorSettingOverrides

section Loads

variable {ρ : Type}

/-- The order of `load_operator_setting_overrides`. -/
def OverrideRow.sortKey (row : OverrideRow Value) : String ×ₗ String ×ₗ String :=
  toLex (row.scope.scope, toLex (row.scope.scopeId, row.key))

def loadOperatorSettingOverrides (db : Database ρ Value) : OperatorSettingOverrides :=
  (Sorting.sortBy OverrideRow.sortKey db.overrides).foldl OperatorSettingOverrides.set {}

def effectiveSettings (db : Database ρ Value) (providerId groupId : String) :
    Except SettingValidationError (List EffectiveSetting) :=
  resolveSettings ((loadOperatorSettingOverrides db).toDomain providerId groupId) providerId groupId

end Loads

/-! ## Handlers -/

inductive OperatorSettingScope where
  | global
  | provider
  | group
  deriving DecidableEq, Repr

def OperatorSettingScope.asStr : OperatorSettingScope → String
  | .global => "global"
  | .provider => "provider"
  | .group => "group"

/-- The routes below `/api/v1/settings/overrides`. -/
inductive ScopeRoute where
  | global
  | provider (providerId : String)
  | group (groupId : String)
  deriving DecidableEq, Repr

namespace ScopeRoute

def kind : ScopeRoute → OperatorSettingScope
  | global => .global
  | provider _ => .provider
  | group _ => .group

def scopeId : ScopeRoute → String
  | global => ""
  | provider providerId => providerId
  | group groupId => groupId

def scope (route : ScopeRoute) : Scope := ⟨route.kind.asStr, route.scopeId⟩

end ScopeRoute

def validateOverride (scope : OperatorSettingScope) (key : String) (value : Value) :
    Except SettingValidationError Unit :=
  match findDefinition key with
  | none => .error (.unknownSetting key)
  | some definition =>
    if scope = .provider ∧ !definition.providerOverridable then
      .error (.providerOverrideForbidden key)
    else if scope = .group ∧ !definition.groupOverridable then .error (.groupOverrideForbidden key)
    else definition.validate value

def validateScopeOverrides (scope : OperatorSettingScope) (overrides : Values Value) :
    Except SettingValidationError Unit :=
  overrides.entries.forM fun entry => validateOverride scope entry.1 entry.2

/-- Requests to the handlers, and the statements and failures of the calls that they have begun. -/
inductive Request where
  | getOperatorScope (route : ScopeRoute)
  | replaceOperatorScope (route : ScopeRoute) (overrides : Values Value)
      (expectedRevision : Option Int)
  | rollbackOperatorScope (route : ScopeRoute) (revision : Int)
  | advance (i : Nat)
  | fail (i : Nat)

section Machine

variable {ρ : Type} [DecidableEq ρ] (resourceId : Scope → ρ)

/-- Overrides that are not valid are refused before a transaction begins. -/
def Service.serve (s : Service ρ Value) : Request → Option (Service ρ Value)
  | .getOperatorScope route => s.step resourceId (.load route.scope)
  | .replaceOperatorScope route overrides expectedRevision =>
    match validateScopeOverrides route.kind overrides with
    | .error _ => some s
    | .ok () => s.step resourceId (.replace route.scope overrides expectedRevision "operator")
  | .rollbackOperatorScope route revision =>
    s.step resourceId (.rollback route.scope revision "operator")
  | .advance i => s.step resourceId (.advance i)
  | .fail i => s.step resourceId (.fail i)

def operatorMachine (ρ : Type) [DecidableEq ρ] (resourceId : Scope → ρ) :
    Machine (Service ρ Value) Request where
  start := {}
  step := Service.serve resourceId

end Machine

end IptvRelay.Settings
