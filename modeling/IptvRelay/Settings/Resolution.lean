import IptvRelay.Lib.Table
import IptvRelay.Settings.Effective
import IptvRelay.Settings.LostUpdates

/-!
# Stored overrides always resolve

Every write that can commit has passed the checks of its scope, also a restored one, since a
revision of a scope has been checked for that scope. So the effective settings are the last
committed writes of the three scopes, layered over the defaults.
-/

namespace IptvRelay.Settings

open Transition

/-! ## Layers -/

/-- The values that are read for a route. -/
abbrev Layers := ScopeRoute → String → Option Value

/-- The value of the most specific layer that has one. -/
def chosen (layers : Layers) (providerId groupId : String) (definition : SettingDefinition) :
    Value × InheritanceSource :=
  ([(.group groupId, .channelGroup groupId), (.provider providerId, .provider providerId),
      (.global, .global)].findSome? fun layer : ScopeRoute × InheritanceSource =>
    (layers layer.1 definition.key).map fun value => (value, layer.2)).getD
    (definition.defaultValue, .systemDefault)

def SettingOverrides.layers (overrides : SettingOverrides) : Layers
  | .global, key => overrides.global[key]?
  | .provider _, key => overrides.provider[key]?
  | .group _, key => overrides.group[key]?

/-- Every value has passed the checks of its layer. -/
def Layers.Valid (layers : Layers) : Prop :=
  ∀ route key value, layers route key = some value → validateOverride route.kind key value = .ok ()

theorem findDefinition_of_mem {definition : SettingDefinition} (h : definition ∈ settingCatalog) :
    findDefinition definition.key = some definition := by
  have hall : ∀ definition ∈ settingCatalog,
      findDefinition definition.key = some definition := by decide
  exact hall definition h

theorem validate_default {definition : SettingDefinition} (h : definition ∈ settingCatalog) :
    definition.validate definition.defaultValue = .ok () := by
  have hall : ∀ definition ∈ settingCatalog,
      definition.validate definition.defaultValue = .ok () := by decide
  exact hall definition h

/-- What the check of an override has looked at. -/
theorem validateOverride_ok {scope : OperatorSettingScope} {key : String} {value : Value}
    (h : validateOverride scope key value = .ok ()) : ∃ definition,
      findDefinition key = some definition ∧ definition.validate value = .ok () ∧
      (scope = .provider → definition.providerOverridable = true) ∧
      (scope = .group → definition.groupOverridable = true) := by
  unfold validateOverride at h
  split at h
  · cases h
  · rename_i definition hfound
    split at h
    · cases h
    · rename_i hprovider
      split at h
      · cases h
      · rename_i hgroup
        exact ⟨definition, hfound, h, by grind, by grind⟩

theorem Layers.Valid.definition {layers : Layers} (h : layers.Valid)
    {definition : SettingDefinition} (hdefinition : definition ∈ settingCatalog)
    {route : ScopeRoute} {value : Value} (hvalue : layers route definition.key = some value) :
    definition.validate value = .ok () ∧
      (route.kind = .provider → definition.providerOverridable = true) ∧
      (route.kind = .group → definition.groupOverridable = true) := by
  obtain ⟨found, hfound, hvalid, hkinds⟩ := validateOverride_ok (h route _ value hvalue)
  rw [findDefinition_of_mem hdefinition] at hfound
  obtain rfl := Option.some.inj hfound
  exact ⟨hvalid, hkinds⟩

/-- The first layer that has a value is the one that is taken. -/
theorem chosen_cases (layers : Layers) (providerId groupId : String)
    (definition : SettingDefinition) :
    (∃ value, layers (.group groupId) definition.key = some value ∧
      chosen layers providerId groupId definition = (value, .channelGroup groupId)) ∨
    (layers (.group groupId) definition.key = none ∧
      ∃ value, layers (.provider providerId) definition.key = some value ∧
        chosen layers providerId groupId definition = (value, .provider providerId)) ∨
    (layers (.group groupId) definition.key = none ∧
      layers (.provider providerId) definition.key = none ∧
      ∃ value, layers .global definition.key = some value ∧
        chosen layers providerId groupId definition = (value, .global)) ∨
    (layers (.group groupId) definition.key = none ∧
      layers (.provider providerId) definition.key = none ∧
      layers .global definition.key = none ∧
      chosen layers providerId groupId definition = (definition.defaultValue, .systemDefault)) := by
  unfold chosen
  cases hgroup : layers (.group groupId) definition.key with
  | some value => simp [hgroup]
  | none =>
    cases hprovider : layers (.provider providerId) definition.key with
    | some value => simp [hgroup, hprovider]
    | none =>
      cases hglobal : layers .global definition.key with
      | some value => simp [hgroup, hprovider, hglobal]
      | none => simp [hgroup, hprovider, hglobal]

theorem validate_chosen {layers : Layers} (h : layers.Valid) (providerId groupId : String)
    {definition : SettingDefinition} (hdefinition : definition ∈ settingCatalog) :
    definition.validate (chosen layers providerId groupId definition).1 = .ok () := by
  rcases chosen_cases layers providerId groupId definition with ⟨value, hvalue, heq⟩ |
    ⟨-, value, hvalue, heq⟩ | ⟨-, -, value, hvalue, heq⟩ | ⟨-, -, -, heq⟩
  · exact heq ▸ (h.definition hdefinition hvalue).1
  · exact heq ▸ (h.definition hdefinition hvalue).1
  · exact heq ▸ (h.definition hdefinition hvalue).1
  · exact heq ▸ validate_default hdefinition

/-- Valid overrides resolve. -/
theorem resolveSetting_ok {overrides : SettingOverrides} (h : overrides.layers.Valid)
    (providerId groupId : String) {definition : SettingDefinition}
    (hdefinition : definition ∈ settingCatalog) :
    resolveSetting overrides providerId groupId definition = .ok {
      definition
      value := (chosen overrides.layers providerId groupId definition).1
      inheritedFrom := (chosen overrides.layers providerId groupId definition).2 } := by
  have hvalid := validate_chosen h providerId groupId hdefinition
  unfold resolveSetting
  rcases chosen_cases overrides.layers providerId groupId definition with ⟨value, hgroup, heq⟩ |
    ⟨hgroup, value, hprovider, heq⟩ | ⟨hgroup, hprovider, value, hglobal, heq⟩ |
    ⟨hgroup, hprovider, hglobal, heq⟩
  · have hallowed := (h.definition hdefinition hgroup).2.2 rfl
    rw [heq] at hvalid ⊢
    simp only [SettingOverrides.layers] at hgroup
    simp [hgroup, hallowed, hvalid, Checked.ok_bind, pure, Except.pure]
  · have hallowed := (h.definition hdefinition hprovider).2.1 rfl
    rw [heq] at hvalid ⊢
    simp only [SettingOverrides.layers] at hgroup hprovider
    simp [hgroup, hprovider, hallowed, hvalid, Checked.ok_bind, pure, Except.pure]
  · rw [heq] at hvalid ⊢
    simp only [SettingOverrides.layers] at hgroup hprovider hglobal
    simp [hgroup, hprovider, hglobal, hvalid, Checked.ok_bind, pure, Except.pure]
  · rw [heq] at hvalid ⊢
    simp only [SettingOverrides.layers] at hgroup hprovider hglobal
    simp [hgroup, hprovider, hglobal, hvalid, Checked.ok_bind, pure, Except.pure]

theorem resolveSettings_ok {overrides : SettingOverrides} (h : overrides.layers.Valid)
    (providerId groupId : String) :
    resolveSettings overrides providerId groupId = .ok (settingCatalog.map fun definition => {
      definition
      value := (chosen overrides.layers providerId groupId definition).1
      inheritedFrom := (chosen overrides.layers providerId groupId definition).2 }) := by
  have hknown : ∀ (route : ScopeRoute) {map : Overrides} {key : String},
      (∀ key, overrides.layers route key = map[key]?) → key ∈ map.keys →
      (findDefinition key).isSome = true := by
    intro route map key hmap hkey
    have hmem : key ∈ map := Std.TreeMap.mem_keys.mp hkey
    obtain ⟨found, hfound, -⟩ := validateOverride_ok
      (h route key map[key] ((hmap key).trans (Std.TreeMap.getElem?_eq_some_getElem hmem)))
    rw [hfound]
    rfl
  have hnone : ((overrides.global.keys ++ overrides.provider.keys ++ overrides.group.keys).find?
      fun key => (findDefinition key).isNone) = none := by
    refine List.find?_eq_none.mpr fun key hkey => ?_
    have hsome : (findDefinition key).isSome = true := by
      rcases List.mem_append.mp hkey with hkey | hkey
      · rcases List.mem_append.mp hkey with hkey | hkey
        · exact hknown .global (fun _ => rfl) hkey
        · exact hknown (.provider providerId) (fun _ => rfl) hkey
      · exact hknown (.group groupId) (fun _ => rfl) hkey
    simpa using Option.isSome_iff_ne_none.mp hsome
  unfold resolveSettings
  simp only [hnone]
  exact Checked.mapM_eq_map fun definition hdefinition =>
    resolveSetting_ok h providerId groupId hdefinition

/-! ## Loads -/

def OperatorSettingOverrides.layers (self : OperatorSettingOverrides) : Layers
  | .global, key => self.global[key]?
  | .provider providerId, key => (self.providers.getD providerId {})[key]?
  | .group groupId, key => (self.groups.getD groupId {})[key]?

theorem ScopeRoute.scope_injective : Function.Injective ScopeRoute.scope := by
  intro a b h
  cases a <;> cases b <;> simp_all [ScopeRoute.scope, ScopeRoute.kind, ScopeRoute.scopeId,
    OperatorSettingScope.asStr]

/-- A row sets the value of its key in its scope. -/
theorem layers_set (overrides : OperatorSettingOverrides) {row : OverrideRow Value}
    {route : ScopeRoute} (hroute : row.scope = route.scope) (other : ScopeRoute) (key : String) :
    (overrides.set row).layers other key =
      if row.primaryKey = (other.scope, key) then some row.value
      else overrides.layers other key := by
  obtain ⟨scope, rowKey, value, revision, updatedBy⟩ := row
  obtain rfl : scope = route.scope := hroute
  have hprimary : ((route.scope, rowKey) = (other.scope, key)) ↔ route = other ∧ rowKey = key := by
    rw [Prod.mk.injEq, ScopeRoute.scope_injective.eq_iff]
  simp only [OverrideRow.primaryKey, hprimary]
  cases route <;> cases other <;>
    simp [OperatorSettingOverrides.set, OperatorSettingOverrides.insertInto,
      OperatorSettingOverrides.layers, ScopeRoute.scope, ScopeRoute.kind, ScopeRoute.scopeId,
      OperatorSettingScope.asStr, Std.TreeMap.getElem?_insert, Std.TreeMap.getD_insert] <;>
    split <;> simp_all [Std.TreeMap.getElem?_insert]

theorem layers_foldl {rows : List (OverrideRow Value)}
    (hroutes : ∀ row ∈ rows, ∃ route : ScopeRoute, row.scope = route.scope)
    (hnodup : (rows.map OverrideRow.primaryKey).Nodup) (overrides : OperatorSettingOverrides)
    (route : ScopeRoute) (key : String) :
    (rows.foldl OperatorSettingOverrides.set overrides).layers route key =
      ((rows.find? fun row => row.primaryKey = (route.scope, key)).map OverrideRow.value).or
        (overrides.layers route key) := by
  induction rows generalizing overrides with
  | nil => rfl
  | cons row rows ih =>
    obtain ⟨own, hown⟩ := hroutes row List.mem_cons_self
    obtain ⟨hnew, hrest⟩ := List.nodup_cons.mp hnodup
    have hothers : ∀ other ∈ rows, ∃ route : ScopeRoute, other.scope = route.scope :=
      fun other hother => hroutes other (List.mem_cons_of_mem _ hother)
    rw [List.foldl_cons, ih hothers hrest, layers_set overrides hown, List.find?_cons]
    by_cases hkey : row.primaryKey = (route.scope, key)
    · have hnone : (rows.find? fun row => row.primaryKey = (route.scope, key)) = none := by
        refine List.find?_eq_none.mpr fun other hother heq => hnew ?_
        rw [hkey, ← of_decide_eq_true heq]
        exact List.mem_map_of_mem hother
      simp [hkey, hnone]
    · simp [hkey]

/-! ## Writes -/

section Writes

variable {ρ υ : Type}

/-- What a call is to write. -/
def Call.write : Call υ → Option (Write υ)
  | .replace write | .restore write | .snapshot write _ | .insertRevision write _ _
  | .deleteOverrides write _ _ | .insertOverrides write _ _ _ _ _ => some write
  | .load _ | .loadValues .. | .rollback .. | .returned _ | .failed _ => none

/-- The values that an event writes to a scope. -/
def Event.written (scope : Scope) : Event υ → Option (Values υ)
  | .loaded .. => none
  | .committed write _ => if write.scope = scope then some write.values else none

/-- The values that the last commit has written to a scope. -/
def lastCommitted (log : List (Event υ)) (scope : Scope) : List (String × υ) :=
  ((log.filterMap (Event.written scope)).getLast?.map Values.entries).getD []

variable [DecidableEq ρ] [DecidableEq υ] {resourceId : Scope → ρ}

/-- A statement commits the write of its call, or it leaves the rows and the call keeps its write
or finds one to restore. -/
def Moves (resourceId : Scope → ρ) (db db' : Database ρ υ) (call next : Call υ)
    (events : List (Event υ)) : Prop :=
  (∀ scope target actor, next ≠ .rollback scope target actor) ∧
    ((∃ write current before deleted inserted,
        call = .insertOverrides write current before deleted inserted [] ∧ next.write = none ∧
        db' = db.commit resourceId write current before deleted inserted ∧
        events = [.committed write (current + 1)]) ∨
      (db' = db ∧ (∀ scope, events.filterMap (Event.written scope) = []) ∧
        ∀ write, next.write = some write → call.write = some write ∨
          ∃ target actor, call = .rollback write.scope target actor ∧
            ∃ row ∈ db.history resourceId write.scope, write.values = row.afterValue))

theorem moves_of_kept {db db' : Database ρ υ} {call next kept : Call υ} {events : List (Event υ)}
    (h : some (kept, db, []) = some (next, db', events))
    (hkept : kept.write = none ∨ kept.write = call.write)
    (hother : ∀ scope target actor, kept ≠ .rollback scope target actor) :
    Moves resourceId db db' call next events := by
  obtain ⟨rfl, rfl, rfl⟩ := by simpa using h
  refine ⟨hother, .inr ⟨rfl, fun _ => rfl, fun write hwrite => .inl ?_⟩⟩
  rcases hkept with hkept | hkept
  · rw [hkept] at hwrite
    cases hwrite
  · rw [← hkept, hwrite]

theorem nextStatement_moves {db db' : Database ρ υ} {calls : List (Call υ)} {i : Nat}
    {call next : Call υ} {events : List (Event υ)}
    (h : nextStatement resourceId db calls i call = some (next, db', events)) :
    Moves resourceId db db' call next events := by
  cases call with
  | load scope => exact moves_of_kept h (.inl rfl) (by simp)
  | loadValues scope revision =>
    obtain ⟨rfl, rfl, rfl⟩ := by simpa [nextStatement] using h
    exact ⟨by simp, .inr ⟨rfl, fun _ => rfl, by simp [Call.write]⟩⟩
  | replace write =>
    simp only [nextStatement] at h
    split at h
    · split at h
      · exact moves_of_kept h (.inl rfl) (by simp)
      · exact moves_of_kept h (.inr rfl) (by simp)
    · exact moves_of_kept h (.inr rfl) (by simp)
  | rollback scope targetRevision actor =>
    simp only [nextStatement] at h
    split at h
    · exact moves_of_kept h (.inl rfl) (by simp)
    · rename_i row hrow
      obtain ⟨rfl, rfl, rfl⟩ := by simpa using h
      refine ⟨by simp, .inr ⟨rfl, fun _ => rfl, fun write hwrite => ?_⟩⟩
      obtain rfl := Option.some.inj hwrite
      exact .inr ⟨targetRevision, actor, rfl, row, List.mem_of_find?_eq_some hrow, rfl⟩
  | restore write => exact moves_of_kept h (.inr rfl) (by simp)
  | snapshot write current => exact moves_of_kept h (.inr rfl) (by simp)
  | insertRevision write current before =>
    simp only [nextStatement] at h
    split at h
    · exact moves_of_kept h (.inl rfl) (by simp)
    · split at h
      · cases h
      · exact moves_of_kept h (.inr rfl) (by simp)
  | deleteOverrides write current before =>
    simp only [nextStatement] at h
    split at h
    · cases h
    · exact moves_of_kept h (.inr rfl) (by simp)
  | insertOverrides write current before deleted inserted rest =>
    cases rest with
    | nil =>
      obtain ⟨rfl, rfl, rfl⟩ := by simpa [nextStatement] using h
      exact ⟨by simp, .inl ⟨write, current, before, deleted, inserted, rfl, rfl, rfl, rfl⟩⟩
    | cons entry rest =>
      simp only [nextStatement] at h
      split at h
      · exact moves_of_kept h (.inl rfl) (by simp)
      · split at h
        · cases h
        · exact moves_of_kept h (.inr rfl) (by simp)
  | returned state => cases h
  | failed error => cases h

end Writes

/-! ## Runs -/

section Runs

variable {ρ : Type} [DecidableEq ρ] {resourceId : Scope → ρ}

/-- A write has passed the checks of its scope. -/
def Served (write : Write Value) : Prop :=
  ∃ route : ScopeRoute, write.scope = route.scope ∧
    validateScopeOverrides route.kind write.values = .ok ()

variable (resourceId) in
structure ServedOk (s : Service ρ Value) : Prop where
  commits : ∀ scope, s.log.filterMap (Event.written scope) =
    (s.db.history resourceId scope).map RevisionRow.afterValue
  revisions : ∀ row ∈ s.db.revisions, ∃ route : ScopeRoute,
    row.resourceId = resourceId route.scope ∧
      validateScopeOverrides route.kind row.afterValue = .ok ()
  overrides : ∀ row ∈ s.db.overrides, ∃ route : ScopeRoute, row.scope = route.scope
  calls : ∀ (i : Nat) (call : Call Value), s.calls[i]? = some call →
    ∀ write, call.write = some write → Served write
  rollbacks : ∀ (i : Nat) scope target actor,
    s.calls[i]? = some (.rollback scope target actor) → ∃ route : ScopeRoute, scope = route.scope

variable {s : Service ρ Value}

/-- The revisions of a scope have been checked for it. -/
theorem ServedOk.history (hinj : Function.Injective resourceId) (h : ServedOk resourceId s)
    {route : ScopeRoute} {row : RevisionRow ρ Value}
    (hrow : row ∈ s.db.history resourceId route.scope) :
    validateScopeOverrides route.kind row.afterValue = .ok () := by
  obtain ⟨hmem, hresource⟩ := List.mem_filter.mp hrow
  obtain ⟨own, hown, hvalid⟩ := h.revisions row hmem
  have hsame : own = route :=
    ScopeRoute.scope_injective (hinj (hown.symm.trans (of_decide_eq_true hresource)))
  exact hsame ▸ hvalid

theorem ServedOk.advance (hinj : Function.Injective resourceId) (hok : SettingsOk resourceId s)
    (h : ServedOk resourceId s) {i : Nat} {call next : Call Value} {db : Database ρ Value}
    {events : List (Event Value)} (hcall : s.calls[i]? = some call)
    (hnext : nextStatement resourceId s.db s.calls i call = some (next, db, events)) :
    ServedOk resourceId { db, calls := s.calls.set i next, log := s.log ++ events } := by
  obtain ⟨hrollback, hcases⟩ := nextStatement_moves hnext
  have hrollbacks : ∀ (j : Nat) scope target actor,
      (s.calls.set i next)[j]? = some (.rollback scope target actor) →
      ∃ route : ScopeRoute, scope = route.scope := by
    intro j scope target actor hj
    rcases getElem?_set_cases hj with ⟨-, heq⟩ | ⟨-, hj⟩
    · exact absurd heq.symm (hrollback scope target actor)
    · exact h.rollbacks j scope target actor hj
  have hcalls : (∀ write, next.write = some write → Served write) →
      ∀ (j : Nat) (other : Call Value), (s.calls.set i next)[j]? = some other →
        ∀ write, other.write = some write → Served write := by
    intro hserved j other hj
    rcases getElem?_set_cases hj with ⟨-, rfl⟩ | ⟨-, hj⟩
    · exact hserved
    · exact h.calls j other hj
  rcases hcases with ⟨write, current, before, deleted, inserted, rfl, hnone, rfl, rfl⟩ |
    ⟨rfl, hwritten, hwrite⟩
  · -- The commit adds one revision, the values of which have passed the checks.
    obtain ⟨route, hroute, hvalid⟩ := h.calls i _ hcall write rfl
    obtain ⟨-, -, -, hscope, -⟩ := hok.calls i _ hcall
    refine ⟨fun scope => ?_, ?_, ?_, ?_, hrollbacks⟩
    · rw [List.filterMap_append, h.commits]
      rcases eq_or_ne write.scope scope with rfl | hne
      · rw [history_commit_same, List.map_append]
        simp [Event.written, committedRow]
      · rw [history_commit_other hinj s.db _ hne]
        simp [Event.written, hne]
    · intro row hrow
      rcases List.mem_append.mp hrow with hrow | hrow
      · exact h.revisions row hrow
      · obtain rfl := List.mem_singleton.mp hrow
        exact ⟨route, congrArg resourceId hroute, hvalid⟩
    · intro row hrow
      rcases List.mem_append.mp hrow with hrow | hrow
      · exact h.overrides row (List.mem_filter.mp hrow).1
      · exact ⟨route, (hscope row hrow).trans hroute⟩
    · refine hcalls fun other hother => ?_
      rw [hnone] at hother
      cases hother
  · refine ⟨fun scope => ?_, h.revisions, h.overrides, hcalls fun write hnew => ?_, hrollbacks⟩
    · rw [List.filterMap_append, hwritten, List.append_nil]
      exact h.commits scope
    · rcases hwrite write hnew with hold | ⟨target, actor, rfl, row, hrow, hvalues⟩
      · exact h.calls i call hcall write hold
      · obtain ⟨route, hroute⟩ := h.rollbacks i _ target actor hcall
        refine ⟨route, hroute, ?_⟩
        rw [hvalues]
        exact h.history hinj (hroute ▸ hrow)

/-- A handler begins a call. -/
theorem ServedOk.begin (h : ServedOk resourceId s) {call : Call Value}
    (hwrite : ∀ write, call.write = some write → Served write)
    (hrollback : ∀ scope target actor, call = .rollback scope target actor →
      ∃ route : ScopeRoute, scope = route.scope) :
    ServedOk resourceId { s with calls := s.calls ++ [call] } := by
  refine ⟨h.commits, h.revisions, h.overrides, ?_, ?_⟩
  · intro i other hother
    rcases getElem?_append_cases hother with hother | rfl
    · exact h.calls i other hother
    · exact hwrite
  · intro i scope target actor hother
    rcases getElem?_append_cases hother with hother | heq
    · exact h.rollbacks i scope target actor hother
    · exact hrollback scope target actor heq.symm

theorem ServedOk.step (hinj : Function.Injective resourceId) (hok : SettingsOk resourceId s)
    (h : ServedOk resourceId s) {t : Service ρ Value} {request : Request}
    (hstep : s.serve resourceId request = some t) :
    SettingsOk resourceId t ∧ ServedOk resourceId t := by
  cases request with
  | getOperatorScope route =>
    simp only [Service.serve] at hstep
    refine ⟨hok.step hinj hstep, ?_⟩
    obtain rfl := Option.some.inj hstep
    exact h.begin (by simp [Call.write]) (by simp)
  | replaceOperatorScope route overrides expectedRevision =>
    simp only [Service.serve] at hstep
    split at hstep
    · obtain rfl := Option.some.inj hstep
      exact ⟨hok, h⟩
    · rename_i hvalid
      refine ⟨hok.step hinj hstep, ?_⟩
      obtain rfl := Option.some.inj hstep
      refine h.begin (fun write hwrite => ?_) (by simp)
      obtain rfl := Option.some.inj hwrite
      exact ⟨route, rfl, hvalid⟩
  | rollbackOperatorScope route revision =>
    simp only [Service.serve] at hstep
    refine ⟨hok.step hinj hstep, ?_⟩
    obtain rfl := Option.some.inj hstep
    refine h.begin (by simp [Call.write]) fun scope target actor heq => ⟨route, ?_⟩
    cases heq
    rfl
  | advance i =>
    simp only [Service.serve] at hstep
    refine ⟨hok.step hinj hstep, ?_⟩
    obtain ⟨call, hcall, hstep⟩ := Option.bind_eq_some_iff.mp hstep
    obtain ⟨⟨next, db, events⟩, hnext, hstep⟩ := Option.bind_eq_some_iff.mp hstep
    obtain rfl := Option.some.inj hstep
    exact h.advance hinj hok hcall hnext
  | fail i =>
    simp only [Service.serve] at hstep
    refine ⟨hok.step hinj hstep, ?_⟩
    obtain rfl := Option.some.inj hstep
    refine ⟨h.commits, h.revisions, h.overrides, ?_, ?_⟩
    · intro j call hj
      rcases getElem?_set_cases hj with ⟨-, rfl⟩ | ⟨-, hj⟩
      · simp [Call.write]
      · exact h.calls j call hj
    · intro j scope target actor hj
      rcases getElem?_set_cases hj with ⟨-, heq⟩ | ⟨-, hj⟩
      · cases heq
      · exact h.rollbacks j scope target actor hj

theorem served_of_reachable (hinj : Function.Injective resourceId)
    (h : (operatorMachine ρ resourceId).Reachable s) :
    SettingsOk resourceId s ∧ ServedOk resourceId s := by
  refine h.invariant (I := fun s => SettingsOk resourceId s ∧ ServedOk resourceId s) ?_
    fun s request t hs _ hstep => hs.2.step hinj hs.1 hstep
  refine ⟨settingsOk_of_reachable hinj .start, fun _ => rfl, ?_, ?_, ?_, ?_⟩
  · intro row hrow
    cases hrow
  · intro row hrow
    cases hrow
  · intro i call hcall
    cases hcall
  · intro i scope target actor hcall
    cases hcall

/-- What the last commits have left to read. -/
def committedValues (log : List (Event Value)) : Layers := fun route key =>
  ((lastCommitted log route.scope).find? fun entry => entry.1 = key).map Prod.snd

theorem lastCommitted_eq (h : ServedOk resourceId s) (scope : Scope) :
    lastCommitted s.log scope = s.db.lastValues resourceId scope := by
  rw [lastCommitted, h.commits, List.getLast?_map, Option.map_map]
  rfl

/-- The keys of a map are different. -/
theorem nodup_keys (values : Values Value) : (values.entries.map Prod.fst).Nodup :=
  List.pairwise_map.mpr (values.sorted.imp fun hlt => ne_of_lt hlt)

theorem nodup_lastCommitted (log : List (Event Value)) (scope : Scope) :
    ((lastCommitted log scope).map Prod.fst).Nodup := by
  unfold lastCommitted
  cases (log.filterMap (Event.written scope)).getLast? with
  | none => exact List.nodup_nil
  | some values => exact nodup_keys values

/-- The rows hold the entries of the last commits. -/
theorem mem_overrides_iff (hok : SettingsOk resourceId s) (h : ServedOk resourceId s)
    {scope : Scope} {key : String} {value : Value} :
    (∃ row ∈ s.db.overrides, row.primaryKey = (scope, key) ∧ row.value = value) ↔
      (key, value) ∈ lastCommitted s.log scope := by
  rw [lastCommitted_eq h, ← hok.stored scope, List.mem_map]
  constructor
  · rintro ⟨row, hrow, hkey, rfl⟩
    obtain ⟨rfl, rfl⟩ := Prod.mk.inj hkey
    exact ⟨row, List.mem_filter.mpr ⟨hrow, decide_eq_true rfl⟩, rfl⟩
  · rintro ⟨row, hrow, hentry⟩
    obtain ⟨hmem, hscope⟩ := List.mem_filter.mp hrow
    obtain ⟨rfl, rfl⟩ := Prod.mk.inj hentry
    exact ⟨row, hmem, by rw [OverrideRow.primaryKey, of_decide_eq_true hscope], rfl⟩

theorem nodup_of_scopes {rows : List (OverrideRow Value)}
    (h : ∀ scope, ((rows.filter fun row => row.scope = scope).map OverrideRow.key).Nodup) :
    (rows.map OverrideRow.primaryKey).Nodup := by
  induction rows with
  | nil => exact List.nodup_nil
  | cons row rows ih =>
    have hrest : ∀ scope,
        ((rows.filter fun row => row.scope = scope).map OverrideRow.key).Nodup := fun scope =>
      (h scope).sublist (((List.sublist_cons_self row rows).filter _).map _)
    refine List.nodup_cons.mpr ⟨fun hmem => ?_, ih hrest⟩
    obtain ⟨other, hother, heq⟩ := List.mem_map.mp hmem
    obtain ⟨hscope, hkey⟩ := Prod.mk.inj heq
    have hown := h row.scope
    rw [List.filter_cons_of_pos (by simp), List.map_cons] at hown
    refine (List.nodup_cons.mp hown).1 (List.mem_map.mpr ⟨other, ?_, hkey⟩)
    exact List.mem_filter.mpr ⟨hother, decide_eq_true hscope⟩

theorem nodup_primaryKey (hok : SettingsOk resourceId s) :
    (s.db.overrides.map OverrideRow.primaryKey).Nodup := by
  refine nodup_of_scopes fun scope => ?_
  have hkeys : (s.db.scopeRows scope).map OverrideRow.key =
      (s.db.lastValues resourceId scope).map Prod.fst := by
    rw [← hok.stored scope, List.map_map]
    rfl
  rw [Database.scopeRows] at hkeys
  rw [hkeys]
  unfold Database.lastValues
  cases (s.db.history resourceId scope).getLast? with
  | none => exact List.nodup_nil
  | some row => exact nodup_keys row.afterValue

/-- A load reads what the last commits have written. -/
theorem layers_load (hok : SettingsOk resourceId s) (h : ServedOk resourceId s) :
    (loadOperatorSettingOverrides s.db).layers = committedValues s.log := by
  funext route key
  have hperm := Sorting.sortBy_perm OverrideRow.sortKey s.db.overrides
  have hnodup : ((Sorting.sortBy OverrideRow.sortKey s.db.overrides).map
      OverrideRow.primaryKey).Nodup := (hperm.map _).nodup_iff.mpr (nodup_primaryKey hok)
  rw [loadOperatorSettingOverrides, layers_foldl
    (fun row hrow => h.overrides row (hperm.mem_iff.mp hrow)) hnodup]
  have hempty : OperatorSettingOverrides.layers {} route key = none := by
    cases route <;> simp [OperatorSettingOverrides.layers]
  rw [hempty, Option.or_none]
  refine Option.ext fun value => ?_
  rw [Table.find?_map_eq_some_iff hnodup]
  simp only [hperm.mem_iff]
  rw [mem_overrides_iff hok h, committedValues,
    Table.find?_map_eq_some_iff (nodup_lastCommitted s.log route.scope)]
  constructor
  · exact fun hmem => ⟨(key, value), hmem, rfl, rfl⟩
  · rintro ⟨entry, hentry, rfl, rfl⟩
    exact hentry

theorem valid_committedValues (hinj : Function.Injective resourceId) (h : ServedOk resourceId s) :
    (committedValues s.log).Valid := by
  intro route key value hvalue
  obtain ⟨entry, hentry, rfl, rfl⟩ :=
    (Table.find?_map_eq_some_iff (nodup_lastCommitted s.log route.scope)).mp hvalue
  rw [lastCommitted_eq h] at hentry
  unfold Database.lastValues at hentry
  cases hlast : (s.db.history resourceId route.scope).getLast? with
  | none =>
    rw [hlast] at hentry
    cases hentry
  | some row =>
    rw [hlast] at hentry
    have hvalid := h.history hinj (List.mem_of_getLast? hlast)
    exact Checked.forM_ok_iff.mp hvalid entry hentry

/-- The layers of two identifiers. -/
theorem layers_toDomain (overrides : OperatorSettingOverrides) (providerId groupId : String) :
    (overrides.toDomain providerId groupId).layers = fun route key => overrides.layers
      (match route with
        | .global => .global
        | .provider _ => .provider providerId
        | .group _ => .group groupId) key := by
  funext route key
  cases route <;> rfl

theorem effectiveSettings_eq (hinj : Function.Injective resourceId) (hok : SettingsOk resourceId s)
    (h : ServedOk resourceId s) (providerId groupId : String) :
    effectiveSettings s.db providerId groupId = .ok (settingCatalog.map fun definition => {
      definition
      value := (chosen (committedValues s.log) providerId groupId definition).1
      inheritedFrom := (chosen (committedValues s.log) providerId groupId definition).2 }) := by
  have hlayers := layers_toDomain (loadOperatorSettingOverrides s.db) providerId groupId
  rw [layers_load hok h] at hlayers
  have hvalid := valid_committedValues hinj h
  have hdomain :
      ((loadOperatorSettingOverrides s.db).toDomain providerId groupId).layers.Valid := by
    rw [hlayers]
    intro route key value hvalue
    cases route with
    | global => exact hvalid .global key value hvalue
    | provider _ => exact hvalid (.provider providerId) key value hvalue
    | group _ => exact hvalid (.group groupId) key value hvalue
  have hchosen : ∀ definition,
      chosen ((loadOperatorSettingOverrides s.db).toDomain providerId groupId).layers providerId
        groupId definition = chosen (committedValues s.log) providerId groupId definition := by
    intro definition
    rw [hlayers]
    rfl
  rw [effectiveSettings, resolveSettings_ok hdomain]
  simp only [hchosen]

end Runs

/-- In every reachable state, whatever is stored resolves for every provider and group: every
setting has a value of its kind and range, the one that the last commit of the most specific scope
has left, or its default. -/
theorem effective_settings_resolve {ρ : Type} [DecidableEq ρ] (resourceId : Scope → ρ)
    (hinj : Function.Injective resourceId) (s : Service ρ Value)
    (h : (operatorMachine ρ resourceId).Reachable s) (providerId groupId : String) :
    ∃ settings, effectiveSettings s.db providerId groupId = .ok settings ∧
      settings.map EffectiveSetting.definition = settingCatalog ∧
      ∀ setting ∈ settings, setting.definition.validate setting.value = .ok () ∧
        (setting.value, setting.inheritedFrom) =
          chosen (committedValues s.log) providerId groupId setting.definition := by
  obtain ⟨hok, hserved⟩ := served_of_reachable hinj h
  refine ⟨_, effectiveSettings_eq hinj hok hserved providerId groupId, ?_, ?_⟩
  · rw [List.map_map]
    exact List.map_id _
  · intro setting hsetting
    obtain ⟨definition, hdefinition, rfl⟩ := List.mem_map.mp hsetting
    exact ⟨validate_chosen (valid_committedValues hinj hserved) providerId groupId hdefinition, rfl⟩

section Example

def ringSeconds (seconds : Int) : Values Value :=
  ⟨[("media.ring.duration_seconds", .integer seconds)], List.pairwise_singleton _ _⟩

/-- A provider gets 16 seconds, then 20, and is rolled back; a group may not have the setting. -/
def restoredRing : List Request :=
  [.replaceOperatorScope (.provider "p") (ringSeconds 16) none,
    .advance 0, .advance 0, .advance 0, .advance 0, .advance 0, .advance 0,
    .replaceOperatorScope (.provider "p") (ringSeconds 20) (some 1),
    .advance 1, .advance 1, .advance 1, .advance 1, .advance 1, .advance 1,
    .replaceOperatorScope (.group "g") (ringSeconds 30) none,
    .rollbackOperatorScope (.provider "p") 1,
    .advance 2, .advance 2, .advance 2, .advance 2, .advance 2, .advance 2, .advance 2]

theorem effective_settings_resolve_restored :
    ∃ s, (operatorMachine Scope id).Reachable s ∧
      s.log.length = 3 ∧ ∃ settings, effectiveSettings s.db "p" "g" = .ok settings ∧
        ∀ setting ∈ settings, setting.definition.key = "media.ring.duration_seconds" →
          (setting.value, setting.inheritedFrom) = (.integer 16, .provider "p") := by
  obtain ⟨s, hs, hp⟩ := (operatorMachine Scope id).exists_reachable_of_run restoredRing
    (fun s => s.log.length = 3 ∧ ∀ definition ∈ settingCatalog,
      definition.key = "media.ring.duration_seconds" →
        chosen (committedValues s.log) "p" "g" definition = (.integer 16, .provider "p"))
    (by decide +kernel)
  obtain ⟨hlog, hchosen⟩ := of_decide_eq_true hp
  obtain ⟨settings, hsettings, hdefinitions, hall⟩ :=
    effective_settings_resolve id Function.injective_id s hs "p" "g"
  refine ⟨s, hs, hlog, settings, hsettings, fun setting hsetting hkey => ?_⟩
  rw [(hall setting hsetting).2]
  exact hchosen _ (hdefinitions ▸ List.mem_map_of_mem hsetting) hkey

end Example

end IptvRelay.Settings
