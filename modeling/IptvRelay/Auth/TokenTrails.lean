import IptvRelay.Auth.TokenLifecycles
import IptvRelay.Lib.History

/-!
# The audit trail of the tokens

In any run, also where handlers are lost or revocations overtake them, the audit events tell the
life of every token, a revocation is final in the database, and the manager accepts only tokens that
are stored as it knows them.
-/

namespace IptvRelay.Auth

open Transition

/-! ## Names and scopes -/

/-- What a validated request leaves in a row. -/
structure ValidToken (name : String) (scopes : List String) : Prop where
  name : name ≠ "" ∧ name.utf8ByteSize ≤ 128 ∧ containsControl name = false
  some : scopes ≠ []
  nodup : scopes.Nodup
  known : ∀ scope ∈ scopes, scope ∈ operatorTokenScopes

theorem normalizeTokenScopes_ok {normalized scopes result : List String}
    (h : normalizeTokenScopes normalized scopes = .ok result) (hnodup : normalized.Nodup)
    (hknown : ∀ scope ∈ normalized, scope ∈ operatorTokenScopes) :
    result.Nodup ∧ ∀ scope ∈ result, scope ∈ operatorTokenScopes := by
  induction scopes generalizing normalized with
  | nil =>
    obtain rfl := Except.ok.inj h
    exact ⟨hnodup, hknown⟩
  | cons scope rest ih =>
    simp only [normalizeTokenScopes] at h
    split at h
    · cases h
    · rename_i hscope
      rw [not_not] at hscope
      split at h
      · exact ih h hnodup hknown
      · rename_i hnew
        refine ih h (List.nodup_append.mpr ⟨hnodup, List.nodup_singleton _, ?_⟩) ?_
        · rintro old hold other hother rfl
          rw [List.mem_singleton.mp hother] at hold
          exact hnew hold
        · intro other hother
          rcases List.mem_append.mp hother with hother | hother
          · exact hknown other hother
          · rwa [List.mem_singleton.mp hother]

theorem validateOperatorTokenInput_ok {name result : String} {scopes normalized : List String}
    (h : validateOperatorTokenInput name scopes = .ok (result, normalized)) :
    ValidToken result normalized := by
  unfold validateOperatorTokenInput at h
  simp only at h
  split at h
  · cases h
  · rename_i hname
    push Not at hname
    obtain ⟨kept, hkept, h⟩ := Checked.of_bind h
    split at h
    · cases h
    · rename_i hsome
      obtain ⟨rfl, rfl⟩ := Prod.mk.inj (Checked.of_pure h)
      obtain ⟨hnodup, hknown⟩ := normalizeTokenScopes_ok hkept List.nodup_nil (by simp)
      exact ⟨⟨hname.1, hname.2.1, by simpa using hname.2.2⟩, hsome, hnodup, hknown⟩

/-! ## Trails -/

namespace TokenAudit

/-- The token that an event tells of the beginning of. -/
def created (event : TokenAudit) : Option Nat :=
  match event.action with
  | .create .. => some event.resourceId
  | .rotate newTokenId .. => some newTokenId
  | .revoke => none

/-- The token that an event tells of the end of. -/
def ended (event : TokenAudit) : Option Nat :=
  match event.action with
  | .create .. => none
  | .rotate .. | .revoke => some event.resourceId

end TokenAudit

/-- A token ends behind its beginning. -/
def EndsCreated (before : List TokenAudit) (event : TokenAudit) (_after : List TokenAudit) : Prop :=
  ∀ id ∈ event.ended, id ∈ before.filterMap TokenAudit.created

structure TrailOk {κ : Type} (tables : TokenTables κ) : Prop where
  ids : (tables.rows.map OperatorApiTokenRow.id).Nodup
  created : tables.audit.filterMap TokenAudit.created = tables.rows.map OperatorApiTokenRow.id
  once : (tables.audit.filterMap TokenAudit.ended).Nodup
  revoked : ∀ row ∈ tables.rows,
    row.revokedAt ≠ none ↔ row.id ∈ tables.audit.filterMap TokenAudit.ended
  follows : History.Follows EndsCreated [] tables.audit
  valid : ∀ row ∈ tables.rows, ValidToken row.name row.scopes

section Trails

variable {κ : Type} {tables tables' : TokenTables κ} {row : OperatorApiTokenRow κ}

/-- A token that has ended has been created. -/
theorem TrailOk.ended_created (h : TrailOk tables) {id : Nat}
    (hid : id ∈ tables.audit.filterMap TokenAudit.ended) :
    id ∈ tables.rows.map OperatorApiTokenRow.id := by
  obtain ⟨event, hevent, hended⟩ := List.mem_filterMap.mp hid
  obtain ⟨before, after, hsplit⟩ := List.append_of_mem hevent
  have hcreated := h.follows before event after hsplit id hended
  rw [← h.created, hsplit, List.filterMap_append]
  exact List.mem_append_left _ hcreated

/-- An event is added, with the row that it tells the beginning of, and with the revocation that it
tells of. -/
theorem TrailOk.event (h : TrailOk tables) (event : TokenAudit)
    (new : Option (OperatorApiTokenRow κ)) {rows : List (OperatorApiTokenRow κ)}
    (hids : rows.map OperatorApiTokenRow.id = tables.rows.map OperatorApiTokenRow.id)
    (hvalid : ∀ row ∈ rows, ValidToken row.name row.scopes)
    (hrevoked : ∀ row ∈ rows, row.revokedAt ≠ none ↔
      row.id ∈ tables.audit.filterMap TokenAudit.ended ∨ event.ended = some row.id)
    (hended : ∀ id ∈ event.ended, id ∈ tables.rows.map OperatorApiTokenRow.id ∧
      id ∉ tables.audit.filterMap TokenAudit.ended)
    (hcreated : event.created = new.map OperatorApiTokenRow.id)
    (hnew : ∀ row ∈ new, row.id ∉ tables.rows.map OperatorApiTokenRow.id ∧ row.revokedAt = none ∧
      ValidToken row.name row.scopes) :
    TrailOk { rows := rows ++ new.toList, audit := tables.audit ++ [event] } := by
  have hcases : ∀ row ∈ rows ++ new.toList, row ∈ rows ∨ new = some row := by
    intro row hrow
    rcases List.mem_append.mp hrow with hrow | hrow
    · exact .inl hrow
    · exact .inr (Option.mem_toList.mp hrow)
  refine ⟨?_, ?_, ?_, ?_, ?_, ?_⟩
  · rw [List.map_append, hids]
    cases new with
    | none => simpa using h.ids
    | some row =>
      rw [Option.toList_some, List.map_singleton]
      exact List.nodup_append_comm.mp (List.nodup_cons.mpr ⟨(hnew row rfl).1, h.ids⟩)
  · rw [List.filterMap_append, h.created, List.map_append, hids]
    cases new <;> simp [hcreated]
  · rw [List.filterMap_append]
    cases hevent : event.ended with
    | none => simpa [hevent] using h.once
    | some id =>
      have hlast : [event].filterMap TokenAudit.ended = [id] := by simp [hevent]
      rw [hlast]
      exact List.nodup_append_comm.mp (List.nodup_cons.mpr ⟨(hended id hevent).2, h.once⟩)
  · intro row hrow
    have hends : row.id ∈ (tables.audit ++ [event]).filterMap TokenAudit.ended ↔
        row.id ∈ tables.audit.filterMap TokenAudit.ended ∨ event.ended = some row.id := by
      rw [List.filterMap_append, List.mem_append]
      simp
    rw [hends]
    rcases hcases row hrow with hrow | rfl
    · exact hrevoked row hrow
    · obtain ⟨hfresh, hactive, -⟩ := hnew row rfl
      refine ⟨fun hne => absurd hactive hne, fun hid => ?_⟩
      rcases hid with hid | hid
      · exact absurd (h.ended_created hid) hfresh
      · exact absurd (hended row.id hid).1 hfresh
  · refine h.follows.append (fun _ _ _ _ hends => hends) (History.follows_cons ?_
      (History.follows_nil _))
    intro id hid
    rw [List.nil_append, h.created]
    exact (hended id hid).1
  · intro row hrow
    rcases hcases row hrow with hrow | rfl
    · exact hvalid row hrow
    · exact (hnew row rfl).2.2

theorem TrailOk.of_eq {rows : List (OperatorApiTokenRow κ)} {audit : List TokenAudit}
    (h : TrailOk { rows, audit }) (hrows : tables.rows = rows) (haudit : tables.audit = audit) :
    TrailOk tables := by
  subst hrows haudit
  exact h

theorem not_mem_ids {rows : List (OperatorApiTokenRow κ)} {id : Nat}
    (h : ∀ old ∈ rows, old.id ≠ id) : id ∉ rows.map OperatorApiTokenRow.id := by
  intro hid
  obtain ⟨old, hold, heq⟩ := List.mem_map.mp hid
  exact h old hold heq

/-- What an event that ends an active token needs. -/
theorem TrailOk.revokeRow (h : TrailOk tables) (now : Time) {id : Nat} (event : TokenAudit)
    (hactive : tables.rows.any (OperatorApiTokenRow.isActive id) = true)
    (hended : event.ended = some id) :
    (∀ row ∈ (tables.revokeRow now id).rows, ValidToken row.name row.scopes) ∧
    (∀ row ∈ (tables.revokeRow now id).rows, row.revokedAt ≠ none ↔
      row.id ∈ tables.audit.filterMap TokenAudit.ended ∨ event.ended = some row.id) ∧
    ∀ other ∈ event.ended, other ∈ tables.rows.map OperatorApiTokenRow.id ∧
      other ∉ tables.audit.filterMap TokenAudit.ended := by
  obtain ⟨own, hown, hisActive⟩ := List.any_eq_true.mp hactive
  obtain ⟨rfl, hnone⟩ := of_decide_eq_true hisActive
  refine ⟨fun row hrow => ?_, fun row hrow => ?_, fun other hother => ?_⟩
  · rcases revokeRow_cases hrow with ⟨hmem, -⟩ | ⟨old, hmem, -, -, rfl⟩
    · exact h.valid row hmem
    · exact h.valid old hmem
  · rw [hended, Option.some.injEq]
    rcases revokeRow_cases hrow with ⟨hmem, hkept⟩ | ⟨old, hmem, hid, -, rfl⟩
    · rw [h.revoked row hmem]
      refine ⟨.inl, fun hcase => hcase.elim (fun hid => hid) fun hid => ?_⟩
      exact (h.revoked row hmem).mp (hkept hid.symm)
    · exact ⟨fun _ => .inr hid.symm, fun _ => by simp⟩
  · rw [hended] at hother
    obtain rfl := Option.some.inj hother
    exact ⟨List.mem_map_of_mem hown, fun hid => (h.revoked own hown).mpr hid hnone⟩

/-! ## What later tables keep -/

/-- Events are added only, and a row changes by its revocation only. -/
def Extends (tables tables' : TokenTables κ) : Prop :=
  (∃ more, tables'.audit = tables.audit ++ more) ∧
    ∀ row ∈ tables.rows, ∃ row' ∈ tables'.rows, row' = row ∨
      row.revokedAt = none ∧ ∃ now, row' = { row with revokedAt := some now }

theorem Extends.refl (tables : TokenTables κ) : Extends tables tables :=
  ⟨⟨[], (List.append_nil _).symm⟩, fun row hrow => ⟨row, hrow, .inl rfl⟩⟩

theorem Extends.trans {tables'' : TokenTables κ} (h : Extends tables tables')
    (h' : Extends tables' tables'') : Extends tables tables'' := by
  obtain ⟨⟨more, hmore⟩, hrows⟩ := h
  obtain ⟨⟨more', hmore'⟩, hrows'⟩ := h'
  refine ⟨⟨more ++ more', by rw [hmore', hmore, List.append_assoc]⟩, fun row hrow => ?_⟩
  obtain ⟨row', hrow', hcase⟩ := hrows row hrow
  obtain ⟨row'', hrow'', hcase'⟩ := hrows' row' hrow'
  refine ⟨row'', hrow'', ?_⟩
  rcases hcase with rfl | ⟨hnone, now, rfl⟩
  · exact hcase'
  · rcases hcase' with rfl | ⟨hsome, -⟩
    · exact .inr ⟨hnone, now, rfl⟩
    · cases hsome

/-- What the manager may know stays stored. -/
theorem Extends.record (h : Extends tables tables') {record : OperatorTokenRecord κ}
    (hrecord : ∃ row ∈ tables.rows, row.toRecord = record) :
    ∃ row ∈ tables'.rows, row.toRecord = record := by
  obtain ⟨row, hrow, rfl⟩ := hrecord
  obtain ⟨row', hrow', rfl | ⟨-, now, rfl⟩⟩ := h.2 row hrow
  · exact ⟨row', hrow', rfl⟩
  · exact ⟨_, hrow', rfl⟩

theorem extends_append {new : List (OperatorApiTokenRow κ)} {event : TokenAudit}
    (hrows : tables'.rows = tables.rows ++ new)
    (haudit : tables'.audit = tables.audit ++ [event]) : Extends tables tables' :=
  ⟨⟨_, haudit⟩, fun row hrow => ⟨row, hrows ▸ List.mem_append_left _ hrow, .inl rfl⟩⟩

theorem extends_revokeRow {now : Time} {id : Nat} {new : List (OperatorApiTokenRow κ)}
    {event : TokenAudit} (hrows : tables'.rows = (tables.revokeRow now id).rows ++ new)
    (haudit : tables'.audit = tables.audit ++ [event]) : Extends tables tables' := by
  refine ⟨⟨_, haudit⟩, fun row hrow => ?_⟩
  rw [hrows]
  by_cases hactive : row.id = id ∧ row.revokedAt = none
  · have hmem := mem_revokeRow_of_active now hrow (decide_eq_true hactive)
    exact ⟨_, List.mem_append_left _ hmem, .inr ⟨hactive.2, now, rfl⟩⟩
  · have hmem := mem_revokeRow_of_kept now hrow (not_and_or.mp hactive)
    exact ⟨row, List.mem_append_left _ hmem, .inl rfl⟩

end Trails

/-! ## Runs -/

section Runs

variable {κ : Type} [DecidableEq κ] {digest : String → κ}

/-- The values of the row that a handler is about to insert. -/
def TokenCall.input : TokenCall κ → Option TokenInput
  | creating input _ | rotating _ input _ => some input
  | _ => none

structure TokenService.Trail (s : TokenService κ) : Prop where
  trail : TrailOk s.tables
  known : ∀ key record, s.state.auth.operatorTokens.lookup key = some record →
    record.tokenHash = key ∧ ∃ row ∈ s.tables.rows, row.toRecord = record
  inputs : ∀ call ∈ s.calls, ∀ input, call.input = some input →
    ValidToken input.name input.scopes
  issued : ∀ call ∈ s.calls, ∀ record, call.issued = some record →
    ∃ row ∈ s.tables.rows, row.toRecord = record

variable {s t : TokenService κ}

/-- A handler moves on, while the tables may grow and the manager may forget. -/
theorem TokenService.Trail.move (h : s.Trail) {tables : TokenTables κ} {auth : AuthInner κ}
    {i : Nat} {next : TokenCall κ} (htrail : TrailOk tables) (hextends : Extends s.tables tables)
    (hknown : ∀ key record, auth.operatorTokens.lookup key = some record →
      record.tokenHash = key ∧ ∃ row ∈ tables.rows, row.toRecord = record)
    (hinput : ∀ input, next.input = some input → ValidToken input.name input.scopes)
    (hissued : ∀ record, next.issued = some record → ∃ row ∈ tables.rows, row.toRecord = record) :
    { s.withAuth auth with tables, calls := s.calls.set i next }.Trail := by
  refine ⟨htrail, hknown, fun call hcall => ?_, fun call hcall => ?_⟩
  · rcases List.mem_or_eq_of_mem_set hcall with hcall | rfl
    · exact h.inputs call hcall
    · exact hinput
  · rcases List.mem_or_eq_of_mem_set hcall with hcall | rfl
    · exact fun record hrecord => hextends.record (h.issued call hcall record hrecord)
    · exact hissued

/-- The manager knows stored tokens also of tables that have grown. -/
theorem TokenService.Trail.later (h : s.Trail) {tables : TokenTables κ}
    (hextends : Extends s.tables tables) (key : κ) (record : OperatorTokenRecord κ)
    (hlookup : s.state.auth.operatorTokens.lookup key = some record) :
    record.tokenHash = key ∧ ∃ row ∈ tables.rows, row.toRecord = record :=
  (h.known key record hlookup).imp_right hextends.record

theorem readCall_input (digest : String → κ) (state : AppState κ) (tables : TokenTables κ)
    (draw : Draw) (headers : HeaderMap) (tokenId : Nat) (request : RotateOperatorApiTokenRequest)
    {input : TokenInput}
    (h : (readCall digest state tables draw headers tokenId request).input = some input) :
    ValidToken input.name input.scopes := by
  unfold readCall at h
  split at h
  · cases h
  · split at h
    · cases h
    · rename_i name scopes hvalid
      split at h
      · cases h
      · obtain rfl := Option.some.inj h
        exact validateOperatorTokenInput_ok hvalid

theorem createCall_input (digest : String → κ) (state : AppState κ) (now : Time)
    (headers : HeaderMap) (request : Option CreateOperatorApiTokenRequest)
    (random : Option String) (id : Nat) {input : TokenInput}
    (h : (createCall digest state now headers request random id).input = some input) :
    ValidToken input.name input.scopes := by
  unfold createCall at h
  split at h
  · cases h
  · split at h
    · cases h
    · rename_i name scopes hvalid
      split at h
      · cases h
      · obtain rfl := Option.some.inj h
        exact validateOperatorTokenInput_ok hvalid

theorem TokenService.Trail.advance (h : s.Trail) {i : Nat} {draw : Draw} {call next : TokenCall κ}
    (hcall : s.calls[i]? = some call) (hstep : s.advance digest draw call = some (next, t)) :
    { t with calls := s.calls.set i next }.Trail ∧ Extends s.tables t.tables := by
  have hmem := List.mem_of_getElem? hcall
  have hanswer : ∀ answer : TokenAnswer κ,
      { s with calls := s.calls.set i (.answered answer) }.Trail ∧ Extends s.tables s.tables :=
    fun answer => ⟨h.move h.trail (.refl _) h.known (by simp [TokenCall.input])
      (by simp [TokenCall.issued]), .refl _⟩
  cases call with
  | creating input plaintext =>
    simp only [TokenService.advance] at hstep
    split at hstep
    · obtain ⟨rfl, rfl⟩ := by simpa using hstep
      exact hanswer _
    · rename_i tables row htables
      obtain ⟨rfl, rfl⟩ := by simpa using hstep
      obtain ⟨hnew, rfl, hrows, haudit⟩ := createOperatorApiToken_cases htables
      have hextends : Extends s.tables tables := extends_append hrows haudit
      have htrail := h.trail.event
        ⟨input.actor, .create input.name input.scopes input.expiresAt, input.id⟩
        (some (insertedRow draw.databaseNow input (digest plaintext))) rfl h.trail.valid
        (by simpa [TokenAudit.ended] using h.trail.revoked) (by simp [TokenAudit.ended]) rfl
        (fun row hrow => by
          obtain rfl := Option.some.inj hrow
          exact ⟨not_mem_ids fun old hold => (hnew old hold).1, rfl, h.inputs _ hmem input rfl⟩)
      refine ⟨h.move (htrail.of_eq hrows haudit) hextends (h.later hextends) ?_ ?_, hextends⟩
      · simp [TokenCall.input]
      · intro record hrecord
        obtain rfl := Option.some.inj hrecord
        exact ⟨_, hrows ▸ List.mem_append_right _ List.mem_cons_self, rfl⟩
  | reading headers tokenId request =>
    obtain ⟨rfl, rfl⟩ := by simpa [TokenService.advance] using hstep
    refine ⟨h.move h.trail (.refl _) h.known (fun input hinput => ?_) fun record hrecord => ?_,
      .refl _⟩
    · exact readCall_input digest s.state s.tables draw headers tokenId request hinput
    · rw [(readCall_places digest s.state s.tables draw headers tokenId request).1] at hrecord
      cases hrecord
  | rotating tokenId input plaintext =>
    simp only [TokenService.advance] at hstep
    split at hstep
    · obtain ⟨rfl, rfl⟩ := by simpa using hstep
      exact hanswer _
    · obtain ⟨rfl, rfl⟩ := by simpa using hstep
      exact hanswer _
    · rename_i tables row htables
      obtain ⟨rfl, rfl⟩ := by simpa using hstep
      obtain ⟨hactive, hnew, rfl, hrows, haudit⟩ := rotateOperatorApiToken_cases htables
      have hextends : Extends s.tables tables := extends_revokeRow hrows haudit
      obtain ⟨hvalid, hrevoked, hended⟩ := h.trail.revokeRow draw.databaseNow
        ⟨input.actor, .rotate input.id input.name input.scopes input.expiresAt, tokenId⟩ hactive
        rfl
      have htrail := h.trail.event _
        (some (insertedRow draw.databaseNow input (digest plaintext)))
        (ids_revokeRow draw.databaseNow tokenId) hvalid hrevoked hended rfl
        (fun row hrow => by
          obtain rfl := Option.some.inj hrow
          rw [← ids_revokeRow draw.databaseNow tokenId]
          exact ⟨not_mem_ids fun old hold => (hnew old hold).1, rfl, h.inputs _ hmem input rfl⟩)
      refine ⟨h.move (htrail.of_eq hrows haudit) hextends (h.later hextends) ?_ ?_, hextends⟩
      · simp [TokenCall.input]
      · intro record hrecord
        obtain rfl := Option.some.inj hrecord
        exact ⟨_, hrows ▸ List.mem_append_right _ List.mem_cons_self, rfl⟩
  | revoking tokenId actor =>
    simp only [TokenService.advance] at hstep
    split at hstep
    · obtain ⟨rfl, rfl⟩ := by simpa using hstep
      exact hanswer _
    · rename_i tables htables
      obtain ⟨rfl, rfl⟩ := by simpa using hstep
      obtain ⟨hactive, hrows, haudit⟩ := revokeOperatorApiToken_cases htables
      have hextends : Extends s.tables tables :=
        extends_revokeRow (hrows.trans (List.append_nil _).symm) haudit
      obtain ⟨hvalid, hrevoked, hended⟩ := h.trail.revokeRow draw.databaseNow
        ⟨actor, .revoke, tokenId⟩ hactive rfl
      have htrail := h.trail.event _ none (ids_revokeRow draw.databaseNow tokenId) hvalid hrevoked
        hended rfl (by simp)
      refine ⟨h.move (htrail.of_eq (hrows.trans (List.append_nil _).symm) haudit) hextends
        (h.later hextends) ?_ ?_, hextends⟩
      · simp [TokenCall.input]
      · simp [TokenCall.issued]
  | forgetting tokenId issued answer =>
    obtain ⟨rfl, rfl⟩ := by simpa [TokenService.advance] using hstep
    refine ⟨h.move h.trail (.refl _) (fun key record hlookup => ?_) ?_ ?_, .refl _⟩
    · exact h.known key record (KeyMap.lookup_retain_eq_some.mp hlookup).1
    · cases issued <;> simp [TokenCall.input]
    · intro record hrecord
      refine h.issued _ hmem record ?_
      cases issued with
      | none => cases hrecord
      | some record => exact hrecord
  | remembering record answer =>
    obtain ⟨rfl, rfl⟩ := by simpa [TokenService.advance] using hstep
    refine ⟨h.move h.trail (.refl _) (fun key other hlookup => ?_) (by simp [TokenCall.input])
      (by simp [TokenCall.issued]), .refl _⟩
    rcases KeyMap.lookup_insert_eq_some.mp hlookup with ⟨rfl, rfl⟩ | ⟨-, hlookup⟩
    · exact ⟨rfl, h.issued _ hmem _ rfl⟩
    · exact h.known key other hlookup
  | answered answer => cases hstep
  | dropped => cases hstep

/-- The rest of the service changes, and the manager may forget. -/
theorem TokenService.Trail.of_known (h : s.Trail) {state : AppState κ} {calls : List (TokenCall κ)}
    (utcNow : Time)
    (hknown : ∀ key record, state.auth.operatorTokens.lookup key = some record →
      s.state.auth.operatorTokens.lookup key = some record)
    (hcalls : ∀ call ∈ calls, call ∈ s.calls ∨ call.issued = none ∧
      ∀ input, call.input = some input → ValidToken input.name input.scopes) :
    { s with state, calls, utcNow }.Trail := by
  refine ⟨h.trail, fun key record hlookup => h.known key record (hknown key record hlookup),
    fun call hcall => ?_, fun call hcall record hrecord => ?_⟩
  · exact (hcalls call hcall).elim (h.inputs call) fun hnew => hnew.2
  · rcases hcalls call hcall with hold | ⟨hnone, -⟩
    · exact h.issued call hold record hrecord
    · rw [hnone] at hrecord
      cases hrecord

/-- A request lets the manager forget only. -/
theorem operatorToken_authorizeWithScope {auth : AuthInner κ} {now utcNow : Time}
    {headers : HeaderMap} {requireCsrf : Bool} {requiredScope : Option String} {key : κ}
    {record : OperatorTokenRecord κ}
    (h : (auth.authorizeWithScope digest now utcNow headers requireCsrf
      requiredScope).1.operatorTokens.lookup key = some record) :
    auth.operatorTokens.lookup key = some record := by
  rcases operatorTokens_authorizeWithScope digest auth now utcNow headers requireCsrf
    requiredScope with heq | heq
  · rwa [heq] at h
  · rw [heq] at h
    exact (KeyMap.lookup_retain_eq_some.mp h).1

theorem operatorToken_requireScope {state : AppState κ} {clock later : Clock} {headers : HeaderMap}
    {scope : String} {key : κ} {record : OperatorTokenRecord κ}
    (h : (state.requireScope digest clock later headers scope
      true).1.auth.operatorTokens.lookup key = some record) :
    state.auth.operatorTokens.lookup key = some record := by
  have hfirst := fun (hlookup : (state.auth.authorizeWithScope digest clock.now clock.utcNow headers
    true (some scope)).1.operatorTokens.lookup key = some record) =>
    operatorToken_authorizeWithScope hlookup
  unfold AppState.requireScope at h
  split at h
  · rename_i heq
    rw [heq] at hfirst
    exact hfirst h
  · rename_i heq
    rw [heq] at hfirst
    exact hfirst (operatorToken_authorizeWithScope h)

/-- A handler begins with a refusal or with its first place. -/
theorem TokenService.Trail.begin (h : s.Trail) {clock later : Clock} {headers : HeaderMap}
    {call : AppState κ → TokenCall κ} (hissued : ∀ state, (call state).issued = none)
    (hinput : ∀ state input, (call state).input = some input →
      ValidToken input.name input.scopes) : (s.begin digest clock later headers call).Trail := by
  have hplace : ∀ (refused : Option Response) (state : AppState κ) (place : TokenCall κ),
      place = (refused.map fun response => .answered (.response response)).getD (call state) →
      place.issued = none ∧
        ∀ input, place.input = some input → ValidToken input.name input.scopes := by
    rintro refused state place rfl
    cases refused with
    | none => exact ⟨hissued state, hinput state⟩
    | some response => exact ⟨rfl, by simp [TokenCall.input]⟩
  refine h.of_known _ (fun key record hlookup => operatorToken_requireScope hlookup) ?_
  intro other hother
  rcases List.mem_append.mp hother with hother | hother
  · exact .inl hother
  · exact .inr (hplace _ _ other (List.mem_singleton.mp hother))

theorem TokenService.Trail.restart (h : s.Trail) (state : AppState κ) :
    { s with
      state := { state with auth := state.auth.loadOperatorTokens s.tables.activeRecords }
      calls := [] }.Trail := by
  have hknown : ∀ (records : List (OperatorTokenRecord κ))
      (loaded : AList fun _ : κ => OperatorTokenRecord κ),
      (∀ record ∈ records, ∃ row ∈ s.tables.rows, row.toRecord = record) →
      (∀ key record, loaded.lookup key = some record →
        record.tokenHash = key ∧ ∃ row ∈ s.tables.rows, row.toRecord = record) →
      ∀ key record, (records.foldl (fun tokens record => tokens.insert record.tokenHash record)
        loaded).lookup key = some record →
        record.tokenHash = key ∧ ∃ row ∈ s.tables.rows, row.toRecord = record := by
    intro records
    induction records with
    | nil => exact fun loaded _ hloaded => hloaded
    | cons first rest ih =>
      intro loaded hrecords hloaded
      refine ih _ (fun record hrecord => hrecords record (List.mem_cons_of_mem _ hrecord)) ?_
      intro key record hlookup
      rcases KeyMap.lookup_insert_eq_some.mp hlookup with ⟨rfl, rfl⟩ | ⟨-, hlookup⟩
      · exact ⟨rfl, hrecords _ List.mem_cons_self⟩
      · exact hloaded key record hlookup
  refine ⟨h.trail, hknown _ _ (fun record hrecord => ?_) (by simp), by simp, by simp⟩
  obtain ⟨row, hrow, rfl⟩ := List.mem_map.mp hrecord
  exact ⟨row, (List.mem_filter.mp hrow).1, rfl⟩

theorem TokenService.Trail.step (h : s.Trail) {op : TokenOp κ}
    (hstep : s.step digest op = some t) : t.Trail ∧ Extends s.tables t.tables := by
  cases op with
  | create clock later headers request random id =>
    obtain rfl := Option.some.inj hstep
    refine ⟨h.begin (fun state => ?_) fun state input hinput => ?_, .refl _⟩
    · exact (createCall_places digest state clock.now headers request random id).1
    · exact createCall_input digest state clock.now headers request random id hinput
  | rotate clock later headers tokenId request =>
    obtain rfl := Option.some.inj hstep
    refine ⟨h.begin (fun _ => (rotateCall_places headers tokenId request).1) ?_, .refl _⟩
    intro _ input hinput
    cases request with
    | none => cases hinput
    | some request => cases hinput
  | revoke clock later headers tokenId =>
    obtain rfl := Option.some.inj hstep
    exact ⟨h.begin (fun _ => rfl) (by simp [TokenCall.input]), .refl _⟩
  | advance i draw =>
    obtain ⟨call, hcall, hstep⟩ := Option.bind_eq_some_iff.mp hstep
    obtain ⟨⟨next, moved⟩, hnext, hstep⟩ := Option.bind_eq_some_iff.mp hstep
    obtain rfl := Option.some.inj hstep
    exact h.advance hcall hnext
  | drop i =>
    obtain rfl := Option.some.inj hstep
    refine ⟨h.move h.trail (.refl _) h.known ?_ ?_, .refl _⟩
    · simp [TokenCall.input]
    · simp [TokenCall.issued]
  | authorize clock headers requireCsrf requiredScope =>
    obtain rfl := Option.some.inj hstep
    refine ⟨h.of_known _ (fun key record hlookup => ?_) fun call hcall => .inl hcall, .refl _⟩
    exact operatorToken_authorizeWithScope hlookup
  | change state =>
    obtain rfl := Option.some.inj hstep
    refine ⟨h.of_known _ (fun key record hlookup => hlookup) fun call hcall => .inl hcall, .refl _⟩
  | restart state =>
    obtain rfl := Option.some.inj hstep
    exact ⟨h.restart state, .refl _⟩

theorem trail_of_reachable {state : AppState κ} (h : (tokenMachine digest state).Reachable s) :
    s.Trail := by
  refine h.invariant ?_ fun s op t hs _ hstep => (hs.step hstep).1
  refine ⟨⟨List.nodup_nil, rfl, List.nodup_nil, ?_, History.follows_nil _, ?_⟩, ?_, ?_, ?_⟩
  · simp [tokenMachine]
  · simp [tokenMachine]
  · simp [tokenMachine, AuthInner.loadOperatorTokens]
  · simp [tokenMachine]
  · simp [tokenMachine]

theorem extends_of_leads {state : AppState κ} (h : (tokenMachine digest state).Reachable s)
    (hleads : (tokenMachine digest state).LeadsWhere (fun _ _ => True) s t) :
    Extends s.tables t.tables :=
  hleads.relates (R := fun t => Extends s.tables t.tables) h (.refl _)
    fun _ _ _ hreach hextends _ hstep => hextends.trans ((trail_of_reachable hreach).step hstep).2

end Runs

/-- In every run, also where handlers are lost or revocations overtake them: the audit trail tells
of the beginning of every token in the order of the rows, and of the end of exactly the revoked
ones, once and behind the beginning. Names and scopes of every row are valid. Rows and events stay,
and a revocation is never taken back. And whoever is accepted with an operator token shows a stored
one that has not expired and grants the scope. -/
theorem token_trail {κ : Type} [DecidableEq κ] (digest : String → κ) (state : AppState κ)
    (s : TokenService κ) (h : (tokenMachine digest state).Reachable s) :
    (s.tables.audit.filterMap TokenAudit.created = s.tables.rows.map OperatorApiTokenRow.id ∧
      (s.tables.rows.map OperatorApiTokenRow.id).Nodup) ∧
    (s.tables.audit.filterMap TokenAudit.ended).Nodup ∧
    (∀ row ∈ s.tables.rows, ValidToken row.name row.scopes ∧
      (row.revokedAt ≠ none ↔ row.id ∈ s.tables.audit.filterMap TokenAudit.ended)) ∧
    (∀ before event after, s.tables.audit = before ++ event :: after →
      ∀ id ∈ event.ended, id ∈ before.filterMap TokenAudit.created) ∧
    (∀ t, (tokenMachine digest state).LeadsWhere (fun _ _ => True) s t →
      Extends s.tables t.tables) ∧
    ∀ utcNow headers scope,
      (s.state.auth.authorizeOperatorToken digest utcNow headers scope).2 = true →
      ∃ token, bearerToken headers = some token ∧ ∃ row ∈ s.tables.rows,
        row.tokenHash = digest token ∧ isLive utcNow row.expiresAt = true ∧
        scopeGranted row.scopes scope = true := by
  obtain ⟨htrail, hknown, -, -⟩ := trail_of_reachable h
  refine ⟨⟨htrail.created, htrail.ids⟩, htrail.once,
    fun row hrow => ⟨htrail.valid row hrow, htrail.revoked row hrow⟩, ?_,
    fun t hleads => extends_of_leads h hleads, ?_⟩
  · intro before event after hsplit id hended
    exact htrail.follows before event after hsplit id hended
  · intro utcNow headers scope haccepted
    obtain ⟨token, htoken, record, hlookup, hlive, hscope⟩ := accepted_cases haccepted
    obtain ⟨hkey, row, hrow, rfl⟩ := hknown _ record hlookup
    exact ⟨token, htoken, row, hrow, hkey, hlive, hscope⟩

theorem token_trail_rotated : ∃ s t : TokenService String,
    s.tables.audit.filterMap TokenAudit.created = [1] ∧ Extends s.tables t.tables ∧
    t.tables.audit.filterMap TokenAudit.created = [1, 2] ∧
    1 ∈ t.tables.audit.filterMap TokenAudit.ended ∧
    2 ∉ t.tables.audit.filterMap TokenAudit.ended := by
  let ids (s : TokenService String) :=
    s.tables.rows.map fun row => (row.id, row.revokedAt.isSome)
  obtain ⟨s, t, hreach, hleads, hst⟩ := (tokenMachine id openState).exists_leadsWhere_of_run
    (fun _ _ => True) (fun _ _ => true) (tokenRotation.take 3) (tokenRotation.drop 3)
    (fun s t => ids s = [(1, false)] ∧ ids t = [(1, true), (2, false)])
    (fun _ _ _ => trivial) (by decide +kernel)
  obtain ⟨hs, ht⟩ := of_decide_eq_true hst
  obtain ⟨⟨hcreated, -⟩, -, -, -, hextends, -⟩ := token_trail id openState s hreach
  obtain ⟨⟨hcreated', -⟩, -, hrows, -⟩ := token_trail id openState t (hreach.leads hleads)
  have hids : ∀ u : TokenService String,
      u.tables.rows.map OperatorApiTokenRow.id = (ids u).map Prod.fst := by
    intro u
    rw [List.map_map]
    rfl
  have hrow : ∀ {id revoked}, (id, revoked) ∈ ids t →
      (id ∈ t.tables.audit.filterMap TokenAudit.ended ↔ revoked = true) := by
    intro id revoked hmem
    obtain ⟨row, hrow, hvalues⟩ := List.mem_map.mp hmem
    obtain ⟨rfl, rfl⟩ := Prod.mk.inj hvalues
    rw [← (hrows row hrow).2, Option.isSome_iff_ne_none]
  refine ⟨s, t, ?_, hextends t hleads, ?_, ?_, ?_⟩
  · rw [hcreated, hids, hs]
    rfl
  · rw [hcreated', hids, ht]
    rfl
  · exact (hrow (by simp [ht])).mpr rfl
  · intro hended
    cases (@hrow 2 false (by simp [ht])).mp hended

end IptvRelay.Auth
