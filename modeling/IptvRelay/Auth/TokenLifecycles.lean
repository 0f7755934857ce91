import IptvRelay.Auth.OperatorTokens

/-!
# The manager agrees with the stored tokens

The handlers write a token to the database first and tell the manager behind it. In between, what
the manager still has to learn and to forget is in the places of the handlers.
-/

namespace IptvRelay.Auth

open Transition

section Tables

variable {κ : Type} [DecidableEq κ] {tables tables' : TokenTables κ} {now : Time}
  {input : TokenInput} {tokenHash : κ} {row : OperatorApiTokenRow κ}

/-- The row of an insert. -/
def insertedRow (now : Time) (input : TokenInput) (tokenHash : κ) : OperatorApiTokenRow κ where
  id := input.id
  name := input.name
  tokenHash := tokenHash
  scopes := input.scopes
  expiresAt := input.expiresAt
  createdBy := input.actor
  createdAt := now

theorem insertRow_cases (h : tables.insertRow now input tokenHash = some (tables', row)) :
    (∀ old ∈ tables.rows, old.id ≠ input.id ∧ old.tokenHash ≠ tokenHash) ∧
      row = insertedRow now input tokenHash ∧
      tables' = { tables with rows := tables.rows ++ [row] } := by
  unfold TokenTables.insertRow at h
  split at h
  · cases h
  · rename_i hnew
    obtain ⟨rfl, rfl⟩ := by simpa using h
    push Not at hnew
    exact ⟨hnew.1, rfl, rfl⟩

theorem createOperatorApiToken_cases
    (h : tables.createOperatorApiToken now input tokenHash = some (tables', row)) :
    (∀ old ∈ tables.rows, old.id ≠ input.id ∧ old.tokenHash ≠ tokenHash) ∧
      row = insertedRow now input tokenHash ∧ tables'.rows = tables.rows ++ [row] ∧
      tables'.audit = tables.audit ++
        [⟨input.actor, .create input.name input.scopes input.expiresAt, input.id⟩] := by
  obtain ⟨⟨inserted, new⟩, hinsert, heq⟩ := Option.bind_eq_some_iff.mp h
  obtain ⟨rfl, rfl⟩ := by simpa using heq
  obtain ⟨hnew, hrow, rfl⟩ := insertRow_cases hinsert
  exact ⟨hnew, hrow, rfl, rfl⟩

theorem rotateOperatorApiToken_cases {oldId : Nat}
    (h : tables.rotateOperatorApiToken now oldId input tokenHash = some (tables', some row)) :
    tables.rows.any (OperatorApiTokenRow.isActive oldId) = true ∧
      (∀ old ∈ (tables.revokeRow now oldId).rows,
        old.id ≠ input.id ∧ old.tokenHash ≠ tokenHash) ∧
      row = insertedRow now input tokenHash ∧
      tables'.rows = (tables.revokeRow now oldId).rows ++ [row] ∧
      tables'.audit = tables.audit ++
        [⟨input.actor, .rotate input.id input.name input.scopes input.expiresAt, oldId⟩] := by
  unfold TokenTables.rotateOperatorApiToken at h
  split at h
  · rename_i hactive
    obtain ⟨⟨inserted, new⟩, hinsert, heq⟩ := Option.bind_eq_some_iff.mp h
    obtain ⟨rfl, rfl⟩ := by simpa using heq
    obtain ⟨hnew, hrow, rfl⟩ := insertRow_cases hinsert
    exact ⟨hactive, hnew, hrow, rfl, rfl⟩
  · simp at h

omit [DecidableEq κ] in
theorem revokeOperatorApiToken_cases {id : Nat} {actor : String}
    (h : tables.revokeOperatorApiToken now id actor = (tables', true)) :
    tables.rows.any (OperatorApiTokenRow.isActive id) = true ∧
      tables'.rows = (tables.revokeRow now id).rows ∧
      tables'.audit = tables.audit ++ [⟨actor, .revoke, id⟩] := by
  unfold TokenTables.revokeOperatorApiToken at h
  split at h
  · rename_i hactive
    obtain rfl := (Prod.mk.inj h).1
    exact ⟨hactive, rfl, rfl⟩
  · simp at h

omit [DecidableEq κ] in
/-- A row after a revocation: another one as it was, or the one that has been revoked. -/
theorem revokeRow_cases {id : Nat} (h : row ∈ (tables.revokeRow now id).rows) :
    (row ∈ tables.rows ∧ (row.id = id → row.revokedAt ≠ none)) ∨
    ∃ old ∈ tables.rows, old.id = id ∧ old.revokedAt = none ∧
      row = { old with revokedAt := some now } := by
  rcases Table.update_cases h with ⟨hrow, hinactive⟩ | ⟨old, hold, hactive, rfl⟩
  · refine .inl ⟨hrow, fun hid hnone => ?_⟩
    simp [OperatorApiTokenRow.isActive, hid, hnone] at hinactive
  · obtain ⟨hid, hnone⟩ := of_decide_eq_true hactive
    exact .inr ⟨old, hold, hid, hnone, rfl⟩

omit [DecidableEq κ] in
/-- A row that is revoked or has another identifier is kept. -/
theorem mem_revokeRow_of_kept (now : Time) {id : Nat} (h : row ∈ tables.rows)
    (hkept : row.id ≠ id ∨ row.revokedAt ≠ none) : row ∈ (tables.revokeRow now id).rows := by
  have hmem := Table.mem_update_of_mem (p := OperatorApiTokenRow.isActive id)
    (f := fun row => { row with revokedAt := some now }) h
  rwa [if_neg] at hmem
  rcases hkept with hkept | hkept <;> simp [OperatorApiTokenRow.isActive, hkept]

omit [DecidableEq κ] in
theorem mem_revokeRow_of_active (now : Time) {id : Nat} (h : row ∈ tables.rows)
    (hactive : row.isActive id = true) :
    { row with revokedAt := some now } ∈ (tables.revokeRow now id).rows := by
  have hmem := Table.mem_update_of_mem (p := OperatorApiTokenRow.isActive id)
    (f := fun row => { row with revokedAt := some now }) h
  rwa [if_pos hactive] at hmem

omit [DecidableEq κ] in
@[simp] theorem ids_revokeRow (now : Time) (id : Nat) :
    (tables.revokeRow now id).rows.map OperatorApiTokenRow.id =
      tables.rows.map OperatorApiTokenRow.id :=
  Table.map_update fun _ _ => rfl

omit [DecidableEq κ] in
@[simp] theorem hashes_revokeRow (now : Time) (id : Nat) :
    (tables.revokeRow now id).rows.map OperatorApiTokenRow.tokenHash =
      tables.rows.map OperatorApiTokenRow.tokenHash :=
  Table.map_update fun _ _ => rfl

end Tables

/-! ## Agreement -/

/-- A token that has not expired. -/
def isLive (utcNow : Time) (expiresAt : Option Time) : Bool :=
  expiresAt.all fun expiresAt => utcNow < expiresAt

theorem isLive_mono {earlier later : Time} {expiresAt : Option Time} (hle : earlier ≤ later)
    (h : isLive later expiresAt = true) : isLive earlier expiresAt = true := by
  cases expiresAt with
  | none => rfl
  | some expiresAt => exact decide_eq_true (hle.trans_lt (of_decide_eq_true h))

/-- The manager holds the active rows, but for those that it still has to learn of, and rows that
it still has to forget. -/
structure TokensOk {κ : Type} [DecidableEq κ] (rows : List (OperatorApiTokenRow κ))
    (tokens : AList fun _ : κ => OperatorTokenRecord κ) (adding : OperatorTokenRecord κ → Prop)
    (forgetting : Nat → Prop) (utcNow : Time) : Prop where
  ids : (rows.map OperatorApiTokenRow.id).Nodup
  hashes : (rows.map OperatorApiTokenRow.tokenHash).Nodup
  known : ∀ key record, tokens.lookup key = some record → ∃ row ∈ rows, row.toRecord = record ∧
    row.tokenHash = key ∧ (row.revokedAt = none ∨ forgetting row.id)
  kept : ∀ row ∈ rows, row.revokedAt = none → isLive utcNow row.expiresAt = true →
    ¬adding row.toRecord → tokens.lookup row.tokenHash = some row.toRecord
  adds : ∀ record, adding record → ∃ row ∈ rows, row.toRecord = record ∧ row.revokedAt = none
  forgets : ∀ id, forgetting id → ∃ row ∈ rows, row.id = id ∧ row.revokedAt ≠ none

namespace TokensOk

variable {κ : Type} [DecidableEq κ] {rows : List (OperatorApiTokenRow κ)}
  {tokens : AList fun _ : κ => OperatorTokenRecord κ}
  {adding adding' : OperatorTokenRecord κ → Prop} {forgetting forgetting' : Nat → Prop}
  {utcNow : Time}

/-- The places change without what they are to tell the manager. -/
theorem congr (h : TokensOk rows tokens adding forgetting utcNow)
    (hadding : ∀ record, adding' record ↔ adding record)
    (hforgetting : ∀ id, forgetting' id ↔ forgetting id) :
    TokensOk rows tokens adding' forgetting' utcNow := by
  obtain rfl : adding' = adding := funext fun record => propext (hadding record)
  obtain rfl : forgetting' = forgetting := funext fun id => propext (hforgetting id)
  exact h

theorem insert (h : TokensOk rows tokens adding forgetting utcNow) {row : OperatorApiTokenRow κ}
    (hnew : ∀ old ∈ rows, old.id ≠ row.id ∧ old.tokenHash ≠ row.tokenHash)
    (hactive : row.revokedAt = none)
    (hadding : ∀ record, adding' record ↔ adding record ∨ record = row.toRecord) :
    TokensOk (rows ++ [row]) tokens adding' forgetting utcNow := by
  have hold : ∀ {old}, old ∈ rows → old ∈ rows ++ [row] := fun hmem => List.mem_append_left _ hmem
  refine ⟨?_, ?_, ?_, ?_, ?_, ?_⟩
  · rw [List.map_append, List.map_singleton]
    refine List.nodup_append.mpr ⟨h.ids, List.nodup_singleton _, ?_⟩
    intro id hid other hother
    obtain ⟨old, hmem, rfl⟩ := List.mem_map.mp hid
    rw [List.mem_singleton.mp hother]
    exact (hnew old hmem).1
  · rw [List.map_append, List.map_singleton]
    refine List.nodup_append.mpr ⟨h.hashes, List.nodup_singleton _, ?_⟩
    intro hash hhash other hother
    obtain ⟨old, hmem, rfl⟩ := List.mem_map.mp hhash
    rw [List.mem_singleton.mp hother]
    exact (hnew old hmem).2
  · intro key record hlookup
    obtain ⟨old, hmem, hrest⟩ := h.known key record hlookup
    exact ⟨old, hold hmem, hrest⟩
  · intro other hother hnone hlive hpending
    rcases List.mem_append.mp hother with hmem | hmem
    · exact h.kept other hmem hnone hlive fun hadd => hpending ((hadding _).mpr (.inl hadd))
    · rw [List.mem_singleton.mp hmem] at hpending
      exact absurd ((hadding _).mpr (.inr rfl)) hpending
  · intro record hadd
    rcases (hadding record).mp hadd with hadd | rfl
    · obtain ⟨old, hmem, hrest⟩ := h.adds record hadd
      exact ⟨old, hold hmem, hrest⟩
    · exact ⟨row, List.mem_append_right _ List.mem_cons_self, rfl, hactive⟩
  · intro id hforget
    obtain ⟨old, hmem, hrest⟩ := h.forgets id hforget
    exact ⟨old, hold hmem, hrest⟩

theorem revokeRow {tables : TokenTables κ} (now : Time) {id : Nat}
    (h : TokensOk tables.rows tokens adding forgetting utcNow)
    (hactive : tables.rows.any (OperatorApiTokenRow.isActive id) = true)
    (hpending : ∀ record, adding record → record.id ≠ id)
    (hforgetting : ∀ other, forgetting' other ↔ forgetting other ∨ other = id) :
    TokensOk (tables.revokeRow now id).rows tokens adding forgetting' utcNow := by
  refine ⟨?_, ?_, ?_, ?_, ?_, ?_⟩
  · rw [ids_revokeRow]
    exact h.ids
  · rw [hashes_revokeRow]
    exact h.hashes
  · intro key record hlookup
    obtain ⟨row, hmem, rfl, rfl, hstate⟩ := h.known key record hlookup
    by_cases hrevoked : row.id = id ∧ row.revokedAt = none
    · have hmem' := mem_revokeRow_of_active now hmem (decide_eq_true hrevoked)
      exact ⟨_, hmem', rfl, rfl, .inr ((hforgetting _).mpr (.inr hrevoked.1))⟩
    · refine ⟨row, mem_revokeRow_of_kept now hmem (not_and_or.mp hrevoked), rfl, rfl, ?_⟩
      exact hstate.imp_right fun hforget => (hforgetting _).mpr (.inl hforget)
  · intro row hmem hnone hlive hadd
    rcases revokeRow_cases hmem with ⟨hmem, -⟩ | ⟨old, -, -, -, rfl⟩
    · exact h.kept row hmem hnone hlive hadd
    · cases hnone
  · intro record hadd
    obtain ⟨row, hmem, rfl, hnone⟩ := h.adds record hadd
    exact ⟨row, mem_revokeRow_of_kept now hmem (.inl (hpending _ hadd)), rfl, hnone⟩
  · intro other hforget
    rcases (hforgetting other).mp hforget with hforget | rfl
    · obtain ⟨row, hmem, hid, hrevoked⟩ := h.forgets other hforget
      exact ⟨row, mem_revokeRow_of_kept now hmem (.inr hrevoked), hid, hrevoked⟩
    · obtain ⟨row, hmem, hrow⟩ := List.any_eq_true.mp hactive
      exact ⟨_, mem_revokeRow_of_active now hmem hrow, (of_decide_eq_true hrow).1, by simp⟩

/-- The manager forgets a token that has been revoked. -/
theorem forget (h : TokensOk rows tokens adding forgetting utcNow) (id : Nat)
    (hid : forgetting id) (hless : ∀ other, forgetting' other → forgetting other)
    (hmore : ∀ other, forgetting other → other = id ∨ forgetting' other) :
    TokensOk rows (KeyMap.retain (fun record => record.id ≠ id) tokens) adding forgetting'
      utcNow := by
  refine ⟨h.ids, h.hashes, ?_, ?_, h.adds, fun other hother => h.forgets other (hless other hother)⟩
  · intro key record hlookup
    obtain ⟨hlookup, hne⟩ := KeyMap.lookup_retain_eq_some.mp hlookup
    obtain ⟨row, hmem, rfl, hkey, hstate⟩ := h.known key record hlookup
    refine ⟨row, hmem, rfl, hkey, hstate.imp_right fun hforget => ?_⟩
    exact (hmore _ hforget).resolve_left (of_decide_eq_true hne)
  · intro row hmem hnone hlive hadd
    refine KeyMap.lookup_retain_eq_some.mpr ⟨h.kept row hmem hnone hlive hadd, ?_⟩
    refine decide_eq_true fun heq => ?_
    obtain ⟨old, hold, hold', hrevoked⟩ := h.forgets id hid
    obtain rfl := Table.eq_of_key h.ids hold hmem (hold'.trans heq.symm)
    exact hrevoked hnone

/-- The manager learns of a token. -/
theorem remember (h : TokensOk rows tokens adding forgetting utcNow)
    (record : OperatorTokenRecord κ) (hrecord : adding record)
    (hless : ∀ other, adding' other → adding other)
    (hmore : ∀ other, adding other → other = record ∨ adding' other) :
    TokensOk rows (tokens.insert record.tokenHash record) adding' forgetting utcNow := by
  obtain ⟨own, hown, rfl, hactive⟩ := h.adds record hrecord
  refine ⟨h.ids, h.hashes, ?_, ?_, fun other hother => h.adds other (hless other hother), h.forgets⟩
  · intro key record hlookup
    rcases KeyMap.lookup_insert_eq_some.mp hlookup with ⟨rfl, rfl⟩ | ⟨-, hlookup⟩
    · exact ⟨own, hown, rfl, rfl, .inl hactive⟩
    · exact h.known key record hlookup
  · intro row hmem hnone hlive hadd
    by_cases hhash : row.tokenHash = own.tokenHash
    · obtain rfl := Table.eq_of_key h.hashes hmem hown hhash
      exact KeyMap.lookup_insert_eq_some.mpr (.inl ⟨rfl, rfl⟩)
    · refine KeyMap.lookup_insert_eq_some.mpr (.inr ⟨hhash, h.kept row hmem hnone hlive ?_⟩)
      intro hold
      rcases hmore _ hold with heq | hnew
      · exact hhash (congrArg OperatorTokenRecord.tokenHash heq)
      · exact hadd hnew

/-- A request lets the manager forget the tokens that have expired. -/
theorem retain (h : TokensOk rows tokens adding forgetting utcNow) {read later : Time}
    (hread : utcNow ≤ read) (hlater : read ≤ later) :
    TokensOk rows (KeyMap.retain (fun record => isLive read record.expiresAt) tokens) adding
      forgetting later := by
  refine ⟨h.ids, h.hashes, ?_, ?_, h.adds, h.forgets⟩
  · intro key record hlookup
    exact h.known key record (KeyMap.lookup_retain_eq_some.mp hlookup).1
  · intro row hmem hnone hlive hadd
    have hearlier := isLive_mono hlater hlive
    refine KeyMap.lookup_retain_eq_some.mpr ⟨?_, hearlier⟩
    exact h.kept row hmem hnone (isLive_mono hread hearlier) hadd

theorem later (h : TokensOk rows tokens adding forgetting utcNow) {later : Time}
    (hlater : utcNow ≤ later) : TokensOk rows tokens adding forgetting later :=
  ⟨h.ids, h.hashes, h.known, fun row hmem hnone hlive =>
    h.kept row hmem hnone (isLive_mono hlater hlive), h.adds, h.forgets⟩

/-- The entries of a table that is loaded from records with different hashes. -/
theorem lookup_load {records : List (OperatorTokenRecord κ)}
    (hnodup : (records.map OperatorTokenRecord.tokenHash).Nodup)
    (loaded : AList fun _ : κ => OperatorTokenRecord κ) (key : κ)
    (record : OperatorTokenRecord κ) :
    (records.foldl (fun tokens record => tokens.insert record.tokenHash record) loaded).lookup
        key = some record ↔
      (record ∈ records ∧ record.tokenHash = key) ∨
        (key ∉ records.map OperatorTokenRecord.tokenHash ∧ loaded.lookup key = some record) := by
  induction records generalizing loaded with
  | nil => simp
  | cons first rest ih =>
    obtain ⟨hnew, hrest⟩ := List.nodup_cons.mp hnodup
    rw [List.foldl_cons, ih hrest, KeyMap.lookup_insert_eq_some]
    constructor
    · rintro (⟨hmem, rfl⟩ | ⟨hkey, ⟨rfl, rfl⟩ | ⟨hne, hlookup⟩⟩)
      · exact .inl ⟨List.mem_cons_of_mem _ hmem, rfl⟩
      · exact .inl ⟨List.mem_cons_self, rfl⟩
      · exact .inr ⟨by simp [hne, hkey], hlookup⟩
    · rintro (⟨hmem, rfl⟩ | ⟨hkey, hlookup⟩)
      · rcases List.mem_cons.mp hmem with rfl | hmem
        · exact .inr ⟨hnew, .inl ⟨rfl, rfl⟩⟩
        · exact .inl ⟨hmem, rfl⟩
      · rw [List.map_cons, List.mem_cons, not_or] at hkey
        exact .inr ⟨hkey.2, .inr ⟨hkey.1, hlookup⟩⟩

/-- A new manager loads the active rows. -/
theorem load {tables : TokenTables κ} (h : TokensOk tables.rows tokens adding forgetting utcNow)
    (auth : AuthInner κ) (hadding : ∀ record, ¬adding' record)
    (hforgetting : ∀ id, ¬forgetting' id) :
    TokensOk tables.rows (auth.loadOperatorTokens tables.activeRecords).operatorTokens adding'
      forgetting' utcNow := by
  have hnodup : (tables.activeRecords.map OperatorTokenRecord.tokenHash).Nodup := by
    rw [TokenTables.activeRecords, List.map_map]
    exact h.hashes.sublist (List.filter_sublist.map _)
  have hlookup : ∀ key record,
      (auth.loadOperatorTokens tables.activeRecords).operatorTokens.lookup key = some record ↔
        record ∈ tables.activeRecords ∧ record.tokenHash = key := by
    intro key record
    rw [AuthInner.loadOperatorTokens, lookup_load hnodup]
    simp
  refine ⟨h.ids, h.hashes, ?_, ?_, fun record hadd => absurd hadd (hadding record),
    fun id hforget => absurd hforget (hforgetting id)⟩
  · intro key record hfound
    obtain ⟨hmem, rfl⟩ := (hlookup key record).mp hfound
    obtain ⟨row, hrow, rfl⟩ := List.mem_map.mp hmem
    obtain ⟨hrow, hactive⟩ := List.mem_filter.mp hrow
    exact ⟨row, hrow, rfl, rfl, .inl (of_decide_eq_true hactive)⟩
  · intro row hmem hnone _ _
    refine (hlookup _ _).mpr ⟨List.mem_map_of_mem ?_, rfl⟩
    exact List.mem_filter.mpr ⟨hmem, decide_eq_true hnone⟩

end TokensOk

/-! ## Steps -/

section Steps

variable {κ : Type} [DecidableEq κ] {digest : String → κ}

section Places

variable {calls : List (TokenCall κ)} {i : Nat} {call next : TokenCall κ} {P : TokenCall κ → Prop}

omit [DecidableEq κ] in
/-- The other places of a list in which one has moved. -/
theorem mem_set_of_mem (hcall : calls[i]? = some call) {other : TokenCall κ}
    (h : other ∈ calls) : other = call ∨ other ∈ calls.set i next := by
  obtain ⟨j, hj⟩ := List.mem_iff_getElem?.mp h
  by_cases hij : i = j
  · subst hij
    exact .inl (Option.some.inj (hj.symm.trans hcall))
  · exact .inr (List.mem_of_getElem? ((List.getElem?_set_ne hij).trans hj))

omit [DecidableEq κ] in
theorem mem_set_self (hcall : calls[i]? = some call) : next ∈ calls.set i next :=
  List.mem_of_getElem? (List.getElem?_set_self (List.getElem?_eq_some_iff.mp hcall).1)

omit [DecidableEq κ] in
theorem exists_set_iff (hcall : calls[i]? = some call) (hcase : P call → P next) :
    (∃ other ∈ calls.set i next, P other) ↔ (∃ other ∈ calls, P other) ∨ P next := by
  constructor
  · rintro ⟨other, hmem, hother⟩
    rcases List.mem_or_eq_of_mem_set hmem with hmem | rfl
    · exact .inl ⟨other, hmem, hother⟩
    · exact .inr hother
  · rintro (⟨other, hmem, hother⟩ | hnext)
    · rcases mem_set_of_mem hcall hmem with rfl | hmem
      · exact ⟨next, mem_set_self hcall, hcase hother⟩
      · exact ⟨other, hmem, hother⟩
    · exact ⟨next, mem_set_self hcall, hnext⟩

omit [DecidableEq κ] in
/-- A place that moves without a change of the condition. -/
theorem exists_set_same (hcall : calls[i]? = some call) (hsame : P next ↔ P call) :
    (∃ other ∈ calls.set i next, P other) ↔ ∃ other ∈ calls, P other := by
  rw [exists_set_iff hcall hsame.mpr, or_iff_left_iff_imp]
  exact fun hnext => ⟨call, List.mem_of_getElem? hcall, hsame.mp hnext⟩

omit [DecidableEq κ] in
/-- A place that loses the condition. -/
theorem exists_of_set (hnext : ¬P next) (h : ∃ other ∈ calls.set i next, P other) :
    ∃ other ∈ calls, P other := by
  obtain ⟨other, hmem, hother⟩ := h
  rcases List.mem_or_eq_of_mem_set hmem with hmem | rfl
  · exact ⟨other, hmem, hother⟩
  · exact absurd hother hnext

omit [DecidableEq κ] in
theorem exists_set_or (hcall : calls[i]? = some call) (h : ∃ other ∈ calls, P other) :
    P call ∨ ∃ other ∈ calls.set i next, P other := by
  obtain ⟨other, hmem, hother⟩ := h
  rcases mem_set_of_mem hcall hmem with rfl | hmem
  · exact .inl hother
  · exact .inr ⟨other, hmem, hother⟩

end Places

/-- What the handlers still have to tell the manager. -/
def TokenService.Ok (s : TokenService κ) : Prop :=
  TokensOk s.tables.rows s.state.auth.operatorTokens
    (fun record => ∃ call ∈ s.calls, call.issued = some record)
    (fun id => ∃ call ∈ s.calls, call.forgets = some id) s.utcNow

variable {s t : TokenService κ}

/-- A handler moves on, and what it has to tell the manager stays. -/
theorem TokenService.Ok.move (h : s.Ok) {i : Nat} {call next : TokenCall κ}
    (hcall : s.calls[i]? = some call) (hissued : next.issued = call.issued)
    (hforgets : next.forgets = call.forgets) : { s with calls := s.calls.set i next }.Ok :=
  TokensOk.congr h (fun _ => exists_set_same hcall (by rw [hissued]))
    fun _ => exists_set_same hcall (by rw [hforgets])

theorem readCall_places (digest : String → κ) (state : AppState κ) (tables : TokenTables κ)
    (draw : Draw) (headers : HeaderMap) (tokenId : Nat) (request : RotateOperatorApiTokenRequest) :
    (readCall digest state tables draw headers tokenId request).issued = none ∧
      (readCall digest state tables draw headers tokenId request).forgets = none := by
  unfold readCall
  split
  · exact ⟨rfl, rfl⟩
  · split
    · exact ⟨rfl, rfl⟩
    · split
      · exact ⟨rfl, rfl⟩
      · exact ⟨rfl, rfl⟩

theorem TokenService.Ok.advance (h : s.Ok) {i : Nat} {draw : Draw} {call next : TokenCall κ}
    (hcall : s.calls[i]? = some call)
    (horderly : ∀ id ∈ call.ends, ∀ other ∈ s.calls, other.adds ≠ some id)
    (hstep : s.advance digest draw call = some (next, t)) :
    { t with calls := s.calls.set i next }.Ok := by
  have hpending : ∀ {id}, call.ends = some id → ∀ record,
      (∃ other ∈ s.calls, other.issued = some record) → record.id ≠ id := by
    rintro id hid record ⟨other, hmem, hissued⟩ rfl
    exact horderly record.id hid other hmem (by rw [TokenCall.adds, hissued, Option.map_some])
  cases call with
  | creating input plaintext =>
    simp only [TokenService.advance] at hstep
    split at hstep
    · obtain ⟨rfl, rfl⟩ := by simpa using hstep
      exact h.move hcall rfl rfl
    · rename_i tables row htables
      obtain ⟨rfl, rfl⟩ := by simpa using hstep
      obtain ⟨hnew, rfl, hrows, -⟩ := createOperatorApiToken_cases htables
      unfold TokenService.Ok
      rw [hrows]
      refine TokensOk.congr (TokensOk.insert h hnew rfl fun record => Iff.rfl) (fun record => ?_)
        fun id => exists_set_same hcall Iff.rfl
      rw [exists_set_iff hcall (by simp [TokenCall.issued])]
      simp [TokenCall.issued, eq_comm]
  | reading headers tokenId request =>
    obtain ⟨rfl, rfl⟩ := by simpa [TokenService.advance] using hstep
    have hplaces := readCall_places digest s.state s.tables draw headers tokenId request
    exact h.move hcall hplaces.1 hplaces.2
  | rotating tokenId input plaintext =>
    simp only [TokenService.advance] at hstep
    split at hstep
    · obtain ⟨rfl, rfl⟩ := by simpa using hstep
      exact h.move hcall rfl rfl
    · obtain ⟨rfl, rfl⟩ := by simpa using hstep
      exact h.move hcall rfl rfl
    · rename_i tables row htables
      obtain ⟨rfl, rfl⟩ := by simpa using hstep
      obtain ⟨hactive, hnew, rfl, hrows, -⟩ := rotateOperatorApiToken_cases htables
      unfold TokenService.Ok
      rw [hrows]
      have hrevoked := TokensOk.revokeRow draw.databaseNow h hactive (hpending rfl)
        fun other => Iff.rfl
      refine TokensOk.congr (hrevoked.insert hnew rfl fun record => Iff.rfl) (fun record => ?_)
        fun id => ?_
      · rw [exists_set_iff hcall (by simp [TokenCall.issued])]
        simp [TokenCall.issued, eq_comm]
      · rw [exists_set_iff hcall (by simp [TokenCall.forgets])]
        simp [TokenCall.forgets, eq_comm]
  | revoking tokenId actor =>
    simp only [TokenService.advance] at hstep
    split at hstep
    · obtain ⟨rfl, rfl⟩ := by simpa using hstep
      exact h.move hcall rfl rfl
    · rename_i tables htables
      obtain ⟨rfl, rfl⟩ := by simpa using hstep
      obtain ⟨hactive, hrows, -⟩ := revokeOperatorApiToken_cases htables
      unfold TokenService.Ok
      rw [hrows]
      refine TokensOk.congr (TokensOk.revokeRow _ h hactive (hpending rfl) fun other => Iff.rfl)
        (fun record => exists_set_same hcall (by simp [TokenCall.issued])) fun id => ?_
      rw [exists_set_iff hcall (by simp [TokenCall.forgets])]
      simp [TokenCall.forgets, eq_comm]
  | forgetting tokenId issued answer =>
    obtain ⟨rfl, rfl⟩ := by simpa [TokenService.advance] using hstep
    have hplaces : ∀ {place : TokenCall κ},
        place = (issued.map fun record => .remembering record answer).getD (.answered answer) →
        place.issued = issued ∧ place.forgets = none := by
      rintro place rfl
      cases issued <;> exact ⟨rfl, rfl⟩
    obtain ⟨hissued, hforgets⟩ := hplaces rfl
    refine TokensOk.congr (TokensOk.forget h tokenId
        ⟨_, List.mem_of_getElem? hcall, rfl⟩ (fun other hother => ?_) fun other hother => ?_)
      (fun record => exists_set_same hcall (by rw [hissued]; rfl)) fun id => Iff.rfl
    · exact exists_of_set (by rw [hforgets]; simp) hother
    · refine (exists_set_or hcall hother).imp_left fun hown => ?_
      exact (Option.some.inj hown).symm
  | remembering record answer =>
    obtain ⟨rfl, rfl⟩ := by simpa [TokenService.advance] using hstep
    refine TokensOk.congr (TokensOk.remember h record
        ⟨_, List.mem_of_getElem? hcall, rfl⟩ (fun other hother => ?_) fun other hother => ?_)
      (fun record => Iff.rfl) fun id => exists_set_same hcall (by simp [TokenCall.forgets])
    · exact exists_of_set (by simp [TokenCall.issued]) hother
    · refine (exists_set_or hcall hother).imp_left fun hown => ?_
      exact (Option.some.inj hown).symm
  | answered answer => cases hstep
  | dropped => cases hstep

/-- A request leaves the tokens of the manager, or it lets the manager forget the expired ones. -/
theorem operatorTokens_authorizeWithScope (digest : String → κ) (auth : AuthInner κ)
    (now utcNow : Time) (headers : HeaderMap) (requireCsrf : Bool) (requiredScope : Option String) :
    (auth.authorizeWithScope digest now utcNow headers requireCsrf requiredScope).1.operatorTokens =
      auth.operatorTokens ∨
    (auth.authorizeWithScope digest now utcNow headers requireCsrf requiredScope).1.operatorTokens =
      KeyMap.retain (fun record => isLive utcNow record.expiresAt) auth.operatorTokens := by
  have hoperator :
      (auth.authorizeOperatorToken digest utcNow headers requiredScope).1.operatorTokens =
        auth.operatorTokens ∨
      (auth.authorizeOperatorToken digest utcNow headers requiredScope).1.operatorTokens =
        KeyMap.retain (fun record => isLive utcNow record.expiresAt) auth.operatorTokens := by
    unfold AuthInner.authorizeOperatorToken
    split
    · exact .inl rfl
    · exact .inr rfl
  have hsession : ∀ other : AuthInner κ,
      (other.authorizeSession digest now headers requireCsrf requiredScope).1.operatorTokens =
        other.operatorTokens := by
    intro other
    unfold AuthInner.authorizeSession
    split <;> rfl
  unfold AuthInner.authorizeWithScope
  split
  · exact .inl rfl
  · split
    · exact .inl rfl
    · split
      · rename_i heq
        rw [heq] at hoperator
        exact hoperator
      · rename_i heq
        rw [heq] at hoperator
        simp only [hsession]
        exact hoperator

theorem TokensOk.authorize {rows : List (OperatorApiTokenRow κ)} {auth : AuthInner κ}
    {adding : OperatorTokenRecord κ → Prop} {forgetting : Nat → Prop} {utcNow read : Time}
    (h : TokensOk rows auth.operatorTokens adding forgetting utcNow) (hread : utcNow ≤ read)
    (digest : String → κ) (now : Time) (headers : HeaderMap) (requireCsrf : Bool)
    (requiredScope : Option String) :
    TokensOk rows (auth.authorizeWithScope digest now read headers requireCsrf
      requiredScope).1.operatorTokens adding forgetting read := by
  rcases operatorTokens_authorizeWithScope digest auth now read headers requireCsrf
    requiredScope with heq | heq
  · rw [heq]
    exact h.later hread
  · rw [heq]
    exact h.retain hread le_rfl

theorem TokenService.Ok.requireScope (h : s.Ok) {clock later : Clock}
    (hclock : s.utcNow ≤ clock.utcNow) (hlater : clock.utcNow ≤ later.utcNow)
    (digest : String → κ) (headers : HeaderMap) (scope : String) :
    { s with
      state := (s.state.requireScope digest clock later headers scope true).1
      utcNow := later.utcNow }.Ok := by
  have hfirst := TokensOk.authorize h hclock digest clock.now headers true (some scope)
  unfold TokenService.Ok AppState.requireScope
  split
  · rename_i heq
    rw [heq] at hfirst
    exact hfirst.later hlater
  · rename_i heq
    rw [heq] at hfirst
    exact hfirst.authorize hlater digest later.now headers false none

/-- A handler begins, with nothing to tell the manager. -/
theorem TokenService.Ok.begin (h : s.Ok) {clock later : Clock} (hclock : s.utcNow ≤ clock.utcNow)
    (hlater : clock.utcNow ≤ later.utcNow) (headers : HeaderMap) {call : AppState κ → TokenCall κ}
    (hissued : ∀ state, (call state).issued = none)
    (hforgets : ∀ state, (call state).forgets = none) :
    (s.begin digest clock later headers call).Ok := by
  have hguard := h.requireScope hclock hlater digest headers adminScope
  have hplace : ∀ refused : Option Response, ∀ state,
      ((refused.map fun response => .answered (.response response)).getD (call state)).issued =
          none ∧
        ((refused.map fun response => .answered (.response response)).getD (call state)).forgets =
          none := by
    intro refused state
    cases refused with
    | none => exact ⟨hissued state, hforgets state⟩
    | some response => exact ⟨rfl, rfl⟩
  unfold TokenService.begin
  refine TokensOk.congr hguard (fun record => ?_) fun id => ?_
  · simp [(hplace _ _).1]
  · simp [(hplace _ _).2]

theorem createCall_places (digest : String → κ) (state : AppState κ) (now : Time)
    (headers : HeaderMap) (request : Option CreateOperatorApiTokenRequest)
    (random : Option String) (id : Nat) :
    (createCall digest state now headers request random id).issued = none ∧
      (createCall digest state now headers request random id).forgets = none := by
  unfold createCall
  split
  · exact ⟨rfl, rfl⟩
  · split
    · exact ⟨rfl, rfl⟩
    · split
      · exact ⟨rfl, rfl⟩
      · exact ⟨rfl, rfl⟩

omit [DecidableEq κ] in
theorem rotateCall_places (headers : HeaderMap) (tokenId : Nat)
    (request : Option RotateOperatorApiTokenRequest) :
    (rotateCall (κ := κ) headers tokenId request).issued = none ∧
      (rotateCall (κ := κ) headers tokenId request).forgets = none := by
  cases request with
  | none => exact ⟨rfl, rfl⟩
  | some request => exact ⟨rfl, rfl⟩

theorem TokenService.Ok.step (h : s.Ok) {op : TokenOp κ} (horderly : Orderly s op)
    (hstep : s.step digest op = some t) : t.Ok := by
  cases op with
  | create clock later headers request random id =>
    obtain rfl := Option.some.inj hstep
    exact h.begin horderly.1 horderly.2 headers
      (fun state => (createCall_places digest state clock.now headers request random id).1)
      fun state => (createCall_places digest state clock.now headers request random id).2
  | rotate clock later headers tokenId request =>
    obtain rfl := Option.some.inj hstep
    exact h.begin horderly.1 horderly.2 headers
      (fun _ => (rotateCall_places headers tokenId request).1)
      fun _ => (rotateCall_places headers tokenId request).2
  | revoke clock later headers tokenId =>
    obtain rfl := Option.some.inj hstep
    exact h.begin horderly.1 horderly.2 headers (fun _ => rfl) fun _ => rfl
  | advance i draw =>
    obtain ⟨call, hcall, hstep⟩ := Option.bind_eq_some_iff.mp hstep
    obtain ⟨⟨next, moved⟩, hnext, hstep⟩ := Option.bind_eq_some_iff.mp hstep
    obtain rfl := Option.some.inj hstep
    exact h.advance hcall (horderly call hcall) hnext
  | drop i =>
    obtain rfl := Option.some.inj hstep
    cases hcall : s.calls[i]? with
    | none =>
      rw [List.set_eq_of_length_le (List.getElem?_eq_none_iff.mp hcall)]
      exact h
    | some call =>
      obtain ⟨hadds, hforgets⟩ := horderly call hcall
      exact h.move hcall (Option.map_eq_none_iff.mp hadds).symm hforgets.symm
  | authorize clock headers requireCsrf requiredScope =>
    obtain rfl := Option.some.inj hstep
    exact TokensOk.authorize h horderly digest clock.now headers requireCsrf requiredScope
  | change state =>
    obtain rfl := Option.some.inj hstep
    exact h
  | restart state =>
    obtain rfl := Option.some.inj hstep
    exact TokensOk.load h state.auth (by simp) (by simp)

theorem ok_of_reachable {state : AppState κ}
    (h : (tokenMachine digest state).ReachableWhere Orderly s) : s.Ok := by
  refine h.invariant ?_ fun s op t hs horderly hstep => hs.step horderly hstep
  refine ⟨List.nodup_nil, List.nodup_nil, fun key record hlookup => ?_, ?_, ?_, ?_⟩
  · simp [tokenMachine, AuthInner.loadOperatorTokens] at hlookup
  · simp [tokenMachine]
  · simp [tokenMachine]
  · simp [tokenMachine]

/-- What the manager knows of a token with which a request is accepted. -/
theorem accepted_cases {auth : AuthInner κ} {utcNow : Time} {headers : HeaderMap}
    {scope : Option String}
    (h : (auth.authorizeOperatorToken digest utcNow headers scope).2 = true) :
    ∃ token, bearerToken headers = some token ∧ ∃ record,
      auth.operatorTokens.lookup (digest token) = some record ∧
      isLive utcNow record.expiresAt = true ∧ scopeGranted record.scopes scope = true := by
  unfold AuthInner.authorizeOperatorToken at h
  split at h
  · cases h
  · rename_i token htoken
    simp only at h
    split at h
    · rename_i record hlookup
      obtain ⟨hlookup, hlive⟩ := KeyMap.lookup_retain_eq_some.mp hlookup
      exact ⟨token, htoken, record, hlookup, hlive, (of_decide_eq_true h).2⟩
    · cases h

end Steps

/-- In every orderly run, a request is accepted with an operator token only if the token is stored,
has not expired and grants the scope, and has not been revoked unless the handler that revoked it is
still on its way to the manager. And a stored token that meets this is accepted, unless the handler
that issued it is still on its way. -/
theorem operator_tokens_agree {κ : Type} [DecidableEq κ] (digest : String → κ)
    (state : AppState κ) (s : TokenService κ)
    (h : (tokenMachine digest state).ReachableWhere Orderly s) (utcNow : Time)
    (hclock : s.utcNow ≤ utcNow) (headers : HeaderMap) (scope : Option String) :
    ((s.state.auth.authorizeOperatorToken digest utcNow headers scope).2 = true →
      ∃ token, bearerToken headers = some token ∧ ∃ row ∈ s.tables.rows,
        row.tokenHash = digest token ∧ isLive utcNow row.expiresAt = true ∧
        scopeGranted row.scopes scope = true ∧
        (row.revokedAt = none ∨ ∃ call ∈ s.calls, call.forgets = some row.id)) ∧
    ∀ token, bearerToken headers = some token → ∀ row ∈ s.tables.rows,
      row.tokenHash = digest token → row.revokedAt = none → isLive utcNow row.expiresAt = true →
      scopeGranted row.scopes scope = true → (∀ call ∈ s.calls, call.adds ≠ some row.id) →
      (s.state.auth.authorizeOperatorToken digest utcNow headers scope).2 = true := by
  have hok : s.Ok := ok_of_reachable h
  constructor
  · intro haccepted
    obtain ⟨token, htoken, record, hlookup, hlive, hscope⟩ := accepted_cases haccepted
    obtain ⟨row, hrow, rfl, hkey, hstate⟩ := hok.known _ record hlookup
    exact ⟨token, htoken, row, hrow, hkey, hlive, hscope, hstate⟩
  · intro token htoken row hrow hhash hnone hlive hscope hpending
    have hlookup := hok.kept row hrow hnone (isLive_mono hclock hlive) fun ⟨call, hcall, hissued⟩ =>
      hpending call hcall (by rw [TokenCall.adds, hissued]; rfl)
    have hretained : (KeyMap.retain (fun record => record.expiresAt.all fun expiresAt =>
        utcNow < expiresAt) s.state.auth.operatorTokens).lookup (digest token) =
        some row.toRecord :=
      KeyMap.lookup_retain_eq_some.mpr ⟨hhash ▸ hlookup, hlive⟩
    simp only [AuthInner.authorizeOperatorToken, htoken, hretained]
    exact decide_eq_true ⟨hhash.symm, hscope⟩

section Example

/-- A deployment without sign-in, whose tokens are their own hashes. -/
def openState : AppState String where
  auth := .new "hash" "bearer" false true
  publicBaseUrl := ""
  hasCatalogRepository := true
  users := .empty
  outputProfile := none
  jellyfinSetup := .regenerationRequired
  media := ⟨∅, []⟩

def bearerHeaders (token : String) : HeaderMap :=
  [("authorization", ("Bearer " ++ token).toUTF8.data.toList)]

/-- A token is created and rotated; the second one has the scope `read` only. -/
def tokenRotation : List (TokenOp String) :=
  let draw (id : Nat) (random : String) : Draw := ⟨0, 0, some random, id⟩
  [.create ⟨0, 0⟩ ⟨0, 0⟩ [] (some ⟨"ci", ["read", "output"], some 90⟩) (some "first") 1,
    .advance 0 (draw 0 ""), .advance 0 (draw 0 ""),
    .rotate ⟨0, 5⟩ ⟨0, 5⟩ [] 1 (some ⟨none, some ["read"], none⟩),
    .advance 1 (draw 2 "second"), .advance 1 (draw 0 ""), .advance 1 (draw 0 ""),
    .advance 1 (draw 0 "")]

theorem operator_tokens_agree_rotated : ∃ s : TokenService String,
    (s.state.auth.authorizeOperatorToken id 60 (bearerHeaders "first") (some "read")).2 = false ∧
    (s.state.auth.authorizeOperatorToken id 60 (bearerHeaders "second") (some "read")).2 = true ∧
    (s.state.auth.authorizeOperatorToken id 90 (bearerHeaders "second") (some "read")).2 =
      false := by
  obtain ⟨s, hreach, hs⟩ := (tokenMachine id openState).exists_reachableWhere_of_run Orderly
    (fun s op => decide (Orderly s op)) tokenRotation
    (fun s => s.utcNow = 5 ∧ (∀ call ∈ s.calls, call.adds = none ∧ call.forgets = none) ∧
      s.tables.rows.map (fun row => (row.tokenHash, row.scopes, row.expiresAt, row.revokedAt)) =
        [("first", ["read", "output"], some 90, some 0), ("second", ["read"], some 90, none)])
    (fun _ _ _ hok => of_decide_eq_true hok) (by decide +kernel)
  obtain ⟨hclock, hquiet, hrows⟩ := of_decide_eq_true hs
  have hrow : ∀ row ∈ s.tables.rows,
      (row.tokenHash, row.scopes, row.expiresAt, row.revokedAt) ∈
        [("first", ["read", "output"], some 90, some 0), ("second", ["read"], some 90, none)] :=
    fun row hmem => hrows ▸ List.mem_map_of_mem hmem
  have hfirst : bearerToken (bearerHeaders "first") = some "first" := by decide +kernel
  have hsecond : bearerToken (bearerHeaders "second") = some "second" := by decide +kernel
  have hagree := operator_tokens_agree id openState s hreach
  refine ⟨s, Bool.eq_false_iff.mpr fun haccepted => ?_, ?_,
    Bool.eq_false_iff.mpr fun haccepted => ?_⟩
  · obtain ⟨token, htoken, row, hmem, hhash, -, -, hstate⟩ :=
      (hagree 60 (hclock.le.trans (by decide)) _ _).1 haccepted
    obtain rfl := Option.some.inj (hfirst.symm.trans htoken)
    rcases hstate with hnone | ⟨call, hcall, hforgets⟩
    · simpa [hhash, hnone] using hrow row hmem
    · rw [(hquiet call hcall).2] at hforgets
      cases hforgets
  · have hmem : ("second", ["read"], some 90, none) ∈ s.tables.rows.map fun row =>
        (row.tokenHash, row.scopes, row.expiresAt, row.revokedAt) := by simp [hrows]
    obtain ⟨row, hmem, hvalues⟩ := List.mem_map.mp hmem
    obtain ⟨hhash, hscopes, hexpires, hnone⟩ := by simpa using hvalues
    refine (hagree 60 (hclock.le.trans (by decide)) _ _).2 "second" hsecond row hmem hhash hnone
      ?_ ?_ ?_
    · rw [hexpires]
      rfl
    · rw [hscopes]
      decide
    · intro call hcall
      rw [(hquiet call hcall).1]
      simp
  · obtain ⟨token, htoken, row, hmem, -, hlive, -⟩ :=
      (hagree 90 (hclock.le.trans (by decide)) _ _).1 haccepted
    have hvalues := hrow row hmem
    have hexpires : row.expiresAt = some 90 := by
      simp only [List.mem_cons, Prod.mk.injEq, List.not_mem_nil, or_false] at hvalues
      rcases hvalues with ⟨-, -, hexpires, -⟩ | ⟨-, -, hexpires, -⟩ <;> exact hexpires
    rw [hexpires] at hlive
    cases hlive

end Example

end IptvRelay.Auth
