import IptvRelay.Lib.History
import IptvRelay.Settings.Transactions

/-!
# No update of the settings is lost

The unique key of the revisions admits one open transaction behind every committed
revision, so commits are numbered without gaps and the transaction that commits has read
the newest revision.
-/

namespace IptvRelay.Settings

open Transition

section Invariant

variable {ρ υ : Type} [DecidableEq ρ] (resourceId : Scope → ρ)

def OverrideRow.entry (row : OverrideRow υ) : String × υ := (row.key, row.value)

/-- The number of revisions of a scope. -/
def Database.count (db : Database ρ υ) (scope : Scope) : Int := (db.history resourceId scope).length

/-- What a write has read so far. -/
def Write.Expects (write : Write υ) (current : Int) : Prop :=
  ∀ expected ∈ write.expectedRevision, expected = current

/-- What a call knows about the committed rows. The holder of an uncommitted revision knows all
of its scope. -/
def CallOk (db : Database ρ υ) : Call υ → Prop
  | .loadValues scope revision => revision ≤ db.count resourceId scope
  | .restore write => write.expectedRevision = none
  | .snapshot write current | .insertRevision write current _ =>
    (0 ≤ current ∧ current ≤ db.count resourceId write.scope) ∧ write.Expects current
  | .deleteOverrides write current _ =>
    current = db.count resourceId write.scope ∧ write.Expects current
  | .insertOverrides write current _ deleted inserted rest =>
    current = db.count resourceId write.scope ∧ write.Expects current ∧
      deleted = db.scopeRows write.scope ∧ (∀ row ∈ inserted, row.scope = write.scope) ∧
      inserted.map OverrideRow.entry ++ rest = write.values.entries
  | .load _ | .replace _ | .rollback .. | .returned _ | .failed _ => True

def Event.isCommit (scope : Scope) : Event υ → Bool
  | .loaded .. => false
  | .committed write _ => write.scope = scope

/-- How often the scope has been written. -/
def commits (scope : Scope) (log : List (Event υ)) : Nat := log.countP (Event.isCommit scope)

/-- A load has seen no more revisions than there are, and a commit adds the next one, behind the
revision that it expects. -/
def EventOk (before : List (Event υ)) : Event υ → List (Event υ) → Prop
  | .loaded scope state, _ => state.revision ≤ commits scope before
  | .committed write revision, _ =>
    revision = commits write.scope before + 1 ∧ ∀ expected ∈ write.expectedRevision, expected + 1 = revision

/-- The values that the last revision has written. -/
def Database.lastValues (db : Database ρ υ) (scope : Scope) : List (String × υ) :=
  ((db.history resourceId scope).getLast?.map fun row => row.afterValue.entries).getD []

/-- 1, 2, … -/
def numbersUpTo (n : Nat) : List Int := (List.range n).map fun i : Nat => (i : Int) + 1

structure SettingsOk (s : Service ρ υ) : Prop where
  numbers : ∀ scope, (s.db.history resourceId scope).map RevisionRow.revision =
    numbersUpTo (s.db.history resourceId scope).length
  stored : ∀ scope, (s.db.scopeRows scope).map OverrideRow.entry = s.db.lastValues resourceId scope
  calls : ∀ (i : Nat) (call : Call υ), s.calls[i]? = some call → CallOk resourceId s.db call
  held : ∀ (i j : Nat) (a b : Call υ) (key : ρ × Int), s.calls[i]? = some a → s.calls[j]? = some b →
    a.heldRevision resourceId = some key → b.heldRevision resourceId = some key → i = j
  log : History.Follows EventOk [] s.log
  commits : ∀ scope, Settings.commits scope s.log = (s.db.history resourceId scope).length

variable {resourceId} {s : Service ρ υ}

theorem currentRevision_eq (h : SettingsOk resourceId s) (scope : Scope) :
    s.db.currentRevision resourceId scope = s.db.count resourceId scope := by
  unfold Database.currentRevision Database.count
  rw [h.numbers scope]
  generalize (s.db.history resourceId scope).length = n
  cases n with
  | zero => rfl
  | succ n =>
    have hmax : (numbersUpTo (n + 1)).max? = some ((n : Int) + 1) := by
      refine List.max?_eq_some_iff.mpr ⟨?_, ?_⟩
      · exact List.mem_map.mpr ⟨n, List.mem_range.mpr (Nat.lt_succ_self n), rfl⟩
      · intro b hb
        obtain ⟨i, hi, rfl⟩ := List.mem_map.mp hb
        have hlt := List.mem_range.mp hi
        omega
    rw [hmax]
    rfl

theorem currentRevision_range (h : SettingsOk resourceId s) (scope : Scope) :
    0 ≤ s.db.currentRevision resourceId scope ∧
      s.db.currentRevision resourceId scope ≤ s.db.count resourceId scope := by
  rw [currentRevision_eq h]
  exact ⟨Int.natCast_nonneg _, Int.le_refl _⟩

omit [DecidableEq ρ] in
/-- A call after a move is the one that has moved, or another one as it was. -/
theorem getElem?_set_cases {calls : List (Call υ)} {i j : Nat} {next call : Call υ}
    (h : (calls.set i next)[j]? = some call) :
    (i = j ∧ call = next) ∨ (i ≠ j ∧ calls[j]? = some call) := by
  rw [List.getElem?_set] at h
  split at h
  · rename_i hij
    split at h
    · exact .inl ⟨hij, (Option.some.inj h).symm⟩
    · cases h
  · rename_i hij
    exact .inr ⟨hij, h⟩

/-- A call moves on with the committed rows as they are. -/
theorem SettingsOk.setCall (h : SettingsOk resourceId s) {i : Nat} {next : Call υ}
    (hnext : CallOk resourceId s.db next)
    (hheld : ∀ key, next.heldRevision resourceId = some key →
      ∀ (j : Nat) (call : Call υ), i ≠ j → s.calls[j]? = some call →
        call.heldRevision resourceId ≠ some key) :
    SettingsOk resourceId { s with calls := s.calls.set i next } := by
  refine ⟨h.numbers, h.stored, ?_, ?_, h.log, h.commits⟩
  · intro j call hcall
    rcases getElem?_set_cases hcall with ⟨-, rfl⟩ | ⟨-, hcall⟩
    · exact hnext
    · exact h.calls j call hcall
  · intro j k a b key ha hb hakey hbkey
    rcases getElem?_set_cases ha with ⟨rfl, hanext⟩ | ⟨hj, ha⟩
    · rcases getElem?_set_cases hb with ⟨rfl, -⟩ | ⟨hk, hb⟩
      · rfl
      · exact absurd hbkey (hheld key (hanext ▸ hakey) k b hk hb)
    · rcases getElem?_set_cases hb with ⟨rfl, hbnext⟩ | ⟨hk, hb⟩
      · exact absurd hakey (hheld key (hbnext ▸ hbkey) j a hj ha)
      · exact h.held j k a b key ha hb hakey hbkey

/-- The same for a call that has no uncommitted revision afterwards. -/
theorem SettingsOk.setFree (h : SettingsOk resourceId s) {i : Nat} {next : Call υ}
    (hnext : CallOk resourceId s.db next) (hfree : next.heldRevision resourceId = none) :
    SettingsOk resourceId { s with calls := s.calls.set i next } :=
  h.setCall hnext fun key hkey => by
    rw [hfree] at hkey
    cases hkey

/-- The same for a call that keeps its uncommitted revision. -/
theorem SettingsOk.setHolder (h : SettingsOk resourceId s) {i : Nat} {old next : Call υ}
    (hold : s.calls[i]? = some old) (hnext : CallOk resourceId s.db next)
    (hsame : next.heldRevision resourceId = old.heldRevision resourceId) :
    SettingsOk resourceId { s with calls := s.calls.set i next } :=
  h.setCall hnext fun key hkey j call hij hcall hother =>
    hij (h.held i j old call key hold hcall (hsame ▸ hkey) hother)

theorem commits_append (scope : Scope) (log more : List (Event υ)) :
    commits scope (log ++ more) = commits scope log + commits scope more :=
  List.countP_append

theorem eventOk_mono (before : List (Event υ)) (event : Event υ) (after more : List (Event υ))
    (h : EventOk before event after) : EventOk before event (after ++ more) := by
  cases event with
  | loaded scope state => exact h
  | committed write revision => exact h

/-- An event that is allowed is added to the log. -/
theorem follows_append {log : List (Event υ)} {event : Event υ} (h : History.Follows EventOk [] log)
    (hevent : EventOk log event []) : History.Follows EventOk [] (log ++ [event]) :=
  h.append eventOk_mono (History.follows_cons hevent (History.follows_nil _))

variable [DecidableEq υ]

/-! ## Commits -/

section Commit

variable {write : Write υ} {current : Int} {before : Int × List (String × υ)}
  {inserted : List (OverrideRow υ)} {scope : Scope}

/-- The revision that a commit adds. -/
def committedRow (resourceId : Scope → ρ) (write : Write υ) (current : Int)
    (before : Int × List (String × υ)) : RevisionRow ρ υ where
  resourceId := resourceId write.scope
  revision := current + 1
  actor := write.actor
  beforeValue := before
  afterValue := write.values

theorem history_commit_same (db : Database ρ υ) (deleted : List (OverrideRow υ)) :
    (db.commit resourceId write current before deleted inserted).history resourceId write.scope =
      db.history resourceId write.scope ++ [committedRow resourceId write current before] := by
  simp [Database.history, Database.commit, committedRow]

theorem history_commit_other (hinj : Function.Injective resourceId) (db : Database ρ υ)
    (deleted : List (OverrideRow υ)) (hother : write.scope ≠ scope) :
    (db.commit resourceId write current before deleted inserted).history resourceId scope =
      db.history resourceId scope := by
  have hne : resourceId write.scope ≠ resourceId scope := fun heq => hother (hinj heq)
  simp [Database.history, Database.commit, hne]

omit [DecidableEq ρ] in
/-- The overrides of the scope are those inserted. -/
theorem scopeRows_commit_same (db : Database ρ υ) (hscope : ∀ row ∈ inserted, row.scope = write.scope) :
    (db.commit resourceId write current before (db.scopeRows write.scope) inserted).scopeRows
      write.scope = inserted := by
  have hgone : (db.overrides.filter fun row => row ∉ db.scopeRows write.scope).filter
      (fun row => row.scope = write.scope) = [] := by
    refine List.filter_eq_nil_iff.mpr fun row hrow hsame => ?_
    obtain ⟨hmem, hnot⟩ := List.mem_filter.mp hrow
    exact of_decide_eq_true hnot (List.mem_filter.mpr ⟨hmem, hsame⟩)
  have hkept : inserted.filter (fun row => row.scope = write.scope) = inserted :=
    List.filter_eq_self.mpr fun row hrow => decide_eq_true (hscope row hrow)
  rw [Database.scopeRows, Database.commit, List.filter_append, hgone, hkept, List.nil_append]

omit [DecidableEq ρ] in
theorem scopeRows_commit_other (db : Database ρ υ)
    (hscope : ∀ row ∈ inserted, row.scope = write.scope) (hother : write.scope ≠ scope) :
    (db.commit resourceId write current before (db.scopeRows write.scope) inserted).scopeRows scope =
      db.scopeRows scope := by
  have hnone : inserted.filter (fun row => row.scope = scope) = [] := by
    refine List.filter_eq_nil_iff.mpr fun row hrow hsame => ?_
    exact hother ((hscope row hrow).symm.trans (of_decide_eq_true hsame))
  rw [Database.scopeRows, Database.commit, List.filter_append, hnone, List.append_nil,
    List.filter_filter]
  refine List.filter_congr fun row hrow => ?_
  by_cases hsame : row.scope = scope
  · have hnot : row ∉ db.scopeRows write.scope := fun hmem =>
      hother ((of_decide_eq_true (List.mem_filter.mp hmem).2).symm.trans hsame)
    simp [hsame, hnot]
  · simp [hsame]

end Commit

theorem numbersUpTo_succ (n : Nat) : numbersUpTo (n + 1) = numbersUpTo n ++ [(n : Int) + 1] := by
  rw [numbersUpTo, numbersUpTo, List.range_succ, List.map_append]
  rfl

/-- What a call knows survives a commit of another call. -/
theorem callOk_commit (hinj : Function.Injective resourceId) {db : Database ρ υ} {write : Write υ}
    {current : Int} {before : Int × List (String × υ)} {inserted : List (OverrideRow υ)}
    (hcurrent : current = db.count resourceId write.scope)
    (hscope : ∀ row ∈ inserted, row.scope = write.scope) {call : Call υ}
    (hother : call.heldRevision resourceId ≠ some (resourceId write.scope, current + 1))
    (h : CallOk resourceId db call) :
    CallOk resourceId
      (db.commit resourceId write current before (db.scopeRows write.scope) inserted) call := by
  have hcount : ∀ scope, db.count resourceId scope ≤
      (db.commit resourceId write current before (db.scopeRows write.scope) inserted).count
        resourceId scope := by
    intro scope
    unfold Database.count
    rcases eq_or_ne write.scope scope with rfl | hne
    · rw [history_commit_same, List.length_append]
      omega
    · rw [history_commit_other hinj db _ hne]
  have hholder : ∀ {other : Write υ} {known : Int},
      call.heldRevision resourceId = some (resourceId other.scope, known + 1) →
      known = db.count resourceId other.scope → write.scope ≠ other.scope := by
    intro other known hheld hknown heq
    rw [hheld, hknown, ← heq, ← hcurrent] at hother
    exact hother rfl
  cases call with
  | load scope => trivial
  | loadValues scope revision => exact h.trans (hcount scope)
  | replace write => trivial
  | rollback scope targetRevision actor => trivial
  | restore write => exact h
  | snapshot other known => exact ⟨⟨h.1.1, h.1.2.trans (hcount _)⟩, h.2⟩
  | insertRevision other known before => exact ⟨⟨h.1.1, h.1.2.trans (hcount _)⟩, h.2⟩
  | deleteOverrides other known before =>
    have hne := hholder rfl h.1
    refine ⟨?_, h.2⟩
    rw [Database.count, history_commit_other hinj db _ hne]
    exact h.1
  | insertOverrides other known before deleted done rest =>
    obtain ⟨hknown, hexpects, hdeleted, hrest⟩ := h
    have hne := hholder rfl hknown
    refine ⟨?_, hexpects, ?_, hrest⟩
    · rw [Database.count, history_commit_other hinj db _ hne]
      exact hknown
    · rw [scopeRows_commit_other db hscope hne]
      exact hdeleted
  | returned state => trivial
  | failed error => trivial

/-- A commit adds the next revision and leaves its values in the table. -/
theorem SettingsOk.commit (hinj : Function.Injective resourceId) (h : SettingsOk resourceId s)
    {i : Nat} {write : Write υ} {current : Int} {before : Int × List (String × υ)}
    {deleted inserted : List (OverrideRow υ)}
    (hcall : s.calls[i]? = some (.insertOverrides write current before deleted inserted []))
    (state : ScopeState υ) :
    SettingsOk resourceId {
      db := s.db.commit resourceId write current before deleted inserted
      calls := s.calls.set i (.returned state)
      log := s.log ++ [.committed write (current + 1)] } := by
  obtain ⟨hcurrent, hexpects, rfl, hscope, hentries⟩ := h.calls i _ hcall
  have hlength : ∀ scope, ((s.db.commit resourceId write current before
      (s.db.scopeRows write.scope) inserted).history resourceId scope).length =
      (s.db.history resourceId scope).length + if write.scope = scope then 1 else 0 := by
    intro scope
    split
    · rename_i heq
      subst heq
      rw [history_commit_same, List.length_append, List.length_singleton]
    · rename_i hne
      rw [history_commit_other hinj s.db _ hne, Nat.add_zero]
  refine ⟨?_, ?_, ?_, ?_, ?_, ?_⟩
  · intro scope
    rcases eq_or_ne write.scope scope with rfl | hne
    · rw [history_commit_same, List.map_append, h.numbers, List.length_append,
        List.length_singleton, numbersUpTo_succ, hcurrent]
      rfl
    · simp only [history_commit_other hinj s.db _ hne]
      exact h.numbers scope
  · intro scope
    rcases eq_or_ne write.scope scope with rfl | hne
    · simp only [Database.lastValues, history_commit_same, scopeRows_commit_same s.db hscope,
        List.getLast?_concat]
      simpa [committedRow] using hentries
    · simp only [Database.lastValues, history_commit_other hinj s.db _ hne,
        scopeRows_commit_other s.db hscope hne]
      exact h.stored scope
  · intro j call hj
    rcases getElem?_set_cases hj with ⟨-, rfl⟩ | ⟨hij, hj⟩
    · trivial
    · refine callOk_commit hinj hcurrent hscope (fun hheld => ?_) (h.calls j call hj)
      exact hij (h.held i j _ _ _ hcall hj rfl hheld)
  · intro j k a b key ha hb hakey hbkey
    rcases getElem?_set_cases ha with ⟨-, rfl⟩ | ⟨-, ha⟩
    · cases hakey
    · rcases getElem?_set_cases hb with ⟨-, rfl⟩ | ⟨-, hb⟩
      · cases hbkey
      · exact h.held j k a b key ha hb hakey hbkey
  · refine follows_append h.log ⟨?_, fun expected hexpected => ?_⟩
    · rw [hcurrent, Database.count, h.commits]
    · rw [hexpects expected hexpected]
  · intro scope
    rw [commits_append, h.commits, hlength]
    congr 1
    by_cases heq : write.scope = scope
    · simp [Settings.commits, Event.isCommit, heq]
    · simp [Settings.commits, Event.isCommit, heq]

/-! ## Statements -/

omit [DecidableEq ρ] [DecidableEq υ] in
/-- No other call meets a condition. -/
theorem of_otherCall_false {calls : List (Call υ)} {i : Nat} {p : Call υ → Bool}
    (h : ¬otherCall calls i p = true) {j : Nat} {call : Call υ} (hij : i ≠ j)
    (hcall : calls[j]? = some call) : p call = false := by
  have hmem : call ∈ calls.eraseIdx i :=
    List.mem_eraseIdx_iff_getElem?.mpr ⟨j, Ne.symm hij, hcall⟩
  unfold otherCall at h
  rw [Bool.not_eq_true] at h
  simpa using List.any_eq_false.mp h call hmem

omit [DecidableEq υ] in
/-- A revision that is not there comes behind all that are. -/
theorem count_of_new (h : SettingsOk resourceId s) {scope : Scope} {current : Int}
    (hknown : 0 ≤ current ∧ current ≤ s.db.count resourceId scope)
    (hnew : ¬((s.db.history resourceId scope).any fun row => row.revision = current + 1) = true) :
    current = s.db.count resourceId scope := by
  by_contra hne
  have hlt : current.toNat < (s.db.history resourceId scope).length := by
    unfold Database.count at hknown hne
    omega
  have hmem : current + 1 ∈ (s.db.history resourceId scope).map RevisionRow.revision := by
    rw [h.numbers]
    exact List.mem_map.mpr ⟨current.toNat, List.mem_range.mpr hlt, by omega⟩
  obtain ⟨row, hrow, hrevision⟩ := List.mem_map.mp hmem
  exact hnew (List.any_eq_true.mpr ⟨row, hrow, decide_eq_true hrevision⟩)

/-- The next statement of a call keeps the invariant. -/
theorem SettingsOk.advance (hinj : Function.Injective resourceId) (h : SettingsOk resourceId s)
    {i : Nat} {call next : Call υ} {db : Database ρ υ} {events : List (Event υ)}
    (hcall : s.calls[i]? = some call)
    (hnext : nextStatement resourceId s.db s.calls i call = some (next, db, events)) :
    SettingsOk resourceId { db, calls := s.calls.set i next, log := s.log ++ events } := by
  have hknown := h.calls i call hcall
  cases call with
  | load scope =>
    obtain ⟨rfl, rfl, rfl⟩ := by simpa [nextStatement] using hnext
    rw [List.append_nil]
    exact h.setFree (currentRevision_eq h scope).le rfl
  | loadValues scope revision =>
    obtain ⟨rfl, rfl, rfl⟩ := by simpa [nextStatement] using hnext
    have hset : SettingsOk resourceId { s with
        calls := s.calls.set i (.returned ⟨s.db.scopeValues scope, revision⟩) } :=
      h.setFree trivial rfl
    refine ⟨hset.numbers, hset.stored, hset.calls, hset.held, follows_append h.log ?_, ?_⟩
    · exact hknown.trans (by rw [Database.count, h.commits])
    · intro other
      rw [commits_append]
      exact h.commits other
  | replace write =>
    have hread : CallOk resourceId s.db (.restore write) ∨ ∃ expected,
        write.expectedRevision = some expected := by
      cases hexpected : write.expectedRevision with
      | none => exact .inl hexpected
      | some expected => exact .inr ⟨expected, rfl⟩
    simp only [nextStatement] at hnext
    split at hnext
    · rename_i expected hexpected
      split at hnext
      · obtain ⟨rfl, rfl, rfl⟩ := by simpa using hnext
        rw [List.append_nil]
        exact h.setFree trivial rfl
      · rename_i heq
        obtain ⟨rfl, rfl, rfl⟩ := by simpa using hnext
        rw [List.append_nil]
        refine h.setFree ⟨currentRevision_range h _, ?_⟩ rfl
        intro other hother
        rw [hexpected] at hother
        cases hother
        exact not_not.mp heq
    · rename_i hexpected
      obtain ⟨rfl, rfl, rfl⟩ := by simpa using hnext
      rw [List.append_nil]
      refine h.setFree ⟨currentRevision_range h _, fun other hother => ?_⟩ rfl
      rw [hexpected] at hother
      cases hother
  | rollback scope targetRevision actor =>
    simp only [nextStatement] at hnext
    split at hnext
    · obtain ⟨rfl, rfl, rfl⟩ := by simpa using hnext
      rw [List.append_nil]
      exact h.setFree trivial rfl
    · obtain ⟨rfl, rfl, rfl⟩ := by simpa using hnext
      rw [List.append_nil]
      exact h.setFree rfl rfl
  | restore write =>
    obtain ⟨rfl, rfl, rfl⟩ := by simpa [nextStatement] using hnext
    rw [List.append_nil]
    refine h.setFree ⟨currentRevision_range h _, fun other hother => ?_⟩ rfl
    have hnone : write.expectedRevision = none := hknown
    rw [hnone] at hother
    cases hother
  | snapshot write current =>
    obtain ⟨rfl, rfl, rfl⟩ := by simpa [nextStatement] using hnext
    rw [List.append_nil]
    exact h.setFree hknown rfl
  | insertRevision write current before =>
    simp only [nextStatement] at hnext
    split at hnext
    · obtain ⟨rfl, rfl, rfl⟩ := by simpa using hnext
      rw [List.append_nil]
      exact h.setFree trivial rfl
    · rename_i hnew
      split at hnext
      · cases hnext
      · rename_i halone
        obtain ⟨rfl, rfl, rfl⟩ := by simpa using hnext
        rw [List.append_nil]
        refine h.setCall ⟨?_, hknown.2⟩ ?_
        · exact count_of_new h hknown.1 hnew
        · rintro key hkey j call hij hj hheld
          obtain rfl := Option.some.inj hkey
          exact absurd hheld (of_decide_eq_false (of_otherCall_false halone hij hj))
  | deleteOverrides write current before =>
    simp only [nextStatement] at hnext
    split at hnext
    · cases hnext
    · obtain ⟨rfl, rfl, rfl⟩ := by simpa using hnext
      rw [List.append_nil]
      exact h.setHolder hcall ⟨hknown.1, hknown.2, rfl, by simp, rfl⟩ rfl
  | insertOverrides write current before deleted inserted rest =>
    cases rest with
    | nil =>
      obtain ⟨rfl, rfl, rfl⟩ := by simpa [nextStatement] using hnext
      exact h.commit hinj hcall _
    | cons entry rest =>
      obtain ⟨hcurrent, hexpects, hdeleted, hscope, hentries⟩ := hknown
      simp only [nextStatement] at hnext
      split at hnext
      · obtain ⟨rfl, rfl, rfl⟩ := by simpa using hnext
        rw [List.append_nil]
        exact h.setFree trivial rfl
      · split at hnext
        · cases hnext
        · obtain ⟨rfl, rfl, rfl⟩ := by simpa using hnext
          rw [List.append_nil]
          refine h.setHolder hcall ⟨hcurrent, hexpects, hdeleted, ?_, ?_⟩ rfl
          · intro row hrow
            rcases List.mem_append.mp hrow with hrow | hrow
            · exact hscope row hrow
            · rw [List.mem_singleton.mp hrow]
          · rw [← hentries]
            simp [OverrideRow.entry]
  | returned state => cases hnext
  | failed error => cases hnext

omit [DecidableEq ρ] [DecidableEq υ] in
theorem getElem?_append_cases {calls : List (Call υ)} {i : Nat} {new call : Call υ}
    (h : (calls ++ [new])[i]? = some call) : calls[i]? = some call ∨ call = new := by
  rw [List.getElem?_append] at h
  split at h
  · exact .inl h
  · exact .inr (List.mem_singleton.mp (List.mem_of_getElem? h))

/-- Every step keeps the invariant. -/
theorem SettingsOk.step (hinj : Function.Injective resourceId) (h : SettingsOk resourceId s)
    {t : Service ρ υ} {op : Op υ} (hstep : s.step resourceId op = some t) :
    SettingsOk resourceId t := by
  have hbegin : ∀ {call : Call υ}, CallOk resourceId s.db call →
      call.heldRevision resourceId = none →
      SettingsOk resourceId { s with calls := s.calls ++ [call] } := by
    intro call hcall hfree
    refine ⟨h.numbers, h.stored, ?_, ?_, h.log, h.commits⟩
    · intro i other hother
      rcases getElem?_append_cases hother with hother | rfl
      · exact h.calls i other hother
      · exact hcall
    · intro i j a b key ha hb hakey hbkey
      rcases getElem?_append_cases ha with ha | rfl
      · rcases getElem?_append_cases hb with hb | rfl
        · exact h.held i j a b key ha hb hakey hbkey
        · rw [hfree] at hbkey
          cases hbkey
      · rw [hfree] at hakey
        cases hakey
  cases op with
  | load scope =>
    obtain rfl := Option.some.inj hstep
    exact hbegin trivial rfl
  | replace scope values expectedRevision actor =>
    obtain rfl := Option.some.inj hstep
    exact hbegin trivial rfl
  | rollback scope targetRevision actor =>
    obtain rfl := Option.some.inj hstep
    exact hbegin trivial rfl
  | advance i =>
    obtain ⟨call, hcall, hstep⟩ := Option.bind_eq_some_iff.mp hstep
    obtain ⟨⟨next, db, events⟩, hnext, hstep⟩ := Option.bind_eq_some_iff.mp hstep
    obtain rfl := Option.some.inj hstep
    exact h.advance hinj hcall hnext
  | fail i =>
    obtain rfl := Option.some.inj hstep
    exact h.setFree trivial rfl

theorem settingsOk_of_reachable (hinj : Function.Injective resourceId)
    (h : (settingsMachine ρ υ resourceId).Reachable s) : SettingsOk resourceId s := by
  refine h.invariant ?_ fun s op t hs _ hstep => hs.step hinj hstep
  refine ⟨fun _ => rfl, fun _ => rfl, ?_, ?_, History.follows_nil _, fun _ => rfl⟩
  · intro i call hcall
    cases hcall
  · intro i j a b key ha
    cases ha

end Invariant

/-- Of rows that are numbered, one with the highest number is the last. -/
theorem getLast?_of_highest {ρ υ : Type} {rows : List (RevisionRow ρ υ)}
    (hnumbers : rows.map RevisionRow.revision = numbersUpTo rows.length) {row : RevisionRow ρ υ}
    (hrow : row ∈ rows) (hhighest : ∀ other ∈ rows, other.revision ≤ row.revision) :
    rows.getLast? = some row := by
  obtain ⟨front, last, rfl⟩ : ∃ front last, rows = front ++ [last] :=
    ⟨_, _, (List.dropLast_append_getLast (List.ne_nil_of_mem hrow)).symm⟩
  rw [List.length_append, List.length_singleton, numbersUpTo_succ, List.map_append,
    List.map_singleton] at hnumbers
  obtain ⟨hfront, hlast⟩ := List.append_inj' hnumbers rfl
  rw [List.getLast?_concat]
  rcases List.mem_append.mp hrow with hmem | hmem
  · -- An earlier row has a smaller number.
    have hsmaller : row.revision ∈ numbersUpTo front.length := hfront ▸ List.mem_map_of_mem hmem
    obtain ⟨i, hi, hnumber⟩ := List.mem_map.mp hsmaller
    have hlt := List.mem_range.mp hi
    have hle := hhighest last (List.mem_append_right _ List.mem_cons_self)
    have heq : last.revision = (front.length : Int) + 1 := List.singleton_inj.mp hlast
    omega
  · rw [List.mem_singleton.mp hmem]

/-- In every run of concurrent loads, replacements and rollbacks, the committed overrides of a scope
are those of its highest revision, the revisions are numbered without gaps, each commit takes the
next number, and nothing is committed between a load and a replacement that expects the revision
that the load returned. -/
theorem no_lost_update {ρ υ : Type} [DecidableEq ρ] [DecidableEq υ] (resourceId : Scope → ρ)
    (hinj : Function.Injective resourceId) (s : Service ρ υ)
    (h : (settingsMachine ρ υ resourceId).Reachable s) (scope : Scope) :
    ((s.db.history resourceId scope = [] → s.db.scopeRows scope = []) ∧
      ∀ row ∈ s.db.history resourceId scope,
        (∀ other ∈ s.db.history resourceId scope, other.revision ≤ row.revision) →
        (s.db.scopeRows scope).map (fun row => (row.key, row.value)) = row.afterValue.entries) ∧
    (s.db.history resourceId scope).map RevisionRow.revision =
      numbersUpTo (s.db.history resourceId scope).length ∧
    (∀ before write (revision : Int) after,
      s.log = before ++ .committed write revision :: after →
      revision = commits write.scope before + 1) ∧
    ∀ before state between write (revision : Int) after,
      s.log = before ++ .loaded scope state :: between ++ .committed write revision :: after →
      write.scope = scope → write.expectedRevision = some state.revision →
      ∀ event ∈ between, event.isCommit scope = false := by
  have hok := settingsOk_of_reachable hinj h
  refine ⟨⟨fun hnone => ?_, fun row hrow hhighest => ?_⟩, hok.numbers scope, ?_, ?_⟩
  · have hstored := hok.stored scope
    rw [Database.lastValues, hnone] at hstored
    exact List.map_eq_nil_iff.mp hstored
  · have hstored := hok.stored scope
    rw [Database.lastValues, getLast?_of_highest (hok.numbers scope) hrow hhighest] at hstored
    exact hstored
  · intro before write revision after hlog
    exact (hok.log before _ after hlog).1
  · intro before state between write revision after hlog hscope hexpected event hevent
    obtain ⟨hnumber, hexpects⟩ := hok.log _ _ _ hlog
    have hloaded : state.revision ≤ commits scope ([] ++ before) :=
      hok.log before (.loaded scope state) (between ++ .committed write revision :: after)
        (by rw [hlog]; simp)
    have hnext := hexpects _ hexpected
    -- There are as many commits before the replacement as before the load.
    have hnone : commits scope between = 0 := by
      have hsplit : commits scope (before ++ .loaded scope state :: between) =
          commits scope before + commits scope between := by
        rw [commits_append]
        rfl
      rw [hscope, List.nil_append, hsplit] at hnumber
      rw [List.nil_append] at hloaded
      omega
    exact Bool.eq_false_iff.mpr (List.countP_eq_zero.mp hnone event hevent)

section Example

def globalScope : Scope := ⟨"global", ""⟩

def bufferOf (n : Nat) : Values Nat := ⟨[("media.ring.seconds", n)], List.pairwise_singleton _ _⟩

/-- Two clients load the scope and replace it; the first commits, the second has to wait for the
first and fails. -/
def contention : List (Op Nat) :=
  [.load globalScope, .advance 0, .advance 0, .load globalScope, .advance 1, .advance 1,
    .replace globalScope (bufferOf 30) (some 0) "a", .replace globalScope (bufferOf 60) (some 0) "b",
    .advance 2, .advance 3, .advance 2, .advance 3, .advance 2, .advance 2, .advance 2, .advance 2,
    .advance 3]

theorem contention_loses_no_update :
    ∃ s, (settingsMachine Scope Nat id).Reachable s ∧
      (s.db.scopeRows globalScope).map (fun row => (row.key, row.value)) = (bufferOf 30).entries ∧
      (s.db.history id globalScope).map RevisionRow.revision =
        numbersUpTo (s.db.history id globalScope).length ∧
      (s.db.history id globalScope).length = 1 := by
  obtain ⟨s, hs, hp⟩ := (settingsMachine Scope Nat id).exists_reachable_of_run contention
    (fun s => (s.db.history id globalScope).length = 1 ∧
      ∀ row ∈ s.db.history id globalScope, row.afterValue.entries = (bufferOf 30).entries)
    (by decide +kernel)
  obtain ⟨hone, hvalues⟩ := of_decide_eq_true hp
  obtain ⟨hstored, hnumbers, -⟩ := no_lost_update id Function.injective_id s hs globalScope
  obtain ⟨row, hrows⟩ := List.length_eq_one_iff.mp hone
  have hrow : row ∈ s.db.history id globalScope := by simp [hrows]
  refine ⟨s, hs, ?_, hnumbers, hone⟩
  rw [hstored.2 row hrow (by simp [hrows]), hvalues row hrow]

end Example

end IptvRelay.Settings
