import IptvRelay.Auth.Handlers
import IptvRelay.Auth.SessionRuns

/-!
# Sessions and changes of accounts

Runs of the whole authentication: sign-ins in their parts, requests, and the handlers that
change accounts. A session keeps the scopes that its account had when it signed in, so what
a change of the account means for it is a condition on the change.
-/

namespace IptvRelay.Auth

open Transition Checked

/-- A sign-in between two of its steps. -/
inductive SignIn (κ : Type) where
  | found (row : UserRow) (scopes : List String)
  | stored (credential : StoredUserCredential)
  | verified (verified : VerifiedLogin κ)
  deriving DecidableEq, Repr

/-- The state, the last reading of the clock, the sign-ins under way, and the identifiers that
accounts have had. -/
structure AppRun (κ : Type) where
  state : AppState κ
  now : Time := 0
  signIns : List (SignIn κ) := []
  ids : List Uuid

inductive AppOp (κ : Type) where
  | ensureCsrfCookie (now : Time) (first : κ) (random : Option String) (headers : HeaderMap)
  | findAccount (username : String)
  | findCredential (row : UserRow) (scopes : List String)
  | verifyLogin (now : Time) (joined : Bool) (headers : HeaderMap) (username password : String)
      (stored : Option StoredUserCredential)
  | disableBootstrapBearer
  | completeLogin (now : Time) (verified : VerifiedLogin κ) (sessionRandom csrfRandom : Option String)
  | logout (headers : HeaderMap)
  | authorize (clock : Clock) (headers : HeaderMap) (requireCsrf : Bool)
      (requiredScope : Option String)
  | loadOperatorTokens (records : List (OperatorTokenRecord κ))
  | addOperatorToken (record : OperatorTokenRecord κ)
  | revokeOperatorToken (id : Nat)
  | terminateSession (clock later : Clock) (headers : HeaderMap) (key : HttpTsSessionKey)
  | rotateJellyfinToken (clock later : Clock) (headers : HeaderMap) (overlapSeconds : Option Int)
      (random : Option String) (databaseNow : Time) (fails : Bool)
  | createUser (clock later : Clock) (headers : HeaderMap) (body : CreateUserRequest)
      (argon : String → Option String) (id : Uuid) (fails : Bool)
  | updateUser (clock later : Clock) (headers : HeaderMap) (id : Uuid) (body : UpdateUserRequest)
      (argon : String → Option String) (fails : Bool)
  | deleteUser (clock later : Clock) (headers : HeaderMap) (id : Uuid) (fails : Bool)

section Machine

variable {κ : Type} [DecidableEq κ] (digest : String → κ)
  (verifyPassword : String → String → Bool)

/-- The manager after a call on it. -/
def AppRun.withAuth (s : AppRun κ) (auth : AuthInner κ) : AppRun κ :=
  { s with state := { s.state with auth } }

/-- The clock does not go back from one reading to the next. -/
def AppRun.handle (s : AppRun κ) (clock later : Clock) (result : AppState κ × Response) :
    Option (AppRun κ) := do
  guard (s.now ≤ clock.now ∧ clock.now ≤ later.now)
  return { s with state := result.1, now := later.now }

def AppRun.step (s : AppRun κ) : AppOp κ → Option (AppRun κ)
  | .ensureCsrfCookie now first random headers => do
    guard (s.now ≤ now)
    return { s.withAuth (s.state.auth.ensureCsrfCookie digest now first random headers).1 with now }
  | .findAccount username => do
    guard (s.state.hasCatalogRepository = true)
    let (row, scopes) ← s.state.users.findAccount username
    return { s with signIns := s.signIns ++ [.found row scopes] }
  | .findCredential row scopes => do
    guard (.found row scopes ∈ s.signIns)
    let credential := s.state.users.findCredential row scopes
    return { s with
      signIns := s.signIns.erase (.found row scopes) ++ (credential.map .stored).toList }
  | .verifyLogin now joined headers username password stored => do
    guard (s.now ≤ now ∧ ∀ credential ∈ stored, .stored credential ∈ s.signIns)
    let (auth, outcome) := s.state.auth.verifyLogin digest
      (fun hash password => if joined then some (verifyPassword hash password) else none)
      now headers username password stored
    let left := (stored.map fun credential => s.signIns.erase (.stored credential)).getD s.signIns
    return { s.withAuth auth with
      now
      signIns := left ++ (outcome.toOption.map .verified).toList }
  | .disableBootstrapBearer => some (s.withAuth s.state.auth.disableBootstrapBearer)
  | .completeLogin now verified sessionRandom csrfRandom => do
    guard (s.now ≤ now ∧ .verified verified ∈ s.signIns)
    return { s.withAuth
        (s.state.auth.completeLogin digest now verified sessionRandom csrfRandom).1 with
      now
      signIns := s.signIns.erase (.verified verified) }
  | .logout headers => some (s.withAuth (s.state.auth.logout digest headers))
  | .authorize clock headers requireCsrf requiredScope => do
    guard (s.now ≤ clock.now)
    return { s.withAuth (s.state.auth.authorizeWithScope digest clock.now clock.utcNow headers
        requireCsrf requiredScope).1 with
      now := clock.now }
  | .loadOperatorTokens records => some (s.withAuth (s.state.auth.loadOperatorTokens records))
  | .addOperatorToken record => some (s.withAuth (s.state.auth.addOperatorToken record))
  | .revokeOperatorToken id => some (s.withAuth (s.state.auth.revokeOperatorToken id))
  | .terminateSession clock later headers key =>
    s.handle clock later (s.state.terminateSession digest clock later headers key)
  | .rotateJellyfinToken clock later headers overlapSeconds random databaseNow fails =>
    s.handle clock later (s.state.rotateJellyfinToken digest clock later headers overlapSeconds
      random databaseNow fails)
  | .createUser clock later headers body argon id fails => do
    guard (id ∉ s.ids)
    let t ← s.handle clock later
      (s.state.createUser digest clock later headers body argon id fails)
    return { t with ids := id :: s.ids }
  | .updateUser clock later headers id body argon fails =>
    s.handle clock later (s.state.updateUser digest clock later headers id body argon fails)
  | .deleteUser clock later headers id fails =>
    s.handle clock later (s.state.deleteUser digest clock later headers id fails)

/-- From a new manager over stored accounts. -/
def appMachine (passwordHash : String) (bearerHash : κ) (secureCookies devAuthDisabled : Bool)
    (publicBaseUrl : String) (hasCatalogRepository : Bool) (users : Users)
    (outputProfile : Option (OutputProfile κ)) (jellyfinSetup : JellyfinSetup)
    (media : MediaSessions) : Machine (AppRun κ) (AppOp κ) where
  start := {
    state := {
      auth := .new passwordHash bearerHash secureCookies devAuthDisabled
      publicBaseUrl
      hasCatalogRepository
      users
      outputProfile
      jellyfinSetup
      media }
    ids := users.rows.map UserRow.id }
  step := AppRun.step digest verifyPassword

end Machine

/-! ## What a change may do -/

/-- The role grants what the scopes grant. -/
def roleCovers (role : String) (scopes : List String) : Bool :=
  match roleScopes role with
  | some granted => scopes.all (scopeSatisfied granted)
  | none => false

/-- The account of a sign-in still exists, is enabled and has a role that grants its scopes. -/
def Backed (users : Users) (user : SessionUser) : Prop :=
  user = .builtInOperator ∨ ∃ row ∈ users.rows, row.id = user.id ∧ row.enabled = true ∧
    roleCovers row.role user.scopes = true

section Condition

variable {κ : Type} [DecidableEq κ] (digest : String → κ)

/-- The user has a session that has not expired, or a sign-in under way with read credentials. -/
def AppRun.Holds (s : AppRun κ) (now : Time) (user : SessionUser) : Prop :=
  (∃ key session, s.state.auth.sessions.lookup key = some session ∧ now < session.expiresAt ∧
    session.user = user) ∨
  (∃ credential, .stored credential ∈ s.signIns ∧ credential.user = user) ∨
  ∃ verified, .verified verified ∈ s.signIns ∧ verified.user = user

/-- An update that reaches the database does not disable an account in use, and it gives no role
that grants less than a session or a sign-in of the account has; no such account is deleted. -/
def AccountsKept (s : AppRun κ) : AppOp κ → Prop
  | .updateUser clock later headers id body argon fails =>
    s.state.grants digest clock headers adminScope true = true →
    s.state.hasCatalogRepository = true → fails = false →
    ∀ input, checkUpdateUser argon body = .ok input →
      (∀ user, s.Holds later.now user → user.id = id →
        input.enabled ≠ some false ∧ ∀ role ∈ input.role, roleCovers role user.scopes = true) ∧
      ∀ row scopes, .found row scopes ∈ s.signIns → row.id = id →
        ∀ role ∈ input.role, roleCovers role scopes = true
  | .deleteUser clock later headers id fails =>
    s.state.grants digest clock headers adminScope true = true →
    s.state.hasCatalogRepository = true → fails = false →
    ∀ user, s.Holds later.now user → user.id ≠ id
  | _ => True

end Condition

/-! ## Scopes -/

/-- Scopes that are granted grant nothing new. -/
theorem scopeSatisfied_trans {granted scopes : List String} {required : String}
    (hcovers : scopes.all (scopeSatisfied granted) = true)
    (h : scopeSatisfied scopes required = true) : scopeSatisfied granted required = true := by
  obtain ⟨scope, hscope, hmeets⟩ := List.any_eq_true.mp h
  obtain ⟨wider, hwider, hgrants⟩ := List.any_eq_true.mp (List.all_eq_true.mp hcovers scope hscope)
  refine List.any_eq_true.mpr ⟨wider, hwider, ?_⟩
  have hread : readScope ≠ adminScope ∧ readScope ≠ controlScope ∧ adminScope ≠ controlScope := by
    decide
  simp only [decide_eq_true_eq] at hmeets hgrants ⊢
  rcases hgrants with rfl | rfl | ⟨rfl, rfl⟩
  · exact .inl rfl
  · exact hmeets
  · rcases hmeets with hadmin | rfl | ⟨rfl, hcontrol⟩
    · exact absurd hadmin hread.1
    · exact .inr (.inr ⟨rfl, rfl⟩)
    · exact absurd hcontrol hread.2.1

theorem scopeGranted_trans {granted scopes : List String} {required : Option String}
    (hcovers : scopes.all (scopeSatisfied granted) = true)
    (h : scopeGranted scopes required = true) : scopeGranted granted required = true := by
  cases required with
  | none => rfl
  | some required => exact scopeSatisfied_trans hcovers h

theorem roleCovers_of_roleScopes {role : String} {scopes : List String}
    (h : roleScopes role = some scopes) : roleCovers role scopes = true := by
  rw [roleCovers, h]
  refine List.all_eq_true.mpr fun scope hscope => List.any_eq_true.mpr ⟨scope, hscope, ?_⟩
  simp

/-! ## The invariant -/

section Invariant

variable {κ : Type} [DecidableEq κ] {digest : String → κ}
  {verifyPassword : String → String → Bool} {s t : AppRun κ}

/-- Whoever holds a session or has read credentials has an account that grants the scopes. -/
structure AccountsOk (s : AppRun κ) : Prop where
  held : ∀ user, s.Holds s.now user → Backed s.state.users user
  found : ∀ row scopes, .found row scopes ∈ s.signIns → row.id ∈ s.ids ∧
    ∀ other ∈ s.state.users.rows, other.id = row.id → roleCovers other.role scopes = true
  ids : ∀ row ∈ s.state.users.rows, row.id ∈ s.ids

/-- Every session is one from before, but for its CSRF token. -/
def AuthInner.Kept (after before : AuthInner κ) : Prop :=
  ∀ key session, after.sessions.lookup key = some session →
    ∃ old, before.sessions.lookup key = some old ∧ old.user = session.user ∧
      old.expiresAt = session.expiresAt

theorem AuthInner.Within.kept {after before : AuthInner κ} (h : after.Within before) :
    after.Kept before :=
  fun key session hsession => ⟨session, h key session hsession, rfl, rfl⟩

theorem kept_ensureCsrfCookie {auth : AuthInner κ} {now : Time} {first : κ}
    {random : Option String} {headers : HeaderMap} :
    (auth.ensureCsrfCookie digest now first random headers).1.Kept auth := by
  intro key session hsession
  cases hcall : auth.ensureCsrfCookie digest now first random headers with
  | mk after issued =>
    rw [hcall] at hsession
    rcases ensureCsrfCookie_cases hcall with ⟨token, old, csrf, -, hold, -, hafter⟩ | ⟨hafter, -⟩
    · rw [hafter] at hsession
      rcases KeyMap.lookup_insert_eq_some.mp hsession with ⟨rfl, rfl⟩ | ⟨-, hsession⟩
      · exact ⟨old, hold, rfl, rfl⟩
      · exact ⟨session, (lookup_retainSessions.mp hsession).1, rfl, rfl⟩
    · rw [hafter] at hsession
      exact ⟨session, (lookup_retainSessions.mp hsession).1, rfl, rfl⟩

/-- With the accounts as they are, nobody may come to hold more. -/
theorem AccountsOk.of_holds (h : AccountsOk s) (hids : t.ids = s.ids)
    (husers : t.state.users = s.state.users)
    (hheld : ∀ user, t.Holds t.now user → s.Holds s.now user ∨ Backed s.state.users user)
    (hfound : ∀ row scopes, .found row scopes ∈ t.signIns → .found row scopes ∈ s.signIns) :
    AccountsOk t where
  held user huser := by
    rw [husers]
    exact (hheld user huser).elim (h.held user) id
  found row scopes hrow := by
    rw [hids, husers]
    exact h.found row scopes (hfound row scopes hrow)
  ids row hrow := by
    rw [husers] at hrow
    rw [hids]
    exact h.ids row hrow

/-- The sessions of a later state are held in the earlier one. -/
theorem holds_of_kept (hkept : t.state.auth.Kept s.state.auth) {now later : Time}
    (hnow : now ≤ later) (hsigns : ∀ signIn ∈ t.signIns, signIn ∈ s.signIns) {user : SessionUser}
    (h : t.Holds later user) : s.Holds now user := by
  rcases h with ⟨key, session, hsession, hexpires, rfl⟩ | ⟨credential, hstored, rfl⟩ |
    ⟨verified, hverified, rfl⟩
  · obtain ⟨old, hold, huser, hsame⟩ := hkept key session hsession
    exact .inl ⟨key, old, hold, hsame ▸ Nat.lt_of_le_of_lt hnow hexpires, huser⟩
  · exact .inr (.inl ⟨credential, hsigns _ hstored, rfl⟩)
  · exact .inr (.inr ⟨verified, hsigns _ hverified, rfl⟩)

theorem AccountsOk.of_kept (h : AccountsOk s) (hids : t.ids = s.ids)
    (husers : t.state.users = s.state.users) (hkept : t.state.auth.Kept s.state.auth)
    (hnow : s.now ≤ t.now) (hsigns : ∀ signIn ∈ t.signIns, signIn ∈ s.signIns) : AccountsOk t :=
  h.of_holds hids husers (fun _ huser => .inl (holds_of_kept hkept hnow hsigns huser))
    fun _ _ hrow => hsigns _ hrow

/-! ## Steps -/

theorem AccountsOk.withAuth (h : AccountsOk s) {auth : AuthInner κ} {now : Time}
    (hkept : auth.Kept s.state.auth) (hnow : s.now ≤ now) :
    AccountsOk { s.withAuth auth with now } :=
  h.of_kept rfl rfl hkept hnow fun _ hsign => hsign

theorem accountsOk_findAccount (h : AccountsOk s) {username : String}
    (hstep : s.step digest verifyPassword (.findAccount username) = some t) : AccountsOk t := by
  obtain ⟨-, hstep⟩ := of_guard hstep
  obtain ⟨⟨row, scopes⟩, haccount, hstep⟩ := Option.bind_eq_some_iff.mp hstep
  obtain rfl := Option.some.inj hstep
  obtain ⟨hrow, hscopes⟩ := Users.findAccount_eq_some haccount
  constructor
  · rintro user (hsession | ⟨credential, hstored, rfl⟩ | ⟨verified, hverified, rfl⟩)
    · exact h.held user (.inl hsession)
    · exact h.held _ (.inr (.inl ⟨credential, by simpa using hstored, rfl⟩))
    · exact h.held _ (.inr (.inr ⟨verified, by simpa using hverified, rfl⟩))
  · intro found granted hfound
    rcases List.mem_append.mp hfound with hfound | hfound
    · exact h.found found granted hfound
    · obtain ⟨rfl, rfl⟩ := SignIn.found.inj (List.mem_singleton.mp hfound)
      refine ⟨h.ids found hrow, fun other hother hid => ?_⟩
      rw [Table.eq_of_key s.state.users.ids hother hrow hid]
      exact roleCovers_of_roleScopes hscopes
  · exact h.ids

theorem accountsOk_findCredential (h : AccountsOk s) {row : UserRow} {scopes : List String}
    (hstep : s.step digest verifyPassword (.findCredential row scopes) = some t) :
    AccountsOk t := by
  obtain ⟨hfound, hstep⟩ := of_guard hstep
  obtain rfl := Option.some.inj hstep
  have hleft : ∀ signIn ∈ s.signIns.erase (.found row scopes), signIn ∈ s.signIns :=
    fun _ hsign => List.mem_of_mem_erase hsign
  refine h.of_holds rfl rfl ?_ ?_
  · rintro user (hsession | ⟨credential, hstored, rfl⟩ | ⟨verified, hverified, rfl⟩)
    · exact .inl (.inl hsession)
    · rcases List.mem_append.mp hstored with hstored | hstored
      · exact .inl (.inr (.inl ⟨credential, hleft _ hstored, rfl⟩))
      · -- The credentials that have just been read.
        obtain ⟨read, hread, hsame⟩ := Option.map_eq_some_iff.mp (Option.mem_toList.mp hstored)
        obtain rfl := SignIn.stored.inj hsame
        obtain ⟨hid, hscopes, other, hother, hsameid, henabled⟩ :=
          Users.findCredential_eq_some hread
        refine .inr (.inr ⟨other, hother, hsameid.trans hid.symm, henabled, ?_⟩)
        rw [hscopes]
        exact (h.found row scopes hfound).2 other hother hsameid
    · rcases List.mem_append.mp hverified with hverified | hverified
      · exact .inl (.inr (.inr ⟨verified, hleft _ hverified, rfl⟩))
      · obtain ⟨read, -, hsame⟩ := Option.map_eq_some_iff.mp (Option.mem_toList.mp hverified)
        cases hsame
  · intro other granted hother
    rcases List.mem_append.mp hother with hother | hother
    · exact hleft _ hother
    · obtain ⟨read, -, hsame⟩ := Option.map_eq_some_iff.mp (Option.mem_toList.mp hother)
      cases hsame

theorem accountsOk_verifyLogin (h : AccountsOk s) {now : Time} {joined : Bool}
    {headers : HeaderMap} {username password : String} {stored : Option StoredUserCredential}
    (hstep : s.step digest verifyPassword
      (.verifyLogin now joined headers username password stored) = some t) : AccountsOk t := by
  obtain ⟨⟨hnow, hstored⟩, hstep⟩ := of_guard hstep
  have hwithin : ((s.state.auth.verifyLogin digest
      (fun hash password => if joined then some (verifyPassword hash password) else none)
      now headers username password stored).1).Within s.state.auth := fun _ _ => lookup_csrfBinding
  generalize hcall : s.state.auth.verifyLogin digest
    (fun hash password => if joined then some (verifyPassword hash password) else none)
    now headers username password stored = called at hstep hwithin
  obtain ⟨auth, outcome⟩ := called
  obtain rfl := Option.some.inj hstep
  have hleft : ∀ signIn ∈ (stored.map fun credential =>
      s.signIns.erase (.stored credential)).getD s.signIns, signIn ∈ s.signIns := by
    intro signIn hsign
    cases stored with
    | none => exact hsign
    | some credential => exact List.mem_of_mem_erase hsign
  have hnew : ∀ signIn ∈ (outcome.toOption.map SignIn.verified).toList,
      ∃ verified, outcome = .ok verified ∧ signIn = .verified verified := by
    intro signIn hsign
    obtain ⟨verified, hok, rfl⟩ := Option.map_eq_some_iff.mp (Option.mem_toList.mp hsign)
    exact ⟨verified, of_toOption hok, rfl⟩
  refine h.of_holds rfl rfl ?_ ?_
  · rintro user (⟨key, session, hsession, hexpires, rfl⟩ | ⟨credential, hcredential, rfl⟩ |
      ⟨verified, hverified, rfl⟩)
    · exact .inl (.inl ⟨key, session, hwithin _ _ hsession,
        Nat.lt_of_le_of_lt hnow hexpires, rfl⟩)
    · rcases List.mem_append.mp hcredential with hcredential | hcredential
      · exact .inl (.inr (.inl ⟨credential, hleft _ hcredential, rfl⟩))
      · obtain ⟨verified, -, hsame⟩ := hnew _ hcredential
        cases hsame
    · rcases List.mem_append.mp hverified with hverified | hverified
      · exact .inl (.inr (.inr ⟨verified, hleft _ hverified, rfl⟩))
      · obtain ⟨same, rfl, hsame⟩ := hnew _ hverified
        obtain rfl := SignIn.verified.inj hsame
        rcases verifyLogin_user (congrArg Prod.snd hcall) with huser | ⟨credential, hcredential, huser⟩
        · exact .inr (.inl huser)
        · exact .inl (.inr (.inl ⟨credential, hstored credential hcredential, huser.symm⟩))
  · intro row scopes hrow
    rcases List.mem_append.mp hrow with hrow | hrow
    · exact hleft _ hrow
    · obtain ⟨verified, -, hsame⟩ := hnew _ hrow
      cases hsame

/-- The new session is that of the verified sign-in. -/
theorem lookup_completeLogin {auth : AuthInner κ} {now : Time} {verified : VerifiedLogin κ}
    {sessionRandom csrfRandom : Option String} {key : κ} {session : SessionRecord κ}
    (h : (auth.completeLogin digest now verified sessionRandom csrfRandom).1.sessions.lookup key =
      some session) :
    auth.sessions.lookup key = some session ∨ session.user = verified.user := by
  unfold AuthInner.completeLogin at h
  split at h
  · rcases KeyMap.lookup_insert_eq_some.mp h with ⟨-, rfl⟩ | ⟨-, hold⟩
    · exact .inr rfl
    · refine .inl ?_
      split at hold
      · exact (KeyMap.lookup_erase_eq_some.mp hold).2
      · exact hold
  · exact .inl h

theorem accountsOk_completeLogin (h : AccountsOk s) {now : Time} {verified : VerifiedLogin κ}
    {sessionRandom csrfRandom : Option String}
    (hstep : s.step digest verifyPassword
      (.completeLogin now verified sessionRandom csrfRandom) = some t) : AccountsOk t := by
  obtain ⟨⟨hnow, hverified⟩, hstep⟩ := of_guard hstep
  obtain rfl := Option.some.inj hstep
  have hleft : ∀ signIn ∈ s.signIns.erase (.verified verified), signIn ∈ s.signIns :=
    fun _ hsign => List.mem_of_mem_erase hsign
  refine h.of_holds rfl rfl ?_ fun _ _ hrow => hleft _ hrow
  rintro user (⟨key, session, hsession, hexpires, rfl⟩ | ⟨credential, hcredential, rfl⟩ |
    ⟨other, hother, rfl⟩)
  · rcases lookup_completeLogin hsession with hold | hnew
    · exact .inl (.inl ⟨key, session, hold, Nat.lt_of_le_of_lt hnow hexpires, rfl⟩)
    · exact .inl (.inr (.inr ⟨verified, hverified, hnew.symm⟩))
  · exact .inl (.inr (.inl ⟨credential, hleft _ hcredential, rfl⟩))
  · exact .inl (.inr (.inr ⟨other, hleft _ hother, rfl⟩))

/-! ## Changes of accounts -/

omit [DecidableEq κ] in
theorem roleCovers_update {input : UpdateUserInput} {row : UserRow} {scopes : List String}
    (h : roleCovers row.role scopes = true)
    (hrole : ∀ role ∈ input.role, roleCovers role scopes = true) :
    roleCovers (row.update input).role scopes = true := by
  cases hinput : input.role with
  | none => simpa [UserRow.update, hinput] using h
  | some role => simpa [UserRow.update, hinput] using hrole role hinput

omit [DecidableEq κ] in
theorem backed_create {users after : Users} {id : Uuid} {input : CreateUserInput} {row : UserRow}
    (hcreate : users.create id input = some (after, row)) {user : SessionUser}
    (h : Backed users user) : Backed after user := by
  rcases h with hbuiltin | ⟨other, hother, hbacked⟩
  · exact .inl hbuiltin
  · refine .inr ⟨other, ?_, hbacked⟩
    rw [(Users.rows_create hcreate).1]
    exact List.mem_append_left _ hother

omit [DecidableEq κ] in
/-- An account backs a user still if the update leaves it enabled and with a role that covers the
user's scopes. -/
theorem backed_update {users after : Users} {id : Uuid} {input : UpdateUserInput}
    {found : Option UserRow} (hupdate : users.update id input = some (after, found))
    {user : SessionUser} (h : Backed users user)
    (hkeeps : user.id = id →
      input.enabled ≠ some false ∧ ∀ role ∈ input.role, roleCovers role user.scopes = true) :
    Backed after user := by
  rcases h with hbuiltin | ⟨row, hrow, hid, henabled, hcovers⟩
  · exact .inl hbuiltin
  · rw [Backed, Users.rows_update hupdate]
    have hmem := Table.mem_update_of_mem (p := fun row => row.id = id) (f := UserRow.update input) hrow
    by_cases hsame : row.id = id
    · obtain ⟨hon, hrole⟩ := hkeeps (hid.symm.trans hsame)
      refine .inr ⟨row.update input, by simpa [hsame] using hmem, hid, ?_,
        roleCovers_update hcovers hrole⟩
      cases hinput : input.enabled with
      | none => simpa [UserRow.update, hinput] using henabled
      | some enabled =>
        cases enabled with
        | true => simp [UserRow.update, hinput]
        | false => exact absurd hinput hon
    · exact .inr ⟨row, by simpa [hsame] using hmem, hid, henabled, hcovers⟩

omit [DecidableEq κ] in
theorem backed_delete {users : Users} {id : Uuid} {user : SessionUser} (h : Backed users user)
    (hother : user.id ≠ id) : Backed (users.delete id).1 user := by
  rcases h with hbuiltin | ⟨row, hrow, hid, hbacked⟩
  · exact .inl hbuiltin
  · exact .inr ⟨row, Table.mem_delete.mpr ⟨hrow, decide_eq_false (hid ▸ hother)⟩, hid, hbacked⟩

/-! ## Handlers -/

omit [DecidableEq κ] in
theorem of_handle {clock later : Clock} {result : AppState κ × Response}
    (h : s.handle clock later result = some t) :
    s.now ≤ later.now ∧ t = { s with state := result.1, now := later.now } := by
  obtain ⟨⟨hnow, hlater⟩, h⟩ := of_guard h
  exact ⟨hnow.trans hlater, (Option.some.inj h).symm⟩

theorem accountsOk_createUser (h : AccountsOk s) {clock later : Clock} {headers : HeaderMap}
    {body : CreateUserRequest} {argon : String → Option String} {id : Uuid} {fails : Bool}
    (hstep : s.step digest verifyPassword
      (.createUser clock later headers body argon id fails) = some t) : AccountsOk t := by
  obtain ⟨hfresh, hstep⟩ := of_guard hstep
  obtain ⟨handled, hhandled, hstep⟩ := Option.bind_eq_some_iff.mp hstep
  obtain ⟨hnow, rfl⟩ := of_handle hhandled
  obtain rfl := Option.some.inj hstep
  obtain ⟨auth, hwithin, hsame | ⟨-, input, users, row, -, hcreate, hchanged⟩⟩ :=
    @createUser_cases _ _ digest s.state clock later headers body argon id fails
  · rw [hsame]
    have hkept := h.withAuth hwithin.kept hnow
    refine ⟨hkept.held, fun found scopes hfound => ?_, fun row hrow => ?_⟩
    · exact ⟨List.mem_cons_of_mem _ (hkept.found found scopes hfound).1,
        (hkept.found found scopes hfound).2⟩
    · exact List.mem_cons_of_mem _ (hkept.ids row hrow)
  · rw [hchanged]
    obtain ⟨hrows, hid⟩ := Users.rows_create hcreate
    have hkept := h.withAuth hwithin.kept hnow
    refine ⟨fun user huser => backed_create hcreate (hkept.held user huser),
      fun found scopes hfound => ?_, fun other hother => ?_⟩
    · obtain ⟨hknown, hcovers⟩ := hkept.found found scopes hfound
      refine ⟨List.mem_cons_of_mem _ hknown, fun other hother hsame => ?_⟩
      simp only [hrows] at hother
      rcases List.mem_append.mp hother with hother | hother
      · exact hcovers other hother hsame
      · -- A new account has a new identifier.
        rw [List.mem_singleton.mp hother, hid] at hsame
        rw [← hsame] at hknown
        exact absurd hknown hfresh
    · simp only [hrows] at hother
      rcases List.mem_append.mp hother with hother | hother
      · exact List.mem_cons_of_mem _ (hkept.ids other hother)
      · rw [List.mem_singleton.mp hother, hid]
        exact List.mem_cons_self

theorem accountsOk_updateUser (h : AccountsOk s) {clock later : Clock} {headers : HeaderMap}
    {id : Uuid} {body : UpdateUserRequest} {argon : String → Option String} {fails : Bool}
    (hkeeps : AccountsKept digest s (.updateUser clock later headers id body argon fails))
    (hstep : s.step digest verifyPassword
      (.updateUser clock later headers id body argon fails) = some t) : AccountsOk t := by
  obtain ⟨hnow, rfl⟩ := of_handle hstep
  obtain ⟨auth, hwithin, hsame | ⟨hgrants, hrepository, hfails, input, users, found, hcheck,
    hupdate, hchanged⟩⟩ :=
    @updateUser_cases _ _ digest s.state clock later headers id body argon fails
  · rw [hsame]
    exact h.withAuth hwithin.kept hnow
  · rw [hchanged]
    obtain ⟨hheld, hfound⟩ := hkeeps hgrants hrepository hfails input hcheck
    have hkept := h.withAuth hwithin.kept hnow
    refine ⟨fun user huser => ?_, fun row scopes hrow => ?_, fun row hrow => ?_⟩
    · have hholds := @holds_of_kept _ _ s { s.withAuth auth with now := later.now } hwithin.kept
        _ _ (Nat.le_refl later.now) (fun _ hsign => hsign) user huser
      exact backed_update hupdate (hkept.held user huser) (hheld user hholds)
    · obtain ⟨hknown, hcovers⟩ := hkept.found row scopes hrow
      refine ⟨hknown, fun other hother hid => ?_⟩
      simp only [Users.rows_update hupdate] at hother
      rcases Table.update_cases hother with ⟨hold, -⟩ | ⟨old, hold, hsame, rfl⟩
      · exact hcovers other hold hid
      · have hrowid : row.id = id := hid.symm.trans (of_decide_eq_true hsame)
        exact roleCovers_update (hcovers old hold hid) (hfound row scopes hrow hrowid)
    · simp only [Users.rows_update hupdate] at hrow
      rcases Table.update_cases hrow with ⟨hold, -⟩ | ⟨old, hold, -, rfl⟩
      · exact hkept.ids row hold
      · exact hkept.ids old hold

theorem accountsOk_deleteUser (h : AccountsOk s) {clock later : Clock} {headers : HeaderMap}
    {id : Uuid} {fails : Bool}
    (hkeeps : AccountsKept digest s (.deleteUser clock later headers id fails))
    (hstep : s.step digest verifyPassword (.deleteUser clock later headers id fails) = some t) :
    AccountsOk t := by
  obtain ⟨hnow, rfl⟩ := of_handle hstep
  obtain ⟨auth, hwithin, hsame | ⟨hgrants, hrepository, hfails, hchanged⟩⟩ :=
    @deleteUser_cases _ _ digest s.state clock later headers id fails
  · rw [hsame]
    exact h.withAuth hwithin.kept hnow
  · rw [hchanged]
    have hkept := h.withAuth hwithin.kept hnow
    refine ⟨fun user huser => ?_, fun row scopes hrow => ?_, fun row hrow => ?_⟩
    · have hholds := @holds_of_kept _ _ s { s.withAuth auth with now := later.now } hwithin.kept
        _ _ (Nat.le_refl later.now) (fun _ hsign => hsign) user huser
      exact backed_delete (hkept.held user huser) (hkeeps hgrants hrepository hfails user hholds)
    · obtain ⟨hknown, hcovers⟩ := hkept.found row scopes hrow
      exact ⟨hknown, fun other hother => hcovers other (Table.mem_delete.mp hother).1⟩
    · exact hkept.ids row (Table.mem_delete.mp hrow).1

/-- Every step that keeps the accounts in use keeps the invariant. -/
theorem AccountsOk.step (h : AccountsOk s) {op : AppOp κ} (hkeeps : AccountsKept digest s op)
    (hstep : s.step digest verifyPassword op = some t) : AccountsOk t := by
  cases op with
  | ensureCsrfCookie now first random headers =>
    obtain ⟨hnow, hstep⟩ := of_guard hstep
    obtain rfl := Option.some.inj hstep
    exact h.withAuth kept_ensureCsrfCookie hnow
  | findAccount username => exact accountsOk_findAccount h hstep
  | findCredential row scopes => exact accountsOk_findCredential h hstep
  | verifyLogin now joined headers username password stored =>
    exact accountsOk_verifyLogin h hstep
  | disableBootstrapBearer =>
    obtain rfl := Option.some.inj hstep
    exact h.withAuth (fun _ session hsession => ⟨session, hsession, rfl, rfl⟩) (Nat.le_refl _)
  | completeLogin now verified sessionRandom csrfRandom => exact accountsOk_completeLogin h hstep
  | logout headers =>
    obtain rfl := Option.some.inj hstep
    refine h.withAuth (fun key session hsession => ⟨session, ?_, rfl, rfl⟩) (Nat.le_refl _)
    unfold AuthInner.logout at hsession
    split at hsession
    · exact (KeyMap.lookup_erase_eq_some.mp hsession).2
    · exact hsession
  | authorize clock headers requireCsrf requiredScope =>
    obtain ⟨hnow, hstep⟩ := of_guard hstep
    obtain rfl := Option.some.inj hstep
    exact h.withAuth (fun key session hsession =>
      ⟨session, lookup_authorizeWithScope hsession, rfl, rfl⟩) hnow
  | loadOperatorTokens records =>
    obtain rfl := Option.some.inj hstep
    exact h.withAuth (fun _ session hsession => ⟨session, hsession, rfl, rfl⟩) (Nat.le_refl _)
  | addOperatorToken record =>
    obtain rfl := Option.some.inj hstep
    exact h.withAuth (fun _ session hsession => ⟨session, hsession, rfl, rfl⟩) (Nat.le_refl _)
  | revokeOperatorToken id =>
    obtain rfl := Option.some.inj hstep
    exact h.withAuth (fun _ session hsession => ⟨session, hsession, rfl, rfl⟩) (Nat.le_refl _)
  | terminateSession clock later headers key =>
    obtain ⟨hnow, rfl⟩ := of_handle hstep
    obtain ⟨auth, hwithin, hsame | ⟨-, hchanged⟩⟩ :=
      @terminateSession_cases _ _ digest s.state clock later headers key
    · exact hsame ▸ h.withAuth hwithin.kept hnow
    · rw [hchanged]
      exact h.of_kept rfl rfl hwithin.kept hnow fun _ hsign => hsign
  | rotateJellyfinToken clock later headers overlapSeconds random databaseNow fails =>
    obtain ⟨hnow, rfl⟩ := of_handle hstep
    obtain ⟨auth, hwithin, hsame | ⟨-, outputProfile, jellyfinSetup, hchanged⟩⟩ :=
      @rotateJellyfinToken_cases _ _ digest s.state clock later headers overlapSeconds random
        databaseNow fails
    · exact hsame ▸ h.withAuth hwithin.kept hnow
    · rw [hchanged]
      exact h.of_kept rfl rfl hwithin.kept hnow fun _ hsign => hsign
  | createUser clock later headers body argon id fails => exact accountsOk_createUser h hstep
  | updateUser clock later headers id body argon fails =>
    exact accountsOk_updateUser h hkeeps hstep
  | deleteUser clock later headers id fails => exact accountsOk_deleteUser h hkeeps hstep

end Invariant

/-- In every run whose updates and deletions keep the accounts in use, a browser session of a stored
account authorizes a request only if, at that moment, the account exists, is enabled and has a role
that grants the required scope. -/
theorem access_ends_with_account {κ : Type} [DecidableEq κ] (digest : String → κ)
    (verifyPassword : String → String → Bool) (passwordHash : String) (bearerHash : κ)
    (secureCookies devAuthDisabled : Bool) (publicBaseUrl : String) (hasCatalogRepository : Bool)
    (users : Users) (outputProfile : Option (OutputProfile κ)) (jellyfinSetup : JellyfinSetup)
    (media : MediaSessions) (s : AppRun κ)
    (h : (appMachine digest verifyPassword passwordHash bearerHash secureCookies devAuthDisabled
      publicBaseUrl hasCatalogRepository users outputProfile jellyfinSetup media).ReachableWhere
      (AccountsKept digest) s)
    (clock : Clock) (headers : HeaderMap) (requireCsrf : Bool) (requiredScope : Option String)
    (hnow : s.now ≤ clock.now)
    (hsession : (s.state.auth.authorizeWithScope digest clock.now clock.utcNow headers requireCsrf
      requiredScope).2 = some .session) :
    ∃ key session, s.state.auth.presentedSession digest headers = some (key, session) ∧
      (session.user = .builtInOperator ∨
        ∃ row ∈ s.state.users.rows, row.id = session.user.id ∧ row.enabled = true ∧
          ∃ scopes, roleScopes row.role = some scopes ∧
            scopeGranted scopes requiredScope = true) := by
  have hok : AccountsOk s := by
    refine h.invariant ⟨?_, ?_, ?_⟩ fun s op t hs hkeeps hstep => hs.step hkeeps hstep
    · rintro user (⟨key, session, hlookup, -⟩ | ⟨credential, hstored, -⟩ | ⟨verified, hverified, -⟩)
      · rw [appMachine, AuthInner.new, AList.lookup_empty] at hlookup
        cases hlookup
      · cases hstored
      · cases hverified
    · intro row scopes hrow
      cases hrow
    · exact fun row hrow => List.mem_map_of_mem hrow
  obtain ⟨token, session, htoken, hlookup, hexpires, hscope, -⟩ := authorizeWithScope_session hsession
  refine ⟨digest token, session, ?_, ?_⟩
  · rw [AuthInner.presentedSession, htoken, Option.bind_eq_bind, Option.bind_some, hlookup]
    rfl
  · have hholds : s.Holds s.now session.user :=
      .inl ⟨digest token, session, hlookup, Nat.lt_of_le_of_lt hnow hexpires, rfl⟩
    rcases hok.held _ hholds with hbuiltin | ⟨row, hrow, hid, henabled, hcovers⟩
    · exact .inl hbuiltin
    · refine .inr ⟨row, hrow, hid, henabled, ?_⟩
      unfold roleCovers at hcovers
      split at hcovers
      · rename_i scopes hscopes
        exact ⟨scopes, hscopes, scopeGranted_trans hcovers hscope⟩
      · cases hcovers

section Example

def operatorBrowser : HeaderMap := browser "iptv_session=s; iptv_csrf=c" "c"
def aliceBrowser : HeaderMap := browser "iptv_session=t; iptv_csrf=d" "d"

def aliceRow : UserRow where
  id := "7"
  username := "alice"
  displayName := "Alice"
  passwordHash := "secret"
  role := "operator"

def aliceUser : SessionUser where
  id := "7"
  username := "alice"
  displayName := "Alice"
  scopes := [controlScope, outputScope]

/-- The operator signs in and creates an account, and its owner signs in. -/
def aliceSignsIn : List (AppOp String) :=
  [.ensureCsrfCookie 1 "" (some "l") [],
    .verifyLogin 2 true (browser "iptv_csrf=l" "l") "operator" "pass" none,
    .completeLogin 3 ⟨.login "l", .builtInOperator⟩ (some "s") (some "c"),
    .createUser ⟨4, 4⟩ ⟨4, 4⟩ operatorBrowser ⟨"alice", "Alice", "secret", some "operator"⟩ some "7"
      false,
    .ensureCsrfCookie 5 "" (some "m") [],
    .findAccount "alice",
    .findCredential aliceRow [controlScope, outputScope],
    .verifyLogin 6 true (browser "iptv_csrf=m" "m") "alice" "secret" (some ⟨aliceUser, "secret"⟩),
    .completeLogin 7 ⟨.login "m", aliceUser⟩ (some "t") (some "d")]

/-- A relay whose password hashes are the passwords. -/
def smallRelay : Machine (AppRun String) (AppOp String) :=
  appMachine id (fun hash password => hash = password) "pass" "bearer" true false "http://relay" true
    .empty none .regenerationRequired ⟨∅, []⟩

/-- The operator disables the account, and the session goes on with the scopes of its role. -/
theorem disabled_account_still_authorized :
    ∃ s, smallRelay.Reachable s ∧ ∃ key session,
      s.state.auth.presentedSession id aliceBrowser = some (key, session) ∧
      session.user = aliceUser ∧
      (s.state.auth.authorizeWithScope id 9 9 aliceBrowser true (some controlScope)).2 =
        some .session ∧
      ∀ row ∈ s.state.users.rows, row.id = aliceUser.id → row.enabled = false := by
  obtain ⟨s, hs, hp⟩ := smallRelay.exists_reachable_of_run
    (aliceSignsIn ++ [.updateUser ⟨8, 8⟩ ⟨8, 8⟩ operatorBrowser "7" ⟨none, none, none, some false⟩
      some false])
    (fun s => ((s.state.auth.presentedSession id aliceBrowser).any fun presented =>
        presented.2.user = aliceUser) ∧
      (s.state.auth.authorizeWithScope id 9 9 aliceBrowser true (some controlScope)).2 =
        some .session ∧
      ∀ row ∈ s.state.users.rows, row.id = aliceUser.id → row.enabled = false) (by decide +kernel)
  obtain ⟨hpresented, hsession, hrows⟩ := of_decide_eq_true hp
  obtain ⟨⟨key, session⟩, hpresented, huser⟩ := Option.any_eq_true _ _ |>.mp hpresented
  exact ⟨s, hs, key, session, hpresented, of_decide_eq_true huser, hsession, hrows⟩

theorem checkUpdateUser_ok {argon : String → Option String} {body : UpdateUserRequest}
    {input : UpdateUserInput} (h : checkUpdateUser argon body = .ok input) :
    input.enabled = body.enabled ∧ input.role = body.role := by
  unfold checkUpdateUser at h
  split at h
  · cases h
  · split at h
    · obtain rfl := Except.ok.inj h
      exact ⟨rfl, rfl⟩
    · split at h
      · cases h
      · obtain rfl := Except.ok.inj h
        exact ⟨rfl, rfl⟩

/-- Steps that delete no account and change names and passwords at most. -/
def keepsRights : AppOp String → Bool
  | .updateUser _ _ _ _ body _ _ => body.enabled = none ∧ body.role = none
  | .deleteUser .. => false
  | _ => true

theorem accountsKept_of_keepsRights {s : AppRun String} {op : AppOp String}
    (h : keepsRights op = true) : AccountsKept id s op := by
  cases op with
  | updateUser clock later headers id body argon fails =>
    obtain ⟨henabled, hrole⟩ := of_decide_eq_true h
    intro _ _ _ input hcheck
    obtain ⟨hsame, hsame'⟩ := checkUpdateUser_ok hcheck
    rw [hsame, hsame', henabled, hrole]
    exact ⟨fun _ _ _ => ⟨nofun, nofun⟩, fun _ _ _ _ => nofun⟩
  | deleteUser clock later headers id fails => cases h
  | _ => trivial

/-- The account is renamed, and the session still has the rights of the account. -/
theorem renamed_account_authorized :
    ∃ s, smallRelay.ReachableWhere (AccountsKept id) s ∧ s.now ≤ 9 ∧
      (s.state.auth.authorizeWithScope id 9 9 aliceBrowser true (some controlScope)).2 =
        some .session ∧
      ∃ key session, s.state.auth.presentedSession id aliceBrowser = some (key, session) ∧
        (session.user = .builtInOperator ∨
          ∃ row ∈ s.state.users.rows, row.id = session.user.id ∧ row.enabled = true ∧
            ∃ scopes, roleScopes row.role = some scopes ∧
              scopeGranted scopes (some controlScope) = true) := by
  obtain ⟨s, hs, hp⟩ := smallRelay.exists_reachableWhere_of_run (AccountsKept id)
    (fun _ op => keepsRights op)
    (aliceSignsIn ++ [.updateUser ⟨8, 8⟩ ⟨8, 8⟩ operatorBrowser "7"
      ⟨some "Alice Smith", none, none, none⟩ some false])
    (fun s => s.now ≤ 9 ∧
      (s.state.auth.authorizeWithScope id 9 9 aliceBrowser true (some controlScope)).2 =
        some .session)
    (fun _ _ _ h => accountsKept_of_keepsRights h) (by decide +kernel)
  obtain ⟨hnow, hsession⟩ := of_decide_eq_true hp
  exact ⟨s, hs, hnow, hsession, access_ends_with_account id _ _ _ _ _ _ _ _ _ _ _ s hs ⟨9, 9⟩
    aliceBrowser true (some controlScope) hnow hsession⟩

end Example

end IptvRelay.Auth
