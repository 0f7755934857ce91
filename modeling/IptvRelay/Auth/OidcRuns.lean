import IptvRelay.Auth.Oidc
import IptvRelay.Auth.SessionRuns

/-!
# Sign-ins through the provider over whole runs

Any number of browsers start logins, come back with the answer of the provider or cancel, while
the other calls of the manager go on. A request waits between its parts: for the cached
provider, for the table of logins, for the provider's metadata, for its answer to the token
request and for its keys. What other requests do in between is open.
-/

namespace IptvRelay.Auth

open Transition Checked

/-- A callback whose state has been taken out of the table. -/
structure Attempt where
  headers : HeaderMap
  state : String
  code : String
  takenAt : Time
  pending : PendingLogin
  deriving DecidableEq, Repr

/-- What a request needs the provider for. -/
inductive Purpose where
  | start
  | callback (attempt : Attempt)
  deriving DecidableEq, Repr

/-- Where a request waits. -/
inductive Place where
  | reads (purpose : Purpose)
  | discovers (purpose : Purpose)
  | registers (provider : OidcProvider)
  | exchanges (attempt : Attempt) (provider : OidcProvider)
  | fetchesKeys (attempt : Attempt) (provider : OidcProvider) (idToken kid : String)
      (algorithm : Algorithm)
  | completes (attempt : Attempt) (provider : OidcProvider) (claims : IdTokenClaims)
  deriving DecidableEq, Repr

def Purpose.next (provider : OidcProvider) : Purpose → Place
  | .start => .registers provider
  | .callback attempt => .exchanges attempt provider

/-- A login that the provider has vouched for, with the session it received. -/
structure OidcLogin where
  attempt : Attempt
  provider : OidcProvider
  claims : IdTokenClaims
  session : String
  deriving DecidableEq, Repr

/-- A login whose password was right. -/
structure PasswordLogin (κ : Type) where
  username : String
  password : String
  stored : Option StoredUserCredential
  verified : VerifiedLogin κ
  deriving DecidableEq, Repr

/-- The manager with its history, the state of the OIDC client, the requests that wait, and what
has happened so far: the browsers sent to the provider, the tickets and the logins. -/
structure OidcRun (κ : Type) where
  sign : AuthRun κ
  provider : Option OidcProvider := none
  pending : AList fun _ : κ => PendingLogin := ∅
  requests : List Place := []
  sent : List OidcAuthorization := []
  ledger : List (Tickets.Entry κ PendingLogin) := []
  logins : List OidcLogin := []
  passwordLogins : List (PasswordLogin κ) := []

inductive OidcOp (κ : Type) where
  | start
  | callback (now : Time) (headers : HeaderMap) (state : String) (code : Option String)
  | cancel (now : Time) (headers : HeaderMap) (state : String)
  | readProvider (purpose : Purpose)
  | discovered (purpose : Purpose) (response : Option HttpResponse)
  | register (provider : OidcProvider) (now : Time) (first : κ) (state verifier nonce : String)
  | registerFails (provider : OidcProvider)
  | exchanged (attempt : Attempt) (provider : OidcProvider) (response : Option HttpResponse)
  | fetchedKeys (attempt : Attempt) (provider : OidcProvider) (idToken kid : String)
      (algorithm : Algorithm) (response : Option HttpResponse) (decodeNow : Nat)
      (wallNow : Option Int)
  | complete (attempt : Attempt) (provider : OidcProvider) (claims : IdTokenClaims) (now : Time)
      (sessionRandom csrfRandom : Option String)
  | auth (op : AuthOp κ)

section Machine

variable {κ Key : Type} [DecidableEq κ] (digest : String → κ)
  (verifyPassword : String → String → Bool) (lib : OidcLibrary Key) (config : OidcConfig)

def OidcRun.at (s : OidcRun κ) (now : Time) : OidcRun κ := { s with sign := { s.sign with now } }

/-- A request goes from one place to the next, or it ends. -/
def OidcRun.move (s : OidcRun κ) (place : Place) (next : Option Place) : OidcRun κ :=
  { s with requests := next.toList ++ s.requests.erase place }

/-- `verify_state_cookie` and `take_pending`. -/
def OidcRun.take (s : OidcRun κ) (now : Time) (headers : HeaderMap) (state : String) :
    OidcRun κ × Except OidcError PendingLogin :=
  match verifyStateCookie digest headers state with
  | .error error => (s, .error error)
  | .ok () =>
    let (pending, login) := takePending digest now state s.pending
    ({ s.at now with
      pending
      ledger := s.ledger ++ [.redeemed (digest state) login.toOption] }, login)

/-- The callback up to its first reading of the provider. -/
def OidcRun.callback (s : OidcRun κ) (now : Time) (headers : HeaderMap) (state : String)
    (code : Option String) : OidcRun κ :=
  match s.take digest now headers state with
  | (s, .error _) => s
  | (s, .ok pending) =>
    match callbackCode code with
    | .error _ => s
    | .ok code =>
      let attempt : Attempt := { headers, state, code, takenAt := now, pending }
      { s with requests := .reads (.callback attempt) :: s.requests }

/-- The cached provider, or a request for its metadata. -/
def OidcRun.readProvider (s : OidcRun κ) (purpose : Purpose) : Option Place :=
  match s.provider with
  | some provider => some (purpose.next provider)
  | none => (metadataUrl lib config).toOption.map fun _ => .discovers purpose

def OidcRun.discovered (s : OidcRun κ) (purpose : Purpose) (response : Option HttpResponse) :
    OidcRun κ :=
  match discoveredProvider lib config response with
  | .error _ => s.move (.discovers purpose) none
  | .ok provider =>
    { s.move (.discovers purpose) (some (purpose.next provider)) with provider := some provider }

def OidcRun.register (s : OidcRun κ) (provider : OidcProvider) (now : Time) (first : κ)
    (state verifier nonce : String) : OidcRun κ :=
  { (s.at now).move (.registers provider) none with
    pending := registerLogin digest now first state verifier nonce s.pending
    ledger := s.ledger ++
      [.issued (digest state) { verifier, nonce, expiresAt := now + oidcStateTtl }]
    sent := s.sent ++
      [authorization lib config provider state verifier nonce s.sign.auth.secureCookies] }

/-- The answer to the token request, up to the request for the keys. -/
def exchangedPlace (attempt : Attempt) (provider : OidcProvider)
    (response : Option HttpResponse) : Except OidcError Place := do
  let idToken ← exchangedToken lib response
  let (kid, algorithm) ← tokenKey lib idToken
  return .fetchesKeys attempt provider idToken kid algorithm

/-- The keys of the provider, up to the new session. -/
def fetchedPlace (attempt : Attempt) (provider : OidcProvider) (idToken kid : String)
    (algorithm : Algorithm) (response : Option HttpResponse) (decodeNow : Nat)
    (wallNow : Option Int) : Except OidcError Place := do
  let claims ← verifyIdToken lib config provider idToken kid algorithm response decodeNow wallNow
  checkIdentity config attempt.pending claims
  return .completes attempt provider claims

/-- How the history of the manager shows a login through the provider. -/
def Attempt.verified (attempt : Attempt) : VerifiedLogin κ where
  csrfBinding := .login (digest attempt.state)
  user := .builtInOperator

def OidcRun.complete (s : OidcRun κ) (attempt : Attempt) (provider : OidcProvider)
    (claims : IdTokenClaims) (now : Time) (sessionRandom csrfRandom : Option String) : OidcRun κ :=
  let (auth, outcome) := s.sign.auth.completeOidcLogin digest now sessionRandom csrfRandom
  let s := (s.at now).move (.completes attempt provider claims) none
  match outcome with
  | .error _ => s
  | .ok issued =>
    { s with
      sign := { s.sign with
        auth
        history := s.sign.history ++ [.signedIn (attempt.verified digest)
          issued.sessionCookie.value issued.csrfCookie.value now] }
      logins := s.logins ++
        [{ attempt, provider, claims, session := issued.sessionCookie.value }] }

/-- The password login that a call of the manager verifies. -/
def verifiedPassword (auth : AuthInner κ) : AuthOp κ → List (PasswordLogin κ)
  | .verifyLogin now joined headers username password stored =>
    let outcome := (auth.verifyLogin digest
      (fun hash password => if joined then some (verifyPassword hash password) else none)
      now headers username password stored).2
    (outcome.toOption.map fun verified => { username, password, stored, verified }).toList
  | _ => []

def OidcRun.step (s : OidcRun κ) : OidcOp κ → Option (OidcRun κ)
  | .start => some { s with requests := .reads .start :: s.requests }
  | .callback now headers state code => do
    guard (s.sign.now ≤ now)
    return s.callback digest now headers state code
  | .cancel now headers state => do
    guard (s.sign.now ≤ now)
    return (s.take digest now headers state).1
  | .readProvider purpose => do
    guard (.reads purpose ∈ s.requests)
    return s.move (.reads purpose) (s.readProvider lib config purpose)
  | .discovered purpose response => do
    guard (.discovers purpose ∈ s.requests)
    return s.discovered lib config purpose response
  | .register provider now first state verifier nonce => do
    guard (s.sign.now ≤ now ∧ .registers provider ∈ s.requests)
    return s.register digest lib config provider now first state verifier nonce
  | .registerFails provider => do
    guard (.registers provider ∈ s.requests)
    return s.move (.registers provider) none
  | .exchanged attempt provider response => do
    guard (.exchanges attempt provider ∈ s.requests)
    return s.move (.exchanges attempt provider)
      (exchangedPlace lib attempt provider response).toOption
  | .fetchedKeys attempt provider idToken kid algorithm response decodeNow wallNow => do
    guard (.fetchesKeys attempt provider idToken kid algorithm ∈ s.requests)
    return s.move (.fetchesKeys attempt provider idToken kid algorithm)
      (fetchedPlace lib config attempt provider idToken kid algorithm response decodeNow
        wallNow).toOption
  | .complete attempt provider claims now sessionRandom csrfRandom => do
    guard (s.sign.now ≤ now ∧ .completes attempt provider claims ∈ s.requests)
    return s.complete digest attempt provider claims now sessionRandom csrfRandom
  | .auth op => do
    let sign ← s.sign.step digest verifyPassword op
    return { s with
      sign
      passwordLogins := s.passwordLogins ++ verifiedPassword digest verifyPassword s.sign.auth op }

/-- From a new manager with a new client. -/
def oidcMachine (passwordHash : String) (bearerHash : κ) (secureCookies devAuthDisabled : Bool) :
    Machine (OidcRun κ) (OidcOp κ) where
  start := { sign := { auth := .new passwordHash bearerHash secureCookies devAuthDisabled } }
  step := OidcRun.step digest verifyPassword lib config

end Machine

/-! ## What each part leaves -/

structure ProviderOk (config : OidcConfig) (provider : OidcProvider) : Prop where
  issuer : provider.issuer = config.issuerUrl
  plain : ∀ url ∈ [provider.authorizationEndpoint, provider.tokenEndpoint, provider.jwksUri],
    url.isPlainEndpoint = true ∧ url.isRemoteHttp = false

/-- The browser of the login came back in time, with a code. -/
structure AttemptOk {κ : Type} (digest : String → κ) (attempt : Attempt) : Prop where
  cookie : (cookie attempt.headers oidcStateCookie).map digest = some (digest attempt.state)
  code : attempt.code ≠ "" ∧ attempt.code.utf8ByteSize ≤ maxCodeBytes
  inTime : attempt.takenAt < attempt.pending.expiresAt
  recent : attempt.pending.expiresAt ≤ attempt.takenAt + oidcStateTtl

/-- The claims answer the login, for this client, and the identity is approved. -/
structure IdentityOk (config : OidcConfig) (attempt : Attempt) (claims : IdTokenClaims) : Prop where
  nonce : claims.nonce = attempt.pending.nonce
  issuer : claims.iss = config.issuerUrl
  audience : audienceContains claims.aud config.clientId = true
  party : audiencePartyIsValid claims.aud claims.azp config.clientId = true
  allowed : config.allows claims.sub claims.email claims.emailVerified = true

def PurposeOk {κ : Type} (digest : String → κ) : Purpose → Prop
  | .start => True
  | .callback attempt => AttemptOk digest attempt

def PlaceOk {κ : Type} (digest : String → κ) (config : OidcConfig) : Place → Prop
  | .reads purpose | .discovers purpose => PurposeOk digest purpose
  | .registers provider => ProviderOk config provider
  | .exchanges attempt provider | .fetchesKeys attempt provider _ _ _ =>
    AttemptOk digest attempt ∧ ProviderOk config provider
  | .completes attempt provider claims =>
    AttemptOk digest attempt ∧ ProviderOk config provider ∧ IdentityOk config attempt claims

section Parts

variable {κ Key : Type} [DecidableEq κ] {digest : String → κ} {lib : OidcLibrary Key}
  {config : OidcConfig} {provider : OidcProvider} {attempt : Attempt}

theorem of_elim {ε α : Type} {value : Option α} {error : ε} {a : α}
    (h : value.elim (Except.error error) Except.ok = .ok a) : value = some a := by
  cases value with
  | none => cases h
  | some b => exact congrArg some (Except.ok.inj h)

theorem parseProviderEndpoint_ok {value : String} {url : Url}
    (h : parseProviderEndpoint lib value = .ok url) :
    url.isPlainEndpoint = true ∧ url.isRemoteHttp = false := by
  unfold parseProviderEndpoint at h
  split at h
  · cases h
  · split at h
    · rename_i hplain
      obtain rfl := Except.ok.inj h
      simpa using hplain
    · cases h

/-- Discovered metadata names the configured issuer and plain endpoints. -/
theorem discoveredProvider_ok {response : Option HttpResponse}
    (h : discoveredProvider lib config response = .ok provider) : ProviderOk config provider := by
  obtain ⟨document, -, h⟩ := of_bind h
  obtain ⟨_, hissuer, h⟩ := of_bind h
  obtain ⟨_, -, h⟩ := of_bind h
  obtain ⟨authorizationEndpoint, hauthorization, h⟩ := of_bind h
  obtain ⟨tokenEndpoint, htoken, h⟩ := of_bind h
  obtain ⟨jwksUri, hjwks, h⟩ := of_bind h
  obtain rfl := of_pure h
  refine ⟨of_ensure hissuer, ?_⟩
  intro url hurl
  simp only [List.mem_cons, List.not_mem_nil, or_false] at hurl
  rcases hurl with rfl | rfl | rfl
  · exact parseProviderEndpoint_ok hauthorization
  · exact parseProviderEndpoint_ok htoken
  · exact parseProviderEndpoint_ok hjwks

omit [DecidableEq κ] in
theorem PurposeOk.next {purpose : Purpose} (h : PurposeOk digest purpose)
    (hprovider : ProviderOk config provider) :
    PlaceOk digest config (purpose.next provider) := by
  cases purpose with
  | start => exact hprovider
  | callback attempt => exact ⟨h, hprovider⟩

/-- The claims of a place to complete passed every check. -/
theorem fetchedPlace_ok {idToken kid : String} {algorithm : Algorithm}
    {response : Option HttpResponse} {decodeNow : Nat} {wallNow : Option Int} {place : Place}
    (hprovider : ProviderOk config provider)
    (h : fetchedPlace lib config attempt provider idToken kid algorithm response decodeNow
      wallNow = .ok place) :
    ∃ claims, place = .completes attempt provider claims ∧ IdentityOk config attempt claims := by
  obtain ⟨claims, hclaims, h⟩ := of_bind h
  obtain ⟨_, hidentity, h⟩ := of_bind h
  obtain rfl := of_pure h
  obtain ⟨_, hnonce, hallowed⟩ := of_bind hidentity
  obtain ⟨keys, -, hclaims⟩ := of_bind hclaims
  obtain ⟨key, -, hclaims⟩ := of_bind hclaims
  obtain ⟨n, -, hclaims⟩ := of_bind hclaims
  obtain ⟨e, -, hclaims⟩ := of_bind hclaims
  obtain ⟨decodingKey, -, hclaims⟩ := of_bind hclaims
  obtain ⟨decoded, -, hclaims⟩ := of_bind hclaims
  obtain ⟨now, -, hclaims⟩ := of_bind hclaims
  obtain ⟨_, hchecks, hclaims⟩ := of_bind hclaims
  obtain rfl := of_pure hclaims
  obtain ⟨hissuer, haudience, hparty, -, -⟩ := of_ensure hchecks
  exact ⟨decoded, rfl, (of_ensure hnonce).1, hissuer.trans hprovider.issuer, haudience, hparty,
    of_ensure hallowed⟩

theorem verifyStateCookie_ok {headers : HeaderMap} {state : String}
    (h : verifyStateCookie digest headers state = .ok ()) :
    (cookie headers oidcStateCookie).map digest = some (digest state) :=
  (of_ensure h).2.2.2

theorem callbackCode_ok {code : Option String} {value : String}
    (h : callbackCode code = .ok value) : value ≠ "" ∧ value.utf8ByteSize ≤ maxCodeBytes := by
  have hfilter := of_elim h
  exact of_decide_eq_true (Option.filter_eq_some_iff.mp hfilter).2

theorem passwordHash_csrfBinding {auth : AuthInner κ} {now : Time} {headers : HeaderMap} :
    (auth.csrfBinding digest now headers).1.passwordHash = auth.passwordHash := by
  simp only [AuthInner.csrfBinding]
  split
  · split
    · rfl
    · split
      · rfl
      · rfl
  · rfl

/-- The account whose password a sign-in has verified. -/
theorem verifyLogin_checked (hinj : Function.Injective digest) {auth : AuthInner κ} {now : Time}
    {headers : HeaderMap} {verifyPassword : String → String → Option Bool}
    {username password : String} {stored : Option StoredUserCredential} {verified : VerifiedLogin κ}
    (h : (auth.verifyLogin digest verifyPassword now headers username password stored).2 =
      .ok verified) :
    (username = adminUsername ∧ verified.user = .builtInOperator ∧
      verifyPassword auth.passwordHash password = some true) ∨
    ∃ credential ∈ stored, credential.user.username = username ∧
      verified.user = credential.user ∧
      verifyPassword credential.passwordHash password = some true := by
  unfold AuthInner.verifyLogin at h
  simp only at h
  split at h
  · cases h
  · split at h
    · cases h
    · split at h
      · cases h
      · rename_i user hpassword huser
        obtain rfl := Except.ok.inj h
        rw [AuthInner.signInAccount, passwordHash_csrfBinding] at hpassword huser
        split at huser
        · rename_i hname
          rw [if_pos hname] at hpassword
          exact .inl ⟨hinj hname, (Option.some.inj huser).symm, hpassword⟩
        · rename_i hname
          rw [if_neg hname] at hpassword
          split at huser
          · rename_i credential hstored
            rw [hstored] at hpassword
            obtain ⟨hmem, hsame⟩ := Option.filter_eq_some_iff.mp hstored
            exact .inr ⟨credential, hmem, of_decide_eq_true hsame, (Option.some.inj huser).symm,
              hpassword⟩
          · cases huser
      · cases h

end Parts

end IptvRelay.Auth
