import IptvRelay.Auth.Headers
import IptvRelay.Lib.KeyMap

/-!
# The authentication manager

Model of `AuthManager` in `api/src/auth.rs`: the tables of browser sessions, of login CSRF
tokens and of operator tokens, and the calls on them. Hashes are of any type; `digest`
stands for SHA-256. The clock, the random tokens and the password check are arguments of
the calls. OIDC sign-in is left out.
-/

namespace IptvRelay.Auth

abbrev Time := Nat

/-- Nanoseconds. -/
def seconds (n : Nat) : Time := n * 1000000000

def sessionTtl : Time := seconds 43200
def loginCsrfTtl : Time := seconds 1800
def maxLoginCsrfTokens : Nat := 4096
def adminUsername : String := "operator"
def readScope : String := "read"
def controlScope : String := "control"
def outputScope : String := "output"
def adminScope : String := "admin"

/-- The account that a browser session signs in as. -/
structure SessionUser where
  id : String
  username : String
  displayName : String
  scopes : List String
  deriving DecidableEq, Repr

/-- The built-in operator account that signs in with the deployment password. -/
def SessionUser.builtInOperator : SessionUser where
  id := "operator-1"
  username := adminUsername
  displayName := "Relay operator"
  scopes := [adminScope]

/-- The stored credentials of an account that the users API created. -/
structure StoredUserCredential where
  user : SessionUser
  passwordHash : String
  deriving DecidableEq, Repr

/-- The session scopes of a user role. -/
def roleScopes (role : String) : Option (List String) :=
  if role = "admin" then some [adminScope]
  else if role = "operator" then some [controlScope, outputScope]
  else if role = "viewer" then some [readScope, outputScope]
  else none

def scopeSatisfied (scopes : List String) (required : String) : Bool :=
  scopes.any fun scope =>
    scope = adminScope ∨ scope = required ∨ (required = readScope ∧ scope = controlScope)

/-- A guard without a required scope lets every scope pass. -/
def scopeGranted (scopes : List String) (required : Option String) : Bool :=
  required.all (scopeSatisfied scopes)

structure SessionRecord (κ : Type) where
  csrfHash : κ
  expiresAt : Time
  user : SessionUser
  deriving DecidableEq, Repr

structure OperatorTokenRecord (κ : Type) where
  id : Nat
  tokenHash : κ
  scopes : List String
  expiresAt : Option Time
  deriving DecidableEq, Repr

inductive Authorization where
  | bearer
  | session
  | operatorToken
  | development
  deriving DecidableEq, Repr

inductive CsrfBinding (κ : Type) where
  | login (token : κ)
  | session (token : κ)
  deriving DecidableEq, Repr

structure VerifiedLogin (κ : Type) where
  csrfBinding : CsrfBinding κ
  user : SessionUser
  deriving DecidableEq, Repr

inductive LoginError where
  | csrfValidationFailed
  | invalidCredentials
  | unavailable
  deriving DecidableEq, Repr

/-- A `Set-Cookie` header; every cookie has `Path=/` and `SameSite=Strict`. -/
structure SetCookie where
  name : String
  value : String
  httpOnly : Bool
  maxAge : Time
  secure : Bool
  deriving DecidableEq, Repr

structure IssuedSession where
  sessionCookie : SetCookie
  csrfCookie : SetCookie
  deriving DecidableEq, Repr

structure AuthInner (κ : Type) where
  passwordHash : String
  bearerHash : κ
  bootstrapBearerEnabled : Bool
  secureCookies : Bool
  sessions : AList fun _ : κ => SessionRecord κ
  loginCsrfTokens : AList fun _ : κ => Time
  operatorTokens : AList fun _ : κ => OperatorTokenRecord κ
  devAuthDisabled : Bool

/-- `AuthManager::new_with_oidc_and_dev`. -/
def AuthInner.new {κ : Type} (passwordHash : String) (bearerHash : κ)
    (secureCookies devAuthDisabled : Bool) : AuthInner κ where
  passwordHash
  bearerHash
  bootstrapBearerEnabled := true
  secureCookies
  sessions := ∅
  loginCsrfTokens := ∅
  operatorTokens := ∅
  devAuthDisabled

namespace AuthInner

variable {κ : Type} [DecidableEq κ] (digest : String → κ) (auth : AuthInner κ)

/-- The cookie that carries a CSRF token. -/
def csrfSetCookie (token : String) (ttl : Time) : SetCookie where
  name := csrfCookie
  value := token
  httpOnly := false
  maxAge := ttl
  secure := auth.secureCookies

/-- The cookie that carries a session token. -/
def sessionSetCookie (token : String) : SetCookie where
  name := sessionCookie
  value := token
  httpOnly := true
  maxAge := sessionTtl
  secure := auth.secureCookies

omit [DecidableEq κ] in
/-- Forget the sessions that have expired. -/
def retainSessions (now : Time) : AuthInner κ :=
  { auth with sessions := KeyMap.retain (fun session => now < session.expiresAt) auth.sessions }

omit [DecidableEq κ] in
def retainLoginCsrfTokens (now : Time) : AuthInner κ :=
  { auth with
    loginCsrfTokens := KeyMap.retain (fun expiresAt => now < expiresAt) auth.loginCsrfTokens }

/-- A login token with the earliest expiry. The order of a hash map is not fixed: `first`
is a token that comes before the others. -/
def oldestLoginCsrfToken (first : κ) : Option κ :=
  let tokens := auth.loginCsrfTokens.entries
  match tokens.argmin fun entry => entry.2 with
  | none => none
  | some oldest =>
    if auth.loginCsrfTokens.lookup first = some oldest.2 then some first else some oldest.1

/-- The session of the session cookie. -/
def presentedSession (headers : HeaderMap) : Option (κ × SessionRecord κ) := do
  let token ← cookie headers sessionCookie
  let session ← auth.sessions.lookup (digest token)
  return (digest token, session)

/-- The CSRF token of a session is replaced by a new one, if there is one. -/
def renewCsrf (key : κ) (session : SessionRecord κ) :
    Option String → AuthInner κ × Option SetCookie
  | none => (auth, none)
  | some token =>
    ({ auth with sessions := auth.sessions.insert key { session with csrfHash := digest token } },
      some (auth.csrfSetCookie token sessionTtl))

/-- A full table of login tokens loses its oldest token. -/
def dropOldestLoginCsrf (first : κ) : AuthInner κ :=
  if maxLoginCsrfTokens ≤ KeyMap.size auth.loginCsrfTokens then
    match auth.oldestLoginCsrfToken first with
    | some oldest => { auth with loginCsrfTokens := auth.loginCsrfTokens.erase oldest }
    | none => auth
  else auth

/-- Make room for a login token and store a new one, if there is one. -/
def newLoginCsrf (now : Time) (first : κ) (random : Option String) : AuthInner κ × Option SetCookie :=
  let auth := auth.dropOldestLoginCsrf first
  match random with
  | none => (auth, none)
  | some token =>
    ({ auth with
        loginCsrfTokens := auth.loginCsrfTokens.insert (digest token) (now + loginCsrfTtl) },
      some (auth.csrfSetCookie token loginCsrfTtl))

def ensureCsrfCookie (now : Time) (first : κ) (random : Option String) (headers : HeaderMap) :
    AuthInner κ × Option SetCookie :=
  let cookieCsrf := (cookie headers csrfCookie).map digest
  let auth := auth.retainSessions now
  match auth.presentedSession digest headers with
  | some (key, session) =>
    if cookieCsrf = some session.csrfHash then (auth, none)
    else auth.renewCsrf digest key session random
  | none =>
    let auth := auth.retainLoginCsrfTokens now
    if cookieCsrf.any fun key => key ∈ auth.loginCsrfTokens then (auth, none)
    else auth.newLoginCsrf digest now first random

/-- The session or login token that the CSRF token of a sign-in request belongs to. -/
def csrfBinding (now : Time) (headers : HeaderMap) : AuthInner κ × Option (CsrfBinding κ) :=
  match cookie headers csrfCookie, csrfHeaderText headers with
  | some cookieToken, some headerToken =>
    let csrfHash := digest headerToken
    if csrfHash ≠ digest cookieToken then (auth, none)
    else
      let auth := auth.retainSessions now
      match auth.presentedSession digest headers with
      | some (key, session) =>
        (auth, if csrfHash = session.csrfHash then some (.session key) else none)
      | none =>
        let auth := auth.retainLoginCsrfTokens now
        (auth, if csrfHash ∈ auth.loginCsrfTokens then some (.login csrfHash) else none)
  | _, _ => (auth, none)

/-- The account that a sign-in request names, with the hash that its password is checked
against. -/
def signInAccount (username : String) (stored : Option StoredUserCredential) :
    String × Option SessionUser :=
  if digest username = digest adminUsername then
    (auth.passwordHash, some .builtInOperator)
  else
    match stored.filter fun credential => credential.user.username = username with
    | some credential => (credential.passwordHash, some credential.user)
    | none => (auth.passwordHash, none)

/-- `verifyPassword hash password` is the outcome of the Argon2 check in its own thread;
`none` stands for a thread that did not end well. -/
def verifyLogin (verifyPassword : String → String → Option Bool) (now : Time)
    (headers : HeaderMap) (username password : String) (stored : Option StoredUserCredential) :
    AuthInner κ × Except LoginError (VerifiedLogin κ) :=
  let (auth, binding) := auth.csrfBinding digest now headers
  (auth, match binding with
    | none => .error .csrfValidationFailed
    | some csrfBinding =>
      if password.utf8ByteSize = 0 ∨ 1024 < password.utf8ByteSize ∨ 128 < username.utf8ByteSize then
        .error .invalidCredentials
      else
        let (expected, user) := auth.signInAccount digest username stored
        match verifyPassword expected password, user with
        | none, _ => .error .unavailable
        | some true, some user => .ok { csrfBinding, user }
        | some _, _ => .error .invalidCredentials)

/-- The session that a sign-in started from, or its login token, is used up. -/
def completeLogin (now : Time) (verified : VerifiedLogin κ)
    (sessionRandom csrfRandom : Option String) : AuthInner κ × Except LoginError IssuedSession :=
  match sessionRandom, csrfRandom with
  | some sessionToken, some csrfToken =>
    let left :=
      match verified.csrfBinding with
      | .session previous => auth.sessions.erase previous
      | .login _ => auth.sessions
    let sessions := left.insert (digest sessionToken) {
      csrfHash := digest csrfToken
      expiresAt := now + sessionTtl
      user := verified.user }
    let loginCsrfTokens :=
      match verified.csrfBinding with
      | .login token => auth.loginCsrfTokens.erase token
      | .session _ => auth.loginCsrfTokens
    ({ auth with sessions, loginCsrfTokens },
      .ok {
        sessionCookie := auth.sessionSetCookie sessionToken
        csrfCookie := auth.csrfSetCookie csrfToken sessionTtl })
  | _, _ => (auth, .error .unavailable)

def logout (headers : HeaderMap) : AuthInner κ :=
  match cookie headers sessionCookie with
  | some token => { auth with sessions := auth.sessions.erase (digest token) }
  | none => auth

/-! ## Authorization -/

/-- The operator token of a request, after the tokens that have expired are forgotten. -/
def authorizeOperatorToken (utcNow : Time) (headers : HeaderMap) (requiredScope : Option String) :
    AuthInner κ × Bool :=
  match bearerToken headers with
  | none => (auth, false)
  | some token =>
    let operatorTokens := KeyMap.retain
      (fun record => record.expiresAt.all fun expiresAt => utcNow < expiresAt) auth.operatorTokens
    ({ auth with operatorTokens },
      match operatorTokens.lookup (digest token) with
      | some record => digest token = record.tokenHash ∧ scopeGranted record.scopes requiredScope
      | none => false)

/-- Header and cookie carry the CSRF token of the session. -/
def csrfMatches (headers : HeaderMap) (session : SessionRecord κ) : Bool :=
  match csrfHeaderText headers, cookie headers csrfCookie with
  | some headerCsrf, some cookieCsrf =>
    digest headerCsrf = digest cookieCsrf ∧ digest headerCsrf = session.csrfHash
  | _, _ => false

def authorizeSession (now : Time) (headers : HeaderMap) (requireCsrf : Bool)
    (requiredScope : Option String) : AuthInner κ × Bool :=
  match cookie headers sessionCookie with
  | none => (auth, false)
  | some token =>
    let auth := auth.retainSessions now
    (auth, match auth.sessions.lookup (digest token) with
      | some session =>
        scopeGranted session.user.scopes requiredScope ∧
          (requireCsrf → csrfMatches digest headers session)
      | none => false)

/-- The clocks are the monotonic one, for sessions, and the wall clock, for operator tokens. -/
def authorizeWithScope (now utcNow : Time) (headers : HeaderMap) (requireCsrf : Bool)
    (requiredScope : Option String) : AuthInner κ × Option Authorization :=
  if auth.devAuthDisabled then (auth, some .development)
  else if auth.bootstrapBearerEnabled ∧ (bearerToken headers).map digest = some auth.bearerHash then
    (auth, some .bearer)
  else
    match auth.authorizeOperatorToken digest utcNow headers requiredScope with
    | (auth, true) => (auth, some .operatorToken)
    | (auth, false) =>
      let (auth, ok) := auth.authorizeSession digest now headers requireCsrf requiredScope
      (auth, if ok then some .session else none)

/-! ## Operator tokens -/

def loadOperatorTokens (records : List (OperatorTokenRecord κ)) : AuthInner κ :=
  { auth with
    operatorTokens := records.foldl (fun tokens record => tokens.insert record.tokenHash record) ∅ }

def addOperatorToken (record : OperatorTokenRecord κ) : AuthInner κ :=
  { auth with operatorTokens := auth.operatorTokens.insert record.tokenHash record }

omit [DecidableEq κ] in
def revokeOperatorToken (id : Nat) : AuthInner κ :=
  { auth with operatorTokens := KeyMap.retain (fun record => record.id ≠ id) auth.operatorTokens }

omit [DecidableEq κ] in
def disableBootstrapBearer : AuthInner κ := { auth with bootstrapBearerEnabled := false }

end AuthInner

end IptvRelay.Auth
