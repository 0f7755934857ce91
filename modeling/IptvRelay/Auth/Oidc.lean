import IptvRelay.Auth.AuthManager
import IptvRelay.Lib.Checked
import IptvRelay.Lib.Tickets
import Mathlib.Algebra.Group.Int.Defs

/-!
# OpenID Connect

Model of `api/src/oidc.rs`: the settings, the table of logins that wait for the provider's
answer, and what is checked in the answers of the provider. URLs, JSON documents, signatures
and SHA-256 are those of libraries, which are arguments; so are the clocks, the random tokens
and the responses. A response arrives in chunks.
-/

namespace IptvRelay.Auth

open Checked

def oidcStateCookie : String := "iptv_oidc_state"
def oidcStateTtl : Time := seconds 600
def maxPendingLogins : Nat := 4096
def maxStateBytes : Nat := 128
def maxCodeBytes : Nat := 8192
def oidcClockSkewSecs : Int := 60
def maxDiscoveryBodyBytes : Nat := 64 * 1024
def maxTokenBodyBytes : Nat := 64 * 1024
def maxJwksBodyBytes : Nat := 256 * 1024

inductive OidcError where
  | notConfigured
  | invalidConfiguration
  | invalidProvider
  | providerUnavailable
  | invalidState
  | invalidCallback
  | identityNotAllowed
  | invalidIdentityToken
  deriving DecidableEq, Repr

/-- The parts of a parsed URL; `text` is the whole. -/
structure Url where
  text : String
  scheme : String
  hostStr : Option String
  username : String
  password : Option String
  query : Option String
  fragment : Option String
  deriving DecidableEq, Repr

structure OidcConfig where
  issuerUrl : String
  clientId : String
  clientSecret : Option String
  redirectUrl : String
  allowedSubjects : List String
  allowedEmails : List String
  scopes : List String
  deriving DecidableEq, Repr

structure PendingLogin where
  verifier : String
  nonce : String
  expiresAt : Time
  deriving DecidableEq, Repr

structure OidcProvider where
  issuer : String
  authorizationEndpoint : Url
  tokenEndpoint : Url
  jwksUri : Url
  deriving DecidableEq, Repr

structure DiscoveryDocument where
  issuer : String
  authorizationEndpoint : String
  tokenEndpoint : String
  jwksUri : String
  tokenEndpointAuthMethodsSupported : Option (List String)
  deriving DecidableEq, Repr

structure JsonWebKey where
  kty : String
  kid : Option String
  n : Option String
  e : Option String
  alg : Option String
  use : Option String
  deriving DecidableEq, Repr

/-- The audience of a token: a text, an array, of which only the texts matter, or another value. -/
inductive Audience where
  | text (value : String)
  | array (values : List (Option String))
  | other
  deriving DecidableEq, Repr

structure IdTokenClaims where
  iss : String
  sub : String
  aud : Audience
  exp : Int
  iat : Int
  nonce : String
  email : Option String
  emailVerified : Option Bool
  azp : Option String
  deriving DecidableEq, Repr

inductive Algorithm where
  | hs256 | hs384 | hs512 | es256 | es384 | rs256 | rs384 | rs512 | ps256 | ps384 | ps512 | edDsa
  deriving DecidableEq, Repr

/-- The header of a signed token. -/
structure TokenHeader where
  kid : Option String
  alg : Algorithm
  deriving DecidableEq, Repr

/-- The libraries: `Url::parse`, the JSON documents, `jsonwebtoken`, and the challenge that
belongs to a verifier. A token is decoded at a time in seconds for a key, an algorithm, an
issuer and an audience. -/
structure OidcLibrary (Key : Type) where
  parseUrl : String → Option Url
  discovery : List UInt8 → Option DiscoveryDocument
  tokenResponse : List UInt8 → Option (Option String)
  keySet : List UInt8 → Option (List JsonWebKey)
  decodeHeader : String → Option TokenHeader
  fromRsaComponents : String → String → Option Key
  decode : Nat → String → Key → Algorithm → String → String → Option IdTokenClaims
  challenge : String → String

/-! ## Settings -/

def trimmed (value : String) : String := String.ofList (Text.trim value.toList)

/-- `char::is_control`. -/
def isControl (c : Char) : Bool := c.toNat < 32 ∨ (127 ≤ c.toNat ∧ c.toNat < 160)

def containsControl (value : String) : Bool := value.toList.any isControl

def normalizeEntries (values : List String) (lowercase : Bool) : List String :=
  ((values.map trimmed).filter fun value => value ≠ "" ∧ ¬containsControl value).map fun value =>
    if lowercase then String.ofList (Text.asciiLowercase value.toList) else value

def normalizeScopes (values : List String) : List String :=
  let values := values.flatMap fun value =>
    (Text.splitWhitespace value.toList).map String.ofList
  let values := values.filter (· ≠ "")
  if values = [] then ["openid", "profile", "email"] else values

def isLoopbackHost (host : String) : Bool :=
  Text.asciiLowercase host.toList = "localhost".toList ∨ host = "127.0.0.1" ∨ host = "[::1]" ∨
    host = "::1"

/-- A web address with a host and without credentials, query or fragment. -/
def Url.isPlainEndpoint (url : Url) : Bool :=
  (url.scheme = "https" ∨ url.scheme = "http") ∧ url.hostStr.isSome ∧ url.username = "" ∧
    url.password = none ∧ url.query = none ∧ url.fragment = none

/-- HTTP outside the hosts of a development machine. -/
def Url.isRemoteHttp (url : Url) : Bool :=
  url.scheme = "http" ∧ ¬isLoopbackHost (url.hostStr.getD "")

section Library

variable {Key : Type} (lib : OidcLibrary Key)

def validateEndpointUrl (value name : String) : Except String Unit :=
  match lib.parseUrl value with
  | none => .error ("OIDC " ++ name ++ " URL is invalid")
  | some url => do
    ensure (url.isPlainEndpoint = true)
      ("OIDC " ++ name ++ " URL must use HTTPS and have no credentials, query, or fragment")
    ensure (url.isRemoteHttp = false)
      ("OIDC " ++ name ++ " URL must use HTTPS outside loopback development hosts")

/-- `OidcConfig::new`. -/
def OidcConfig.new (issuerUrl clientId : String) (clientSecret : Option String)
    (redirectUrl : String) (allowedSubjects allowedEmails scopes : List String) :
    Except String OidcConfig := do
  let issuerUrl := trimmed issuerUrl
  let clientId := trimmed clientId
  let redirectUrl := trimmed redirectUrl
  let clientSecret := (clientSecret.map trimmed).filter (· ≠ "")
  let allowedSubjects := normalizeEntries allowedSubjects false
  let allowedEmails := normalizeEntries allowedEmails true
  let scopes := normalizeScopes scopes
  validateEndpointUrl lib issuerUrl "issuer"
  validateEndpointUrl lib redirectUrl "redirect"
  ensure (clientId ≠ "" ∧ clientId.utf8ByteSize ≤ 256 ∧ ¬containsControl clientId)
    "OIDC client ID must contain 1-256 non-control characters"
  ensure (∀ secret ∈ clientSecret, secret.utf8ByteSize ≤ 4096 ∧ ¬containsControl secret)
    "OIDC client secret is too long or contains a control character"
  ensure (allowedSubjects ≠ [] ∨ allowedEmails ≠ [])
    "OIDC requires an approved subject or email allowlist"
  ensure (scopes ≠ [] ∧ ∀ scope ∈ scopes, ¬containsControl scope)
    "OIDC scope values must contain non-control characters"
  return { issuerUrl, clientId, clientSecret, redirectUrl, allowedSubjects, allowedEmails, scopes }

/-- A subject of the list is allowed; an email address of the list is allowed when the provider
says that it is verified. -/
def OidcConfig.allows (config : OidcConfig) (subject : String) (email : Option String)
    (emailVerified : Option Bool) : Bool :=
  if config.allowedSubjects.any (· = subject) then true
  else
    match email with
    | none => false
    | some email =>
      if emailVerified ≠ some true then false
      else config.allowedEmails.any
        (· = String.ofList (Text.asciiLowercase (trimmed email).toList))

/-! ## Responses -/

inductive LimitedBodyError where
  | tooLarge
  | request
  deriving DecidableEq, Repr

/-- A response: whether its status is a success, its announced length, and its chunks; a chunk
that cannot be read is `none`. -/
structure HttpResponse where
  success : Bool
  contentLength : Option Nat
  chunks : List (Option (List UInt8))
  deriving DecidableEq, Repr

def appendLimitedChunk (body chunk : List UInt8) (limit : Nat) :
    Except LimitedBodyError (List UInt8) := do
  ensure (chunk.length ≤ limit - body.length) .tooLarge
  return body ++ chunk

/-- The rest of a body, behind what has been read. -/
def readChunks (limit : Nat) (body : List UInt8) :
    List (Option (List UInt8)) → Except LimitedBodyError (List UInt8)
  | [] => .ok body
  | none :: _ => .error .request
  | some chunk :: rest => do
    let body ← appendLimitedChunk body chunk limit
    readChunks limit body rest

def readLimitedBody (response : HttpResponse) (limit : Nat) :
    Except LimitedBodyError (List UInt8) := do
  ensure (∀ length ∈ response.contentLength, length ≤ limit) .tooLarge
  readChunks limit [] response.chunks

/-- The document in a response; `none` is a request that failed. -/
def fetchDocument {α : Type} (response : Option HttpResponse) (limit : Nat)
    (parse : List UInt8 → Option α) (invalid : OidcError) : Except OidcError α := do
  let response ← response.elim (.error .providerUnavailable) .ok
  ensure (response.success = true) .providerUnavailable
  let body ← (readLimitedBody response limit).mapError fun _ => invalid
  (parse body).elim (.error invalid) .ok

/-! ## The provider -/

def parseProviderEndpoint (value : String) : Except OidcError Url :=
  match lib.parseUrl value with
  | none => .error .invalidProvider
  | some url =>
    if url.isPlainEndpoint ∧ ¬url.isRemoteHttp then .ok url else .error .invalidProvider

def discoveryUrl (issuer : Url) : Except OidcError Url :=
  let base := (issuer.text.toList.reverse.dropWhile (· = '/')).reverse
  (lib.parseUrl (String.ofList base ++ "/.well-known/openid-configuration")).elim
    (.error .invalidConfiguration) .ok

/-- Where the metadata of the provider is read from. -/
def metadataUrl (config : OidcConfig) : Except OidcError Url := do
  let issuer ← (lib.parseUrl config.issuerUrl).elim (.error .invalidConfiguration) .ok
  discoveryUrl lib issuer

/-- The provider that a metadata document describes. -/
def discoveredProvider (config : OidcConfig) (response : Option HttpResponse) :
    Except OidcError OidcProvider := do
  let document ← fetchDocument response maxDiscoveryBodyBytes lib.discovery .invalidProvider
  ensure (document.issuer = config.issuerUrl) .invalidProvider
  let expected := if config.clientSecret.isSome then "client_secret_basic" else "none"
  ensure (∀ methods ∈ document.tokenEndpointAuthMethodsSupported, expected ∈ methods)
    .invalidProvider
  let authorizationEndpoint ← parseProviderEndpoint lib document.authorizationEndpoint
  let tokenEndpoint ← parseProviderEndpoint lib document.tokenEndpoint
  let jwksUri ← parseProviderEndpoint lib document.jwksUri
  return { issuer := document.issuer, authorizationEndpoint, tokenEndpoint, jwksUri }

/-! ## The identity token -/

def audienceContains (aud : Audience) (clientId : String) : Bool :=
  match aud with
  | .text value => value = clientId
  | .array values => some clientId ∈ values
  | .other => false

def audiencePartyIsValid (aud : Audience) (authorizedParty : Option String) (clientId : String) :
    Bool :=
  match aud with
  | .array values => 1 < values.length → authorizedParty = some clientId
  | .text _ | .other => true

/-- The sum saturates at the largest 64-bit number. -/
def issuedAtIsValid (iat now : Int) : Bool :=
  0 < iat ∧ iat ≤ min (now + oidcClockSkewSecs) (2 ^ 63 - 1)

def algorithmName : Algorithm → String
  | .hs256 => "HS256"
  | .hs384 => "HS384"
  | .hs512 => "HS512"
  | .es256 => "ES256"
  | .es384 => "ES384"
  | .rs256 => "RS256"
  | .rs384 => "RS384"
  | .rs512 => "RS512"
  | .ps256 => "PS256"
  | .ps384 => "PS384"
  | .ps512 => "PS512"
  | .edDsa => "EdDSA"

/-- The key and algorithm that an identity token names, which must be one of RSA. -/
def tokenKey (idToken : String) : Except OidcError (String × Algorithm) := do
  let header ← (lib.decodeHeader idToken).elim (.error .invalidIdentityToken) .ok
  let kid ← header.kid.elim (.error .invalidIdentityToken) .ok
  ensure (header.alg ∈ [.rs256, .rs384, .rs512, .ps256, .ps384, .ps512])
    .invalidIdentityToken
  return (kid, header.alg)

/-- The first key of that name that may sign with the algorithm. -/
def signingKey (keys : List JsonWebKey) (kid : String) (algorithm : Algorithm) :
    Option JsonWebKey :=
  keys.find? fun key =>
    key.kty = "RSA" ∧ key.kid = some kid ∧ key.alg.all (· = algorithmName algorithm) ∧
      key.use.all (· = "sig")

/-- The second half of `verify_id_token`, behind the request for the keys. The wall clock is read
twice, and `none` stands for a time before the epoch. -/
def verifyIdToken (config : OidcConfig) (provider : OidcProvider) (idToken kid : String)
    (algorithm : Algorithm) (response : Option HttpResponse) (decodeNow : Nat)
    (wallNow : Option Int) : Except OidcError IdTokenClaims := do
  let keys ← fetchDocument response maxJwksBodyBytes lib.keySet .invalidProvider
  let key ← (signingKey keys kid algorithm).elim (.error .invalidIdentityToken) .ok
  let n ← key.n.elim (.error .invalidIdentityToken) .ok
  let e ← key.e.elim (.error .invalidIdentityToken) .ok
  let decodingKey ← (lib.fromRsaComponents n e).elim (.error .invalidIdentityToken) .ok
  let claims ← (lib.decode decodeNow idToken decodingKey algorithm provider.issuer
    config.clientId).elim (.error .invalidIdentityToken) .ok
  let now ← wallNow.elim (.error .invalidIdentityToken) .ok
  ensure (claims.iss = provider.issuer ∧ audienceContains claims.aud config.clientId ∧
    audiencePartyIsValid claims.aud claims.azp config.clientId ∧ 0 < claims.exp ∧
    issuedAtIsValid claims.iat now) .invalidIdentityToken
  return claims

/-! ## Logins -/

/-- Where the browser is sent, and the state cookie: it has `Path=/api/v1/auth/oidc`, `HttpOnly`
and `SameSite=Lax`. -/
structure OidcAuthorization where
  endpoint : Url
  query : List (String × String)
  stateCookie : SetCookie
  deriving DecidableEq, Repr

def stateSetCookie (state : String) (secure : Bool) : SetCookie where
  name := oidcStateCookie
  value := state
  httpOnly := true
  maxAge := oidcStateTtl
  secure

def authorization (config : OidcConfig) (provider : OidcProvider) (state verifier nonce : String)
    (secureCookies : Bool) : OidcAuthorization where
  endpoint := provider.authorizationEndpoint
  query := [("client_id", config.clientId), ("response_type", "code"),
    ("redirect_uri", config.redirectUrl), ("scope", " ".intercalate config.scopes),
    ("state", state), ("nonce", nonce), ("code_challenge", lib.challenge verifier),
    ("code_challenge_method", "S256")]
  stateCookie := stateSetCookie state secureCookies

/-- The form of the token request. -/
def tokenForm (config : OidcConfig) (code : String) (pending : PendingLogin) :
    List (String × String) :=
  [("grant_type", "authorization_code"), ("code", code), ("redirect_uri", config.redirectUrl),
    ("client_id", config.clientId), ("code_verifier", pending.verifier)]

/-- The identity token in the answer to a token request. -/
def exchangedToken (response : Option HttpResponse) : Except OidcError String := do
  let token ← fetchDocument response maxTokenBodyBytes lib.tokenResponse .invalidCallback
  (token.filter (· ≠ "")).elim (.error .invalidCallback) .ok

/-- What is checked last: the claims answer this login, and the identity is approved. -/
def checkIdentity (config : OidcConfig) (pending : PendingLogin) (claims : IdTokenClaims) :
    Except OidcError Unit := do
  ensure (claims.nonce = pending.nonce ∧ claims.sub ≠ "" ∧ claims.sub.utf8ByteSize ≤ 256)
    .invalidIdentityToken
  ensure (config.allows claims.sub claims.email claims.emailVerified = true) .identityNotAllowed

end Library

section Table

variable {κ : Type} [DecidableEq κ] (digest : String → κ)

/-- The second half of `start`: a new login enters the table. -/
def registerLogin (now : Time) (first : κ) (state verifier nonce : String)
    (pending : AList fun _ : κ => PendingLogin) : AList fun _ : κ => PendingLogin :=
  Tickets.issue PendingLogin.expiresAt maxPendingLogins now first (digest state)
    { verifier, nonce, expiresAt := now + oidcStateTtl } pending

/-- A request from the browser that the login started in carries its state in the cookie. -/
def verifyStateCookie (headers : HeaderMap) (state : String) : Except OidcError Unit :=
  ensure (state ≠ "" ∧ state.utf8ByteSize ≤ maxStateBytes ∧
    state.toList.all (fun c => c.isAlphanum ∨ c = '-' ∨ c = '_') ∧
    (cookie headers oidcStateCookie).map digest = some (digest state)) .invalidState

def takePending (now : Time) (state : String) (pending : AList fun _ : κ => PendingLogin) :
    (AList fun _ : κ => PendingLogin) × Except OidcError PendingLogin :=
  let (pending, login) := Tickets.redeem PendingLogin.expiresAt now (digest state) pending
  (pending, login.elim (.error .invalidState) .ok)

/-- The code of a callback. -/
def callbackCode (code : Option String) : Except OidcError String :=
  (code.filter fun value => value ≠ "" ∧ value.utf8ByteSize ≤ maxCodeBytes).elim
    (.error .invalidCallback) .ok

/-- The second half of `complete_oidc_login`: a session of the built-in operator. -/
def AuthInner.completeOidcLogin (auth : AuthInner κ) (now : Time)
    (sessionRandom csrfRandom : Option String) : AuthInner κ × Except OidcError IssuedSession :=
  match sessionRandom, csrfRandom with
  | some sessionToken, some csrfToken =>
    ({ auth with
        sessions := auth.sessions.insert (digest sessionToken) {
          csrfHash := digest csrfToken
          expiresAt := now + sessionTtl
          user := .builtInOperator } },
      .ok {
        sessionCookie := auth.sessionSetCookie sessionToken
        csrfCookie := auth.csrfSetCookie csrfToken sessionTtl })
  | _, _ => (auth, .error .providerUnavailable)

end Table

end IptvRelay.Auth
