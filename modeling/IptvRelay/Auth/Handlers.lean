import IptvRelay.Auth.Accounts
import IptvRelay.Auth.Calls

/-!
# Guarded handlers

Model of `require_scope` and of the handlers of `api/src/lib.rs` for user accounts, the
output token and media sessions. A handler receives the request body after it has been
decoded. Each reading of the clocks is an argument, and so are random values, new
identifiers, the Argon2 hash of a password, and whether a statement fails.
-/

namespace IptvRelay.Auth

structure Clock where
  now : Time
  utcNow : Time
  deriving DecidableEq, Repr

structure ProblemDetails where
  status : Nat
  code : String
  title : String
  detail : String
  deriving DecidableEq, Repr

def jellyfinSetupAvailable : String := "available"
def jellyfinSetupRegenerationRequired : String := "regeneration-required"
def guideDaysMax : Nat := 30

structure JellyfinSetup where
  status : String
  playlistUrl : Option String
  xmltvUrl : Option String
  hdhrDeviceUrl : Option String
  guideDaysMax : Nat := guideDaysMax
  deriving DecidableEq, Repr

/-- The published addresses; the token is a part of their paths. -/
def JellyfinSetup.available (publicBaseUrl outputToken : String) : JellyfinSetup :=
  let base := String.ofList ((publicBaseUrl.toList.reverse.dropWhile (· = '/')).reverse)
  { status := jellyfinSetupAvailable
    playlistUrl := some (base ++ "/out/" ++ outputToken ++ "/playlist.m3u")
    xmltvUrl := some (base ++ "/out/" ++ outputToken ++ "/xmltv.xml")
    hdhrDeviceUrl := some (base ++ "/out/" ++ outputToken ++ "/hdhr/device.xml") }

def JellyfinSetup.regenerationRequired : JellyfinSetup where
  status := jellyfinSetupRegenerationRequired
  playlistUrl := none
  xmltvUrl := none
  hdhrDeviceUrl := none

inductive Response where
  | noContent
  | notFound
  | problem (details : ProblemDetails)
  | user (status : Nat) (row : UserRow)
  | setup (setup : JellyfinSetup)
  deriving DecidableEq, Repr

def problem (status : Nat) (code title detail : String) : Response :=
  .problem { status, code, title, detail }

/-- The answer without a repository, and to every failed statement of these handlers. -/
def persistenceUnavailable : Response :=
  problem 503 "persistence-unavailable" "Persistence unavailable"
    "the durable control-plane database is not available"

structure HttpTsSessionKey where
  providerPoolId : String
  sourceId : String
  generation : UInt64
  deriving DecidableEq

/-- The index of the media sessions. An entry is a weak reference: `none` once the session is
gone. -/
structure MediaSessions where
  sessionIndex : AList fun _ : HttpTsSessionKey => Option Nat
  terminated : List Nat

def MediaSessions.terminate (media : MediaSessions) (key : HttpTsSessionKey) :
    MediaSessions × Bool :=
  match media.sessionIndex.lookup key with
  | some (some session) =>
    ({ sessionIndex := media.sessionIndex.erase key
       terminated := session :: media.terminated }, true)
  | some none | none => (media, false)

/-- The output profile of the environment. -/
structure OutputProfile (κ : Type) where
  tokenHash : κ
  previousTokenHash : Option κ
  previousTokenExpiresAt : Option Int
  revision : Int
  deriving DecidableEq, Repr

/-- `rotate_environment_output_profile_token`. -/
def OutputProfile.rotate {κ : Type} (profile : OutputProfile κ) (newTokenHash : κ)
    (databaseNow : Time) (overlapSeconds : Int) : OutputProfile κ where
  tokenHash := newTokenHash
  previousTokenHash := some profile.tokenHash
  previousTokenExpiresAt := some (databaseNow + overlapSeconds * seconds 1)
  revision := profile.revision + 1

structure AppState (κ : Type) where
  auth : AuthInner κ
  publicBaseUrl : String
  hasCatalogRepository : Bool
  users : Users
  outputProfile : Option (OutputProfile κ)
  jellyfinSetup : JellyfinSetup
  media : MediaSessions

structure CreateUserRequest where
  username : String
  displayName : String
  password : String
  role : Option String
  deriving DecidableEq, Repr

structure UpdateUserRequest where
  displayName : Option String
  password : Option String
  role : Option String
  enabled : Option Bool
  deriving DecidableEq, Repr

def invalidRole : Response :=
  problem 400 "invalid-role" "Invalid role" "role must be admin, operator, or viewer"

def hashError : Response :=
  problem 500 "hash-error" "Password hash failed" "could not hash the supplied password"

def userNotFound : Response :=
  problem 404 "user-not-found" "User not found" "no user with that ID exists"

/-- `hash_admin_password`; `argon` is the salted hash, if there is one. -/
def hashAdminPassword (argon : String → Option String) (password : String) : Option String :=
  if password.utf8ByteSize = 0 ∨ 1024 < password.utf8ByteSize then none else argon password

/-- What `create_user` checks before the statement. -/
def checkCreateUser (argon : String → Option String) (body : CreateUserRequest) :
    Except Response CreateUserInput :=
  let role := body.role.getD "viewer"
  if role ∉ roles then .error invalidRole
  else
    match hashAdminPassword argon body.password with
    | none => .error hashError
    | some passwordHash =>
      .ok { username := body.username, displayName := body.displayName, passwordHash, role }

/-- What `update_user` checks before the statement. -/
def checkUpdateUser (argon : String → Option String) (body : UpdateUserRequest) :
    Except Response UpdateUserInput :=
  if ∃ role ∈ body.role, role ∉ roles then .error invalidRole
  else
    match body.password with
    | none =>
      .ok {
        displayName := body.displayName
        passwordHash := none
        role := body.role
        enabled := body.enabled }
    | some password =>
      match hashAdminPassword argon password with
      | none => .error hashError
      | some passwordHash =>
        .ok {
          displayName := body.displayName
          passwordHash := some passwordHash
          role := body.role
          enabled := body.enabled }

namespace AppState

variable {κ : Type} [DecidableEq κ] (digest : String → κ) (state : AppState κ)

/-- The answer to a request that the scope is not granted to. -/
def refusal (scope : String) (requireCsrf : Bool) : Option Authorization → Response
  | some .operatorToken =>
    problem 403 "insufficient-scope" "Insufficient token scope"
      ("the operator API token does not grant the " ++ scope ++ " scope")
  | some .session =>
    if requireCsrf then
      problem 403 "csrf-validation-failed" "CSRF validation failed"
        "provide the CSRF token associated with the administrator session"
    else
      problem 403 "insufficient-scope" "Insufficient token scope"
        ("the authorization does not grant the " ++ scope ++ " scope")
  | some .bearer | some .development =>
    problem 403 "insufficient-scope" "Insufficient token scope"
      ("the authorization does not grant the " ++ scope ++ " scope")
  | none =>
    problem 401 "authentication-required" "Authentication required"
      "sign in as the local administrator or provide the bootstrap bearer token"

/-- Whether a request has the scope. -/
def grants (clock : Clock) (headers : HeaderMap) (scope : String) (requireCsrf : Bool) : Bool :=
  (state.auth.authorizeWithScope digest clock.now clock.utcNow headers requireCsrf
    (some scope)).2.isSome

/-- The second reading of the clocks is used for the answer to a request that is refused. -/
def requireScope (clock later : Clock) (headers : HeaderMap) (scope : String)
    (requireCsrf : Bool) : AppState κ × Option Response :=
  match state.auth.authorizeWithScope digest clock.now clock.utcNow headers requireCsrf
      (some scope) with
  | (auth, some _) => ({ state with auth }, none)
  | (auth, none) =>
    let (auth, anyAuthorization) :=
      auth.authorizeWithScope digest later.now later.utcNow headers false none
    ({ state with auth }, some (refusal scope requireCsrf anyAuthorization))

def requireAdmin (clock later : Clock) (headers : HeaderMap) : AppState κ × Option Response :=
  state.requireScope digest clock later headers readScope false

def terminateSession (clock later : Clock) (headers : HeaderMap) (key : HttpTsSessionKey) :
    AppState κ × Response :=
  match state.requireAdmin digest clock later headers with
  | (state, some response) => (state, response)
  | (state, none) =>
    let (media, found) := state.media.terminate key
    ({ state with media }, if found then .noContent else .notFound)

/-- The body is `none` where it does not have the documented form. -/
def rotateJellyfinToken (clock later : Clock) (headers : HeaderMap) (overlapSeconds : Option Int)
    (random : Option String) (databaseNow : Time) (fails : Bool) : AppState κ × Response :=
  match state.requireScope digest clock later headers outputScope true with
  | (state, some response) => (state, response)
  | (state, none) =>
    match overlapSeconds with
    | none =>
      (state, problem 400 "invalid-rotation-request" "Invalid rotation request"
        "send a JSON request that matches the documented rotation schema")
    | some overlapSeconds =>
      if ¬(0 ≤ overlapSeconds ∧ overlapSeconds ≤ 86400) then
        (state, problem 422 "invalid-overlap-window" "Invalid overlap window"
          "provide an overlap window between 0 and 86400 seconds")
      else if ¬state.hasCatalogRepository then (state, persistenceUnavailable)
      else
        match random with
        | none =>
          (state, problem 500 "token-generation-failed" "Token generation failed"
            "the cryptographic random source could not produce a token")
        | some plaintextToken =>
          match state.outputProfile with
          | none => (state, persistenceUnavailable)
          | some profile =>
            if fails then (state, persistenceUnavailable)
            else
              ({ state with
                  outputProfile :=
                    some (profile.rotate (digest plaintextToken) databaseNow overlapSeconds)
                  jellyfinSetup := .regenerationRequired },
                .setup (.available state.publicBaseUrl plaintextToken))

def createUser (clock later : Clock) (headers : HeaderMap) (body : CreateUserRequest)
    (argon : String → Option String) (id : Uuid) (fails : Bool) : AppState κ × Response :=
  match state.requireScope digest clock later headers adminScope true with
  | (state, some response) => (state, response)
  | (state, none) =>
    if ¬state.hasCatalogRepository then (state, persistenceUnavailable)
    else
      match checkCreateUser argon body with
      | .error response => (state, response)
      | .ok input =>
        if fails then (state, persistenceUnavailable)
        else
          match state.users.create id input with
          | some (users, row) => ({ state with users }, .user 201 row)
          | none =>
            (state, problem 409 "user-conflict" "User already exists"
              "a user with that username is already configured")

def updateUser (clock later : Clock) (headers : HeaderMap) (id : Uuid) (body : UpdateUserRequest)
    (argon : String → Option String) (fails : Bool) : AppState κ × Response :=
  match state.requireScope digest clock later headers adminScope true with
  | (state, some response) => (state, response)
  | (state, none) =>
    if ¬state.hasCatalogRepository then (state, persistenceUnavailable)
    else
      match checkUpdateUser argon body with
      | .error response => (state, response)
      | .ok input =>
        if fails then (state, persistenceUnavailable)
        else
          match state.users.update id input with
          | some (users, some row) => ({ state with users }, .user 200 row)
          | some (users, none) => ({ state with users }, userNotFound)
          | none => (state, persistenceUnavailable)

def deleteUser (clock later : Clock) (headers : HeaderMap) (id : Uuid) (fails : Bool) :
    AppState κ × Response :=
  match state.requireScope digest clock later headers adminScope true with
  | (state, some response) => (state, response)
  | (state, none) =>
    if ¬state.hasCatalogRepository then (state, persistenceUnavailable)
    else if fails then (state, persistenceUnavailable)
    else
      let (users, found) := state.users.delete id
      ({ state with users }, if found then .noContent else userNotFound)

end AppState

/-! ## What the handlers do -/

/-- No session is stored that was not stored before. -/
def AuthInner.Within {κ : Type} [DecidableEq κ] (after before : AuthInner κ) : Prop :=
  ∀ key session, after.sessions.lookup key = some session →
    before.sessions.lookup key = some session

section Effects

variable {κ : Type} [DecidableEq κ] {digest : String → κ} {state : AppState κ}
  {clock later : Clock} {headers : HeaderMap}

/-- A guard changes the manager at most, and it lets exactly the granted requests pass. -/
theorem requireScope_cases (scope : String) (requireCsrf : Bool) :
    ∃ auth answer,
      state.requireScope digest clock later headers scope requireCsrf =
        ({ state with auth }, answer) ∧
      auth.Within state.auth ∧
      (answer = none ↔ state.grants digest clock headers scope requireCsrf = true) := by
  have hfirst : (state.auth.authorizeWithScope digest clock.now clock.utcNow headers requireCsrf
      (some scope)).1.Within state.auth := fun _ _ => lookup_authorizeWithScope
  unfold AppState.requireScope AppState.grants
  split
  · rename_i auth authorization heq
    rw [heq] at hfirst ⊢
    exact ⟨auth, none, rfl, hfirst, by simp⟩
  · rename_i auth heq
    rw [heq] at hfirst ⊢
    exact ⟨_, _, rfl, fun _ _ h => hfirst _ _ (lookup_authorizeWithScope h), by simp⟩

theorem terminateSession_cases (key : HttpTsSessionKey) :
    ∃ auth, auth.Within state.auth ∧
      ((state.terminateSession digest clock later headers key).1 = { state with auth } ∨
        (state.grants digest clock headers readScope false = true ∧
          (state.terminateSession digest clock later headers key).1 =
            { state with auth, media := (state.media.terminate key).1 })) := by
  obtain ⟨auth, answer, hguard, hwithin, hanswer⟩ :=
    @requireScope_cases _ _ digest state clock later headers readScope false
  refine ⟨auth, hwithin, ?_⟩
  unfold AppState.terminateSession AppState.requireAdmin
  rw [hguard]
  cases answer with
  | some response => exact .inl rfl
  | none => exact .inr ⟨hanswer.mp rfl, rfl⟩

theorem rotateJellyfinToken_cases (overlapSeconds : Option Int) (random : Option String)
    (databaseNow : Time) (fails : Bool) :
    ∃ auth, auth.Within state.auth ∧
      ((state.rotateJellyfinToken digest clock later headers overlapSeconds random databaseNow
          fails).1 = { state with auth } ∨
        (state.grants digest clock headers outputScope true = true ∧ ∃ outputProfile jellyfinSetup,
          (state.rotateJellyfinToken digest clock later headers overlapSeconds random databaseNow
            fails).1 = { state with auth, outputProfile, jellyfinSetup })) := by
  obtain ⟨auth, answer, hguard, hwithin, hanswer⟩ :=
    @requireScope_cases _ _ digest state clock later headers outputScope true
  refine ⟨auth, hwithin, ?_⟩
  unfold AppState.rotateJellyfinToken
  rw [hguard]
  cases answer with
  | some response => exact .inl rfl
  | none =>
    simp only
    split
    · exact .inl rfl
    · split
      · exact .inl rfl
      · split
        · exact .inl rfl
        · split
          · exact .inl rfl
          · split
            · exact .inl rfl
            · split
              · exact .inl rfl
              · exact .inr ⟨hanswer.mp rfl, _, _, rfl⟩

theorem createUser_cases (body : CreateUserRequest) (argon : String → Option String) (id : Uuid)
    (fails : Bool) :
    ∃ auth, auth.Within state.auth ∧
      ((state.createUser digest clock later headers body argon id fails).1 = { state with auth } ∨
        (state.grants digest clock headers adminScope true = true ∧ ∃ input users row,
          checkCreateUser argon body = .ok input ∧ state.users.create id input = some (users, row) ∧
          (state.createUser digest clock later headers body argon id fails).1 =
            { state with auth, users })) := by
  obtain ⟨auth, answer, hguard, hwithin, hanswer⟩ :=
    @requireScope_cases _ _ digest state clock later headers adminScope true
  refine ⟨auth, hwithin, ?_⟩
  unfold AppState.createUser
  rw [hguard]
  cases answer with
  | some response => exact .inl rfl
  | none =>
    simp only
    split
    · exact .inl rfl
    · cases hcheck : checkCreateUser argon body with
      | error response => exact .inl rfl
      | ok input =>
        simp only
        split
        · exact .inl rfl
        · cases hcreate : state.users.create id input with
          | none => exact .inl rfl
          | some created => exact .inr ⟨hanswer.mp rfl, input, created.1, created.2, rfl, hcreate, rfl⟩

theorem updateUser_cases (id : Uuid) (body : UpdateUserRequest) (argon : String → Option String)
    (fails : Bool) :
    ∃ auth, auth.Within state.auth ∧
      ((state.updateUser digest clock later headers id body argon fails).1 = { state with auth } ∨
        (state.grants digest clock headers adminScope true = true ∧
          state.hasCatalogRepository = true ∧ fails = false ∧ ∃ input users row,
          checkUpdateUser argon body = .ok input ∧ state.users.update id input = some (users, row) ∧
          (state.updateUser digest clock later headers id body argon fails).1 =
            { state with auth, users })) := by
  obtain ⟨auth, answer, hguard, hwithin, hanswer⟩ :=
    @requireScope_cases _ _ digest state clock later headers adminScope true
  refine ⟨auth, hwithin, ?_⟩
  unfold AppState.updateUser
  rw [hguard]
  cases answer with
  | some response => exact .inl rfl
  | none =>
    simp only
    split
    · exact .inl rfl
    · rename_i hrepository
      cases hcheck : checkUpdateUser argon body with
      | error response => exact .inl rfl
      | ok input =>
        simp only
        split
        · exact .inl rfl
        · rename_i hfails
          have hreaches : state.hasCatalogRepository = true ∧ fails = false :=
            ⟨not_not.mp hrepository, Bool.eq_false_iff.mpr hfails⟩
          cases hupdate : state.users.update id input with
          | none => exact .inl rfl
          | some updated =>
            obtain ⟨users, row⟩ := updated
            refine .inr ⟨hanswer.mp rfl, hreaches.1, hreaches.2, input, users, row, rfl, hupdate, ?_⟩
            cases row with
            | none => rfl
            | some row => rfl

theorem deleteUser_cases (id : Uuid) (fails : Bool) :
    ∃ auth, auth.Within state.auth ∧
      ((state.deleteUser digest clock later headers id fails).1 = { state with auth } ∨
        (state.grants digest clock headers adminScope true = true ∧
          state.hasCatalogRepository = true ∧ fails = false ∧
          (state.deleteUser digest clock later headers id fails).1 =
            { state with auth, users := (state.users.delete id).1 })) := by
  obtain ⟨auth, answer, hguard, hwithin, hanswer⟩ :=
    @requireScope_cases _ _ digest state clock later headers adminScope true
  refine ⟨auth, hwithin, ?_⟩
  unfold AppState.deleteUser
  rw [hguard]
  cases answer with
  | some response => exact .inl rfl
  | none =>
    simp only
    split
    · exact .inl rfl
    · rename_i hrepository
      split
      · exact .inl rfl
      · rename_i hfails
        exact .inr ⟨hanswer.mp rfl, not_not.mp hrepository, Bool.eq_false_iff.mpr hfails, rfl⟩

end Effects

end IptvRelay.Auth
