import IptvRelay.Auth.AccountChanges

/-!
# What a viewer can change

Sequences of requests to the handlers for user accounts, the output token and media
sessions, from any state. A viewer's request has no other credential than a browser session
or an operator token with scopes of the role `viewer`.
-/

namespace IptvRelay.Auth

open Transition

inductive Request where
  | terminateSession (key : HttpTsSessionKey)
  | rotateJellyfinToken (overlapSeconds : Option Int) (random : Option String)
      (databaseNow : Time) (fails : Bool)
  | createUser (body : CreateUserRequest) (argon : String → Option String) (id : Uuid)
      (fails : Bool)
  | updateUser (id : Uuid) (body : UpdateUserRequest) (argon : String → Option String)
      (fails : Bool)
  | deleteUser (id : Uuid) (fails : Bool)

/-- A request as it arrives, with the readings of the clocks while it is served. -/
structure Arrival where
  headers : HeaderMap
  clock : Clock
  later : Clock
  request : Request

section Requests

variable {κ : Type} [DecidableEq κ] (digest : String → κ)

def AppState.serve (state : AppState κ) (arrival : Arrival) : AppState κ :=
  match arrival.request with
  | .terminateSession key =>
    (state.terminateSession digest arrival.clock arrival.later arrival.headers key).1
  | .rotateJellyfinToken overlapSeconds random databaseNow fails =>
    (state.rotateJellyfinToken digest arrival.clock arrival.later arrival.headers overlapSeconds
      random databaseNow fails).1
  | .createUser body argon id fails =>
    (state.createUser digest arrival.clock arrival.later arrival.headers body argon id fails).1
  | .updateUser id body argon fails =>
    (state.updateUser digest arrival.clock arrival.later arrival.headers id body argon fails).1
  | .deleteUser id fails =>
    (state.deleteUser digest arrival.clock arrival.later arrival.headers id fails).1

def AppState.serveAll (state : AppState κ) (arrivals : List Arrival) : AppState κ :=
  arrivals.foldl (AppState.serve digest) state

/-- Every request meets the condition in the state that it finds. -/
def AllWhere (ok : AppState κ → Arrival → Prop) : AppState κ → List Arrival → Prop
  | _, [] => True
  | state, arrival :: rest => ok state arrival ∧ AllWhere ok (state.serve digest arrival) rest

/-- The role's scopes are those of `role_scopes`. -/
def viewerScopes : List String := (roleScopes "viewer").getD []

/-- Neither the local bypass nor the bootstrap bearer lets the request pass. -/
def Unprivileged (auth : AuthInner κ) (headers : HeaderMap) : Prop :=
  auth.devAuthDisabled = false ∧
    ¬(auth.bootstrapBearerEnabled = true ∧ (bearerToken headers).map digest = some auth.bearerHash)

/-- The operator token of a request. -/
def presentedToken (auth : AuthInner κ) (headers : HeaderMap) : Option (OperatorTokenRecord κ) :=
  (bearerToken headers).bind fun token => auth.operatorTokens.lookup (digest token)

/-- The only credentials are a session or a token with scopes of a viewer. -/
def ViewerOnly (auth : AuthInner κ) (headers : HeaderMap) : Prop :=
  Unprivileged digest auth headers ∧
    (∀ record ∈ presentedToken digest auth headers, record.scopes ⊆ viewerScopes) ∧
    ∀ presented ∈ auth.presentedSession digest headers, presented.2.user.scopes ⊆ viewerScopes

/-- The only credential is a session, and the request does not carry its CSRF token. -/
def SessionWithoutCsrf (auth : AuthInner κ) (headers : HeaderMap) : Prop :=
  Unprivileged digest auth headers ∧ presentedToken digest auth headers = none ∧
    ∀ presented ∈ auth.presentedSession digest headers,
      AuthInner.csrfMatches digest headers presented.2 = false

instance {auth : AuthInner κ} {headers : HeaderMap} : Decidable (Unprivileged digest auth headers) :=
  inferInstanceAs (Decidable (_ ∧ ¬_))

instance {auth : AuthInner κ} {headers : HeaderMap} : Decidable (ViewerOnly digest auth headers) :=
  inferInstanceAs (Decidable (_ ∧ _ ∧ _))

instance {auth : AuthInner κ} {headers : HeaderMap} :
    Decidable (SessionWithoutCsrf digest auth headers) :=
  inferInstanceAs (Decidable (_ ∧ _ ∧ _))

def Request.isTermination : Request → Bool
  | .terminateSession _ => true
  | _ => false

def Request.isRotation : Request → Bool
  | .rotateJellyfinToken .. => true
  | _ => false

/-- A token with the output scope, or a session with it and its CSRF token. -/
def OutputCredential (auth : AuthInner κ) (headers : HeaderMap) : Prop :=
  (∃ record ∈ presentedToken digest auth headers,
    scopeSatisfied record.scopes outputScope = true) ∨
  ∃ presented ∈ auth.presentedSession digest headers,
    scopeSatisfied presented.2.user.scopes outputScope = true ∧
      AuthInner.csrfMatches digest headers presented.2 = true

variable {digest} {state after : AppState κ} {auth : AuthInner κ} {headers : HeaderMap}

/-! ## Who passes a guard -/

theorem presentedSession_of_lookup {token : String} {session : SessionRecord κ}
    (htoken : cookie headers sessionCookie = some token)
    (hsession : auth.sessions.lookup (digest token) = some session) :
    auth.presentedSession digest headers = some (digest token, session) := by
  rw [AuthInner.presentedSession, htoken, Option.bind_eq_bind, Option.bind_some, hsession]
  rfl

/-- A request without privileges passes by its token or by its session. -/
theorem granted_cases {clock : Clock} {scope : String} {requireCsrf : Bool}
    (hplain : Unprivileged digest state.auth headers)
    (h : state.grants digest clock headers scope requireCsrf = true) :
    (∃ record ∈ presentedToken digest state.auth headers,
      scopeSatisfied record.scopes scope = true) ∨
    ∃ presented ∈ state.auth.presentedSession digest headers,
      scopeSatisfied presented.2.user.scopes scope = true ∧
        (requireCsrf = true → AuthInner.csrfMatches digest headers presented.2 = true) := by
  obtain ⟨authorization, hsome⟩ := Option.isSome_iff_exists.mp h
  have hmeans := authorizeWithScope_some hsome
  cases authorization with
  | development => exact absurd hmeans (by simp [hplain.1])
  | bearer => exact absurd hmeans hplain.2
  | operatorToken =>
    obtain ⟨token, record, htoken, hrecord, hscope⟩ := hmeans
    refine .inl ⟨record, ?_, hscope⟩
    rw [presentedToken, htoken]
    exact hrecord
  | session =>
    obtain ⟨token, session, htoken, hsession, -, hscope, hcsrf⟩ := hmeans
    exact .inr ⟨_, presentedSession_of_lookup htoken hsession, hscope, hcsrf⟩

theorem scopeSatisfied_mono {scopes more : List String} {required : String} (h : scopes ⊆ more)
    (hscope : scopeSatisfied scopes required = true) : scopeSatisfied more required = true := by
  obtain ⟨scope, hmem, hmeets⟩ := List.any_eq_true.mp hscope
  exact List.any_eq_true.mpr ⟨scope, h hmem, hmeets⟩

/-- A viewer has the scopes of a viewer. -/
theorem viewer_granted {clock : Clock} {scope : String} {requireCsrf : Bool}
    (hviewer : ViewerOnly digest state.auth headers)
    (h : state.grants digest clock headers scope requireCsrf = true) :
    scopeSatisfied viewerScopes scope = true := by
  obtain ⟨hplain, htoken, hsession⟩ := hviewer
  rcases granted_cases hplain h with ⟨record, hrecord, hscope⟩ | ⟨presented, hpresented, hscope, -⟩
  · exact scopeSatisfied_mono (htoken record hrecord) hscope
  · exact scopeSatisfied_mono (hsession presented hpresented) hscope

theorem viewer_not_admin {clock : Clock} {requireCsrf : Bool}
    (hviewer : ViewerOnly digest state.auth headers) :
    state.grants digest clock headers adminScope requireCsrf ≠ true := by
  intro h
  exact absurd (viewer_granted hviewer h) (by decide)

theorem csrf_required {clock : Clock} {scope : String}
    (h : SessionWithoutCsrf digest state.auth headers) :
    state.grants digest clock headers scope true ≠ true := by
  intro hgrants
  obtain ⟨hplain, htoken, hsession⟩ := h
  rcases granted_cases hplain hgrants with ⟨record, hrecord, -⟩ | ⟨presented, hpresented, -, hcsrf⟩
  · rw [htoken] at hrecord
    cases hrecord
  · rw [hsession presented hpresented] at hcsrf
    exact absurd (hcsrf rfl) (by decide)

/-! ## What one request changes -/

variable {arrival : Arrival}

/-- A request changes nothing but the manager, or what its guard lets it change. -/
theorem serve_cases :
    ∃ auth, state.serve digest arrival = { state with auth } ∨
      (arrival.request.isTermination = true ∧
        ∃ media, state.serve digest arrival = { state with auth, media }) ∨
      (arrival.request.isRotation = true ∧
        state.grants digest arrival.clock arrival.headers outputScope true = true ∧
        ∃ outputProfile jellyfinSetup,
          state.serve digest arrival = { state with auth, outputProfile, jellyfinSetup }) ∨
      (arrival.request.isTermination = false ∧
        state.grants digest arrival.clock arrival.headers adminScope true = true ∧
        ∃ users, state.serve digest arrival = { state with auth, users }) := by
  unfold AppState.serve
  cases arrival.request with
  | terminateSession key =>
    obtain ⟨auth, -, hsame | ⟨-, hchanged⟩⟩ := @terminateSession_cases _ _ digest state
      arrival.clock arrival.later arrival.headers key
    · exact ⟨auth, .inl hsame⟩
    · exact ⟨auth, .inr (.inl ⟨rfl, _, hchanged⟩)⟩
  | rotateJellyfinToken overlapSeconds random databaseNow fails =>
    obtain ⟨auth, -, hsame | ⟨hgrants, hchanged⟩⟩ :=
      @rotateJellyfinToken_cases _ _ digest state arrival.clock arrival.later arrival.headers
        overlapSeconds random databaseNow fails
    · exact ⟨auth, .inl hsame⟩
    · exact ⟨auth, .inr (.inr (.inl ⟨rfl, hgrants, hchanged⟩))⟩
  | createUser body argon id fails =>
    obtain ⟨auth, -, hsame | ⟨hgrants, input, users, row, -, -, hchanged⟩⟩ :=
      @createUser_cases _ _ digest state arrival.clock arrival.later arrival.headers body argon id
        fails
    · exact ⟨auth, .inl hsame⟩
    · exact ⟨auth, .inr (.inr (.inr ⟨rfl, hgrants, users, hchanged⟩))⟩
  | updateUser id body argon fails =>
    obtain ⟨auth, -, hsame | ⟨hgrants, -, -, input, users, row, -, -, hchanged⟩⟩ :=
      @updateUser_cases _ _ digest state arrival.clock arrival.later arrival.headers id body argon
        fails
    · exact ⟨auth, .inl hsame⟩
    · exact ⟨auth, .inr (.inr (.inr ⟨rfl, hgrants, users, hchanged⟩))⟩
  | deleteUser id fails =>
    obtain ⟨auth, -, hsame | ⟨hgrants, -, -, hchanged⟩⟩ := @deleteUser_cases _ _ digest state
      arrival.clock arrival.later arrival.headers id fails
    · exact ⟨auth, .inl hsame⟩
    · exact ⟨auth, .inr (.inr (.inr ⟨rfl, hgrants, _, hchanged⟩))⟩

/-- Accounts change only for the scope `admin`. -/
theorem serve_users
    (h : state.grants digest arrival.clock arrival.headers adminScope true ≠ true) :
    (state.serve digest arrival).users = state.users := by
  obtain ⟨auth, hsame | ⟨-, media, hsame⟩ | ⟨-, -, outputProfile, jellyfinSetup, hsame⟩ |
    ⟨-, hgrants, -⟩⟩ := @serve_cases _ _ digest state arrival
  · rw [hsame]
  · rw [hsame]
  · rw [hsame]
  · exact absurd hgrants h

/-- The output token and the state of its setup change only by a rotation with the scope `output`. -/
theorem serve_output (h : arrival.request.isRotation = true →
      state.grants digest arrival.clock arrival.headers outputScope true ≠ true) :
    (state.serve digest arrival).outputProfile = state.outputProfile ∧
      (state.serve digest arrival).jellyfinSetup = state.jellyfinSetup := by
  obtain ⟨auth, hsame | ⟨-, media, hsame⟩ | ⟨hrotation, hgrants, -⟩ | ⟨-, -, users, hsame⟩⟩ :=
    @serve_cases _ _ digest state arrival
  · rw [hsame]
    exact ⟨rfl, rfl⟩
  · rw [hsame]
    exact ⟨rfl, rfl⟩
  · exact absurd hgrants (h hrotation)
  · rw [hsame]
    exact ⟨rfl, rfl⟩

/-- Media sessions change only by a termination. -/
theorem serve_media (h : arrival.request.isTermination = false) :
    (state.serve digest arrival).media = state.media := by
  obtain ⟨auth, hsame | ⟨htermination, -⟩ | ⟨-, -, outputProfile, jellyfinSetup, hsame⟩ |
    ⟨-, -, users, hsame⟩⟩ := @serve_cases _ _ digest state arrival
  · rw [hsame]
  · rw [h] at htermination
    cases htermination
  · rw [hsame]
  · rw [hsame]

/-! ## Sequences of requests -/

/-- What every request keeps is kept by all of them. -/
theorem serveAll_keeps {α : Type} {ok : AppState κ → Arrival → Prop} (read : AppState κ → α)
    (hkeeps : ∀ state arrival, ok state arrival → read (state.serve digest arrival) = read state)
    {arrivals : List Arrival} (h : AllWhere digest ok state arrivals) :
    read (state.serveAll digest arrivals) = read state := by
  induction arrivals generalizing state with
  | nil => rfl
  | cons arrival rest ih => exact (ih h.2).trans (hkeeps state arrival h.1)

end Requests

/-- Requests of viewers change no account. They change the output token only by a rotation with an
output credential (an operator token, or a session with its CSRF token), and media sessions only by
a termination. Apart from terminations, no request takes effect for a session without its CSRF
token. -/
theorem viewer_changes {κ : Type} [DecidableEq κ] (digest : String → κ) (state : AppState κ)
    (arrivals : List Arrival) :
    (AllWhere digest (fun state arrival => ViewerOnly digest state.auth arrival.headers) state
        arrivals →
      (state.serveAll digest arrivals).users = state.users) ∧
    (AllWhere digest (fun state arrival => ViewerOnly digest state.auth arrival.headers ∧
        (arrival.request.isRotation = true →
          ¬OutputCredential digest state.auth arrival.headers)) state arrivals →
      (state.serveAll digest arrivals).outputProfile = state.outputProfile) ∧
    (AllWhere digest (fun state arrival => ViewerOnly digest state.auth arrival.headers ∧
        arrival.request.isTermination = false) state arrivals →
      (state.serveAll digest arrivals).media = state.media) ∧
    (AllWhere digest (fun state arrival => SessionWithoutCsrf digest state.auth arrival.headers ∧
        arrival.request.isTermination = false) state arrivals →
      (state.serveAll digest arrivals).users = state.users ∧
      (state.serveAll digest arrivals).outputProfile = state.outputProfile ∧
      (state.serveAll digest arrivals).jellyfinSetup = state.jellyfinSetup ∧
      (state.serveAll digest arrivals).media = state.media) := by
  refine ⟨?_, ?_, ?_, ?_⟩
  · exact serveAll_keeps AppState.users fun state arrival hviewer =>
      serve_users (viewer_not_admin hviewer)
  · refine serveAll_keeps AppState.outputProfile fun state arrival hviewer =>
      (serve_output fun hrotation hgrants => ?_).1
    refine hviewer.2 hrotation ((granted_cases hviewer.1.1 hgrants).imp id ?_)
    rintro ⟨presented, hpresented, hscope, hcsrf⟩
    exact ⟨presented, hpresented, hscope, hcsrf rfl⟩
  · exact serveAll_keeps AppState.media fun state arrival hviewer => serve_media hviewer.2
  · intro hall
    refine ⟨serveAll_keeps AppState.users (fun state arrival h => ?_) hall,
      serveAll_keeps AppState.outputProfile (fun state arrival h => ?_) hall,
      serveAll_keeps AppState.jellyfinSetup (fun state arrival h => ?_) hall,
      serveAll_keeps AppState.media (fun state arrival h => serve_media h.2) hall⟩
    · exact serve_users (csrf_required h.1)
    · exact (serve_output fun _ => csrf_required h.1).1
    · exact (serve_output fun _ => csrf_required h.1).2

section Example

def bobUser : SessionUser where
  id := "8"
  username := "bob"
  displayName := "Bob"
  scopes := [readScope, outputScope]

/-- The operator signs in and creates a viewer, who signs in. -/
def bobSignsIn : List (AppOp String) :=
  [.ensureCsrfCookie 1 "" (some "l") [],
    .verifyLogin 2 true (browser "iptv_csrf=l" "l") "operator" "pass" none,
    .completeLogin 3 ⟨.login "l", .builtInOperator⟩ (some "s") (some "c"),
    .createUser ⟨4, 4⟩ ⟨4, 4⟩ operatorBrowser ⟨"bob", "Bob", "secret", none⟩ some "8" false,
    .ensureCsrfCookie 5 "" (some "m") [],
    .findAccount "bob",
    .findCredential ⟨"8", "bob", "Bob", "secret", "viewer", true⟩ [readScope, outputScope],
    .verifyLogin 6 true (browser "iptv_csrf=m" "m") "bob" "secret" (some ⟨bobUser, "secret"⟩),
    .completeLogin 7 ⟨.login "m", bobUser⟩ (some "t") (some "d")]

/-- A relay with an output token and one media session. -/
def streamingRelay : Machine (AppRun String) (AppOp String) :=
  appMachine id (fun hash password => hash = password) "pass" "bearer" true false "http://relay" true
    .empty (some ⟨"first", none, none, 1⟩) .regenerationRequired
    ⟨AList.singleton ⟨"pool", "source", 1⟩ (some 1), []⟩

def arrive (headers : HeaderMap) (request : Request) : Arrival :=
  ⟨headers, ⟨9, 9⟩, ⟨9, 9⟩, request⟩

def rotation : Request := .rotateJellyfinToken (some 0) (some "second") 9 false

def termination : Request := .terminateSession ⟨"pool", "source", 1⟩

/-- A viewer rotates the output token, and ends a media session without a CSRF token. -/
theorem viewer_rotates_and_terminates :
    ∃ s, streamingRelay.Reachable s ∧
      (∃ presented ∈ s.state.auth.presentedSession id aliceBrowser,
        presented.2.user.scopes = viewerScopes) ∧
      ViewerOnly id s.state.auth aliceBrowser ∧
      (s.state.serve id (arrive aliceBrowser rotation)).outputProfile ≠ s.state.outputProfile ∧
      SessionWithoutCsrf id s.state.auth (browser "iptv_session=t" "") ∧
      (s.state.serve id (arrive (browser "iptv_session=t" "") termination)).media.terminated ≠
        s.state.media.terminated := by
  obtain ⟨s, hs, hp⟩ := streamingRelay.exists_reachable_of_run bobSignsIn
    (fun s => ((s.state.auth.presentedSession id aliceBrowser).any fun presented =>
        presented.2.user.scopes = viewerScopes) ∧
      ViewerOnly id s.state.auth aliceBrowser ∧
      (s.state.serve id (arrive aliceBrowser rotation)).outputProfile ≠ s.state.outputProfile ∧
      SessionWithoutCsrf id s.state.auth (browser "iptv_session=t" "") ∧
      (s.state.serve id (arrive (browser "iptv_session=t" "") termination)).media.terminated ≠
        s.state.media.terminated) (by decide +kernel)
  obtain ⟨hpresented, hrest⟩ := of_decide_eq_true hp
  obtain ⟨presented, hmem, hscopes⟩ := (Option.any_eq_true _ _).mp hpresented
  exact ⟨s, hs, ⟨presented, hmem, of_decide_eq_true hscopes⟩, hrest⟩

/-- A signed-in viewer. -/
def bobState : AppState String where
  auth := {
    AuthInner.new "pass" "bearer" true false with
    sessions := AList.singleton "t" ⟨"d", 100, bobUser⟩ }
  publicBaseUrl := "http://relay"
  hasCatalogRepository := true
  users := .empty
  outputProfile := some ⟨"first", none, none, 1⟩
  jellyfinSetup := .regenerationRequired
  media := ⟨∅, []⟩

/-- The viewer tries to delete an account, and to rotate the token without the CSRF token. -/
theorem viewer_changes_nothing :
    (bobState.serveAll id [arrive aliceBrowser (.deleteUser "8" false)]).users = bobState.users ∧
    (bobState.serveAll id [arrive (browser "iptv_session=t" "") rotation]).outputProfile =
      bobState.outputProfile ∧
    (bobState.serveAll id [arrive aliceBrowser rotation]).media = bobState.media := by
  have hcsrf : SessionWithoutCsrf id bobState.auth (browser "iptv_session=t" "") := by
    decide +kernel
  have hviewer : ViewerOnly id bobState.auth aliceBrowser := by decide +kernel
  refine ⟨(viewer_changes id bobState [arrive aliceBrowser (.deleteUser "8" false)]).1
      ⟨hviewer, trivial⟩, ?_,
    (viewer_changes id bobState [arrive aliceBrowser rotation]).2.2.1 ⟨⟨hviewer, rfl⟩, trivial⟩⟩
  exact ((viewer_changes id bobState [arrive (browser "iptv_session=t" "") rotation]).2.2.2
    ⟨⟨hcsrf, rfl⟩, trivial⟩).2.1

end Example

end IptvRelay.Auth
