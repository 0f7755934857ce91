import IptvRelay.Auth.Calls
import IptvRelay.Lib.Checked
import IptvRelay.Lib.Machine

/-!
# Browser sessions over whole runs

A run is any sequence of calls whose readings of the clock do not go back. Its history says
which cookies were issued and which sessions were ended; a session that authorizes a
request stands in that history.
-/

namespace IptvRelay.Auth

open Transition Checked

/-- What sign-ins, sign-outs and CSRF cookies leave behind, in order. -/
inductive AuthEvent (κ : Type) where
  | csrfIssued (headers : HeaderMap) (issued : SetCookie)
  | signedIn (verified : VerifiedLogin κ) (session csrf : String) (now : Time)
  | loggedOut (headers : HeaderMap)
  deriving DecidableEq, Repr

/-- The manager, the last reading of the clock, the sign-ins that have been verified and not
completed, and the history. -/
structure AuthRun (κ : Type) where
  auth : AuthInner κ
  now : Time := 0
  verified : List (VerifiedLogin κ) := []
  history : List (AuthEvent κ) := []

inductive AuthOp (κ : Type) where
  | ensureCsrfCookie (now : Time) (first : κ) (random : Option String) (headers : HeaderMap)
  | verifyLogin (now : Time) (joined : Bool) (headers : HeaderMap) (username password : String)
      (stored : Option StoredUserCredential)
  | completeLogin (now : Time) (verified : VerifiedLogin κ) (sessionRandom csrfRandom : Option String)
  | logout (headers : HeaderMap)
  | authorize (now utcNow : Time) (headers : HeaderMap) (requireCsrf : Bool)
      (requiredScope : Option String)
  | loadOperatorTokens (records : List (OperatorTokenRecord κ))
  | addOperatorToken (record : OperatorTokenRecord κ)
  | revokeOperatorToken (id : Nat)
  | disableBootstrapBearer

section Machine

variable {κ : Type} [DecidableEq κ] (digest : String → κ)
  (verifyPassword : String → String → Bool)

def AuthRun.step (s : AuthRun κ) : AuthOp κ → Option (AuthRun κ)
  | .ensureCsrfCookie now first random headers => do
    guard (s.now ≤ now)
    let (auth, issued) := s.auth.ensureCsrfCookie digest now first random headers
    return { s with
      auth
      now
      history := s.history ++ (issued.map (AuthEvent.csrfIssued headers)).toList }
  | .verifyLogin now joined headers username password stored => do
    guard (s.now ≤ now)
    let (auth, outcome) := s.auth.verifyLogin digest
      (fun hash password => if joined then some (verifyPassword hash password) else none)
      now headers username password stored
    return { s with auth, now, verified := s.verified ++ outcome.toOption.toList }
  | .completeLogin now verified sessionRandom csrfRandom => do
    guard (s.now ≤ now ∧ verified ∈ s.verified)
    let (auth, outcome) := s.auth.completeLogin digest now verified sessionRandom csrfRandom
    return { s with
      auth
      now
      verified := s.verified.erase verified
      history := s.history ++ (outcome.toOption.map fun issued =>
        .signedIn verified issued.sessionCookie.value issued.csrfCookie.value now).toList }
  | .logout headers =>
    some { s with auth := s.auth.logout digest headers, history := s.history ++ [.loggedOut headers] }
  | .authorize now utcNow headers requireCsrf requiredScope => do
    guard (s.now ≤ now)
    return { s with
      auth := (s.auth.authorizeWithScope digest now utcNow headers requireCsrf requiredScope).1
      now }
  | .loadOperatorTokens records => some { s with auth := s.auth.loadOperatorTokens records }
  | .addOperatorToken record => some { s with auth := s.auth.addOperatorToken record }
  | .revokeOperatorToken id => some { s with auth := s.auth.revokeOperatorToken id }
  | .disableBootstrapBearer => some { s with auth := s.auth.disableBootstrapBearer }

/-- From a new manager. -/
def authMachine (passwordHash : String) (bearerHash : κ) (secureCookies devAuthDisabled : Bool) :
    Machine (AuthRun κ) (AuthOp κ) where
  start := { auth := .new passwordHash bearerHash secureCookies devAuthDisabled }
  step := AuthRun.step digest verifyPassword

end Machine

/-! ## What stands in a history -/

section History

variable {κ : Type} [DecidableEq κ] (digest : String → κ) (token : String)

/-- A sign-out with that session, or a sign-in that replaces it. -/
def AuthEvent.ends : AuthEvent κ → Bool
  | .csrfIssued .. => false
  | .signedIn verified .. => verified.csrfBinding = .session (digest token)
  | .loggedOut headers => cookie headers sessionCookie = some token

/-- The CSRF token that the session receives. A CSRF cookie for a session lives as long as a
session may. -/
def AuthEvent.newCsrf : AuthEvent κ → Option String
  | .csrfIssued headers issued =>
    if cookie headers sessionCookie = some token ∧ issued.maxAge = sessionTtl then some issued.value
    else none
  | .signedIn _ session csrf _ => if session = token then some csrf else none
  | .loggedOut _ => none

/-- The CSRF token that the session received last. -/
def latestCsrf (history : List (AuthEvent κ)) : Option String :=
  history.reverse.findSome? (AuthEvent.newCsrf token)

/-- A session token that a sign-in has issued and nothing has ended since. -/
structure Standing (history : List (AuthEvent κ)) (user : SessionUser) (expiresAt : Time)
    (csrf : String) : Prop where
  issued : ∃ before verified first now after,
    history = before ++ .signedIn verified token first now :: after ∧ verified.user = user ∧
      expiresAt = now + sessionTtl ∧ ∀ event ∈ after, event.ends digest token = false
  latest : latestCsrf token history = some csrf

/-- Every stored session stands in the history. -/
def SessionsStand (history : List (AuthEvent κ)) (sessions : AList fun _ : κ => SessionRecord κ) :
    Prop :=
  ∀ key session, sessions.lookup key = some session → ∃ token csrf,
    key = digest token ∧ session.csrfHash = digest csrf ∧
      Standing digest token history session.user session.expiresAt csrf

variable {digest token} {history : List (AuthEvent κ)} {event : AuthEvent κ}

omit [DecidableEq κ] in
theorem latestCsrf_append :
    latestCsrf token (history ++ [event]) =
      (event.newCsrf token).or (latestCsrf token history) := by
  rw [latestCsrf, List.reverse_append, List.reverse_singleton, List.singleton_append,
    List.findSome?_cons]
  cases event.newCsrf token with
  | none => rfl
  | some csrf => rfl

theorem Standing.append {user : SessionUser} {expiresAt : Time} {csrf : String}
    (h : Standing digest token history user expiresAt csrf) (event : AuthEvent κ)
    (hlive : event.ends digest token = false) :
    Standing digest token (history ++ [event]) user expiresAt ((event.newCsrf token).getD csrf) := by
  obtain ⟨before, verified, first, now, after, rfl, huser, hexpires, hafter⟩ := h.issued
  constructor
  · refine ⟨before, verified, first, now, after ++ [event], by simp, huser, hexpires, ?_⟩
    intro other hother
    rcases List.mem_append.mp hother with hother | hother
    · exact hafter other hother
    · rw [List.mem_singleton.mp hother]
      exact hlive
  · rw [latestCsrf_append, h.latest]
    cases event.newCsrf token with
    | none => rfl
    | some csrf => rfl

theorem Standing.signedIn {verified : VerifiedLogin κ} {csrf : String} {now : Time} :
    Standing digest token (history ++ [.signedIn verified token csrf now]) verified.user
      (now + sessionTtl) csrf := by
  constructor
  · exact ⟨history, verified, csrf, now, [], rfl, rfl, rfl, by simp⟩
  · rw [latestCsrf_append, AuthEvent.newCsrf, if_pos rfl]
    rfl

/-- Sessions that are still there, behind an event that is not about them. -/
theorem SessionsStand.append {sessions after : AList fun _ : κ => SessionRecord κ}
    (h : SessionsStand digest history sessions)
    (hkept : ∀ key session, after.lookup key = some session →
      sessions.lookup key = some session ∧ ∀ token, key = digest token →
        event.ends digest token = false ∧ event.newCsrf token = none) :
    SessionsStand digest (history ++ [event]) after := by
  intro key session hsession
  obtain ⟨hold, hother⟩ := hkept key session hsession
  obtain ⟨token, csrf, rfl, hcsrf, hstands⟩ := h key session hold
  obtain ⟨hlive, hnone⟩ := hother token rfl
  have hstands := hstands.append event hlive
  rw [hnone] at hstands
  exact ⟨token, csrf, rfl, hcsrf, hstands⟩

theorem SessionsStand.mono {sessions after : AList fun _ : κ => SessionRecord κ}
    (h : SessionsStand digest history sessions)
    (hkept : ∀ key session, after.lookup key = some session → sessions.lookup key = some session) :
    SessionsStand digest history after :=
  fun key session hsession => h key session (hkept key session hsession)

end History

section Size

variable {κ : Type} [DecidableEq κ] {digest : String → κ} {auth after : AuthInner κ}
  {now : Time} {headers : HeaderMap}

/-! ## The number of login tokens -/

theorem mem_oldestLoginCsrfToken {first key : κ}
    (h : auth.oldestLoginCsrfToken first = some key) : key ∈ auth.loginCsrfTokens := by
  simp only [AuthInner.oldestLoginCsrfToken] at h
  split at h
  · cases h
  · rename_i oldest hmin
    split at h
    · rename_i hfirst
      obtain rfl := Option.some.inj h
      exact AList.lookup_isSome.mp (by rw [hfirst]; rfl)
    · obtain rfl := Option.some.inj h
      exact List.mem_keys_of_mem (List.argmin_mem hmin)

theorem exists_oldestLoginCsrfToken (first : κ) (h : 0 < KeyMap.size auth.loginCsrfTokens) :
    ∃ key, auth.oldestLoginCsrfToken first = some key := by
  simp only [AuthInner.oldestLoginCsrfToken]
  split
  · rename_i hmin
    rw [List.argmin_eq_none] at hmin
    rw [KeyMap.size, hmin] at h
    cases h
  · split
    · exact ⟨_, rfl⟩
    · exact ⟨_, rfl⟩

/-- A full table loses a token, so there is room for one. -/
theorem size_dropOldestLoginCsrf (first : κ)
    (h : KeyMap.size auth.loginCsrfTokens ≤ maxLoginCsrfTokens) :
    KeyMap.size (auth.dropOldestLoginCsrf first).loginCsrfTokens + 1 ≤ maxLoginCsrfTokens := by
  have hmax : 0 < maxLoginCsrfTokens := by decide
  unfold AuthInner.dropOldestLoginCsrf
  split
  · rename_i hfull
    obtain ⟨key, hkey⟩ := @exists_oldestLoginCsrfToken _ _ auth first (by omega)
    rw [hkey]
    have hone := KeyMap.size_erase_of_mem (mem_oldestLoginCsrfToken hkey)
    simp only
    omega
  · omega

omit [DecidableEq κ] in
theorem size_retainLoginCsrfTokens :
    KeyMap.size (auth.retainLoginCsrfTokens now).loginCsrfTokens ≤
      KeyMap.size auth.loginCsrfTokens :=
  KeyMap.size_retain_le _ _

theorem size_newLoginCsrf {first : κ} {random : Option String}
    (h : KeyMap.size auth.loginCsrfTokens ≤ maxLoginCsrfTokens) :
    KeyMap.size (auth.newLoginCsrf digest now first random).1.loginCsrfTokens ≤
      maxLoginCsrfTokens := by
  have hroom := size_dropOldestLoginCsrf first h
  cases random with
  | none => exact (Nat.le_succ _).trans hroom
  | some token => exact (KeyMap.size_insert_le _ _ _).trans hroom

theorem size_ensureCsrfCookie {first : κ} {random : Option String}
    (h : KeyMap.size auth.loginCsrfTokens ≤ maxLoginCsrfTokens) :
    KeyMap.size (auth.ensureCsrfCookie digest now first random headers).1.loginCsrfTokens ≤
      maxLoginCsrfTokens := by
  simp only [AuthInner.ensureCsrfCookie]
  split
  · split
    · exact h
    · cases random with
      | none => exact h
      | some token => exact h
  · have hretain := (@size_retainLoginCsrfTokens _ (auth.retainSessions now) now).trans h
    split
    · exact hretain
    · exact size_newLoginCsrf hretain

theorem size_csrfBinding :
    KeyMap.size (auth.csrfBinding digest now headers).1.loginCsrfTokens ≤
      KeyMap.size auth.loginCsrfTokens := by
  simp only [AuthInner.csrfBinding]
  split
  · split
    · exact Nat.le_refl _
    · split
      · exact Nat.le_refl _
      · exact size_retainLoginCsrfTokens
  · exact Nat.le_refl _

theorem size_completeLogin {verified : VerifiedLogin κ} {sessionRandom csrfRandom : Option String} :
    KeyMap.size (auth.completeLogin digest now verified sessionRandom csrfRandom).1.loginCsrfTokens ≤
      KeyMap.size auth.loginCsrfTokens := by
  unfold AuthInner.completeLogin
  split
  · simp only
    split
    · exact KeyMap.size_erase_le _ _
    · exact Nat.le_refl _
  · exact Nat.le_refl _

end Size

/-! ## The sessions stand -/

section Stand

variable {κ : Type} [DecidableEq κ] {digest : String → κ} {auth after : AuthInner κ}
  {history : List (AuthEvent κ)} {now : Time} {headers : HeaderMap}

/-- Sessions under other keys than that of the presented session are not concerned by its
events. -/
theorem not_presented {event : AuthEvent κ} {token other : String}
    (hevent : event = .loggedOut headers ∨ ∃ issued, event = .csrfIssued headers issued)
    (hcookie : cookie headers sessionCookie = some token) (hne : digest other ≠ digest token) :
    event.ends digest other = false ∧ event.newCsrf other = none := by
  have hother : cookie headers sessionCookie ≠ some other := by
    rw [hcookie]
    rintro ⟨⟩
    exact hne rfl
  rcases hevent with rfl | ⟨issued, rfl⟩
  · exact ⟨decide_eq_false hother, rfl⟩
  · exact ⟨rfl, if_neg fun h => hother h.1⟩

theorem SessionsStand.ensureCsrfCookie (hinj : Function.Injective digest)
    (h : SessionsStand digest history auth.sessions) {first : κ} {random : Option String}
    {issued : Option SetCookie}
    (hcall : auth.ensureCsrfCookie digest now first random headers = (after, issued)) :
    SessionsStand digest (history ++ (issued.map (AuthEvent.csrfIssued headers)).toList)
      after.sessions := by
  rcases ensureCsrfCookie_cases hcall with
    ⟨token, session, csrf, hcookie, hlookup, rfl, hafter⟩ | ⟨hafter, hlogin⟩
  · intro key other hother
    rw [hafter] at hother
    rcases KeyMap.lookup_insert_eq_some.mp hother with ⟨rfl, rfl⟩ | ⟨hne, hold⟩
    · obtain ⟨same, old, hsame, -, hstands⟩ := h _ session hlookup
      obtain rfl := hinj hsame
      have hstands := hstands.append (.csrfIssued headers (auth.csrfSetCookie csrf sessionTtl)) rfl
      have hnew : AuthEvent.newCsrf token (.csrfIssued headers
          (auth.csrfSetCookie csrf sessionTtl) : AuthEvent κ) = some csrf := if_pos ⟨hcookie, rfl⟩
      rw [hnew] at hstands
      exact ⟨token, csrf, rfl, rfl, hstands⟩
    · obtain ⟨other, old, rfl, hcsrf, hstands⟩ := h _ _ (lookup_retainSessions.mp hold).1
      obtain ⟨hlive, hnone⟩ := not_presented (.inr ⟨_, rfl⟩) hcookie hne
      have hstands := hstands.append _ hlive
      rw [hnone] at hstands
      exact ⟨other, old, rfl, hcsrf, hstands⟩
  · have hkept : ∀ key session, after.sessions.lookup key = some session →
        auth.sessions.lookup key = some session := by
      intro key session hsession
      rw [hafter] at hsession
      exact (lookup_retainSessions.mp hsession).1
    cases issued with
    | none => simpa using h.mono hkept
    | some issued =>
      refine h.append fun key session hsession => ⟨hkept key session hsession, fun token _ => ?_⟩
      refine ⟨rfl, if_neg fun hboth => ?_⟩
      rw [hlogin issued rfl] at hboth
      exact absurd hboth.2 (by decide)

theorem SessionsStand.completeLogin (h : SessionsStand digest history auth.sessions)
    {verified : VerifiedLogin κ} {sessionRandom csrfRandom : Option String}
    {outcome : Except LoginError IssuedSession}
    (hcall : auth.completeLogin digest now verified sessionRandom csrfRandom = (after, outcome)) :
    SessionsStand digest (history ++ (outcome.toOption.map fun issued => AuthEvent.signedIn verified
      issued.sessionCookie.value issued.csrfCookie.value now).toList) after.sessions := by
  unfold AuthInner.completeLogin at hcall
  split at hcall
  · rename_i sessionToken csrfToken
    obtain ⟨rfl, rfl⟩ := Prod.mk.inj hcall
    intro key session hsession
    rcases KeyMap.lookup_insert_eq_some.mp hsession with ⟨rfl, rfl⟩ | ⟨hne, hold⟩
    · exact ⟨sessionToken, csrfToken, rfl, rfl, .signedIn⟩
    · have hlive : auth.sessions.lookup key = some session ∧
          verified.csrfBinding ≠ .session key := by
        split at hold
        · rename_i previous hbinding
          obtain ⟨hkey, hold⟩ := KeyMap.lookup_erase_eq_some.mp hold
          refine ⟨hold, ?_⟩
          rw [hbinding]
          rintro ⟨⟩
          exact hkey rfl
        · rename_i token hbinding
          refine ⟨hold, ?_⟩
          rw [hbinding]
          rintro ⟨⟩
      obtain ⟨token, csrf, rfl, hcsrf, hstands⟩ := h _ _ hlive.1
      have hstands := hstands.append (.signedIn verified sessionToken csrfToken now)
        (decide_eq_false hlive.2)
      have hnone : AuthEvent.newCsrf token (.signedIn verified sessionToken csrfToken now) = none := by
        refine if_neg ?_
        rintro rfl
        exact hne rfl
      rw [hnone] at hstands
      exact ⟨token, csrf, rfl, hcsrf, hstands⟩
  · obtain ⟨rfl, rfl⟩ := Prod.mk.inj hcall
    simpa [Except.toOption] using h

theorem SessionsStand.logout (h : SessionsStand digest history auth.sessions) :
    SessionsStand digest (history ++ [.loggedOut headers]) (auth.logout digest headers).sessions := by
  unfold AuthInner.logout
  cases hcookie : cookie headers sessionCookie with
  | none =>
    refine h.append fun key session hsession => ⟨hsession, fun token _ => ⟨?_, rfl⟩⟩
    rw [AuthEvent.ends, hcookie]
    rfl
  | some token =>
    refine h.append fun key session hsession => ?_
    obtain ⟨hne, hold⟩ := KeyMap.lookup_erase_eq_some.mp hsession
    refine ⟨hold, fun other hother => ?_⟩
    subst hother
    exact not_presented (.inl rfl) hcookie hne

end Stand

/-! ## Runs -/

section Runs

variable {κ : Type} [DecidableEq κ] {digest : String → κ} {verifyPassword : String → String → Bool}
  {s t : AuthRun κ}

/-- The tables agree with the history. -/
structure RunOk (digest : String → κ) (s : AuthRun κ) : Prop where
  sessions : SessionsStand digest s.history s.auth.sessions
  tokens : KeyMap.size s.auth.loginCsrfTokens ≤ maxLoginCsrfTokens

/-- Every call keeps the tables in agreement with the history. -/
theorem RunOk.step (hinj : Function.Injective digest) (h : RunOk digest s) {op : AuthOp κ}
    (hstep : s.step digest verifyPassword op = some t) : RunOk digest t := by
  cases op with
  | ensureCsrfCookie now first random headers =>
    obtain ⟨-, hstep⟩ := of_guard hstep
    have hsize := @size_ensureCsrfCookie _ _ digest _ now headers first random h.tokens
    cases hcall : s.auth.ensureCsrfCookie digest now first random headers with
    | mk after issued =>
      rw [hcall] at hstep hsize
      obtain rfl := Option.some.inj hstep
      exact ⟨h.sessions.ensureCsrfCookie hinj hcall, hsize⟩
  | verifyLogin now joined headers username password stored =>
    obtain ⟨-, hstep⟩ := of_guard hstep
    obtain rfl := Option.some.inj hstep
    exact ⟨h.sessions.mono fun key session hsession => lookup_csrfBinding hsession,
      size_csrfBinding.trans h.tokens⟩
  | completeLogin now verified sessionRandom csrfRandom =>
    obtain ⟨-, hstep⟩ := of_guard hstep
    have hsize := @size_completeLogin _ _ digest s.auth now verified sessionRandom csrfRandom
    cases hcall : s.auth.completeLogin digest now verified sessionRandom csrfRandom with
    | mk after outcome =>
      rw [hcall] at hstep hsize
      obtain rfl := Option.some.inj hstep
      exact ⟨h.sessions.completeLogin hcall, hsize.trans h.tokens⟩
  | logout headers =>
    obtain rfl := Option.some.inj hstep
    refine ⟨h.sessions.logout, ?_⟩
    simp only [AuthInner.logout]
    split
    · exact h.tokens
    · exact h.tokens
  | authorize now utcNow headers requireCsrf requiredScope =>
    obtain ⟨-, hstep⟩ := of_guard hstep
    obtain rfl := Option.some.inj hstep
    refine ⟨h.sessions.mono fun key session hsession => lookup_authorizeWithScope hsession, ?_⟩
    simp only [loginCsrfTokens_authorizeWithScope]
    exact h.tokens
  | loadOperatorTokens records =>
    obtain rfl := Option.some.inj hstep
    exact ⟨h.sessions, h.tokens⟩
  | addOperatorToken record =>
    obtain rfl := Option.some.inj hstep
    exact ⟨h.sessions, h.tokens⟩
  | revokeOperatorToken id =>
    obtain rfl := Option.some.inj hstep
    exact ⟨h.sessions, h.tokens⟩
  | disableBootstrapBearer =>
    obtain rfl := Option.some.inj hstep
    exact ⟨h.sessions, h.tokens⟩

theorem runOk_of_reachable (hinj : Function.Injective digest) {passwordHash : String}
    {bearerHash : κ} {secureCookies devAuthDisabled : Bool}
    (h : (authMachine digest verifyPassword passwordHash bearerHash secureCookies
      devAuthDisabled).Reachable s) :
    RunOk digest s := by
  refine h.invariant ?_ fun s op t hs _ hstep => hs.step hinj hstep
  refine ⟨fun key session hsession => ?_, Nat.zero_le _⟩
  rw [authMachine, AuthInner.new, AList.lookup_empty] at hsession
  cases hsession

theorem csrfMatches_eq_true (hinj : Function.Injective digest) {headers : HeaderMap}
    {session : SessionRecord κ} {csrf : String} (hcsrf : session.csrfHash = digest csrf)
    (h : AuthInner.csrfMatches digest headers session = true) :
    csrfHeaderText headers = some csrf ∧ cookie headers csrfCookie = some csrf := by
  unfold AuthInner.csrfMatches at h
  split at h
  · rename_i headerCsrf cookieCsrf hheader hcookie
    obtain ⟨hsame, hstored⟩ := of_decide_eq_true h
    rw [hcsrf] at hstored
    obtain rfl := hinj hstored
    obtain rfl := hinj hsame
    exact ⟨hheader, hcookie⟩
  · cases h

end Runs

/-- In every run, the login tokens stay within their limit, and a browser session authorizes a
request only if its cookie is a token that a sign-in issued, that has not expired and that no
sign-out or later sign-in has ended, if the scopes of its user grant the required one and, where
it is required, if header and cookie carry the CSRF token that the session received last. -/
theorem session_authorization_sound {κ : Type} [DecidableEq κ] (digest : String → κ)
    (hinj : Function.Injective digest) (verifyPassword : String → String → Bool)
    (passwordHash : String) (bearerHash : κ) (secureCookies devAuthDisabled : Bool)
    (s : AuthRun κ)
    (h : (authMachine digest verifyPassword passwordHash bearerHash secureCookies
      devAuthDisabled).Reachable s) :
    KeyMap.size s.auth.loginCsrfTokens ≤ 4096 ∧
    ∀ now utcNow headers requireCsrf requiredScope, s.now ≤ now →
      (s.auth.authorizeWithScope digest now utcNow headers requireCsrf requiredScope).2 =
        some .session →
      ∃ token user expiresAt csrf, cookie headers sessionCookie = some token ∧
        Standing digest token s.history user expiresAt csrf ∧ now < expiresAt ∧
        scopeGranted user.scopes requiredScope = true ∧
        (requireCsrf = true →
          csrfHeaderText headers = some csrf ∧ cookie headers csrfCookie = some csrf) := by
  have hok := runOk_of_reachable hinj h
  refine ⟨hok.tokens, fun now utcNow headers requireCsrf requiredScope _ hsession => ?_⟩
  obtain ⟨token, session, htoken, hlookup, hexpires, hscope, hcsrf⟩ :=
    authorizeWithScope_session hsession
  obtain ⟨same, csrf, hsame, hhash, hstands⟩ := hok.sessions _ session hlookup
  obtain rfl := hinj hsame
  exact ⟨token, session.user, session.expiresAt, csrf, htoken, hstands, hexpires, hscope,
    fun hrequired => csrfMatches_eq_true hinj hhash (hcsrf hrequired)⟩

section Example

/-- The bytes of an ASCII text. -/
def headerValue (text : String) : List UInt8 := text.toList.map fun c => c.toNat.toUInt8

/-- The headers of a browser: its cookies and, in requests that change something, the CSRF token. -/
def browser (cookies csrf : String) : HeaderMap :=
  [("cookie", headerValue cookies), ("x-csrf-token", headerValue csrf)]

/-- The operator signs in, and the page renews the CSRF token of the session. -/
def signIn : List (AuthOp String) :=
  [.ensureCsrfCookie 1 "" (some "l") [],
    .verifyLogin 2 true (browser "iptv_csrf=l" "l") "operator" "pass" none,
    .completeLogin 3 ⟨.login "l", .builtInOperator⟩ (some "s") (some "c"),
    .ensureCsrfCookie 4 "" (some "d") (browser "iptv_session=s" "")]

/-- The operator changes something with the renewed token. -/
theorem session_authorization_sound_signIn :
    ∃ s, (authMachine id (fun hash password => hash = password) "pass" "bearer" true
        false).Reachable s ∧ KeyMap.size s.auth.loginCsrfTokens ≤ 4096 ∧
      ∃ token user expiresAt csrf,
        cookie (browser "iptv_session=s; iptv_csrf=d" "d") sessionCookie = some token ∧
        Standing id token s.history user expiresAt csrf ∧ 5 < expiresAt ∧
        scopeGranted user.scopes (some "control") = true ∧
        (true = true → csrfHeaderText (browser "iptv_session=s; iptv_csrf=d" "d") = some csrf ∧
          cookie (browser "iptv_session=s; iptv_csrf=d" "d") csrfCookie = some csrf) := by
  obtain ⟨s, hs, hp⟩ := (authMachine id (fun hash password => hash = password) "pass" "bearer" true
    false).exists_reachable_of_run signIn (fun s => s.now ≤ 5 ∧
      (s.auth.authorizeWithScope id 5 5 (browser "iptv_session=s; iptv_csrf=d" "d") true
        (some "control")).2 = some .session) (by decide +kernel)
  obtain ⟨hnow, hsession⟩ := of_decide_eq_true hp
  have hsound := session_authorization_sound id Function.injective_id _ _ _ _ _ s hs
  exact ⟨s, hs, hsound.1, hsound.2 5 5 _ true (some "control") hnow hsession⟩

end Example

end IptvRelay.Auth
