import IptvRelay.Auth.AuthManager

/-!
# What the calls of the manager do

One lemma for each call: what it does to the sessions and what an answer of it means.
-/

namespace IptvRelay.Auth

section Calls

variable {κ : Type} [DecidableEq κ] {digest : String → κ} {auth after : AuthInner κ}
  {now : Time} {headers : HeaderMap}

theorem lookup_retainSessions {key : κ} {session : SessionRecord κ} :
    (auth.retainSessions now).sessions.lookup key = some session ↔
      auth.sessions.lookup key = some session ∧ now < session.expiresAt := by
  rw [AuthInner.retainSessions, KeyMap.lookup_retain_eq_some, decide_eq_true_iff]

/-- The presented session is stored under the digest of the session cookie. -/
theorem presentedSession_eq_some {key : κ} {session : SessionRecord κ}
    (h : auth.presentedSession digest headers = some (key, session)) :
    ∃ token, cookie headers sessionCookie = some token ∧ key = digest token ∧
      auth.sessions.lookup key = some session := by
  obtain ⟨token, htoken, h⟩ := Option.bind_eq_some_iff.mp h
  obtain ⟨found, hfound, h⟩ := Option.bind_eq_some_iff.mp h
  obtain ⟨rfl, rfl⟩ := Prod.mk.inj (Option.some.inj h)
  exact ⟨token, htoken, rfl, hfound⟩

theorem sessions_dropOldestLoginCsrf (first : κ) :
    (auth.dropOldestLoginCsrf first).sessions = auth.sessions := by
  unfold AuthInner.dropOldestLoginCsrf
  split_ifs
  · split
    · rfl
    · rfl
  · rfl

/-- A call of `ensure_csrf_cookie` renews the CSRF token of the presented session, or it leaves
the sessions that have not expired as they are and issues a login token at most. -/
theorem ensureCsrfCookie_cases {first : κ} {random : Option String} {issued : Option SetCookie}
    (h : auth.ensureCsrfCookie digest now first random headers = (after, issued)) :
    (∃ token session csrf, cookie headers sessionCookie = some token ∧
      auth.sessions.lookup (digest token) = some session ∧
      issued = some (auth.csrfSetCookie csrf sessionTtl) ∧
      after.sessions = (auth.retainSessions now).sessions.insert (digest token)
        { session with csrfHash := digest csrf }) ∨
    (after.sessions = (auth.retainSessions now).sessions ∧
      ∀ cookie ∈ issued, cookie.maxAge = loginCsrfTtl) := by
  simp only [AuthInner.ensureCsrfCookie] at h
  split at h
  · rename_i key session hsession
    obtain ⟨token, htoken, rfl, hlookup⟩ := presentedSession_eq_some hsession
    split at h
    · obtain ⟨rfl, rfl⟩ := Prod.mk.inj h
      exact .inr ⟨rfl, by simp⟩
    · cases random with
      | none =>
        obtain ⟨rfl, rfl⟩ := Prod.mk.inj h
        exact .inr ⟨rfl, by simp⟩
      | some csrf =>
        obtain ⟨rfl, rfl⟩ := Prod.mk.inj h
        exact .inl ⟨token, session, csrf, htoken, (lookup_retainSessions.mp hlookup).1, rfl, rfl⟩
  · split at h
    · obtain ⟨rfl, rfl⟩ := Prod.mk.inj h
      exact .inr ⟨rfl, by simp⟩
    · cases random with
      | none =>
        obtain ⟨rfl, rfl⟩ := Prod.mk.inj h
        exact .inr ⟨sessions_dropOldestLoginCsrf first, by simp⟩
      | some csrf =>
        obtain ⟨rfl, rfl⟩ := Prod.mk.inj h
        exact .inr ⟨sessions_dropOldestLoginCsrf first, by simp [AuthInner.csrfSetCookie]⟩

/-- Reading the binding of a sign-in request stores no session. -/
theorem lookup_csrfBinding {key : κ} {session : SessionRecord κ}
    (h : (auth.csrfBinding digest now headers).1.sessions.lookup key = some session) :
    auth.sessions.lookup key = some session := by
  simp only [AuthInner.csrfBinding] at h
  split at h
  · split at h
    · exact h
    · split at h
      · exact (lookup_retainSessions.mp h).1
      · exact (lookup_retainSessions.mp h).1
  · exact h

/-- Looking for an operator token touches the operator tokens only. -/
theorem authorizeOperatorToken_frame {utcNow : Time} {requiredScope : Option String} :
    ∃ operatorTokens, (auth.authorizeOperatorToken digest utcNow headers requiredScope).1 =
      { auth with operatorTokens } := by
  unfold AuthInner.authorizeOperatorToken
  split
  · exact ⟨auth.operatorTokens, rfl⟩
  · exact ⟨_, rfl⟩

/-- A session that authorizes is stored, has not expired, has the scope and, where it is
required, the CSRF token of the request. -/
theorem authorizeSession_ok {requireCsrf : Bool} {requiredScope : Option String}
    (h : (auth.authorizeSession digest now headers requireCsrf requiredScope).2 = true) :
    ∃ token session, cookie headers sessionCookie = some token ∧
      auth.sessions.lookup (digest token) = some session ∧ now < session.expiresAt ∧
      scopeGranted session.user.scopes requiredScope = true ∧
      (requireCsrf = true → AuthInner.csrfMatches digest headers session = true) := by
  unfold AuthInner.authorizeSession at h
  cases htoken : cookie headers sessionCookie with
  | none =>
    rw [htoken] at h
    cases h
  | some token =>
    simp only [htoken] at h
    cases hsession : (auth.retainSessions now).sessions.lookup (digest token) with
    | none =>
      rw [hsession] at h
      cases h
    | some session =>
      rw [hsession] at h
      obtain ⟨hlookup, hexpires⟩ := lookup_retainSessions.mp hsession
      obtain ⟨hscope, hcsrf⟩ := of_decide_eq_true h
      exact ⟨token, session, rfl, hlookup, hexpires, hscope, hcsrf⟩

/-- An authorization forgets operator tokens and sessions that have expired, and that is all. -/
theorem authorizeWithScope_frame {utcNow : Time} {requireCsrf : Bool}
    {requiredScope : Option String} :
    ∃ operatorTokens,
      (auth.authorizeWithScope digest now utcNow headers requireCsrf requiredScope).1 =
        { auth with operatorTokens } ∨
      (auth.authorizeWithScope digest now utcNow headers requireCsrf requiredScope).1 =
        { auth.retainSessions now with operatorTokens } := by
  obtain ⟨operatorTokens, hframe⟩ :=
    @authorizeOperatorToken_frame _ _ digest auth headers utcNow requiredScope
  unfold AuthInner.authorizeWithScope
  split
  · exact ⟨auth.operatorTokens, .inl rfl⟩
  · split
    · exact ⟨auth.operatorTokens, .inl rfl⟩
    · refine ⟨operatorTokens, ?_⟩
      split
      · rename_i heq
        rw [heq] at hframe
        exact .inl hframe
      · rename_i heq
        rw [heq] at hframe
        obtain rfl := hframe
        simp only [AuthInner.authorizeSession]
        split
        · exact .inl rfl
        · exact .inr rfl

theorem lookup_authorizeWithScope {utcNow : Time} {requireCsrf : Bool}
    {requiredScope : Option String} {key : κ} {session : SessionRecord κ}
    (h : (auth.authorizeWithScope digest now utcNow headers requireCsrf
      requiredScope).1.sessions.lookup key = some session) :
    auth.sessions.lookup key = some session := by
  obtain ⟨operatorTokens, hframe | hframe⟩ :=
    @authorizeWithScope_frame _ _ digest auth now headers utcNow requireCsrf requiredScope
  · rwa [hframe] at h
  · rw [hframe] at h
    exact (lookup_retainSessions.mp h).1

theorem loginCsrfTokens_authorizeWithScope {utcNow : Time} {requireCsrf : Bool}
    {requiredScope : Option String} :
    (auth.authorizeWithScope digest now utcNow headers requireCsrf
      requiredScope).1.loginCsrfTokens = auth.loginCsrfTokens := by
  obtain ⟨operatorTokens, hframe | hframe⟩ :=
    @authorizeWithScope_frame _ _ digest auth now headers utcNow requireCsrf requiredScope
  · rw [hframe]
  · rw [hframe]
    rfl

/-- An operator token that authorizes is stored and has the scope. -/
theorem authorizeOperatorToken_ok {utcNow : Time} {requiredScope : Option String}
    (h : (auth.authorizeOperatorToken digest utcNow headers requiredScope).2 = true) :
    ∃ token record, bearerToken headers = some token ∧
      auth.operatorTokens.lookup (digest token) = some record ∧
      scopeGranted record.scopes requiredScope = true := by
  unfold AuthInner.authorizeOperatorToken at h
  split at h
  · cases h
  · rename_i token htoken
    simp only at h
    split at h
    · rename_i record hrecord
      exact ⟨token, record, htoken, (KeyMap.lookup_retain_eq_some.mp hrecord).1,
        (of_decide_eq_true h).2⟩
    · cases h

/-- Every answer names the credential that it comes from. -/
theorem authorizeWithScope_some {utcNow : Time} {requireCsrf : Bool}
    {requiredScope : Option String} {authorization : Authorization}
    (h : (auth.authorizeWithScope digest now utcNow headers requireCsrf requiredScope).2 =
      some authorization) :
    match authorization with
    | .development => auth.devAuthDisabled = true
    | .bearer => auth.bootstrapBearerEnabled = true ∧
        (bearerToken headers).map digest = some auth.bearerHash
    | .operatorToken => ∃ token record, bearerToken headers = some token ∧
        auth.operatorTokens.lookup (digest token) = some record ∧
        scopeGranted record.scopes requiredScope = true
    | .session => ∃ token session, cookie headers sessionCookie = some token ∧
        auth.sessions.lookup (digest token) = some session ∧ now < session.expiresAt ∧
        scopeGranted session.user.scopes requiredScope = true ∧
        (requireCsrf = true → AuthInner.csrfMatches digest headers session = true) := by
  unfold AuthInner.authorizeWithScope at h
  split at h
  · rename_i hdev
    obtain rfl := Option.some.inj h
    exact hdev
  · split at h
    · rename_i hbearer
      obtain rfl := Option.some.inj h
      exact hbearer
    · obtain ⟨operatorTokens, hframe⟩ :=
        @authorizeOperatorToken_frame _ _ digest auth headers utcNow requiredScope
      split at h
      · rename_i heq
        obtain rfl := Option.some.inj h
        exact authorizeOperatorToken_ok (congrArg Prod.snd heq)
      · rename_i heq
        rw [heq] at hframe
        obtain rfl := hframe
        simp only at h
        split at h
        · rename_i hok
          obtain rfl := Option.some.inj h
          have hfound := authorizeSession_ok hok
          exact hfound
        · cases h

/-- The answer `Session` comes from the session of the request. -/
theorem authorizeWithScope_session {utcNow : Time} {requireCsrf : Bool}
    {requiredScope : Option String}
    (h : (auth.authorizeWithScope digest now utcNow headers requireCsrf requiredScope).2 =
      some .session) :
    ∃ token session, cookie headers sessionCookie = some token ∧
      auth.sessions.lookup (digest token) = some session ∧ now < session.expiresAt ∧
      scopeGranted session.user.scopes requiredScope = true ∧
      (requireCsrf = true → AuthInner.csrfMatches digest headers session = true) :=
  authorizeWithScope_some h

/-- A sign-in names the built-in operator or the account of the stored credentials. -/
theorem signInAccount_user {username : String} {stored : Option StoredUserCredential}
    {user : SessionUser} (h : (auth.signInAccount digest username stored).2 = some user) :
    user = .builtInOperator ∨ ∃ credential ∈ stored, user = credential.user := by
  unfold AuthInner.signInAccount at h
  split at h
  · exact .inl (Option.some.inj h).symm
  · split at h
    · rename_i credential hfilter
      exact .inr ⟨credential, (Option.filter_eq_some_iff.mp hfilter).1, (Option.some.inj h).symm⟩
    · cases h

theorem verifyLogin_user {verifyPassword : String → String → Option Bool}
    {username password : String} {stored : Option StoredUserCredential}
    {verified : VerifiedLogin κ}
    (h : (auth.verifyLogin digest verifyPassword now headers username password stored).2 =
      .ok verified) :
    verified.user = .builtInOperator ∨ ∃ credential ∈ stored, verified.user = credential.user := by
  unfold AuthInner.verifyLogin at h
  simp only at h
  split at h
  · cases h
  · split at h
    · cases h
    · split at h
      · cases h
      · rename_i user _ huser
        obtain rfl := Except.ok.inj h
        exact signInAccount_user huser
      · cases h

end Calls

end IptvRelay.Auth
