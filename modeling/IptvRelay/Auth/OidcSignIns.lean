import IptvRelay.Auth.OidcRuns

/-!
# Where a browser session comes from

The invariant of the runs with sign-ins through the provider: the table of logins agrees with
its ledger, every request that waits behind the table holds a ticket that was redeemed for it
alone, and every session in the history was issued for a right password or for such a ticket.
-/

namespace IptvRelay.Auth

open Transition Checked

section Definitions

variable {κ Key : Type} (digest : String → κ) (verifyPassword : String → String → Bool)
  (passwordHash : String) (lib : OidcLibrary Key) (config : OidcConfig)

def Attempt.ticket (attempt : Attempt) : κ × PendingLogin := (digest attempt.state, attempt.pending)

/-- The tickets that a waiting request has taken out of the table. -/
def Place.tickets : Place → List (κ × PendingLogin)
  | .reads .start | .discovers .start | .registers _ => []
  | .reads (.callback attempt) | .discovers (.callback attempt) | .exchanges attempt _
  | .fetchesKeys attempt _ _ _ _ | .completes attempt _ _ => [attempt.ticket digest]

/-- A browser was sent to the provider with the state and nonce of the ticket and the challenge
that belongs to its verifier. -/
def SentFor (sent : List OidcAuthorization) (ticket : κ × PendingLogin) : Prop :=
  ∃ provider state secure, ProviderOk config provider ∧ digest state = ticket.1 ∧
    authorization lib config provider state ticket.2.verifier ticket.2.nonce secure ∈ sent

structure OidcLogin.Ok (login : OidcLogin) : Prop where
  attempt : AttemptOk digest login.attempt
  provider : ProviderOk config login.provider
  identity : IdentityOk config login.attempt login.claims

/-- The password of the built-in operator or of the stored account was right. -/
def PasswordLogin.Ok (login : PasswordLogin κ) : Prop :=
  (login.username = adminUsername ∧ login.verified.user = .builtInOperator ∧
    verifyPassword passwordHash login.password = true) ∨
  ∃ credential ∈ login.stored, credential.user.username = login.username ∧
    login.verified.user = credential.user ∧
    verifyPassword credential.passwordHash login.password = true

/-- A sign-in of the history was verified by its password or through the provider. -/
def SignInKnown (passwordLogins : List (PasswordLogin κ)) (logins : List OidcLogin)
    (verified : VerifiedLogin κ) (session : String) : Prop :=
  (∃ login ∈ passwordLogins, login.verified = verified) ∨
  ∃ login ∈ logins, login.session = session ∧ login.attempt.verified digest = verified

/-- The sign-ins of a history. -/
def signIns (history : List (AuthEvent κ)) : List (VerifiedLogin κ) :=
  history.filterMap fun
    | .signedIn verified .. => some verified
    | .csrfIssued .. | .loggedOut _ => none

/-- What has been verified by a password or through the provider. -/
def OidcRun.verifications (s : OidcRun κ) : List (VerifiedLogin κ) :=
  s.passwordLogins.map PasswordLogin.verified ++
    s.logins.map fun login => login.attempt.verified digest

structure OidcOk [DecidableEq κ] (s : OidcRun κ) : Prop where
  run : RunOk digest s.sign
  password : s.sign.auth.passwordHash = passwordHash
  kept : Tickets.Kept PendingLogin.expiresAt maxPendingLogins s.sign.now s.ledger s.pending
  recent : ∀ ticket ∈ Tickets.issued s.ledger, ticket.2.expiresAt ≤ s.sign.now + oidcStateTtl
  sent : ∀ ticket ∈ Tickets.issued s.ledger, SentFor digest lib config s.sent ticket
  provider : ∀ provider ∈ s.provider, ProviderOk config provider
  places : ∀ place ∈ s.requests, PlaceOk digest config place
  spent : (s.logins.map (fun login => login.attempt.ticket digest) ++
    s.requests.flatMap (Place.tickets digest)).Subperm (Tickets.redeemed s.ledger)
  logins : ∀ login ∈ s.logins, login.Ok digest config
  passwords : ∀ login ∈ s.passwordLogins, login.Ok verifyPassword passwordHash
  verified : ∀ verified ∈ s.sign.verified, ∃ login ∈ s.passwordLogins, login.verified = verified
  signedIn : ∀ verified session csrf now, .signedIn verified session csrf now ∈ s.sign.history →
    SignInKnown digest s.passwordLogins s.logins verified session
  used : (s.sign.verified ++ signIns s.sign.history).Subperm (s.verifications digest)

theorem signIns_append (history more : List (AuthEvent κ)) :
    signIns (history ++ more) = signIns history ++ signIns more := List.filterMap_append

theorem signIns_csrfIssued (headers : HeaderMap) (issued : Option SetCookie) :
    signIns (issued.map (AuthEvent.csrfIssued (κ := κ) headers)).toList = [] := by
  cases issued <;> rfl

/-- At most one sign-in is recorded. -/
theorem signIns_signedIn (verified : VerifiedLogin κ) {issued : Option IssuedSession}
    (event : IssuedSession → String × String × Time) :
    signIns (issued.map fun login =>
      .signedIn verified (event login).1 (event login).2.1 (event login).2.2).toList = [] ∨
    signIns (issued.map fun login =>
      .signedIn verified (event login).1 (event login).2.1 (event login).2.2).toList =
        [verified] := by
  cases issued with
  | none => exact .inl rfl
  | some login => exact .inr rfl

end Definitions

section Steps

variable {κ Key : Type} [DecidableEq κ] {digest : String → κ}
  {verifyPassword : String → String → Bool} {passwordHash : String} {lib : OidcLibrary Key}
  {config : OidcConfig} {s : OidcRun κ}

/-- Time passes. -/
theorem OidcOk.at (h : OidcOk digest verifyPassword passwordHash lib config s) {now : Time}
    (hnow : s.sign.now ≤ now) :
    OidcOk digest verifyPassword passwordHash lib config (s.at now) :=
  { h with
    run := ⟨h.run.sessions, h.run.tokens⟩
    kept := h.kept.later hnow
    recent := by
      intro ticket hticket
      exact (h.recent ticket hticket).trans (Nat.add_le_add_right hnow _) }

/-- A waiting request goes on with its ticket, or it ends. -/
theorem OidcOk.move (h : OidcOk digest verifyPassword passwordHash lib config s) {place : Place}
    {next : Option Place} (hplace : place ∈ s.requests)
    (hnext : ∀ other ∈ next, PlaceOk digest config other ∧
      other.tickets digest = place.tickets digest) :
    OidcOk digest verifyPassword passwordHash lib config (s.move place next) := by
  have hspent : (s.logins.map (fun login => login.attempt.ticket digest) ++
      (next.toList ++ s.requests.erase place).flatMap (Place.tickets digest)).Subperm
      (Tickets.redeemed s.ledger) := by
    refine List.Subperm.trans ((List.subperm_append_left _).mpr ?_) h.spent
    refine List.Subperm.trans ?_
      ((List.perm_cons_erase hplace).flatMap_right (Place.tickets digest)).symm.subperm
    rw [List.flatMap_append, List.flatMap_cons]
    refine List.Subperm.append ?_ (.refl _)
    cases next with
    | none => exact List.nil_subperm
    | some other =>
      rw [← (hnext other rfl).2]
      simpa using List.Subperm.refl _
  have hplaces : ∀ other ∈ (s.move place next).requests, PlaceOk digest config other := by
    intro other hother
    rcases List.mem_append.mp hother with hnew | hold
    · exact (hnext other (Option.mem_toList.mp hnew)).1
    · exact h.places other (List.mem_of_mem_erase hold)
  exact { h with places := hplaces, spent := hspent }

/-- A new request that holds no ticket. -/
theorem OidcOk.begin (h : OidcOk digest verifyPassword passwordHash lib config s) :
    OidcOk digest verifyPassword passwordHash lib config
      { s with requests := .reads .start :: s.requests } := by
  have hplaces : ∀ place ∈ Place.reads .start :: s.requests, PlaceOk digest config place := by
    intro place hplace
    rcases List.mem_cons.mp hplace with rfl | hold
    · trivial
    · exact h.places place hold
  exact { h with places := hplaces, spent := h.spent }

theorem toOption_elim {α : Type} (value : Option α) (error : OidcError) :
    (value.elim (Except.error error) Except.ok).toOption = value := by
  cases value with
  | none => rfl
  | some a => rfl

/-- What a callback or a cancellation does to the table of logins: the state is that of the
cookie, or nothing happens. -/
theorem take_cases {now : Time} {headers : HeaderMap} {state : String} {t : OidcRun κ}
    {login : Except OidcError PendingLogin} (htake : s.take digest now headers state = (t, login)) :
    (t = s ∧ ∃ error, login = .error error) ∨
    (cookie headers oidcStateCookie).map digest = some (digest state) ∧
      login.toOption = (Tickets.redeem PendingLogin.expiresAt now (digest state) s.pending).2 ∧
      t = { s.at now with
        pending := (Tickets.redeem PendingLogin.expiresAt now (digest state) s.pending).1
        ledger := s.ledger ++ [.redeemed (digest state)
          (Tickets.redeem PendingLogin.expiresAt now (digest state) s.pending).2] } := by
  unfold OidcRun.take at htake
  split at htake
  · obtain ⟨rfl, rfl⟩ := Prod.mk.inj htake
    exact .inl ⟨rfl, _, rfl⟩
  · rename_i hcookie
    simp only [takePending, toOption_elim] at htake
    obtain ⟨rfl, rfl⟩ := Prod.mk.inj htake
    exact .inr ⟨verifyStateCookie_ok hcookie, toOption_elim _ _, rfl⟩

/-- A state that is taken out keeps the table in agreement with its ledger, and the login that
comes with it is held by no other request. -/
theorem OidcOk.take (h : OidcOk digest verifyPassword passwordHash lib config s) {now : Time}
    (hnow : s.sign.now ≤ now) {headers : HeaderMap} {state : String} {t : OidcRun κ}
    {login : Except OidcError PendingLogin} (htake : s.take digest now headers state = (t, login)) :
    OidcOk digest verifyPassword passwordHash lib config t ∧
    ∀ pending, login = .ok pending →
      (cookie headers oidcStateCookie).map digest = some (digest state) ∧
      now < pending.expiresAt ∧ pending.expiresAt ≤ now + oidcStateTtl ∧
      (t.logins.map (fun login => login.attempt.ticket digest) ++
        (digest state, pending) :: t.requests.flatMap (Place.tickets digest)).Subperm
          (Tickets.redeemed t.ledger) := by
  rcases take_cases htake with ⟨rfl, error, rfl⟩ | ⟨hcookie, hlogin, rfl⟩
  · exact ⟨h, fun pending hpending => by cases hpending⟩
  · have hat := h.at hnow
    have hissued : Tickets.issued (s.ledger ++ [.redeemed (digest state)
        (Tickets.redeem PendingLogin.expiresAt now (digest state) s.pending).2]) =
        Tickets.issued s.ledger := (Tickets.issued_append _ _).trans (List.append_nil _)
    have hmore := Tickets.redeemed_append s.ledger [.redeemed (digest state)
      (Tickets.redeem PendingLogin.expiresAt now (digest state) s.pending).2]
    refine ⟨{ hat with
      run := hat.run
      kept := h.kept.redeem hnow
      recent := ?_
      sent := ?_
      spent := ?_ }, fun pending hpending => ?_⟩
    · rw [hissued]
      exact hat.recent
    · rw [hissued]
      exact hat.sent
    · rw [hmore]
      exact h.spent.trans (List.sublist_append_left _ _).subperm
    · rw [hpending] at hlogin
      have hredeemed : (Tickets.redeem PendingLogin.expiresAt now (digest state) s.pending).2 =
          some pending := hlogin.symm
      obtain ⟨hlive, hexpires⟩ := h.kept.redeem_eq_some hredeemed
      refine ⟨hcookie, hexpires, ?_, ?_⟩
      · exact (h.recent _ (Tickets.mem_issued_of_live hlive)).trans (Nat.add_le_add_right hnow _)
      · rw [hmore, hredeemed]
        refine List.Subperm.trans List.perm_middle.subperm ?_
        refine List.Subperm.trans ((List.subperm_cons _).mpr h.spent) ?_
        exact (List.perm_append_singleton _ _).symm.subperm

theorem OidcOk.callback (h : OidcOk digest verifyPassword passwordHash lib config s) {now : Time}
    (hnow : s.sign.now ≤ now) {headers : HeaderMap} {state : String} {code : Option String} :
    OidcOk digest verifyPassword passwordHash lib config
      (s.callback digest now headers state code) := by
  unfold OidcRun.callback
  cases htake : s.take digest now headers state with
  | mk t login =>
    obtain ⟨hok, hlogin⟩ := h.take hnow htake
    cases login with
    | error error => exact hok
    | ok pending =>
      cases hcode : callbackCode code with
      | error error => exact hok
      | ok value =>
        obtain ⟨hcookie, hexpires, hrecent, hspent⟩ := hlogin pending rfl
        have hattempt : AttemptOk digest { headers, state, code := value, takenAt := now, pending } :=
          ⟨hcookie, callbackCode_ok hcode, hexpires, hrecent⟩
        refine { hok with places := ?_, spent := hspent }
        intro place hplace
        rcases List.mem_cons.mp hplace with rfl | hold
        · exact hattempt
        · exact hok.places place hold

/-- A new ticket, issued when its browser is sent to the provider. -/
theorem OidcOk.register (h : OidcOk digest verifyPassword passwordHash lib config s) {now : Time}
    (hnow : s.sign.now ≤ now) {provider : OidcProvider} {first : κ} {state verifier nonce : String}
    (hplace : .registers provider ∈ s.requests) :
    OidcOk digest verifyPassword passwordHash lib config
      (s.register digest lib config provider now first state verifier nonce) := by
  have hprovider : ProviderOk config provider := h.places _ hplace
  have hmove := (h.at hnow).move hplace (by simp : ∀ other ∈ (none : Option Place), _)
  have hissued := Tickets.issued_append s.ledger
    [.issued (digest state) { verifier, nonce, expiresAt := now + oidcStateTtl }]
  have hredeemed : Tickets.redeemed (s.ledger ++ [.issued (digest state)
      { verifier, nonce, expiresAt := now + oidcStateTtl }]) = Tickets.redeemed s.ledger :=
    (Tickets.redeemed_append _ _).trans (List.append_nil _)
  refine { hmove with
    run := hmove.run
    kept := ?_
    recent := ?_
    sent := ?_
    spent := ?_ }
  · refine h.kept.issue hnow (by decide) fun ticket hticket => ?_
    exact (h.recent ticket hticket).trans (Nat.add_le_add_right hnow _)
  · intro ticket hticket
    rw [OidcRun.register, hissued] at hticket
    rcases List.mem_append.mp hticket with hold | hnew
    · exact hmove.recent ticket hold
    · obtain rfl := List.mem_singleton.mp hnew
      exact Nat.le_refl _
  · intro ticket hticket
    rw [OidcRun.register, hissued] at hticket
    rcases List.mem_append.mp hticket with hold | hnew
    · obtain ⟨provider, state, secure, hplain, hkey, hsent⟩ := h.sent ticket hold
      exact ⟨provider, state, secure, hplain, hkey, List.mem_append_left _ hsent⟩
    · obtain rfl := List.mem_singleton.mp hnew
      exact ⟨provider, state, _, hprovider, rfl, List.mem_append_right _ List.mem_cons_self⟩
  · rw [OidcRun.register, hredeemed]
    exact hmove.spent

omit [DecidableEq κ] in
theorem tickets_next {purpose : Purpose} {provider : OidcProvider} :
    (purpose.next provider).tickets digest = (Place.reads purpose).tickets digest := by
  cases purpose with
  | start => rfl
  | callback attempt => rfl

omit [DecidableEq κ] in
theorem tickets_discovers {purpose : Purpose} :
    (Place.discovers purpose).tickets digest = (Place.reads purpose).tickets digest := by
  cases purpose with
  | start => rfl
  | callback attempt => rfl

/-- The provider is known or its metadata is awaited. -/
theorem OidcOk.readProvider (h : OidcOk digest verifyPassword passwordHash lib config s)
    {purpose : Purpose} (hplace : .reads purpose ∈ s.requests) :
    OidcOk digest verifyPassword passwordHash lib config
      (s.move (.reads purpose) (s.readProvider lib config purpose)) := by
  refine h.move hplace fun other hother => ?_
  have hpurpose : PurposeOk digest purpose := h.places _ hplace
  unfold OidcRun.readProvider at hother
  cases hprovider : s.provider with
  | some provider =>
    rw [hprovider] at hother
    obtain rfl := Option.some.inj hother
    exact ⟨hpurpose.next (h.provider provider hprovider), tickets_next⟩
  | none =>
    rw [hprovider] at hother
    obtain ⟨_, -, rfl⟩ := Option.map_eq_some_iff.mp hother
    exact ⟨hpurpose, tickets_discovers⟩

theorem OidcOk.discovered (h : OidcOk digest verifyPassword passwordHash lib config s)
    {purpose : Purpose} {response : Option HttpResponse}
    (hplace : .discovers purpose ∈ s.requests) :
    OidcOk digest verifyPassword passwordHash lib config
      (s.discovered lib config purpose response) := by
  have hpurpose : PurposeOk digest purpose := h.places _ hplace
  unfold OidcRun.discovered
  cases hdocument : discoveredProvider lib config response with
  | error error => exact h.move hplace (by simp)
  | ok provider =>
    have hprovider := discoveredProvider_ok hdocument
    have hmove := h.move hplace fun other (hother : other ∈ some (purpose.next provider)) => by
      obtain rfl := Option.some.inj hother
      exact ⟨hpurpose.next hprovider, tickets_next.trans tickets_discovers.symm⟩
    refine { hmove with provider := ?_ }
    intro other hother
    obtain rfl := Option.some.inj hother
    exact hprovider

theorem OidcOk.exchanged (h : OidcOk digest verifyPassword passwordHash lib config s)
    {attempt : Attempt} {provider : OidcProvider} {response : Option HttpResponse}
    (hplace : .exchanges attempt provider ∈ s.requests) :
    OidcOk digest verifyPassword passwordHash lib config
      (s.move (.exchanges attempt provider)
        (exchangedPlace lib attempt provider response).toOption) := by
  refine h.move hplace fun other hother => ?_
  have hok : PlaceOk digest config (.exchanges attempt provider) := h.places _ hplace
  obtain ⟨idToken, -, hplace⟩ := of_bind (of_toOption hother)
  obtain ⟨⟨kid, algorithm⟩, -, hplace⟩ := of_bind hplace
  obtain rfl := of_pure hplace
  exact ⟨hok, rfl⟩

theorem OidcOk.fetchedKeys (h : OidcOk digest verifyPassword passwordHash lib config s)
    {attempt : Attempt} {provider : OidcProvider} {idToken kid : String} {algorithm : Algorithm}
    {response : Option HttpResponse} {decodeNow : Nat} {wallNow : Option Int}
    (hplace : .fetchesKeys attempt provider idToken kid algorithm ∈ s.requests) :
    OidcOk digest verifyPassword passwordHash lib config
      (s.move (.fetchesKeys attempt provider idToken kid algorithm)
        (fetchedPlace lib config attempt provider idToken kid algorithm response decodeNow
          wallNow).toOption) := by
  refine h.move hplace fun other hother => ?_
  obtain ⟨hattempt, hprovider⟩ :
    PlaceOk digest config (.fetchesKeys attempt provider idToken kid algorithm) := h.places _ hplace
  obtain ⟨claims, rfl, hidentity⟩ := fetchedPlace_ok hprovider (of_toOption hother)
  exact ⟨⟨hattempt, hprovider, hidentity⟩, rfl⟩

/-- A session of the built-in operator joins the others and ends none. -/
theorem SessionsStand.completeOidcLogin {auth : AuthInner κ} {history : List (AuthEvent κ)}
    (h : SessionsStand digest history auth.sessions) {attempt : Attempt} {session csrf : String}
    {now : Time} {sessions : AList fun _ : κ => SessionRecord κ}
    (hsessions : sessions = auth.sessions.insert (digest session)
      { csrfHash := digest csrf, expiresAt := now + sessionTtl, user := .builtInOperator }) :
    SessionsStand digest (history ++ [.signedIn (attempt.verified digest) session csrf now])
      sessions := by
  subst hsessions
  intro key record hrecord
  rcases KeyMap.lookup_insert_eq_some.mp hrecord with ⟨rfl, rfl⟩ | ⟨hne, hold⟩
  · exact ⟨session, csrf, rfl, rfl, .signedIn⟩
  · obtain ⟨token, old, rfl, hcsrf, hstands⟩ := h _ _ hold
    have hlive : AuthEvent.ends digest token (.signedIn (attempt.verified digest) session csrf now) =
        false := by
      simp [AuthEvent.ends, Attempt.verified]
    have hstands := hstands.append (.signedIn (attempt.verified digest) session csrf now) hlive
    have hnone : AuthEvent.newCsrf token (.signedIn (attempt.verified digest) session csrf now) =
        none := by
      refine if_neg ?_
      rintro rfl
      exact hne rfl
    rw [hnone] at hstands
    exact ⟨token, old, rfl, hcsrf, hstands⟩

/-- The last part of a login: its ticket is used up by the new session. -/
theorem OidcOk.complete (h : OidcOk digest verifyPassword passwordHash lib config s)
    {attempt : Attempt} {provider : OidcProvider} {claims : IdTokenClaims} {now : Time}
    {sessionRandom csrfRandom : Option String} (hnow : s.sign.now ≤ now)
    (hplace : .completes attempt provider claims ∈ s.requests) :
    OidcOk digest verifyPassword passwordHash lib config
      (s.complete digest attempt provider claims now sessionRandom csrfRandom) := by
  have hmove := (h.at hnow).move hplace (by simp : ∀ other ∈ (none : Option Place), _)
  obtain ⟨hattempt, hprovider, hidentity⟩ :
    PlaceOk digest config (.completes attempt provider claims) := h.places _ hplace
  unfold OidcRun.complete AuthInner.completeOidcLogin
  cases sessionRandom with
  | none => exact hmove
  | some session =>
    cases csrfRandom with
    | none => exact hmove
    | some csrf =>
      refine { hmove with
        run := ⟨h.run.sessions.completeOidcLogin rfl, h.run.tokens⟩
        password := h.password
        verified := h.verified
        spent := ?_
        logins := ?_
        signedIn := ?_
        used := ?_ }
      · rw [List.map_append, List.append_assoc]
        refine List.Subperm.trans ((List.subperm_append_left _).mpr ?_) h.spent
        exact ((List.perm_cons_erase hplace).flatMap_right (Place.tickets digest)).symm.subperm
      · intro login hlogin
        rcases List.mem_append.mp hlogin with hold | hnew
        · exact h.logins login hold
        · obtain rfl := List.mem_singleton.mp hnew
          exact ⟨hattempt, hprovider, hidentity⟩
      · intro verified token other at_ hevent
        rcases List.mem_append.mp hevent with hold | hnew
        · rcases h.signedIn _ _ _ _ hold with hpassword | ⟨login, hlogin, hsame⟩
          · exact .inl hpassword
          · exact .inr ⟨login, List.mem_append_left _ hlogin, hsame⟩
        · obtain ⟨rfl, rfl, -, -⟩ := AuthEvent.signedIn.inj (List.mem_singleton.mp hnew)
          exact .inr ⟨_, List.mem_append_right _ List.mem_cons_self, rfl, rfl⟩
      · have hmore := h.used.append (List.Subperm.refl [attempt.verified digest])
        simpa [OidcRun.verifications, OidcRun.move, OidcRun.at, signIns_append, signIns]
          using hmore

/-! ### The other calls of the manager -/

theorem passwordHash_ensureCsrfCookie {auth : AuthInner κ} {now : Time} {first : κ}
    {random : Option String} {headers : HeaderMap} :
    (auth.ensureCsrfCookie digest now first random headers).1.passwordHash = auth.passwordHash := by
  simp only [AuthInner.ensureCsrfCookie]
  split
  · split
    · rfl
    · cases random with
      | none => rfl
      | some token => rfl
  · split
    · rfl
    · unfold AuthInner.newLoginCsrf AuthInner.dropOldestLoginCsrf
      cases random with
      | none => split_ifs <;> (try split) <;> rfl
      | some token => split_ifs <;> (try split) <;> rfl

theorem passwordHash_authorizeWithScope {auth : AuthInner κ} {now utcNow : Time}
    {headers : HeaderMap} {requireCsrf : Bool} {requiredScope : Option String} :
    (auth.authorizeWithScope digest now utcNow headers requireCsrf requiredScope).1.passwordHash =
      auth.passwordHash := by
  obtain ⟨operatorTokens, hframe | hframe⟩ :=
    @authorizeWithScope_frame _ _ digest auth now headers utcNow requireCsrf requiredScope
  · rw [hframe]
  · rw [hframe]
    rfl

theorem passwordHash_completeLogin {auth : AuthInner κ} {now : Time} {verified : VerifiedLogin κ}
    {sessionRandom csrfRandom : Option String} :
    (auth.completeLogin digest now verified sessionRandom csrfRandom).1.passwordHash =
      auth.passwordHash := by
  unfold AuthInner.completeLogin
  split
  · rfl
  · rfl

theorem passwordHash_logout {auth : AuthInner κ} {headers : HeaderMap} :
    (auth.logout digest headers).passwordHash = auth.passwordHash := by
  unfold AuthInner.logout
  split
  · rfl
  · rfl

/-- What a call of the manager leaves of its password and its clock, and where the sign-ins it
verifies and records come from. -/
structure SignStep (digest : String → κ) (verifyPassword : String → String → Bool)
    (op : AuthOp κ) (before after : AuthRun κ) : Prop where
  now : before.now ≤ after.now
  password : after.auth.passwordHash = before.auth.passwordHash
  verified : ∀ verified ∈ after.verified, verified ∈ before.verified ∨
    ∃ login ∈ verifiedPassword digest verifyPassword before.auth op, login.verified = verified
  signedIn : ∀ verified session csrf now, .signedIn verified session csrf now ∈ after.history →
    .signedIn verified session csrf now ∈ before.history ∨ verified ∈ before.verified
  used : (after.verified ++ signIns after.history).Subperm
    ((verifiedPassword digest verifyPassword before.auth op).map PasswordLogin.verified ++
      (before.verified ++ signIns before.history))

theorem map_verifiedPassword {auth : AuthInner κ} {now : Time} {joined : Bool} {headers : HeaderMap}
    {username password : String} {stored : Option StoredUserCredential} :
    (verifiedPassword digest verifyPassword auth
      (.verifyLogin now joined headers username password stored)).map PasswordLogin.verified =
    (auth.verifyLogin digest
      (fun hash password => if joined then some (verifyPassword hash password) else none)
      now headers username password stored).2.toOption.toList := by
  rw [verifiedPassword]
  generalize (AuthInner.verifyLogin digest auth _ now headers username password stored).2 = outcome
  cases outcome <;> rfl

/-- A sign-in that is completed is taken from the verified ones. -/
theorem subperm_erase_append {α : Type} [DecidableEq α] {a : α} {kept done more : List α}
    (ha : a ∈ kept) (hmore : more = [] ∨ more = [a]) :
    (kept.erase a ++ (done ++ more)).Subperm (kept ++ done) := by
  rcases hmore with rfl | rfl
  · rw [List.append_nil]
    exact (List.erase_subperm a kept).append (.refl done)
  · have hperm := (List.perm_cons_erase ha).append_right done
    refine List.Perm.subperm (List.Perm.trans ?_ hperm.symm)
    rw [← List.append_assoc]
    exact List.perm_append_singleton a _

theorem signStep {before after : AuthRun κ} {op : AuthOp κ}
    (hstep : before.step digest verifyPassword op = some after) :
    SignStep digest verifyPassword op before after := by
  cases op with
  | ensureCsrfCookie now first random headers =>
    obtain ⟨hnow, hstep⟩ := of_guard hstep
    obtain rfl := Option.some.inj hstep
    refine ⟨hnow, passwordHash_ensureCsrfCookie, fun _ h => .inl h, fun _ _ _ _ h => ?_, ?_⟩
    · rcases List.mem_append.mp h with hold | hnew
      · exact .inl hold
      · obtain ⟨issued, -, hissued⟩ := Option.map_eq_some_iff.mp (Option.mem_toList.mp hnew)
        cases hissued
    · rw [signIns_append, signIns_csrfIssued, List.append_nil]
      exact .refl _
  | verifyLogin now joined headers username password stored =>
    obtain ⟨hnow, hstep⟩ := of_guard hstep
    obtain rfl := Option.some.inj hstep
    refine ⟨hnow, passwordHash_csrfBinding, fun verified h => ?_, fun _ _ _ _ h => .inl h, ?_⟩
    · rcases List.mem_append.mp h with hold | hnew
      · exact .inl hold
      · refine .inr ⟨{ username, password, stored, verified }, ?_, rfl⟩
        exact Option.mem_toList.mpr
          (Option.map_eq_some_iff.mpr ⟨verified, Option.mem_toList.mp hnew, rfl⟩)
    · rw [map_verifiedPassword, ← List.append_assoc]
      exact (List.perm_append_comm.append_right _).subperm
  | completeLogin now verified sessionRandom csrfRandom =>
    obtain ⟨⟨hnow, hverified⟩, hstep⟩ := of_guard hstep
    obtain rfl := Option.some.inj hstep
    refine ⟨hnow, passwordHash_completeLogin, fun _ h => .inl (List.mem_of_mem_erase h),
      fun _ _ _ _ h => ?_, ?_⟩
    · rcases List.mem_append.mp h with hold | hnew
      · exact .inl hold
      · obtain ⟨issued, -, hissued⟩ := Option.map_eq_some_iff.mp (Option.mem_toList.mp hnew)
        obtain ⟨rfl, -⟩ := AuthEvent.signedIn.inj hissued
        exact .inr hverified
    · rw [signIns_append]
      exact subperm_erase_append hverified (signIns_signedIn verified fun issued =>
        (issued.sessionCookie.value, issued.csrfCookie.value, now))
  | logout headers =>
    obtain rfl := Option.some.inj hstep
    refine ⟨Nat.le_refl _, passwordHash_logout, fun _ h => .inl h, fun _ _ _ _ h => ?_, ?_⟩
    · rcases List.mem_append.mp h with hold | hnew
      · exact .inl hold
      · cases List.mem_singleton.mp hnew
    · have hnone : signIns [AuthEvent.loggedOut (κ := κ) headers] = [] := rfl
      rw [signIns_append, hnone, List.append_nil]
      exact .refl _
  | authorize now utcNow headers requireCsrf requiredScope =>
    obtain ⟨hnow, hstep⟩ := of_guard hstep
    obtain rfl := Option.some.inj hstep
    exact ⟨hnow, passwordHash_authorizeWithScope, fun _ h => .inl h, fun _ _ _ _ h => .inl h,
      .refl _⟩
  | loadOperatorTokens records =>
    obtain rfl := Option.some.inj hstep
    exact ⟨Nat.le_refl _, rfl, fun _ h => .inl h, fun _ _ _ _ h => .inl h, .refl _⟩
  | addOperatorToken record =>
    obtain rfl := Option.some.inj hstep
    exact ⟨Nat.le_refl _, rfl, fun _ h => .inl h, fun _ _ _ _ h => .inl h, .refl _⟩
  | revokeOperatorToken id =>
    obtain rfl := Option.some.inj hstep
    exact ⟨Nat.le_refl _, rfl, fun _ h => .inl h, fun _ _ _ _ h => .inl h, .refl _⟩
  | disableBootstrapBearer =>
    obtain rfl := Option.some.inj hstep
    exact ⟨Nat.le_refl _, rfl, fun _ h => .inl h, fun _ _ _ _ h => .inl h, .refl _⟩

/-- A password login is recorded for the right password only. -/
theorem verifiedPassword_ok (hinj : Function.Injective digest) {auth : AuthInner κ} {op : AuthOp κ}
    {login : PasswordLogin κ} (h : login ∈ verifiedPassword digest verifyPassword auth op) :
    login.Ok verifyPassword auth.passwordHash := by
  cases op with
  | verifyLogin now joined headers username password stored =>
    obtain ⟨verified, hverified, rfl⟩ := Option.map_eq_some_iff.mp (Option.mem_toList.mp h)
    have hright : ∀ hash, (if joined then some (verifyPassword hash password) else none) =
        some true → verifyPassword hash password = true := by
      intro hash hhash
      split at hhash
      · exact Option.some.inj hhash
      · cases hhash
    rcases verifyLogin_checked hinj (of_toOption hverified) with
      ⟨hname, huser, hpassword⟩ | ⟨credential, hmem, hname, huser, hpassword⟩
    · exact .inl ⟨hname, huser, hright _ hpassword⟩
    · exact .inr ⟨credential, hmem, hname, huser, hright _ hpassword⟩
  | _ => cases h

theorem OidcOk.auth (hinj : Function.Injective digest)
    (h : OidcOk digest verifyPassword passwordHash lib config s) {op : AuthOp κ}
    {sign : AuthRun κ} (hstep : s.sign.step digest verifyPassword op = some sign) :
    OidcOk digest verifyPassword passwordHash lib config { s with
      sign
      passwordLogins := s.passwordLogins ++ verifiedPassword digest verifyPassword s.sign.auth op } := by
  obtain ⟨hnow, hpassword, hverified, hsigned, hused⟩ := signStep hstep
  have hknown : ∀ verified ∈ s.sign.verified, ∃ login ∈ s.passwordLogins ++
      verifiedPassword digest verifyPassword s.sign.auth op, login.verified = verified := by
    intro verified hmem
    obtain ⟨login, hlogin, hsame⟩ := h.verified verified hmem
    exact ⟨login, List.mem_append_left _ hlogin, hsame⟩
  refine { h with
    run := h.run.step hinj hstep
    password := hpassword.trans h.password
    kept := h.kept.later hnow
    recent := ?_
    passwords := ?_
    verified := ?_
    signedIn := ?_
    used := ?_ }
  · intro ticket hticket
    exact (h.recent ticket hticket).trans (Nat.add_le_add_right hnow _)
  · intro login hlogin
    rcases List.mem_append.mp hlogin with hold | hnew
    · exact h.passwords login hold
    · rw [← h.password]
      exact verifiedPassword_ok hinj hnew
  · intro verified hmem
    rcases hverified verified hmem with hold | ⟨login, hlogin, hsame⟩
    · exact hknown verified hold
    · exact ⟨login, List.mem_append_right _ hlogin, hsame⟩
  · intro verified session csrf now hevent
    rcases hsigned verified session csrf now hevent with hold | hmem
    · rcases h.signedIn _ _ _ _ hold with ⟨login, hlogin, hsame⟩ | hoidc
      · exact .inl ⟨login, List.mem_append_left _ hlogin, hsame⟩
      · exact .inr hoidc
    · exact .inl (hknown verified hmem)
  · refine hused.trans (((List.subperm_append_left _).mpr h.used).trans ?_)
    simp only [OidcRun.verifications, List.map_append, ← List.append_assoc]
    exact (List.perm_append_comm.append_right _).subperm

/-- Every step keeps the invariant. -/
theorem OidcOk.step (hinj : Function.Injective digest)
    (h : OidcOk digest verifyPassword passwordHash lib config s) {op : OidcOp κ} {t : OidcRun κ}
    (hstep : s.step digest verifyPassword lib config op = some t) :
    OidcOk digest verifyPassword passwordHash lib config t := by
  cases op with
  | start =>
    obtain rfl := Option.some.inj hstep
    exact h.begin
  | callback now headers state code =>
    obtain ⟨hnow, hstep⟩ := of_guard hstep
    obtain rfl := Option.some.inj hstep
    exact h.callback hnow
  | cancel now headers state =>
    obtain ⟨hnow, hstep⟩ := of_guard hstep
    obtain rfl := Option.some.inj hstep
    exact (h.take hnow rfl).1
  | readProvider purpose =>
    obtain ⟨hplace, hstep⟩ := of_guard hstep
    obtain rfl := Option.some.inj hstep
    exact h.readProvider hplace
  | discovered purpose response =>
    obtain ⟨hplace, hstep⟩ := of_guard hstep
    obtain rfl := Option.some.inj hstep
    exact h.discovered hplace
  | register provider now first state verifier nonce =>
    obtain ⟨⟨hnow, hplace⟩, hstep⟩ := of_guard hstep
    obtain rfl := Option.some.inj hstep
    exact h.register hnow hplace
  | registerFails provider =>
    obtain ⟨hplace, hstep⟩ := of_guard hstep
    obtain rfl := Option.some.inj hstep
    exact h.move hplace (by simp)
  | exchanged attempt provider response =>
    obtain ⟨hplace, hstep⟩ := of_guard hstep
    obtain rfl := Option.some.inj hstep
    exact h.exchanged hplace
  | fetchedKeys attempt provider idToken kid algorithm response decodeNow wallNow =>
    obtain ⟨hplace, hstep⟩ := of_guard hstep
    obtain rfl := Option.some.inj hstep
    exact h.fetchedKeys hplace
  | complete attempt provider claims now sessionRandom csrfRandom =>
    obtain ⟨⟨hnow, hplace⟩, hstep⟩ := of_guard hstep
    obtain rfl := Option.some.inj hstep
    exact h.complete hnow hplace
  | auth op =>
    obtain ⟨sign, hsign, hstep⟩ := Option.bind_eq_some_iff.mp hstep
    obtain rfl := Option.some.inj hstep
    exact h.auth hinj hsign

theorem oidcOk_of_reachable (hinj : Function.Injective digest) {bearerHash : κ}
    {secureCookies devAuthDisabled : Bool}
    (h : (oidcMachine digest verifyPassword lib config passwordHash bearerHash secureCookies
      devAuthDisabled).Reachable s) :
    OidcOk digest verifyPassword passwordHash lib config s := by
  refine h.invariant ?_ fun s op t hs _ hstep => hs.step hinj hstep
  constructor
  · exact @runOk_of_reachable κ _ digest verifyPassword _ hinj _ _ _ _ .start
  · rfl
  · exact .empty
  case used => exact List.nil_subperm
  all_goals simp [oidcMachine, Tickets.issued]

omit [DecidableEq κ] in
theorem map_eq_some_of_injective (hinj : Function.Injective digest) {value : Option String}
    {state : String} (h : value.map digest = some (digest state)) : value = some state := by
  obtain ⟨other, hother, hsame⟩ := Option.map_eq_some_iff.mp h
  rw [hother, hinj hsame]

/-- The tickets of completed logins were issued. -/
theorem OidcOk.logins_subperm (h : OidcOk digest verifyPassword passwordHash lib config s) :
    (s.logins.map fun login => login.attempt.ticket digest).Subperm (Tickets.issued s.ledger) :=
  (List.sublist_append_left _ _).subperm.trans (h.spent.trans h.kept.redeemed_subperm)

end Steps

/-- The provider at `https://idp` with one RSA key. -/
def idpUrl (path : String) : Url where
  text := "https://idp" ++ path
  scheme := "https"
  hostStr := some "idp"
  username := ""
  password := none
  query := none
  fragment := none

def idp : OidcProvider where
  issuer := "https://idp"
  authorizationEndpoint := idpUrl "/a"
  tokenEndpoint := idpUrl "/t"
  jwksUri := idpUrl "/k"

def idpClaims : IdTokenClaims where
  iss := "https://idp"
  sub := "subject-1"
  aud := .text "relay"
  exp := 1700000600
  iat := 1700000000
  nonce := "n"
  email := none
  emailVerified := none
  azp := none

/-- The libraries on what this provider sends. -/
def idpLibrary : OidcLibrary Unit where
  parseUrl url := some {
    text := url, scheme := "https", hostStr := some "idp", username := "", password := none
    query := none, fragment := none }
  discovery _ := some {
    issuer := "https://idp", authorizationEndpoint := "https://idp/a"
    tokenEndpoint := "https://idp/t", jwksUri := "https://idp/k"
    tokenEndpointAuthMethodsSupported := none }
  tokenResponse _ := some (some "jwt")
  keySet _ := some [{
    kty := "RSA", kid := some "k", n := some "n", e := some "AQAB", alg := none, use := none }]
  decodeHeader _ := some { kid := some "k", alg := .rs256 }
  fromRsaComponents _ _ := some ()
  decode _ _ _ _ _ _ := some idpClaims
  challenge verifier := verifier

def relayConfig : OidcConfig where
  issuerUrl := "https://idp"
  clientId := "relay"
  clientSecret := none
  redirectUrl := "https://relay/api/v1/auth/oidc/callback"
  allowedSubjects := ["subject-1"]
  allowedEmails := []
  scopes := ["openid"]

/-- A response with a short body. -/
def shortBody : Option HttpResponse :=
  some { success := true, contentLength := none, chunks := [some [123, 125]] }

def relayMachine : Machine (OidcRun String) (OidcOp String) :=
  oidcMachine id (fun hash password => hash = password) idpLibrary relayConfig "pass" "bearer" true
    false

/-- A browser is sent to the provider. -/
def sentToProvider : List (OidcOp String) :=
  [.start, .readProvider .start, .discovered .start shortBody, .register idp 1 "" "s" "v" "n"]

def relayAttempt : Attempt where
  headers := browser "iptv_oidc_state=s" ""
  state := "s"
  code := "c"
  takenAt := 2
  pending := { verifier := "v", nonce := "n", expiresAt := 1 + oidcStateTtl }

/-- It comes back and is signed in. -/
def signedInByProvider : List (OidcOp String) :=
  sentToProvider ++ [.callback 2 (browser "iptv_oidc_state=s" "") "s" (some "c"),
    .readProvider (.callback relayAttempt), .exchanged relayAttempt idp shortBody,
    .fetchedKeys relayAttempt idp "jwt" "k" .rs256 shortBody 1700000001 (some 1700000001),
    .complete relayAttempt idp idpClaims 3 (some "session") (some "csrf")]

theorem signedInByProvider_reachable : ∃ s, relayMachine.Reachable s ∧
    s.logins.length = 1 ∧ (s.sign.auth.authorizeWithScope id 4 4
      (browser "iptv_session=session" "") false (some "admin")).2 = some .session := by
  obtain ⟨s, hs, hp⟩ := relayMachine.exists_reachable_of_run signedInByProvider (fun s =>
    s.logins.length = 1 ∧ (s.sign.auth.authorizeWithScope id 4 4
      (browser "iptv_session=session" "") false (some "admin")).2 = some .session)
    (by decide +kernel)
  exact ⟨s, hs, of_decide_eq_true hp⟩

/-- In every run of any number of logins, callbacks and cancellations, at most 4096 logins wait
for the provider, and completed logins use up different tickets: each was issued when a browser
was sent to the provider with its state, its nonce and the challenge of its verifier, and it was
redeemed within ten minutes by a request with that state in its cookie. The provider's claims
carry the nonce of the ticket, name the configured issuer and client, and belong to an approved
subject or verified email address. -/
theorem oidc_logins_sound {κ Key : Type} [DecidableEq κ] (digest : String → κ)
    (hinj : Function.Injective digest) (verifyPassword : String → String → Bool)
    (lib : OidcLibrary Key) (config : OidcConfig) (passwordHash : String) (bearerHash : κ)
    (secureCookies devAuthDisabled : Bool) (s : OidcRun κ)
    (h : (oidcMachine digest verifyPassword lib config passwordHash bearerHash secureCookies
      devAuthDisabled).Reachable s) :
    KeyMap.size s.pending ≤ 4096 ∧
    (s.logins.map fun login => login.attempt.ticket digest).Subperm (Tickets.issued s.ledger) ∧
    ∀ login ∈ s.logins,
      cookie login.attempt.headers "iptv_oidc_state" = some login.attempt.state ∧
      login.attempt.takenAt < login.attempt.pending.expiresAt ∧
      login.attempt.pending.expiresAt ≤ login.attempt.takenAt + seconds 600 ∧
      (∃ provider secure, ProviderOk config provider ∧
        authorization lib config provider login.attempt.state login.attempt.pending.verifier
          login.claims.nonce secure ∈ s.sent) ∧
      login.claims.iss = config.issuerUrl ∧
      audienceContains login.claims.aud config.clientId = true ∧
      config.allows login.claims.sub login.claims.email login.claims.emailVerified = true := by
  have hok := oidcOk_of_reachable hinj h
  refine ⟨hok.kept.size, hok.logins_subperm, fun login hlogin => ?_⟩
  obtain ⟨hattempt, -, hidentity⟩ := hok.logins login hlogin
  have hissued := hok.logins_subperm.subset (List.mem_map_of_mem hlogin)
  obtain ⟨provider, state, secure, hprovider, hstate, hsent⟩ := hok.sent _ hissued
  obtain rfl : state = login.attempt.state := hinj hstate
  refine ⟨map_eq_some_of_injective hinj hattempt.cookie, hattempt.inTime, hattempt.recent,
    ⟨provider, secure, hprovider, ?_⟩, hidentity.issuer, hidentity.audience, hidentity.allowed⟩
  rw [hidentity.nonce]
  exact hsent

theorem oidc_logins_sound_idp : ∃ s, relayMachine.Reachable s ∧ s.logins.length = 1 ∧
    KeyMap.size s.pending ≤ 4096 ∧ ∀ login ∈ s.logins,
      cookie login.attempt.headers "iptv_oidc_state" = some login.attempt.state ∧
      relayConfig.allows login.claims.sub login.claims.email login.claims.emailVerified = true := by
  obtain ⟨s, hs, hlogins, -⟩ := signedInByProvider_reachable
  obtain ⟨hsize, -, hall⟩ := oidc_logins_sound id Function.injective_id _ _ _ _ _ _ _ s hs
  refine ⟨s, hs, hlogins, hsize, fun login hlogin => ?_⟩
  obtain ⟨hcookie, -, -, -, -, -, hallowed⟩ := hall login hlogin
  exact ⟨hcookie, hallowed⟩

/-- A session token that this sign-in has issued and nothing has ended since. -/
structure StandsFrom {κ : Type} [DecidableEq κ] (digest : String → κ) (token : String)
    (history : List (AuthEvent κ)) (verified : VerifiedLogin κ) (expiresAt : Time) (csrf : String) :
    Prop where
  issued : ∃ before first now after,
    history = before ++ .signedIn verified token first now :: after ∧
      expiresAt = now + sessionTtl ∧ ∀ event ∈ after, event.ends digest token = false
  latest : latestCsrf token history = some csrf

theorem Standing.exists_from {κ : Type} [DecidableEq κ] {digest : String → κ} {token : String}
    {history : List (AuthEvent κ)} {user : SessionUser} {expiresAt : Time} {csrf : String}
    (h : Standing digest token history user expiresAt csrf) :
    ∃ verified, verified.user = user ∧ StandsFrom digest token history verified expiresAt csrf := by
  obtain ⟨before, verified, first, now, after, hhistory, huser, hexpires, hkept⟩ := h.issued
  exact ⟨verified, huser, ⟨before, first, now, after, hhistory, hexpires, hkept⟩, h.latest⟩

/-- In every run, a browser session authorizes a request only if its cookie is a token that was
issued in a sign-in and still stands, and this sign-in verified the password of its account or was
a login through the provider as the built-in operator. Every sign-in uses up a verification of its
own. -/
theorem session_comes_from_login {κ Key : Type} [DecidableEq κ] (digest : String → κ)
    (hinj : Function.Injective digest) (verifyPassword : String → String → Bool)
    (lib : OidcLibrary Key) (config : OidcConfig) (passwordHash : String) (bearerHash : κ)
    (secureCookies devAuthDisabled : Bool) (s : OidcRun κ)
    (h : (oidcMachine digest verifyPassword lib config passwordHash bearerHash secureCookies
      devAuthDisabled).Reachable s)
    (now utcNow : Time) (headers : HeaderMap) (requireCsrf : Bool) (requiredScope : Option String)
    (hsession : (s.sign.auth.authorizeWithScope digest now utcNow headers requireCsrf
      requiredScope).2 = some .session) :
    (∃ token verified expiresAt csrf, cookie headers sessionCookie = some token ∧
      StandsFrom digest token s.sign.history verified expiresAt csrf ∧ now < expiresAt ∧
      scopeGranted verified.user.scopes requiredScope = true ∧
      (requireCsrf = true →
        csrfHeaderText headers = some csrf ∧ cookie headers csrfCookie = some csrf) ∧
      ((∃ login ∈ s.passwordLogins, login.verified = verified ∧
          login.Ok verifyPassword passwordHash) ∨
        (∃ login ∈ s.logins, login.session = token ∧ login.attempt.verified digest = verified ∧
          login.Ok digest config) ∧ verified.user = .builtInOperator)) ∧
    (signIns s.sign.history).Subperm (s.verifications digest) := by
  have hok := oidcOk_of_reachable hinj h
  obtain ⟨token, session, htoken, hlookup, hexpires, hscope, hcsrf⟩ :=
    authorizeWithScope_session hsession
  obtain ⟨same, csrf, hsame, hhash, hstands⟩ := hok.run.sessions _ session hlookup
  obtain rfl := hinj hsame
  obtain ⟨verified, huser, hfrom⟩ := hstands.exists_from
  refine ⟨⟨token, verified, session.expiresAt, csrf, htoken, hfrom, hexpires, huser ▸ hscope,
    fun hrequired => csrfMatches_eq_true hinj hhash (hcsrf hrequired), ?_⟩,
    (List.sublist_append_right _ _).subperm.trans hok.used⟩
  obtain ⟨before, first, at_, after, hhistory, -, -⟩ := hfrom.issued
  have hevent : .signedIn verified token first at_ ∈ s.sign.history := by
    rw [hhistory]
    simp
  rcases hok.signedIn _ _ _ _ hevent with
    ⟨login, hlogin, hverified⟩ | ⟨login, hlogin, hsame, hverified⟩
  · exact .inl ⟨login, hlogin, hverified, hok.passwords login hlogin⟩
  · exact .inr ⟨⟨login, hlogin, hsame, hverified, hok.logins login hlogin⟩,
      hverified ▸ rfl⟩

theorem session_comes_from_login_idp : ∃ s, relayMachine.Reachable s ∧
    (∃ token verified expiresAt csrf,
      cookie (browser "iptv_session=session" "") sessionCookie = some token ∧
      StandsFrom id token s.sign.history verified expiresAt csrf ∧ 4 < expiresAt ∧
      scopeGranted verified.user.scopes (some "admin") = true ∧
      ((∃ login ∈ s.passwordLogins, login.verified = verified ∧
          login.Ok (fun hash password => hash = password) "pass") ∨
        (∃ login ∈ s.logins, login.session = token ∧ login.attempt.verified id = verified ∧
          login.Ok id relayConfig) ∧ verified.user = .builtInOperator)) ∧
    (signIns s.sign.history).Subperm (s.verifications id) := by
  obtain ⟨s, hs, -, hsession⟩ := signedInByProvider_reachable
  obtain ⟨⟨token, verified, expiresAt, csrf, htoken, hstands, hexpires, hscope, -, horigin⟩,
      hused⟩ :=
    session_comes_from_login id Function.injective_id _ _ _ _ _ _ _ s hs 4 4 _ _ _ hsession
  exact ⟨s, hs, ⟨token, verified, expiresAt, csrf, htoken, hstands, hexpires, hscope, horigin⟩,
    hused⟩

/-- The requests of a login whose browser comes back in time. -/
theorem callback_takes {κ : Type} [DecidableEq κ] {digest : String → κ} {s : OidcRun κ}
    {now : Time} {headers : HeaderMap} {state code value : String} {pending : PendingLogin}
    (hcookie : verifyStateCookie digest headers state = .ok ())
    (hredeemed : (Tickets.redeem PendingLogin.expiresAt now (digest state) s.pending).2 =
      some pending) (hcode : callbackCode (some code) = .ok value) :
    let t := s.callback digest now headers state (some code)
    t.requests = .reads (.callback { headers, state, code := value, takenAt := now, pending }) ::
      s.requests ∧ t.provider = s.provider ∧ t.sign = { s.sign with now } := by
  simp only [OidcRun.callback, OidcRun.take, hcookie, takePending, hredeemed, hcode, Option.elim]
  exact ⟨rfl, rfl, rfl⟩

/-- A login whose ticket is live, has not expired and has at most 4096 rivals completes when its
browser comes back with a code and the provider vouches for an approved identity. -/
theorem oidc_login_completes {κ Key : Type} [DecidableEq κ] (digest : String → κ)
    (hinj : Function.Injective digest) (verifyPassword : String → String → Bool)
    (lib : OidcLibrary Key) (config : OidcConfig) (passwordHash : String) (bearerHash : κ)
    (secureCookies devAuthDisabled : Bool) (s : OidcRun κ)
    (h : (oidcMachine digest verifyPassword lib config passwordHash bearerHash secureCookies
      devAuthDisabled).Reachable s)
    (state : String) (pending : PendingLogin)
    (hlive : Tickets.live (digest state) s.ledger = some pending)
    (hrivals : Tickets.rivals PendingLogin.expiresAt pending s.ledger ≤ 4096)
    (now : Time) (hnow : s.sign.now ≤ now) (hexpires : now < pending.expiresAt)
    (headers : HeaderMap) (hcookie : verifyStateCookie digest headers state = .ok ())
    (code value : String) (hcode : callbackCode (some code) = .ok value)
    (provider : OidcProvider) (hprovider : s.provider = some provider)
    (answer keys : Option HttpResponse) (idToken kid : String) (algorithm : Algorithm)
    (hanswer : exchangedToken lib answer = .ok idToken)
    (hkey : tokenKey lib idToken = .ok (kid, algorithm))
    (decodeNow : Nat) (wallNow : Option Int) (claims : IdTokenClaims)
    (hclaims : verifyIdToken lib config provider idToken kid algorithm keys decodeNow wallNow =
      .ok claims)
    (hidentity : checkIdentity config pending claims = .ok ()) (session csrf : String) :
    ∃ t, (oidcMachine digest verifyPassword lib config passwordHash bearerHash secureCookies
        devAuthDisabled).LeadsWhere (fun _ _ => True) s t ∧
      (∃ login ∈ t.logins, login.attempt.state = state ∧ login.attempt.pending = pending ∧
        login.claims = claims ∧ login.session = session) ∧
      t.sign.auth.sessions.lookup (digest session) = some {
        csrfHash := digest csrf
        expiresAt := now + sessionTtl
        user := .builtInOperator } := by
  have hok := oidcOk_of_reachable hinj h
  have hredeemed := hok.kept.redeem_of_live hnow hlive hexpires hrivals
  obtain ⟨hrequests, hcached, hsign⟩ := callback_takes hcookie hredeemed hcode
  let attempt : Attempt := { headers, state, code := value, takenAt := now, pending }
  let waiting := s.callback digest now headers state (some code)
  let exchanging := waiting.move (.reads (.callback attempt)) (some (.exchanges attempt provider))
  let fetching := exchanging.move (.exchanges attempt provider)
    (some (.fetchesKeys attempt provider idToken kid algorithm))
  let completing := fetching.move (.fetchesKeys attempt provider idToken kid algorithm)
    (some (.completes attempt provider claims))
  let t := completing.complete digest attempt provider claims now (some session) (some csrf)
  have hreads : .reads (.callback attempt) ∈ waiting.requests := by
    rw [hrequests]
    exact List.mem_cons_self
  have hread : waiting.readProvider lib config (.callback attempt) =
      some (.exchanges attempt provider) := by
    simp only [OidcRun.readProvider, waiting, hcached, hprovider]
    rfl
  have hexchanged : exchangedPlace lib attempt provider answer =
      .ok (.fetchesKeys attempt provider idToken kid algorithm) := by
    rw [exchangedPlace, hanswer, ok_bind, hkey]
    rfl
  have hfetched : fetchedPlace lib config attempt provider idToken kid algorithm keys decodeNow
      wallNow = .ok (.completes attempt provider claims) := by
    rw [fetchedPlace, hclaims, ok_bind, hidentity]
    rfl
  have hexchanges : .exchanges attempt provider ∈ exchanging.requests := List.mem_cons_self
  have hfetches : .fetchesKeys attempt provider idToken kid algorithm ∈ fetching.requests :=
    List.mem_cons_self
  have hclock : completing.sign.now ≤ now := by
    change waiting.sign.now ≤ now
    rw [hsign]
  have hsteps : ∀ op t u, (oidcMachine digest verifyPassword lib config passwordHash bearerHash
      secureCookies devAuthDisabled).LeadsWhere (fun _ _ => True) s t →
      t.step digest verifyPassword lib config op = some u →
      (oidcMachine digest verifyPassword lib config passwordHash bearerHash secureCookies
        devAuthDisabled).LeadsWhere (fun _ _ => True) s u :=
    fun op t u hleads hstep => hleads.step trivial hstep
  have hpath := hsteps (.callback now headers state (some code)) s waiting .refl (guard_bind hnow _)
  have hpath := hsteps (.readProvider (.callback attempt)) waiting exchanging hpath <| by
    rw [OidcRun.step, guard_bind hreads, hread]
    rfl
  have hpath := hsteps (.exchanged attempt provider answer) exchanging fetching hpath <| by
    rw [OidcRun.step, guard_bind hexchanges, hexchanged]
    rfl
  have hpath := hsteps (.fetchedKeys attempt provider idToken kid algorithm keys decodeNow wallNow)
    fetching completing hpath <| by
    rw [OidcRun.step, guard_bind hfetches, hfetched]
    rfl
  have hpath := hsteps (.complete attempt provider claims now (some session) (some csrf))
    completing t hpath (guard_bind ⟨hclock, List.mem_cons_self⟩ _)
  refine ⟨t, hpath, ⟨_, List.mem_append_right _ List.mem_cons_self, rfl, rfl, rfl, rfl⟩, ?_⟩
  exact AList.lookup_insert _

theorem oidc_login_completes_idp : ∃ s t, relayMachine.Reachable s ∧
    relayMachine.LeadsWhere (fun _ _ => True) s t ∧
    ∃ login ∈ t.logins, login.attempt.state = "s" ∧ login.session = "session" := by
  obtain ⟨s, hs, hp⟩ := relayMachine.exists_reachable_of_run sentToProvider (fun s =>
    Tickets.live "s" s.ledger = some relayAttempt.pending ∧
      Tickets.rivals PendingLogin.expiresAt relayAttempt.pending s.ledger ≤ 4096 ∧
      s.sign.now ≤ 2 ∧ s.provider = some idp) (by decide +kernel)
  obtain ⟨hlive, hrivals, hnow, hprovider⟩ := of_decide_eq_true hp
  obtain ⟨t, hleads, ⟨login, hlogin, hstate, -, -, hsession⟩, -⟩ :=
    oidc_login_completes id Function.injective_id _ _ _ _ _ _ _ s hs "s" _ hlive hrivals 2 hnow
      (by decide) (browser "iptv_oidc_state=s" "") (by decide +kernel) "c" "c" (by decide) idp
      hprovider shortBody shortBody "jwt" "k" .rs256 (by decide) (by decide) 1700000001
      (some 1700000001) idpClaims (by decide +kernel) (by decide) "session" "csrf"
  exact ⟨s, t, hs, hleads, login, hlogin, hstate, hsession⟩

end IptvRelay.Auth
