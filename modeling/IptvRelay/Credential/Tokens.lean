import IptvRelay.Lib.History
import IptvRelay.Lib.Machine
import Mathlib.Data.List.Induction

/-!
# Session tokens of the HLS broker

Model of the token table in `media/src/credential_broker.rs`. The table is keyed by the
digest of a token, so the specification is about tokens and the runs are free of
collisions. Each call reads the clock itself; an insertion reads it once for every stored
token and once for the new one. An address is any type.
-/

namespace IptvRelay.Credential

open Transition

abbrev Time := Nat

inductive HlsResourceKind where
  | manifest
  | binary
  deriving DecidableEq, Repr

structure HlsResourceToken (υ : Type) where
  url : υ
  kind : HlsResourceKind
  expiresAt : Time
  remainingRequests : Nat
  deriving DecidableEq, Repr

/-- The limits are positive: `HlsBrokerConfig::new` refuses others. Times are unbounded, where
`Instant::now() + token_ttl` panics if the sum leaves the range of the clock. -/
structure HlsBrokerConfig where
  tokenTtl : Time
  maxRequestsPerToken : Nat
  maxResponseBytes : Nat
  maxUriBytes : Nat
  maxTokens : Nat
  tokenTtl_pos : 0 < tokenTtl := by decide
  maxRequestsPerToken_pos : 0 < maxRequestsPerToken := by decide
  maxResponseBytes_pos : 0 < maxResponseBytes := by decide
  maxUriBytes_pos : 0 < maxUriBytes := by decide
  maxTokens_pos : 0 < maxTokens := by decide

/-- A hash map by digest: no two entries have one key. -/
abbrev Tokens (κ υ : Type) := List (κ × HlsResourceToken υ)

section Store

variable {κ υ : Type} [DecidableEq κ]

/-- What an insertion keeps. The clock is read again for every entry. -/
def isAlive (reads : κ → Time) (entry : κ × HlsResourceToken υ) : Bool :=
  reads entry.1 < entry.2.expiresAt ∧ 0 < entry.2.remainingRequests

/-- `HashMap::insert`. -/
def Tokens.put (tokens : Tokens κ υ) (key : κ) (resource : HlsResourceToken υ) : Tokens κ υ :=
  (key, resource) :: tokens.filter fun entry => entry.1 ≠ key

/-- `HashMap::get`. -/
def Tokens.get (tokens : Tokens κ υ) (key : κ) : Option (HlsResourceToken υ) :=
  (tokens.find? fun entry => entry.1 = key).map Prod.snd

/-- The result is true when the token is stored. -/
def insertToken (config : HlsBrokerConfig) (tokens : Tokens κ υ) (reads : κ → Time) (now : Time)
    (key : κ) (url : υ) (kind : HlsResourceKind) : Tokens κ υ × Bool :=
  let kept : Tokens κ υ := tokens.filter (isAlive reads)
  if config.maxTokens ≤ kept.length then (kept, false)
  else
    (kept.put key
      { url
        kind
        expiresAt := now + config.tokenTtl
        remainingRequests := config.maxRequestsPerToken }, true)

def takeToken (tokens : Tokens κ υ) (now : Time) (key : κ) :
    Tokens κ υ × Option (HlsResourceToken υ) :=
  match tokens.get key with
  | none => (tokens, none)
  | some resource =>
    if resource.expiresAt ≤ now ∨ resource.remainingRequests = 0 then
      (tokens.filter fun entry => entry.1 ≠ key, none)
    else
      let taken := { resource with remainingRequests := resource.remainingRequests - 1 }
      (tokens.put key taken, some taken)

/-! ## What the table does -/

theorem Tokens.mem_put {tokens : Tokens κ υ} {key : κ} {resource : HlsResourceToken υ}
    {entry : κ × HlsResourceToken υ} :
    entry ∈ tokens.put key resource ↔
      entry = (key, resource) ∨ (entry ∈ tokens ∧ entry.1 ≠ key) := by
  simp [put]

theorem Tokens.mem_of_get {tokens : Tokens κ υ} {key : κ} {resource : HlsResourceToken υ}
    (h : tokens.get key = some resource) : (key, resource) ∈ tokens := by
  obtain ⟨entry, hfound, rfl⟩ := Option.map_eq_some_iff.mp h
  have hkey : entry.1 = key := by simpa using List.find?_some hfound
  obtain rfl := hkey
  exact List.mem_of_find?_eq_some hfound

/-- An entry that is replaced makes room for the new one. -/
theorem Tokens.length_put_le {tokens : Tokens κ υ} {key : κ} {resource : HlsResourceToken υ}
    (h : tokens.get key ≠ none) : (tokens.put key resource).length ≤ tokens.length := by
  have hfound : ∃ entry ∈ tokens, ¬decide (entry.1 ≠ key) = true := by
    obtain ⟨old, hold⟩ := Option.ne_none_iff_exists'.mp h
    exact ⟨_, Tokens.mem_of_get hold, by simp⟩
  exact List.length_filter_lt_length_iff_exists.mpr hfound

theorem insertToken_cases {config : HlsBrokerConfig} {tokens after : Tokens κ υ} {reads : κ → Time}
    {now : Time} {key : κ} {url : υ} {kind : HlsResourceKind} {stored : Bool}
    (h : insertToken config tokens reads now key url kind = (after, stored)) :
    (stored = false ∧ config.maxTokens ≤ (tokens.filter (isAlive reads)).length ∧
      after = tokens.filter (isAlive reads)) ∨
    (stored = true ∧ (tokens.filter (isAlive reads)).length < config.maxTokens ∧
      after = Tokens.put (tokens.filter (isAlive reads)) key
        ⟨url, kind, now + config.tokenTtl, config.maxRequestsPerToken⟩) := by
  unfold insertToken at h
  dsimp only at h
  split at h
  · rename_i hfull
    obtain ⟨rfl, rfl⟩ := Prod.mk.inj h
    exact .inl ⟨rfl, hfull, rfl⟩
  · rename_i hroom
    obtain ⟨rfl, rfl⟩ := Prod.mk.inj h
    exact .inr ⟨rfl, Nat.lt_of_not_le hroom, rfl⟩

theorem takeToken_cases {tokens after : Tokens κ υ} {now : Time} {key : κ}
    {result : Option (HlsResourceToken υ)} (h : takeToken tokens now key = (after, result)) :
    (result = none ∧ (after = tokens ∨ after = tokens.filter fun entry => entry.1 ≠ key)) ∨
    ∃ resource, (key, resource) ∈ tokens ∧ now < resource.expiresAt ∧
      0 < resource.remainingRequests ∧
      result = some { resource with remainingRequests := resource.remainingRequests - 1 } ∧
      after = tokens.put key { resource with
        remainingRequests := resource.remainingRequests - 1 } ∧
      after.length ≤ tokens.length := by
  unfold takeToken at h
  cases hget : tokens.get key with
  | none =>
    rw [hget] at h
    obtain ⟨rfl, rfl⟩ := Prod.mk.inj h
    exact .inl ⟨rfl, .inl rfl⟩
  | some resource =>
    simp only [hget] at h
    split at h
    · obtain ⟨rfl, rfl⟩ := Prod.mk.inj h
      exact .inl ⟨rfl, .inr rfl⟩
    · rename_i hleft
      obtain ⟨rfl, rfl⟩ := Prod.mk.inj h
      refine .inr ⟨resource, Tokens.mem_of_get hget, Nat.lt_of_not_le (not_or.mp hleft).1,
        Nat.pos_of_ne_zero (not_or.mp hleft).2, rfl, rfl, ?_⟩
      exact Tokens.length_put_le (by simp [hget])

/-- A full table has nothing to remove, so an insertion that fails leaves it as it is. -/
theorem insertToken_fails {config : HlsBrokerConfig} {tokens after : Tokens κ υ} {reads : κ → Time}
    {now : Time} {key : κ} {url : υ} {kind : HlsResourceKind}
    (hsize : tokens.length ≤ config.maxTokens)
    (h : insertToken config tokens reads now key url kind = (after, false)) : after = tokens := by
  rcases insertToken_cases h with ⟨-, hfull, rfl⟩ | ⟨hstored, -⟩
  · have hlength : (tokens.filter (isAlive reads)).length = tokens.length :=
      Nat.le_antisymm (List.length_filter_le _ _) (Nat.le_trans hsize hfull)
    exact List.filter_eq_self.mpr (List.length_filter_eq_length_iff.mp hlength)
  · cases hstored

end Store

/-! ## Runs -/

/-- What happens to tokens, in order. -/
inductive TokenEvent (κ : Type) where
  | inserted (token : String) (now : Time)
  | evicted (key : κ)
  | honoured (token : String) (now : Time)
  deriving DecidableEq, Repr

def TokenEvent.isHonour {κ : Type} (token : String) : TokenEvent κ → Bool
  | .honoured other _ => other = token
  | .inserted .. | .evicted _ => false

def TokenEvent.isInsertion {κ : Type} (token : String) : TokenEvent κ → Bool
  | .inserted other _ => other = token
  | .honoured .. | .evicted _ => false

/-- The table, the time of the last reading of the clock, and the events. -/
structure TokenStore (κ υ : Type) where
  tokens : Tokens κ υ := []
  now : Time := 0
  history : List (TokenEvent κ) := []

inductive TokenOp (κ υ : Type) where
  | insert (token : String) (url : υ) (kind : HlsResourceKind) (reads : κ → Time) (now : Time)
  | take (token : String) (now : Time)

def TokenOp.token {κ υ : Type} : TokenOp κ υ → String
  | .insert token .. => token
  | .take token _ => token

section Runs

variable {κ υ : Type} [DecidableEq κ]

/-- The removal of the keys that are gone. -/
def evictions (before after : Tokens κ υ) : List (TokenEvent κ) :=
  (before.filter fun entry => decide (entry.1 ∉ after.map Prod.fst)).map fun entry =>
    .evicted entry.1

def TokenStore.step (config : HlsBrokerConfig) (digest : String → κ) (s : TokenStore κ υ) :
    TokenOp κ υ → Option (TokenStore κ υ)
  | .insert token url kind reads now => do
    -- The clock does not go back, within the call and since the last one.
    guard (s.now ≤ now ∧ ∀ entry ∈ s.tokens, s.now ≤ reads entry.1 ∧ reads entry.1 ≤ now)
    let (tokens, stored) := insertToken config s.tokens reads now (digest token) url kind
    return {
      tokens
      now
      history := s.history ++ evictions s.tokens tokens ++
        if stored then [.inserted token now] else [] }
  | .take token now => do
    guard (s.now ≤ now)
    let (tokens, resource) := takeToken s.tokens now (digest token)
    return {
      tokens
      now
      history := s.history ++ evictions s.tokens tokens ++
        if resource.isSome then [.honoured token now] else [] }

/-- From an empty table. -/
def tokenMachine (υ : Type) (config : HlsBrokerConfig) (digest : String → κ) :
    Machine (TokenStore κ υ) (TokenOp κ υ) where
  start := {}
  step := TokenStore.step config digest

/-- No two tokens of the run have one digest. -/
def CollisionFree (digest : String → κ) (s : TokenStore κ υ) (op : TokenOp κ υ) : Prop :=
  ∀ token now, .inserted token now ∈ s.history → digest token = digest op.token → token = op.token

end Runs

/-! ## The specification of a token -/

/-- When an inserted token expires, and how often it has been honoured since. -/
structure Standing where
  expiresAt : Time
  honoured : Nat
  deriving DecidableEq, Repr

section Standing

variable {κ : Type} [DecidableEq κ] (config : HlsBrokerConfig) (digest : String → κ)
  (token : String)

/-- A token stands from its insertion until it is evicted. -/
def Standing.next (standing : Option Standing) : TokenEvent κ → Option Standing
  | .inserted other now => if other = token then some ⟨now + config.tokenTtl, 0⟩ else standing
  | .evicted key => if digest token = key then none else standing
  | .honoured other _ =>
    if other = token then standing.map fun old => { old with honoured := old.honoured + 1 }
    else standing

def standing (history : List (TokenEvent κ)) : Option Standing :=
  history.foldl (Standing.next config digest token) none

/-- A token is honoured only while it stands, before it expires and as long as it has requests. -/
def Deserved (before : List (TokenEvent κ)) (event : TokenEvent κ) (_ : List (TokenEvent κ)) :
    Prop :=
  ∀ token now, event = .honoured token now →
    ∃ old, standing config digest token before = some old ∧ now < old.expiresAt ∧
      old.honoured < config.maxRequestsPerToken

/-- How often the token has been honoured. -/
def honours (history : List (TokenEvent κ)) : Nat := history.countP (TokenEvent.isHonour token)

/-- How often the token has been inserted. -/
def insertions (history : List (TokenEvent κ)) : Nat :=
  history.countP (TokenEvent.isInsertion token)

variable {config digest token}

theorem standing_append (history more : List (TokenEvent κ)) :
    standing config digest token (history ++ more) =
      more.foldl (Standing.next config digest token) (standing config digest token history) :=
  List.foldl_append

/-- The other keys that go do not matter to a token. -/
theorem standing_evictions {υ : Type} {history : List (TokenEvent κ)} {before after : Tokens κ υ}
    (h : digest token ∈ after.map Prod.fst) :
    standing config digest token (history ++ evictions before after) =
      standing config digest token history := by
  rw [standing_append]
  have hkept : ∀ event ∈ evictions before after, ∀ old,
      Standing.next config digest token old event = old := by
    intro event hevent old
    obtain ⟨entry, hentry, rfl⟩ := List.mem_map.mp hevent
    have hgone := of_decide_eq_true (List.mem_filter.mp hentry).2
    have hne : digest token ≠ entry.1 := fun heq => hgone (heq ▸ h)
    exact if_neg hne
  generalize evictions before after = events at hkept
  induction events with
  | nil => rfl
  | cons event rest ih =>
    rw [List.foldl_cons, hkept event List.mem_cons_self]
    exact ih fun event hevent => hkept event (List.mem_cons_of_mem _ hevent)

/-- The requests of a token are used up insertion by insertion. -/
theorem honours_le (history : List (TokenEvent κ))
    (h : History.Follows (Deserved config digest) [] history) :
    honours token history ≤ config.maxRequestsPerToken * insertions token history ∧
    ∀ old, standing config digest token history = some old →
      honours token history + config.maxRequestsPerToken ≤
        config.maxRequestsPerToken * insertions token history + old.honoured := by
  induction history using List.reverseRecOn with
  | nil => simp [honours, insertions, standing]
  | append_singleton history event ih =>
    have hbefore : History.Follows (Deserved config digest) [] history := by
      intro before x after heq
      exact h before x (after ++ [event]) (by simp [heq])
    obtain ⟨htotal, hsince⟩ := ih hbefore
    have hevent : Deserved config digest history event [] := h history event [] rfl
    simp only [honours, insertions, List.countP_append, List.countP_cons, List.countP_nil,
      standing_append, List.foldl_cons, List.foldl_nil] at htotal hsince ⊢
    cases event with
    | inserted other now =>
      by_cases hother : other = token
      · simp only [TokenEvent.isHonour, TokenEvent.isInsertion, Standing.next, hother, decide_true,
          if_true, Bool.false_eq_true, if_false, Nat.zero_add, Nat.add_zero, Option.some.injEq,
          Nat.mul_add]
        refine ⟨by omega, ?_⟩
        rintro _ rfl
        simp only
        omega
      · simpa [TokenEvent.isHonour, TokenEvent.isInsertion, Standing.next, hother] using
          ⟨htotal, hsince⟩
    | evicted key =>
      simp only [TokenEvent.isHonour, TokenEvent.isInsertion, Standing.next]
      refine ⟨by simpa using htotal, ?_⟩
      intro old hold
      split at hold
      · cases hold
      · simpa using hsince old hold
    | honoured other now =>
      by_cases hother : other = token
      · obtain ⟨last, hlast, -, hleft⟩ := hevent token now (by rw [hother])
        have hcount := hsince last hlast
        simp only [TokenEvent.isHonour, TokenEvent.isInsertion, Standing.next, hother, decide_true,
          if_true, Bool.false_eq_true, if_false, Nat.zero_add, Nat.add_zero, hlast, Option.map_some,
          Option.some.injEq]
        refine ⟨by omega, ?_⟩
        rintro _ rfl
        simp only
        omega
      · simpa [TokenEvent.isHonour, TokenEvent.isInsertion, Standing.next, hother] using
          ⟨htotal, hsince⟩

end Standing

/-! ## The invariant -/

section Invariant

variable {κ υ : Type} [DecidableEq κ] {config : HlsBrokerConfig} {digest : String → κ}

/-- What the table has left for a token agrees with the history. -/
structure Accounted (config : HlsBrokerConfig) (digest : String → κ)
    (history : List (TokenEvent κ)) (entry : κ × HlsResourceToken υ) (token : String) : Prop where
  key : digest token = entry.1
  inserted : ∃ now, .inserted token now ∈ history
  standing : ∃ old, standing config digest token history = some old ∧
    old.expiresAt = entry.2.expiresAt ∧
    old.honoured + entry.2.remainingRequests = config.maxRequestsPerToken

structure StoreOk (config : HlsBrokerConfig) (digest : String → κ) (s : TokenStore κ υ) : Prop where
  size : s.tokens.length ≤ config.maxTokens
  entries : ∀ entry ∈ s.tokens, ∃ token, Accounted config digest s.history entry token
  deserved : History.Follows (Deserved config digest) [] s.history

theorem Accounted.evictions {history : List (TokenEvent κ)} {entry : κ × HlsResourceToken υ}
    {token : String} {before after : Tokens κ υ} (h : Accounted config digest history entry token)
    (hentry : entry.1 ∈ after.map Prod.fst) :
    Accounted config digest (history ++ evictions before after) entry token := by
  obtain ⟨now, hinserted⟩ := h.inserted
  refine ⟨h.key, ⟨now, List.mem_append_left _ hinserted⟩, ?_⟩
  rw [standing_evictions (h.key ▸ hentry)]
  exact h.standing

/-- Events of another token change nothing. -/
theorem Accounted.other {history : List (TokenEvent κ)} {entry : κ × HlsResourceToken υ}
    {token : String} {event : TokenEvent κ} (h : Accounted config digest history entry token)
    (hother : ∀ old, Standing.next config digest token old event = old) :
    Accounted config digest (history ++ [event]) entry token := by
  obtain ⟨now, hinserted⟩ := h.inserted
  refine ⟨h.key, ⟨now, List.mem_append_left _ hinserted⟩, ?_⟩
  rw [standing_append, List.foldl_cons, List.foldl_nil, hother]
  exact h.standing

theorem deserved_mono (before : List (TokenEvent κ)) (event : TokenEvent κ)
    (after more : List (TokenEvent κ)) (h : Deserved config digest before event after) :
    Deserved config digest before event (after ++ more) := h

/-- Events that honour no token need nothing. -/
theorem deserved_of_none {past events : List (TokenEvent κ)}
    (h : ∀ token now, .honoured token now ∉ events) :
    History.Follows (Deserved config digest) past events := by
  intro before event after heq token now hevent
  subst heq hevent
  exact absurd (by simp) (h token now)

theorem honoured_notMem_evictions (before after : Tokens κ υ) (token : String) (now : Time) :
    .honoured token now ∉ evictions before after := by
  intro h
  obtain ⟨entry, -, hentry⟩ := List.mem_map.mp h
  cases hentry

theorem StoreOk.evict {s : TokenStore κ υ} (h : StoreOk config digest s) {after : Tokens κ υ}
    (hsub : ∀ entry ∈ after, entry ∈ s.tokens) (hsize : after.length ≤ config.maxTokens)
    (now : Time) :
    StoreOk config digest ⟨after, now, s.history ++ evictions s.tokens after⟩ := by
  refine ⟨hsize, fun entry hentry => ?_, ?_⟩
  · obtain ⟨token, htoken⟩ := h.entries entry (hsub entry hentry)
    exact ⟨token, htoken.evictions (List.mem_map_of_mem hentry)⟩
  · exact h.deserved.append deserved_mono (deserved_of_none (honoured_notMem_evictions _ _))

theorem storeOk_insert {s t : TokenStore κ υ} {token : String} {url : υ} {kind : HlsResourceKind}
    {reads : κ → Time} {now : Time} (h : StoreOk config digest s)
    (hstep : s.step config digest (.insert token url kind reads now) = some t) :
    StoreOk config digest t := by
  obtain ⟨_, -, hrest⟩ := Option.bind_eq_some_iff.mp hstep
  generalize hpair : insertToken config s.tokens reads now (digest token) url kind = pair at hrest
  obtain ⟨after, stored⟩ := pair
  obtain rfl := Option.some.inj hrest
  rcases insertToken_cases hpair with ⟨rfl, -, rfl⟩ | ⟨rfl, hroom, rfl⟩
  · have hless := Nat.le_trans (List.length_filter_le (isAlive reads) _) h.size
    simpa using h.evict (fun entry hentry => (List.mem_filter.mp hentry).1) hless now
  · refine ⟨?_, fun entry hentry => ?_, ?_⟩
    · exact Nat.lt_of_le_of_lt (List.length_filter_le _ _) hroom
    · rcases Tokens.mem_put.mp hentry with rfl | ⟨hold, hkey⟩
      · refine ⟨token, rfl, ⟨now, by simp⟩, ⟨now + config.tokenTtl, 0⟩, ?_, rfl, Nat.zero_add _⟩
        simp [standing_append, Standing.next]
      · obtain ⟨other, hother⟩ := h.entries entry (List.mem_filter.mp hold).1
        refine ⟨other, (hother.evictions (List.mem_map_of_mem hentry)).other fun old => ?_⟩
        have hne : token ≠ other := by
          rintro rfl
          exact hkey hother.key.symm
        exact if_neg hne
    · simp only [List.append_assoc, if_true]
      refine h.deserved.append deserved_mono (deserved_of_none fun other later hmem => ?_)
      rcases List.mem_append.mp hmem with hevicted | hlast
      · exact honoured_notMem_evictions _ _ _ _ hevicted
      · simp at hlast

theorem storeOk_take {s t : TokenStore κ υ} {token : String} {now : Time}
    (h : StoreOk config digest s) (hfree : CollisionFree digest s (.take token now))
    (hstep : s.step config digest (.take token now) = some t) : StoreOk config digest t := by
  obtain ⟨_, -, hrest⟩ := Option.bind_eq_some_iff.mp hstep
  generalize hpair : takeToken s.tokens now (digest token) = pair at hrest
  obtain ⟨after, result⟩ := pair
  obtain rfl := Option.some.inj hrest
  rcases takeToken_cases hpair with ⟨rfl, hafter⟩ | ⟨resource, hmem, hexpiry, hleft, rfl, rfl, hsize⟩
  · have hsub : ∀ entry ∈ after, entry ∈ s.tokens := by
      rcases hafter with rfl | rfl
      · exact fun entry hentry => hentry
      · exact fun entry hentry => (List.mem_filter.mp hentry).1
    have hless : after.length ≤ s.tokens.length := by
      rcases hafter with rfl | rfl
      · exact Nat.le_refl _
      · exact List.length_filter_le _ _
    simpa using h.evict hsub (Nat.le_trans hless h.size) now
  · -- The entry that is found is this token's, for no other has its digest.
    obtain ⟨owner, howner⟩ := h.entries _ hmem
    obtain ⟨since, hsince⟩ := howner.inserted
    obtain rfl : owner = token := hfree owner since hsince howner.key
    obtain ⟨old, hold, hexpires, hcount⟩ := howner.standing
    simp only at hcount
    have hkept : ∀ history : List (TokenEvent κ),
        standing config digest owner (history ++ evictions s.tokens
          (s.tokens.put (digest owner) { resource with
            remainingRequests := resource.remainingRequests - 1 })) =
          standing config digest owner history := by
      intro history
      exact standing_evictions (List.mem_map.mpr ⟨_, Tokens.mem_put.mpr (.inl rfl), rfl⟩)
    refine ⟨Nat.le_trans hsize h.size, fun entry hentry => ?_, ?_⟩
    · rcases Tokens.mem_put.mp hentry with rfl | ⟨hother, hkey⟩
      · refine ⟨owner, rfl, ⟨since, by simp [hsince]⟩,
          ⟨old.expiresAt, old.honoured + 1⟩, ?_, hexpires, ?_⟩
        · simp only [Option.isSome_some, if_true]
          rw [standing_append, hkept, hold]
          simp [Standing.next]
        · simp only
          omega
      · obtain ⟨other, haccount⟩ := h.entries entry hother
        refine ⟨other, (haccount.evictions (List.mem_map_of_mem hentry)).other fun old => ?_⟩
        have hne : owner ≠ other := by
          rintro rfl
          exact hkey haccount.key.symm
        exact if_neg hne
    · simp only [Option.isSome_some, if_true]
      refine (h.deserved.append deserved_mono
        (deserved_of_none (honoured_notMem_evictions _ _))).append deserved_mono ?_
      refine History.follows_cons ?_ (History.follows_nil _)
      rintro _ _ ⟨rfl, rfl⟩
      rw [List.nil_append, hkept]
      exact ⟨old, hold, hexpires ▸ hexpiry, by omega⟩

theorem storeOk_of_reachable {s : TokenStore κ υ}
    (h : (tokenMachine υ config digest).ReachableWhere (CollisionFree digest) s) :
    StoreOk config digest s := by
  refine h.invariant ?_ ?_
  · exact ⟨Nat.zero_le _, by simp [tokenMachine], History.follows_nil _⟩
  · intro before op after hbefore hfree hstep
    cases op with
    | insert token url kind reads now => exact storeOk_insert hbefore hstep
    | take token now => exact storeOk_take hbefore hfree hstep

end Invariant

/-- In every run: the table stays within its limit, a token is honoured at most the maximum number
of times for each of its insertions, and only after an insertion, before it expires and while it has
not been evicted; an insertion that fails leaves the table as it is. -/
theorem token_store_sound {κ υ : Type} [DecidableEq κ] (config : HlsBrokerConfig)
    (digest : String → κ) (s : TokenStore κ υ)
    (h : (tokenMachine υ config digest).ReachableWhere (CollisionFree digest) s) :
    s.tokens.length ≤ config.maxTokens ∧
    (∀ token, honours token s.history ≤
      config.maxRequestsPerToken * insertions token s.history) ∧
    (∀ before token now after, s.history = before ++ .honoured token now :: after →
      ∃ old, standing config digest token before = some old ∧ now < old.expiresAt ∧
        old.honoured < config.maxRequestsPerToken) ∧
    (∀ reads now token url kind after,
      insertToken config s.tokens reads now (digest token) url kind = (after, false) →
      after = s.tokens) := by
  have hok := storeOk_of_reachable h
  refine ⟨hok.size, fun token => (honours_le s.history hok.deserved).1, ?_, ?_⟩
  · intro before token now after hsplit
    exact hok.deserved before _ after hsplit token now rfl
  · intro reads now token url kind after hfails
    exact insertToken_fails hok.size hfails

section Example

/-- One request for each token. -/
def singleUse : HlsBrokerConfig where
  tokenTtl := 30
  maxRequestsPerToken := 1
  maxResponseBytes := 1024
  maxUriBytes := 128
  maxTokens := 8

/-- A token is inserted, taken, and both again. -/
def reinsertion : List (TokenOp String Unit) :=
  [.insert "a" () .binary (fun _ => 1) 1, .take "a" 2, .insert "a" () .binary (fun _ => 3) 3,
    .take "a" 4]

/-- The condition, evaluated for a digest that is the token itself. -/
theorem collisionFree_id (s : TokenStore String Unit) (op : TokenOp String Unit) :
    CollisionFree id s op := by
  intro token now _ heq
  exact heq

/-- A second insertion renews a token that has been used up. -/
theorem reinserted_token_honoured_twice :
    ∃ s, (tokenMachine Unit singleUse id).ReachableWhere (CollisionFree id) s ∧
      singleUse.maxRequestsPerToken < honours "a" s.history := by
  obtain ⟨s, hs, hp⟩ := (tokenMachine Unit singleUse id).exists_reachableWhere_of_run
    (CollisionFree id) (fun _ _ => true) reinsertion
    (fun s => decide (singleUse.maxRequestsPerToken < honours "a" s.history))
    (fun s op _ _ => collisionFree_id s op) (by decide +kernel)
  exact ⟨s, hs, of_decide_eq_true hp⟩

/-- The same run is within the limits of two insertions. -/
theorem token_store_sound_reinsertion :
    ∃ s, (tokenMachine Unit singleUse id).ReachableWhere (CollisionFree id) s ∧
      s.tokens.length ≤ 8 ∧ honours "a" s.history = 2 ∧
      honours "a" s.history ≤ 1 * insertions "a" s.history := by
  obtain ⟨s, hs, hp⟩ := (tokenMachine Unit singleUse id).exists_reachableWhere_of_run
    (CollisionFree id) (fun _ _ => true) reinsertion
    (fun s => decide (honours "a" s.history = 2))
    (fun s op _ _ => collisionFree_id s op) (by decide +kernel)
  have hsound := token_store_sound singleUse id s hs
  exact ⟨s, hs, hsound.1, of_decide_eq_true hp, hsound.2.1 "a"⟩

end Example

end IptvRelay.Credential
