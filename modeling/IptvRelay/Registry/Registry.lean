import IptvRelay.Lib.Machine

/-!
# The shared session registry

Model of `registry.rs` for one key, with any number of callers of
`get_or_try_init`. A step is one access to the map, to the state of an entry or
to its `Notify`; what a caller computes on its own belongs to the step before. A
session is named by the attempt that created it. The attempts themselves and
`waited` are recorded for the specification only.
-/

namespace IptvRelay.SingleFlight

open Transition

abbrev EntryId := Nat

abbrev AttemptId := Nat

abbrev Caller := Nat

variable {ε : Type}

inductive EntryState (ε : Type) where
  | starting
  | ready (session : AttemptId)
  | failed (error : ε)
  | cancelled

inductive Status (ε : Type) where
  | running
  | finished (result : Except ε AttemptId)
  | cancelled

/-- One run of an initializer. -/
structure Attempt (ε : Type) where
  entry : EntryId
  owner : Caller
  status : Status ε

/-- Where a caller is in `get_or_try_init`. A caller is registered with the `Notify` of its entry
at `check` and `parked`; `notified` records a call of `notify_waiters` since then. -/
inductive Phase (ε : Type) where
  | idle
  | register (entry : EntryId)
  | check (entry : EntryId) (notified : Bool)
  | parked (entry : EntryId) (notified : Bool)
  | initializing (entry : EntryId) (attempt : AttemptId)
  | notify (entry : EntryId) (ending : Option (Except ε AttemptId))
  | remove (entry : EntryId) (error : ε)
  | done (result : Except ε AttemptId)
  | gone
  | panicked

structure Registry (ε : Type) where
  /-- The entry of the key in the map. -/
  current : Option EntryId := none
  entries : EntryId → EntryState ε := fun _ => .cancelled
  allocated : Nat := 0
  /-- The newest attempt of an entry. -/
  attemptOf : EntryId → AttemptId := fun _ => 0
  attempts : AttemptId → Attempt ε := fun _ => { entry := 0, owner := 0, status := .cancelled }
  started : Nat := 0
  /-- The strong count of a session. -/
  strong : AttemptId → Nat := fun _ => 0
  phase : Caller → Phase ε := fun _ => .idle
  /-- The caller has consumed its initializer. -/
  taken : Caller → Bool := fun _ => false
  /-- The attempts a caller has waited on. -/
  waited : Caller → List AttemptId := fun _ => []
  /-- The entry that a running `prune` is about to remove; it locks the map. -/
  pruning : Option EntryId := none

namespace Registry

def goto (s : Registry ε) (c : Caller) (phase : Phase ε) : Registry ε :=
  { s with phase := Function.update s.phase c phase }

/-- The caller takes the role `Initialize` and consumes its initializer. -/
def begin (s : Registry ε) (c : Caller) (entry : EntryId) : Registry ε :=
  { s with
    entries := Function.update s.entries entry .starting
    attemptOf := Function.update s.attemptOf entry s.started
    attempts := Function.update s.attempts s.started { entry, owner := c, status := .running }
    started := s.started + 1
    taken := Function.update s.taken c true
    phase := Function.update s.phase c
      (if s.taken c then .panicked else .initializing entry s.started) }

/-- The first access to the map. -/
def enter (s : Registry ε) (c : Caller) : Option (Registry ε) :=
  match s.phase c, s.pruning, s.current with
  | .idle, none, some entry => some (s.goto c (.register entry))
  | .idle, none, none =>
    some (begin { s with current := some s.allocated, allocated := s.allocated + 1 } c s.allocated)
  | _, _, _ => none

/-- The state of an entry and the status of its attempt when the attempt ends. -/
def endState : Option (Except ε AttemptId) → EntryState ε
  | none => .cancelled
  | some (.ok session) => .ready session
  | some (.error error) => .failed error

def endStatus : Option (Except ε AttemptId) → Status ε
  | none => .cancelled
  | some result => .finished result

/-- The initializer has ended, or its guard cleans up; the state of the entry is written. -/
def conclude (s : Registry ε) (c : Caller) (entry : EntryId) (attempt : AttemptId)
    (ending : Option (Except ε AttemptId)) : Registry ε :=
  { s with
    entries := Function.update s.entries entry (endState ending)
    attempts := Function.update s.attempts attempt
      { s.attempts attempt with status := endStatus ending }
    strong := match ending with
      | some (.ok session) => Function.update s.strong session 1
      | _ => s.strong
    phase := Function.update s.phase c (.notify entry ending) }

/-- The future of the initializer is ready. -/
def complete (s : Registry ε) (c : Caller) (error : Option ε) : Option (Registry ε) :=
  match s.phase c with
  | .initializing entry attempt =>
    some (s.conclude c entry attempt (some (error.elim (.ok attempt) .error)))
  | _ => none

/-- The future of the caller is dropped at an await point; the guard runs. -/
def cancel (s : Registry ε) (c : Caller) : Option (Registry ε) :=
  match s.phase c with
  | .parked .. => some (s.goto c .gone)
  | .initializing entry attempt =>
    match s.entries entry with
    | .starting => some (s.conclude c entry attempt none)
    | _ => some (s.goto c .gone)
  | _ => none

/-- What a waiting caller does under the mutex of its entry. -/
def inspect (s : Registry ε) (c : Caller) (entry : EntryId) (notified : Bool) : Registry ε :=
  match s.entries entry with
  | .starting =>
    { s with
      phase := Function.update s.phase c (.parked entry notified)
      waited := Function.update s.waited c (s.waited c ++ [s.attemptOf entry]) }
  | .ready session =>
    if 0 < s.strong session then
      { s with
        strong := Function.update s.strong session (s.strong session + 1)
        phase := Function.update s.phase c (.done (.ok session)) }
    else s.begin c entry
  | .failed error => s.goto c (.done (.error error))
  | .cancelled => s.begin c entry

/-- `notify_waiters` reaches the callers that are registered with the entry. -/
def wake (entry : EntryId) : Phase ε → Phase ε
  | .check other notified => .check other (notified || other == entry)
  | .parked other notified => .parked other (notified || other == entry)
  | phase => phase

/-- What a caller does after it has notified the waiters. -/
def afterNotify (entry : EntryId) : Option (Except ε AttemptId) → Phase ε
  | none => .gone
  | some (.ok session) => .done (.ok session)
  | some (.error error) => .remove entry error

def advance (s : Registry ε) (c : Caller) : Option (Registry ε) :=
  match s.phase c with
  | .register entry => some (s.goto c (.check entry false))
  | .check entry notified => some (s.inspect c entry notified)
  | .parked entry true => some (s.goto c (.register entry))
  | .notify entry ending =>
    some { s with
      phase := Function.update (fun other => wake entry (s.phase other)) c
        (afterNotify entry ending) }
  | .remove entry error =>
    if s.pruning = none then
      some { s with
        current := if s.current = some entry then none else s.current
        phase := Function.update s.phase c (.done (.error error)) }
    else none
  | _ => none

/-- The reference that the creator of a session owns until it returns. -/
def held (s : Registry ε) (session : AttemptId) : Nat :=
  match s.phase (s.attempts session).owner with
  | .notify _ (some (.ok created)) => if created = session then 1 else 0
  | _ => 0

/-- A returned session is cloned, or `get` upgrades it. -/
def cloneSession (s : Registry ε) (session : AttemptId) : Option (Registry ε) :=
  if 0 < s.strong session then
    some { s with strong := Function.update s.strong session (s.strong session + 1) }
  else none

def dropSession (s : Registry ε) (session : AttemptId) : Option (Registry ε) :=
  if s.held session < s.strong session then
    some { s with strong := Function.update s.strong session (s.strong session - 1) }
  else none

/-- The entries that `prune` keeps. -/
def keeps (s : Registry ε) (entry : EntryId) : Bool :=
  match s.entries entry with
  | .ready session => decide (0 < s.strong session)
  | .starting => true
  | .failed _ | .cancelled => false

/-- `prune` looks at the entry of the key, and unlocks it before it removes it. -/
def pruneDecide (s : Registry ε) : Option (Registry ε) :=
  match s.pruning, s.current with
  | none, some entry => if s.keeps entry then none else some { s with pruning := some entry }
  | _, _ => none

def pruneRemove (s : Registry ε) : Option (Registry ε) :=
  match s.pruning with
  | some _ => some { s with current := none, pruning := none }
  | none => none

end Registry

inductive RegistryOp (ε : Type) where
  | enter (c : Caller)
  | advance (c : Caller)
  | complete (c : Caller) (error : Option ε)
  | cancel (c : Caller)
  | cloneSession (session : AttemptId)
  | dropSession (session : AttemptId)
  | pruneDecide
  | pruneRemove

def Registry.step (s : Registry ε) : RegistryOp ε → Option (Registry ε)
  | .enter c => s.enter c
  | .advance c => s.advance c
  | .complete c error => s.complete c error
  | .cancel c => s.cancel c
  | .cloneSession session => s.cloneSession session
  | .dropSession session => s.dropSession session
  | .pruneDecide => s.pruneDecide
  | .pruneRemove => s.pruneRemove

/-- One key of an empty registry. -/
def registryMachine (ε : Type) : Machine (Registry ε) (RegistryOp ε) where
  start := {}
  step := Registry.step

/-! ## What single flight means -/

/-- The initializer of the caller is running. -/
def Registry.Initializes (s : Registry ε) (c : Caller) : Prop :=
  ∃ entry attempt, s.phase c = .initializing entry attempt

/-- The attempt has no result that a waiter could still get: it was cancelled, or all owners of
its session have dropped it. -/
def Registry.Void (s : Registry ε) (a : AttemptId) : Prop :=
  (s.attempts a).status = .cancelled ∨
    (s.attempts a).status = .finished (.ok a) ∧ s.strong a = 0

end IptvRelay.SingleFlight
