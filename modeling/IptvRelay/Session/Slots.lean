import IptvRelay.Broker.Pool
import Mathlib.Data.List.Rotate

/-!
# Provider slots of running sessions

Model of the provider side of `session.rs`: how `start_http_ts_session`,
`pump_http_ts` and `recover_session` take leases from the brokers of the pools
and open upstream bodies. A broker call is one step (`Pool.tryAcquire`). The
registry gives every key at most one session, so a key can start only while no
running session has it.
-/

namespace IptvRelay.Slots

open Transition Broker

/-! ## Keys and endpoints -/

structure HttpTsSessionKey where
  providerPoolId : String
  sourceId : String
  generation : Nat
  deriving DecidableEq, Repr

/-- The key that `format!` builds from a pool, a source and a generation. -/
def formatKey (poolId sourceId : String) (generation : Nat) : String :=
  poolId ++ "\x1f" ++ sourceId ++ "\x1f" ++ toString generation

def HttpTsSessionKey.allocationKey (self : HttpTsSessionKey) : String :=
  formatKey self.providerPoolId self.sourceId self.generation

structure HttpTsEndpoint where
  providerPoolId : Option String := none
  deriving DecidableEq, Repr

def HttpTsEndpoint.effectivePoolId (self : HttpTsEndpoint) (default : String) : String :=
  self.providerPoolId.getD default

/-! ## Sessions -/

structure SlotLease where
  poolId : String
  inner : LeaseRef
  deriving DecidableEq, Repr

/-- What a session holds. A body is open at `streaming` and at `priming`. -/
inductive Phase where
  | reserving
  | connecting (lease : SlotLease)
  | streaming (lease : SlotLease) (endpoint : Nat)
  | recovering (lease : SlotLease) (previous attempt : Nat)
  | requesting (lease : SlotLease) (candidate : Option SlotLease) (previous attempt : Nat)
  | priming (lease : SlotLease) (candidate : Option SlotLease) (previous attempt : Nat)
  | ended
  deriving DecidableEq, Repr

/-- A session with the pools of its endpoints, in the order that its start has chosen. -/
structure Session where
  key : HttpTsSessionKey
  endpoints : List String
  phase : Phase
  deriving DecidableEq, Repr

namespace Session

def leases (self : Session) : List SlotLease :=
  match self.phase with
  | .reserving | .ended => []
  | .connecting lease | .streaming lease _ | .recovering lease _ _ => [lease]
  | .requesting lease candidate _ _ | .priming lease candidate _ _ => lease :: candidate.toList

/-- The endpoint of a recovery attempt. -/
def recoveryIndex (self : Session) (previous attempt : Nat) : Nat :=
  let failoverOffset := if 1 < self.endpoints.length then 1 else 0
  (previous + failoverOffset + attempt) % self.endpoints.length

/-- The pool to which the session has an open body. -/
def openBody (self : Session) : Option String :=
  match self.phase with
  | .streaming _ endpoint => self.endpoints[endpoint]?
  | .priming _ _ previous attempt => self.endpoints[self.recoveryIndex previous attempt]?
  | _ => none

end Session

/-- The brokers, the running sessions, and the leases of callers outside of them
(`reserve_provider_slot`). -/
structure Manager where
  providers : String → Option Pool := fun _ => none
  sessions : List Session := []
  reserved : List SlotLease := []

namespace Manager

def holds (s : Manager) (lease : SlotLease) : Bool :=
  (s.sessions.any fun session => session.leases.contains lease) || s.reserved.contains lease

def alive (s : Manager) (poolId : String) (lease : LeaseRef) : Bool :=
  s.holds { poolId, inner := lease }

/-- Ask the broker of a pool; without the broker there is no lease. -/
def tryAcquire (s : Manager) (poolId sessionKey : String) :
    (String → Option Pool) × Option SlotLease :=
  match s.providers poolId with
  | none => (s.providers, none)
  | some pool =>
    let acquired := pool.tryAcquire poolId sessionKey (s.alive poolId)
    (Function.update s.providers poolId (some acquired.1),
      acquired.2.toOption.map fun lease => { poolId, inner := lease })

/-- `configure_provider`: add the pool or change its cap. -/
def configureProvider (s : Manager) (poolId : String) (maxConnections : Nat) : Manager :=
  { s with
    providers := Function.update s.providers poolId
      (some ((s.providers poolId).elim (.new poolId maxConnections) (·.setCapacity maxConnections))) }

/-- Select an unused ordered endpoint for a new session. -/
def rotate (s : Manager) (endpoints : List String) : List String :=
  let active := (endpoints.head?.bind s.providers).elim 0 fun pool =>
    pool.activeSessions (s.alive (endpoints.headD ""))
  if active < endpoints.length then endpoints.rotate active else endpoints

def set (s : Manager) (i : Nat) (session : Session) (phase : Phase) : Manager :=
  { s with sessions := s.sessions.set i { session with phase } }

/-- A new session; no running one has its key. -/
def start (s : Manager) (key : HttpTsSessionKey) (endpoints : List HttpTsEndpoint) :
    Option Manager :=
  if endpoints = [] ∨ s.sessions.any (fun other => other.key = key ∧ other.phase ≠ .ended) then none
  else
    let pools := s.rotate (endpoints.map (·.effectivePoolId key.providerPoolId))
    some { s with sessions := s.sessions ++ [{ key, endpoints := pools, phase := .reserving }] }

/-- The initial lease; `acquire_wait` may try again. -/
def reserve (s : Manager) (i : Nat) (session : Session) : Manager :=
  let acquired := s.tryAcquire (session.endpoints.headD "") session.key.allocationKey
  { s with providers := acquired.1 }.set i session (acquired.2.elim .reserving .connecting)

/-- `acquire_recovery_lease` for one attempt. -/
def attempt (s : Manager) (i : Nat) (session : Session) (lease : SlotLease)
    (previous attempt : Nat) : Manager :=
  let poolId := session.endpoints.getD (session.recoveryIndex previous attempt) ""
  if poolId = lease.poolId then s.set i session (.requesting lease none previous attempt)
  else
    let acquired := s.tryAcquire poolId
      (formatKey poolId session.key.sourceId session.key.generation)
    { s with providers := acquired.1 }.set i session
      (acquired.2.elim (.recovering lease previous (attempt + 1)) fun candidate =>
        .requesting lease (some candidate) previous attempt)

end Manager

inductive ManagerOp where
  | configureProvider (poolId : String) (maxConnections : Nat)
  | reserveSlot (poolId reservationKey : String)
  | releaseSlot (lease : SlotLease)
  | start (key : HttpTsSessionKey) (endpoints : List HttpTsEndpoint)
  /-- The session continues; `ok` is the outcome of the request or of priming. -/
  | advance (i : Nat) (ok : Bool)
  /-- The upstream fails while the session has viewers. -/
  | fail (i : Nat)
  /-- The session ends: start error, operator, last viewer, or expired recovery. -/
  | finish (i : Nat)

namespace Manager

def advance (s : Manager) (i : Nat) (session : Session) (ok : Bool) : Option Manager :=
  match session.phase with
  | .reserving => some (s.reserve i session)
  | .connecting lease => some (s.set i session (if ok then .streaming lease 0 else .ended))
  | .recovering lease previous attempt => some (s.attempt i session lease previous attempt)
  | .requesting lease candidate previous attempt =>
    some (s.set i session (if ok then .priming lease candidate previous attempt
      else .recovering lease previous (attempt + 1)))
  | .priming lease candidate previous attempt =>
    some (s.set i session (if ok then
        .streaming (candidate.getD lease) (session.recoveryIndex previous attempt)
      else .recovering lease previous (attempt + 1)))
  | .streaming .. | .ended => none

def step (s : Manager) : ManagerOp → Option Manager
  | .configureProvider poolId maxConnections => some (s.configureProvider poolId maxConnections)
  | .reserveSlot poolId reservationKey =>
    let acquired := s.tryAcquire poolId reservationKey
    some { s with providers := acquired.1, reserved := s.reserved ++ acquired.2.toList }
  | .releaseSlot lease => some { s with reserved := s.reserved.erase lease }
  | .start key endpoints => s.start key endpoints
  | .advance i ok => s.sessions[i]?.bind fun session => s.advance i session ok
  | .fail i => s.sessions[i]?.bind fun session =>
    match session.phase with
    | .streaming lease endpoint => some (s.set i session (.recovering lease endpoint 0))
    | _ => none
  | .finish i => s.sessions[i]?.map fun session => s.set i session .ended

end Manager

/-- The sessions with a body open to the pool. -/
def Manager.openBodies (s : Manager) (poolId : String) : List Nat :=
  (List.range s.sessions.length).filter fun i =>
    s.sessions[i]?.bind Session.openBody == some poolId

/-- The leases of the pool that somebody holds. -/
def Manager.liveLeases (s : Manager) (poolId : String) : List LeaseRef :=
  (s.providers poolId).elim [] fun pool =>
    (List.range pool.allocated).filter (s.alive poolId)

def managerMachine : Machine Manager ManagerOp where
  start := {}
  step := Manager.step

end IptvRelay.Slots
