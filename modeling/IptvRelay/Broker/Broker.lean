import IptvRelay.Lib.Machine
import Mathlib.Tactic

/-!
# The provider slot broker

Model of `broker.rs`. `World` is one broker together with every thread that uses
it. A step is one operation on a mutex or on a reference count: the calls and the
destructor `LeaseInner::drop` are frames on the stack of their thread, and each
frame remembers where in its body it is. The order in which `retain` visits the
hash map is a choice of the scheduler.
-/

namespace IptvRelay.Broker

open Transition

/-! ## The state under the mutex -/

/-- The address of a lease allocation. Allocations are numbered in the order of their creation. -/
abbrev LeaseRef := Nat

abbrev Tid := Nat

structure LeaseInner where
  poolId : String
  sessionKey : String
  leaseId : Nat
  deriving DecidableEq, Repr

inductive AcquireError where
  | atCapacity (poolId : String) (capacity activeSessions : Nat)
  | leaseIdExhausted
  deriving DecidableEq, Repr

structure PoolSnapshot where
  poolId : String
  capacity : Nat
  activeSessions : Nat
  highWatermark : Nat
  availableSlots : Nat
  deriving DecidableEq, Repr

/-- The weak reference of a session is the address of its lease; it may be dead. -/
structure BrokerState where
  capacity : Nat
  highWatermark : Nat := 0
  nextLeaseId : Nat := 1
  sessions : List (String × LeaseRef) := []
  deriving DecidableEq, Repr

namespace BrokerState

def get (self : BrokerState) (sessionKey : String) : Option LeaseRef :=
  self.sessions.lookup sessionKey

def remove (self : BrokerState) (sessionKey : String) : BrokerState :=
  { self with sessions := self.sessions.filter fun entry => entry.1 ≠ sessionKey }

/-- What `retain` does to an entry that it rejects. -/
def forget (self : BrokerState) (entry : String × LeaseRef) : BrokerState :=
  { self with sessions := self.sessions.filter fun other => other ≠ entry }

/-- The end of `try_acquire`: the capacity check, the next identifier and the insertion. -/
def reserve (self : BrokerState) (poolId sessionKey : String) (lease : LeaseRef) :
    BrokerState × Except AcquireError LeaseInner :=
  if self.capacity ≤ self.sessions.length then
    (self, .error (.atCapacity poolId self.capacity self.sessions.length))
  else if self.nextLeaseId + 1 < 2 ^ 64 then
    let sessions := (sessionKey, lease) :: (self.remove sessionKey).sessions
    ({ capacity := self.capacity
       highWatermark := max self.highWatermark sessions.length
       nextLeaseId := self.nextLeaseId + 1
       sessions },
      .ok { poolId, sessionKey, leaseId := self.nextLeaseId })
  else (self, .error .leaseIdExhausted)

def snapshot (self : BrokerState) (poolId : String) : PoolSnapshot where
  poolId := poolId
  capacity := self.capacity
  activeSessions := self.sessions.length
  highWatermark := self.highWatermark
  availableSlots := self.capacity - self.sessions.length

end BrokerState

/-! ## Threads -/

inductive AcquirePc where
  | lock
  | retain (rest : List (String × LeaseRef))
  | lookup
  | reserve
  | unlock (result : Except AcquireError LeaseRef)

inductive SnapshotPc where
  | lock
  | retain (rest : List (String × LeaseRef))
  | unlock (result : PoolSnapshot)

inductive CapacityPc where
  | lock
  | write
  | unlock

/-- The body of `LeaseInner::drop`. At `release` the thread owns the temporary reference that
`Weak::upgrade` has returned. -/
inductive DropPc where
  | upgrade
  | lock
  | check
  | release (current : LeaseRef)
  | remove
  | unlock
  | notify
  deriving DecidableEq

inductive Frame where
  | acquire (sessionKey : String) (pc : AcquirePc)
  | snapshot (pc : SnapshotPc)
  | setCapacity (capacity : Nat) (pc : CapacityPc)
  | leaseDrop (self : LeaseInner) (pc : DropPc)

structure World where
  poolId : String
  state : BrokerState
  /-- The lease allocations; only those below `allocated` exist. -/
  heap : LeaseRef → LeaseInner
  allocated : Nat := 0
  /-- The strong count of each lease. -/
  strong : LeaseRef → Nat := fun _ => 0
  /-- The `SlotLease` handles outside the broker; a handle may move between threads. -/
  handles : LeaseRef → Nat := fun _ => 0
  brokerStrong : Nat := 1
  brokerHandles : Nat := 1
  lock : Option Tid := none
  threads : Tid → List Frame := fun _ => []

namespace World

/-- Take the mutex, which is not reentrant. -/
def takeLock (s : World) (tid : Tid) : Option World :=
  if s.lock = none then some { s with lock := some tid } else none

/-- A successful `Weak::upgrade`, or a clone. -/
def retainRef (s : World) (lease : LeaseRef) : World :=
  { s with strong := Function.update s.strong lease (s.strong lease + 1) }

def releaseRef (s : World) (lease : LeaseRef) : World :=
  { s with strong := Function.update s.strong lease (s.strong lease - 1) }

/-- The destructor that follows when the last strong reference is released. -/
def destructor (s : World) (lease : LeaseRef) : List Frame :=
  if s.strong lease = 1 then [.leaseDrop (s.heap lease) .upgrade] else []

/-- One decision of `retain`. -/
def examine (s : World) (entry : String × LeaseRef) : World :=
  if 0 < s.strong entry.2 then s else { s with state := s.state.forget entry }

def allocate (s : World) (state : BrokerState) (lease : LeaseInner) : World :=
  { s with
    state
    heap := Function.update s.heap s.allocated lease
    allocated := s.allocated + 1
    strong := Function.update s.strong s.allocated 1 }

/-- The caller of `try_acquire` becomes the owner of the returned reference. -/
def handOver (s : World) : Except AcquireError LeaseRef → World
  | .ok lease => { s with handles := Function.update s.handles lease (s.handles lease + 1) }
  | .error _ => s

/-- The next operation of the running frame, and the frames that replace it. -/
def exec (s : World) (tid : Tid) (choice : Nat) : Frame → Option (World × List Frame)
  | .acquire key .lock =>
    (s.takeLock tid).map fun t => (t, [.acquire key (.retain s.state.sessions)])
  | .acquire key (.retain []) => some (s, [.acquire key .lookup])
  | .acquire key (.retain rest) => rest[choice]?.map fun entry =>
    (s.examine entry, [.acquire key (.retain (rest.eraseIdx choice))])
  | .acquire key .lookup =>
    match s.state.get key with
    | none => some (s, [.acquire key .reserve])
    | some lease =>
      if 0 < s.strong lease then
        some (s.retainRef lease, [.acquire key (.unlock (.ok lease))])
      else some ({ s with state := s.state.remove key }, [.acquire key .reserve])
  | .acquire key .reserve =>
    match s.state.reserve s.poolId key s.allocated with
    | (state, .ok lease) =>
      some (s.allocate state lease, [.acquire key (.unlock (.ok s.allocated))])
    | (state, .error error) => some ({ s with state }, [.acquire key (.unlock (.error error))])
  | .acquire _ (.unlock result) =>
    some ({ s.handOver result with lock := none, brokerStrong := s.brokerStrong - 1 }, [])
  | .snapshot .lock =>
    (s.takeLock tid).map fun t => (t, [.snapshot (.retain s.state.sessions)])
  | .snapshot (.retain []) => some (s, [.snapshot (.unlock (s.state.snapshot s.poolId))])
  | .snapshot (.retain rest) => rest[choice]?.map fun entry =>
    (s.examine entry, [.snapshot (.retain (rest.eraseIdx choice))])
  | .snapshot (.unlock _) =>
    some ({ s with lock := none, brokerStrong := s.brokerStrong - 1 }, [])
  | .setCapacity capacity .lock =>
    (s.takeLock tid).map fun t => (t, [.setCapacity capacity .write])
  | .setCapacity capacity .write =>
    some ({ s with state := { s.state with capacity } }, [.setCapacity capacity .unlock])
  | .setCapacity _ .unlock =>
    some ({ s with lock := none, brokerStrong := s.brokerStrong - 1 }, [])
  | .leaseDrop self .upgrade =>
    if 0 < s.brokerStrong then
      some ({ s with brokerStrong := s.brokerStrong + 1 }, [.leaseDrop self .lock])
    else some (s, [])
  | .leaseDrop self .lock => (s.takeLock tid).map fun t => (t, [.leaseDrop self .check])
  | .leaseDrop self .check =>
    match s.state.get self.sessionKey with
    | none => some (s, [.leaseDrop self .unlock])
    | some current =>
      if 0 < s.strong current then
        some (s.retainRef current, [.leaseDrop self (.release current)])
      else some (s, [.leaseDrop self .remove])
  | .leaseDrop self (.release current) =>
    -- The destructor of the temporary runs on this thread, before the mutex is released.
    some (s.releaseRef current, s.destructor current ++ [.leaseDrop self .unlock])
  | .leaseDrop self .remove =>
    some ({ s with state := s.state.remove self.sessionKey }, [.leaseDrop self .unlock])
  | .leaseDrop self .unlock => some ({ s with lock := none }, [.leaseDrop self .notify])
  | .leaseDrop _ .notify => some ({ s with brokerStrong := s.brokerStrong - 1 }, [])

def advance (s : World) (tid : Tid) (choice : Nat) : Option World :=
  match s.threads tid with
  | [] => none
  | frame :: rest => (s.exec tid choice frame).map fun (t, frames) =>
    { t with threads := Function.update s.threads tid (frames ++ rest) }

/-- An idle thread calls a method of the broker. The call borrows a handle of the broker. -/
def call (s : World) (tid : Tid) (frame : Frame) : Option World :=
  if s.threads tid = [] ∧ 0 < s.brokerHandles then
    some { s with
      brokerStrong := s.brokerStrong + 1
      threads := Function.update s.threads tid [frame] }
  else none

/-- An idle thread drops a `SlotLease`; the last one starts the destructor. -/
def dropLease (s : World) (tid : Tid) (lease : LeaseRef) : Option World :=
  if s.threads tid = [] ∧ 0 < s.handles lease then
    some { s with
      strong := (s.releaseRef lease).strong
      handles := Function.update s.handles lease (s.handles lease - 1)
      threads := Function.update s.threads tid (s.destructor lease) }
  else none

def cloneLease (s : World) (lease : LeaseRef) : Option World :=
  if 0 < s.handles lease then
    some { s with
      strong := (s.retainRef lease).strong
      handles := Function.update s.handles lease (s.handles lease + 1) }
  else none

def cloneBroker (s : World) : Option World :=
  if 0 < s.brokerHandles then
    some { s with brokerStrong := s.brokerStrong + 1, brokerHandles := s.brokerHandles + 1 }
  else none

def dropBroker (s : World) : Option World :=
  if 0 < s.brokerHandles then
    some { s with brokerStrong := s.brokerStrong - 1, brokerHandles := s.brokerHandles - 1 }
  else none

end World

inductive BrokerOp where
  | tryAcquire (tid : Tid) (sessionKey : String)
  | snapshot (tid : Tid)
  | setCapacity (tid : Tid) (capacity : Nat)
  | cloneLease (lease : LeaseRef)
  | dropLease (tid : Tid) (lease : LeaseRef)
  | cloneBroker
  | dropBroker
  | advance (tid : Tid) (choice : Nat)

namespace World

def step (s : World) : BrokerOp → Option World
  | .tryAcquire tid sessionKey => s.call tid (.acquire sessionKey .lock)
  | .snapshot tid => s.call tid (.snapshot .lock)
  | .setCapacity tid capacity => s.call tid (.setCapacity capacity .lock)
  | .cloneLease lease => s.cloneLease lease
  | .dropLease tid lease => s.dropLease tid lease
  | .cloneBroker => s.cloneBroker
  | .dropBroker => s.dropBroker
  | .advance tid choice => s.advance tid choice

end World

/-- A new broker and all the threads that may use it. -/
def brokerMachine (poolId : String) (capacity : Nat) : Machine World BrokerOp where
  start :=
    { poolId, state := { capacity }, heap := fun _ => { poolId, sessionKey := "", leaseId := 0 } }
  step := World.step

/-- The leases that still have an owner. -/
def World.liveLeases (s : World) : List LeaseRef :=
  (List.range s.allocated).filter fun lease => 0 < s.strong lease

/-- The frame is at the point where it locks the mutex. -/
def Frame.wantsLock : Frame → Bool
  | .acquire _ .lock | .snapshot .lock | .setCapacity _ .lock | .leaseDrop _ .lock => true
  | _ => false

/-- The thread locks the mutex although it holds it. -/
def World.RequestsHeldLock (s : World) (tid : Tid) : Prop :=
  s.lock = some tid ∧ ∃ frame rest, s.threads tid = frame :: rest ∧ frame.wantsLock = true

/-- The thread is about to release the last reference of a lease that it has upgraded under the
mutex. -/
def World.ReleasesLast (s : World) (tid : Tid) : Prop :=
  s.lock = some tid ∧ ∃ self lease rest,
    s.threads tid = .leaseDrop self (.release lease) :: rest ∧ s.strong lease = 1

end IptvRelay.Broker
