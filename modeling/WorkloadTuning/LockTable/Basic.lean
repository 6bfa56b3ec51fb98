import WorkloadTuning.Dict

/-! Locks on records, one per key. The table registers a lock for a key when somebody asks for it,
and forgets the lock when nobody refers to it any more. A request waits until its lock is granted,
holds it, and gives it back in two steps: it first unlocks, and later leaves the table. -/

namespace WorkloadTuning

/-- How far a request has come. -/
inductive LockPhase where
  | waiting
  | holding
  | leaving
deriving DecidableEq, Repr

/-- A request of an owner for the lock that was registered for the key at that time. -/
structure LockRequest where
  serial : Nat
  owner : String
  key : String
  lock : Nat
  phase : LockPhase := .waiting
deriving DecidableEq, Repr

structure LockTable where
  registry : Dict Nat := Dict.empty
  /-- In the order in which they were made. -/
  requests : List LockRequest := []
  /-- Numbers from here on are new, for locks as for requests. -/
  fresh : Nat := 0
deriving DecidableEq, Repr

namespace LockTable

/-- The lock registered for the key, or a new one. -/
def lockFor (s : LockTable) (key : String) : Nat :=
  (s.registry.get? key).getD s.fresh

/-- Queue up for the lock of the key. -/
def request (s : LockTable) (owner key : String) : LockTable :=
  let lock := s.lockFor key
  { registry := s.registry.insert key lock
    requests := s.requests ++ [{ serial := s.fresh, owner, key, lock }]
    fresh := s.fresh + 1 }

/-- Nobody holds the lock. -/
def isFree (s : LockTable) (lock : Nat) : Bool :=
  !s.requests.any fun r => r.lock == lock && r.phase == .holding

def setPhase (s : LockTable) (r : LockRequest) (phase : LockPhase) : LockTable :=
  { s with requests := s.requests.map fun q =>
      if q.serial = r.serial then { q with phase } else q }

/-- Hand the lock to the request. -/
def grant (s : LockTable) (r : LockRequest) : LockTable :=
  s.setPhase r .holding

/-- Unlock; the request stays in the table for now. -/
def unlock (s : LockTable) (r : LockRequest) : LockTable :=
  s.setPhase r .leaving

/-- Take the request out of the table. -/
def remove (s : LockTable) (r : LockRequest) : LockTable :=
  { s with requests := s.requests.filter fun q => q.serial != r.serial }

/-- Give up waiting. -/
def cancel (s : LockTable) (r : LockRequest) : LockTable :=
  s.remove r

/-- References to the lock: the registry's, one of every request for it, and one more of each that
waits for it or holds it. -/
def references (s : LockTable) (lock : Nat) : Nat :=
  s.registry.entries.countP (fun e => e.2 == lock) +
    s.requests.countP (fun r => r.lock == lock) +
    s.requests.countP fun r => r.lock == lock && r.phase != .leaving

/-- Leave the table after unlocking. If only the registry and this request still refer to the lock,
its key is taken off the registry. -/
def leave (s : LockTable) (r : LockRequest) : LockTable :=
  let next := s.remove r
  if s.references r.lock = 2 then { next with registry := next.registry.erase r.key } else next

/-- Grant every lock that is free to the first that waits for it. -/
def settle (s : LockTable) : LockTable :=
  s.requests.foldl (fun s r =>
    if r.phase = .waiting ∧ s.isFree r.lock then s.grant r else s) s

/-- Stop waiting, or give the lock back. -/
def dropRequest (s : LockTable) (r : LockRequest) : LockTable :=
  match r.phase with
  | .waiting => s.cancel r
  | .holding => (s.unlock r).leave r
  | .leaving => s.leave r

/-- The requests that the owner has in the table. -/
def requestsOf (s : LockTable) (owner : String) : List LockRequest :=
  s.requests.filter fun r => r.owner == owner

/-- Give up whatever the owner holds or waits for. -/
def release (s : LockTable) (owner : String) : LockTable :=
  ((s.requestsOf owner).foldl dropRequest s).settle

/-- Ask for the key, and only then give up what the owner has held or waited for so far. -/
def ask (s : LockTable) (owner key : String) : LockTable :=
  ((s.requestsOf owner).foldl dropRequest (s.request owner key).settle).settle

/-- The key that every owner holds, or nothing while it waits. -/
def holdings (s : LockTable) : Dict (Option String) :=
  Dict.ofList (s.requests.map fun r =>
    (r.owner, if r.phase = .holding then some r.key else none))

end LockTable

end WorkloadTuning
