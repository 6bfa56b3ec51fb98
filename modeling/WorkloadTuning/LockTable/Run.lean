import WorkloadTuning.LockTable.Basic

/-! Runs of a lock table that several owners use at the same time. What one owner does is cut into
single events, and those of different owners may come in any order. -/

namespace WorkloadTuning.LockTable

inductive Event where
  | request (owner key : String)
  | grant (r : LockRequest)
  | cancel (r : LockRequest)
  | unlock (r : LockRequest)
  | leave (r : LockRequest)
deriving DecidableEq, Repr

/-- The event can happen now. A free lock may be granted to any request that waits for it. -/
def Enabled (s : LockTable) : Event → Prop
  | .request .. => True
  | .grant r => r ∈ s.requests ∧ r.phase = .waiting ∧ s.isFree r.lock
  | .cancel r => r ∈ s.requests ∧ r.phase = .waiting
  | .unlock r => r ∈ s.requests ∧ r.phase = .holding
  | .leave r => r ∈ s.requests ∧ r.phase = .leaving

instance (s : LockTable) : (e : Event) → Decidable (s.Enabled e)
  | .request .. => inferInstanceAs (Decidable True)
  | .grant r => inferInstanceAs
      (Decidable (r ∈ s.requests ∧ r.phase = .waiting ∧ s.isFree r.lock))
  | .cancel r => inferInstanceAs (Decidable (r ∈ s.requests ∧ r.phase = .waiting))
  | .unlock r => inferInstanceAs (Decidable (r ∈ s.requests ∧ r.phase = .holding))
  | .leave r => inferInstanceAs (Decidable (r ∈ s.requests ∧ r.phase = .leaving))

def next (s : LockTable) : Event → LockTable
  | .request owner key => s.request owner key
  | .grant r => s.grant r
  | .cancel r => s.cancel r
  | .unlock r => s.unlock r
  | .leave r => s.leave r

/-- The events lead from the first table to the second. -/
inductive Run : LockTable → List Event → LockTable → Prop
  | refl (s : LockTable) : Run s [] s
  | step {s t : LockTable} {e : Event} {events : List Event} (enabled : s.Enabled e)
      (rest : Run (s.next e) events t) : Run s (e :: events) t

end WorkloadTuning.LockTable
