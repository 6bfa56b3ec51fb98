import WorkloadTuning.Synchronization

/-! Reports under way. The reports of a batch do not wait for each other: each is sent when its turn
comes, the service handles it when it gets to it, and the answers come back in any order. The first
failure ends the batch. What is under way then is given up, but the service may still handle it. A
call may also end anywhere, when its caller gives it up. Nothing is said of which orders come about:
trials of one name wait for each other, for example. -/

namespace WorkloadTuning.Synchronization

open Service (Client Exchange Request)

variable {σ ι : Type}

/-- How far a report has come that was sent. -/
inductive Fate where
  /-- The service has not handled it yet. -/
  | sent
  /-- The service has handled it, and nobody has got the answer. -/
  | answered (accepted : Bool)
  /-- The answer has come back. -/
  | returned (accepted : Bool)
deriving DecidableEq, Repr

/-- A report that was sent for a trial. -/
structure Attempt (ι : Type) where
  trial : ι
  url : String
  report : Service.Report
  fate : Fate := .sent
deriving DecidableEq, Repr

namespace Attempt

/-- The report of a trial, as it is sent. -/
def ofTrial (i : ι) (t : Trial) : Attempt ι :=
  { trial := i, url := t.reportUrl, report := t.report }

def request (a : Attempt ι) : Request :=
  .reportTrial a.url a.report

/-- The service handles the report, unless it has done so before. -/
def handle (client : Client σ) (a : Attempt ι) (state : σ) : Attempt ι × σ :=
  match a.fate with
  | .sent =>
    let (answer, state) := client.answer a.request state
    ({ a with fate := .answered answer.isOk }, state)
  | _ => (a, state)

/-- The service handles one of several reports. -/
def handleAt (client : Client σ) (attempts : List (Attempt ι)) (n : Nat) (state : σ) :
    List (Attempt ι) × σ :=
  match attempts[n]? with
  | some a =>
    let (a, state) := a.handle client state
    (attempts.set n a, state)
  | none => (attempts, state)

end Attempt

/-- What happens next to a call that reports trials. -/
inductive Move (ι : Type) where
  /-- The report of one of its trials begins. -/
  | start (i : ι)
  /-- The service handles one of its reports. -/
  | handle (n : Nat)
  /-- The service handles a report that an earlier call has given up. -/
  | handleEarlier (n : Nat)
  /-- The answer to one of its reports comes back. -/
  | receive (n : Nat)
deriving DecidableEq, Repr

/-- A call that reports trials, while it runs. -/
structure Flight (σ ι : Type) where
  trials : ι → Trial
  exchange : Exchange σ
  /-- The reports sent by calls before this one. -/
  earlier : List (Attempt ι)
  /-- The reports sent by this call, in order. -/
  own : List (Attempt ι) := []
  /-- The trials whose reports have not begun. -/
  waiting : List ι
  /-- A report has failed, and the call has ended with it. -/
  failed : Bool := false

namespace Flight

variable [DecidableEq ι]

/-- Begin the report of a trial: send it, or else be done with it. -/
def start (c : Flight σ ι) (i : ι) : Flight σ ι :=
  let t := c.trials i
  let c := { c with waiting := c.waiting.erase i }
  if !t.isSynchronized then { c with failed := t.isPending }
  else
    { c with
      own := c.own ++ [.ofTrial i t]
      exchange := { c.exchange with sent := c.exchange.sent ++ [t.reportRequest] } }

def release (c : Flight σ ι) (i : ι) : Flight σ ι :=
  { c with trials := fun j => if j = i then (c.trials j).released else c.trials j }

/-- Take the answer to a report, if there is one. -/
def receive (c : Flight σ ι) (n : Nat) (a : Attempt ι) : Flight σ ι :=
  match a.fate with
  | .answered accepted =>
    let c := { c with own := c.own.set n { a with fate := .returned accepted } }
    if accepted then c.release a.trial else { c with failed := true }
  | _ => c

/-- A call that has failed takes no more part; a move that is not possible changes nothing. -/
def step (client : Client σ) (c : Flight σ ι) : Move ι → Flight σ ι
  | .start i => if c.failed || !c.waiting.contains i then c else c.start i
  | .handle n =>
    let (own, state) := Attempt.handleAt client c.own n c.exchange.state
    { c with own, exchange := { c.exchange with state } }
  | .handleEarlier n =>
    let (earlier, state) := Attempt.handleAt client c.earlier n c.exchange.state
    { c with earlier, exchange := { c.exchange with state } }
  | .receive n =>
    if c.failed then c
    else
      match c.own[n]? with
      | some a => c.receive n a
      | none => c

def run (client : Client σ) (c : Flight σ ι) (moves : List (Move ι)) : Flight σ ι :=
  moves.foldl (fun c move => c.step client move) c

end Flight

end WorkloadTuning.Synchronization
