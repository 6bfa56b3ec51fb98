import WorkloadTuning.Error
import WorkloadTuning.Service.Basic

/-! Talking to the optimization service. The service is any machine that answers requests; what has
been asked of it is written down. -/

namespace WorkloadTuning.Service

inductive Request where
  | createExperiment (name : String) (definition : Definition)
  | getExperiment (name : String)
  | createTrial (experiment : Definition) (suggestion : Suggestion)
  | nextTrial (url : String)
  | reportTrial (url : String) (report : Report)
deriving DecidableEq, Repr

/-- What a request is answered with when it succeeds. -/
abbrev Request.Answer : Request → Type
  | createExperiment .. => Definition
  | getExperiment _ => Definition
  | createTrial .. => Suggestion
  | nextTrial _ => Suggestion
  | reportTrial .. => Unit

/-- A service with internal states `σ`: it answers every request, and moves to a next state. -/
structure Client (σ : Type) where
  answer : (request : Request) → σ → Outcome request.Answer × σ

/-- The state of the service, and all requests sent to it, in order. -/
structure Exchange (σ : Type) where
  state : σ
  sent : List Request := []

variable {σ : Type}

def Exchange.send (x : Exchange σ) (client : Client σ) (request : Request) :
    Outcome request.Answer × Exchange σ :=
  let (answer, state) := client.answer request x.state
  (answer, { state, sent := x.sent ++ [request] })

end WorkloadTuning.Service
