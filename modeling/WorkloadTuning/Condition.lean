import WorkloadTuning.Timestamp

/-! Conditions: the latest observation of each aspect of a record's state. -/

namespace WorkloadTuning

inductive ConditionStatus where
  | holds
  | fails
  | unknown
deriving DecidableEq, Repr, Inhabited

namespace ConditionStatus

def toText : ConditionStatus → String
  | holds => "True"
  | fails => "False"
  | unknown => "Unknown"

instance : Record ConditionStatus where
  toJson status := .string status.toText
  ofJson := Record.readName ([holds, fails, unknown].map fun status => (status.toText, status))

end ConditionStatus

/-- The observation of one aspect `type`. -/
structure Condition (τ : Type) where
  type : τ
  status : ConditionStatus := .unknown
  reason : String := ""
  message : String := ""
  lastTransitionTime : Option Timestamp := none
deriving DecidableEq, Repr

namespace Condition

variable {τ : Type}

/-- Overwrite the observation; the transition time only moves when the status changes. -/
def update (c : Condition τ) (status : ConditionStatus) (reason message : String)
    (time : Option Timestamp) : Condition τ :=
  if c.status = status then { c with reason, message }
  else { c with status, reason, message, lastTransitionTime := time }

/-- Update the condition of that type, or append one. -/
def apply [DecidableEq τ] (type : τ) (status : ConditionStatus) (reason message : String)
    (time : Option Timestamp) : List (Condition τ) → List (Condition τ)
  | [] => [{ type, status, reason, message, lastTransitionTime := time }]
  | c :: rest =>
    if c.type = type then c.update status reason message time :: rest
    else c :: apply type status reason message time rest

/-- The members of a condition read so far; its type has no default. -/
def take [Record τ] (c : Option τ × Condition Unit) (key : String) (value : Json) :
    Decoded (Option τ × Condition Unit) :=
  match key with
  | "type" => return (some (← Record.ofJson value), c.2)
  | "status" => return (c.1, { c.2 with status := ← Record.ofJson value })
  | "reason" => return (c.1, { c.2 with reason := ← Record.ofJson value })
  | "message" => return (c.1, { c.2 with message := ← Record.ofJson value })
  | "lastTransitionTime" =>
    return (c.1, { c.2 with lastTransitionTime := ← Record.ofJson value })
  | _ => return c

open Record in
instance [Record τ] : Record (Condition τ) where
  toJson c := .object (member "type" c.type ++ member "status" c.status ++
    textMember "reason" c.reason ++ textMember "message" c.message ++
    optionMember "lastTransitionTime" c.lastTransitionTime)
  ofJson json := do
    let (type, c) ← read take (none, { type := () })
      ["type", "status", "reason", "message", "lastTransitionTime"] ["type", "status"] json
    let type ← orMalformed type
    return { c with type }

end Condition

end WorkloadTuning
