import WorkloadTuning.Regex.Engine
import WorkloadTuning.Resource.Basic

/-! Criteria that resources are selected by: patterns for the whole API group and the whole kind,
and a label selector. Empty criteria hold for every resource. -/

namespace WorkloadTuning

open RegexEngine (Expression compile? isMatch)

structure Criteria where
  group : String := ""
  kind : String := ""
  labelSelector : String := ""
deriving DecidableEq, Repr, Inhabited

/-- Criteria that have been read; patterns are searched for in the whole name. -/
structure Matcher [RegexEngine] where
  group : Option Expression
  kind : Option Expression
  labels : LabelSelector

namespace Criteria

/-- Without a kind, both patterns are replaced by the given ones. -/
def withDefaultKind (c : Criteria) (group kind : String) : Criteria :=
  if c.kind.isEmpty then { c with group, kind } else c

def take (c : Criteria) (key : String) (value : Json) : Decoded Criteria :=
  match key with
  | "group" => return { c with group := ← Record.ofJson value }
  | "kind" => return { c with kind := ← Record.ofJson value }
  | "labelSelector" => return { c with labelSelector := ← Record.ofJson value }
  | _ => return c

open Record in
def members (c : Criteria) : Members :=
  textMember "group" c.group ++ textMember "kind" c.kind ++
    textMember "labelSelector" c.labelSelector

instance : Record Criteria where
  toJson c := .object c.members
  ofJson := Record.read take {} ["group", "kind", "labelSelector"] []

variable [RegexEngine]

/-- The expression for the pattern between the ends of a text. -/
def anchored? (pattern : String) : Option Expression :=
  compile? ("^(?:" ++ pattern ++ ")$")

def patternOf (pattern : String) : Outcome (Option Expression) :=
  if pattern.isEmpty then .ok none
  else
    match anchored? pattern with
    | some e => .ok (some e)
    | none => .error (.pattern pattern)

def matcher (c : Criteria) : Outcome Matcher := do
  let group ← patternOf c.group
  let kind ← patternOf c.kind
  let labels ← (LabelSelector.parse c.labelSelector).mapError .labels
  return { group, kind, labels }

end Criteria

def Matcher.selects [RegexEngine] (m : Matcher) (r : Resource) : Bool :=
  m.group.all (fun e => isMatch e r.target.group) &&
    m.kind.all (fun e => isMatch e r.target.kind) && m.labels.selects r.labels

end WorkloadTuning
