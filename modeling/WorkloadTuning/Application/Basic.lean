import WorkloadTuning.Application.Objective
import WorkloadTuning.Metadata

/-! Applications: descriptions of a workload to be optimized. -/

namespace WorkloadTuning

open Record

structure Scenario where
  name : String := ""
deriving DecidableEq, Repr, Inhabited

/-- The labels of the resources that parameters of one kind are made for. -/
structure ParameterHint where
  labels : Labels := Dict.empty
deriving DecidableEq, Repr, Inhabited

structure ParameterHints where
  containerResources : Option ParameterHint := none
  replicas : Option ParameterHint := none
deriving DecidableEq, Repr, Inhabited

structure Application where
  metadata : Metadata := {}
  resources : List String := []
  parameters : Option ParameterHints := none
  scenarios : List Scenario := []
  objectives : List Objective := []
deriving DecidableEq, Repr, Inhabited

namespace Scenario

def take (s : Scenario) (key : String) (value : Json) : Decoded Scenario :=
  match key with
  | "name" => return { s with name := ← ofJson value }
  | _ => return s

instance : Record Scenario where
  toJson s := .object (textMember "name" s.name)
  ofJson := read take {} ["name"] []

def applyDefaults (s : Scenario) : Scenario :=
  if s.name.isEmpty then { s with name := "default" } else s

end Scenario

namespace ParameterHint

def take (h : ParameterHint) (key : String) (value : Json) : Decoded ParameterHint :=
  match key with
  | "labels" => return { h with labels := ← ofJson value }
  | _ => return h

instance : Record ParameterHint where
  toJson h := .object (dictMember "labels" h.labels)
  ofJson := read take {} ["labels"] []

end ParameterHint

namespace ParameterHints

def take (h : ParameterHints) (key : String) (value : Json) : Decoded ParameterHints :=
  match key with
  | "containerResources" => return { h with containerResources := ← ofJson value }
  | "replicas" => return { h with replicas := ← ofJson value }
  | _ => return h

instance : Record ParameterHints where
  toJson h := .object (optionMember "containerResources" h.containerResources ++
    optionMember "replicas" h.replicas)
  ofJson := read take {} ["containerResources", "replicas"] []

end ParameterHints

namespace Application

def take (a : Application) (key : String) (value : Json) : Decoded Application :=
  match key with
  | "metadata" => return { a with metadata := ← ofJson value }
  | "resources" => return { a with resources := ← ofJson value }
  | "parameters" => return { a with parameters := ← ofJson value }
  | "scenarios" => return { a with scenarios := ← ofJson value }
  | "objectives" => return { a with objectives := ← ofJson value }
  | _ => return a

instance : Record Application where
  toJson a := .object (member "metadata" a.metadata ++ listMember "resources" a.resources ++
    optionMember "parameters" a.parameters ++ listMember "scenarios" a.scenarios ++
    listMember "objectives" a.objectives)
  ofJson := read take {} ["metadata", "resources", "parameters", "scenarios", "objectives"] []

def applyDefaults (a : Application) : Application :=
  { a with
    scenarios := a.scenarios.map Scenario.applyDefaults
    objectives := a.objectives.map Objective.applyDefaults }

end Application

end WorkloadTuning
