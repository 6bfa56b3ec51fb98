import WorkloadTuning.Labels
import WorkloadTuning.Timestamp

/-! What every record tells about itself. Members that have no meaning here are kept. -/

namespace WorkloadTuning

structure Metadata where
  name : String := ""
  generateName : String := ""
  namespaceName : String := ""
  labels : Labels := Dict.empty
  annotations : Dict String := Dict.empty
  finalizers : List String := []
  creationTimestamp : Option Timestamp := none
  extra : Members := []
deriving DecidableEq, Repr, Inhabited

namespace Metadata

/-- Add a label unless there is one under the key. -/
def addLabel (m : Metadata) (key value : String) : Metadata :=
  { m with labels := m.labels.insertIfNew key value }

def setLabel (m : Metadata) (key value : String) : Metadata :=
  { m with labels := m.labels.insert key value }

def annotation? (m : Metadata) (key : String) : Option String :=
  m.annotations.get? key

def annotate (m : Metadata) (key value : String) : Metadata :=
  { m with annotations := m.annotations.insert key value }

def removeAnnotation (m : Metadata) (key : String) : Metadata :=
  { m with annotations := m.annotations.erase key }

def hasFinalizer (m : Metadata) (finalizer : String) : Bool :=
  m.finalizers.contains finalizer

/-- Add a finalizer unless it is there. -/
def addFinalizer (m : Metadata) (finalizer : String) : Metadata :=
  if m.hasFinalizer finalizer then m else { m with finalizers := m.finalizers ++ [finalizer] }

def removeFinalizer (m : Metadata) (finalizer : String) : Metadata :=
  { m with finalizers := m.finalizers.filter (· != finalizer) }

def take (m : Metadata) (key : String) (value : Json) : Decoded Metadata :=
  match key with
  | "name" => return { m with name := ← Record.ofJson value }
  | "generateName" => return { m with generateName := ← Record.ofJson value }
  | "namespace" => return { m with namespaceName := ← Record.ofJson value }
  | "labels" => return { m with labels := ← Record.ofJson value }
  | "annotations" => return { m with annotations := ← Record.ofJson value }
  | "finalizers" => return { m with finalizers := ← Record.ofJson value }
  | "creationTimestamp" => return { m with creationTimestamp := ← Record.ofJson value }
  | _ => return { m with extra := m.extra ++ [(key, value)] }

open Record in
instance : Record Metadata where
  toJson m := .object (textMember "name" m.name ++ textMember "generateName" m.generateName ++
    textMember "namespace" m.namespaceName ++ dictMember "labels" m.labels ++
    dictMember "annotations" m.annotations ++ listMember "finalizers" m.finalizers ++
    optionMember "creationTimestamp" m.creationTimestamp ++ m.extra)
  ofJson := readOpen take {} []

end Metadata

end WorkloadTuning
