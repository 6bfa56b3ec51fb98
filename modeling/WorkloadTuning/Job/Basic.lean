import WorkloadTuning.Metadata

/-! Jobs: workloads that run to completion. Only the fields that matter here are interpreted, all
others are kept. -/

namespace WorkloadTuning

open Record

structure EnvVar where
  name : String := ""
  value : String := ""
  extra : Members := []
deriving DecidableEq, Repr, Inhabited

structure Container where
  name : String := ""
  image : String := ""
  command : List String := []
  args : List String := []
  env : List EnvVar := []
  extra : Members := []
deriving DecidableEq, Repr, Inhabited

structure PodSpec where
  restartPolicy : String := ""
  containers : List Container := []
  extra : Members := []
deriving DecidableEq, Repr, Inhabited

structure PodTemplate where
  metadata : Metadata := {}
  spec : PodSpec := {}
deriving DecidableEq, Repr, Inhabited

structure JobSpec where
  /-- Retries before the job counts as failed. -/
  backoffLimit : Option Int32 := none
  template : PodTemplate := {}
  extra : Members := []
deriving DecidableEq, Repr, Inhabited

structure JobTemplate where
  metadata : Metadata := {}
  spec : JobSpec := {}
deriving DecidableEq, Repr, Inhabited

structure Job where
  apiVersion : String := "batch/v1"
  kind : String := "Job"
  metadata : Metadata := {}
  spec : JobSpec := {}
deriving DecidableEq, Repr, Inhabited

namespace EnvVar

def take (v : EnvVar) (key : String) (value : Json) : Decoded EnvVar :=
  match key with
  | "name" => return { v with name := ← ofJson value }
  | "value" => return { v with value := ← ofJson value }
  | _ => return { v with extra := v.extra ++ [(key, value)] }

instance : Record EnvVar where
  toJson v := .object (member "name" v.name ++ textMember "value" v.value ++ v.extra)
  ofJson := readOpen take {} ["name"]

end EnvVar

namespace Container

def take (c : Container) (key : String) (value : Json) : Decoded Container :=
  match key with
  | "name" => return { c with name := ← ofJson value }
  | "image" => return { c with image := ← ofJson value }
  | "command" => return { c with command := ← ofJson value }
  | "args" => return { c with args := ← ofJson value }
  | "env" => return { c with env := ← ofJson value }
  | _ => return { c with extra := c.extra ++ [(key, value)] }

instance : Record Container where
  toJson c := .object (member "name" c.name ++ textMember "image" c.image ++
    listMember "command" c.command ++ listMember "args" c.args ++ listMember "env" c.env ++ c.extra)
  ofJson := readOpen take {} ["name"]

end Container

namespace PodSpec

def take (p : PodSpec) (key : String) (value : Json) : Decoded PodSpec :=
  match key with
  | "restartPolicy" => return { p with restartPolicy := ← ofJson value }
  | "containers" => return { p with containers := ← ofJson value }
  | _ => return { p with extra := p.extra ++ [(key, value)] }

instance : Record PodSpec where
  toJson p := .object (textMember "restartPolicy" p.restartPolicy ++
    member "containers" p.containers ++ p.extra)
  ofJson := readOpen take {} []

end PodSpec

namespace PodTemplate

def take (t : PodTemplate) (key : String) (value : Json) : Decoded PodTemplate :=
  match key with
  | "metadata" => return { t with metadata := ← ofJson value }
  | "spec" => return { t with spec := ← ofJson value }
  | _ => return t

instance : Record PodTemplate where
  toJson t := .object (member "metadata" t.metadata ++ member "spec" t.spec)
  ofJson := read take {} ["metadata", "spec"] []

end PodTemplate

namespace JobSpec

def take (s : JobSpec) (key : String) (value : Json) : Decoded JobSpec :=
  match key with
  | "backoffLimit" => return { s with backoffLimit := ← ofJson value }
  | "template" => return { s with template := ← ofJson value }
  | _ => return { s with extra := s.extra ++ [(key, value)] }

instance : Record JobSpec where
  toJson s := .object (optionMember "backoffLimit" s.backoffLimit ++ member "template" s.template ++
    s.extra)
  ofJson := readOpen take {} []

end JobSpec

namespace JobTemplate

def take (t : JobTemplate) (key : String) (value : Json) : Decoded JobTemplate :=
  match key with
  | "metadata" => return { t with metadata := ← ofJson value }
  | "spec" => return { t with spec := ← ofJson value }
  | _ => return t

instance : Record JobTemplate where
  toJson t := .object (member "metadata" t.metadata ++ member "spec" t.spec)
  ofJson := read take {} ["metadata", "spec"] []

end JobTemplate

namespace Job

def take (j : Job) (key : String) (value : Json) : Decoded Job :=
  match key with
  | "apiVersion" => return { j with apiVersion := ← ofJson value }
  | "kind" => return { j with kind := ← ofJson value }
  | "metadata" => return { j with metadata := ← ofJson value }
  | "spec" => return { j with spec := ← ofJson value }
  | _ => return j

instance : Record Job where
  toJson j := .object (member "apiVersion" j.apiVersion ++ member "kind" j.kind ++
    member "metadata" j.metadata ++ member "spec" j.spec)
  ofJson := read take {} ["apiVersion", "kind", "metadata", "spec"] ["apiVersion", "kind"]

end Job

end WorkloadTuning
