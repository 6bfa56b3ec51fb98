import WorkloadTuning.Json.Record
import WorkloadTuning.Text.Cut

/-! References to cluster resources. -/

namespace WorkloadTuning

structure ObjectReference where
  apiVersion : String := ""
  kind : String := ""
  namespaceName : String := ""
  name : String := ""
deriving DecidableEq, Repr, Inhabited

namespace ObjectReference

/-- The part of the version before the last slash, empty for the core group. -/
def group (r : ObjectReference) : String :=
  match Text.cutLast? '/' r.apiVersion.toList with
  | some (group, _) => String.ofList group
  | none => ""

def version (r : ObjectReference) : String :=
  match Text.cutLast? '/' r.apiVersion.toList with
  | some (_, version) => String.ofList version
  | none => r.apiVersion

/-- Kind, group and name as in `Deployment.apps prod/web`. -/
def toText (r : ObjectReference) : String :=
  let group := if r.group.isEmpty then "" else "." ++ r.group
  let place := if r.namespaceName.isEmpty then "" else r.namespaceName ++ "/"
  r.kind ++ group ++ " " ++ place ++ r.name

/-- The reference names this identity; what it leaves empty may be anything, but not the name. -/
def matchesIdentity (r identity : ObjectReference) : Bool :=
  let agrees (given found : String) : Bool := given.isEmpty || given == found
  r.name == identity.name && agrees r.kind identity.kind &&
    agrees r.apiVersion identity.apiVersion && agrees r.namespaceName identity.namespaceName

def take (r : ObjectReference) (key : String) (value : Json) : Decoded ObjectReference :=
  match key with
  | "apiVersion" => return { r with apiVersion := ← Record.ofJson value }
  | "kind" => return { r with kind := ← Record.ofJson value }
  | "namespace" => return { r with namespaceName := ← Record.ofJson value }
  | "name" => return { r with name := ← Record.ofJson value }
  | _ => return r

open Record in
instance : Record ObjectReference where
  toJson r := .object (textMember "apiVersion" r.apiVersion ++ textMember "kind" r.kind ++
    textMember "namespace" r.namespaceName ++ textMember "name" r.name)
  ofJson := read take {} ["apiVersion", "kind", "namespace", "name"] []

end ObjectReference

end WorkloadTuning
