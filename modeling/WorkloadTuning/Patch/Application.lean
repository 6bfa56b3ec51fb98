import WorkloadTuning.Json.Merge
import WorkloadTuning.Patch.Basic
import WorkloadTuning.Resource.Basic

/-! Applying patch operations to resource trees, and patches in the form of whole objects. -/

namespace WorkloadTuning

namespace PatchOperation

/-- The metadata of the object form: that of the data, with name and namespace of the target. -/
def objectMetadata (target : ObjectReference) (data : Members) : Members :=
  let given := ((data.get? "metadata").bind Json.asObject?).getD []
  let named := given.set "name" (.string target.name)
  if target.namespaceName.isEmpty then named
  else Members.set "namespace" (.string target.namespaceName) named

/-- The members that say what an object is. -/
def isIdentityKey (key : String) : Bool :=
  key == "apiVersion" || key == "kind" || key == "metadata"

/-- The patch as an object that carries the identity of its target. -/
def toObject (op : PatchOperation) : Outcome Json :=
  match op.data with
  | .object data =>
    let identity : Members := [("apiVersion", .string op.target.apiVersion),
      ("kind", .string op.target.kind), ("metadata", .object (objectMetadata op.target data))]
    .ok (.object (identity ++ data.filter fun (key, _) => !isIdentityKey key))
  | _ => .error (.notAnObject op.kind op.target)

/-- The tree with the patch applied. -/
def applyTo (op : PatchOperation) (tree : Json) : Outcome Json :=
  match op.kind with
  | .strategic => .ok (tree.merge op.data)
  | .merge => .ok (tree.mergePatch op.data)
  | .json =>
    match Json.operationsOf? op.data with
    | none => .error (.notOperations op.target)
    | some ops => (tree.applyOperations ops).mapError (.operationFailed op.target)

end PatchOperation

namespace ResourceSet

/-- Apply one operation to the resource that it targets. -/
def applyPatch (set : ResourceSet) (op : PatchOperation) : Outcome ResourceSet :=
  set.modify op.target op.applyTo

/-- Apply the operations in order, up to the first that fails: the set as it then is, and the
failure. -/
def applyPatches (set : ResourceSet) : List PatchOperation → ResourceSet × Option Error
  | [] => (set, none)
  | op :: rest =>
    match set.applyPatch op with
    | .ok next => next.applyPatches rest
    | .error e => (set, some e)

end ResourceSet

end WorkloadTuning
