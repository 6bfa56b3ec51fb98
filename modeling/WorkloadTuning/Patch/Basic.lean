import WorkloadTuning.Resource.Reference

/-! Patch templates, which hold placeholders, and the patch operations rendered from them. -/

namespace WorkloadTuning

inductive PatchKind where
  | strategic
  | merge
  | json
deriving DecidableEq, Repr, Inhabited

namespace PatchKind

def toText : PatchKind → String
  | strategic => "strategic"
  | merge => "merge"
  | json => "json"

def title : PatchKind → String
  | strategic => "Strategic"
  | merge => "Merge"
  | json => "Json"

instance : Record PatchKind where
  toJson kind := .string kind.toText
  ofJson := Record.readName ([strategic, merge, json].map fun kind => (kind.toText, kind))

end PatchKind

open Record

/-- A template without a target patches the job of the trial. -/
structure PatchTemplate where
  kind : PatchKind := .strategic
  patch : Json := .null
  target : Option ObjectReference := none
deriving DecidableEq, Repr, Inhabited

structure PatchOperation where
  target : ObjectReference := {}
  kind : PatchKind := .strategic
  data : Json := .null
deriving DecidableEq, Repr, Inhabited

namespace PatchTemplate

def take (t : PatchTemplate) (key : String) (value : Json) : Decoded PatchTemplate :=
  match key with
  | "type" => return { t with kind := ← ofJson value }
  | "patch" => return { t with patch := value }
  | "targetRef" => return { t with target := ← ofJson value }
  | _ => return t

instance : Record PatchTemplate where
  toJson t := .object (member "type" t.kind ++ member "patch" t.patch ++
    optionMember "targetRef" t.target)
  ofJson := read take {} ["type", "patch", "targetRef"] ["patch"]

end PatchTemplate

namespace PatchOperation

def take (op : PatchOperation) (key : String) (value : Json) : Decoded PatchOperation :=
  match key with
  | "targetRef" => return { op with target := ← ofJson value }
  | "patchType" => return { op with kind := ← ofJson value }
  | "data" => return { op with data := value }
  | _ => return op

def fields : List String := ["targetRef", "patchType", "data"]

instance : Record PatchOperation where
  toJson op := .object (member "targetRef" op.target ++ member "patchType" op.kind ++
    member "data" op.data)
  ofJson := read take {} fields fields

end PatchOperation

end WorkloadTuning
