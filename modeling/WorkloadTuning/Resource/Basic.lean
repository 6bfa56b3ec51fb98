import WorkloadTuning.Error

/-! Resources: documents that tell their own identity, and ordered sets of them. -/

namespace WorkloadTuning

/-- The identity is the one that the tree had when it was read. -/
structure Resource where
  target : ObjectReference
  tree : Json
deriving DecidableEq, Repr

namespace Resource

def textAt (tree : Json) (keys : List String) : String :=
  ((tree.follow? keys).bind Json.asString?).getD ""

/-- What a tree says about its identity; what is missing or no text is empty. -/
def identityOf (tree : Json) : ObjectReference :=
  { apiVersion := textAt tree ["apiVersion"]
    kind := textAt tree ["kind"]
    namespaceName := textAt tree ["metadata", "namespace"]
    name := textAt tree ["metadata", "name"] }

/-- A resource needs a kind and a name. -/
def ofTree (tree : Json) : Outcome Resource :=
  let target := identityOf tree
  if target.kind.isEmpty || target.name.isEmpty then .error (.anonymousResource tree)
  else .ok ⟨target, tree⟩

/-- The labels whose values are texts. -/
def labels (r : Resource) : Labels :=
  let members := ((r.tree.follow? ["metadata", "labels"]).bind Json.asObject?).getD []
  Dict.ofList (members.filterMap fun (key, value) => value.asString?.map (key, ·))

end Resource

structure ResourceSet where
  resources : List Resource
deriving DecidableEq, Repr, Inhabited

namespace ResourceSet

/-- The resource trees in a document: the items of a list, or else the document itself. -/
def documentsOf (tree : Json) : List Json :=
  if (tree.get? "kind").bind Json.asString? = some "List" then
    ((tree.get? "items").bind Json.asArray?).getD []
  else [tree]

def ofTrees (trees : List Json) : Outcome ResourceSet :=
  ((trees.flatMap documentsOf).mapM Resource.ofTree).map ResourceSet.mk

def trees (set : ResourceSet) : List Json :=
  set.resources.map Resource.tree

/-- The first resource that the reference points to. -/
def find? (set : ResourceSet) (target : ObjectReference) : Option Resource :=
  set.resources.find? fun r => target.matchesIdentity r.target

/-- Change the tree of the first resource that the reference points to. -/
def modify (set : ResourceSet) (target : ObjectReference) (f : Json → Outcome Json) :
    Outcome ResourceSet :=
  go set.resources |>.map ResourceSet.mk
where
  go : List Resource → Outcome (List Resource)
    | [] => .error (.missingTarget target)
    | r :: rest =>
      if target.matchesIdentity r.target then do
        let tree ← f r.tree
        return { r with tree } :: rest
      else (go rest).map (r :: ·)

end ResourceSet

end WorkloadTuning
