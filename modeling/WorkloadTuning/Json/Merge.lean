import WorkloadTuning.Json.Basic

/-! Two ways to overlay a document with a patch. In both, objects are merged member by member and
`null` removes a member. The structural merge also merges lists of named elements by name. -/

namespace WorkloadTuning.Json

/-- The member that identifies list elements. -/
def mergeKey : String := "name"

/-- The name of a list element, if it is an object with a text under the merge key. -/
def name? (json : Json) : Option String :=
  (json.get? mergeKey).bind asString?

def isNamedList (items : List Json) : Bool :=
  items.all fun item => item.name?.isSome

/-- Apply `f` to the first element of that name, or append `fresh` if there is none. -/
def updateNamed (name : Option String) (f : Json → Json) (fresh : Json) : List Json → List Json
  | [] => [fresh]
  | item :: rest =>
    if item.name? = name then f item :: rest else item :: updateNamed name f fresh rest

mutual

/-- Structural merge: lists are merged when all elements of both sides carry a name, otherwise the
patch replaces the target. -/
def merge (target : Json) : Json → Json
  | object fields => object (mergeMembers (target.asObject?.getD []) fields)
  | array items =>
    match target with
    | array existing =>
      if !items.isEmpty && isNamedList items && isNamedList existing then
        array (mergeItems existing items)
      else array items
    | _ => array items
  | null => null
  | bool b => bool b
  | number n => number n
  | string s => string s

def mergeMembers (members : Members) : List (String × Json) → Members
  | [] => members
  | (key, value) :: rest =>
    let merged :=
      if value.isNull then members.erase key
      else members.set key (merge ((members.get? key).getD null) value)
    mergeMembers merged rest

def mergeItems (existing : List Json) : List Json → List Json
  | [] => existing
  | item :: rest =>
    mergeItems (updateNamed item.name? (fun found => merge found item) item existing) rest

end

mutual

/-- JSON merge patch: anything but an object replaces the target. -/
def mergePatch (target : Json) : Json → Json
  | object fields => object (mergePatchMembers (target.asObject?.getD []) fields)
  | array items => array items
  | null => null
  | bool b => bool b
  | number n => number n
  | string s => string s

def mergePatchMembers (members : Members) : List (String × Json) → Members
  | [] => members
  | (key, value) :: rest =>
    let merged :=
      if value.isNull then members.erase key
      else members.set key (mergePatch ((members.get? key).getD null) value)
    mergePatchMembers merged rest

end

end WorkloadTuning.Json
