import WorkloadTuning.FieldPath.Basic
import WorkloadTuning.Json.Merge

/-! Field paths in a tree: the locations a path stands for, the value at a location, and the
fragment that sets a location by structural merge. -/

namespace WorkloadTuning.FieldPath

/-- The first list element with that text under the key. -/
def findElement? (key value : String) (items : List Json) : Option Json :=
  items.find? fun item => (item.get? key).bind Json.asString? = some value

/-- A missing value and `null` are alike for the steps below them. -/
def present? (node : Option Json) : Option Json :=
  node.filter fun json => !json.isNull

/-- Follow the remaining steps from a node that has been reached by the steps walked. Nothing
missing stops this; only a wildcard then has no element to stand for. -/
def expandFrom (walked : FieldPath) (node : Option Json) :
    List Segment → Except PathError (List (FieldPath × Option Json))
  | [] => .ok [(walked, node)]
  | .field name :: rest =>
    match present? node with
    | none => expandFrom (walked.push (.field name)) none rest
    | some (.object ms) => expandFrom (walked.push (.field name)) (Members.get? ms name) rest
    | some _ => .error (.unexpectedValue walked (.field name) .map)
  | .element key value :: rest =>
    match present? node with
    | none => expandFrom (walked.push (.element key value)) none rest
    | some (.array items) =>
      expandFrom (walked.push (.element key value)) (findElement? key value items) rest
    | some _ => .error (.unexpectedValue walked (.element key value) .list)
  | .wildcard :: rest =>
    match present? node with
    | none => .ok []
    | some (.array items) => do
      let found ← items.mapM fun item =>
        match item.name? with
        | none => .error (.unaddressable walked Json.mergeKey)
        | some name => expandFrom (walked.push (.element Json.mergeKey name)) (some item) rest
      return found.flatten
    | some _ => .error (.unexpectedValue walked .wildcard .list)

/-- The concrete paths that the path stands for in the tree, with the values found there. -/
def expand (path : FieldPath) (tree : Json) : Except PathError (List (FieldPath × Option Json)) :=
  expandFrom root (some tree) path.segments

/-- The pointer tokens of the steps, if they all lead somewhere. -/
def tokensFrom? (node : Json) : List Segment → Option (List String)
  | [] => some []
  | .field name :: rest => do
    let child ← (← node.asObject?).get? name
    return name :: (← tokensFrom? child rest)
  | .element key value :: rest => do
    let items ← node.asArray?
    let child ← findElement? key value items
    let index ← items.findIdx? fun item => (item.get? key).bind Json.asString? = some value
    return toString index :: (← tokensFrom? child rest)
  | .wildcard :: _ => none

/-- The JSON pointer to the location in this tree. -/
def pointer? (path : FieldPath) (tree : Json) : Option Pointer :=
  (tokensFrom? tree path.segments).map Pointer.mk

/-- The value at the location. -/
def resolve? (path : FieldPath) (tree : Json) : Option Json := do
  tree.resolve? (← path.pointer? tree).tokens

/-- Wrap the leaf into one level per step. An element match becomes a list of one element that
carries the match. -/
def fragmentFrom (whole walked : FieldPath) (leaf : Json) : List Segment → Except PathError Json
  | [] => .ok leaf
  | segment :: rest => do
    let inner ← fragmentFrom whole (walked.push segment) leaf rest
    match segment with
    | .field name => return .object [(name, inner)]
    | .element key value =>
      match inner with
      | .object fields => return .array [.object (Members.setAll [(key, .string value)] fields)]
      | _ => throw (.notAnObject (walked.push segment))
    | .wildcard => throw (.notConcrete whole)

/-- The document whose structural merge sets the location to the leaf. -/
def fragment (path : FieldPath) (leaf : Json) : Except PathError Json :=
  fragmentFrom path root leaf path.segments

end WorkloadTuning.FieldPath
