import WorkloadTuning.FieldPath.Order
import WorkloadTuning.Resource.Reference
import WorkloadTuning.Text.Case

/-! Names for parameters. The names are made once for all fields that are to be named, so they do
not depend on the order in which the fields were found. A suffix that several fields share is told
apart by the path within a resource and by the resource's name across resources; what still
collides gets the resource's full identity, and at last a counter. -/

namespace WorkloadTuning

/-- What a parameter name is made from. -/
structure NameKey where
  target : ObjectReference
  path : FieldPath
  suffix : String
deriving DecidableEq, Repr, Inhabited

def ObjectReference.order (a b : ObjectReference) : Ordering :=
  (compare a.apiVersion b.apiVersion).then <| (compare a.kind b.kind).then <|
    (compare a.namespaceName b.namespaceName).then (compare a.name b.name)

namespace NameKey

def order (a b : NameKey) : Ordering :=
  (a.target.order b.target).then <| (a.path.order b.path).then (compare a.suffix b.suffix)

/-- The keys in their order, each once. -/
def sorted (keys : List NameKey) : List NameKey :=
  keys.eraseDups.mergeSort fun a b => (a.order b).isLE

end NameKey

/-- The names given to keys. -/
structure Namer where
  entries : List (NameKey × String)
deriving DecidableEq, Repr, Inhabited

namespace Namer

def sanitizeChar (c : Char) : Char :=
  if c.isAlphanum then c.toLower
  else if c = '-' ∨ c = '.' ∨ c = '_' then c
  else '_'

/-- Lower case, with an underscore for every character that a placeholder cannot hold. -/
def sanitize (name : String) : String :=
  String.ofList (name.toList.map sanitizeChar)

/-- Kind, namespace and name of a resource, as far as it has them. -/
def qualifiedToken (target : ObjectReference) : String :=
  let parts := [Text.lower target.kind, target.namespaceName, target.name]
  Text.joined "_" (parts.filter fun part => !part.isEmpty)

/-- Several paths of the key's resource have its suffix. -/
def sharesSuffix (keys : List NameKey) (key : NameKey) : Bool :=
  1 < keys.countP fun k => k.target == key.target && k.suffix == key.suffix

/-- The name within the resource: the suffix, after the path's discriminator if it is shared. -/
def localName (keys : List NameKey) (key : NameKey) : String :=
  match key.path.discriminator? with
  | some field => if sharesSuffix keys key then field ++ "_" ++ key.suffix else key.suffix
  | none => key.suffix

/-- Another resource has a field with a suffix of this one. -/
def isPrefixed (keys : List NameKey) (target : ObjectReference) : Bool :=
  keys.any fun k =>
    k.target == target && keys.any fun l => l.suffix == k.suffix && l.target != target

def renderName (keys : List NameKey) (escalated : List ObjectReference) (key : NameKey) : String :=
  let name := localName keys key
  sanitize <|
    if escalated.contains key.target then qualifiedToken key.target ++ "_" ++ name
    else if isPrefixed keys key.target then key.target.name ++ "_" ++ name
    else name

def renderNames (keys : List NameKey) (escalated : List ObjectReference) :
    List (NameKey × String) :=
  keys.map fun key => (key, renderName keys escalated key)

def occurrences (entries : List (NameKey × String)) (name : String) : Nat :=
  entries.countP fun e => e.2 == name

/-- The resources of the keys whose names are not theirs alone. -/
def collidingTargets (entries : List (NameKey × String)) : List ObjectReference :=
  (entries.filter fun e => 1 < occurrences entries e.2).map fun e => e.1.target

def numbered (name : String) (n : Nat) : String :=
  name ++ "_" ++ toString n

/-- The first number from `n` on whose name is not taken; among one more than the taken names there
is one. -/
def freeNumber (taken : List String) (name : String) : Nat → Nat → Nat
  | 0, n => n
  | tries + 1, n =>
    if taken.contains (numbered name n) then freeNumber taken name tries (n + 1) else n

/-- Number the names that occur more than once, in order of the keys. -/
def uniqueFrom (duplicated : List String) (taken : List String) :
    List (NameKey × String) → List (NameKey × String)
  | [] => []
  | (key, name) :: rest =>
    let name :=
      if duplicated.contains name then numbered name (freeNumber taken name taken.length 1)
      else name
    (key, name) :: uniqueFrom duplicated (name :: taken) rest

/-- Every name occurs once in the result. -/
def makeUnique (entries : List (NameKey × String)) : List (NameKey × String) :=
  let names := entries.map Prod.snd
  let duplicated := names.filter fun name => 1 < occurrences entries name
  let taken := names.filter fun name => occurrences entries name = 1
  uniqueFrom duplicated taken entries

/-- Name all the keys. -/
def ofKeys (keys : List NameKey) : Namer :=
  let keys := NameKey.sorted keys
  let names := renderNames keys []
  let colliding := collidingTargets names
  ⟨makeUnique (if colliding.isEmpty then names else renderNames keys colliding)⟩

/-- The name given to the key; a key that got none is named by its suffix. -/
def name (namer : Namer) (target : ObjectReference) (path : FieldPath) (suffix : String) : String :=
  (namer.entries.lookup ⟨target, path, suffix⟩).getD suffix

end Namer

end WorkloadTuning
