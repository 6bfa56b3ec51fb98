import WorkloadTuning.Decimal.Binary64

/-! Documents: JSON values whose objects keep their members in order. -/

namespace WorkloadTuning

/-- A whole number from `-2 ^ 63` to `2 ^ 64 - 1` is kept exactly, any other in double precision. -/
inductive Number where
  | int (value : Int)
  | float (value : Binary64)
deriving DecidableEq, Repr, Inhabited

inductive Json where
  | null
  | bool (value : Bool)
  | number (value : Number)
  | string (value : String)
  | array (items : List Json)
  | object (members : List (String × Json))
deriving Repr, Inhabited

/-- The members of an object, in document order. Keys do not repeat in what is read. -/
abbrev Members := List (String × Json)

namespace Json

mutual

def decEq : (a b : Json) → Decidable (a = b)
  | null, null => isTrue rfl
  | bool a, bool b => decidable_of_decidable_of_iff (p := a = b) (by simp)
  | number a, number b => decidable_of_decidable_of_iff (p := a = b) (by simp)
  | string a, string b => decidable_of_decidable_of_iff (p := a = b) (by simp)
  | array a, array b =>
    match decEqItems a b with
    | isTrue h => isTrue (by rw [h])
    | isFalse h => isFalse (by simpa using h)
  | object a, object b =>
    match decEqMembers a b with
    | isTrue h => isTrue (by rw [h])
    | isFalse h => isFalse (by simpa using h)
  | null, bool _ | null, number _ | null, string _ | null, array _ | null, object _
  | bool _, null | bool _, number _ | bool _, string _ | bool _, array _ | bool _, object _
  | number _, null | number _, bool _ | number _, string _ | number _, array _
  | number _, object _
  | string _, null | string _, bool _ | string _, number _ | string _, array _
  | string _, object _
  | array _, null | array _, bool _ | array _, number _ | array _, string _ | array _, object _
  | object _, null | object _, bool _ | object _, number _ | object _, string _
  | object _, array _ => isFalse (by simp)

def decEqItems : (a b : List Json) → Decidable (a = b)
  | [], [] => isTrue rfl
  | [], _ :: _ | _ :: _, [] => isFalse (by simp)
  | a :: as, b :: bs =>
    match decEq a b, decEqItems as bs with
    | isTrue h, isTrue t => isTrue (by rw [h, t])
    | isFalse h, _ => isFalse (by simp [h])
    | _, isFalse t => isFalse (by simp [t])

def decEqMembers : (a b : List (String × Json)) → Decidable (a = b)
  | [], [] => isTrue rfl
  | [], _ :: _ | _ :: _, [] => isFalse (by simp)
  | (k, a) :: as, (l, b) :: bs =>
    match (inferInstance : Decidable (k = l)), decEq a b, decEqMembers as bs with
    | isTrue hk, isTrue h, isTrue t => isTrue (by rw [hk, h, t])
    | isFalse hk, _, _ => isFalse (by simp [hk])
    | _, isFalse h, _ => isFalse (by simp [h])
    | _, _, isFalse t => isFalse (by simp [t])

end

instance : DecidableEq Json := decEq

end Json

namespace Members

def get? (ms : Members) (key : String) : Option Json :=
  ms.lookup key

/-- Give the key a value: in its place if it is there, at the end if not. -/
def set (key : String) (value : Json) : Members → Members
  | [] => [(key, value)]
  | (k, v) :: rest => if k = key then (k, value) :: rest else (k, v) :: set key value rest

/-- Remove the key; the last member moves into its place. -/
def erase (key : String) : Members → Members
  | [] => []
  | (k, v) :: rest =>
    if k = key then
      match rest.getLast? with
      | none => []
      | some last => last :: rest.dropLast
    else (k, v) :: erase key rest

def keys (ms : Members) : List String :=
  ms.map Prod.fst

/-- Give each key its value, one after another. -/
def setAll (ms new : Members) : Members :=
  new.foldl (fun acc (k, v) => set k v acc) ms

example : erase "b" [("a", .null), ("b", .null), ("c", .null), ("d", .null)] =
    [("a", .null), ("d", .null), ("c", .null)] := by decide

end Members

namespace Json

def ofInt (i : Int) : Json := number (.int i)

def ofNat (n : Nat) : Json := ofInt n

/-- Infinities and `nan` have no JSON number and are written as `null`. -/
def ofBinary64 (x : Binary64) : Json :=
  if x.isFinite then number (.float x) else null

def isNull : Json → Bool
  | null => true
  | _ => false

def asString? : Json → Option String
  | string s => some s
  | _ => none

def asArray? : Json → Option (List Json)
  | array items => some items
  | _ => none

def asObject? : Json → Option Members
  | object ms => some ms
  | _ => none

def asBool? : Json → Option Bool
  | bool b => some b
  | _ => none

def asInt? : Json → Option Int
  | number (.int i) => some i
  | _ => none

/-- The member of that name, if the value is an object that has it. -/
def get? (json : Json) (key : String) : Option Json :=
  json.asObject?.bind (Members.get? · key)

/-- The value reached by following the member names. -/
def follow? (json : Json) : List String → Option Json
  | [] => some json
  | key :: rest => (json.get? key).bind (follow? · rest)

end Json

namespace Number

/-- Whole numbers are equal only to whole numbers, other numbers by their value. -/
def same : Number → Number → Bool
  | int a, int b => a == b
  | float a, float b => a.same b
  | _, _ => false

end Number

namespace Json

mutual

/-- Equality that disregards the order of members. -/
def same : Json → Json → Bool
  | null, null => true
  | bool a, bool b => a == b
  | number a, number b => a.same b
  | string a, string b => a == b
  | array a, array b => sameItems a b
  | object a, object b => a.length == b.length && sameMembers a b
  | _, _ => false

def sameItems : List Json → List Json → Bool
  | [], [] => true
  | a :: as, b :: bs => a.same b && sameItems as bs
  | _, _ => false

/-- Each of these members has its like in the other object. -/
def sameMembers : List (String × Json) → Members → Bool
  | [], _ => true
  | (key, a) :: as, other =>
    (match other.get? key with
      | some b => a.same b
      | none => false) && sameMembers as other

end

end Json

end WorkloadTuning
