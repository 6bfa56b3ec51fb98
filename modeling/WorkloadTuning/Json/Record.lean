import WorkloadTuning.Dict
import WorkloadTuning.Json.Basic

/-! Records as documents. A record is written as an object of its fields in order, less those that
hold nothing; it is read member by member in document order, and members that are no field of it are
passed over. -/

namespace WorkloadTuning

/-! ### Integers of fixed width -/

def fitsInt32 (i : Int) : Bool :=
  -2147483648 ≤ i && i ≤ 2147483647

def fitsInt64 (i : Int) : Bool :=
  -9223372036854775808 ≤ i && i ≤ 9223372036854775807

def fitsInt128 (i : Int) : Bool :=
  -170141183460469231731687303715884105728 ≤ i &&
    i ≤ 170141183460469231731687303715884105727

/-- The nearest integer of 64 bits. -/
def clampInt64 (i : Int) : Int :=
  max (-9223372036854775808) (min 9223372036854775807 i)

/-- The nearest integer of 32 bits. -/
def clampInt32 (i : Int) : Int32 :=
  Int32.ofInt (max (-2147483648) (min 2147483647 i))

/-! ### Records -/

/-- Why a document is not the record asked for. -/
inductive DecodeError where
  | malformed
  | outOfRange
deriving DecidableEq, Repr

abbrev Decoded := Except DecodeError

/-- A type whose values are written as documents and read back from them. -/
class Record (α : Type) where
  toJson : α → Json
  ofJson : Json → Decoded α

namespace Record

def malformed {α : Type} : Decoded α :=
  .error .malformed

def orMalformed {α : Type} : Option α → Decoded α
  | some a => .ok a
  | none => malformed

instance : Record String where
  toJson := .string
  ofJson json := orMalformed json.asString?

instance : Record Bool where
  toJson := .bool
  ofJson json := orMalformed json.asBool?

instance : Record Int32 where
  toJson i := .ofInt i.toInt
  ofJson json := do
    let i ← orMalformed json.asInt?
    if fitsInt32 i then return Int32.ofInt i else malformed

instance : Record Json where
  toJson := id
  ofJson := .ok

instance {α : Type} [Record α] : Record (List α) where
  toJson l := .array (l.map toJson)
  ofJson json := do (← orMalformed json.asArray?).mapM ofJson

/-- Nothing is written as `null`. -/
instance {α : Type} [Record α] : Record (Option α) where
  toJson
    | some a => toJson a
    | none => .null
  ofJson
    | .null => .ok none
    | json => some <$> ofJson json

instance {α : Type} [Record α] : Record (Dict α) where
  toJson d := .object (d.entries.map fun (key, value) => (key, toJson value))
  ofJson json := do
    let entries ← (← orMalformed json.asObject?).mapM fun (key, value) => do
      return (key, ← ofJson value)
    return Dict.ofList entries

/-- A member that is always written. -/
def member {α : Type} [Record α] (key : String) (value : α) : Members :=
  [(key, toJson value)]

/-- A member that is left out when there is nothing to say. -/
def memberUnless {α : Type} [Record α] (omitted : Bool) (key : String) (value : α) : Members :=
  if omitted then [] else member key value

def textMember (key text : String) : Members :=
  memberUnless text.isEmpty key text

def listMember {α : Type} [Record α] (key : String) (l : List α) : Members :=
  memberUnless l.isEmpty key l

def dictMember {α : Type} [Record α] (key : String) (d : Dict α) : Members :=
  memberUnless d.isEmpty key d

def optionMember {α : Type} [Record α] (key : String) (o : Option α) : Members :=
  memberUnless o.isNone key o

/-- Read the members one by one into a record that starts out with defaults. -/
def readMembers {α : Type} (take : α → String → Json → Decoded α) (start : α) (required : List String)
    (members : Members) : Decoded α := do
  let record ← members.foldlM (fun record (key, value) => take record key value) start
  if required.all fun key => (members.get? key).isSome then return record else malformed

/-- Read an object, or a list of the values of the leading fields. -/
def read {α : Type} (take : α → String → Json → Decoded α) (start : α)
    (fields required : List String) : Json → Decoded α
  | .object members => readMembers take start required members
  | .array items => do
    let record ← readMembers take start required (fields.zip items)
    if items.length ≤ fields.length then return record else malformed
  | _ => malformed

/-- Read an object whose unknown members are kept. -/
def readOpen {α : Type} (take : α → String → Json → Decoded α) (start : α) (required : List String)
    (json : Json) : Decoded α := do
  readMembers take start required (← orMalformed json.asObject?)

/-- Read one of finitely many names, alone or as the only member of an object, with `null`. -/
def readName {α : Type} (names : List (String × α)) : Json → Decoded α
  | .string s => orMalformed (names.lookup s)
  | .object [(s, .null)] => orMalformed (names.lookup s)
  | _ => malformed

end Record

end WorkloadTuning
