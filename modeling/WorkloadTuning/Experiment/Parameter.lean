import WorkloadTuning.IntOrString

/-! Parameters: the inputs that an experiment tunes. Numeric ones have bounds, categorical ones a
list of values. -/

namespace WorkloadTuning

structure Parameter where
  name : String := ""
  min : Int32 := 0
  max : Int32 := 0
  values : List String := []
  baseline : Option IntOrString := none
deriving DecidableEq, Repr, Inhabited

namespace Parameter

def integer (name : String) (min max baseline : Int32) : Parameter :=
  { name, min, max, baseline := some (.int baseline) }

def categorical (name : String) (values : List String) (baseline : String) : Parameter :=
  { name, values, baseline := some (.string baseline) }

def isCategorical (p : Parameter) : Bool :=
  !p.values.isEmpty

/-- The parameter can take one value only. -/
def isDegenerate (p : Parameter) : Bool :=
  p.min == p.max && p.values.isEmpty

def take (p : Parameter) (key : String) (value : Json) : Decoded Parameter :=
  match key with
  | "name" => return { p with name := ← Record.ofJson value }
  | "min" => return { p with min := ← Record.ofJson value }
  | "max" => return { p with max := ← Record.ofJson value }
  | "values" => return { p with values := ← Record.ofJson value }
  | "baseline" => return { p with baseline := ← Record.ofJson value }
  | _ => return p

open Record in
instance : Record Parameter where
  toJson p := .object (member "name" p.name ++ member "min" p.min ++ member "max" p.max ++
    listMember "values" p.values ++ optionMember "baseline" p.baseline)
  ofJson := read take {} ["name", "min", "max", "values", "baseline"] ["name"]

end Parameter

end WorkloadTuning
