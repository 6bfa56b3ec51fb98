import WorkloadTuning.Quantity

/-! Constraints on the values that parameters may take together, and directives to the optimizer. -/

namespace WorkloadTuning

structure OrderConstraint where
  lowerParameter : String := ""
  upperParameter : String := ""
deriving DecidableEq, Repr, Inhabited

structure WeightedParameter where
  name : String := ""
  weight : Quantity := default
deriving DecidableEq, Repr, Inhabited

structure SumConstraint where
  isUpperBound : Bool := false
  bound : Quantity := default
  parameters : List WeightedParameter := []
deriving DecidableEq, Repr, Inhabited

structure Constraint where
  name : String := ""
  order : Option OrderConstraint := none
  sum : Option SumConstraint := none
deriving DecidableEq, Repr, Inhabited

structure Optimization where
  name : String := ""
  value : String := ""
deriving DecidableEq, Repr, Inhabited

open Record

namespace OrderConstraint

def take (c : OrderConstraint) (key : String) (value : Json) : Decoded OrderConstraint :=
  match key with
  | "lowerParameter" => return { c with lowerParameter := ← ofJson value }
  | "upperParameter" => return { c with upperParameter := ← ofJson value }
  | _ => return c

def fields : List String := ["lowerParameter", "upperParameter"]

def members (c : OrderConstraint) : Members :=
  member "lowerParameter" c.lowerParameter ++ member "upperParameter" c.upperParameter

instance : Record OrderConstraint where
  toJson c := .object c.members
  ofJson := read take {} fields fields

end OrderConstraint

namespace WeightedParameter

def take (p : WeightedParameter) (key : String) (value : Json) : Decoded WeightedParameter :=
  match key with
  | "name" => return { p with name := ← ofJson value }
  | "weight" => return { p with weight := ← ofJson value }
  | _ => return p

instance : Record WeightedParameter where
  toJson p := .object (member "name" p.name ++ member "weight" p.weight)
  ofJson := read take {} ["name", "weight"] ["name", "weight"]

end WeightedParameter

namespace SumConstraint

def take (c : SumConstraint) (key : String) (value : Json) : Decoded SumConstraint :=
  match key with
  | "isUpperBound" => return { c with isUpperBound := ← ofJson value }
  | "bound" => return { c with bound := ← ofJson value }
  | "parameters" => return { c with parameters := ← ofJson value }
  | _ => return c

instance : Record SumConstraint where
  toJson c := .object (member "isUpperBound" c.isUpperBound ++ member "bound" c.bound ++
    member "parameters" c.parameters)
  ofJson := read take {} ["isUpperBound", "bound", "parameters"] ["bound"]

end SumConstraint

namespace Constraint

def take (c : Constraint) (key : String) (value : Json) : Decoded Constraint :=
  match key with
  | "name" => return { c with name := ← ofJson value }
  | "order" => return { c with order := ← ofJson value }
  | "sum" => return { c with sum := ← ofJson value }
  | _ => return c

instance : Record Constraint where
  toJson c := .object (textMember "name" c.name ++ optionMember "order" c.order ++
    optionMember "sum" c.sum)
  ofJson := read take {} ["name", "order", "sum"] []

end Constraint

namespace Optimization

def take (o : Optimization) (key : String) (value : Json) : Decoded Optimization :=
  match key with
  | "name" => return { o with name := ← ofJson value }
  | "value" => return { o with value := ← ofJson value }
  | _ => return o

instance : Record Optimization where
  toJson o := .object (member "name" o.name ++ member "value" o.value)
  ofJson := read take {} ["name", "value"] ["name", "value"]

end Optimization

end WorkloadTuning
