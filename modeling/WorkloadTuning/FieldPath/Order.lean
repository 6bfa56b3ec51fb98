import WorkloadTuning.FieldPath.Basic

/-! The order of field paths: shorter ones first, those of one length step by step. Fields come
before element matches, and these before wildcards. -/

namespace WorkloadTuning

namespace Segment

def rank : Segment → Nat
  | field _ => 0
  | element .. => 1
  | wildcard => 2

def order : Segment → Segment → Ordering
  | field a, field b => compare a b
  | element k v, element l w => (compare k l).then (compare v w)
  | a, b => compare a.rank b.rank

end Segment

namespace FieldPath

def orderSegments : List Segment → List Segment → Ordering
  | [], [] => .eq
  | [], _ :: _ => .lt
  | _ :: _, [] => .gt
  | a :: as, b :: bs => (a.order b).then (orderSegments as bs)

def order (a b : FieldPath) : Ordering :=
  (compare a.segments.length b.segments.length).then (orderSegments a.segments b.segments)

/-- The paths in their order; equal ones stay as they are. -/
def sort (paths : List FieldPath) : List FieldPath :=
  paths.mergeSort fun a b => (a.order b).isLE

end FieldPath

end WorkloadTuning
