import WorkloadTuning.Text.CaseTable

/-! Upper and lower case of a text. A character may become several (`ß` is `SS` in upper case), and
a capital sigma that ends a word becomes the final sigma in lower case. -/

namespace WorkloadTuning.Text

def inRanges (ranges : Array (Nat × Nat)) (c : Char) : Bool :=
  ranges.any fun (first, last) => first ≤ c.toNat && c.toNat ≤ last

def isCased (c : Char) : Bool :=
  inRanges casedRanges c

def isCaseIgnorable (c : Char) : Bool :=
  inRanges caseIgnorableRanges c

/-- The character's counterpart: the expansion listed for it, or else its run's offset applied. -/
def counterpart (runs : Array CaseRun) (expansions : Array (Nat × List Nat)) (c : Char) :
    List Char :=
  match expansions.find? fun (code, _) => code == c.toNat with
  | some (_, codes) => codes.map Char.ofNat
  | none =>
    match runs.find? fun run => run.covers c.toNat with
    | some run => [Char.ofNat (c.toNat + run.offset).toNat]
    | none => [c]

def upperOf (c : Char) : List Char :=
  if c.toNat < 128 then [c.toUpper] else counterpart upperRuns upperExpansions c

def lowerOf (c : Char) : List Char :=
  if c.toNat < 128 then [c.toLower] else counterpart lowerRuns lowerExpansions c

/-- The nearest character that is not to be ignored has a case. -/
def facesCased (s : List Char) : Bool :=
  (s.dropWhile isCaseIgnorable).head?.any isCased

/-- A sigma ends a word when a cased character comes before it and none after it. -/
def lowerFrom (before : List Char) : List Char → List Char
  | [] => []
  | c :: rest =>
    let lowered :=
      if c = 'Σ' then
        if facesCased before && !facesCased rest then ['ς'] else ['σ']
      else lowerOf c
    lowered ++ lowerFrom (c :: before) rest

/-- Lower case of the text. -/
def lower (s : String) : String :=
  String.ofList (lowerFrom [] s.toList)

/-- Upper case of the text. -/
def upper (s : String) : String :=
  String.ofList (s.toList.flatMap upperOf)

end WorkloadTuning.Text
