/-! Cutting a text at separators and putting the pieces together again. -/

namespace WorkloadTuning.Text

/-- What follows the start, if the text starts that way. -/
def dropStart? : List Char → List Char → Option (List Char)
  | [], s => some s
  | _ :: _, [] => none
  | c :: start, d :: s => if c = d then dropStart? start s else none

theorem dropStart?_eq_some_iff {start s rest : List Char} :
    dropStart? start s = some rest ↔ s = start ++ rest := by
  fun_induction dropStart? start s <;> simp_all [eq_comm]

/-- The parts before and after the first occurrence of the separator. -/
def cut? (separator : List Char) : List Char → Option (List Char × List Char)
  | [] => if separator.isEmpty then some ([], []) else none
  | c :: rest =>
    match dropStart? separator (c :: rest) with
    | some after => some ([], after)
    | none => (cut? separator rest).map fun (before, after) => (c :: before, after)

/-- The parts before and after the last occurrence of the character. -/
def cutLast? (separator : Char) : List Char → Option (List Char × List Char)
  | [] => none
  | c :: rest =>
    match cutLast? separator rest with
    | some (before, after) => some (c :: before, after)
    | none => if c = separator then some ([], rest) else none

/-- The pieces between the separators; there is always at least one. -/
def pieces (separator : Char) : List Char → List (List Char)
  | [] => [[]]
  | c :: rest =>
    if c = separator then [] :: pieces separator rest
    else
      match pieces separator rest with
      | [] => [[c]]
      | piece :: others => (c :: piece) :: others

/-- Take out every occurrence of the word, from left to right; the number counts the characters
of the current occurrence that are still to be skipped. -/
def withoutFrom (word : List Char) : Nat → List Char → List Char
  | _, [] => []
  | skipped + 1, _ :: rest => withoutFrom word skipped rest
  | 0, c :: rest =>
    if word.isPrefixOf (c :: rest) then withoutFrom word (word.length - 1) rest
    else c :: withoutFrom word 0 rest

def without (word s : List Char) : List Char :=
  withoutFrom word 0 s

/-- The texts one after another with the separator between neighbours. -/
def joined (separator : String) (parts : List String) : String :=
  separator.intercalate parts

theorem cut?_eq {separator s before after : List Char}
    (h : cut? separator s = some (before, after)) : s = before ++ separator ++ after := by
  induction s generalizing before with
  | nil =>
    unfold cut? at h
    split at h
    · simp_all
    · simp at h
  | cons c rest ih =>
    unfold cut? at h
    split at h
    · next found =>
      obtain ⟨rfl, rfl⟩ : [] = before ∧ _ = after := by simpa using h
      simpa using dropStart?_eq_some_iff.1 found
    · obtain ⟨⟨b, a⟩, hcut, heq⟩ := Option.map_eq_some_iff.1 h
      obtain ⟨rfl, rfl⟩ : c :: b = before ∧ a = after := by simpa using heq
      simp [ih hcut]

theorem pieces_ne_nil (separator : Char) (s : List Char) : pieces separator s ≠ [] := by
  induction s with
  | nil => simp [pieces]
  | cons c rest ih =>
    unfold pieces
    split
    · simp
    · split <;> simp

example : cut? "=".toList "a=b=c".toList = some ("a".toList, "b=c".toList) := by decide
example : cutLast? '/' "a/b/c".toList = some ("a/b".toList, "c".toList) := by decide
example : pieces ',' "a,,b".toList = ["a".toList, [], "b".toList] := by decide
example : without "aba".toList "xababa".toList = "xba".toList := by decide

end WorkloadTuning.Text
