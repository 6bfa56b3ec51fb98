import WorkloadTuning.IntOrString
import WorkloadTuning.Text.Blank
import WorkloadTuning.Text.Cut

/-! Templates: documents whose texts hold placeholders for parameter values. A text that is one
placeholder takes the kind of the value bound to it; in any other text the value is spelled out. -/

namespace WorkloadTuning

inductive TemplateError where
  | unterminated (text : String)
  | unsupported (expression : String)
  | missing (name : String)
deriving DecidableEq, Repr

def TemplateError.message : TemplateError → String
  | unterminated text => s!"unterminated placeholder in '{text}'"
  | unsupported expression =>
    s!"unsupported placeholder expression '{expression}', expected '.Values.<name>'"
  | missing name => s!"no value assigned to parameter '{name}'"

/-- Parameter values by name. -/
abbrev Bindings := Dict IntOrString

/-- The names in byte order, each once. -/
def sortedNames (names : List String) : List String :=
  names.eraseDups.mergeSort fun a b => a ≤ b

namespace Template

def opening : List Char := "\x7b\x7b".toList

def closing : List Char := "\x7d\x7d".toList

def valuesWord : List Char := ".Values.".toList

/-- The placeholder of a parameter. -/
def placeholder (name : String) : String :=
  "\x7b\x7b .Values." ++ name ++ " \x7d\x7d"

inductive Piece where
  | text (chars : List Char)
  | parameter (name : String)
deriving DecidableEq, Repr

def isNameChar (c : Char) : Bool :=
  c.isAlphanum || c == '_' || c == '-' || c == '.'

/-- The parameter that the inside of a placeholder refers to. -/
def parameterOf (inside : List Char) : Except TemplateError String :=
  let expression := Text.trim inside
  match Text.dropStart? valuesWord expression with
  | some name =>
    if name.isEmpty || !name.all isNameChar then .error (.unsupported (String.ofList expression))
    else .ok (String.ofList name)
  | none => .error (.unsupported (String.ofList expression))

def textPieces (chars : List Char) : List Piece :=
  if chars.isEmpty then [] else [.text chars]

/-- Texts and placeholders by turns; `whole` is named when a placeholder is not closed. -/
def piecesFrom (whole : String) (rest : List Char) : Except TemplateError (List Piece) :=
  match _opened : Text.cut? opening rest with
  | none => .ok (textPieces rest)
  | some (before, after) =>
    match _closed : Text.cut? closing after with
    | none => .error (.unterminated whole)
    | some (inside, rest') => do
      let name ← parameterOf inside
      let later ← piecesFrom whole rest'
      return textPieces before ++ .parameter name :: later
termination_by rest.length
decreasing_by
  have := congrArg List.length (Text.cut?_eq _opened)
  have := congrArg List.length (Text.cut?_eq _closed)
  simp [opening, closing] at *
  omega

/-- The pieces of a text. -/
def pieces (text : String) : Except TemplateError (List Piece) :=
  piecesFrom text text.toList

def lookup (bindings : Bindings) (name : String) : Except TemplateError IntOrString :=
  match bindings.get? name with
  | some value => .ok value
  | none => .error (.missing name)

def renderPiece (bindings : Bindings) : Piece → Except TemplateError String
  | .text chars => .ok (String.ofList chars)
  | .parameter name => (lookup bindings name).map IntOrString.toText

def renderString (bindings : Bindings) (text : String) : Except TemplateError Json := do
  match ← pieces text with
  | [.parameter name] => (lookup bindings name).map Record.toJson
  | parts => return .string (String.join (← parts.mapM (renderPiece bindings)))

mutual

/-- The document with every placeholder replaced by the value bound to it. -/
def render (bindings : Bindings) : Json → Except TemplateError Json
  | .string text => renderString bindings text
  | .array items => (renderItems bindings items).map .array
  | .object members => (renderMembers bindings members).map .object
  | .null => .ok .null
  | .bool b => .ok (.bool b)
  | .number n => .ok (.number n)

def renderItems (bindings : Bindings) : List Json → Except TemplateError (List Json)
  | [] => .ok []
  | item :: rest => do
    let rendered ← render bindings item
    return rendered :: (← renderItems bindings rest)

def renderMembers (bindings : Bindings) : List (String × Json) → Except TemplateError Members
  | [] => .ok []
  | (key, value) :: rest => do
    let rendered ← render bindings value
    return (key, rendered) :: (← renderMembers bindings rest)

end

def parameterNames : List Piece → List String
  | [] => []
  | .text _ :: rest => parameterNames rest
  | .parameter name :: rest => name :: parameterNames rest

mutual

/-- The parameters that the document refers to, in document order. -/
def mentions : Json → Except TemplateError (List String)
  | .string text => (pieces text).map parameterNames
  | .array items => mentionsItems items
  | .object members => mentionsMembers members
  | _ => .ok []

def mentionsItems : List Json → Except TemplateError (List String)
  | [] => .ok []
  | item :: rest => do
    let names ← mentions item
    return names ++ (← mentionsItems rest)

def mentionsMembers : List (String × Json) → Except TemplateError (List String)
  | [] => .ok []
  | (_, value) :: rest => do
    let names ← mentions value
    return names ++ (← mentionsMembers rest)

end

/-- The names of the parameters that the document refers to, in order and each once. -/
def references (template : Json) : Except TemplateError (List String) :=
  (mentions template).map sortedNames

end Template

end WorkloadTuning
