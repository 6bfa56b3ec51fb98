import WorkloadTuning.Regex.Parser

/-! Libraries for regular expressions. What patterns mean is up to the library: it compiles them, and
looks for what they are compiled to. -/

namespace WorkloadTuning

/-- A library for regular expressions. -/
class RegexEngine where
  /-- What a pattern is compiled to. -/
  Expression : Type
  compile? : String → Option Expression
  /-- The expression matches somewhere in the text. -/
  isMatch : Expression → String → Bool

/-- The library used by default, which takes most of the common notation. It refuses classes of
Unicode properties and the flag `R`, takes `\w`, `\d` and `\s` for Unicode classes also where the flag
`u` is off, and estimates the room that an expression takes. -/
instance Regex.engine : RegexEngine where
  Expression := Regex
  compile? := Regex.parse?
  isMatch := Regex.matchesIn

end WorkloadTuning
