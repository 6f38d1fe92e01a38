import GoSift.Syntax.Error

/-! Why a text is not a pattern. -/
namespace GoSift

/-- Code that is well formed but no pattern. -/
inductive UnsupportedPattern where
  | declaration
  | variadicSelector
  | sliceBounds
deriving DecidableEq, Repr

def UnsupportedPattern.text : UnsupportedPattern → String
  | declaration => "declaration"
  | variadicSelector => "variadic wildcard as a selector"
  | sliceBounds => "3-index slice without a high bound"

/-- What a pattern has too much of. -/
inductive PatternLimit where
  | strings
  | expressions
  | statements
  | fields
  | nesting
deriving DecidableEq, Repr

def PatternLimit.text : PatternLimit → String
  | strings => "too many string literals"
  | expressions => "too many expressions"
  | statements => "too many statements"
  | fields => "too many fields"
  | nesting => "too deeply nested"

inductive PatternError where
  | empty
  | notCode (error : ParseError)
  | unsupported (range : Range) (what : UnsupportedPattern)
  | limit (what : PatternLimit)
deriving DecidableEq, Repr

namespace PatternError

/-- Where the error lies. One that concerns the whole pattern lies at its start. -/
def range : PatternError → Range
  | notCode error => error.range
  | unsupported range _ => range
  | empty | limit _ => default

def message : PatternError → String
  | empty => "empty source"
  | notCode error => "syntax error at " ++ error.range.start.text ++ ": " ++ error.message
  | unsupported _ what => "unsupported construct: " ++ what.text
  | limit what => "implementation limitation: " ++ what.text

end PatternError

end GoSift
