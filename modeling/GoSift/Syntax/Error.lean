import GoSift.Token.Stream

/-! Why a text is not a piece of Go code. -/
namespace GoSift

/-- What the grammar wanted where it found another token. -/
inductive Expectation where
  | selector
  | operand
  | expression
  | type
  | identifier
  | importPath
  | condition
  | branchBody
  | loopCondition
deriving DecidableEq, Repr

def Expectation.text : Expectation → String
  | selector => "selector"
  | operand => "operand"
  | expression => "expression"
  | type => "type"
  | identifier => "identifier"
  | importPath => "import path"
  | condition => "condition"
  | branchBody => "if statement or block"
  | loopCondition => "for loop condition"

/-- Constructs whose tokens fit the grammar but which break a rule of their own. -/
inductive Malformed where
  | sliceBounds
  | mixedParams
  | receiverCount
  | strayRange
  | rangeVariables
  | oneExpression
  | switchTag
deriving DecidableEq, Repr

def Malformed.text : Malformed → String
  | sliceBounds => "middle and final index required in 3-index slice"
  | mixedParams => "mixed named and unnamed parameters"
  | receiverCount => "method must have exactly one receiver"
  | strayRange => "range clause is only allowed in for statements"
  | rangeVariables => "range clause permits at most two iteration variables"
  | oneExpression => "expected 1 expression"
  | switchTag => "switch expression must be an expression"

inductive ParseError where
  | lex (error : LexError)
  | unexpected (found : Token)
  | missing (found : Token) (wanted : Token.Kind)
  | expected (found : Token) (wanted : Expectation)
  | malformed (range : Range) (reason : Malformed)
deriving DecidableEq, Repr

namespace ParseError

def range : ParseError → Range
  | lex error => error.range
  | unexpected found | missing found _ | expected found _ => found.range
  | malformed range _ => range

def message : ParseError → String
  | lex error => error.message
  | unexpected found => "unexpected `" ++ found.text ++ "`"
  | missing found wanted => "expected `" ++ wanted.text ++ "`, found `" ++ found.text ++ "`"
  | expected found wanted => "expected " ++ wanted.text ++ ", found `" ++ found.text ++ "`"
  | malformed _ reason => reason.text

end ParseError

end GoSift
