import GoSift.Filter.Error
import GoSift.Pattern.Error

/-! Why rules cannot be loaded. -/
namespace GoSift

/-- What is wrong with a rule file or with one of its rules. Faults in a pattern or a filter come with
its text. -/
inductive RuleError where
  | malformedFile
  | duplicate (rule : String)
  | noPatterns (rule : String)
  | pattern (rule text : String) (error : PatternError)
  | filterParse (rule text : String) (error : ParseError)
  | filterCode (rule text : String) (error : FilterError)
  | filterEmpty (rule : String)
  | filterResult (rule : String)
  | filterParam (rule param : String)
deriving DecidableEq, Repr

namespace RuleError

def message : RuleError → String
  | malformedFile => "invalid rule file"
  | duplicate rule => "duplicate rule name " ++ rule
  | noPatterns rule => "rule " ++ rule ++ " has no patterns"
  | pattern rule _ e => "rule " ++ rule ++ ": invalid pattern: " ++ e.message
  | filterParse rule _ e => "rule " ++ rule ++ ": invalid filter: " ++ e.message
  | filterCode rule _ e => "rule " ++ rule ++ ": invalid filter: " ++ e.message
  | filterEmpty rule => "rule " ++ rule ++ ": filter declares no function"
  | filterResult rule => "rule " ++ rule ++ ": filter must return bool"
  | filterParam rule param =>
    "rule " ++ rule ++ ": filter parameter " ++ param ++ " must be a *Var named after a capture"

/-- The text that an error points into and the range in it. Without one it is about the rule file as a
whole. -/
def place? : RuleError → Option (String × Range)
  | pattern _ text e => some (text, e.range)
  | filterParse _ text e => some (text, e.range)
  | filterCode _ text e => some (text, e.range)
  | _ => none

end RuleError

end GoSift
