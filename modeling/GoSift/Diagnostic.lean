import GoSift.Rule.Error
import GoSift.Source.Span

/-! Diagnostics: an error with its code, the text it is about and the place in that text. -/
namespace GoSift

/-- What a diagnostic reports. -/
inductive Cause where
  | lex (error : LexError)
  | parse (error : ParseError)
  | pattern (error : PatternError)
  | filter (error : FilterError)
  | rule (error : RuleError)

def LexError.code : LexError → String
  | unexpectedCharacter .. => "LexerError::UnexpectedCharacter"
  | unexpectedWildcard .. => "LexerError::UnexpectedWildcard"

def LexError.help? : LexError → Option String
  | unexpectedCharacter .. => none
  | unexpectedWildcard .. => some "Wildcards such as `$x` can only be used in patterns."

def ParseError.code : ParseError → String
  | lex .. => "ParseError::Lexer"
  | unexpected .. => "ParseError::UnexpectedToken"
  | missing .. => "ParseError::ExpectedToken"
  | expected .. => "ParseError::Expected"
  | malformed .. => "ParseError::InvalidSyntax"

def PatternError.code : PatternError → String
  | empty => "PatternError::EmptySource"
  | notCode .. => "PatternError::Syntax"
  | unsupported .. => "PatternError::Unsupported"
  | limit .. => "PatternError::Limitation"

def PatternError.help? : PatternError → Option String
  | empty | notCode .. => none
  | unsupported .. => some "Patterns match expressions and statements, not declarations."
  | limit .. => some "Split the pattern into smaller patterns."

def FilterError.code (e : FilterError) : String :=
  match e.flaw with
  | .unsupported _ => "QuasigoError::Unsupported"
  | .assignToParam _ => "QuasigoError::AssignToParam"
  | .shadowing _ => "QuasigoError::Shadowing"
  | .tooManyLocals => "QuasigoError::TooManyLocals"
  | .tooManyConstants => "QuasigoError::TooManyConstants"
  | .tooManyFuncs => "QuasigoError::TooManyFuncs"
  | .resultCount => "QuasigoError::ResultCount"
  | .nakedReturn => "QuasigoError::NakedReturn"
  | .missingReturn => "QuasigoError::MissingReturn"
  | .undefined _ => "QuasigoError::Undefined"
  | .unsupportedType _ => "QuasigoError::UnsupportedType"
  | .type _ => "QuasigoError::Type"
  | .jumpTooFar => "QuasigoError::JumpOutOfRange"

def FilterError.help? (e : FilterError) : Option String :=
  match e.flaw with
  | .unsupported _ =>
    some "Filters support a subset of Go: if, for, locals, calls and basic types."
  | .tooManyLocals => some "Move part of the filter into a helper function."
  | _ => none

def RuleError.code : RuleError → String
  | malformedFile => "ConfigError::Toml"
  | duplicate .. => "ConfigError::DuplicateRule"
  | noPatterns .. => "ConfigError::NoPatterns"
  | pattern .. => "ConfigError::Pattern"
  | filterParse .. => "ConfigError::FilterSyntax"
  | filterCode _ _ e => e.code
  | filterEmpty .. => "ConfigError::EmptyFilter"
  | filterResult .. => "ConfigError::FilterResult"
  | filterParam .. => "ConfigError::FilterParam"

def RuleError.help? : RuleError → Option String
  | filterCode _ _ e => e.help?
  | filterParam .. =>
    some "Declare filter parameters as `name *Var`, where `$name` appears in a pattern."
  | _ => none

namespace Cause

def code : Cause → String
  | lex e => e.code
  | parse e => e.code
  | pattern e => e.code
  | filter e => e.code
  | rule e => e.code

def message : Cause → String
  | lex e => e.message
  | parse e => e.message
  | pattern e => e.message
  | filter e => e.message
  | rule e => e.message

def help? : Cause → Option String
  | lex e => e.help?
  | parse _ => none
  | pattern e => e.help?
  | filter e => e.help?
  | rule e => e.help?

end Cause

/-- A cause placed in the text it is about. -/
structure Diagnostic where
  cause : Cause
  source : String
  range : Option Range
  span : Span

namespace Diagnostic

/-- The diagnostic of a cause found in `text`. One of a rule may be about the text of a pattern or a
filter instead. -/
def ofCause (text : String) : Cause → Diagnostic
  | cause@(.lex e) => ⟨cause, text, some e.range, e.range.span text⟩
  | cause@(.parse e) => ⟨cause, text, some e.range, e.range.span text⟩
  | cause@(.pattern e) => ⟨cause, text, some e.range, e.range.span text⟩
  | cause@(.filter e) => ⟨cause, text, some e.range, e.range.span text⟩
  | cause@(.rule e) =>
    match e.place? with
    | some (text, range) => ⟨cause, text, some range, range.span text⟩
    | none => ⟨cause, text, none, ⟨0, 1⟩⟩

end Diagnostic

end GoSift
