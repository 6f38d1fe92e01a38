import GoSift.Filter.Type
import GoSift.Syntax.Operator

/-! Why a function is not filter code. -/
namespace GoSift

namespace Filter

/-- Code that the filter language does not have. -/
inductive Construct where
  | switchStmt
  | typeSwitchStmt
  | clause
  | goStmt
  | deferStmt
  | sendStmt
  | varDecl
  | labeledStmt
  | rangeStmt
  | labeledBranch
  | gotoStmt
  | fallthroughStmt
  | stmt
  | compositeLit
  | funcLit
  | selector
  | index
  | fullSlice
  | typeAssert
  | deref
  | unary
  | keyValue
  | floatLit
  | imagLit
  | charLit
  | wildcard
  | typeExpr
  | noBody
  | manyParams
  | method
  | multiAssign
  | assignTarget
  | variadicCall
  | indirectCall
deriving DecidableEq, Repr

def Construct.text : Construct → String
  | switchStmt => "switch statement"
  | typeSwitchStmt => "type switch statement"
  | clause => "case clause"
  | goStmt => "go statement"
  | deferStmt => "defer statement"
  | sendStmt => "send statement"
  | varDecl => "var declaration"
  | labeledStmt => "labeled statement"
  | rangeStmt => "range statement"
  | labeledBranch => "labeled branch statement"
  | gotoStmt => "goto statement"
  | fallthroughStmt => "fallthrough statement"
  | stmt => "statement"
  | compositeLit => "composite literal"
  | funcLit => "func literal"
  | selector => "selector expression"
  | index => "index expression"
  | fullSlice => "3-index slice expression"
  | typeAssert => "type assertion"
  | deref => "pointer dereference"
  | unary => "unary expression"
  | keyValue => "key-value expression"
  | floatLit => "float literal"
  | imagLit => "imaginary literal"
  | charLit => "rune literal"
  | wildcard => "wildcard"
  | typeExpr => "type expression"
  | noBody => "function declaration without a body"
  | manyParams => "function with more than 255 params"
  | method => "method declaration"
  | multiAssign => "multi-value assignment"
  | assignTarget => "assignment to a non-identifier"
  | variadicCall => "variadic call"
  | indirectCall => "indirect call"

/-- Where a value is used. -/
inductive Use where
  | result
  | assignment
  | argument (callee : String)
deriving DecidableEq, Repr

def Use.text : Use → String
  | result => "return statement"
  | assignment => "assignment"
  | argument callee => "argument to " ++ callee

/-- Values that do not fit where they are used. Expressions are held as their text. -/
inductive TypeFault where
  | unused (x : String)
  | untypedNil
  | assignCount (call : String) (count : Nat)
  | step (x : String) (up : Bool) (type : Ty)
  | condition (loop : Bool)
  | strayBranch (kind : Branch)
  | intLiteral (text : String)
  | stringLiteral (text : String)
  | noValue (x : String)
  | manyValues (x : String)
  | operand (op x : String) (type : Ty)
  | mismatch (left right : Ty)
  | operator (op : BinaryOp) (type : Ty)
  | argCount (callee : String) (have_ want : Nat)
  | notAssignable (type target : Ty) (use : Use)
deriving DecidableEq, Repr

def TypeFault.text : TypeFault → String
  | unused x => x ++ " is not used"
  | untypedNil => "use of untyped nil in assignment"
  | assignCount call count =>
    "assignment mismatch: 2 variables but " ++ call ++ " returns " ++ toString count ++ " value(s)"
  | step x up type =>
    "invalid operation: " ++ x ++ stepText up ++ " (non-numeric type " ++ type.text ++ ")"
  | condition loop => "non-boolean condition in " ++ (if loop then "for" else "if") ++ " statement"
  | strayBranch kind => kind.text ++ " is not in a loop"
  | intLiteral text => "cannot use " ++ text ++ " as an int value"
  | stringLiteral text => "invalid string literal " ++ text
  | noValue x => x ++ " (no value) used as value"
  | manyValues x => "multiple-value " ++ x ++ " in single-value context"
  | operand op x type =>
    "invalid operation: operator " ++ op ++ " not defined on " ++ x ++ " (" ++ type.text ++ ")"
  | mismatch left right =>
    "invalid operation: mismatched types " ++ left.text ++ " and " ++ right.text
  | operator op type => "invalid operation: operator " ++ op.text ++ " not defined on " ++ type.text
  | argCount callee have_ want =>
    "wrong number of arguments in call to " ++ callee ++ ": have " ++ toString have_ ++ ", want "
      ++ toString want
  | notAssignable type target use =>
    "cannot use " ++ type.text ++ " value as " ++ target.text ++ " value in " ++ use.text

/-- What is wrong with a function. -/
inductive Flaw where
  | unsupported (what : Construct)
  | assignToParam (name : String)
  | shadowing (name : String)
  | tooManyLocals
  | tooManyConstants
  | tooManyFuncs
  | resultCount
  | nakedReturn
  | missingReturn
  | undefined (name : String)
  | unsupportedType (text : String)
  | type (fault : TypeFault)
  | jumpTooFar
deriving DecidableEq, Repr

def Flaw.text : Flaw → String
  | unsupported what => "can't compile " ++ what.text ++ " yet"
  | assignToParam name => "can't assign to " ++ name ++ ", params are readonly"
  | shadowing name => name ++ " variable shadowing is not allowed"
  | tooManyLocals => "too many locals"
  | tooManyConstants => "too many constants"
  | tooManyFuncs => "too many functions"
  | resultCount => "only functions with a single non-void results are supported"
  | nakedReturn => "naked return statements are not allowed"
  | missingReturn => "missing return at the end of the function"
  | undefined name => name ++ " is not defined"
  | unsupportedType text => "unsupported type " ++ text
  | type fault => fault.text
  | jumpTooFar => "jump offset out of range"

end Filter

/-- A flaw with its place. -/
structure FilterError where
  pos : Position
  flaw : Filter.Flaw
deriving DecidableEq, Repr

namespace FilterError

def range (e : FilterError) : Range :=
  .point e.pos

def message (e : FilterError) : String :=
  e.flaw.text

end FilterError

end GoSift
