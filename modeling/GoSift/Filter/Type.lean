import GoSift.Syntax.Basic

/-! Types of the filter language. Beside the basic types there are opaque ones, known by name only. -/
namespace GoSift.Filter

inductive Ty where
  | bool
  | int
  | string
  | error
  | nil
  | named (name : String)
deriving DecidableEq, Repr

namespace Ty

/-- The written form. The type of `nil` cannot be written in a program. -/
def text : Ty → String
  | bool => "bool"
  | int => "int"
  | string => "string"
  | error => "error"
  | nil => "untyped nil"
  | named name => name

def ofName : String → Ty
  | "bool" => bool
  | "int" => int
  | "string" => string
  | "error" => error
  | name => named name

/-- The name of an opaque type: a name, a qualified name, or a pointer to one. -/
def typeName? : Expr → Option String
  | .ident _ name => some name
  | .star _ x => (typeName? x).map ("*" ++ ·)
  | .selector _ (.ident _ package) (.ident _ name) => some (package ++ "." ++ name)
  | _ => none
termination_by structural x => x

/-- The type an expression writes. Slices, maps and the like have none. -/
def ofExpr? : Expr → Option Ty
  | .ident _ name => some (ofName name)
  | .star pos x => (typeName? (.star pos x)).map named
  | .selector pos x sel => (typeName? (.selector pos x sel)).map named
  | .interfaceType _ [] => some (named "interface\x7b\x7d")
  | _ => none

/-- Whether values of the type can be compared with `nil`. -/
def isNillable : Ty → Bool
  | error | named _ | nil => true
  | bool | int | string => false

/-- Whether a value of type `t` can be used where the type `target` is wanted. -/
def isAssignableTo (t target : Ty) : Bool :=
  t = target || (t = nil && target.isNillable && target ≠ nil)

end Ty

/-- Types of parameters and results. -/
structure Signature where
  params : List Ty := []
  results : List Ty := []
deriving DecidableEq, Repr

namespace Signature

def listText (types : List Ty) : String :=
  ", ".intercalate (types.map Ty.text)

def text (sig : Signature) : String :=
  "func(" ++ listText sig.params ++ ")" ++ match sig.results with
    | [] => ""
    | [result] => " " ++ result.text
    | results => " (" ++ listText results ++ ")"

end Signature

end GoSift.Filter
