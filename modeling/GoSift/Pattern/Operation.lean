import GoSift.Syntax.Basic

/-!
The operations of compiled patterns. Each stands for one shape of syntax; its arguments follow it in
the code, and an argument that is a list is a run of instructions up to a closing one.
-/
namespace GoSift.Pattern

/-- Where a wildcard stands: for one node, for a run of elements of a list, or for a part that may be
absent. -/
inductive Slot where
  | single
  | seq
  | opt
deriving DecidableEq, Repr

/-- The shapes a pattern can ask for.

* `wildcard` binds a name if `named`.
* `exprList` and `stmtList` are roots of patterns for several nodes in a row.
* `slice`, `cond`, `switch`, `typeSwitch` and `loop` say which optional parts the pattern spells out.
* `call` asks for a final `...`, forbids it, or leaves it open.
* `fixedSelector` and `fixedField` hold a name, where `selector` and `field` have an argument. -/
inductive Op where
  | wildcard (slot : Slot) (named : Bool)
  | stmtList
  | exprList
  | close
  | lit (kind : LitKind)
  | ident
  | index
  | slice (low high max : Bool)
  | funcLit
  | composite (typed : Bool)
  | fixedSelector
  | selector
  | typeAssert (typed : Bool)
  | structType
  | interfaceType
  | funcType (results : Bool)
  | arrayType (sized : Bool)
  | mapType
  | chanType
  | keyValue
  | ellipsis (typed : Bool)
  | star
  | unary
  | binary
  | paren
  | call (spread : Option Bool)
  | fieldList
  | unnamedField
  | fixedField
  | field
  | multiField
  | exprStmt
  | send
  | incDec
  | assign
  | multiAssign
  | var (typed : Bool)
  | go
  | defer
  | ret
  | branch (labeled : Bool)
  | labeled
  | block
  | empty
  | cond (init other : Bool)
  | switch (init tag : Bool)
  | typeSwitch (init : Bool)
  | clause
  | defaultClause
  | loop (init test post : Bool)
  | rangeAll
  | rangeKey
  | rangeKeyValue
deriving DecidableEq, Repr

/-- What an instruction holds besides its arguments: an operator or keyword, the direction of a
channel, or a text. -/
inductive Payload where
  | nothing
  | text
  | token
  | direction
  | tokenAndText
deriving DecidableEq, Repr

/-- An argument of an operation is one term, or a run of terms with a closing instruction. -/
inductive Arg where
  | one
  | run
deriving DecidableEq, Repr

namespace Op

/-- The name of an operation in listings. -/
def name : Op → String
  | wildcard slot named =>
    (if named then "Named" else "") ++ match slot with
      | .single => "Node"
      | .seq => "NodeSeq"
      | .opt => "OptNode"
  | stmtList => "MultiStmt"
  | exprList => "MultiExpr"
  | close => "End"
  | lit .int => "StrictIntLit"
  | lit .float => "StrictFloatLit"
  | lit .imag => "StrictComplexLit"
  | lit .char => "StrictCharLit"
  | lit .string => "StrictStringLit"
  | ident => "Ident"
  | index => "IndexExpr"
  | slice low high max =>
    "Slice" ++ (if low then "From" else "") ++ (if high then "To" else "")
      ++ (if max then "Cap" else "") ++ "Expr"
  | funcLit => "FuncLit"
  | composite typed => (if typed then "Typed" else "") ++ "CompositeLit"
  | fixedSelector => "SimpleSelectorExpr"
  | selector => "SelectorExpr"
  | typeAssert typed => if typed then "TypeAssertExpr" else "TypeSwitchAssertExpr"
  | structType => "StructType"
  | interfaceType => "InterfaceType"
  | funcType results => (if results then "" else "Void") ++ "FuncType"
  | arrayType sized => if sized then "ArrayType" else "SliceType"
  | mapType => "MapType"
  | chanType => "ChanType"
  | keyValue => "KeyValueExpr"
  | ellipsis typed => (if typed then "Typed" else "") ++ "Ellipsis"
  | star => "StarExpr"
  | unary => "UnaryExpr"
  | binary => "BinaryExpr"
  | paren => "ParenExpr"
  | call none => "CallExpr"
  | call (some true) => "VariadicCallExpr"
  | call (some false) => "NonVariadicCallExpr"
  | fieldList => "FieldList"
  | unnamedField => "UnnamedField"
  | fixedField => "SimpleField"
  | field => "Field"
  | multiField => "MultiField"
  | exprStmt => "ExprStmt"
  | send => "SendStmt"
  | incDec => "IncDecStmt"
  | assign => "AssignStmt"
  | multiAssign => "MultiAssignStmt"
  | var typed => (if typed then "Typed" else "") ++ "VarStmt"
  | go => "GoStmt"
  | defer => "DeferStmt"
  | ret => "ReturnStmt"
  | branch target => (if target then "Labeled" else "") ++ "BranchStmt"
  | labeled => "LabeledStmt"
  | block => "BlockStmt"
  | empty => "EmptyStmt"
  | cond init other =>
    "If" ++ (if init then "Init" else "") ++ (if other then "Else" else "") ++ "Stmt"
  | switch init tag =>
    (if init then "Init" else "") ++ (if tag then "Tag" else "") ++ "SwitchStmt"
  | typeSwitch init => "TypeSwitch" ++ (if init then "Init" else "") ++ "Stmt"
  | clause => "CaseClause"
  | defaultClause => "DefaultCaseClause"
  | loop init test post =>
    "For" ++ (if init then "Init" else "") ++ (if test then "Cond" else "")
      ++ (if post then "Post" else "") ++ "Stmt"
  | rangeAll => "RangeStmt"
  | rangeKey => "RangeKeyStmt"
  | rangeKeyValue => "RangeKeyValueStmt"

/-- The arguments of an operation, in order. -/
def args : Op → List Arg
  | wildcard .. | close | lit _ | ident | branch _ | empty => []
  | stmtList | exprList | fieldList | ret | block | defaultClause => [.run]
  | fixedSelector | structType | interfaceType | chanType | star | unary | paren | unnamedField
  | fixedField | exprStmt | incDec | go | defer | labeled => [.one]
  | index | funcLit | selector | mapType | keyValue | binary | field | send | assign | rangeAll =>
    [.one, .one]
  | call _ => [.one, .run]
  | multiField => [.run, .one]
  | multiAssign | clause => [.run, .run]
  | rangeKey => [.one, .one, .one]
  | rangeKeyValue => [.one, .one, .one, .one]
  | slice low high max => .one :: given low ++ given high ++ given max
  | composite typed => given typed ++ [.run]
  | typeAssert typed => .one :: given typed
  | funcType results => .one :: given results
  | arrayType sized => given sized ++ [.one]
  | ellipsis typed => given typed
  | var typed => .run :: given typed ++ [.run]
  | cond init other => given init ++ [.one, .one] ++ given other
  | switch init tag => given init ++ given tag ++ [.one]
  | typeSwitch init => given init ++ [.one, .one]
  | loop init test post => given init ++ given test ++ given post ++ [.one]
where
  /-- The argument for an optional part. -/
  given (present : Bool) : List Arg :=
    if present then [.one] else []

def payload : Op → Payload
  | wildcard _ true | lit _ | ident | fixedSelector | fixedField | labeled => .text
  | unary | binary | incDec | assign | multiAssign | branch false | rangeKey | rangeKeyValue => .token
  | branch true => .tokenAndText
  | chanType => .direction
  | _ => .nothing

def hasText (op : Op) : Bool :=
  op.payload = .text || op.payload = .tokenAndText

end Op

/-- The arguments that are runs, as a number whose bits are their indices. -/
def runBits : List Arg → Nat
  | [] => 0
  | .one :: args => 2 * runBits args
  | .run :: args => 2 * runBits args + 1

end GoSift.Pattern
