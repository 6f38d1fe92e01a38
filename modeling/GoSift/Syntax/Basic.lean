import GoSift.Syntax.Operator

/-!
Syntax trees of expressions, statements, functions and files. Each node knows where it starts; the
place takes no part in what a node means.
-/
namespace GoSift

mutual

/-- Expressions and types.

* `composite` has no type where an element of another composite literal leaves it out.
* `selector` has an identifier or, in a pattern, a wildcard as its second part.
* `typeAssert` has no type in the form `x.(type)`.
* `call` has `spread` set when the last argument is followed by `...`.
* `arrayType` has no length when it is a slice type; its length may be an `ellipsis`.
* `slice` has `full` set in the form with three indices. -/
inductive Expr where
  | ident (pos : Position) (name : String)
  | wildcard (pos : Position) (name : String) (any : Bool)
  | lit (pos : Position) (kind : LitKind) (text : String)
  | composite (pos : Position) (type : Option Expr) (elts : List Expr)
  | funcLit (pos : Position) (params results : List Field) (body : Stmt)
  | paren (pos : Position) (x : Expr)
  | selector (pos : Position) (x sel : Expr)
  | index (pos : Position) (x i : Expr)
  | slice (pos : Position) (x : Expr) (low high max : Option Expr) (full : Bool)
  | typeAssert (pos : Position) (x : Expr) (type : Option Expr)
  | call (pos : Position) (fn : Expr) (args : List Expr) (spread : Bool)
  | star (pos : Position) (x : Expr)
  | unary (pos : Position) (op : UnaryOp) (x : Expr)
  | binary (pos : Position) (op : BinaryOp) (x y : Expr)
  | keyValue (pos : Position) (key value : Expr)
  | arrayType (pos : Position) (len : Option Expr) (elem : Expr)
  | ellipsis (pos : Position) (elem : Option Expr)
  | mapType (pos : Position) (key value : Expr)
  | chanType (pos : Position) (dir : ChanDir) (value : Expr)
  | funcType (pos : Position) (params results : List Field)
  | structType (pos : Position) (fields : List Field)
  | interfaceType (pos : Position) (methods : List Field)

/-- A parameter, result, struct field or interface method. The names are identifiers or wildcards;
an unnamed entry has none. -/
inductive Field where
  | mk (pos : Position) (names : List Expr) (type : Expr)

/-- Statements.

* The bodies of `cond`, `loop`, `range` and `switch` are blocks, and the `other` branch of `cond` is a
  block or another `cond`.
* `typeSwitch` has a guard of the form `x.(type)` or `v := x.(type)`.
* `clause` has no list when it is the default clause. -/
inductive Stmt where
  | expr (pos : Position) (x : Expr)
  | send (pos : Position) (chan value : Expr)
  | incDec (pos : Position) (x : Expr) (up : Bool)
  | assign (pos : Position) (lhs : List Expr) (op : AssignOp) (rhs : List Expr)
  | var (pos : Position) (names : List Expr) (type : Option Expr) (values : List Expr)
  | go (pos : Position) (call : Expr)
  | defer (pos : Position) (call : Expr)
  | ret (pos : Position) (results : List Expr)
  | branch (pos : Position) (kind : Branch) (label : Option String)
  | labeled (pos : Position) (label : String) (stmt : Stmt)
  | block (pos : Position) (stmts : List Stmt)
  | cond (pos : Position) (init : Option Stmt) (test : Expr) (body : Stmt) (other : Option Stmt)
  | switch (pos : Position) (init : Option Stmt) (tag : Option Expr) (body : Stmt)
  | typeSwitch (pos : Position) (init : Option Stmt) (guard : Stmt) (body : Stmt)
  | clause (pos : Position) (list : Option (List Expr)) (body : List Stmt)
  | loop (pos : Position) (init : Option Stmt) (test : Option Expr) (post : Option Stmt)
      (body : Stmt)
  | range (pos : Position) (key value : Option Expr) (define : Bool) (x : Expr) (body : Stmt)
  | empty (pos : Position)

end

/-- A function or method. It has no body when only declared. -/
structure Func where
  pos : Position
  recv : Option Field
  name : String
  params : List Field
  results : List Field
  body : Option Stmt

/-- An imported package; `path` is the literal as written. -/
structure Import where
  name : Option String
  path : String
deriving DecidableEq, Repr

/-- The parts of a source file that rules look at. Other declarations are left out. -/
structure File where
  package : String
  imports : List Import
  funcs : List Func

namespace Expr

def pos : Expr → Position
  | ident pos .. | wildcard pos .. | lit pos .. | composite pos .. | funcLit pos .. | paren pos ..
  | selector pos .. | index pos .. | slice pos .. | typeAssert pos .. | call pos .. | star pos ..
  | unary pos .. | binary pos .. | keyValue pos .. | arrayType pos .. | ellipsis pos ..
  | mapType pos .. | chanType pos .. | funcType pos .. | structType pos ..
  | interfaceType pos .. => pos

/-- The name of an identifier. -/
def identName? : Expr → Option String
  | ident _ name => some name
  | _ => none

/-- The name of a wildcard, and whether it stands for a run. -/
def wildcard? : Expr → Option (String × Bool)
  | wildcard _ name any => some (name, any)
  | _ => none

/-- Whether an expression can be the name of a type. -/
def isTypeName : Expr → Bool
  | ident .. | wildcard .. => true
  | selector _ (ident ..) _ => true
  | _ => false

/-- Whether an expression can be the type of a composite literal. -/
def isLiteralType : Expr → Bool
  | arrayType .. | structType .. | mapType .. => true
  | x => x.isTypeName

/-- The name of the kind of node. A wildcard counts as an identifier. -/
def kindName : Expr → String
  | ident .. | wildcard .. => "Ident"
  | lit .. => "BasicLit"
  | composite .. => "CompositeLit"
  | funcLit .. => "FuncLit"
  | paren .. => "ParenExpr"
  | selector .. => "SelectorExpr"
  | index .. => "IndexExpr"
  | slice .. => "SliceExpr"
  | typeAssert .. => "TypeAssertExpr"
  | call .. => "CallExpr"
  | star .. => "StarExpr"
  | unary .. => "UnaryExpr"
  | binary .. => "BinaryExpr"
  | keyValue .. => "KeyValueExpr"
  | arrayType .. => "ArrayType"
  | ellipsis .. => "Ellipsis"
  | mapType .. => "MapType"
  | chanType .. => "ChanType"
  | funcType .. => "FuncType"
  | structType .. => "StructType"
  | interfaceType .. => "InterfaceType"

end Expr

namespace Field

def pos : Field → Position
  | mk pos _ _ => pos

def names : Field → List Expr
  | mk _ names _ => names

def type : Field → Expr
  | mk _ _ type => type

end Field

namespace Stmt

def pos : Stmt → Position
  | expr pos .. | send pos .. | incDec pos .. | assign pos .. | var pos .. | go pos .. | defer pos ..
  | ret pos .. | branch pos .. | labeled pos .. | block pos .. | cond pos .. | switch pos ..
  | typeSwitch pos .. | clause pos .. | loop pos .. | range pos .. | empty pos => pos

/-- The statements of a block. -/
def blockStmts? : Stmt → Option (List Stmt)
  | block _ stmts => some stmts
  | _ => none

/-- The wildcard a statement consists of. -/
def wildcard? : Stmt → Option (String × Bool)
  | expr _ x => x.wildcard?
  | _ => none

/-- Whether a statement has the form `x.(type)` or `v := x.(type)`. -/
def isTypeSwitchGuard : Stmt → Bool
  | expr _ (.typeAssert _ _ none) => true
  | assign _ _ .define [.typeAssert _ _ none] => true
  | _ => false

def kindName : Stmt → String
  | expr .. => "ExprStmt"
  | send .. => "SendStmt"
  | incDec .. => "IncDecStmt"
  | assign .. => "AssignStmt"
  | var .. => "DeclStmt"
  | go .. => "GoStmt"
  | defer .. => "DeferStmt"
  | ret .. => "ReturnStmt"
  | branch .. => "BranchStmt"
  | labeled .. => "LabeledStmt"
  | block .. => "BlockStmt"
  | cond .. => "IfStmt"
  | switch .. => "SwitchStmt"
  | typeSwitch .. => "TypeSwitchStmt"
  | clause .. => "CaseClause"
  | loop .. => "ForStmt"
  | range .. => "RangeStmt"
  | empty .. => "EmptyStmt"

end Stmt

end GoSift
