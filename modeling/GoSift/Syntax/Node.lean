import GoSift.Syntax.Printer
import GoSift.Syntax.Same

/-! Nodes: what a pattern can match and a wildcard can stand for. -/
namespace GoSift

/-- A syntax tree or a list of them. -/
inductive Node where
  | expr (x : Expr)
  | stmt (s : Stmt)
  | field (f : Field)
  | exprs (xs : List Expr)
  | stmts (ss : List Stmt)
  | fields (fs : List Field)

namespace Node

/-- Where a node starts; an empty list starts nowhere. -/
def pos? : Node → Option Position
  | expr x => some x.pos
  | stmt s => some s.pos
  | field f => some f.pos
  | exprs xs => xs.head?.map Expr.pos
  | stmts ss => ss.head?.map Stmt.pos
  | fields fs => fs.head?.map Field.pos

def isList : Node → Bool
  | exprs _ | stmts _ | fields _ => true
  | expr _ | stmt _ | field _ => false

/-- The number of elements; a single node counts as one. -/
def size : Node → Nat
  | exprs xs => xs.length
  | stmts ss => ss.length
  | fields fs => fs.length
  | expr _ | stmt _ | field _ => 1

def kindName : Node → String
  | expr x => x.kindName
  | stmt s => s.kindName
  | field _ => "Field"
  | exprs _ => "ExprList"
  | stmts _ => "StmtList"
  | fields _ => "FieldList"

def text : Node → String
  | expr x => x.text
  | stmt s => s.text
  | field f => f.text
  | exprs xs => joinWith ", " (Expr.texts xs)
  | stmts ss => joinWith "; " (Stmt.texts ss)
  | fields fs => joinWith ", " (Field.texts fs)

/-- Equality without regard to places. -/
def same : Node → Node → Bool
  | expr x, expr x' => x.same x'
  | stmt s, stmt s' => s.same s'
  | field f, field f' => f.same f'
  | exprs xs, exprs xs' => Expr.sameList xs xs'
  | stmts ss, stmts ss' => Stmt.sameList ss ss'
  | fields fs, fields fs' => Field.sameList fs fs'
  | _, _ => false

/-- The element of a list at an index, as a node. -/
def element? : Node → Nat → Option Node
  | exprs xs, i => xs[i]?.map expr
  | stmts ss, i => ss[i]?.map stmt
  | fields fs, i => fs[i]?.map field
  | expr _, _ | stmt _, _ | field _, _ => none

end Node

end GoSift
