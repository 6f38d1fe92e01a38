import GoSift.Syntax.Cursor

/-!
The recursive symbols of the grammar. A grammar gives a parser for each of them; the modules beside
this one make from a grammar the parsers that go one level deeper. Wherever they call the grammar, a
token has been taken before, so the depth that is needed is bounded by the number of tokens.
-/
namespace GoSift

/-- The symbols through which the grammar refers to itself.

* `binary` reads operators that bind at least as tightly as `least`, and `binaryTail` goes on behind
  a first operand;
* `primaryTail` goes on behind an operand with selectors, indices, calls and literals;
* the lists read their elements up to the closing token;
* `funcs` takes functions only, `decls` passes over other declarations. -/
inductive Nonterminal where
  | binary (least : Nat)
  | binaryTail (least : Nat) (x : Expr)
  | unary
  | primaryTail (x : Expr)
  | type
  | exprs
  | args
  | elements
  | params
  | fields
  | methods
  | names
  | stmt
  | stmts
  | clauses
  | importSpecs
  | imports
  | funcs
  | decls

/-- What a nonterminal reads. Arguments come with a mark for `...`, parameters as pairs of which the
second part may be missing. -/
abbrev Nonterminal.Tree : Nonterminal → Type
  | binary _ | binaryTail _ _ | unary | primaryTail _ | type => Expr
  | exprs | elements | names => List Expr
  | args => List Expr × Bool
  | params => List (Expr × Option Expr)
  | fields | methods => List Field
  | stmt => Stmt
  | stmts | clauses => List Stmt
  | importSpecs | imports => List Import
  | funcs | decls => List Func

/-- A parser for every nonterminal. -/
abbrev Grammar := (n : Nonterminal) → Parser n.Tree

namespace Grammar

/-- An expression. -/
def expr (g : Grammar) : Parser Expr :=
  g (.binary 1)

end Grammar

end GoSift
