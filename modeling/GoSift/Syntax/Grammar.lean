import GoSift.Syntax.Grammar.Decl

/-!
The grammar tied together. `Grammar.step` goes one level deeper than a given grammar; repeated often
enough it no longer depends on where it began, since each level takes a token.
-/
namespace GoSift

namespace Grammar

/-- The grammar that uses `g` for its parts. -/
def step (g : Grammar) : Grammar
  | .binary least => binaryExpr g least
  | .binaryTail least x => binaryTail g least x
  | .unary => unaryExpr g
  | .primaryTail x => primaryTail g x
  | .type => typeExpr g
  | .exprs => exprs g
  | .args => args g
  | .elements => elements g
  | .params => params g
  | .fields => fields g
  | .methods => methods g
  | .names => names g
  | .stmt => stmt g
  | .stmts => stmts g
  | .clauses => clauses g
  | .importSpecs => importSpecs g
  | .imports => imports g
  | .funcs => funcs g
  | .decls => decls g

/-- The grammar to the given depth; below it everything is unexpected. -/
def bounded : Nat → Grammar
  | 0 => fun _ c => .error (.unexpected c.current) c
  | n + 1 => step (bounded n)

/-- The grammar, as deep as the tokens at the cursor can ask for. -/
def full : Grammar := fun n c =>
  bounded (c.size + 1) n c

end Grammar

end GoSift
