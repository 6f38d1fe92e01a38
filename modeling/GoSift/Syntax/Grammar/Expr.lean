import GoSift.Syntax.Grammar.Type

/-!
Expressions. A binary expression is read by climbing: each operand takes the operators that bind more
tightly than the one in front of it, so operators of one level group to the left.
-/
namespace GoSift

namespace Grammar

open GoSift.Parser

/-- Statements in braces. -/
def block (g : Grammar) : Parser Stmt := do
  let pos ← here
  let _ ← expectSymbol .lBrace
  let stmts ← g .stmts
  let _ ← expectSymbol .rBrace
  return .block pos stmts

/-- A bound of a slice, behind its colon. -/
def sliceBound (g : Grammar) : Parser (Option Expr) := do
  let k ← kind
  if k = .symbol .colon || k = .symbol .rBracket then return none else some <$> g.expr

/-- The bounds behind the low one: as many as there are colons, two at most. -/
def sliceBounds (g : Grammar) : Parser (List (Option Expr)) := do
  if ← eatSymbol .colon then
    let high ← sliceBound g
    if ← eatSymbol .colon then
      return [high, ← sliceBound g]
    else
      return [high]
  else
    return []

/-- An index or slice of `x`, behind the opening bracket. -/
def indexOrSlice (g : Grammar) (x : Expr) : Parser Expr := do
  let low ← if (← kind) = .symbol .colon then pure none else some <$> g.expr
  let bounds ← sliceBounds g
  let close ← expectSymbol .rBracket
  match low, bounds with
  | some i, [] => return .index x.pos x i
  | none, [] => throw (.expected close .operand)
  | low, [high] => return .slice x.pos x low high none false
  | low, [some high, some max] => return .slice x.pos x low (some high) (some max) true
  | _, _ => throw (.malformed close.range .sliceBounds)

/-- A composite literal, at its opening brace. -/
def composite (g : Grammar) (type : Option Expr) : Parser Expr := do
  let opening ← expectSymbol .lBrace
  let elts ← bracketed (g .elements)
  let _ ← expectSymbol .rBrace
  return .composite ((type.map Expr.pos).getD opening.start) type elts

/-- A function type, or a function literal if a body follows. -/
def funcOperand (g : Grammar) (pos : Position) : Parser Expr := do
  let _ ← advance
  let (params, results) ← signature g
  if (← kind) = .symbol .lBrace then
    return .funcLit pos params results (← bracketed (block g))
  else
    return .funcType pos params results

def operand (g : Grammar) : Parser Expr := do
  let t ← current
  let pos := t.start
  match t.kind with
  | .ident _ | .wildcard _ _ => name
  | .literal kind text =>
    let _ ← advance
    return .lit pos kind text
  | .symbol .lParen =>
    let _ ← advance
    let x ← bracketed g.expr
    let _ ← expectSymbol .rParen
    return .paren pos x
  | .keyword .func => funcOperand g pos
  | .symbol .lBracket | .keyword .map | .keyword .chan | .keyword .struct | .keyword .interface =>
    typeExpr g
  | _ => wanted .expression

/-- What follows the dot behind `x`: a name, or a type in brackets. -/
def selection (g : Grammar) (x : Expr) : Parser Expr := do
  let t ← advance
  match t.kind with
  | .ident name => return .selector x.pos x (.ident t.start name)
  | .wildcard name any => return .selector x.pos x (.wildcard t.start name any)
  | .symbol .lParen =>
    let type ← if ← eat (.keyword .type) then pure none else some <$> g .type
    let _ ← expectSymbol .rParen
    return .typeAssert x.pos x type
  | _ => throw (.expected t .selector)

/-- Selectors, indices, calls and literal bodies behind `x`. A brace opens a literal only if `x` can be
a type, and in the header of a statement only if it cannot be a name. -/
def primaryTail (g : Grammar) (x : Expr) : Parser Expr := do
  match ← kind with
  | .symbol .dot =>
    let _ ← advance
    let x ← selection g x
    g (.primaryTail x)
  | .symbol .lBracket =>
    let _ ← advance
    let x ← bracketed (indexOrSlice g x)
    g (.primaryTail x)
  | .symbol .lParen =>
    let _ ← advance
    let (args, spread) ← bracketed do
      let list ← g .args
      let _ ← expectSymbol .rParen
      return list
    g (.primaryTail (.call x.pos x args spread))
  | .symbol .lBrace =>
    if x.isLiteralType && (0 ≤ (← level) || !x.isTypeName) then
      let x ← composite g (some x)
      g (.primaryTail x)
    else
      return x
  | _ => return x

def unaryExpr (g : Grammar) : Parser Expr := do
  let t ← current
  let pos := t.start
  match t.kind with
  | .symbol .star =>
    let _ ← advance
    return .star pos (← g .unary)
  | .symbol sym =>
    match UnaryOp.ofSymbol? sym with
    | none => primaryTail g (← operand g)
    | some op =>
      let _ ← advance
      if op = .recv && (← kind) = .keyword .chan then
        let _ ← advance
        return .chanType pos .recv (← g .type)
      else
        return .unary pos op (← g .unary)
  | _ => primaryTail g (← operand g)

/-- Operators behind `x` that bind at least as tightly as `least`, with their operands. -/
def binaryTail (g : Grammar) (least : Nat) (x : Expr) : Parser Expr := do
  match ← kind with
  | .symbol sym =>
    match BinaryOp.ofSymbol? sym with
    | none => return x
    | some op =>
      if op.precedence < least then
        return x
      else
        let _ ← advance
        let y ← g (.binary (op.precedence + 1))
        g (.binaryTail least (.binary x.pos op x y))
  | _ => return x

def binaryExpr (g : Grammar) (least : Nat) : Parser Expr := do
  binaryTail g least (← unaryExpr g)

/-- Expressions with commas between them, at least one. -/
def exprs (g : Grammar) : Parser (List Expr) := do
  let x ← binaryExpr g 1
  if ← eatSymbol .comma then
    return x :: (← g .exprs)
  else
    return [x]

/-- The arguments of a call, up to the closing bracket. -/
def args (g : Grammar) : Parser (List Expr × Bool) := do
  if (← kind) = .symbol .rParen then
    return ([], false)
  else
    let x ← binaryExpr g 1
    let spread ← eatSymbol .ellipsis
    if ← eatSymbol .comma then
      let (xs, later) ← g .args
      return (x :: xs, spread || later)
    else
      return ([x], spread)

/-- A key or a value in a composite literal. An inner literal may leave out its type. -/
def elementValue (g : Grammar) : Parser Expr := do
  if (← kind) = .symbol .lBrace then composite g none else binaryExpr g 1

/-- The elements of a composite literal, up to the closing brace. -/
def elements (g : Grammar) : Parser (List Expr) := do
  if (← kind) = .symbol .rBrace then
    return []
  else
    let key ← elementValue g
    let elt ←
      if ← eatSymbol .colon then
        pure (Expr.keyValue key.pos key (← elementValue g))
      else pure key
    if ← eatSymbol .comma then
      return elt :: (← g .elements)
    else
      return [elt]

end Grammar

end GoSift
