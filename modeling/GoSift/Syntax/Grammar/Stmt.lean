import GoSift.Syntax.Grammar.Expr

/-! Statements. -/
namespace GoSift

/-- What a simple statement may be where it stands: only that, also a labelled statement, or also a
range clause. -/
inductive SimpleMode where
  | basic
  | labeled
  | header
deriving DecidableEq, Repr

/-- `key, value := range x`, in the header of a loop. -/
structure RangeClause where
  pos : Position
  key : Option Expr
  value : Option Expr
  define : Bool
  x : Expr

/-- A simple statement, or the range clause found in its place. -/
inductive Simple where
  | stmt (s : Stmt)
  | range (clause : RangeClause)

/-- The header of a loop. -/
inductive LoopHeader where
  | clauses (init : Option Stmt) (test : Option Expr) (post : Option Stmt)
  | range (clause : RangeClause)

namespace Grammar

open GoSift.Parser

/-- The only one of the expressions in front of the token `t`. -/
def single (t : Token) : List Expr → Parser Expr
  | [x] => return x
  | _ => throw (.malformed t.range .oneExpression)

/-- A range clause over the variables `vars`, behind its keyword. -/
def rangeClause (g : Grammar) (pos : Position) (vars : List Expr) (define : Bool) :
    Parser RangeClause := do
  let x ← g.expr
  return ⟨pos, vars[0]?, vars[1]?, define, x⟩

/-- An assignment to `lhs`, behind its operator `t`. -/
def assignment (g : Grammar) (mode : SimpleMode) (pos : Position) (lhs : List Expr) (t : Token)
    (op : AssignOp) : Parser Simple := do
  if mode = .header && (op matches .assign | .define) && (← kind) = .keyword .range then
    let _ ← advance
    if 2 < lhs.length then
      throw (.malformed t.range .rangeVariables)
    else
      return .range (← rangeClause g pos lhs (op = .define))
  else
    return .stmt (.assign pos lhs op (← g .exprs))

/-- The statement behind a label. Right in front of a closing brace it is empty. -/
def labeledStmt (g : Grammar) (pos : Position) (label : String) : Parser Stmt := do
  let t ← current
  if t.kind = .symbol .rBrace then
    return .labeled pos label (.empty t.start)
  else
    return .labeled pos label (← g .stmt)

/-- A simple statement that begins with the expressions `lhs` and is no assignment. -/
def simpleTail (g : Grammar) (mode : SimpleMode) (pos : Position) (lhs : List Expr) (t : Token) :
    Parser Stmt := do
  match t.kind, mode, lhs with
  | .symbol .colon, .labeled, [.ident _ label] =>
    let _ ← advance
    labeledStmt g pos label
  | .symbol .arrow, _, lhs =>
    let _ ← advance
    let chan ← single t lhs
    return .send pos chan (← g.expr)
  | .symbol .inc, _, lhs =>
    let _ ← advance
    return .incDec pos (← single t lhs) true
  | .symbol .dec, _, lhs =>
    let _ ← advance
    return .incDec pos (← single t lhs) false
  | _, _, lhs => return .expr pos (← single t lhs)

def simple (g : Grammar) (mode : SimpleMode) : Parser Simple := do
  let first ← current
  let pos := first.start
  if mode = .header && first.kind = .keyword .range then
    let _ ← advance
    return .range (← rangeClause g pos [] false)
  else
    let lhs ← exprs g
    let t ← current
    let op? := match t.kind with
      | .symbol sym => AssignOp.ofSymbol? sym
      | _ => none
    match op? with
    | some op =>
      let _ ← advance
      assignment g mode pos lhs t op
    | none => return .stmt (← simpleTail g mode pos lhs t)

/-- A simple statement where no range clause may stand. -/
def simpleStmt (g : Grammar) (mode : SimpleMode) : Parser Stmt := do
  match ← simple g mode with
  | .stmt s => return s
  | .range clause => throw (.malformed (.point clause.pos) .strayRange)

/-- The declaration of variables, behind its keyword. -/
def varDecl (g : Grammar) (pos : Position) : Parser Stmt := do
  let names ← g .names
  let type ←
    match ← kind with
    | .symbol .assign | .symbol .semiColon | .symbol .rBrace | .eof => pure none
    | _ => some <$> g .type
  let values ← if ← eatSymbol .assign then g .exprs else pure []
  return .var pos names type values

/-- The results of a return statement. -/
def results (g : Grammar) : Parser (List Expr) := do
  match ← kind with
  | .symbol .semiColon | .symbol .rBrace | .eof => return []
  | _ => g .exprs

/-- The label a jump may have. -/
def branchLabel : Parser (Option String) := do
  match ← kind with
  | .ident name =>
    let _ ← advance
    return some name
  | _ => return none

/-- The header of a condition: a statement that runs first, and the test. -/
def condHeader (g : Grammar) : Parser (Option Stmt × Expr) := do
  let init ←
    if (← kind) = .symbol .semiColon then pure none else some <$> simpleStmt g .basic
  if ← eatSymbol .semiColon then
    return (init, ← g.expr)
  else
    match init with
    | some (.expr _ test) => return (none, test)
    | _ => wanted .condition

def condStmt (g : Grammar) (pos : Position) : Parser Stmt := do
  let _ ← advance
  if (← kind) = .symbol .lBrace then
    wanted .condition
  else
    let (init, test) ← inHeader (condHeader g)
    let body ← block g
    if ← eat (.keyword .else_) then
      match ← kind with
      | .keyword .if_ => return .cond pos init test body (some (← g .stmt))
      | .symbol .lBrace => return .cond pos init test body (some (← block g))
      | _ => wanted .branchBody
    else
      return .cond pos init test body none

/-- The header of a switch: a statement that runs first, and the tag or guard. -/
def switchHeader (g : Grammar) : Parser (Option Stmt × Option Stmt) := do
  if (← kind) = .symbol .lBrace then
    return (none, none)
  else
    let first ←
      if (← kind) = .symbol .semiColon then pure none else some <$> simpleStmt g .basic
    if ← eatSymbol .semiColon then
      if (← kind) = .symbol .lBrace then
        return (first, none)
      else
        return (first, some (← simpleStmt g .basic))
    else
      return (none, first)

def switchStmt (g : Grammar) (pos : Position) : Parser Stmt := do
  let _ ← advance
  let (init, tag) ← inHeader (switchHeader g)
  let bodyPos ← here
  let _ ← expectSymbol .lBrace
  let clauses ← g .clauses
  let _ ← expectSymbol .rBrace
  let body := Stmt.block bodyPos clauses
  match tag with
  | none => return .switch pos init none body
  | some guard =>
    if guard.isTypeSwitchGuard then
      return .typeSwitch pos init guard body
    else
      match guard with
      | .expr _ x => return .switch pos init (some x) body
      | _ => throw (.malformed (.point guard.pos) .switchTag)

/-- The header of a loop behind its first semicolon. -/
def loopClauses (g : Grammar) (init : Option Stmt) : Parser LoopHeader := do
  let test ← if (← kind) = .symbol .semiColon then pure none else some <$> g.expr
  let _ ← expectSymbol .semiColon
  let post ← if (← kind) = .symbol .lBrace then pure none else some <$> simpleStmt g .basic
  return .clauses init test post

def loopHeader (g : Grammar) : Parser LoopHeader := do
  match ← kind with
  | .symbol .lBrace => return .clauses none none none
  | .symbol .semiColon =>
    let _ ← advance
    loopClauses g none
  | _ =>
    match ← simple g .header with
    | .range clause => return .range clause
    | .stmt init =>
      if ← eatSymbol .semiColon then
        loopClauses g (some init)
      else
        match init with
        | .expr _ test => return .clauses none (some test) none
        | _ => wanted .loopCondition

def loopStmt (g : Grammar) (pos : Position) : Parser Stmt := do
  let _ ← advance
  let header ← inHeader (loopHeader g)
  let body ← block g
  match header with
  | .clauses init test post => return .loop pos init test post body
  | .range c => return .range pos c.key c.value c.define c.x body

def stmt (g : Grammar) : Parser Stmt := do
  let t ← current
  let pos := t.start
  match t.kind with
  | .keyword .var =>
    let _ ← advance
    varDecl g pos
  | .keyword .go =>
    let _ ← advance
    return .go pos (← g.expr)
  | .keyword .defer =>
    let _ ← advance
    return .defer pos (← g.expr)
  | .keyword .return_ =>
    let _ ← advance
    return .ret pos (← results g)
  | .keyword .if_ => condStmt g pos
  | .keyword .switch => switchStmt g pos
  | .keyword .for_ => loopStmt g pos
  | .keyword .const | .keyword .type | .keyword .select | .keyword .import_ | .keyword .package =>
    throw (.unexpected t)
  | .keyword word =>
    match Branch.ofKeyword? word with
    | some kind =>
      let _ ← advance
      return .branch pos kind (← branchLabel)
    | none => simpleStmt g .labeled
  | .symbol .lBrace => block g
  | .symbol .semiColon => return .empty pos
  | _ => simpleStmt g .labeled

/-- Statements up to a closing brace, the next clause, or the end. -/
def stmts (g : Grammar) : Parser (List Stmt) := do
  match ← kind with
  | .symbol .rBrace | .eof | .keyword .case_ | .keyword .default_ => return []
  | .symbol .semiColon =>
    let _ ← advance
    g .stmts
  | _ =>
    let s ← stmt g
    stmtEnd
    return s :: (← g .stmts)

/-- A clause of a switch, at its keyword. -/
def clause (g : Grammar) : Parser Stmt := do
  let t ← advance
  let list ← if t.kind = .keyword .case_ then some <$> g .exprs else pure none
  let _ ← expectSymbol .colon
  return .clause t.start list (← g .stmts)

/-- The clauses of a switch. A wildcard stands for any number of them. -/
def clauses (g : Grammar) : Parser (List Stmt) := do
  match ← kind with
  | .keyword .case_ | .keyword .default_ =>
    let c ← clause g
    return c :: (← g .clauses)
  | .wildcard _ _ =>
    let s ← stmt g
    stmtEnd
    return s :: (← g .clauses)
  | .symbol .semiColon =>
    let _ ← advance
    g .clauses
  | _ => return []

end Grammar

end GoSift
