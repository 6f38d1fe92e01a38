import GoSift.Syntax.Grammar.Basic

/-! Types, parameter lists and the fields of structs and interfaces. -/
namespace GoSift

namespace Token.Kind

/-- Whether a token can begin a type. A bracket is left to the caller. -/
def startsType : Kind → Bool
  | ident _ | wildcard _ _ => true
  | symbol sym => (sym matches .star | .lBracket | .arrow)
  | keyword word => (word matches .map | .chan | .func | .struct | .interface)
  | _ => false

def isName : Kind → Bool
  | ident _ | wildcard _ _ => true
  | _ => false

def isStringLiteral : Kind → Bool
  | literal .string _ => true
  | _ => false

end Token.Kind

/-- Groups `name, name type` entries into fields. `names` are those still without a type. -/
def groupParams (close : Range) : List Expr → List (Expr × Option Expr) → Except ParseError (List Field)
  | [], [] => .ok []
  | _ :: _, [] => .error (.malformed close .mixedParams)
  | names, (name, type) :: entries =>
    if name.identName?.isNone && name.wildcard?.isNone then
      .error (.malformed (.point name.pos) .mixedParams)
    else
      let names := names ++ [name]
      match type with
      | none => groupParams close names entries
      | some type =>
        (groupParams close [] entries).map (.mk (names.headD name).pos names type :: ·)

/-- The fields of a parameter list: all entries are types, or all are names with types, where names
in a row share the type behind them. -/
def paramFields (close : Range) (entries : List (Expr × Option Expr)) :
    Except ParseError (List Field) :=
  if entries.any (·.2.isSome) then groupParams close [] entries
  else .ok (entries.map fun (type, _) => .mk type.pos [] type)

namespace Grammar

open GoSift.Parser

/-- A bracketed parameter list. -/
def paramList (g : Grammar) : Parser (List Field) := do
  let _ ← expectSymbol .lParen
  let entries ← g .params
  let close ← expectSymbol .rParen
  match paramFields close.range entries with
  | .ok fields => return fields
  | .error e => throw e

/-- Parameters and results. -/
def signature (g : Grammar) : Parser (List Field × List Field) := do
  let params ← paramList g
  let t ← current
  if t.kind = .symbol .lParen then
    return (params, ← paramList g)
  else if t.kind.startsType then
    return (params, [.mk t.start [] (← g .type)])
  else
    return (params, [])

/-- The length of an array type, behind its opening bracket; a slice type has none. -/
def arrayLength (g : Grammar) : Parser (Option Expr) := do
  if ← eatSymbol .rBracket then
    return none
  else
    let t ← current
    let len ←
      if t.kind = .symbol .ellipsis then do
        let _ ← advance
        pure (.ellipsis t.start none)
      else bracketed g.expr
    let _ ← expectSymbol .rBracket
    return some len

/-- A type name, with its package in front if there is one. -/
def typeName (start : Position) : Parser Expr := do
  let x ← name
  if (← kind) = .symbol .dot && (← secondKind).isName then
    let _ ← advance
    let sel ← name
    return .selector start x sel
  else
    return x

/-- Fields or methods in braces, behind the word that begins the type. -/
def bracedFields (entries : Parser (List Field)) : Parser (List Field) := do
  let _ ← advance
  let _ ← expectSymbol .lBrace
  let fields ← entries
  let _ ← expectSymbol .rBrace
  return fields

def typeExpr (g : Grammar) : Parser Expr := do
  let t ← current
  let pos := t.start
  match t.kind with
  | .ident _ | .wildcard _ _ => typeName pos
  | .symbol .star =>
    let _ ← advance
    return .star pos (← g .type)
  | .symbol .lBracket =>
    let _ ← advance
    let len ← arrayLength g
    return .arrayType pos len (← g .type)
  | .keyword .map =>
    let _ ← advance
    let _ ← expectSymbol .lBracket
    let key ← g .type
    let _ ← expectSymbol .rBracket
    return .mapType pos key (← g .type)
  | .keyword .chan =>
    let _ ← advance
    let dir := if ← eatSymbol .arrow then ChanDir.send else .both
    return .chanType pos dir (← g .type)
  | .symbol .arrow =>
    let _ ← advance
    let _ ← expectKeyword .chan
    return .chanType pos .recv (← g .type)
  | .keyword .func =>
    let _ ← advance
    let (params, results) ← signature g
    return .funcType pos params results
  | .keyword .struct => return .structType pos (← bracedFields (g .fields))
  | .keyword .interface => return .interfaceType pos (← bracedFields (g .methods))
  | .symbol .lParen =>
    let _ ← advance
    let x ← g .type
    let _ ← expectSymbol .rParen
    return .paren pos x
  | _ => wanted .type

/-- The type of a parameter, which may be variadic. -/
def paramType (g : Grammar) : Parser Expr := do
  let t ← current
  if t.kind = .symbol .ellipsis then
    let _ ← advance
    return .ellipsis t.start (some (← g .type))
  else
    typeExpr g

/-- The entries of a parameter list, up to its closing bracket. -/
def params (g : Grammar) : Parser (List (Expr × Option Expr)) := do
  if (← kind) = .symbol .rParen then
    return []
  else
    let first ← paramType g
    let k ← kind
    let second ←
      if k = .symbol .comma || k = .symbol .rParen then pure none else some <$> paramType g
    if ← eatSymbol .comma then
      return (first, second) :: (← g .params)
    else
      return [(first, second)]

/-- Names with commas between them. -/
def names (g : Grammar) : Parser (List Expr) := do
  let x ← name
  if ← eatSymbol .comma then
    return x :: (← g .names)
  else
    return [x]

/-- A field of a struct, without its tag. -/
def structField (g : Grammar) : Parser Field := do
  let pos ← here
  let first ← typeExpr g
  if ← eatSymbol .comma then
    let names ← g .names
    return .mk pos (first :: names) (← g .type)
  else
    let k ← kind
    if k = .symbol .semiColon || k = .symbol .rBrace || k.isStringLiteral then
      return .mk pos [] first
    else
      return .mk pos [first] (← g .type)

/-- The fields of a struct, up to its closing brace. Tags are dropped. -/
def fields (g : Grammar) : Parser (List Field) := do
  if (← kind) = .symbol .rBrace then
    return []
  else
    let field ← structField g
    if (← kind).isStringLiteral then
      let _ ← advance
    if ← eatSymbol .semiColon then
      return field :: (← g .fields)
    else
      return [field]

/-- A method of an interface, or a type it embeds. -/
def method (g : Grammar) : Parser Field := do
  let t ← current
  if (t.kind matches .ident _) && (← secondKind) = .symbol .lParen then
    let x ← name
    let (params, results) ← signature g
    return .mk t.start [x] (.funcType t.start params results)
  else
    return .mk t.start [] (← typeExpr g)

/-- The methods of an interface, up to its closing brace. -/
def methods (g : Grammar) : Parser (List Field) := do
  if (← kind) = .symbol .rBrace then
    return []
  else
    let field ← method g
    if ← eatSymbol .semiColon then
      return field :: (← g .methods)
    else
      return [field]

end Grammar

end GoSift
