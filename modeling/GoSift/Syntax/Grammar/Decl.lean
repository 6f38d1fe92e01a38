import GoSift.Syntax.Grammar.Stmt

/-! Imports and declarations of a file. -/
namespace GoSift

namespace Token.Kind

/-- The bracket depth behind a token that stands at the given depth. -/
def depthAfter (depth : Nat) : Kind → Nat
  | symbol .lParen | symbol .lBrace | symbol .lBracket => depth + 1
  | symbol .rParen | symbol .rBrace | symbol .rBracket => depth - 1
  | _ => depth

/-- Whether a declaration ends in front of a token at the given depth. -/
def endsDecl (depth : Nat) : Kind → Bool
  | eof => true
  | symbol .semiColon => depth = 0
  | _ => false

end Token.Kind

/-- Drops tokens up to the end of a declaration. -/
def skipTokens (depth : Nat) (t : Token) : List Token → Token × List Token
  | [] => (t, [])
  | u :: ts =>
    if t.kind.endsDecl depth then (t, u :: ts) else skipTokens (t.kind.depthAfter depth) u ts

/-- The cursor at the end of the declaration it stands at. -/
def Cursor.skipDecl (c : Cursor) : Cursor :=
  let (t, ts) := skipTokens 0 c.current c.rest
  { c with current := t, rest := ts }

namespace Grammar

open GoSift.Parser

/-- The path of an import, with the name it may be given. -/
def importSpec : Parser Import := do
  let name ←
    match ← kind with
    | .ident name =>
      let _ ← advance
      pure (some name)
    | .symbol .dot =>
      let _ ← advance
      pure (some ".")
    | _ => pure none
  let t ← advance
  match t.kind with
  | .literal .string path => return ⟨name, path⟩
  | _ => throw (.expected t .importPath)

/-- Imports up to the closing bracket. -/
def importSpecs (g : Grammar) : Parser (List Import) := do
  if (← kind) = .symbol .rParen then
    return []
  else
    let spec ← importSpec
    if ← eatSymbol .semiColon then
      return spec :: (← g .importSpecs)
    else
      return [spec]

/-- The imports of a file. -/
def imports (g : Grammar) : Parser (List Import) := do
  if ← eat (.keyword .import_) then
    let specs ←
      if ← eatSymbol .lParen then do
        let specs ← g .importSpecs
        let _ ← expectSymbol .rParen
        pure specs
      else List.singleton <$> importSpec
    stmtEnd
    return specs ++ (← g .imports)
  else
    return []

/-- The receiver of a method, if there is one. -/
def receiver (g : Grammar) (pos : Position) : Parser (Option Field) := do
  if (← kind) = .symbol .lParen then
    match ← paramList g with
    | [field] => return some field
    | _ => throw (.malformed (.point pos) .receiverCount)
  else
    return none

def func (g : Grammar) : Parser Func := do
  let pos ← here
  let _ ← expectKeyword .func
  let recv ← receiver g pos
  let name ← identName
  let (params, results) ← signature g
  let body ← if (← kind) = .symbol .lBrace then some <$> block g else pure none
  return ⟨pos, recv, name, params, results, body⟩

/-- Functions up to the end. -/
def funcs (g : Grammar) : Parser (List Func) := do
  match ← kind with
  | .eof => return []
  | .symbol .semiColon =>
    let _ ← advance
    g .funcs
  | _ =>
    let f ← func g
    stmtEnd
    return f :: (← g .funcs)

/-- The functions among the declarations up to the end. Other declarations are passed over. -/
def decls (g : Grammar) : Parser (List Func) := do
  match ← kind with
  | .eof => return []
  | .symbol .semiColon =>
    let _ ← advance
    g .decls
  | .keyword .func =>
    let f ← func g
    stmtEnd
    return f :: (← g .decls)
  | .keyword .var | .keyword .const | .keyword .type =>
    modify Cursor.skipDecl
    g .decls
  | _ => throw (.unexpected (← current))

end Grammar

end GoSift
