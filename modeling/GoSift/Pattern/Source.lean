import GoSift.Pattern.Encode
import GoSift.Syntax.Parse

/-!
Patterns written as source text. A text is read as expressions if it can be, else as statements.
-/
namespace GoSift.Pattern

/-- Whether the brackets that are `depth` deep open close in front of a name and another bracket. -/
def isReceiver (depth : Nat) : List Token.Kind → Bool
  | [] => false
  | .symbol .lParen :: rest => isReceiver (depth + 1) rest
  | .symbol .rParen :: rest =>
    if depth = 1 then
      match rest with
      | .ident _ :: .symbol .lParen :: _ => true
      | _ => false
    else isReceiver (depth - 1) rest
  | _ :: rest => isReceiver depth rest

/-- Whether tokens begin a declaration of a file. -/
def isDeclaration : List Token.Kind → Bool
  | .keyword .package :: _ | .keyword .import_ :: _ | .keyword .type :: _ | .keyword .const :: _ => true
  | .keyword .func :: .ident _ :: _ => true
  | .keyword .func :: .symbol .lParen :: rest => isReceiver 1 rest
  | _ => false

/-- Whether tokens hold no code. -/
def isBlank (ts : List Token) : Bool :=
  ts.all fun t => t.kind = .symbol .semiColon || t.kind = .eof

/-- The error of two attempts that lies further on, the second if they lie at one place. -/
def laterError (e e' : ParseError) : ParseError :=
  if e'.range.start.before e.range.start then e else e'

/-- The pattern that tokens spell. -/
def ofTokens (ts : List Token) : Except PatternError Pattern :=
  if isBlank ts then .error .empty
  else if isDeclaration (ts.map (·.kind)) then
    .error (.unsupported ((ts.head?.map (·.range)).getD default) .declaration)
  else
    match Expr.listParser.run ts with
    | .ok xs => ofExprs xs
    | .error e =>
      match Stmt.listParser.run ts with
      | .ok ss => ofStmts ss
      | .error e' => .error (.notCode (laterError e e'))

/-- Compiles a pattern. -/
def compile (src : String) : Except PatternError Pattern :=
  match Token.tokenize true src with
  | .ok ts => ofTokens ts
  | .error e => .error (.notCode (.lex e))

end GoSift.Pattern
