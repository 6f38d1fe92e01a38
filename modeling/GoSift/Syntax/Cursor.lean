import GoSift.Syntax.Basic
import GoSift.Syntax.Error

/-!
The cursor of the parser: the token it looks at, those behind it, and how deep it is in brackets. It
moves forward only, and never past the end mark.
-/
namespace GoSift

/-- A place in a token stream. `level` counts the brackets around it; below zero it stands in the
header of a statement, where a brace behind a type name opens the body. -/
structure Cursor where
  level : Int
  current : Token
  rest : List Token

namespace Cursor

/-- The start of a token stream. -/
def ofTokens : List Token → Cursor
  | [] => ⟨0, ⟨.eof, default⟩, []⟩
  | t :: ts => ⟨0, t, ts⟩

/-- One token further, unless at the end. -/
def next (c : Cursor) : Cursor :=
  if c.current.kind = .eof then c
  else
    match c.rest with
    | [] => c
    | t :: ts => { c with current := t, rest := ts }

/-- The number of tokens ahead. -/
def size (c : Cursor) : Nat :=
  c.rest.length

end Cursor

/-- A parser moves a cursor and gives a result or an error. -/
abbrev Parser := EStateM ParseError Cursor

namespace Parser

/-- The token at the cursor. -/
def current : Parser Token := fun c => .ok c.current c

/-- The kind of the token at the cursor. -/
def kind : Parser Token.Kind := fun c => .ok c.current.kind c

/-- The kind of the token behind the one at the cursor; at the end, that of the last token. -/
def secondKind : Parser Token.Kind := fun c =>
  .ok (match c.rest with
    | [] => c.current.kind
    | t :: _ => t.kind) c

def here : Parser Position := fun c => .ok c.current.start c

/-- Takes the token at the cursor. -/
def advance : Parser Token := fun c => .ok c.current c.next

/-- Takes the token at the cursor if it is of the given kind. -/
def eat (kind : Token.Kind) : Parser Bool := fun c =>
  if c.current.kind = kind then .ok true c.next else .ok false c

def eatSymbol (sym : Symbol) : Parser Bool :=
  eat (.symbol sym)

def expect (kind : Token.Kind) : Parser Token := fun c =>
  if c.current.kind = kind then .ok c.current c.next else .error (.missing c.current kind) c

def expectSymbol (sym : Symbol) : Parser Token :=
  expect (.symbol sym)

def expectKeyword (word : Keyword) : Parser Token :=
  expect (.keyword word)

/-- Fails at the token at the cursor. -/
def wanted {α : Type} (what : Expectation) : Parser α := fun c =>
  .error (.expected c.current what) c

/-- Runs `p` at another level, which is changed again behind it, given the levels before and then. -/
def atLevel {α : Type} (enter : Int → Int) (leave : Int → Int → Int) (p : Parser α) : Parser α :=
  fun c =>
    match p { c with level := enter c.level } with
    | .ok a c' => .ok a { c' with level := leave c.level c'.level }
    | .error e c' => .error e { c' with level := leave c.level c'.level }

/-- Runs `p` inside one more pair of brackets. -/
def bracketed {α : Type} (p : Parser α) : Parser α :=
  atLevel (· + 1) (fun _ inner => inner - 1) p

/-- Runs `p` in the header of a statement, and puts the level back. -/
def inHeader {α : Type} (p : Parser α) : Parser α :=
  atLevel (fun _ => -1) (fun outer _ => outer) p

def level : Parser Int := fun c => .ok c.level c

/-- A statement ends with a semicolon, unless what encloses it ends right there. -/
def stmtEnd : Parser Unit := fun c =>
  match c.current.kind with
  | .symbol .semiColon => .ok () c.next
  | .symbol .rBrace | .symbol .rParen | .eof | .keyword .case_ | .keyword .default_ => .ok () c
  | _ => .error (.missing c.current (.symbol .semiColon)) c

/-- The end of the tokens. -/
def finish : Parser Unit := fun c =>
  if c.current.kind = .eof then .ok () c else .error (.unexpected c.current) c

/-- An identifier or a wildcard. -/
def name : Parser Expr := do
  let t ← advance
  match t.kind with
  | .ident name => return .ident t.start name
  | .wildcard name any => return .wildcard t.start name any
  | _ => throw (.expected t .identifier)

/-- An identifier. -/
def identName : Parser String := do
  let t ← advance
  match t.kind with
  | .ident name => return name
  | _ => throw (.expected t .identifier)

/-- The result for the tokens `ts`, from the start. -/
def run {α : Type} (p : Parser α) (ts : List Token) : Except ParseError α :=
  match p (Cursor.ofTokens ts) with
  | .ok a _ => .ok a
  | .error e _ => .error e

end Parser

end GoSift
