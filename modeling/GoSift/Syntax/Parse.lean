import GoSift.Syntax.Grammar

/-!
Reading a whole token stream, or the text it is made from, as a file, functions, expressions or
statements.
-/
namespace GoSift

open GoSift.Parser

namespace Grammar

/-- A source file. -/
def file (g : Grammar) : Parser File := do
  let _ ← expectKeyword .package
  let package ← identName
  stmtEnd
  let imports ← g .imports
  let funcs ← g .decls
  return ⟨package, imports, funcs⟩

/-- Expressions with commas between them, up to the end. -/
def exprsToEnd (g : Grammar) : Parser (List Expr) := do
  let xs ← g .exprs
  let _ ← eatSymbol .semiColon
  finish
  return xs

/-- Statements up to the end. -/
def stmtsToEnd (g : Grammar) : Parser (List Stmt) := do
  let ss ← g .stmts
  finish
  return ss

end Grammar

def File.parser : Parser File :=
  Grammar.full.file

def Expr.listParser : Parser (List Expr) :=
  Grammar.full.exprsToEnd

def Stmt.listParser : Parser (List Stmt) :=
  Grammar.full.stmtsToEnd

/-- Functions up to the end. -/
def Func.listParser : Parser (List Func) :=
  Grammar.full .funcs

/-- What `p` reads from a text. In patterns wildcards are allowed. -/
def Parser.runText {α : Type} (p : Parser α) (wildcards : Bool) (src : String) :
    Except ParseError α :=
  match Token.tokenize wildcards src with
  | .ok ts => p.run ts
  | .error e => .error (.lex e)

def File.parse (src : String) : Except ParseError File :=
  File.parser.runText false src

def Func.parseList (src : String) : Except ParseError (List Func) :=
  Func.listParser.runText false src

def Expr.parseList (wildcards : Bool) (src : String) : Except ParseError (List Expr) :=
  Expr.listParser.runText wildcards src

def Stmt.parseList (wildcards : Bool) (src : String) : Except ParseError (List Stmt) :=
  Stmt.listParser.runText wildcards src

end GoSift
