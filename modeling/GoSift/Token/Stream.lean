import GoSift.Token.Piece

/-!
The token stream of a source text: the tokens of its pieces in their places, with a semicolon at each
line end that ends a statement, and the end mark.
-/
namespace GoSift

/-- Why a text has no tokens. -/
inductive LexError where
  | unexpectedCharacter (range : Range) (c : Char)
  | unexpectedWildcard (range : Range)
deriving DecidableEq, Repr

namespace LexError

def range : LexError → Range
  | unexpectedCharacter range _ => range
  | unexpectedWildcard range => range

def message : LexError → String
  | unexpectedCharacter _ c => "Unexpected character `" ++ c.toString ++ "`"
  | unexpectedWildcard _ => "Wildcards are only allowed in patterns"

end LexError

namespace Token

/-- The token of a piece, if it makes one. A comment over several lines counts as a line end. -/
def Piece.kind? : Piece → Option Kind
  | .blank => none
  | .lineEnd => some .newLine
  | .comment multiline => if multiline then some .newLine else none
  | .token kind => some kind

/-- The tokens of pieces that begin at `p`, line ends among them. -/
def place (p : Position) : List (Piece × List Char) → List Token
  | [] => []
  | (piece, text) :: rest =>
    let tokens := place (p.after text) rest
    match piece.kind? with
    | some kind => ⟨kind, .spanning p text⟩ :: tokens
    | none => tokens

/-- Turns line ends into semicolons behind tokens that end a statement, drops the others, and adds the
end mark. `ended` says whether the last token kept ends a statement. -/
def closeLines (eof : Range) : Bool → List Token → List Token
  | ended, [] => (if ended then [⟨.symbol .semiColon, eof⟩] else []) ++ [⟨.eof, eof⟩]
  | ended, t :: ts =>
    if t.kind = .newLine then
      if ended then ⟨.symbol .semiColon, t.range⟩ :: closeLines eof false ts
      else closeLines eof false ts
    else t :: closeLines eof t.kind.endsStatement ts

def insertSemicolons (ts : List Token) (eof : Range) : List Token :=
  closeLines eof false ts

def isWildcard (t : Token) : Bool :=
  t.kind matches .wildcard _ _

/-- The tokens of a source text. A character that begins no piece is reported before a wildcard that
is out of place. -/
def tokenize (wildcards : Bool) (src : String) : Except LexError (List Token) :=
  let (pieces, unread) := Piece.split src.toList
  let stop := Position.start.after (pieces.flatMap (·.2))
  match unread with
  | c :: _ => .error (.unexpectedCharacter ⟨stop, ⟨stop.line, stop.column + 1⟩⟩ c)
  | [] =>
    let tokens := place .start pieces
    match if wildcards then none else tokens.find? isWildcard with
    | some t => .error (.unexpectedWildcard t.range)
    | none => .ok (insertSemicolons tokens (.point stop))

end Token

end GoSift
