import GoSift.Text.Letter
import GoSift.Token.Basic
import GoSift.Token.Recognizer

/-! A source text as a sequence of pieces: blanks, line ends, comments and tokens. -/
namespace GoSift.Token

/-- A piece of a text. A comment may hold a line end. -/
inductive Piece where
  | blank
  | lineEnd
  | comment (multiline : Bool)
  | token (kind : Kind)
deriving DecidableEq, Repr

/-- A recognized piece with its characters and the rest of the text. -/
abbrev Scanner := List Char → Option (Piece × List Char × List Char)

namespace Scanner

open Recognizer

def isDigit (c : Char) : Bool :=
  c.isDigit || c == '_'

def digits : Recognizer :=
  run1 isDigit

def exponent : Recognizer :=
  (one fun c => c == 'e' || c == 'E').andThen
    ((optional (one fun c => c == '+' || c == '-')).andThen digits)

/-- Digits behind a radix mark, such as `0x1F`. -/
def radixDigits (small capital : Char) (isRadixDigit : Char → Bool) : Recognizer :=
  (exactly ['0']).andThen
    ((one fun c => c == small || c == capital).andThen (run1 fun c => isRadixDigit c || c == '_'))

def isHexDigit (c : Char) : Bool :=
  c.isDigit || ('a' ≤ c && c ≤ 'f') || ('A' ≤ c && c ≤ 'F')

def radixNumber : Recognizer :=
  (radixDigits 'x' 'X' isHexDigit).orElse
    ((radixDigits 'b' 'B' fun c => c == '0' || c == '1').orElse
      (radixDigits 'o' 'O' fun c => '0' ≤ c && c ≤ '7'))

def point : Recognizer :=
  exactly ['.']

/-- Digits, with a point and an exponent if they are there. The point may come first. -/
def decimalNumber : Recognizer :=
  (digits.andThen ((optional (point.andThen (optional digits))).andThen (optional exponent))).orElse
    (point.andThen (digits.andThen (optional exponent)))

def decimalKind (text : List Char) : LitKind :=
  if text.any fun c => c == '.' || c == 'e' || c == 'E' then .float else .int

def literal (kind : LitKind) (text rest : List Char) : Piece × List Char × List Char :=
  (.token (.literal kind (String.ofList text)), text, rest)

/-- A number. An `i` right behind it makes it imaginary. -/
def number : Scanner := fun cs => do
  let (kind, text, rest) ←
    match radixNumber cs with
    | some (text, rest) => some (LitKind.int, text, rest)
    | none => (decimalNumber cs).map fun (text, rest) => (decimalKind text, text, rest)
  match rest with
  | 'i' :: rest' => return literal .imag (text ++ ['i']) rest'
  | _ => return literal kind text rest

/-- A text between two quotes of one kind. -/
def quoted (quote : Char) (kind : LitKind) (emptyAllowed : Bool) : Scanner
  | [] => none
  | c :: cs =>
    if c == quote then
      let (body, back) := quotedBody quote cs
      match back with
      | d :: rest =>
        if d == quote && (emptyAllowed || !body.isEmpty) then
          some (literal kind (quote :: body ++ [quote]) rest)
        else none
      | [] => none
    else none

def rawString : Scanner := fun cs => do
  let (text, rest) ← ((exactly ['\x60']).andThen (through ['\x60'])) cs
  return literal .string text rest

def word : Recognizer :=
  (one Text.startsWord).andThen (run Text.continuesWord)

def wildcard : Scanner
  | '$' :: cs => do
    let (star, behind) ← optional (exactly ['*']) cs
    let (name, rest) ← word behind
    return (.token (.wildcard (String.ofList name) (!star.isEmpty)), '$' :: star ++ name, rest)
  | _ => none

def wordKind (text : List Char) : Kind :=
  match Keyword.ofSpelling? (String.ofList text) with
  | some word => .keyword word
  | none => .ident (String.ofList text)

def wordOrKeyword : Scanner := fun cs => do
  let (text, rest) ← word cs
  return (.token (wordKind text), text, rest)

/-- The longest symbol at the front. -/
def symbol : Scanner := fun cs => do
  let sym ← Symbol.all.find? fun sym => sym.spelling.toList.isPrefixOf cs
  let (text, rest) ← exactly sym.spelling.toList cs
  return (.token (.symbol sym), text, rest)

def isBlank (c : Char) : Bool :=
  c == ' ' || c == '\t' || c == '\r'

def blank : Scanner := fun cs => do
  let (text, rest) ← run1 isBlank cs
  return (.blank, text, rest)

def lineEnd : Scanner
  | '\n' :: rest => some (.lineEnd, ['\n'], rest)
  | _ => none

def lineComment : Scanner := fun cs => do
  let (text, rest) ← ((exactly ['/', '/']).andThen (run (· != '\n'))) cs
  return (.comment false, text, rest)

def blockComment : Scanner := fun cs => do
  let (text, rest) ← ((exactly ['/', '*']).andThen (through ['*', '/'])) cs
  return (.comment (text.contains '\n'), text, rest)

/-- The scanners in the order they are tried. Numbers come before words, so an underscore in front of
anything is read as a digit. -/
def all : List Scanner :=
  [blank, lineEnd, lineComment, blockComment, number, quoted '\x27' .char false,
    quoted '\x22' .string true, rawString, wildcard, wordOrKeyword, symbol]

end Scanner

namespace Piece

/-- The first piece of a text. -/
def next? : Scanner := fun cs =>
  Scanner.all.findSome? (· cs)

/-- Pieces from the front of a text, as far as they go, at most `bound` of them; and the rest. -/
def splitWithin : Nat → List Char → List (Piece × List Char) × List Char
  | 0, cs => ([], cs)
  | bound + 1, cs =>
    match next? cs with
    | none => ([], cs)
    | some (piece, text, rest) =>
      let (pieces, unread) := splitWithin bound rest
      ((piece, text) :: pieces, unread)

/-- The pieces from the front of a text, as far as they go, and the unread rest. No piece is empty,
so there are at most as many pieces as characters. -/
def split (cs : List Char) : List (Piece × List Char) × List Char :=
  splitWithin cs.length cs

end Piece

end GoSift.Token
