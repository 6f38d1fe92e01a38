import GoSift.Text.Integer

/-!
Strings of a document. Each of the four forms is first cut off at its closing quotes and then decoded;
a multi-line string leaves out a line end right behind its opening quotes.
-/
namespace GoSift.Toml

def isBlank (c : Char) : Bool :=
  c = ' ' || c = '\t'

/-- Whether a character may stand for itself in a string or a comment. -/
def isPlain (c : Char) : Bool :=
  c = '\t' || (' ' ≤ c && c ≠ '\x7f')

/-- What is behind a line end. -/
def newline? : List Char → Option (List Char)
  | '\n' :: cs => some cs
  | '\r' :: '\n' :: cs => some cs
  | _ => none

/-- What is behind a character that must come next. -/
def expect? (c : Char) : List Char → Option (List Char)
  | d :: cs => if c = d then some cs else none
  | [] => none

/-- Puts a character in front of the body that was cut off. -/
def onto (c : Char) (cut : Option (List Char × List Char)) : Option (List Char × List Char) :=
  cut.map fun (body, rest) => (c :: body, rest)

/-- Cuts at the first quote that no backslash stands before. -/
def cutBasic : List Char → Option (List Char × List Char)
  | '\x22' :: cs => some ([], cs)
  | '\\' :: c :: cs => onto '\\' (onto c (cutBasic cs))
  | c :: cs => onto c (cutBasic cs)
  | [] => none

/-- Cuts at the first three quotes. Up to two more quotes behind them belong to the body. -/
def cutMultiBasic : List Char → Option (List Char × List Char)
  | '\x22' :: '\x22' :: '\x22' :: '\x22' :: '\x22' :: cs => some (['\x22', '\x22'], cs)
  | '\x22' :: '\x22' :: '\x22' :: '\x22' :: cs => some (['\x22'], cs)
  | '\x22' :: '\x22' :: '\x22' :: cs => some ([], cs)
  | '\\' :: c :: cs => onto '\\' (onto c (cutMultiBasic cs))
  | c :: cs => onto c (cutMultiBasic cs)
  | [] => none

/-- Cuts at the first quote. -/
def cutLiteral : List Char → Option (List Char × List Char)
  | '\x27' :: cs => some ([], cs)
  | c :: cs => onto c (cutLiteral cs)
  | [] => none

/-- Cuts at the first three quotes. Up to two more quotes behind them belong to the body. -/
def cutMultiLiteral : List Char → Option (List Char × List Char)
  | '\x27' :: '\x27' :: '\x27' :: '\x27' :: '\x27' :: cs => some (['\x27', '\x27'], cs)
  | '\x27' :: '\x27' :: '\x27' :: '\x27' :: cs => some (['\x27'], cs)
  | '\x27' :: '\x27' :: '\x27' :: cs => some ([], cs)
  | c :: cs => onto c (cutMultiLiteral cs)
  | [] => none

/-- The character that hexadecimal digits spell. -/
def hexChar? (digits : List Char) : Option Char := do
  let ds ← digits.mapM (Text.digitValue 16)
  let n := ds.foldl (fun n d => 16 * n + d) 0
  if n.isValidChar then some (Char.ofNat n) else none

/-- The character that a letter behind a backslash stands for. -/
def escaped? : Char → Option Char
  | 'b' => some '\x08'
  | 't' => some '\t'
  | 'n' => some '\n'
  | 'f' => some '\x0c'
  | 'r' => some '\r'
  | 'e' => some '\x1b'
  | '\x22' => some '\x22'
  | '\\' => some '\\'
  | _ => none

/-- Decodes a body with escapes. In a multi-line body a backslash at the end of a line takes away the
blanks and line ends behind it, which `skip` says. -/
def decode (multi : Bool) : Bool → List Char → Option (List Char)
  | _, [] => some []
  | _, '\\' :: 'x' :: a :: b :: cs => do
    return (← hexChar? [a, b]) :: (← decode multi false cs)
  | _, '\\' :: 'u' :: a :: b :: c :: d :: cs => do
    return (← hexChar? [a, b, c, d]) :: (← decode multi false cs)
  | _, '\\' :: 'U' :: a :: b :: c :: d :: e :: f :: g :: h :: cs => do
    return (← hexChar? [a, b, c, d, e, f, g, h]) :: (← decode multi false cs)
  | _, '\\' :: c :: cs =>
    match escaped? c with
    | some x => (decode multi false cs).map (x :: ·)
    | none =>
      if multi && (newline? ((c :: cs).dropWhile isBlank)).isSome then decode multi true cs else none
  | skip, '\r' :: '\n' :: cs =>
    if skip then decode multi true cs
    else if multi then (decode multi false cs).map ('\r' :: '\n' :: ·)
    else none
  | skip, c :: cs =>
    if skip && (isBlank c || c = '\n') then decode multi true cs
    else if c ≠ '\\' && (isPlain c || multi && c = '\n') then (decode multi false cs).map (c :: ·)
    else none

/-- Takes a body that stands for itself, if it may. -/
def verbatim (multi : Bool) : List Char → Option (List Char)
  | [] => some []
  | '\r' :: '\n' :: cs => if multi then (verbatim multi cs).map ('\r' :: '\n' :: ·) else none
  | c :: cs => if isPlain c || multi && c = '\n' then (verbatim multi cs).map (c :: ·) else none

/-- A string on one line, and what is behind it. -/
def shortText? : List Char → Option (String × List Char)
  | '\x22' :: cs => do
    let (body, rest) ← cutBasic cs
    return (String.ofList (← decode false false body), rest)
  | '\x27' :: cs => do
    let (body, rest) ← cutLiteral cs
    return (String.ofList (← verbatim false body), rest)
  | _ => none

/-- A string, and what is behind it. -/
def text? : List Char → Option (String × List Char)
  | '\x22' :: '\x22' :: '\x22' :: cs => do
    let (body, rest) ← cutMultiBasic ((newline? cs).getD cs)
    return (String.ofList (← decode true false body), rest)
  | '\x27' :: '\x27' :: '\x27' :: cs => do
    let (body, rest) ← cutMultiLiteral ((newline? cs).getD cs)
    return (String.ofList (← verbatim true body), rest)
  | cs => shortText? cs

end GoSift.Toml
