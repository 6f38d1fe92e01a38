import GoSift.Toml.Basic
import GoSift.Toml.Word

/-! Reading a document. A text that is not one gives nothing. -/
namespace GoSift.Toml

def isKeyChar (c : Char) : Bool :=
  'a' ≤ c && c ≤ 'z' || 'A' ≤ c && c ≤ 'Z' || '0' ≤ c && c ≤ '9' || c = '_' || c = '-'

def skipBlanks (cs : List Char) : List Char :=
  cs.dropWhile isBlank

/-- Skips a comment, if there is one and it holds plain characters only. -/
def skipComment : List Char → List Char
  | '#' :: cs => cs.dropWhile isPlain
  | cs => cs

/-- Skips blanks, comments and line ends. The fuel is at least the number of lines. -/
def skipLines : Nat → List Char → List Char
  | 0, cs => cs
  | fuel + 1, cs =>
    match newline? (skipComment (skipBlanks cs)) with
    | some rest => skipLines fuel rest
    | none => skipComment (skipBlanks cs)

/-- Skips what may stand between the parts of an array or an inline table. -/
def skipSpace (cs : List Char) : List Char :=
  skipLines cs.length cs

/-- A part of a key: plain letters, digits, `_` and `-`, or a string on one line. -/
def keyPart? (cs : List Char) : Option (String × List Char) :=
  match shortText? cs with
  | some r => some r
  | none =>
    match cs.takeWhile isKeyChar with
    | [] => none
    | word => some (String.ofList word, cs.dropWhile isKeyChar)

/-- The parts of a key, with dots and blanks between them. Each of them takes a character. -/
def keyParts? : Nat → List Char → Option (Key × List Char)
  | 0, _ => none
  | fuel + 1, cs => do
    let (part, cs) ← keyPart? cs
    match skipBlanks cs with
    | '.' :: cs =>
      let (parts, rest) ← keyParts? fuel (skipBlanks cs)
      return (part :: parts, rest)
    | rest => return ([part], rest)

/-- A key, and what is behind it and the blanks that follow. -/
def key? (cs : List Char) : Option (Key × List Char) :=
  keyParts? cs.length cs

/-- A key and the equals sign, with what may stand around the sign. -/
def keyEquals? (skip : List Char → List Char) (cs : List Char) : Option (Key × List Char) := do
  let (key, cs) ← key? cs
  return (key, skip (← expect? '=' (skip cs)))

/-- Adds an entry in front of others, whose keys must not clash with its key. -/
def entry? (key : Key) (v : Value) (entries : Table) : Option Table :=
  if entries.any (·.1.clashes key) then none else some ((key, v) :: entries)

/-- Arrays and inline tables are not nested deeper. -/
def maxNesting : Nat := 80

mutual

/-- A value, in which `room` arrays and tables may be nested. Of two steps in a row one takes a
character, so twice the length of the text is enough fuel. -/
def value? : Nat → Nat → List Char → Option (Value × List Char)
  | 0, _, _ => none
  | fuel + 1, room, cs =>
    match cs, room with
    | '[' :: _, 0 | '\x7b' :: _, 0 => none
    | '[' :: cs, room + 1 => do
      let (vs, rest) ← elements? fuel room (skipSpace cs)
      return (.list vs, rest)
    | '\x7b' :: cs, room + 1 => do
      let (entries, rest) ← pairs? fuel room (skipSpace cs)
      return (.table entries, rest)
    | '\x22' :: _, _ | '\x27' :: _, _ => do
      let (s, rest) ← text? cs
      return (.text s, rest)
    | cs, _ => do
      let (s, rest) ← word? cs
      return (.word s, rest)
termination_by structural fuel => fuel

/-- The elements of an array up to its end. A comma may follow the last one. -/
def elements? : Nat → Nat → List Char → Option (List Value × List Char)
  | 0, _, _ => none
  | fuel + 1, room, cs =>
    match cs with
    | ']' :: rest => some ([], rest)
    | cs => do
      let (v, cs) ← value? fuel room cs
      match skipSpace cs with
      | ',' :: cs =>
        let (vs, rest) ← elements? fuel room (skipSpace cs)
        return (v :: vs, rest)
      | ']' :: rest => return ([v], rest)
      | _ => none
termination_by structural fuel => fuel

/-- The entries of an inline table up to its end. A comma may follow the last one, and line ends may
stand wherever blanks may, except in a key. -/
def pairs? : Nat → Nat → List Char → Option (Table × List Char)
  | 0, _, _ => none
  | fuel + 1, room, cs =>
    match cs with
    | '\x7d' :: rest => some ([], rest)
    | cs => do
      let (key, cs) ← keyEquals? skipSpace cs
      let (v, cs) ← value? fuel room cs
      match skipSpace cs with
      | ',' :: cs =>
        let (entries, rest) ← pairs? fuel room (skipSpace cs)
        return (← entry? key v entries, rest)
      | '\x7d' :: rest => return ([(key, v)], rest)
      | _ => none
termination_by structural fuel => fuel

end

/-- The name in the header of a section, `[[name]]`. -/
def header? (cs : List Char) : Option (Key × List Char) := do
  let cs ← expect? '[' (← expect? '[' cs)
  let (key, cs) ← key? (skipBlanks cs)
  return (key, ← expect? ']' (← expect? ']' cs))

/-- What is behind the end of a line, on which only blanks and a comment are left. -/
def lineEnd? (cs : List Char) : Option (List Char) :=
  match skipComment (skipBlanks cs) with
  | [] => some []
  | cs => newline? cs

/-- The lines of a document, from the last to the first: entries are added to the section they are
in. Each line takes at least one character. -/
def lines? : Nat → List Char → Option Document
  | _, [] => some ⟨[], []⟩
  | 0, _ => none
  | fuel + 1, cs =>
    let cs := skipBlanks cs
    match cs with
    | '[' :: _ => do
      let (name, cs) ← header? cs
      let d ← lines? fuel (← lineEnd? cs)
      return ⟨[], (name, d.entries) :: d.sections⟩
    | _ =>
      match lineEnd? cs with
      | some rest => lines? fuel rest
      | none => do
        let (key, cs) ← keyEquals? skipBlanks cs
        let (v, cs) ← value? (2 * cs.length) maxNesting cs
        let d ← lines? fuel (← lineEnd? cs)
        return ⟨← entry? key v d.entries, d.sections⟩

/-- Reads a document. A byte order mark in front of it is ignored. -/
def Document.parse? (text : String) : Option Document :=
  match text.toList with
  | '\ufeff' :: cs => lines? (cs.length + 1) cs
  | cs => lines? (cs.length + 1) cs

end GoSift.Toml
