import GoSift.Toml.Text

/-!
Words: numbers, truth values, dates and times. Rule files have no use for them, so it is only told which
words are values.
-/
namespace GoSift.Toml

/-- Whether a character belongs to a word. -/
def isWordChar (c : Char) : Bool :=
  c ∉ ['=', ',', '[', ']', '\x7b', '\x7d', '#', ' ', '\t', '\r', '\n']

/-- Whether underscores stand between digits only. `before` tells whether one may stand in front. -/
def underscoresFit (isDigit : Char → Bool) : Bool → List Char → Bool
  | _, [] => true
  | _, ['_'] => false
  | before, '_' :: c :: cs => before && isDigit c && underscoresFit isDigit true cs
  | _, c :: cs => underscoresFit isDigit (isDigit c) cs

def isDigitOf (radix : Nat) (c : Char) : Bool :=
  (Text.digitValue radix c).isSome

/-- Whether these are the digits of an integer behind the mark of its radix. There may be none. -/
def isRadixed (radix : Nat) (cs : List Char) : Bool :=
  cs.all (fun c => c = '_' || isDigitOf radix c) && underscoresFit (isDigitOf radix) false cs

/-- Cuts off digits and underscores, at least one digit. -/
def digits? (cs : List Char) : Option (List Char × List Char) :=
  let isPart (c : Char) := c.isDigit || c = '_'
  let digits := cs.takeWhile isPart
  if digits.any Char.isDigit then some (digits, cs.dropWhile isPart) else none

/-- Skips the fraction of a number, if there is one. -/
def skipFraction? : List Char → Option (List Char)
  | '.' :: cs => (digits? cs).map (·.2)
  | cs => some cs

/-- Skips the exponent of a number, if there is one. -/
def skipExponent? : List Char → Option (List Char)
  | 'e' :: cs | 'E' :: cs =>
    match cs with
    | '+' :: cs | '-' :: cs => (digits? cs).map (·.2)
    | cs => (digits? cs).map (·.2)
  | cs => some cs

/-- Whether a whole number and a fraction or exponent follow each other. Zero is not followed by other
digits in front of the point. -/
def isFloat (cs : List Char) : Bool :=
  match digits? cs with
  | none => false
  | some (whole, rest) =>
    !(whole.head? = some '0' && 1 < whole.countP Char.isDigit)
      && (skipFraction? rest).bind skipExponent? = some []

/-- Whether these are the digits of a number, which may have a fraction or an exponent. Behind the first
underscore of an integer only the neighbours of underscores are looked at, and the letters up to `f` are
taken for digits. -/
def isDecimal (signed : Bool) (cs : List Char) : Bool :=
  match cs.dropWhile Char.isDigit with
  | [] => cs = ['0'] || (cs.head?.any (· ≠ '0'))
  | c :: rest =>
    if (c :: rest).any (· ∈ ['.', 'e', 'E']) then isFloat cs && underscoresFit Char.isDigit signed cs
    else c = '_' && cs.head? ≠ some '0' && underscoresFit (isDigitOf 16) signed cs

def isUnsigned (signed : Bool) (cs : List Char) : Bool :=
  match cs with
  | ['i', 'n', 'f'] | ['n', 'a', 'n'] => true
  | '0' :: 'x' :: cs => !signed && isRadixed 16 cs
  | '0' :: 'o' :: cs => !signed && isRadixed 8 cs
  | '0' :: 'b' :: cs => !signed && isRadixed 2 cs
  | cs => isDecimal signed cs

/-- Whether a word is a number. Only decimal numbers have a sign. -/
def isNumber : List Char → Bool
  | '+' :: cs | '-' :: cs => isUnsigned true cs
  | cs => isUnsigned false cs

/-- Reads a number of exactly `n` digits that lies between two others. -/
def field? (n low high : Nat) (cs : List Char) : Option (Nat × List Char) :=
  let digits := cs.takeWhile Char.isDigit
  let value := digits.foldl (fun v c => 10 * v + (c.toNat - '0'.toNat)) 0
  if digits.length = n && low ≤ value && value ≤ high then some (value, cs.drop n) else none

def daysInMonth (year month : Nat) : Nat :=
  if month = 2 then
    if year % 4 = 0 && (year % 100 ≠ 0 || year % 400 = 0) then 29 else 28
  else if month ∈ [4, 6, 9, 11] then 30
  else 31

/-- What is behind a date, as in `2020-02-29`. -/
def skipDate? (cs : List Char) : Option (List Char) := do
  let (year, cs) ← field? 4 0 9999 cs
  let (month, cs) ← field? 2 1 12 (← expect? '-' cs)
  let (_, cs) ← field? 2 1 (daysInMonth year month) (← expect? '-' cs)
  return cs

/-- What is behind hours and minutes, as in `07:30`. -/
def skipHourMinute? (cs : List Char) : Option (List Char) := do
  let (_, cs) ← field? 2 0 23 cs
  let (_, cs) ← field? 2 0 59 (← expect? ':' cs)
  return cs

/-- What is behind a time of day, as in `07:30`, `07:30:15` or `07:30:15.25`. -/
def skipTime? (cs : List Char) : Option (List Char) := do
  match ← skipHourMinute? cs with
  | ':' :: cs =>
    match ← field? 2 0 60 cs with
    | (_, '.' :: cs) =>
      if cs.head?.any Char.isDigit then some (cs.dropWhile Char.isDigit) else none
    | (_, cs) => some cs
  | cs => some cs

/-- What is behind the offset of a time zone, which may be missing. -/
def skipOffset? : List Char → Option (List Char)
  | 'Z' :: cs | 'z' :: cs => some cs
  | '+' :: cs | '-' :: cs => skipHourMinute? cs
  | cs => some cs

/-- Whether a word is a date, a time of day, or both. Only both have a time zone. -/
def isMoment (cs : List Char) : Bool :=
  match skipDate? cs with
  | none => skipTime? cs = some []
  | some [] => true
  | some (c :: rest) => c ∈ ['T', 't', ' '] && (skipTime? rest).bind skipOffset? = some []

/-- Cuts off a word. A date, a blank and what follows it are one word. -/
def cutWord (cs : List Char) : List Char × List Char :=
  let word := cs.takeWhile isWordChar
  match cs.dropWhile isWordChar with
  | ' ' :: rest =>
    if skipDate? word = some [] && rest.head?.any isWordChar then
      (word ++ ' ' :: rest.takeWhile isWordChar, rest.dropWhile isWordChar)
    else (word, ' ' :: rest)
  | rest => (word, rest)

/-- Whether a word is a value. -/
def isWord (cs : List Char) : Bool :=
  cs = "true".toList || cs = "false".toList || isNumber cs || isMoment cs

/-- A word that is a value, and what is behind it. -/
def word? (cs : List Char) : Option (String × List Char) :=
  let (word, rest) := cutWord cs
  if isWord word then some (String.ofList word, rest) else none

end GoSift.Toml
