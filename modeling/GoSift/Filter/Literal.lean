import GoSift.Text.Integer

/-! The values of integer and string literals. -/
namespace GoSift.Filter

/-- The radix that a literal begins with, and its digits. A zero in front stands for octal. -/
def splitRadix : List Char → Nat × List Char
  | '0' :: 'x' :: cs | '0' :: 'X' :: cs => (16, cs)
  | '0' :: 'b' :: cs | '0' :: 'B' :: cs => (2, cs)
  | '0' :: 'o' :: cs | '0' :: 'O' :: cs => (8, cs)
  | '0' :: c :: cs => (8, c :: cs)
  | cs => (10, cs)

/-- The value of an integer literal, in which underscores do not count. -/
def readInt? (text : String) : Option Int64 :=
  let (radix, digits) := splitRadix (text.toList.filter (· ≠ '_'))
  (Text.readInt64 radix digits).toOption

/-- The character with a number, unless it is a surrogate or too large. -/
def charOf? (n : Nat) : Option Char :=
  if n.isValidChar then some (Char.ofNat n) else none

/-- The character whose number stands in `digits`. A plus sign may stand in front. -/
def numberedChar? (radix : Nat) (digits : List Char) : Option Char :=
  (Text.readNat radix 0xffffffff digits).toOption.bind charOf?

/-- Cuts off the first `n` characters, if there are so many. -/
def takeExactly (n : Nat) (cs : List Char) : Option (List Char × List Char) :=
  if cs.length < n then none else some (cs.take n, cs.drop n)

/-- The character that an escape stands for, from what follows the backslash, and the rest. -/
def readEscape? : List Char → Option (Char × List Char)
  | 'n' :: cs => some ('\n', cs)
  | 't' :: cs => some ('\t', cs)
  | 'r' :: cs => some ('\r', cs)
  | 'a' :: cs => some ('\x07', cs)
  | 'b' :: cs => some ('\x08', cs)
  | 'f' :: cs => some ('\x0c', cs)
  | 'v' :: cs => some ('\x0b', cs)
  | '\\' :: cs => some ('\\', cs)
  | '\x22' :: cs => some ('\x22', cs)
  | '\x27' :: cs => some ('\x27', cs)
  | 'x' :: cs => numbered 16 2 cs
  | 'u' :: cs => numbered 16 4 cs
  | 'U' :: cs => numbered 16 8 cs
  | c :: cs => if '0' ≤ c ∧ c ≤ '7' then numbered 8 3 (c :: cs) else none
  | [] => none
where
  numbered (radix n : Nat) (cs : List Char) : Option (Char × List Char) := do
    let (digits, rest) ← takeExactly n cs
    let c ← numberedChar? radix digits
    return (c, rest)

/-- Replaces the escapes in the body of a string literal. -/
def unescape (fuel : Nat) (cs : List Char) : Option (List Char) :=
  match fuel, cs with
  | _, [] => some []
  | 0, _ => none
  | fuel + 1, '\\' :: cs => do
    let (c, rest) ← readEscape? cs
    return c :: (← unescape fuel rest)
  | fuel + 1, c :: cs => do return c :: (← unescape fuel cs)

/-- What stands between a mark and the same mark at the end. -/
def between? (mark : Char) (cs : List Char) : Option (List Char) :=
  match cs with
  | c :: rest => if c = mark && rest.getLast? = some mark then some rest.dropLast else none
  | [] => none

/-- The value of a string literal. In a raw one carriage returns do not count. -/
def unquote? (text : String) : Option String :=
  let cs := text.toList
  if cs.head? = some '\x60' then
    (between? '\x60' cs).map fun raw => String.ofList (raw.filter (· ≠ '\r'))
  else do
    let body ← between? '\x22' cs
    String.ofList <$> unescape body.length body

end GoSift.Filter
