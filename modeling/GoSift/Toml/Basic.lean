/-!
Documents of nested tables, in the part of TOML that rule files are written in: values are strings,
arrays and tables, and a table is opened as an element of an array. Other values are kept as words.
-/
namespace GoSift.Toml

/-- The parts of a dotted key. A plain key has one. -/
abbrev Key := List String

/-- A value. A word is a number, a truth value, a date or a time. -/
inductive Value where
  | text (s : String)
  | word (s : String)
  | list (vs : List Value)
  | table (entries : List (Key × Value))

/-- Keys with their values. No key begins with another one. -/
abbrev Table := List (Key × Value)

/-- A document: the entries at its start, then the sections, each an element of the array it names. -/
structure Document where
  entries : Table
  sections : List (Key × Table)

/-- Whether one of two keys begins with the other, so that a table cannot have both. -/
def Key.clashes (k k' : Key) : Bool :=
  k.isPrefixOf k' || k'.isPrefixOf k

namespace Value

def text? : Value → Option String
  | text s => some s
  | _ => none

def list? : Value → Option (List Value)
  | list vs => some vs
  | _ => none

/-- The elements of an array of strings. -/
def texts? (v : Value) : Option (List String) := do
  (← v.list?).mapM text?

end Value

end GoSift.Toml
