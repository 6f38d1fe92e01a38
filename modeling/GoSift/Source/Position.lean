/-! Places in a source text. Lines and columns count from one, and a column counts characters. -/
namespace GoSift

/-- A place between two characters of a text. -/
structure Position where
  line : Nat
  column : Nat
deriving DecidableEq, Repr

namespace Position

/-- The place before the first character. -/
def start : Position := ⟨1, 1⟩

instance : Inhabited Position := ⟨start⟩

/-- The place behind the character `c` that stands at `p`. -/
def advance (p : Position) (c : Char) : Position :=
  if c = '\n' then ⟨p.line + 1, 1⟩ else ⟨p.line, p.column + 1⟩

/-- The place behind the characters `cs` that begin at `p`. -/
def after (p : Position) (cs : List Char) : Position :=
  cs.foldl advance p

/-- Source order: by line, then by column. -/
def order (p q : Position) : Ordering :=
  (compare p.line q.line).then (compare p.column q.column)

def before (p q : Position) : Bool :=
  p.order q == .lt

/-- The written form `line:column`. -/
def text (p : Position) : String :=
  toString p.line ++ ":" ++ toString p.column

@[simp] theorem after_nil (p : Position) : p.after [] = p := rfl

@[simp] theorem after_cons (p : Position) (c : Char) (cs : List Char) :
    p.after (c :: cs) = (p.advance c).after cs := rfl

theorem after_append (p : Position) (cs ds : List Char) :
    p.after (cs ++ ds) = (p.after cs).after ds :=
  List.foldl_append

end Position

/-- The part of a text from `start` up to `stop`. -/
structure Range where
  start : Position
  stop : Position
deriving DecidableEq, Repr

namespace Range

/-- The empty range at `p`. -/
def point (p : Position) : Range := ⟨p, p⟩

instance : Inhabited Range := ⟨point Position.start⟩

/-- Both ends belong to a range. -/
def contains (r : Range) (p : Position) : Bool :=
  !p.before r.start && !r.stop.before p

/-- The range of the characters `cs` that begin at `p`. -/
def spanning (p : Position) (cs : List Char) : Range :=
  ⟨p, p.after cs⟩

end Range

end GoSift
