import GoSift.Source.Position

/-! Spans: parts of a text measured in bytes of UTF-8. -/
namespace GoSift

/-- The bytes from `offset` on. -/
structure Span where
  offset : Nat
  length : Nat
deriving DecidableEq, Repr

namespace Position

/-- The number of bytes in front of the place `p` in a text that begins at `q`. A column past the end
of its line runs on into the next line, as far as that column. -/
def offsetFrom (q p : Position) : List Char → Nat
  | [] => 0
  | c :: cs =>
    if p.line ≤ q.line ∧ p.column ≤ q.column then 0
    else c.utf8Size + offsetFrom (q.advance c) p cs

def offsetIn (p : Position) (text : String) : Nat :=
  offsetFrom start p text.toList

end Position

/-- The span of a range, at least one byte long. -/
def Range.span (r : Range) (text : String) : Span :=
  let offset := r.start.offsetIn text
  ⟨offset, max (r.stop.offsetIn text - offset) 1⟩

end GoSift
