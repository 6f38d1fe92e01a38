/-! Sets of characters given by a sorted list of code point ranges. -/
namespace GoSift.Text

/-- Ranges of code points, both ends included, in increasing order. -/
abbrev CharSet := List (Nat × Nat)

/-- Whether a code point lies in one of the ranges. The search ends at the first range behind it. -/
def CharSet.contains : CharSet → Nat → Bool
  | [], _ => false
  | (lo, hi) :: rest, n =>
    if n < lo then false else if n ≤ hi then true else CharSet.contains rest n

end GoSift.Text
