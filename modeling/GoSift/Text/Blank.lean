import GoSift.Text.CharSet

/-! White space and the trimming of it. -/
namespace GoSift.Text

/-- The code points with the Unicode property White_Space. -/
def blanks : CharSet := [
  (0x9, 0xD), (0x20, 0x20), (0x85, 0x85), (0xA0, 0xA0), (0x1680, 0x1680), (0x2000, 0x200A),
  (0x2028, 0x2029), (0x202F, 0x202F), (0x205F, 0x205F), (0x3000, 0x3000)]

def isBlank (c : Char) : Bool :=
  blanks.contains c.toNat

/-- The text without the white space at its ends. -/
def trim (s : String) : String :=
  let inner := s.toList.dropWhile isBlank
  String.ofList (inner.reverse.dropWhile isBlank).reverse

end GoSift.Text
