/-!
Texts seen as UTF-8 bytes: lengths, cuts and offsets count bytes, while the characters stay whole.
Comparing characters by code point is comparing their bytes, so texts need no second order.
-/
namespace GoSift.Text

/-- Cuts behind the first `n` bytes; none if that lies beyond the end or inside a character. -/
def splitBytes : Nat → List Char → Option (List Char × List Char)
  | 0, cs => some ([], cs)
  | _ + 1, [] => none
  | n + 1, c :: cs =>
    if c.utf8Size ≤ n + 1 then
      (splitBytes (n + 1 - c.utf8Size) cs).map fun (front, back) => (c :: front, back)
    else none
termination_by structural _ cs => cs

/-- The bytes from `low` up to `high`, if both are places between characters of the text. -/
def sliceBytes (s : String) (low high : Nat) : Option String := do
  let (_, tail) ← splitBytes low s.toList
  if high < low then none
  else
    let (middle, _) ← splitBytes (high - low) tail
    some (String.ofList middle)

def startsWith (s front : String) : Bool :=
  front.toList.isPrefixOf s.toList

def endsWith (s back : String) : Bool :=
  back.toList.isSuffixOf s.toList

/-- The byte offset of the first occurrence of `needle` in `cs`. -/
def findBytes (needle : List Char) : List Char → Option Nat
  | [] => if needle.isEmpty then some 0 else none
  | c :: cs =>
    if needle.isPrefixOf (c :: cs) then some 0
    else (findBytes needle cs).map (c.utf8Size + ·)

def indexOf (s needle : String) : Option Nat :=
  findBytes needle.toList s.toList

end GoSift.Text
