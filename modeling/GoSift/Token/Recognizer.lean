/-!
Recognizers take a front part off a text. The two parts they return always make up the text again.
-/
namespace GoSift.Token

/-- Splits a text into a recognized front part and the rest, or refuses it. -/
abbrev Recognizer := List Char → Option (List Char × List Char)

namespace Recognizer

/-- The longest run of characters of a class, possibly empty. -/
def run (p : Char → Bool) : Recognizer := fun cs =>
  some (cs.takeWhile p, cs.dropWhile p)

/-- The longest run of characters of a class, at least one. -/
def run1 (p : Char → Bool) : Recognizer := fun cs =>
  if (cs.takeWhile p).isEmpty then none else run p cs

/-- One character of a class. -/
def one (p : Char → Bool) : Recognizer
  | [] => none
  | c :: cs => if p c then some ([c], cs) else none

/-- The given characters. -/
def exactly (w : List Char) : Recognizer := fun cs =>
  if w.isPrefixOf cs then some (w, cs.drop w.length) else none

/-- Everything through the first occurrence of the given characters. -/
def through (w : List Char) : Recognizer
  | [] => exactly w []
  | c :: cs =>
    match exactly w (c :: cs) with
    | some parts => some parts
    | none => (through w cs).map fun (front, back) => (c :: front, back)

def andThen (r s : Recognizer) : Recognizer := fun cs => do
  let (front, back) ← r cs
  let (front', back') ← s back
  return (front ++ front', back')

def orElse (r s : Recognizer) : Recognizer := fun cs =>
  match r cs with
  | some parts => some parts
  | none => s cs

/-- What `r` recognizes, or nothing. -/
def optional (r : Recognizer) : Recognizer := fun cs =>
  (r cs).getD ([], cs)

/-- The inside of a quoted text: a backslash keeps the character behind it, and the part ends before
the closing quote or a line end. -/
def quotedBody (quote : Char) : List Char → List Char × List Char
  | '\\' :: c :: cs =>
    let (front, back) := quotedBody quote cs
    ('\\' :: c :: front, back)
  | ['\\'] => ([], ['\\'])
  | [] => ([], [])
  | c :: cs =>
    if c == quote || c == '\n' then ([], c :: cs)
    else
      let (front, back) := quotedBody quote cs
      (c :: front, back)

/-- Whether a recognizer only ever cuts a text in two. -/
def Lossless (r : Recognizer) : Prop :=
  ∀ cs front back, r cs = some (front, back) → front ++ back = cs

end Recognizer

end GoSift.Token
