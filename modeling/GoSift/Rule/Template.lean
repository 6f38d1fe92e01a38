import GoSift.Pattern.Match
import GoSift.Text.Letter

/-!
Report templates. `$name` stands for the text of a capture and `$$` for that of the whole match; what
is put in is not looked at again.
-/
namespace GoSift

namespace Template

/-- A part of a template: text without `$`, the whole match, or a name, which may be empty. -/
inductive Piece where
  | text (cs : List Char)
  | whole
  | name (cs : List Char)
deriving DecidableEq, Repr

/-- Cuts a template into its parts. Runs of text and names are as long as they can be. -/
def pieces : List Char → List Piece
  | [] => []
  | '$' :: '$' :: cs => .whole :: pieces cs
  | '$' :: cs => .name (cs.takeWhile Text.continuesWord) :: pieces (cs.dropWhile Text.continuesWord)
  | c :: cs => .text (c :: cs.takeWhile (· ≠ '$')) :: pieces (cs.dropWhile (· ≠ '$'))
termination_by cs => cs.length
decreasing_by
  · simp only [List.length_cons]
    omega
  · have := (List.dropWhile_sublist (l := cs) Text.continuesWord).length_le
    simp only [List.length_cons]
    omega
  · have := (List.dropWhile_sublist (l := cs) (· ≠ '$')).length_le
    simp only [List.length_cons]
    omega

@[simp] theorem pieces_nil : pieces [] = [] := by
  rw [pieces]

/-- The text of a part for a match. A name without a capture stays as it is. -/
def Piece.render (m : Pattern.Match) : Piece → String
  | text cs => String.ofList cs
  | whole => m.node.text
  | name cs =>
    let name := String.ofList cs
    match m.get? name with
    | some node => if name.isEmpty then "$" else node.text
    | none => "$" ++ name

end Template

/-- The text of a template for a match. -/
def renderTemplate (template : String) (m : Pattern.Match) : String :=
  String.join ((Template.pieces template.toList).map (·.render m))

end GoSift
