import GoSift.Pattern.Match
import GoSift.Syntax.Visit

/-! All matches of a pattern in a list or a tree. -/
namespace GoSift.Pattern

/-- The index behind the window of a match. -/
def Match.stop (m : Match) : Nat :=
  (m.window.map (·.2)).getD 0

/-- The matches in a list from the index `i` on, from left to right, none inside another. -/
def windowsFrom (p : Pattern) (list : Node) (i : Nat) : List Match :=
  if i < list.size then
    match p.matchFrom? list i with
    | some m => m :: windowsFrom p list (max m.stop (i + 1))
    | none => windowsFrom p list (i + 1)
  else []
termination_by list.size - i

/-- The matches of a list pattern in a list. -/
def windows (p : Pattern) (list : Node) : List Match :=
  p.windowsFrom list 0

/-- The matches at a node that is visited. -/
def matchesAt (p : Pattern) (node : Node) : List Match :=
  if p.isList then
    if node.isList then p.windows node else []
  else (p.matchNode? node).toList

/-- The matches inside a node. -/
def find (p : Pattern) (root : Node) : List Match :=
  root.visits.flatMap p.matchesAt

/-- The matches inside the functions of a file. -/
def findInFile (p : Pattern) (file : File) : List Match :=
  file.visits.flatMap p.matchesAt

end GoSift.Pattern
