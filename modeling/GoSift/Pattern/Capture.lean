import GoSift.Pattern.Program
import GoSift.Syntax.Node

/-! What a match in progress knows: the code still to do and the names bound so far. -/
namespace GoSift.Pattern

/-- A name bound to a node. -/
structure Capture where
  name : String
  node : Node

/-- Why a match does not go on: the node differs from the pattern, or the code ends too early. -/
inductive Mismatch where
  | differs
  | stuck
deriving DecidableEq, Repr

structure MatchState where
  code : List Inst
  captures : List Capture

/-- The node a name is bound to for `n`: an expression that is a statement counts as itself. -/
def Capture.normal : Node → Node
  | .stmt (.expr _ x) => .expr x
  | n => n

/-- Binds a name, or compares the node with the one it is bound to. -/
def bind? (captures : List Capture) (name : String) (node : Node) : Option (List Capture) :=
  let node := Capture.normal node
  match captures.find? (·.name = name) with
  | some c => if c.node.same node then some captures else none
  | none => some (captures ++ [⟨name, node⟩])

/-- Binds a name if there is one. -/
def bindOpt? (captures : List Capture) (name : Option String) (node : Node) :
    Option (List Capture) :=
  match name with
  | some name => bind? captures name node
  | none => some captures

end GoSift.Pattern
