import GoSift.Pattern.Operation

/-!
Compiled patterns: instructions, each in front of its arguments, and the table of the texts they
refer to. Operators are held as numbers.
-/
namespace GoSift

def UnaryOp.code (op : UnaryOp) : Nat :=
  all.idxOf op

def BinaryOp.code (op : BinaryOp) : Nat :=
  all.idxOf op

def Branch.code (b : Branch) : Nat :=
  all.idxOf b

def ChanDir.code : ChanDir → Nat
  | both => 0
  | send => 1
  | recv => 2

def AssignOp.code : AssignOp → Nat
  | assign => 0
  | define => 1
  | update op => op.code + 2

/-- The assignment operator with the given number. -/
def AssignOp.ofCode? : Nat → Option AssignOp
  | 0 => some assign
  | 1 => some define
  | n + 2 => BinaryOp.all[n]?.map update

/-- The number for `++` or `--`. -/
def stepCode (up : Bool) : Nat :=
  if up then 0 else 1

/-- The number for `:=` or `=` in a range clause. -/
def defineCode (define : Bool) : Nat :=
  if define then 1 else 0

namespace Pattern

/-- An instruction: an operation, an operator for it, and the index of a text for it. Those that the
operation does not use are zero. -/
structure Inst where
  op : Op
  value : Nat := 0
  index : Nat := 0
deriving DecidableEq, Repr

/-- The text of an instruction in a table. It is empty if the operation has none, and missing if the
table is too short. -/
def Inst.text? (i : Inst) (strings : List String) : Option String :=
  if i.op.hasText then strings[i.index]? else some ""

end Pattern

/-- A compiled pattern. -/
structure Pattern where
  insts : List Pattern.Inst
  strings : List String
deriving DecidableEq, Repr

namespace Pattern

/-- Whether a pattern is for several nodes in a row. -/
def isList (p : Pattern) : Bool :=
  match p.insts with
  | [] => false
  | i :: _ => i.op = .exprList || i.op = .stmtList

/-- The name an instruction binds. -/
def Inst.captureName? (i : Inst) (strings : List String) : Option String :=
  match i.op with
  | .wildcard _ true => strings[i.index]?
  | _ => none

/-- Keeps the first of equal names. -/
def firstNames (names : List String) : List String :=
  names.foldl (fun seen name => if name ∈ seen then seen else seen ++ [name]) []

/-- The names a pattern binds, in order of first use. -/
def captureNames (p : Pattern) : List String :=
  firstNames (p.insts.filterMap (·.captureName? p.strings))

end Pattern

end GoSift
