import GoSift.Token.Basic

/-! Operators of expressions and statements, and the tokens they are written with. -/
namespace GoSift

inductive UnaryOp where
  | plus
  | neg
  | not
  | xor
  | addr
  | recv
deriving DecidableEq, Repr

namespace UnaryOp

def text : UnaryOp → String
  | plus => "+"
  | neg => "-"
  | not => "!"
  | xor => "^"
  | addr => "&"
  | recv => "<-"

def all : List UnaryOp := [plus, neg, not, xor, addr, recv]

/-- The operator a symbol stands for in front of an operand. -/
def ofSymbol? : Symbol → Option UnaryOp
  | .plus => some plus
  | .minus => some neg
  | .not => some not
  | .caret => some xor
  | .amp => some addr
  | .arrow => some recv
  | _ => none

end UnaryOp

inductive BinaryOp where
  | add
  | sub
  | mul
  | quo
  | rem
  | and
  | or
  | xor
  | shl
  | shr
  | andNot
  | logicalAnd
  | logicalOr
  | eq
  | ne
  | lt
  | gt
  | le
  | ge
deriving DecidableEq, Repr

namespace BinaryOp

def text : BinaryOp → String
  | add => "+"
  | sub => "-"
  | mul => "*"
  | quo => "/"
  | rem => "%"
  | and => "&"
  | or => "|"
  | xor => "^"
  | shl => "<<"
  | shr => ">>"
  | andNot => "&^"
  | logicalAnd => "&&"
  | logicalOr => "||"
  | eq => "=="
  | ne => "!="
  | lt => "<"
  | gt => ">"
  | le => "<="
  | ge => ">="

def all : List BinaryOp :=
  [add, sub, mul, quo, rem, and, or, xor, shl, shr, andNot, logicalAnd, logicalOr, eq, ne, lt, gt,
    le, ge]

/-- How tightly an operator binds; higher binds tighter. -/
def precedence : BinaryOp → Nat
  | logicalOr => 1
  | logicalAnd => 2
  | eq | ne | lt | gt | le | ge => 3
  | add | sub | or | xor => 4
  | mul | quo | rem | shl | shr | and | andNot => 5

/-- The operator a symbol stands for between two operands. -/
def ofSymbol? : Symbol → Option BinaryOp
  | .plus => some add
  | .minus => some sub
  | .star => some mul
  | .slash => some quo
  | .percent => some rem
  | .amp => some and
  | .pipe => some or
  | .caret => some xor
  | .shl => some shl
  | .shr => some shr
  | .andNot => some andNot
  | .andAnd => some logicalAnd
  | .orOr => some logicalOr
  | .eqEq => some eq
  | .neEq => some ne
  | .lt => some lt
  | .gt => some gt
  | .lte => some le
  | .gte => some ge
  | _ => none

end BinaryOp

/-- `=`, `:=`, or an operator with `=`. -/
inductive AssignOp where
  | assign
  | define
  | update (op : BinaryOp)
deriving DecidableEq, Repr

namespace AssignOp

def text : AssignOp → String
  | assign => "="
  | define => ":="
  | update op => op.text ++ "="

def ofSymbol? : Symbol → Option AssignOp
  | .assign => some assign
  | .define => some define
  | .plusAssign => some (update .add)
  | .minusAssign => some (update .sub)
  | .starAssign => some (update .mul)
  | .slashAssign => some (update .quo)
  | .percentAssign => some (update .rem)
  | .ampAssign => some (update .and)
  | .pipeAssign => some (update .or)
  | .caretAssign => some (update .xor)
  | .shlAssign => some (update .shl)
  | .shrAssign => some (update .shr)
  | .andNotAssign => some (update .andNot)
  | _ => none

end AssignOp

/-- The directions a channel type allows. -/
inductive ChanDir where
  | both
  | send
  | recv
deriving DecidableEq, Repr

def ChanDir.text : ChanDir → String
  | both => "both"
  | send => "send"
  | recv => "recv"

/-- Statements that jump. -/
inductive Branch where
  | break_
  | continue_
  | goto
  | fallthrough
deriving DecidableEq, Repr

namespace Branch

def text : Branch → String
  | break_ => "break"
  | continue_ => "continue"
  | goto => "goto"
  | fallthrough => "fallthrough"

def all : List Branch := [break_, continue_, goto, fallthrough]

def ofKeyword? : Keyword → Option Branch
  | .break_ => some break_
  | .continue_ => some continue_
  | .goto => some goto
  | .fallthrough => some fallthrough
  | _ => none

end Branch

/-- `++` or `--`. -/
def stepText (up : Bool) : String :=
  if up then "++" else "--"

/-- `:=` or `=`. -/
def defineText (define : Bool) : String :=
  if define then ":=" else "="

end GoSift
