import GoSift.Syntax.Node

/-! Facts about nodes that filters can ask for. -/
namespace GoSift

mutual

/-- Whether evaluating an expression has no side effects. Calls and receiving from a channel have. -/
def Expr.isPure : Expr → Bool
  | .ident .. | .lit .. | .funcLit .. => true
  | .paren _ x | .star _ x | .selector _ x _ | .typeAssert _ x _ => x.isPure
  | .unary _ op x => op != .recv && x.isPure
  | .binary _ _ x y | .index _ x y | .keyValue _ x y => x.isPure && y.isPure
  | .slice _ x low high max _ =>
    x.isPure && Expr.isPureOpt low && Expr.isPureOpt high && Expr.isPureOpt max
  | .composite _ _ elts => Expr.arePure elts
  | .call .. | .wildcard .. => false
  | .arrayType .. | .ellipsis .. | .mapType .. | .chanType .. | .funcType .. | .structType ..
  | .interfaceType .. => true
termination_by structural x => x

def Expr.isPureOpt : Option Expr → Bool
  | none => true
  | some x => x.isPure
termination_by structural x => x

def Expr.arePure : List Expr → Bool
  | [] => true
  | x :: xs => x.isPure && Expr.arePure xs
termination_by structural xs => xs

end

/-- Whether an expression is built only from literals and operators on them. -/
def Expr.isConst : Expr → Bool
  | .lit .. => true
  | .ident _ name => name = "true" || name = "false"
  | .paren _ x => x.isConst
  | .unary _ op x => (op matches .plus | .neg | .not | .xor) && x.isConst
  | .binary _ _ x y => x.isConst && y.isConst
  | _ => false
termination_by structural x => x

/-- What a filter can know about a node. -/
structure Facts where
  text : String
  kind : String
  line : Nat
  size : Nat
  isList : Bool
  isPure : Bool
  isConst : Bool
deriving DecidableEq, Repr

/-- The facts about a node. Only expressions and lists of them are pure or constant, and an empty list
is not constant. -/
def Node.facts (n : Node) : Facts where
  text := n.text
  kind := n.kindName
  line := (n.pos?.map (·.line)).getD 0
  size := n.size
  isList := n.isList
  isPure := match n with
    | expr x => x.isPure
    | exprs xs => Expr.arePure xs
    | _ => false
  isConst := match n with
    | expr x => x.isConst
    | exprs xs => !xs.isEmpty && xs.all Expr.isConst
    | _ => false

end GoSift
