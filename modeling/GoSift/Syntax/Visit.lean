import GoSift.Syntax.Node

/-!
The nodes of a tree in source order: a node before its parts, and a list that is not empty before its
elements. The names of a field are visited one by one and not as a list.
-/
namespace GoSift

mutual

def Expr.visits (x : Expr) : List Node :=
  .expr x :: match x with
    | .ident .. | .wildcard .. | .lit .. => []
    | .composite _ type elts => Expr.optVisits type ++ Expr.listVisits elts
    | .funcLit _ params results body =>
      Field.listVisits params ++ Field.listVisits results ++ body.visits
    | .paren _ x | .star _ x | .unary _ _ x => x.visits
    | .selector _ x y | .index _ x y | .binary _ _ x y => x.visits ++ y.visits
    | .slice _ x low high max _ =>
      x.visits ++ Expr.optVisits low ++ Expr.optVisits high ++ Expr.optVisits max
    | .typeAssert _ x type => x.visits ++ Expr.optVisits type
    | .call _ fn args _ => fn.visits ++ Expr.listVisits args
    | .keyValue _ key value | .mapType _ key value => key.visits ++ value.visits
    | .arrayType _ len elem => Expr.optVisits len ++ elem.visits
    | .ellipsis _ elem => Expr.optVisits elem
    | .chanType _ _ value => value.visits
    | .funcType _ params results => Field.listVisits params ++ Field.listVisits results
    | .structType _ fields | .interfaceType _ fields => Field.listVisits fields
termination_by structural x

def Expr.optVisits : Option Expr → List Node
  | none => []
  | some x => x.visits
termination_by structural x => x

/-- The visits of the elements, without the list itself. -/
def Expr.eachVisits : List Expr → List Node
  | [] => []
  | x :: xs => x.visits ++ Expr.eachVisits xs
termination_by structural xs => xs

def Expr.listVisits : List Expr → List Node
  | [] => []
  | x :: xs => .exprs (x :: xs) :: (x.visits ++ Expr.eachVisits xs)
termination_by structural xs => xs

def Expr.listOptVisits : Option (List Expr) → List Node
  | none => []
  | some xs => Expr.listVisits xs
termination_by structural xs => xs

def Field.visits : Field → List Node
  | .mk pos names type =>
    .field (.mk pos names type) :: (Expr.eachVisits names ++ type.visits)
termination_by structural f => f

def Field.eachVisits : List Field → List Node
  | [] => []
  | f :: fs => f.visits ++ Field.eachVisits fs
termination_by structural fs => fs

def Field.listVisits : List Field → List Node
  | [] => []
  | f :: fs => .fields (f :: fs) :: (f.visits ++ Field.eachVisits fs)
termination_by structural fs => fs

def Stmt.visits (s : Stmt) : List Node :=
  .stmt s :: match s with
    | .expr _ x | .incDec _ x _ | .go _ x | .defer _ x => x.visits
    | .send _ chan value => chan.visits ++ value.visits
    | .assign _ lhs _ rhs => Expr.listVisits lhs ++ Expr.listVisits rhs
    | .var _ names type values =>
      Expr.listVisits names ++ Expr.optVisits type ++ Expr.listVisits values
    | .ret _ results => Expr.listVisits results
    | .branch .. | .empty _ => []
    | .labeled _ _ stmt => stmt.visits
    | .block _ stmts => Stmt.listVisits stmts
    | .cond _ init test body other =>
      Stmt.optVisits init ++ test.visits ++ body.visits ++ Stmt.optVisits other
    | .switch _ init tag body => Stmt.optVisits init ++ Expr.optVisits tag ++ body.visits
    | .typeSwitch _ init guard body => Stmt.optVisits init ++ guard.visits ++ body.visits
    | .clause _ list body => Expr.listOptVisits list ++ Stmt.listVisits body
    | .loop _ init test post body =>
      Stmt.optVisits init ++ Expr.optVisits test ++ Stmt.optVisits post ++ body.visits
    | .range _ key value _ x body =>
      Expr.optVisits key ++ Expr.optVisits value ++ x.visits ++ body.visits
termination_by structural s

def Stmt.optVisits : Option Stmt → List Node
  | none => []
  | some s => s.visits
termination_by structural s => s

def Stmt.eachVisits : List Stmt → List Node
  | [] => []
  | s :: ss => s.visits ++ Stmt.eachVisits ss
termination_by structural ss => ss

def Stmt.listVisits : List Stmt → List Node
  | [] => []
  | s :: ss => .stmts (s :: ss) :: (s.visits ++ Stmt.eachVisits ss)
termination_by structural ss => ss

end

/-- The nodes of a tree or list in source order. -/
def Node.visits : Node → List Node
  | .expr x => x.visits
  | .stmt s => s.visits
  | .field f => f.visits
  | .exprs xs => Expr.listVisits xs
  | .stmts ss => Stmt.listVisits ss
  | .fields fs => Field.listVisits fs

def Func.visits (f : Func) : List Node :=
  (match f.recv with
    | none => []
    | some recv => recv.visits)
    ++ Field.listVisits f.params ++ Field.listVisits f.results ++ Stmt.optVisits f.body

/-- The nodes of the functions of a file in source order. -/
def File.visits (f : File) : List Node :=
  f.funcs.flatMap Func.visits

end GoSift
