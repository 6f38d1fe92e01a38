import GoSift.Syntax.Basic

/-! Outlines: a syntax tree as rows, a node before its parts, each part under the name of its slot. -/
namespace GoSift

/-- A row of an outline: how deep the node lies, the slot it fills in its parent, its kind and place,
and what it holds besides its parts. -/
structure OutlineRow where
  depth : Nat
  slot : String
  kind : String
  pos : Position
  value : Option String
deriving Repr

/-- What an expression holds besides its parts. -/
def Expr.outlineValue : Expr → Option String
  | .ident _ name => some name
  | .wildcard _ name any => some (Token.Kind.wildcardText name any)
  | .lit _ kind text => some (kind.text ++ " " ++ text)
  | .unary _ op _ => some op.text
  | .binary _ op _ _ => some op.text
  | .slice _ _ _ _ _ full => some (if full then "slice3" else "slice")
  | .typeAssert _ _ none => some "type"
  | .call _ _ _ true => some "..."
  | .chanType _ dir _ => some dir.text
  | _ => none

/-- What a statement holds besides its parts. -/
def Stmt.outlineValue : Stmt → Option String
  | .incDec _ _ up => some (stepText up)
  | .assign _ _ op _ => some op.text
  | .branch _ kind none => some kind.text
  | .branch _ kind (some label) => some (kind.text ++ " " ++ label)
  | .labeled _ label _ => some label
  | .clause _ none _ => some "default"
  | .clause _ (some _) _ => some "case"
  | .range _ _ _ define _ _ => some (defineText define)
  | _ => none

mutual

def Expr.outline (depth : Nat) (slot : String) (x : Expr) : List OutlineRow :=
  ⟨depth, slot, x.kindName, x.pos, x.outlineValue⟩ :: match x with
    | .ident .. | .wildcard .. | .lit .. => []
    | .composite _ type elts =>
      Expr.outlineOpt (depth + 1) "type" type ++ Expr.outlineList (depth + 1) "elt" elts
    | .funcLit _ params results body =>
      Field.outlineList (depth + 1) "param" params
        ++ Field.outlineList (depth + 1) "result" results ++ body.outline (depth + 1) "body"
    | .paren _ x | .star _ x | .unary _ _ x => x.outline (depth + 1) "x"
    | .selector _ x sel => x.outline (depth + 1) "x" ++ sel.outline (depth + 1) "sel"
    | .index _ x i => x.outline (depth + 1) "x" ++ i.outline (depth + 1) "index"
    | .slice _ x low high max _ =>
      x.outline (depth + 1) "x" ++ Expr.outlineOpt (depth + 1) "low" low
        ++ Expr.outlineOpt (depth + 1) "high" high ++ Expr.outlineOpt (depth + 1) "max" max
    | .typeAssert _ x type =>
      x.outline (depth + 1) "x" ++ Expr.outlineOpt (depth + 1) "type" type
    | .call _ fn args _ => fn.outline (depth + 1) "fun" ++ Expr.outlineList (depth + 1) "arg" args
    | .binary _ _ x y => x.outline (depth + 1) "x" ++ y.outline (depth + 1) "y"
    | .keyValue _ key value | .mapType _ key value =>
      key.outline (depth + 1) "key" ++ value.outline (depth + 1) "value"
    | .arrayType _ len elem =>
      Expr.outlineOpt (depth + 1) "len" len ++ elem.outline (depth + 1) "elem"
    | .ellipsis _ elem => Expr.outlineOpt (depth + 1) "elem" elem
    | .chanType _ _ value => value.outline (depth + 1) "value"
    | .funcType _ params results =>
      Field.outlineList (depth + 1) "param" params
        ++ Field.outlineList (depth + 1) "result" results
    | .structType _ fields | .interfaceType _ fields =>
      Field.outlineList (depth + 1) "field" fields
termination_by structural x

def Expr.outlineOpt (depth : Nat) (slot : String) : Option Expr → List OutlineRow
  | none => []
  | some x => x.outline depth slot
termination_by structural x => x

def Expr.outlineList (depth : Nat) (slot : String) : List Expr → List OutlineRow
  | [] => []
  | x :: xs => x.outline depth slot ++ Expr.outlineList depth slot xs
termination_by structural xs => xs

def Expr.outlineListOpt (depth : Nat) (slot : String) : Option (List Expr) → List OutlineRow
  | none => []
  | some xs => Expr.outlineList depth slot xs
termination_by structural xs => xs

def Field.outline (depth : Nat) (slot : String) : Field → List OutlineRow
  | .mk pos names type =>
    ⟨depth, slot, "Field", pos, none⟩
      :: (Expr.outlineList (depth + 1) "name" names ++ type.outline (depth + 1) "type")
termination_by structural f => f

def Field.outlineList (depth : Nat) (slot : String) : List Field → List OutlineRow
  | [] => []
  | f :: fs => f.outline depth slot ++ Field.outlineList depth slot fs
termination_by structural fs => fs

def Stmt.outline (depth : Nat) (slot : String) (s : Stmt) : List OutlineRow :=
  ⟨depth, slot, s.kindName, s.pos, s.outlineValue⟩ :: match s with
    | .expr _ x | .incDec _ x _ | .go _ x | .defer _ x => x.outline (depth + 1) "x"
    | .send _ chan value => chan.outline (depth + 1) "chan" ++ value.outline (depth + 1) "value"
    | .assign _ lhs _ rhs =>
      Expr.outlineList (depth + 1) "lhs" lhs ++ Expr.outlineList (depth + 1) "rhs" rhs
    | .var _ names type values =>
      Expr.outlineList (depth + 1) "name" names ++ Expr.outlineOpt (depth + 1) "type" type
        ++ Expr.outlineList (depth + 1) "value" values
    | .ret _ results => Expr.outlineList (depth + 1) "result" results
    | .branch .. | .empty _ => []
    | .labeled _ _ stmt => stmt.outline (depth + 1) "stmt"
    | .block _ stmts => Stmt.outlineList (depth + 1) "stmt" stmts
    | .cond _ init test body other =>
      Stmt.outlineOpt (depth + 1) "init" init ++ test.outline (depth + 1) "cond"
        ++ body.outline (depth + 1) "body" ++ Stmt.outlineOpt (depth + 1) "else" other
    | .switch _ init tag body =>
      Stmt.outlineOpt (depth + 1) "init" init ++ Expr.outlineOpt (depth + 1) "tag" tag
        ++ body.outline (depth + 1) "body"
    | .typeSwitch _ init guard body =>
      Stmt.outlineOpt (depth + 1) "init" init ++ guard.outline (depth + 1) "assign"
        ++ body.outline (depth + 1) "body"
    | .clause _ list body =>
      Expr.outlineListOpt (depth + 1) "expr" list ++ Stmt.outlineList (depth + 1) "stmt" body
    | .loop _ init test post body =>
      Stmt.outlineOpt (depth + 1) "init" init ++ Expr.outlineOpt (depth + 1) "cond" test
        ++ Stmt.outlineOpt (depth + 1) "post" post ++ body.outline (depth + 1) "body"
    | .range _ key value _ x body =>
      Expr.outlineOpt (depth + 1) "key" key ++ Expr.outlineOpt (depth + 1) "value" value
        ++ x.outline (depth + 1) "x" ++ body.outline (depth + 1) "body"
termination_by structural s

def Stmt.outlineOpt (depth : Nat) (slot : String) : Option Stmt → List OutlineRow
  | none => []
  | some s => s.outline depth slot
termination_by structural s => s

def Stmt.outlineList (depth : Nat) (slot : String) : List Stmt → List OutlineRow
  | [] => []
  | s :: ss => s.outline depth slot ++ Stmt.outlineList depth slot ss
termination_by structural ss => ss

end

def Func.outline (f : Func) : List OutlineRow :=
  ⟨0, "func", "FuncDecl", f.pos, some f.name⟩
    :: ((match f.recv with
        | none => []
        | some recv => recv.outline 1 "recv")
      ++ Field.outlineList 1 "param" f.params ++ Field.outlineList 1 "result" f.results
      ++ Stmt.outlineOpt 1 "body" f.body)

end GoSift
