import GoSift.Syntax.Basic

/-! Equality of syntax trees without regard to places. -/
namespace GoSift

mutual

def Expr.same : Expr → Expr → Bool
  | .ident _ name, .ident _ name' => name == name'
  | .wildcard _ name any, .wildcard _ name' any' => name == name' && any == any'
  | .lit _ kind text, .lit _ kind' text' => kind == kind' && text == text'
  | .composite _ type elts, .composite _ type' elts' =>
    Expr.sameOpt type type' && Expr.sameList elts elts'
  | .funcLit _ params results body, .funcLit _ params' results' body' =>
    Field.sameList params params' && Field.sameList results results' && body.same body'
  | .paren _ x, .paren _ x' => x.same x'
  | .selector _ x sel, .selector _ x' sel' => x.same x' && sel.same sel'
  | .index _ x i, .index _ x' i' => x.same x' && i.same i'
  | .slice _ x low high max full, .slice _ x' low' high' max' full' =>
    x.same x' && Expr.sameOpt low low' && Expr.sameOpt high high' && Expr.sameOpt max max'
      && full == full'
  | .typeAssert _ x type, .typeAssert _ x' type' => x.same x' && Expr.sameOpt type type'
  | .call _ fn args spread, .call _ fn' args' spread' =>
    fn.same fn' && Expr.sameList args args' && spread == spread'
  | .star _ x, .star _ x' => x.same x'
  | .unary _ op x, .unary _ op' x' => op == op' && x.same x'
  | .binary _ op x y, .binary _ op' x' y' => op == op' && x.same x' && y.same y'
  | .keyValue _ key value, .keyValue _ key' value' => key.same key' && value.same value'
  | .arrayType _ len elem, .arrayType _ len' elem' => Expr.sameOpt len len' && elem.same elem'
  | .ellipsis _ elem, .ellipsis _ elem' => Expr.sameOpt elem elem'
  | .mapType _ key value, .mapType _ key' value' => key.same key' && value.same value'
  | .chanType _ dir value, .chanType _ dir' value' => dir == dir' && value.same value'
  | .funcType _ params results, .funcType _ params' results' =>
    Field.sameList params params' && Field.sameList results results'
  | .structType _ fields, .structType _ fields' => Field.sameList fields fields'
  | .interfaceType _ methods, .interfaceType _ methods' => Field.sameList methods methods'
  | _, _ => false
termination_by structural x => x

def Expr.sameOpt : Option Expr → Option Expr → Bool
  | none, none => true
  | some x, some x' => x.same x'
  | _, _ => false
termination_by structural x => x

def Expr.sameList : List Expr → List Expr → Bool
  | [], [] => true
  | x :: xs, x' :: xs' => x.same x' && Expr.sameList xs xs'
  | _, _ => false
termination_by structural xs => xs

def Expr.sameListOpt : Option (List Expr) → Option (List Expr) → Bool
  | none, none => true
  | some xs, some xs' => Expr.sameList xs xs'
  | _, _ => false
termination_by structural xs => xs

def Field.same : Field → Field → Bool
  | .mk _ names type, .mk _ names' type' => Expr.sameList names names' && type.same type'
termination_by structural f => f

def Field.sameList : List Field → List Field → Bool
  | [], [] => true
  | f :: fs, f' :: fs' => f.same f' && Field.sameList fs fs'
  | _, _ => false
termination_by structural fs => fs

def Stmt.same : Stmt → Stmt → Bool
  | .expr _ x, .expr _ x' => x.same x'
  | .send _ chan value, .send _ chan' value' => chan.same chan' && value.same value'
  | .incDec _ x up, .incDec _ x' up' => x.same x' && up == up'
  | .assign _ lhs op rhs, .assign _ lhs' op' rhs' =>
    Expr.sameList lhs lhs' && op == op' && Expr.sameList rhs rhs'
  | .var _ names type values, .var _ names' type' values' =>
    Expr.sameList names names' && Expr.sameOpt type type' && Expr.sameList values values'
  | .go _ call, .go _ call' => call.same call'
  | .defer _ call, .defer _ call' => call.same call'
  | .ret _ results, .ret _ results' => Expr.sameList results results'
  | .branch _ kind label, .branch _ kind' label' => kind == kind' && label == label'
  | .labeled _ label stmt, .labeled _ label' stmt' => label == label' && stmt.same stmt'
  | .block _ stmts, .block _ stmts' => Stmt.sameList stmts stmts'
  | .cond _ init test body other, .cond _ init' test' body' other' =>
    Stmt.sameOpt init init' && test.same test' && body.same body' && Stmt.sameOpt other other'
  | .switch _ init tag body, .switch _ init' tag' body' =>
    Stmt.sameOpt init init' && Expr.sameOpt tag tag' && body.same body'
  | .typeSwitch _ init guard body, .typeSwitch _ init' guard' body' =>
    Stmt.sameOpt init init' && guard.same guard' && body.same body'
  | .clause _ list body, .clause _ list' body' =>
    Expr.sameListOpt list list' && Stmt.sameList body body'
  | .loop _ init test post body, .loop _ init' test' post' body' =>
    Stmt.sameOpt init init' && Expr.sameOpt test test' && Stmt.sameOpt post post'
      && body.same body'
  | .range _ key value define x body, .range _ key' value' define' x' body' =>
    Expr.sameOpt key key' && Expr.sameOpt value value' && define == define' && x.same x'
      && body.same body'
  | .empty _, .empty _ => true
  | _, _ => false
termination_by structural s => s

def Stmt.sameOpt : Option Stmt → Option Stmt → Bool
  | none, none => true
  | some s, some s' => s.same s'
  | _, _ => false
termination_by structural s => s

def Stmt.sameList : List Stmt → List Stmt → Bool
  | [], [] => true
  | s :: ss, s' :: ss' => s.same s' && Stmt.sameList ss ss'
  | _, _ => false
termination_by structural ss => ss

end

/-- Equality of functions without regard to places. -/
def Func.same (f f' : Func) : Bool :=
  (match f.recv, f'.recv with
    | none, none => true
    | some recv, some recv' => recv.same recv'
    | _, _ => false)
    && f.name == f'.name && Field.sameList f.params f'.params
    && Field.sameList f.results f'.results && Stmt.sameOpt f.body f'.body

def Func.sameList : List Func → List Func → Bool
  | [], [] => true
  | f :: fs, f' :: fs' => f.same f' && Func.sameList fs fs'
  | _, _ => false

/-- Equality of files without regard to places. -/
def File.same (f f' : File) : Bool :=
  f.package == f'.package && f.imports == f'.imports && Func.sameList f.funcs f'.funcs

end GoSift
