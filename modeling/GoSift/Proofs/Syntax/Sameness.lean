import GoSift.Syntax.Node

/-!
Sameness of trees is equality once all places are forgotten, so it is an equivalence.
-/
namespace GoSift

mutual

/-- An expression with every place set to the default. -/
def Expr.erase : Expr → Expr
  | .ident _ name => .ident default name
  | .wildcard _ name any => .wildcard default name any
  | .lit _ kind text => .lit default kind text
  | .composite _ type elts => .composite default (Expr.eraseOpt type) (Expr.eraseList elts)
  | .funcLit _ params results body =>
    .funcLit default (Field.eraseList params) (Field.eraseList results) body.erase
  | .paren _ x => .paren default x.erase
  | .selector _ x sel => .selector default x.erase sel.erase
  | .index _ x i => .index default x.erase i.erase
  | .slice _ x low high max full =>
    .slice default x.erase (Expr.eraseOpt low) (Expr.eraseOpt high) (Expr.eraseOpt max) full
  | .typeAssert _ x type => .typeAssert default x.erase (Expr.eraseOpt type)
  | .call _ fn args spread => .call default fn.erase (Expr.eraseList args) spread
  | .star _ x => .star default x.erase
  | .unary _ op x => .unary default op x.erase
  | .binary _ op x y => .binary default op x.erase y.erase
  | .keyValue _ key value => .keyValue default key.erase value.erase
  | .arrayType _ len elem => .arrayType default (Expr.eraseOpt len) elem.erase
  | .ellipsis _ elem => .ellipsis default (Expr.eraseOpt elem)
  | .mapType _ key value => .mapType default key.erase value.erase
  | .chanType _ dir value => .chanType default dir value.erase
  | .funcType _ params results =>
    .funcType default (Field.eraseList params) (Field.eraseList results)
  | .structType _ fields => .structType default (Field.eraseList fields)
  | .interfaceType _ methods => .interfaceType default (Field.eraseList methods)
termination_by structural x => x

def Expr.eraseOpt : Option Expr → Option Expr
  | none => none
  | some x => some x.erase
termination_by structural x => x

def Expr.eraseList : List Expr → List Expr
  | [] => []
  | x :: xs => x.erase :: Expr.eraseList xs
termination_by structural xs => xs

def Expr.eraseListOpt : Option (List Expr) → Option (List Expr)
  | none => none
  | some xs => some (Expr.eraseList xs)
termination_by structural xs => xs

def Field.erase : Field → Field
  | .mk _ names type => .mk default (Expr.eraseList names) type.erase
termination_by structural f => f

def Field.eraseList : List Field → List Field
  | [] => []
  | f :: fs => f.erase :: Field.eraseList fs
termination_by structural fs => fs

/-- A statement with every place set to the default. -/
def Stmt.erase : Stmt → Stmt
  | .expr _ x => .expr default x.erase
  | .send _ chan value => .send default chan.erase value.erase
  | .incDec _ x up => .incDec default x.erase up
  | .assign _ lhs op rhs => .assign default (Expr.eraseList lhs) op (Expr.eraseList rhs)
  | .var _ names type values =>
    .var default (Expr.eraseList names) (Expr.eraseOpt type) (Expr.eraseList values)
  | .go _ call => .go default call.erase
  | .defer _ call => .defer default call.erase
  | .ret _ results => .ret default (Expr.eraseList results)
  | .branch _ kind label => .branch default kind label
  | .labeled _ label stmt => .labeled default label stmt.erase
  | .block _ stmts => .block default (Stmt.eraseList stmts)
  | .cond _ init test body other =>
    .cond default (Stmt.eraseOpt init) test.erase body.erase (Stmt.eraseOpt other)
  | .switch _ init tag body => .switch default (Stmt.eraseOpt init) (Expr.eraseOpt tag) body.erase
  | .typeSwitch _ init guard body => .typeSwitch default (Stmt.eraseOpt init) guard.erase body.erase
  | .clause _ list body => .clause default (Expr.eraseListOpt list) (Stmt.eraseList body)
  | .loop _ init test post body =>
    .loop default (Stmt.eraseOpt init) (Expr.eraseOpt test) (Stmt.eraseOpt post) body.erase
  | .range _ key value define x body =>
    .range default (Expr.eraseOpt key) (Expr.eraseOpt value) define x.erase body.erase
  | .empty _ => .empty default
termination_by structural s => s

def Stmt.eraseOpt : Option Stmt → Option Stmt
  | none => none
  | some s => some s.erase
termination_by structural s => s

def Stmt.eraseList : List Stmt → List Stmt
  | [] => []
  | s :: ss => s.erase :: Stmt.eraseList ss
termination_by structural ss => ss

end

attribute [local simp] Expr.same Expr.erase Expr.sameOpt Expr.eraseOpt Expr.sameList Expr.eraseList
  Expr.sameListOpt Expr.eraseListOpt Field.same Field.erase Field.sameList Field.eraseList Stmt.same
  Stmt.erase Stmt.sameOpt Stmt.eraseOpt Stmt.sameList Stmt.eraseList

mutual

theorem Expr.same_iff (x y : Expr) : x.same y ↔ x.erase = y.erase := by
  cases x with
  | ident | wildcard | lit => cases y <;> simp
  | composite _ type elts => cases y <;> simp [Expr.sameOpt_iff type, Expr.sameList_iff elts]
  | funcLit _ params results body =>
    cases y <;> simp [Field.sameList_iff params, Field.sameList_iff results,
      body.same_iff, and_assoc]
  | paren _ x => cases y <;> simp [x.same_iff]
  | selector _ x sel => cases y <;> simp [x.same_iff, sel.same_iff]
  | index _ x i => cases y <;> simp [x.same_iff, i.same_iff]
  | slice _ x low high max =>
    cases y <;> simp [x.same_iff, Expr.sameOpt_iff low,
      Expr.sameOpt_iff high, Expr.sameOpt_iff max, and_assoc]
  | typeAssert _ x type => cases y <;> simp [x.same_iff, Expr.sameOpt_iff type]
  | call _ fn args => cases y <;> simp [fn.same_iff, Expr.sameList_iff args, and_assoc]
  | star _ x => cases y <;> simp [x.same_iff]
  | unary _ op x => cases y <;> simp [x.same_iff]
  | binary _ op l r => cases y <;> simp [l.same_iff, r.same_iff, and_assoc]
  | keyValue _ key value => cases y <;> simp [key.same_iff, value.same_iff]
  | arrayType _ len elem => cases y <;> simp [Expr.sameOpt_iff len, elem.same_iff]
  | ellipsis _ elem => cases y <;> simp [Expr.sameOpt_iff elem]
  | mapType _ key value => cases y <;> simp [key.same_iff, value.same_iff]
  | chanType _ dir value => cases y <;> simp [value.same_iff]
  | funcType _ params results =>
    cases y <;> simp [Field.sameList_iff params, Field.sameList_iff results]
  | structType _ fields => cases y <;> simp [Field.sameList_iff fields]
  | interfaceType _ methods => cases y <;> simp [Field.sameList_iff methods]
termination_by structural x

theorem Expr.sameOpt_iff (x y : Option Expr) : Expr.sameOpt x y ↔ Expr.eraseOpt x = Expr.eraseOpt y := by
  cases x with
  | none => cases y <;> simp
  | some x => cases y <;> simp [x.same_iff]
termination_by structural x

theorem Expr.sameList_iff (xs ys : List Expr) :
    Expr.sameList xs ys ↔ Expr.eraseList xs = Expr.eraseList ys := by
  cases xs with
  | nil => cases ys <;> simp
  | cons x xs => cases ys <;> simp [x.same_iff, Expr.sameList_iff xs]
termination_by structural xs

theorem Expr.sameListOpt_iff (xs ys : Option (List Expr)) :
    Expr.sameListOpt xs ys ↔ Expr.eraseListOpt xs = Expr.eraseListOpt ys := by
  cases xs with
  | none => cases ys <;> simp
  | some xs => cases ys <;> simp [Expr.sameList_iff xs]
termination_by structural xs

theorem Field.same_iff (f g : Field) : f.same g ↔ f.erase = g.erase := by
  obtain ⟨_, names, type⟩ := f
  obtain ⟨⟩ := g
  simp [Expr.sameList_iff names, type.same_iff]
termination_by structural f

theorem Field.sameList_iff (fs gs : List Field) :
    Field.sameList fs gs ↔ Field.eraseList fs = Field.eraseList gs := by
  cases fs with
  | nil => cases gs <;> simp
  | cons f fs => cases gs <;> simp [f.same_iff, Field.sameList_iff fs]
termination_by structural fs

theorem Stmt.same_iff (s t : Stmt) : s.same t ↔ s.erase = t.erase := by
  cases s with
  | expr _ x => cases t <;> simp [x.same_iff]
  | send _ chan value => cases t <;> simp [chan.same_iff, value.same_iff]
  | incDec _ x => cases t <;> simp [x.same_iff]
  | assign _ lhs op rhs =>
    cases t <;> simp [Expr.sameList_iff lhs, Expr.sameList_iff rhs, and_assoc]
  | var _ names type values =>
    cases t <;> simp [Expr.sameList_iff names, Expr.sameOpt_iff type,
      Expr.sameList_iff values, and_assoc]
  | go _ x | defer _ x => cases t <;> simp [x.same_iff]
  | ret _ results => cases t <;> simp [Expr.sameList_iff results]
  | branch | empty => cases t <;> simp
  | labeled _ label stmt => cases t <;> simp [stmt.same_iff]
  | block _ stmts => cases t <;> simp [Stmt.sameList_iff stmts]
  | cond _ init test body other =>
    cases t <;> simp [Stmt.sameOpt_iff init, test.same_iff, body.same_iff,
      Stmt.sameOpt_iff other, and_assoc]
  | switch _ init tag body =>
    cases t <;> simp [Stmt.sameOpt_iff init, Expr.sameOpt_iff tag, body.same_iff, and_assoc]
  | typeSwitch _ init guard body =>
    cases t <;> simp [Stmt.sameOpt_iff init, guard.same_iff, body.same_iff, and_assoc]
  | clause _ list body => cases t <;> simp [Expr.sameListOpt_iff list, Stmt.sameList_iff body]
  | loop _ init test post body =>
    cases t <;> simp [Stmt.sameOpt_iff init, Expr.sameOpt_iff test,
      Stmt.sameOpt_iff post, body.same_iff, and_assoc]
  | range _ key value define x body =>
    cases t <;> simp [Expr.sameOpt_iff key, Expr.sameOpt_iff value, x.same_iff,
      body.same_iff, and_assoc]
termination_by structural s

theorem Stmt.sameOpt_iff (s t : Option Stmt) : Stmt.sameOpt s t ↔ Stmt.eraseOpt s = Stmt.eraseOpt t := by
  cases s with
  | none => cases t <;> simp
  | some s => cases t <;> simp [s.same_iff]
termination_by structural s

theorem Stmt.sameList_iff (ss ts : List Stmt) :
    Stmt.sameList ss ts ↔ Stmt.eraseList ss = Stmt.eraseList ts := by
  cases ss with
  | nil => cases ts <;> simp
  | cons s ss => cases ts <;> simp [s.same_iff, Stmt.sameList_iff ss]
termination_by structural ss

end

namespace Node

/-- A node with every place set to the default. -/
def erase : Node → Node
  | expr x => expr x.erase
  | stmt s => stmt s.erase
  | field f => field f.erase
  | exprs xs => exprs (Expr.eraseList xs)
  | stmts ss => stmts (Stmt.eraseList ss)
  | fields fs => fields (Field.eraseList fs)

theorem same_iff (n m : Node) : n.same m ↔ n.erase = m.erase := by
  cases n <;> cases m <;>
    simp [same, erase, Expr.same_iff, Stmt.same_iff, Field.same_iff, Expr.sameList_iff,
      Stmt.sameList_iff, Field.sameList_iff]

theorem same_refl (n : Node) : n.same n := by
  rw [same_iff]

end Node

end GoSift
