import GoSift.Pattern.Encode
import GoSift.Proofs.Pattern.Parts

/-!
Patterns as terms: an operation with its arguments, of which a list is a run of terms. Code is the
flat form of a term.
-/
namespace GoSift.Pattern

inductive Term where
  | wild (slot : Slot) (name : Option String)
  | shape (op : Op) (value : Nat) (text : String) (args : List Term)
  | run (elements : List Term)

namespace Term

/-- A wildcard; `_` is anonymous. -/
def named (name : String) (slot : Slot) : Term :=
  wild slot (if name = "_" then none else some name)

/-- An operation with neither operator nor text. -/
def plain (op : Op) (args : List Term) : Term :=
  shape op 0 "" args

/-- An operation with an operator. -/
def coded (op : Op) (value : Nat) (args : List Term) : Term :=
  shape op value "" args

/-- A list of fields, from the terms of its elements. -/
def fieldList (elements : List Term) : Term :=
  plain .fieldList [run elements]

/-- A signature, from the terms of the fields in its two lists. -/
def signature (results : List Field) (params' results' : List Term) : Term :=
  if results.isEmpty then plain (.funcType false) [fieldList params']
  else plain (.funcType true) [fieldList params', fieldList results']

/-- How a term stands among the arguments of an operation. -/
def kind : Term → Arg
  | run _ => .run
  | _ => .one

@[simp] theorem kind_run (elements : List Term) : (run elements).kind = .run := rfl

@[simp] theorem kind_named (name : String) (slot : Slot) : (named name slot).kind = .one := rfl

@[simp] theorem kind_fieldList (elements : List Term) : (fieldList elements).kind = .one := rfl

@[simp] theorem kind_signature (results : List Field) (params' results' : List Term) :
    (signature results params' results').kind = .one := by
  rw [signature]
  split <;> rfl

end Term

/-- Whether an operation takes a node apart, as all do but wildcards, closing instructions and the
roots of list patterns. -/
def Op.isShape : Op → Bool
  | .wildcard .. | .close | .exprList | .stmtList => false
  | _ => true

mutual

/-- Whether code spells a term out, with a table of texts. -/
def Term.Spells (strings : List String) : Term → List Inst → Prop
  | .wild slot none, code => code = [⟨.wildcard slot false, 0, 0⟩]
  | .wild slot (some name), code =>
    ∃ i, strings[i]? = some name ∧ code = [⟨.wildcard slot true, 0, i⟩]
  | .shape op value text args, code =>
    ∃ i rest, code = ⟨op, value, i⟩ :: rest ∧ op.isShape ∧ args.map Term.kind = op.args ∧
      Inst.text? ⟨op, value, i⟩ strings = some text ∧ Term.SpellsAll strings args rest
  | .run elements, code =>
    ∃ front, code = front ++ [.closing] ∧ (∀ t ∈ elements, t.kind = .one) ∧
      Term.SpellsAll strings elements front
termination_by structural t => t

def Term.SpellsAll (strings : List String) : List Term → List Inst → Prop
  | [], code => code = []
  | t :: ts, code =>
    ∃ front back, code = front ++ back ∧ t.Spells strings front ∧ Term.SpellsAll strings ts back
termination_by structural ts => ts

end

end GoSift.Pattern

namespace GoSift

open Pattern

mutual

def Expr.term : Expr → Term
  | .wildcard _ name _ => .named name .single
  | .ident _ name => .shape .ident 0 name []
  | .lit _ kind text => .shape (.lit kind) 0 text []
  | .composite _ type elts =>
    .plain (.composite type.isSome) (Expr.termOpt type ++ [.run (Expr.terms elts)])
  | .funcLit _ params results body =>
    .plain .funcLit [.signature results (Field.terms params) (Field.terms results), body.term]
  | .paren _ x => .plain .paren [x.term]
  | .selector _ x sel =>
    match sel.identName? with
    | some name => .shape .fixedSelector 0 name [x.term]
    | none => .plain .selector [x.term, sel.term]
  | .index _ x i => .plain .index [x.term, i.term]
  | .slice _ x low high max _ =>
    .plain (.slice low.isSome high.isSome max.isSome)
      (x.term :: Expr.termOpt low ++ Expr.termOpt high ++ Expr.termOpt max)
  | .typeAssert _ x type => .plain (.typeAssert type.isSome) (x.term :: Expr.termOpt type)
  | .call _ fn args spread =>
    .plain (.call (callSpread args spread)) [fn.term, .run (Expr.terms args)]
  | .star _ x => .plain .star [x.term]
  | .unary _ op x => .coded .unary op.code [x.term]
  | .binary _ op x y => .coded .binary op.code [x.term, y.term]
  | .keyValue _ key value => .plain .keyValue [key.term, value.term]
  | .arrayType _ len elem => .plain (.arrayType len.isSome) (Expr.termOpt len ++ [elem.term])
  | .ellipsis _ elem => .plain (.ellipsis elem.isSome) (Expr.termOpt elem)
  | .mapType _ key value => .plain .mapType [key.term, value.term]
  | .chanType _ dir value => .coded .chanType dir.code [value.term]
  | .funcType _ params results => .signature results (Field.terms params) (Field.terms results)
  | .structType _ fields => .plain .structType [.fieldList (Field.terms fields)]
  | .interfaceType _ methods => .plain .interfaceType [.fieldList (Field.terms methods)]
termination_by structural x => x

def Expr.termOpt : Option Expr → List Term
  | none => []
  | some x => [x.term]
termination_by structural x => x

def Expr.termSlot : Option Expr → List Term
  | none => []
  | some x =>
    match runName? x with
    | some name => [.named name .opt]
    | none => [x.term]
termination_by structural x => x

def Expr.terms : List Expr → List Term
  | [] => []
  | x :: xs =>
    (match runName? x with
      | some name => .named name .seq
      | none => x.term) :: Expr.terms xs
termination_by structural xs => xs

/-- The terms of expressions that are not the elements of a list. -/
def Expr.termEach : List Expr → List Term
  | [] => []
  | x :: xs => x.term :: Expr.termEach xs
termination_by structural xs => xs

def Expr.termsOpt : Option (List Expr) → List Term
  | none => []
  | some xs => [.run (Expr.terms xs)]
termination_by structural xs => xs

def Field.term : Field → Term
  | .mk _ names type =>
    match names, type.wildcard? with
    | [], some (name, any) => .named name (if any then .seq else .single)
    | [], none => .plain .unnamedField [type.term]
    | [name], _ =>
      match name.identName? with
      | some ident => .shape .fixedField 0 ident [type.term]
      | none => .plain .field [name.term, type.term]
    | names, _ => .plain .multiField [.run (Expr.terms names), type.term]
termination_by structural f => f

def Field.terms : List Field → List Term
  | [] => []
  | f :: fs => f.term :: Field.terms fs
termination_by structural fs => fs

def Stmt.term : Stmt → Term
  | .expr _ x =>
    match x.wildcard? with
    | some (name, _) => .named name .single
    | none => .plain .exprStmt [x.term]
  | .send _ chan value => .plain .send [chan.term, value.term]
  | .incDec _ x up => .coded .incDec (stepCode up) [x.term]
  | .assign _ lhs op rhs =>
    if isSingleAssign lhs rhs then .coded .assign op.code (Expr.termEach lhs ++ Expr.termEach rhs)
    else .coded .multiAssign op.code [.run (Expr.terms lhs), .run (Expr.terms rhs)]
  | .var _ names type values =>
    .plain (.var type.isSome)
      (.run (Expr.terms names) :: Expr.termOpt type ++ [.run (Expr.terms values)])
  | .go _ x => .plain .go [x.term]
  | .defer _ x => .plain .defer [x.term]
  | .ret _ results => .plain .ret [.run (Expr.terms results)]
  | .branch _ kind none => .coded (.branch false) kind.code []
  | .branch _ kind (some label) => .shape (.branch true) kind.code label []
  | .labeled _ label stmt => .shape .labeled 0 label [stmt.term]
  | .block _ stmts => .plain .block [.run (Stmt.terms stmts)]
  | .cond _ init test body other =>
    .plain (.cond init.isSome other.isSome)
      (Stmt.termSlot init ++ [test.term, body.term] ++ Stmt.termOpt other)
  | .switch _ init tag body =>
    .plain (.switch init.isSome tag.isSome)
      (Stmt.termSlot init ++ Expr.termSlot tag ++ [body.term])
  | .typeSwitch _ init guard body =>
    .plain (.typeSwitch init.isSome) (Stmt.termSlot init ++ [guard.term, body.term])
  | .clause _ list body =>
    .plain (if list.isSome then .clause else .defaultClause)
      (Expr.termsOpt list ++ [.run (Stmt.terms body)])
  | .loop _ init test post body =>
    .plain (.loop init.isSome test.isSome post.isSome)
      (Stmt.termSlot init ++ Expr.termSlot test ++ Stmt.termSlot post ++ [body.term])
  | .range _ none _ _ x body => .plain .rangeAll [x.term, body.term]
  | .range _ (some key) value define x body =>
    .coded (if value.isSome then .rangeKeyValue else .rangeKey) (defineCode define)
      (key.term :: Expr.termOpt value ++ [x.term, body.term])
  | .empty _ => .plain .empty []
termination_by structural s => s

def Stmt.termOpt : Option Stmt → List Term
  | none => []
  | some s => [s.term]
termination_by structural s => s

def Stmt.termSlot : Option Stmt → List Term
  | none => []
  | some s =>
    match stmtRunName? s with
    | some name => [.named name .opt]
    | none => [s.term]
termination_by structural s => s

def Stmt.terms : List Stmt → List Term
  | [] => []
  | s :: ss =>
    (match stmtRunName? s with
      | some name => .named name .seq
      | none => s.term) :: Stmt.terms ss
termination_by structural ss => ss

end

@[simp] theorem Expr.kind_term (x : Expr) : x.term.kind = .one := by
  cases x with
  | selector _ x sel =>
    rw [Expr.term]
    split <;> rfl
  | funcType _ params results =>
    exact Term.kind_signature ..
  | _ => rfl

@[simp] theorem Stmt.kind_term (s : Stmt) : s.term.kind = .one := by
  cases s with
  | expr _ x =>
    rw [Stmt.term]
    split <;> rfl
  | assign _ lhs op rhs =>
    rw [Stmt.term]
    split <;> rfl
  | branch _ kind label => cases label <;> rfl
  | range _ key => cases key <;> rfl
  | _ => rfl

@[simp] theorem Field.kind_term (f : Field) : f.term.kind = .one := by
  obtain ⟨_, names, type⟩ := f
  rw [Field.term.eq_def]
  dsimp only
  split
  · rfl
  · rfl
  · split <;> rfl
  · rfl

@[simp] theorem Expr.kinds_termOpt (x : Option Expr) :
    (Expr.termOpt x).map Term.kind = Op.args.given x.isSome := by
  cases x <;> simp [Expr.termOpt]

@[simp] theorem Stmt.kinds_termOpt (s : Option Stmt) :
    (Stmt.termOpt s).map Term.kind = Op.args.given s.isSome := by
  cases s <;> simp [Stmt.termOpt]

@[simp] theorem Expr.kinds_termSlot (x : Option Expr) :
    (Expr.termSlot x).map Term.kind = Op.args.given x.isSome := by
  cases x with
  | none => rfl
  | some x =>
    rw [Expr.termSlot]
    split <;> simp

@[simp] theorem Stmt.kinds_termSlot (s : Option Stmt) :
    (Stmt.termSlot s).map Term.kind = Op.args.given s.isSome := by
  cases s with
  | none => rfl
  | some s =>
    rw [Stmt.termSlot]
    split <;> simp

theorem Expr.kinds_termEach {lhs rhs : List Expr} (h : isSingleAssign lhs rhs) :
    (Expr.termEach lhs ++ Expr.termEach rhs).map Term.kind = [.one, .one] := by
  unfold isSingleAssign at h
  split at h
  · simp [Expr.termEach]
  · cases h

theorem Expr.term_ne_seq (x : Expr) (name : Option String) : x.term ≠ .wild .seq name := by
  cases x with
  | selector _ x sel =>
    rw [Expr.term]
    split <;> nofun
  | funcType _ params results =>
    rw [Expr.term, Term.signature]
    split <;> nofun
  | _ => nofun

theorem Stmt.term_ne_seq (s : Stmt) (name : Option String) : s.term ≠ .wild .seq name := by
  cases s with
  | expr _ x =>
    rw [Stmt.term]
    split <;> nofun
  | assign _ lhs op rhs =>
    rw [Stmt.term]
    split <;> nofun
  | branch _ kind label => cases label <;> nofun
  | range _ key => cases key <;> nofun
  | _ => nofun

end GoSift
