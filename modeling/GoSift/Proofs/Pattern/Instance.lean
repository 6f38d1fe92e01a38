import GoSift.Pattern.Encode
import GoSift.Proofs.Syntax.Sameness
import GoSift.Proofs.Syntax.Regular

/-!
Instances of a pattern: the trees that result when wildcards are replaced by what they stand for,
places apart. A wildcard for a run stands for any number of elements of a list, and for a part that
may be absent; elsewhere it stands for one node.
-/
namespace GoSift

/-- Whether a node can be put where `n` stands. An expression can also be put where a statement
stands. -/
def Node.denotes : Node → Node → Bool
  | .expr x, .stmt (.expr _ y) => x.same y
  | c, n => c.same n

namespace Pattern

/-- How a pattern is read: what its names stand for, and whether a list of results and several names
of a field have to stand for at least one. -/
structure Reading where
  strict : Bool
  stands : String → Node → Prop

/-- Whether a wildcard can stand for a node; `_` stands for any. -/
def Reading.Wild (r : Reading) (name : String) (n : Node) : Prop :=
  name = "_" ∨ r.stands name n

/-- Whether a list has an element if it has to, as an instance of `ps`. -/
def Reading.Filled {α : Type} (r : Reading) (ps xs : List α) : Prop :=
  r.strict → ps ≠ [] → xs ≠ []

/-- The reading of an assignment of nodes to names. -/
def Reading.of (strict : Bool) (a : String → Option Node) : Reading :=
  ⟨strict, fun name n => ∃ c, a name = some c ∧ c.denotes n⟩

/-- The wildcard for a run, if the field is one. -/
def fieldRunName? : Field → Option String
  | .mk _ [] type => runName? type
  | _ => none

end Pattern

open Pattern

mutual

/-- Whether the second expression is an instance of the first. -/
def Expr.Covers (r : Reading) : Expr → Expr → Prop
  | .wildcard _ name _, x => r.Wild name (.expr x)
  | .ident _ name, .ident _ name' => name = name'
  | .lit _ kind text, .lit _ kind' text' => kind = kind' ∧ text = text'
  | .composite _ type elts, .composite _ type' elts' =>
    Expr.CoversOpt r type type' ∧ Expr.CoversList r elts elts'
  | .funcLit _ params results body, .funcLit _ params' results' body' =>
    Field.CoversList r params params' ∧ Field.CoversList r results results'
      ∧ r.Filled results results' ∧ body.Covers r body'
  | .paren _ x, .paren _ x' => x.Covers r x'
  | .selector _ x sel, .selector _ x' sel' => x.Covers r x' ∧ sel.Covers r sel'
  | .index _ x i, .index _ x' i' => x.Covers r x' ∧ i.Covers r i'
  | .slice _ x low high max full, .slice _ x' low' high' max' full' =>
    x.Covers r x' ∧ Expr.CoversOpt r low low' ∧ Expr.CoversOpt r high high'
      ∧ Expr.CoversOpt r max max' ∧ full = full'
  | .typeAssert _ x type, .typeAssert _ x' type' => x.Covers r x' ∧ Expr.CoversOpt r type type'
  | .call _ fn args spread, .call _ fn' args' spread' =>
    fn.Covers r fn' ∧ Expr.CoversList r args args'
      ∧ (spread = spread' ∨ spread = false ∧ (args.getLast?.bind runName?).isSome)
  | .star _ x, .star _ x' => x.Covers r x'
  | .unary _ op x, .unary _ op' x' => op = op' ∧ x.Covers r x'
  | .binary _ op x y, .binary _ op' x' y' => op = op' ∧ x.Covers r x' ∧ y.Covers r y'
  | .keyValue _ key value, .keyValue _ key' value' => key.Covers r key' ∧ value.Covers r value'
  | .arrayType _ len elem, .arrayType _ len' elem' =>
    Expr.CoversOpt r len len' ∧ elem.Covers r elem'
  | .ellipsis _ elem, .ellipsis _ elem' => Expr.CoversOpt r elem elem'
  | .mapType _ key value, .mapType _ key' value' => key.Covers r key' ∧ value.Covers r value'
  | .chanType _ dir value, .chanType _ dir' value' => dir = dir' ∧ value.Covers r value'
  | .funcType _ params results, .funcType _ params' results' =>
    Field.CoversList r params params' ∧ Field.CoversList r results results'
      ∧ r.Filled results results'
  | .structType _ fields, .structType _ fields' => Field.CoversList r fields fields'
  | .interfaceType _ methods, .interfaceType _ methods' => Field.CoversList r methods methods'
  | _, _ => False
termination_by structural x => x

def Expr.CoversOpt (r : Reading) : Option Expr → Option Expr → Prop
  | none, x => x = none
  | some p, x => ∃ y, x = some y ∧ p.Covers r y
termination_by structural x => x

/-- An expression that may be absent from the instance if a wildcard for a run stands for it. -/
def Expr.CoversSlot (r : Reading) : Option Expr → Option Expr → Prop
  | none, x => x = none
  | some p, x =>
    match runName? p, x with
    | some name, some x => r.Wild name (.expr x)
    | some name, none => r.Wild name (.exprs [])
    | none, some x => p.Covers r x
    | none, none => False
termination_by structural x => x

def Expr.CoversList (r : Reading) : List Expr → List Expr → Prop
  | [], xs => xs = []
  | p :: ps, xs =>
    match runName? p with
    | some name =>
      ∃ front back, xs = front ++ back ∧ r.Wild name (.exprs front) ∧ Expr.CoversList r ps back
    | none => ∃ y ys, xs = y :: ys ∧ p.Covers r y ∧ Expr.CoversList r ps ys
termination_by structural xs => xs

def Expr.CoversListOpt (r : Reading) : Option (List Expr) → Option (List Expr) → Prop
  | none, xs => xs = none
  | some ps, xs => ∃ ys, xs = some ys ∧ Expr.CoversList r ps ys
termination_by structural xs => xs

/-- A field without names that is just a wildcard stands for whole fields. One name of a field is no
list, so that it stands for one name. -/
def Field.Covers (r : Reading) : Field → Field → Prop
  | .mk _ names type, .mk pos' names' type' =>
    match names, type.wildcard? with
    | [], some (name, _) => r.Wild name (.field (.mk pos' names' type'))
    | [], none => names' = [] ∧ type.Covers r type'
    | [p], _ => (∃ x, names' = [x] ∧ p.Covers r x) ∧ type.Covers r type'
    | names, _ => Expr.CoversList r names names' ∧ r.Filled names names' ∧ type.Covers r type'
termination_by structural f => f

def Field.CoversList (r : Reading) : List Field → List Field → Prop
  | [], fs => fs = []
  | p :: ps, fs =>
    match fieldRunName? p with
    | some name =>
      ∃ front back, fs = front ++ back ∧ r.Wild name (.fields front) ∧ Field.CoversList r ps back
    | none => ∃ g gs, fs = g :: gs ∧ p.Covers r g ∧ Field.CoversList r ps gs
termination_by structural fs => fs

/-- Whether the second statement is an instance of the first. -/
def Stmt.Covers (r : Reading) : Stmt → Stmt → Prop
  | .expr _ x, s =>
    match x.wildcard?, s with
    | some (name, _), s => r.Wild name (.stmt s)
    | none, .expr _ x' => x.Covers r x'
    | none, _ => False
  | .send _ chan value, .send _ chan' value' => chan.Covers r chan' ∧ value.Covers r value'
  | .incDec _ x up, .incDec _ x' up' => x.Covers r x' ∧ up = up'
  | .assign _ lhs op rhs, .assign _ lhs' op' rhs' =>
    Expr.CoversList r lhs lhs' ∧ op = op' ∧ Expr.CoversList r rhs rhs'
  | .var _ names type values, .var _ names' type' values' =>
    Expr.CoversList r names names' ∧ Expr.CoversOpt r type type' ∧ Expr.CoversList r values values'
  | .go _ call, .go _ call' => call.Covers r call'
  | .defer _ call, .defer _ call' => call.Covers r call'
  | .ret _ results, .ret _ results' => Expr.CoversList r results results'
  | .branch _ kind label, .branch _ kind' label' => kind = kind' ∧ label = label'
  | .labeled _ label stmt, .labeled _ label' stmt' => label = label' ∧ stmt.Covers r stmt'
  | .block _ stmts, .block _ stmts' => Stmt.CoversList r stmts stmts'
  | .cond _ init test body other, .cond _ init' test' body' other' =>
    Stmt.CoversSlot r init init' ∧ test.Covers r test' ∧ body.Covers r body'
      ∧ Stmt.CoversOpt r other other'
  | .switch _ init tag body, .switch _ init' tag' body' =>
    Stmt.CoversSlot r init init' ∧ Expr.CoversSlot r tag tag' ∧ body.Covers r body'
  | .typeSwitch _ init guard body, .typeSwitch _ init' guard' body' =>
    Stmt.CoversSlot r init init' ∧ guard.Covers r guard' ∧ body.Covers r body'
  | .clause _ list body, .clause _ list' body' =>
    Expr.CoversListOpt r list list' ∧ Stmt.CoversList r body body'
  | .loop _ init test post body, .loop _ init' test' post' body' =>
    Stmt.CoversSlot r init init' ∧ Expr.CoversSlot r test test' ∧ Stmt.CoversSlot r post post'
      ∧ body.Covers r body'
  | .range _ key value define x body, .range _ key' value' define' x' body' =>
    Expr.CoversOpt r key key' ∧ Expr.CoversOpt r value value' ∧ define = define' ∧ x.Covers r x'
      ∧ body.Covers r body'
  | .empty _, .empty _ => True
  | _, _ => False
termination_by structural s => s

def Stmt.CoversOpt (r : Reading) : Option Stmt → Option Stmt → Prop
  | none, s => s = none
  | some p, s => ∃ t, s = some t ∧ p.Covers r t
termination_by structural s => s

/-- A statement that may be absent from the instance if a wildcard for a run stands for it. -/
def Stmt.CoversSlot (r : Reading) : Option Stmt → Option Stmt → Prop
  | none, s => s = none
  | some p, s =>
    match stmtRunName? p, s with
    | some name, some s => r.Wild name (.stmt s)
    | some name, none => r.Wild name (.stmts [])
    | none, some s => p.Covers r s
    | none, none => False
termination_by structural s => s

def Stmt.CoversList (r : Reading) : List Stmt → List Stmt → Prop
  | [], ss => ss = []
  | p :: ps, ss =>
    match stmtRunName? p with
    | some name =>
      ∃ front back, ss = front ++ back ∧ r.Wild name (.stmts front) ∧ Stmt.CoversList r ps back
    | none => ∃ t ts, ss = t :: ts ∧ p.Covers r t ∧ Stmt.CoversList r ps ts
termination_by structural ss => ss

end

/-- Whether the second node is an instance of the first, which is a whole pattern. A pattern that is
just a wildcard stands for any node but a list. -/
def Node.Covers (r : Reading) : Node → Node → Prop
  | .expr p, n =>
    match p.wildcard?, n with
    | some (name, _), n => n.isList = false ∧ r.Wild name n
    | none, .expr x => p.Covers r x
    | none, _ => False
  | .stmt p, n =>
    match p.wildcard?, n with
    | some (name, _), n => n.isList = false ∧ r.Wild name n
    | none, .stmt s => p.Covers r s
    | none, _ => False
  | .exprs ps, .exprs xs => Expr.CoversList r ps xs
  | .stmts ps, .stmts ss => Stmt.CoversList r ps ss
  | _, _ => False

end GoSift
