import GoSift.Syntax.Parse
import GoSift.Syntax.Visit

/-!
Trees as the parser makes them. Some trees can be built that no text stands for: a loop with a `break`
in its header, a range clause with a value but no key. The parser makes none of them.
-/
namespace GoSift

/-- Whether a statement can stand in the header of another. -/
def Stmt.isSimple : Stmt → Bool
  | expr .. | send .. | incDec .. | assign .. => true
  | _ => false

/-- What holds of a node of a parsed tree, without regard to its parts. -/
def Node.Local : Node → Prop
  | .expr (.slice _ _ _ high max full) => full = max.isSome ∧ (max.isSome → high.isSome)
  | .stmt (.cond _ init _ _ _) => ∀ s ∈ init, s.isSimple
  | .stmt (.loop _ init _ post _) => (∀ s ∈ init, s.isSimple) ∧ ∀ s ∈ post, s.isSimple
  | .stmt (.range _ key value define _ _) => key.isNone → value.isNone ∧ define = false
  | _ => True

/-- Only simple statements stand in a header. -/
def Node.Headed : Node → Prop
  | .stmt (.cond _ init _ _ _) => ∀ s ∈ init, s.isSimple
  | .stmt (.loop _ init _ post _) => (∀ s ∈ init, s.isSimple) ∧ ∀ s ∈ post, s.isSimple
  | _ => True

/-- A range clause with a value or `:=` has a key. Other nodes are not restricted. -/
def Node.Keyed : Node → Prop
  | .stmt (.range _ key value define _ _) => key.isNone → value.isNone ∧ define = false
  | _ => True

/-- What holds of every node in a list. -/
def Node.Each (L : Node → Prop) (ns : List Node) : Prop :=
  ∀ n ∈ ns, L n

/-- A property that says something of expressions and statements only. -/
class Node.OnTrees (L : Node → Prop) : Prop where
  field : ∀ f, L (.field f)
  exprs : ∀ xs, L (.exprs xs)
  fields : ∀ fs, L (.fields fs)
  stmts : ∀ ss, L (.stmts ss)

section

variable (L : Node → Prop)

def Expr.Each (x : Expr) : Prop := Node.Each L x.visits

def Field.Each (f : Field) : Prop := Node.Each L f.visits

def Stmt.Each (s : Stmt) : Prop := Node.Each L s.visits

/-- The property holds in every part of a function. -/
def Func.Each (f : Func) : Prop := Node.Each L f.visits

/-- The property holds in the parts of an expression. -/
def Expr.PartsEach : Expr → Prop
  | ident .. | wildcard .. | lit .. => True
  | composite _ type elts => (∀ t ∈ type, t.Each L) ∧ ∀ x ∈ elts, x.Each L
  | funcLit _ params results body =>
    (∀ f ∈ params, f.Each L) ∧ (∀ f ∈ results, f.Each L) ∧ body.Each L
  | paren _ x | star _ x | unary _ _ x => x.Each L
  | selector _ x y | index _ x y | binary _ _ x y => x.Each L ∧ y.Each L
  | slice _ x low high max _ =>
    x.Each L ∧ (∀ y ∈ low, y.Each L) ∧ (∀ y ∈ high, y.Each L) ∧ ∀ y ∈ max, y.Each L
  | typeAssert _ x type => x.Each L ∧ ∀ t ∈ type, t.Each L
  | call _ fn args _ => fn.Each L ∧ ∀ x ∈ args, x.Each L
  | keyValue _ key value | mapType _ key value => key.Each L ∧ value.Each L
  | arrayType _ len elem => (∀ x ∈ len, x.Each L) ∧ elem.Each L
  | ellipsis _ elem => ∀ x ∈ elem, x.Each L
  | chanType _ _ value => value.Each L
  | funcType _ params results => (∀ f ∈ params, f.Each L) ∧ ∀ f ∈ results, f.Each L
  | structType _ fields | interfaceType _ fields => ∀ f ∈ fields, f.Each L

/-- The property holds in the parts of a statement. -/
def Stmt.PartsEach : Stmt → Prop
  | expr _ x | incDec _ x _ | go _ x | defer _ x => x.Each L
  | send _ chan value => chan.Each L ∧ value.Each L
  | assign _ lhs _ rhs => (∀ x ∈ lhs, x.Each L) ∧ ∀ x ∈ rhs, x.Each L
  | var _ names type values =>
    (∀ x ∈ names, x.Each L) ∧ (∀ t ∈ type, t.Each L) ∧ ∀ x ∈ values, x.Each L
  | ret _ results => ∀ x ∈ results, x.Each L
  | branch .. | empty _ => True
  | labeled _ _ stmt => stmt.Each L
  | block _ stmts => ∀ s ∈ stmts, s.Each L
  | cond _ init test body other =>
    (∀ s ∈ init, s.Each L) ∧ test.Each L ∧ body.Each L ∧ ∀ s ∈ other, s.Each L
  | switch _ init tag body => (∀ s ∈ init, s.Each L) ∧ (∀ x ∈ tag, x.Each L) ∧ body.Each L
  | typeSwitch _ init guard body => (∀ s ∈ init, s.Each L) ∧ guard.Each L ∧ body.Each L
  | clause _ list body => (∀ xs ∈ list, ∀ x ∈ xs, x.Each L) ∧ ∀ s ∈ body, s.Each L
  | loop _ init test post body =>
    (∀ s ∈ init, s.Each L) ∧ (∀ x ∈ test, x.Each L) ∧ (∀ s ∈ post, s.Each L) ∧ body.Each L
  | range _ key value _ x body =>
    (∀ y ∈ key, y.Each L) ∧ (∀ y ∈ value, y.Each L) ∧ x.Each L ∧ body.Each L

end

section

variable {L : Node → Prop}

namespace Node

@[simp] theorem each_nil : Each L [] := by
  simp [Each]

@[simp] theorem each_cons {n : Node} {ns : List Node} : Each L (n :: ns) ↔ L n ∧ Each L ns := by
  simp [Each]

@[simp] theorem each_append {ns ms : List Node} : Each L (ns ++ ms) ↔ Each L ns ∧ Each L ms := by
  simp only [Each, List.mem_append]
  grind

@[simp] theorem each_exprVisits {x : Expr} : Each L x.visits ↔ x.Each L := Iff.rfl

@[simp] theorem each_fieldVisits {f : Field} : Each L f.visits ↔ f.Each L := Iff.rfl

@[simp] theorem each_stmtVisits {s : Stmt} : Each L s.visits ↔ s.Each L := Iff.rfl

@[simp] theorem each_optVisits {x : Option Expr} :
    Each L (Expr.optVisits x) ↔ ∀ y ∈ x, y.Each L := by
  cases x <;> simp [Expr.optVisits]

@[simp] theorem each_eachVisits {xs : List Expr} :
    Each L (Expr.eachVisits xs) ↔ ∀ x ∈ xs, x.Each L := by
  induction xs with
  | nil => simp [Expr.eachVisits]
  | cons x xs ih => simp [Expr.eachVisits, ih]

@[simp] theorem each_fieldEachVisits {fs : List Field} :
    Each L (Field.eachVisits fs) ↔ ∀ f ∈ fs, f.Each L := by
  induction fs with
  | nil => simp [Field.eachVisits]
  | cons f fs ih => simp [Field.eachVisits, ih]

@[simp] theorem each_stmtOptVisits {s : Option Stmt} :
    Each L (Stmt.optVisits s) ↔ ∀ t ∈ s, t.Each L := by
  cases s <;> simp [Stmt.optVisits]

@[simp] theorem each_stmtEachVisits {ss : List Stmt} :
    Each L (Stmt.eachVisits ss) ↔ ∀ s ∈ ss, s.Each L := by
  induction ss with
  | nil => simp [Stmt.eachVisits]
  | cons s ss ih => simp [Stmt.eachVisits, ih]

variable [hL : OnTrees L]

theorem each_listVisits {xs : List Expr} : Each L (Expr.listVisits xs) ↔ ∀ x ∈ xs, x.Each L := by
  cases xs <;> simp [Expr.listVisits, hL.exprs]

theorem each_listOptVisits {xs : Option (List Expr)} :
    Each L (Expr.listOptVisits xs) ↔ ∀ ys ∈ xs, ∀ x ∈ ys, x.Each L := by
  cases xs <;> simp [Expr.listOptVisits, each_listVisits]

theorem each_fieldListVisits {fs : List Field} :
    Each L (Field.listVisits fs) ↔ ∀ f ∈ fs, f.Each L := by
  cases fs <;> simp [Field.listVisits, hL.fields]

theorem each_stmtListVisits {ss : List Stmt} :
    Each L (Stmt.listVisits ss) ↔ ∀ s ∈ ss, s.Each L := by
  cases ss <;> simp [Stmt.listVisits, hL.stmts]

end Node

open Node

variable [hL : OnTrees L]

theorem Expr.each_iff {x : Expr} : x.Each L ↔ L (.expr x) ∧ x.PartsEach L := by
  rw [Each, visits.eq_def, each_cons]
  cases x <;> simp [PartsEach, each_listVisits, each_fieldListVisits]

theorem Stmt.each_iff {s : Stmt} : s.Each L ↔ L (.stmt s) ∧ s.PartsEach L := by
  rw [Each, visits.eq_def, each_cons]
  cases s <;> simp [PartsEach, each_listVisits, each_listOptVisits, each_stmtListVisits]

theorem Field.each_iff {pos : Position} {names : List Expr} {type : Expr} :
    (Field.mk pos names type).Each L ↔ (∀ x ∈ names, x.Each L) ∧ type.Each L := by
  rw [Each, visits, each_cons]
  simp [hL.field]

theorem Func.each_iff {f : Func} :
    f.Each L ↔ (∀ r ∈ f.recv, r.Each L) ∧ (∀ p ∈ f.params, p.Each L) ∧
      (∀ p ∈ f.results, p.Each L) ∧ ∀ s ∈ f.body, s.Each L := by
  rw [Each, visits]
  cases f.recv <;> simp [each_fieldListVisits]

end

/-- A tree that starts at a place in `S`. -/
def Node.At (S : Position → Prop) : Node → Prop
  | .expr x => S x.pos
  | .stmt s => S s.pos
  | _ => True

instance Node.onTrees_at {S : Position → Prop} : OnTrees (At S) :=
  ⟨fun _ => trivial, fun _ => trivial, fun _ => trivial, fun _ => trivial⟩

theorem Node.at_true (n : Node) : n.At fun _ => True := by
  cases n <;> trivial

theorem Expr.Each.at {S : Position → Prop} {x : Expr} (h : x.Each (Node.At S)) : S x.pos :=
  (Expr.each_iff.mp h).1

namespace Node

instance onTrees_local : OnTrees Local :=
  ⟨fun _ => trivial, fun _ => trivial, fun _ => trivial, fun _ => trivial⟩

instance onTrees_keyed : OnTrees Keyed :=
  ⟨fun _ => trivial, fun _ => trivial, fun _ => trivial, fun _ => trivial⟩

instance onTrees_headed : OnTrees Headed :=
  ⟨fun _ => trivial, fun _ => trivial, fun _ => trivial, fun _ => trivial⟩

theorem Local.headed {n : Node} (h : n.Local) : n.Headed := by
  unfold Headed
  split
  · exact h
  · exact h
  · trivial

theorem Local.keyed {n : Node} (h : n.Local) : n.Keyed := by
  unfold Keyed
  split
  · exact h
  · trivial

end Node

def Expr.Regular (x : Expr) : Prop := x.Each Node.Local

def Field.Regular (f : Field) : Prop := f.Each Node.Local

def Stmt.Regular (s : Stmt) : Prop := s.Each Node.Local

def Node.Regular (n : Node) : Prop := Node.Each Node.Local n.visits

/-- Only simple statements stand in the headers of a function. -/
def Func.Headed (f : Func) : Prop := f.Each Node.Headed

instance : DecidablePred Node.Headed := fun n => by
  unfold Node.Headed
  split <;> infer_instance

instance (f : Func) : Decidable f.Headed :=
  inferInstanceAs (Decidable (∀ n ∈ f.visits, n.Headed))

theorem Node.Regular.keyed {n : Node} (h : n.Regular) : Node.Each Node.Keyed n.visits :=
  fun m hm => (h m hm).keyed

end GoSift
