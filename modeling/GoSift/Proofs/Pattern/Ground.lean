import GoSift.Proofs.Pattern.Instance

/-!
A pattern without wildcards has only its own tree as an instance, places apart.
-/
namespace GoSift

open Pattern

/-- Whether a node is a wildcard. -/
def Node.isWildcard : Node → Bool
  | .expr (.wildcard ..) => true
  | _ => false

/-- Whether there is no wildcard among nodes. -/
def Node.Ground (ns : List Node) : Prop :=
  ∀ n ∈ ns, n.isWildcard = false

namespace Node

theorem Ground.rest {n : Node} {ns : List Node} (h : Ground (n :: ns)) : Ground ns :=
  fun m hm => h m (.tail _ hm)

theorem Ground.split {ns ms : List Node} (h : Ground (ns ++ ms)) : Ground ns ∧ Ground ms :=
  ⟨fun n hn => h n (List.mem_append_left _ hn), fun n hn => h n (List.mem_append_right _ hn)⟩

theorem Ground.exprs {xs : List Expr} (h : Ground (Expr.listVisits xs)) :
    Ground (Expr.eachVisits xs) := by
  cases xs with
  | nil => exact h
  | cons => exact h.rest

theorem Ground.fields {fs : List Field} (h : Ground (Field.listVisits fs)) :
    Ground (Field.eachVisits fs) := by
  cases fs with
  | nil => exact h
  | cons => exact h.rest

theorem Ground.stmts {ss : List Stmt} (h : Ground (Stmt.listVisits ss)) :
    Ground (Stmt.eachVisits ss) := by
  cases ss with
  | nil => exact h
  | cons => exact h.rest

theorem Ground.wildcard?_eq_none {x : Expr} (h : Ground x.visits) : x.wildcard? = none := by
  cases x with
  | wildcard => exact nomatch h _ (.head _)
  | _ => rfl

theorem Ground.runName?_eq_none {x : Expr} (h : Ground x.visits) : runName? x = none := by
  cases x with
  | wildcard => exact nomatch h _ (.head _)
  | _ => rfl

theorem Ground.stmtWildcard?_eq_none {s : Stmt} (h : Ground s.visits) : s.wildcard? = none := by
  cases s with
  | expr _ x => exact h.rest.wildcard?_eq_none
  | _ => rfl

theorem Ground.stmtRunName?_eq_none {s : Stmt} (h : Ground s.visits) : stmtRunName? s = none := by
  cases s with
  | expr _ x => exact h.rest.runName?_eq_none
  | _ => rfl

theorem Ground.fieldRunName?_eq_none {f : Field} (h : Ground f.visits) :
    fieldRunName? f = none := by
  obtain ⟨_, names, type⟩ := f
  cases names with
  | nil => exact h.rest.split.2.runName?_eq_none
  | cons => rfl

theorem Ground.getLast?_runName? {xs : List Expr} (h : Ground (Expr.eachVisits xs)) :
    xs.getLast?.bind runName? = none := by
  induction xs with
  | nil => rfl
  | cons x xs ih =>
    cases xs with
    | nil => exact h.split.1.runName?_eq_none
    | cons y ys => rw [List.getLast?_cons_cons]; exact ih h.split.2

end Node

open Node

/-- Lists of the same fields are both empty or neither. -/
theorem Pattern.Reading.filled_of_same (r : Reading) {fs gs : List Field}
    (h : Field.sameList fs gs) : r.Filled fs gs := by
  rintro - hne rfl
  cases fs with
  | nil => exact hne rfl
  | cons => cases h

variable (r : Reading)

theorem Field.covers_unnamed {pos pos' : Position} {names : List Expr} {p x : Expr}
    (hp : p.wildcard? = none) :
    Field.Covers r (.mk pos [] p) (.mk pos' names x) ↔ names = [] ∧ p.Covers r x := by
  rw [Field.Covers.eq_def]
  dsimp only
  rw [hp]

theorem Field.covers_single {pos pos' : Position} {name : Expr} {names : List Expr} {p x : Expr} :
    Field.Covers r (.mk pos [name] p) (.mk pos' names x)
      ↔ (∃ y, names = [y] ∧ name.Covers r y) ∧ p.Covers r x :=
  Iff.rfl

theorem Field.covers_several {pos pos' : Position} {y z : Expr} {ys names : List Expr}
    {p x : Expr} : Field.Covers r (.mk pos (y :: z :: ys) p) (.mk pos' names x)
      ↔ Expr.CoversList r (y :: z :: ys) names ∧ r.Filled (y :: z :: ys) names ∧ p.Covers r x :=
  Iff.rfl

attribute [local simp] Expr.same Expr.Covers Expr.sameOpt Expr.CoversOpt Expr.CoversSlot
  Expr.sameList Expr.CoversList Expr.sameListOpt Expr.CoversListOpt Field.same Field.sameList
  Field.CoversList Stmt.same Stmt.Covers Stmt.sameOpt Stmt.CoversOpt Stmt.CoversSlot Stmt.sameList
  Stmt.CoversList

mutual

theorem Expr.covers_iff_same (p x : Expr) (h : Ground p.visits) : p.Covers r x ↔ p.same x := by
  cases p with
  | wildcard => exact nomatch h _ (.head _)
  | ident | lit => cases x <;> simp
  | composite _ type elts =>
    have htype := fun x => Expr.coversOpt_iff_same type x h.rest.split.1
    have helts := fun xs => Expr.coversList_iff_same elts xs h.rest.split.2.exprs
    cases x <;> simp [htype, helts]
  | funcLit _ params results body =>
    have hparams := fun fs => Field.coversList_iff_same params fs h.rest.split.1.split.1.fields
    have hresults := fun fs => Field.coversList_iff_same results fs h.rest.split.1.split.2.fields
    have hbody := fun s => body.covers_iff_same s h.rest.split.2
    cases x <;> simp +contextual [hparams, hresults, r.filled_of_same, hbody,
      and_assoc]
  | paren _ y | star _ y | unary _ _ y | chanType _ _ y =>
    have hy := fun x => y.covers_iff_same x h.rest
    cases x <;> simp [hy]
  | selector _ y z | index _ y z | binary _ _ y z | keyValue _ y z | mapType _ y z =>
    have hy := fun x => y.covers_iff_same x h.rest.split.1
    have hz := fun x => z.covers_iff_same x h.rest.split.2
    cases x <;> simp [hy, hz, and_assoc]
  | slice _ y low high max =>
    have hy := fun x => y.covers_iff_same x h.rest.split.1.split.1.split.1
    have hlow := fun x => Expr.coversOpt_iff_same low x h.rest.split.1.split.1.split.2
    have hhigh := fun x => Expr.coversOpt_iff_same high x h.rest.split.1.split.2
    have hmax := fun x => Expr.coversOpt_iff_same max x h.rest.split.2
    cases x <;> simp [hy, hlow, hhigh, hmax, and_assoc]
  | typeAssert _ y type =>
    have hy := fun x => y.covers_iff_same x h.rest.split.1
    have htype := fun x => Expr.coversOpt_iff_same type x h.rest.split.2
    cases x <;> simp [hy, htype]
  | call _ fn args =>
    have hfn := fun x => fn.covers_iff_same x h.rest.split.1
    have hargs := fun xs => Expr.coversList_iff_same args xs h.rest.split.2.exprs
    have hlast := h.rest.split.2.exprs.getLast?_runName?
    cases x <;> simp [hfn, hargs, hlast, and_assoc]
  | arrayType _ len elem =>
    have hlen := fun x => Expr.coversOpt_iff_same len x h.rest.split.1
    have helem := fun x => elem.covers_iff_same x h.rest.split.2
    cases x <;> simp [hlen, helem]
  | ellipsis _ elem =>
    have helem := fun x => Expr.coversOpt_iff_same elem x h.rest
    cases x <;> simp [helem]
  | funcType _ params results =>
    have hparams := fun fs => Field.coversList_iff_same params fs h.rest.split.1.fields
    have hresults := fun fs => Field.coversList_iff_same results fs h.rest.split.2.fields
    cases x <;> simp +contextual [hparams, hresults, r.filled_of_same]
  | structType _ fields | interfaceType _ fields =>
    have hfields := fun fs => Field.coversList_iff_same fields fs h.rest.fields
    cases x <;> simp [hfields]
termination_by structural p

theorem Expr.coversOpt_iff_same (p x : Option Expr) (h : Ground (Expr.optVisits p)) :
    Expr.CoversOpt r p x ↔ Expr.sameOpt p x := by
  cases p with
  | none => cases x <;> simp
  | some p =>
    have hp := fun x => p.covers_iff_same x h
    cases x <;> simp [hp]
termination_by structural p

theorem Expr.coversSlot_iff_same (p x : Option Expr) (h : Ground (Expr.optVisits p)) :
    Expr.CoversSlot r p x ↔ Expr.sameOpt p x := by
  cases p with
  | none => cases x <;> simp
  | some p =>
    have hp := fun x => p.covers_iff_same x h
    cases x <;> simp [Ground.runName?_eq_none h, hp]
termination_by structural p

theorem Expr.coversList_iff_same (ps xs : List Expr) (h : Ground (Expr.eachVisits ps)) :
    Expr.CoversList r ps xs ↔ Expr.sameList ps xs := by
  cases ps with
  | nil => cases xs <;> simp
  | cons p ps =>
    have hp := fun x => p.covers_iff_same x h.split.1
    have hps := fun xs => Expr.coversList_iff_same ps xs h.split.2
    cases xs <;> simp [h.split.1.runName?_eq_none, hp, hps, and_assoc]
termination_by structural ps

theorem Expr.coversListOpt_iff_same (ps xs : Option (List Expr))
    (h : Ground (Expr.listOptVisits ps)) : Expr.CoversListOpt r ps xs ↔ Expr.sameListOpt ps xs := by
  cases ps with
  | none => cases xs <;> simp
  | some ps =>
    have hps := fun xs => Expr.coversList_iff_same ps xs (Ground.exprs h)
    cases xs <;> simp [hps]
termination_by structural ps

theorem Field.covers_iff_same (p f : Field) (h : Ground p.visits) : p.Covers r f ↔ p.same f := by
  obtain ⟨_, names, type⟩ := p
  obtain ⟨_, names', type'⟩ := f
  have hnames := fun xs => Expr.coversList_iff_same names xs h.rest.split.1
  have htype := fun x => type.covers_iff_same x h.rest.split.2
  match names with
  | [] =>
    rw [Field.covers_unnamed r h.rest.split.2.wildcard?_eq_none, htype]
    cases names' <;> simp
  | [name] =>
    have hname := fun x => name.covers_iff_same x h.rest.split.1.split.1
    rw [Field.covers_single, htype]
    cases names' with
    | nil => simp
    | cons x xs => cases xs <;> simp [hname]
  | x :: y :: names =>
    rw [Field.covers_several, hnames, htype]
    cases names' <;> simp [Reading.Filled]
termination_by structural p

theorem Field.coversList_iff_same (ps fs : List Field) (h : Ground (Field.eachVisits ps)) :
    Field.CoversList r ps fs ↔ Field.sameList ps fs := by
  cases ps with
  | nil => cases fs <;> simp
  | cons p ps =>
    have hp := fun f => p.covers_iff_same f h.split.1
    have hps := fun fs => Field.coversList_iff_same ps fs h.split.2
    cases fs <;> simp [h.split.1.fieldRunName?_eq_none, hp, hps, and_assoc]
termination_by structural ps

theorem Stmt.covers_iff_same (p s : Stmt) (h : Ground p.visits) : p.Covers r s ↔ p.same s := by
  cases p with
  | expr _ x =>
    have hx := fun y => x.covers_iff_same y h.rest
    cases s <;> simp [h.rest.wildcard?_eq_none, hx]
  | incDec _ x | go _ x | defer _ x =>
    have hx := fun y => x.covers_iff_same y h.rest
    cases s <;> simp [hx]
  | send _ x y =>
    have hx := fun z => x.covers_iff_same z h.rest.split.1
    have hy := fun z => y.covers_iff_same z h.rest.split.2
    cases s <;> simp [hx, hy]
  | assign _ lhs op rhs =>
    have hlhs := fun xs => Expr.coversList_iff_same lhs xs h.rest.split.1.exprs
    have hrhs := fun xs => Expr.coversList_iff_same rhs xs h.rest.split.2.exprs
    cases s <;> simp [hlhs, hrhs, and_assoc]
  | var _ names type values =>
    have hnames := fun xs => Expr.coversList_iff_same names xs h.rest.split.1.split.1.exprs
    have htype := fun x => Expr.coversOpt_iff_same type x h.rest.split.1.split.2
    have hvalues := fun xs => Expr.coversList_iff_same values xs h.rest.split.2.exprs
    cases s <;> simp [hnames, htype, hvalues, and_assoc]
  | ret _ results =>
    have hresults := fun xs => Expr.coversList_iff_same results xs h.rest.exprs
    cases s <;> simp [hresults]
  | branch | empty => cases s <;> simp
  | labeled _ _ body =>
    have hbody := fun t => body.covers_iff_same t h.rest
    cases s <;> simp [hbody]
  | block _ ss =>
    have hss := fun ts => Stmt.coversList_iff_same ss ts h.rest.stmts
    cases s <;> simp [hss]
  | cond _ init test body other =>
    have hinit := fun t => Stmt.coversSlot_iff_same init t h.rest.split.1.split.1.split.1
    have htest := fun x => test.covers_iff_same x h.rest.split.1.split.1.split.2
    have hbody := fun t => body.covers_iff_same t h.rest.split.1.split.2
    have hother := fun t => Stmt.coversOpt_iff_same other t h.rest.split.2
    cases s <;> simp [hinit, htest, hbody, hother, and_assoc]
  | switch _ init tag body =>
    have hinit := fun t => Stmt.coversSlot_iff_same init t h.rest.split.1.split.1
    have htag := fun x => Expr.coversSlot_iff_same tag x h.rest.split.1.split.2
    have hbody := fun t => body.covers_iff_same t h.rest.split.2
    cases s <;> simp [hinit, htag, hbody, and_assoc]
  | typeSwitch _ init guard body =>
    have hinit := fun t => Stmt.coversSlot_iff_same init t h.rest.split.1.split.1
    have hguard := fun t => guard.covers_iff_same t h.rest.split.1.split.2
    have hbody := fun t => body.covers_iff_same t h.rest.split.2
    cases s <;> simp [hinit, hguard, hbody, and_assoc]
  | clause _ list body =>
    have hlist := fun xs => Expr.coversListOpt_iff_same list xs h.rest.split.1
    have hbody := fun ts => Stmt.coversList_iff_same body ts h.rest.split.2.stmts
    cases s <;> simp [hlist, hbody]
  | loop _ init test post body =>
    have hinit := fun t => Stmt.coversSlot_iff_same init t h.rest.split.1.split.1.split.1
    have htest := fun x => Expr.coversSlot_iff_same test x h.rest.split.1.split.1.split.2
    have hpost := fun t => Stmt.coversSlot_iff_same post t h.rest.split.1.split.2
    have hbody := fun t => body.covers_iff_same t h.rest.split.2
    cases s <;> simp [hinit, htest, hpost, hbody, and_assoc]
  | range _ key value define x body =>
    have hkey := fun x => Expr.coversOpt_iff_same key x h.rest.split.1.split.1.split.1
    have hvalue := fun x => Expr.coversOpt_iff_same value x h.rest.split.1.split.1.split.2
    have hx := fun y => x.covers_iff_same y h.rest.split.1.split.2
    have hbody := fun t => body.covers_iff_same t h.rest.split.2
    cases s <;> simp [hkey, hvalue, hx, hbody, and_assoc]
termination_by structural p

theorem Stmt.coversOpt_iff_same (p s : Option Stmt) (h : Ground (Stmt.optVisits p)) :
    Stmt.CoversOpt r p s ↔ Stmt.sameOpt p s := by
  cases p with
  | none => cases s <;> simp
  | some p =>
    have hp := fun t => p.covers_iff_same t h
    cases s <;> simp [hp]
termination_by structural p

theorem Stmt.coversSlot_iff_same (p s : Option Stmt) (h : Ground (Stmt.optVisits p)) :
    Stmt.CoversSlot r p s ↔ Stmt.sameOpt p s := by
  cases p with
  | none => cases s <;> simp
  | some p =>
    have hp := fun t => p.covers_iff_same t h
    cases s <;> simp [Ground.stmtRunName?_eq_none h, hp]
termination_by structural p

theorem Stmt.coversList_iff_same (ps ss : List Stmt) (h : Ground (Stmt.eachVisits ps)) :
    Stmt.CoversList r ps ss ↔ Stmt.sameList ps ss := by
  cases ps with
  | nil => cases ss <;> simp
  | cons p ps =>
    have hp := fun s => p.covers_iff_same s h.split.1
    have hps := fun ss => Stmt.coversList_iff_same ps ss h.split.2
    cases ss <;> simp [h.split.1.stmtRunName?_eq_none, hp, hps, and_assoc]
termination_by structural ps

end

end GoSift
