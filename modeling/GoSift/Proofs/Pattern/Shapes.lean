import GoSift.Proofs.Pattern.Fits

/-!
What fits an operation: the parts of the node, where the operation says which of those that may be
missing it has arguments for.
-/
namespace GoSift

@[simp] theorem UnaryOp.code_inj {a b : UnaryOp} : a.code = b.code ↔ a = b := by
  cases a <;> cases b <;> decide

theorem BinaryOp.getElem?_code (a : BinaryOp) : BinaryOp.all[a.code]? = some a := by
  cases a <;> rfl

@[simp] theorem BinaryOp.code_inj {a b : BinaryOp} : a.code = b.code ↔ a = b := by
  refine ⟨fun h => ?_, fun h => h ▸ rfl⟩
  have ha := a.getElem?_code
  rw [h, b.getElem?_code] at ha
  exact (Option.some.inj ha).symm

@[simp] theorem Branch.code_inj {a b : Branch} : a.code = b.code ↔ a = b := by
  cases a <;> cases b <;> decide

@[simp] theorem ChanDir.code_inj {a b : ChanDir} : a.code = b.code ↔ a = b := by
  cases a <;> cases b <;> decide

@[simp] theorem AssignOp.code_inj {a b : AssignOp} : a.code = b.code ↔ a = b := by
  cases a <;> cases b <;> simp [AssignOp.code]

@[simp] theorem stepCode_inj {a b : Bool} : stepCode a = stepCode b ↔ a = b := by
  cases a <;> cases b <;> decide

@[simp] theorem defineCode_inj {a b : Bool} : defineCode a = defineCode b ↔ a = b := by
  cases a <;> cases b <;> decide

namespace Pattern

variable {r : Reading} {n : Node} {op : Op} {value : Nat} {text : String} {t : Term}
  {args ts : List Term} {part : Part} {parts : List Part}

/-- What the name of a wildcard asks of a node. -/
theorem Reading.stands_name_iff {name : String} :
    (∀ s ∈ (if name = "_" then none else some name : Option String), r.stands s n) ↔
      r.Wild name n := by
  unfold Reading.Wild
  split <;> simp [*]

@[simp] theorem fits_named {name : String} {slot : Slot} :
    (Term.named name slot).Fits r (.one n) ↔ r.Wild name n :=
  Reading.stands_name_iff

@[simp] theorem fits_named_absent {name : String} :
    (Term.named name .opt).Fits r (.absent n) ↔ r.Wild name n :=
  Reading.stands_name_iff

@[simp] theorem fits_exprs {xs : List Expr} :
    (Term.run ts).Fits r (.exprs xs) ↔ FitsRun r .exprs .expr (Term.fitsEach r ts) xs :=
  Iff.rfl

@[simp] theorem fits_stmts {ss : List Stmt} :
    (Term.run ts).Fits r (.stmts ss) ↔ FitsRun r .stmts .stmt (Term.fitsEach r ts) ss :=
  Iff.rfl

@[simp] theorem fits_fields {fs : List Field} :
    (Term.run ts).Fits r (.run (.fields fs)) ↔ FitsRun r .fields .field (Term.fitsEach r ts) fs :=
  Iff.rfl

@[simp] theorem fitsAll_nil : Term.FitsAll r [] parts ↔ parts = [] := Iff.rfl

@[simp] theorem fitsAll_cons :
    Term.FitsAll r (t :: ts) (part :: parts) ↔
      t.Fits r part ∧ Term.FitsAll r ts parts := by
  constructor
  · rintro ⟨_, _, ⟨⟩, ht, hts⟩
    exact ⟨ht, hts⟩
  · rintro ⟨ht, hts⟩
    exact ⟨part, parts, rfl, ht, hts⟩

theorem fitsAll_append {us : List Term} {qs : List Part} (h : ts.length = parts.length) :
    Term.FitsAll r (ts ++ us) (parts ++ qs) ↔
      Term.FitsAll r ts parts ∧ Term.FitsAll r us qs := by
  induction ts generalizing parts with
  | nil =>
    obtain rfl : parts = [] := by simpa using h.symm
    simp
  | cons t ts ih =>
    cases parts with
    | nil => cases h
    | cons part parts => simp [ih (Nat.succ.inj h), and_assoc]

theorem fits_shape (h : r.parts? op value text n = some parts) :
    (Term.shape op value text args).Fits r (.one n) ↔ Term.FitsAll r args parts := by
  constructor
  · rintro ⟨_, hparts, hargs⟩
    obtain rfl := Option.some.inj (h.symm.trans hparts)
    exact hargs
  · exact fun hargs => ⟨parts, h, hargs⟩

theorem fits_none {P : Prop} (h : r.parts? op value text n = none) (hP : ¬ P) :
    (Term.shape op value text args).Fits r (.one n) ↔ P := by
  refine iff_of_false ?_ hP
  rintro ⟨_, hparts, -⟩
  cases h.symm.trans hparts

theorem fits_shape_if {condition : Bool} (h : r.parts? op value text n = partsIf condition parts) :
    (Term.shape op value text args).Fits r (.one n) ↔
      condition ∧ Term.FitsAll r args parts := by
  cases condition with
  | true => simpa using fits_shape h
  | false => exact fits_none h (by simp)

theorem fits_unsuited {P : Prop} (h : op.suits n = false) (hP : ¬ P) :
    (Term.shape op value text args).Fits r (.one n) ↔ P := by
  refine iff_of_false ?_ hP
  rintro ⟨parts, hparts, -⟩
  rw [Reading.suits_of_parts? hparts] at h
  cases h

section

variable {α : Type} {list : List α → Node} {node : α → Node} {xs : List α}

theorem fitsRun_stretch {name : String} {P : List α → Prop}
    (htail : ∀ front back, xs = front ++ back →
      (FitsRun r list node (Term.fitsEach r ts) back ↔ P back)) :
    FitsRun r list node (Term.fitsEach r (.named name .seq :: ts)) xs ↔
      ∃ front back, xs = front ++ back ∧ r.Wild name (list front) ∧ P back := by
  refine exists_congr fun front => exists_congr fun back => and_congr_right fun h => ?_
  exact and_congr Reading.stands_name_iff (htail front back h)

theorem fitsRun_single {P : List α → Prop} {Q : α → Prop} (ht : ∀ name, t ≠ .wild .seq name)
    (hhead : ∀ y ∈ xs, t.Fits r (.one (node y)) ↔ Q y)
    (htail : ∀ y ys, xs = y :: ys →
      (FitsRun r list node (Term.fitsEach r ts) ys ↔ P ys)) :
    FitsRun r list node (Term.fitsEach r (t :: ts)) xs ↔
      ∃ y ys, xs = y :: ys ∧ Q y ∧ P ys := by
  have heach : Term.fitsEach r (t :: ts) =
      .single (fun n => t.Fits r (.one n)) :: Term.fitsEach r ts := by
    rw [Term.fitsEach]
    exact ht
  rw [heach, FitsRun]
  refine exists_congr fun y => exists_congr fun ys => and_congr_right fun h => ?_
  exact and_congr (hhead y (h ▸ .head _)) (htail y ys h)

end

/-! Parts that may be missing, as the operation announces them. -/

section

variable {pos : Position}

theorem Reading.parts?_composite (r : Reading) {typed : Bool} {type : Option Expr} {elts : List Expr} :
    r.parts? (.composite typed) value text (.expr (.composite pos type elts)) =
      partsIf (typed = type.isSome) (spelled typed (.exprSlot type) ++ [.exprs elts]) := by
  cases typed <;> cases type <;> rfl

theorem Reading.parts?_slice (r : Reading) {a b c full : Bool} {x : Expr} {low high max : Option Expr} :
    r.parts? (.slice a b c) value text (.expr (.slice pos x low high max full)) =
      partsIf (((a = low.isSome ∧ b = high.isSome) ∧ c = max.isSome) ∧ full = max.isSome)
        (.expr x :: (spelled a (.exprSlot low) ++ spelled b (.exprSlot high)
          ++ spelled c (.exprSlot max))) := by
  cases a <;> cases b <;> cases c <;> cases low <;> cases high <;> cases max <;> cases full <;> rfl

theorem Reading.parts?_typeAssert (r : Reading) {typed : Bool} {x : Expr} {type : Option Expr} :
    r.parts? (.typeAssert typed) value text (.expr (.typeAssert pos x type)) =
      partsIf (typed = type.isSome) (.expr x :: spelled typed (.exprSlot type)) := by
  cases typed <;> cases type <;> rfl

theorem Reading.parts?_arrayType (r : Reading) {sized : Bool} {len : Option Expr} {elem : Expr} :
    r.parts? (.arrayType sized) value text (.expr (.arrayType pos len elem)) =
      partsIf (sized = len.isSome) (spelled sized (.exprSlot len) ++ [.expr elem]) := by
  cases sized <;> cases len <;> rfl

theorem Reading.parts?_ellipsis (r : Reading) {typed : Bool} {elem : Option Expr} :
    r.parts? (.ellipsis typed) value text (.expr (.ellipsis pos elem)) =
      partsIf (typed = elem.isSome) (spelled typed (.exprSlot elem)) := by
  cases typed <;> cases elem <;> rfl

theorem Reading.parts?_var (r : Reading) {typed : Bool} {names values : List Expr} {type : Option Expr} :
    r.parts? (.var typed) value text (.stmt (.var pos names type values)) =
      partsIf (typed = type.isSome)
        (.exprs names :: (spelled typed (.exprSlot type) ++ [.exprs values])) := by
  cases typed <;> cases type <;> rfl

theorem Reading.parts?_cond (r : Reading) {a b : Bool} {init other : Option Stmt} {test : Expr} {body : Stmt} :
    r.parts? (.cond a b) value text (.stmt (.cond pos init test body other)) =
      partsIf ((a || init.isNone) && b = other.isSome)
        (spelled a (.stmtSlot init) ++ ([.expr test, .stmt body] ++ spelled b (.stmtSlot other))) := by
  cases a <;> cases b <;> cases init <;> cases other <;> rfl

theorem Reading.parts?_range (r : Reading) {a define : Bool} {key x : Expr} {v : Option Expr}
    {body : Stmt} :
    r.parts? (if a then .rangeKeyValue else .rangeKey) value text
        (.stmt (.range pos (some key) v define x body)) =
      partsIf (a = v.isSome && value = defineCode define)
        (.expr key :: (spelled a (.exprSlot v) ++ [.expr x, .stmt body])) := by
  cases a <;> cases v <;> rfl

end

@[simp] theorem fitsAll_exprOpt {x : Option Expr} {ps : List Part} :
    Term.FitsAll r (Expr.termOpt x ++ ts) (spelled x.isSome part ++ ps) ↔
      Term.FitsAll r (Expr.termOpt x) (spelled x.isSome part) ∧
        Term.FitsAll r ts ps :=
  fitsAll_append (by cases x <;> rfl)

@[simp] theorem fitsAll_exprSlot {x : Option Expr} {ps : List Part} :
    Term.FitsAll r (Expr.termSlot x ++ ts) (spelled x.isSome part ++ ps) ↔
      Term.FitsAll r (Expr.termSlot x) (spelled x.isSome part) ∧
        Term.FitsAll r ts ps := by
  refine fitsAll_append ?_
  have h := congrArg List.length (Expr.kinds_termSlot x)
  rw [List.length_map] at h
  cases x <;> exact h

@[simp] theorem fitsAll_stmtSlot {s : Option Stmt} {ps : List Part} :
    Term.FitsAll r (Stmt.termSlot s ++ ts) (spelled s.isSome part ++ ps) ↔
      Term.FitsAll r (Stmt.termSlot s) (spelled s.isSome part) ∧
        Term.FitsAll r ts ps := by
  refine fitsAll_append ?_
  have h := congrArg List.length (Stmt.kinds_termSlot s)
  rw [List.length_map] at h
  cases s <;> exact h

/-- When a call pattern allows for a final `...` or its absence. -/
theorem callSpread_iff {args : List Expr} {spread spread' : Bool} :
    (callSpread args spread = none ∨ callSpread args spread = some spread') ↔
      (spread = spread' ∨ spread = false ∧ (args.getLast?.bind runName?).isSome) := by
  unfold callSpread
  cases spread with
  | true => simp
  | false => cases (args.getLast?.bind runName?).isSome <;> simp

theorem exists_singleton_iff {α : Type} {x : α} {xs : List α} {P : α → Prop} :
    (∃ y, x :: xs = [y] ∧ P y) ↔ xs = [] ∧ P x := by
  constructor
  · rintro ⟨_, ⟨⟩, h⟩
    exact ⟨rfl, h⟩
  · rintro ⟨rfl, h⟩
    exact ⟨x, rfl, h⟩

theorem fitsRun_terms_singleton {p : Expr} {xs : List Expr} (h : runName? p = none) :
    FitsRun r .exprs .expr (Term.fitsEach r (Expr.terms [p])) xs ↔
      ∃ x, xs = [x] ∧ p.term.Fits r (.expr x) := by
  rw [Expr.terms, h]
  refine (fitsRun_single p.term_ne_seq (fun _ _ => Iff.rfl) fun _ _ _ => Iff.rfl).trans ?_
  simp [Expr.terms, Term.fitsEach, FitsRun, Part.expr]

/-- An assignment of one expression to one fits like one of lists with one element. -/
theorem fits_assign {lhs rhs lhs' rhs' : List Expr} {o o' : AssignOp} {pos : Position}
    (h : isSingleAssign lhs rhs) :
    (Term.coded .assign o.code (Expr.termEach lhs ++ Expr.termEach rhs)).Fits r
        (.one (.stmt (.assign pos lhs' o' rhs'))) ↔
      FitsRun r .exprs .expr (Term.fitsEach r (Expr.terms lhs)) lhs' ∧ o = o' ∧
        FitsRun r .exprs .expr (Term.fitsEach r (Expr.terms rhs)) rhs' := by
  unfold isSingleAssign at h
  split at h
  · next p q =>
    simp only [Bool.and_eq_true, Option.isNone_iff_eq_none] at h
    rw [fitsRun_terms_singleton h.1, fitsRun_terms_singleton h.2]
    constructor
    · rintro ⟨parts, hparts, hargs⟩
      simp only [Reading.parts?, parts?, stmtParts?] at hparts
      split at hparts
      · next x y _ =>
        obtain ⟨ho, rfl⟩ := partsIf_eq_some.1 hparts
        simp only [Expr.termEach, List.cons_append, List.nil_append, fitsAll_cons] at hargs
        exact ⟨⟨x, rfl, hargs.1⟩, by simpa using ho, y, rfl, hargs.2.1⟩
      · next hop => cases hop
      · cases hparts
    · rintro ⟨⟨x, rfl, hx⟩, rfl, y, rfl, hy⟩
      exact (fits_shape_if rfl).2 (by simp [Expr.termEach, hx, hy])
  · cases h

@[simp] theorem fits_fieldList {fs : List Field} :
    (Term.fieldList ts).Fits r (.fields fs) ↔
      FitsRun r .fields .field (Term.fitsEach r ts) fs := by
  exact (fits_shape rfl).trans (by simp)

theorem fits_signature (pos : Position) {params params' results results' : List Field}
    (hparams : FitsRun r .fields .field (Term.fitsEach r (Field.terms params)) params' ↔
      Field.CoversList r params params')
    (hresults : FitsRun r .fields .field (Term.fitsEach r (Field.terms results)) results' ↔
      Field.CoversList r results results') :
    (Term.signature results (Field.terms params) (Field.terms results)).Fits r
        (.expr (.funcType pos params' results')) ↔
      Field.CoversList r params params' ∧ Field.CoversList r results results' ∧
        r.Filled results results' := by
  cases results with
  | nil =>
    cases results' with
    | nil =>
      refine (fits_shape rfl).trans ?_
      simp [hparams, Field.CoversList, Reading.Filled]
    | cons => exact fits_none rfl (by simp [Field.CoversList])
  | cons p ps =>
    cases results' with
    | nil =>
      cases hr : r.strict with
      | true => exact fits_none (if_pos hr) (by simp [Reading.Filled, hr])
      | false =>
        have hparts : r.parts? (.funcType true) 0 "" (.expr (.funcType pos params' [])) =
            some [.fields params', .fields []] := if_neg (by simp [hr])
        refine (fits_shape hparts).trans ?_
        simp [hparams, hresults, Reading.Filled, hr]
    | cons =>
      refine (fits_shape rfl).trans ?_
      simp [hparams, hresults, Reading.Filled]

end Pattern

open Pattern

variable {r : Reading}

theorem Expr.covers_of_identName? {p x : Expr} {name : String} (h : p.identName? = some name) :
    p.Covers r x ↔ x.identName? = some name := by
  cases p with
  | ident => cases x <;> simp_all [Expr.Covers, Expr.identName?, eq_comm]
  | _ => cases h

theorem Expr.coversOpt_some {p x : Expr} : Expr.CoversOpt r (some p) (some x) ↔ p.Covers r x := by
  simp [Expr.CoversOpt]

/-- Only a wildcard for a run stands for a part that is absent. -/
theorem Expr.not_fits_absent (p : Expr) {n : Node} : ¬ p.term.Fits r (.absent n) := by
  cases p with
  | selector _ p sel =>
    rw [Expr.term]
    split <;> rintro ⟨⟩
  | funcType _ params results =>
    rw [Expr.term, Term.signature]
    split <;> rintro ⟨⟩
  | _ => rintro ⟨⟩

theorem Stmt.not_fits_absent (p : Stmt) {n : Node} : ¬ p.term.Fits r (.absent n) := by
  cases p with
  | expr _ p =>
    rw [Stmt.term]
    split <;> rintro ⟨⟩
  | assign _ lhs op rhs =>
    rw [Stmt.term]
    split <;> rintro ⟨⟩
  | branch _ kind label => cases label <;> rintro ⟨⟩
  | range _ key => cases key <;> rintro ⟨⟩
  | _ => rintro ⟨⟩

theorem Field.term_of_fieldRunName? {p : Field} {name : String} (h : fieldRunName? p = some name) :
    p.term = .named name .seq := by
  obtain ⟨_, names, type⟩ := p
  cases names with
  | nil =>
    cases type with
    | wildcard _ _ any =>
      cases any with
      | true =>
        cases h
        rfl
      | false => cases h
    | _ => cases h
  | cons => cases h

theorem Field.term_ne_seq {p : Field} (h : fieldRunName? p = none) (name : Option String) :
    p.term ≠ .wild .seq name := by
  obtain ⟨_, names, type⟩ := p
  cases names with
  | nil =>
    cases type with
    | wildcard _ _ any =>
      cases any with
      | true => cases h
      | false => rintro ⟨⟩
    | _ => rintro ⟨⟩
  | cons p ps =>
    cases ps with
    | nil =>
      rw [Field.term]
      split <;> rintro ⟨⟩
    | cons => rintro ⟨⟩

end GoSift
