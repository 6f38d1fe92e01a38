import GoSift.Pattern.Part

/-!
An operation takes nodes of one sort apart, into as many parts as it has arguments.
-/
namespace GoSift.Pattern

@[simp] theorem Op.given_true : Op.args.given true = [.one] := rfl

@[simp] theorem Op.given_false : Op.args.given false = [] := rfl

namespace Part

/-- How a part stands among the parts of a node. -/
def kind : Part → Arg
  | run _ => .run
  | one _ | absent _ => .one

@[simp, grind =] theorem kind_expr (x : Expr) : (expr x).kind = .one := rfl

@[simp, grind =] theorem kind_stmt (s : Stmt) : (stmt s).kind = .one := rfl

@[simp, grind =] theorem kind_fields (fs : List Field) : (fields fs).kind = .one := rfl

@[simp, grind =] theorem kind_exprs (xs : List Expr) : (exprs xs).kind = .run := rfl

@[simp, grind =] theorem kind_stmts (ss : List Stmt) : (stmts ss).kind = .run := rfl

@[simp, grind =] theorem kind_exprSlot (x : Option Expr) : (exprSlot x).kind = .one := by
  cases x <;> rfl

@[simp, grind =] theorem kind_stmtSlot (s : Option Stmt) : (stmtSlot s).kind = .one := by
  cases s <;> rfl

end Part

@[simp] theorem partsIf_eq_some {condition : Bool} {ps qs : List Part} :
    partsIf condition ps = some qs ↔ condition ∧ ps = qs := by
  cases condition <;> simp [partsIf]

@[simp] theorem kinds_spelled (present : Bool) (part : Part) :
    (spelled present part).map Part.kind = if present then [part.kind] else [] := by
  cases present <;> rfl

section

variable {op : Op} {value : Nat} {text : String} {parts : List Part}

theorem exprParts?_kinds {x : Expr} (h : exprParts? op value text x = some parts) :
    parts.map Part.kind = op.args := by
  cases x with
  | slice _ x low high max full =>
    obtain ⟨hop, rfl⟩ := partsIf_eq_some.1 h
    obtain ⟨rfl, -⟩ : op = _ ∧ _ := by simpa using hop
    cases low <;> cases high <;> cases max <;> rfl
  | _ =>
    unfold exprParts? at h
    grind [partsIf_eq_some, Op.args, Op.given_true, Op.given_false]

theorem fieldParts?_kinds {f : Field} (h : fieldParts? op text f = some parts) :
    parts.map Part.kind = op.args := by
  unfold fieldParts? at h
  grind [partsIf_eq_some, Op.args]

theorem stmtParts?_kinds {s : Stmt} (h : stmtParts? op value text s = some parts) :
    parts.map Part.kind = op.args := by
  cases s with
  | cond _ init test body other =>
    simp only [stmtParts?] at h
    split at h
    · next wantInit wantOther =>
      obtain ⟨hop, rfl⟩ := partsIf_eq_some.1 h
      obtain ⟨-, rfl⟩ : _ ∧ wantOther = _ := by simpa using hop
      cases wantInit <;> cases other <;> simp [Op.args]
    · cases h
  | var _ names type values =>
    cases type <;>
      (obtain ⟨hop, rfl⟩ := partsIf_eq_some.1 h
       obtain rfl := of_decide_eq_true hop
       rfl)
  | range _ key value define x body =>
    cases key <;> cases value <;>
      (obtain ⟨hop, rfl⟩ := partsIf_eq_some.1 h
       simp only [Bool.and_eq_true, decide_eq_true_eq] at hop
       simp [hop, Op.args])
  | _ =>
    unfold stmtParts? at h
    grind [partsIf_eq_some, Op.args, Op.given_true, Op.given_false, spelled]

/-- A node is taken into one part for each argument of the operation. -/
theorem parts?_kinds {n : Node} (h : parts? op value text n = some parts) :
    parts.map Part.kind = op.args := by
  cases n with
  | expr x => exact exprParts?_kinds h
  | stmt s => exact stmtParts?_kinds h
  | field f => exact fieldParts?_kinds h
  | fields fs =>
    obtain ⟨hop, rfl⟩ := partsIf_eq_some.1 h
    obtain rfl := of_decide_eq_true hop
    rfl
  | exprs | stmts => cases h

/-- Whether a node is of the form that an operation takes apart. -/
def Op.suits : Op → Node → Bool
  | .ident, .expr (.ident ..) | .lit _, .expr (.lit ..) | .composite _, .expr (.composite ..)
  | .funcLit, .expr (.funcLit ..) | .paren, .expr (.paren ..)
  | .fixedSelector, .expr (.selector ..) | .selector, .expr (.selector ..)
  | .index, .expr (.index ..) | .slice .., .expr (.slice ..)
  | .typeAssert _, .expr (.typeAssert ..) | .call _, .expr (.call ..) | .star, .expr (.star ..)
  | .unary, .expr (.unary ..) | .binary, .expr (.binary ..) | .keyValue, .expr (.keyValue ..)
  | .arrayType _, .expr (.arrayType ..) | .ellipsis _, .expr (.ellipsis ..)
  | .mapType, .expr (.mapType ..) | .chanType, .expr (.chanType ..)
  | .funcType _, .expr (.funcType ..) | .structType, .expr (.structType ..)
  | .interfaceType, .expr (.interfaceType ..) => true
  | .exprStmt, .stmt (.expr ..) | .send, .stmt (.send ..) | .incDec, .stmt (.incDec ..)
  | .assign, .stmt (.assign ..) | .multiAssign, .stmt (.assign ..) | .var _, .stmt (.var ..)
  | .go, .stmt (.go ..) | .defer, .stmt (.defer ..) | .ret, .stmt (.ret ..)
  | .branch _, .stmt (.branch ..) | .labeled, .stmt (.labeled ..) | .block, .stmt (.block ..)
  | .cond .., .stmt (.cond ..) | .switch .., .stmt (.switch ..)
  | .typeSwitch _, .stmt (.typeSwitch ..) | .clause, .stmt (.clause ..)
  | .defaultClause, .stmt (.clause ..) | .loop .., .stmt (.loop ..)
  | .rangeAll, .stmt (.range ..) | .rangeKey, .stmt (.range ..)
  | .rangeKeyValue, .stmt (.range ..) | .empty, .stmt (.empty ..) => true
  | .unnamedField, .field _ | .fixedField, .field _ | .field, .field _ | .multiField, .field _ => true
  | .fieldList, .fields _ => true
  | _, _ => false

theorem suits_of_exprParts? {x : Expr} (h : exprParts? op value text x = some parts) :
    op.suits (.expr x) := by
  cases x with
  | wildcard => cases h
  | selector =>
    cases op with
    | fixedSelector | selector => rfl
    | _ => cases h
  | call _ fn args spread =>
    obtain ⟨hop, -⟩ := partsIf_eq_some.1 h
    simp only [Bool.or_eq_true, decide_eq_true_eq] at hop
    rcases hop with rfl | rfl <;> rfl
  | composite _ part | typeAssert _ _ part | arrayType _ part | ellipsis _ part
  | funcType _ _ part =>
    cases part <;>
      (obtain ⟨hop, -⟩ := partsIf_eq_some.1 h
       obtain rfl := of_decide_eq_true hop
       rfl)
  | _ =>
    obtain ⟨hop, -⟩ := partsIf_eq_some.1 h
    simp only [Bool.and_eq_true, decide_eq_true_eq] at hop
    simp only [hop]
    rfl

theorem suits_of_fieldParts? {f : Field} (h : fieldParts? op text f = some parts) :
    op.suits (.field f) := by
  obtain ⟨_, names, _⟩ := f
  cases names with
  | nil =>
    obtain ⟨hop, -⟩ := partsIf_eq_some.1 h
    obtain rfl := of_decide_eq_true hop
    rfl
  | cons =>
    cases op with
    | fixedField | field | multiField => rfl
    | _ => cases h

theorem suits_of_stmtParts? {s : Stmt} (h : stmtParts? op value text s = some parts) :
    op.suits (.stmt s) := by
  cases s with
  | assign =>
    cases op with
    | assign | multiAssign => rfl
    | _ => cases h
  | cond =>
    cases op with
    | cond => rfl
    | _ => cases h
  | switch =>
    cases op with
    | switch => rfl
    | _ => cases h
  | typeSwitch =>
    cases op with
    | typeSwitch => rfl
    | _ => cases h
  | loop =>
    cases op with
    | loop => rfl
    | _ => cases h
  | var _ _ part | branch _ _ part | clause _ part =>
    cases part <;>
      (obtain ⟨hop, -⟩ := partsIf_eq_some.1 h
       simp only [Bool.and_eq_true, decide_eq_true_eq] at hop
       simp only [hop]
       rfl)
  | range _ key v =>
    cases key <;> cases v <;>
      (obtain ⟨hop, -⟩ := partsIf_eq_some.1 h
       simp only [Bool.and_eq_true, decide_eq_true_eq] at hop
       simp only [hop]
       rfl)
  | _ =>
    obtain ⟨hop, -⟩ := partsIf_eq_some.1 h
    simp only [Bool.and_eq_true, decide_eq_true_eq] at hop
    simp only [hop]
    rfl

theorem suits_of_parts? {n : Node} (h : parts? op value text n = some parts) : op.suits n := by
  cases n with
  | expr x => exact suits_of_exprParts? h
  | stmt s => exact suits_of_stmtParts? h
  | field f => exact suits_of_fieldParts? h
  | fields fs =>
    obtain ⟨hop, rfl⟩ := partsIf_eq_some.1 h
    obtain rfl := of_decide_eq_true hop
    rfl
  | exprs | stmts => cases h

end

end GoSift.Pattern
