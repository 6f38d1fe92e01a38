import GoSift.Filter.Package

/-!
What the compiler emits, as rules: one for each way in which it succeeds. Properties of compiled code
are shown by induction over these rules, and the compiler itself is opened here only.
-/
namespace GoSift.Filter

namespace Compiler

variable {α β : Type} {sc sc' : Scope}

theorem bind_eq_ok {p : Compiler α} {f : α → Compiler β} {b : β} :
    (p >>= f) sc = .ok (b, sc') ↔ ∃ a sc₁, p sc = .ok (a, sc₁) ∧ f a sc₁ = .ok (b, sc') := by
  change StateT.bind p f sc = _ ↔ _
  simp only [StateT.bind, bind, Except.bind]
  cases h : p sc with
  | error e => simp
  | ok r =>
    obtain ⟨a, sc₁⟩ := r
    constructor
    · intro hf
      exact ⟨a, sc₁, rfl, hf⟩
    · rintro ⟨_, _, he, hf⟩
      cases he
      exact hf

theorem pure_eq_ok {a b : α} : (pure a : Compiler α) sc = .ok (b, sc') ↔ a = b ∧ sc = sc' := by
  change Except.ok (a, sc) = _ ↔ _
  simp

theorem fail_eq_ok {pos : Position} {flaw : Flaw} {b : β} :
    (fail pos flaw : Compiler β) sc = .ok (b, sc') ↔ False := by
  constructor
  · intro h
    cases h
  · exact False.elim

theorem typeFault_eq_ok {pos : Position} {fault : TypeFault} {b : β} :
    (typeFault pos fault : Compiler β) sc = .ok (b, sc') ↔ False :=
  fail_eq_ok

theorem localSlot?_eq_ok {name : String} {slot : Option (Nat × Ty)} :
    localSlot? name sc = .ok (slot, sc') ↔ slot? name sc.locals = slot ∧ sc = sc' := by
  change Except.ok (slot? name sc.locals, sc) = _ ↔ _
  simp

end Compiler

open Compiler

/-- Whether a name is that of a parameter or of a local declared so far. -/
def Context.isVar (ctx : Context) (locals : List (String × Ty)) (name : String) : Bool :=
  (paramSlot? ctx name).isSome || (slot? name locals).isSome

/-- Whether an expression is the constant `nil`. -/
def Context.isNil (ctx : Context) (locals : List (String × Ty)) : Expr → Bool
  | .ident _ "nil" => !ctx.isVar locals "nil"
  | _ => false

/-- The operand that is compared with the constant `nil`. -/
def Context.nilOperand? (ctx : Context) (locals : List (String × Ty)) (op : BinaryOp) (x y : Expr) :
    Option Expr :=
  if (op = .eq || op = .ne) && (ctx.isNil locals x || ctx.isNil locals y) then
    some (if ctx.isNil locals y then x else y)
  else none

/-- What a call by a plain or a qualified name means. -/
def Context.direct? (ctx : Context) (locals : List (String × Ty)) : Expr → Option (Instr × Signature)
  | .ident _ name =>
    if name = "len" && !ctx.isVar locals name then some (.plain .stringLen, ⟨[.string], [.int]⟩)
    else plainCallee? ctx name
  | .selector _ (.ident _ qualifier) sel =>
    if ctx.isVar locals qualifier then none
    else sel.identName?.bind (qualifiedCallee? ctx qualifier)
  | _ => none

/-- The receiver and the name in a call of a method. -/
def Context.receiver? (ctx : Context) (locals : List (String × Ty)) : Expr → Option (Expr × String)
  | .selector _ (.ident pos qualifier) sel =>
    if ctx.isVar locals qualifier then sel.identName?.map (.ident pos qualifier, ·) else none
  | .selector _ x sel => sel.identName?.map (x, ·)
  | _ => none

/-- The instruction of a constant that has a name. -/
def constant? : String → Option (Opcode × Ty)
  | "true" => some (.pushTrue, .bool)
  | "false" => some (.pushFalse, .bool)
  | "nil" => some (.pushNil, .nil)
  | _ => none

/-- The value and the type of a literal. -/
def literal? : LitKind → String → Option (Value × Ty)
  | .int, text => (readInt? text).map (.int ·, .int)
  | .string, text => (unquote? text).map (.str ·, .string)
  | _, _ => none

/-- The instruction that cuts a string, if bounds are given. -/
def sliceInstrs : Bool → Bool → Code
  | false, false => []
  | true, false => [.plain .stringSliceFrom]
  | false, true => [.plain .stringSliceTo]
  | true, true => [.plain .stringSlice]

/-- An offset that fits into two bytes with a sign. -/
def InRange (offset : Int) : Prop :=
  -0x8000 ≤ offset ∧ offset < 0x8000

/-- The scope `sc'` has the locals of `sc`, and its constants at the front. -/
structure Scope.MoreConstants (sc sc' : Scope) : Prop where
  constants : sc.constants <+: sc'.constants
  bounded : sc.constants.length ≤ 256 → sc'.constants.length ≤ 256
  locals : sc'.locals = sc.locals

/-- The scope `sc'` has what `sc` has, and the constant `v` with the index `i`. -/
structure Scope.HasConst (sc : Scope) (v : Value) (i : Nat) (sc' : Scope) : Prop extends
    Scope.MoreConstants sc sc' where
  value : sc'.constants[i]? = some v

theorem Value.eq_of_same_int {v : Value} {n : Int64} (h : v.same (.int n)) : v = .int n := by
  cases v <;> simp_all [Value.same]

theorem Value.eq_of_same_str {v : Value} {s : String} (h : v.same (.str s)) : v = .str s := by
  cases v <;> simp_all [Value.same]

theorem literal_same {kind : LitKind} {text : String} {v w : Value} {t : Ty}
    (h : literal? kind text = some (v, t)) (hw : w.same v) : w = v := by
  cases kind <;> simp only [literal?, Option.map_eq_some_iff, Prod.mk.injEq, reduceCtorEq] at h
  · obtain ⟨n, -, rfl, -⟩ := h
    exact Value.eq_of_same_int hw
  · obtain ⟨s, -, rfl, -⟩ := h
    exact Value.eq_of_same_str hw

/-- A part of an expression that has code of its own: an expression, a bound of a slice, or the
arguments for parameters of the given types. -/
inductive Phrase where
  | expr (x : Expr)
  | bound (x : Option Expr)
  | args (types : List Ty) (xs : List Expr)

section

variable (ctx : Context)

/-- The code of a phrase, the types of the values it pushes, and the scope before and behind it. -/
inductive Emits : Scope → Phrase → Code → List Ty → Scope → Prop
  | param {sc : Scope} {pos : Position} {name : String} {i : Nat} {t : Ty}
      (hp : paramSlot? ctx name = some (i, t)) :
      Emits sc (.expr (.ident pos name)) [.indexed .pushParam i] [t] sc
  | var {sc : Scope} {pos : Position} {name : String} {i : Nat} {t : Ty}
      (hp : paramSlot? ctx name = none) (hl : slot? name sc.locals = some (i, t)) :
      Emits sc (.expr (.ident pos name)) [.indexed .pushLocal i] [t] sc
  | const {sc : Scope} {pos : Position} {name : String} {op : Opcode} {t : Ty}
      (hv : ctx.isVar sc.locals name = false) (hc : constant? name = some (op, t)) :
      Emits sc (.expr (.ident pos name)) [.plain op] [t] sc
  | lit {sc sc' : Scope} {pos : Position} {kind : LitKind} {text : String} {v : Value} {t : Ty}
      {i : Nat} (hl : literal? kind text = some (v, t)) (hi : sc.HasConst v i sc') :
      Emits sc (.expr (.lit pos kind text)) [.indexed .pushConst i] [t] sc'
  | paren {sc sc' : Scope} {pos : Position} {x : Expr} {code : Code} {t : Ty}
      (hx : Emits sc (.expr x) code [t] sc') : Emits sc (.expr (.paren pos x)) code [t] sc'
  | not {sc sc' : Scope} {pos : Position} {x : Expr} {code : Code}
      (hx : Emits sc (.expr x) code [.bool] sc') :
      Emits sc (.expr (.unary pos .not x)) (code ++ [.plain .not]) [.bool] sc'
  | neg {sc sc' : Scope} {pos : Position} {x : Expr} {code : Code}
      (hx : Emits sc (.expr x) code [.int] sc') :
      Emits sc (.expr (.unary pos .neg x)) (code ++ [.plain .neg]) [.int] sc'
  | logical {sc sc₁ sc' : Scope} {pos : Position} {op : BinaryOp} {x y : Expr} {left right : Code}
      (hop : op = .logicalAnd ∨ op = .logicalOr) (hx : Emits sc (.expr x) left [.bool] sc₁)
      (hy : Emits sc₁ (.expr y) right [.bool] sc') (hr : InRange (right.size + 4 : Nat)) :
      Emits sc (.expr (.binary pos op x y))
        (left ++ [.plain .dup, .jump (if op = .logicalAnd then .jumpFalse else .jumpTrue)
          (right.size + 4 : Nat), .plain .pop] ++ right) [.bool] sc'
  | nilTest {sc sc' : Scope} {pos : Position} {op : BinaryOp} {x y z : Expr} {code : Code} {t : Ty}
      (hz : ctx.nilOperand? sc.locals op x y = some z) (hx : Emits sc (.expr z) code [t] sc')
      (ht : t.isNillable) (hn : t ≠ .nil) :
      Emits sc (.expr (.binary pos op x y)) (code ++ [nilInstr op]) [.bool] sc'
  | binary {sc sc₁ sc' : Scope} {pos : Position} {op : BinaryOp} {x y : Expr} {left right : Code}
      {t result : Ty} {opcode : Opcode} (hz : ctx.nilOperand? sc.locals op x y = none)
      (hx : Emits sc (.expr x) left [t] sc₁) (hy : Emits sc₁ (.expr y) right [t] sc')
      (ho : binaryOpcode? op t = some (opcode, result)) :
      Emits sc (.expr (.binary pos op x y)) (left ++ right ++ [.plain opcode]) [result] sc'
  | call {sc sc' : Scope} {pos : Position} {fn : Expr} {xs : List Expr} {instr : Instr}
      {sig : Signature} {code : Code} {types : List Ty}
      (hf : ctx.direct? sc.locals fn = some (instr, sig))
      (hx : Emits sc (.args sig.params xs) code types sc') :
      Emits sc (.expr (.call pos fn xs false)) (code ++ [instr]) sig.results sc'
  | method {sc sc₁ sc' : Scope} {pos : Position} {fn x : Expr} {name : String} {xs : List Expr}
      {instr : Instr} {sig : Signature} {receiver code : Code} {t : Ty} {types : List Ty}
      (hf : ctx.receiver? sc.locals fn = some (x, name)) (hx : Emits sc (.expr x) receiver [t] sc₁)
      (hm : method? ctx t name = some (instr, sig))
      (ha : Emits sc₁ (.args sig.params xs) code types sc') :
      Emits sc (.expr (.call pos fn xs false)) (receiver ++ code ++ [instr]) sig.results sc'
  | slice {sc sc₁ sc₂ sc' : Scope} {pos : Position} {x : Expr} {low high : Option Expr}
      {full : Bool} {code lowCode highCode : Code} {ts us : List Ty}
      (hx : Emits sc (.expr x) code [.string] sc₁) (hl : Emits sc₁ (.bound low) lowCode ts sc₂)
      (hh : Emits sc₂ (.bound high) highCode us sc') :
      Emits sc (.expr (.slice pos x low high none full))
        (code ++ lowCode ++ highCode ++ sliceInstrs low.isSome high.isSome) [.string] sc'
  | noBound {sc : Scope} : Emits sc (.bound none) [] [] sc
  | bound {sc sc' : Scope} {x : Expr} {code : Code} (hx : Emits sc (.expr x) code [.int] sc') :
      Emits sc (.bound (some x)) code [.int] sc'
  | noArgs {sc : Scope} : Emits sc (.args [] []) [] [] sc
  | arg {sc sc₁ sc' : Scope} {target t : Ty} {types ts : List Ty} {x : Expr} {xs : List Expr}
      {code rest : Code} (hx : Emits sc (.expr x) code [t] sc₁) (ht : t.isAssignableTo target)
      (hxs : Emits sc₁ (.args types xs) rest ts sc') :
      Emits sc (.args (target :: types) (x :: xs)) (code ++ rest) (t :: ts) sc'

/-- The code that takes a value of a type off the stack into a variable. -/
inductive Stores : Scope → Expr → Ty → Bool → Code → Scope → Prop
  | discard {sc : Scope} {pos : Position} {t : Ty} {define : Bool} :
      Stores sc (.ident pos "_") t define [.plain .pop] sc
  | declare {sc : Scope} {pos : Position} {name : String} {t : Ty} (hn : name ≠ "_")
      (hv : ctx.isVar sc.locals name = false) (hl : sc.locals.length < maxLocals) :
      Stores sc (.ident pos name) t true [.indexed .setLocal sc.locals.length]
        { sc with locals := sc.locals ++ [(name, t)] }
  | assign {sc : Scope} {pos : Position} {name : String} {i : Nat} {t t' : Ty} (hn : name ≠ "_")
      (hp : paramSlot? ctx name = none) (hl : slot? name sc.locals = some (i, t'))
      (ht : t.isAssignableTo t') :
      Stores sc (.ident pos name) t false [.indexed .setLocal i] sc

end

namespace Compiler

variable {ctx : Context} {sc sc' : Scope} {pos : Position}

theorem isVar_eq_ok {name : String} {b : Bool} :
    Compiler.isVar ctx name sc = .ok (b, sc') ↔ ctx.isVar sc.locals name = b ∧ sc = sc' := by
  simp only [Compiler.isVar, bind_eq_ok, localSlot?_eq_ok, pure_eq_ok, Context.isVar]
  grind

theorem isNilConst_eq_ok {x : Expr} {b : Bool} :
    isNilConst ctx x sc = .ok (b, sc') ↔ ctx.isNil sc.locals x = b ∧ sc = sc' := by
  unfold isNilConst Context.isNil
  split
  · simp only [bind_eq_ok, isVar_eq_ok, pure_eq_ok]
    grind
  · simp only [pure_eq_ok]

theorem single_eq_ok {x : Expr} {p : Compiler (Code × List Ty)} {code : Code} {t : Ty} :
    single x p sc = .ok ((code, t), sc') ↔ p sc = .ok ((code, [t]), sc') := by
  simp only [single, bind_eq_ok]
  constructor
  · rintro ⟨⟨code', types⟩, sc₁, hp, h⟩
    rcases types with _ | ⟨u, _ | ⟨v, us⟩⟩
    · exact (typeFault_eq_ok.mp h).elim
    · obtain ⟨he, rfl⟩ := pure_eq_ok.mp h
      cases he
      exact hp
    · exact (typeFault_eq_ok.mp h).elim
  · intro h
    exact ⟨_, _, h, pure_eq_ok.mpr ⟨rfl, rfl⟩⟩

theorem operand_eq_ok {x : Expr} {want : Ty} {op : String} {p : Compiler (Code × List Ty)}
    {code : Code} :
    operand x want op p sc = .ok (code, sc') ↔ p sc = .ok ((code, [want]), sc') := by
  simp only [operand, bind_eq_ok, Prod.exists, single_eq_ok]
  constructor
  · rintro ⟨code', t, sc₁, hp, h⟩
    split at h
    · obtain ⟨rfl, rfl⟩ := pure_eq_ok.mp h
      rwa [← ‹t = want›]
    · exact (typeFault_eq_ok.mp h).elim
  · intro h
    exact ⟨_, _, _, h, by rw [if_pos rfl]; exact pure_eq_ok.mpr ⟨rfl, rfl⟩⟩

theorem jumpBy_eq_ok {op : Opcode} {offset : Int} {i : Instr} :
    jumpBy pos op offset sc = .ok (i, sc') ↔ InRange offset ∧ i = .jump op offset ∧ sc = sc' := by
  unfold jumpBy InRange
  split
  · simp only [pure_eq_ok]
    grind
  · simp only [fail_eq_ok]
    grind

theorem checkAssignable_eq_ok {t target : Ty} {use : Use} {u : Unit} :
    checkAssignable pos t target use sc = .ok (u, sc') ↔ t.isAssignableTo target ∧ sc = sc' := by
  unfold checkAssignable
  split
  · simp only [pure_eq_ok]
    grind
  · simp only [typeFault_eq_ok]
    grind

theorem binaryInstr_eq_ok {op : BinaryOp} {t t' result : Ty} {i : Instr} :
    binaryInstr pos op t t' sc = .ok ((i, result), sc') ↔
      t = t' ∧ (∃ opcode, binaryOpcode? op t = some (opcode, result) ∧ i = .plain opcode) ∧ sc = sc' := by
  unfold binaryInstr
  split
  · simp only [typeFault_eq_ok]
    grind
  · cases binaryOpcode? op t with
    | some r =>
      simp only [pure_eq_ok]
      grind
    | none => simp [typeFault_eq_ok]

theorem callCode_eq_ok {callee : String} {target : Instr × Signature} {count : Nat}
    {receiver code : Code} {args : List Ty → Compiler Code} {types : List Ty} :
    callCode pos callee target count receiver args sc = .ok ((code, types), sc') ↔
      target.2.params.length = count ∧ types = target.2.results ∧
        ∃ inner, args target.2.params sc = .ok (inner, sc') ∧ code = receiver ++ inner ++ [target.1] := by
  obtain ⟨instr, sig⟩ := target
  simp only [callCode]
  split
  · simp only [typeFault_eq_ok]
    grind
  · simp only [bind_eq_ok, pure_eq_ok]
    grind

/-- A literal is found among the constants, or put behind them. -/
theorem hasConst_of_pushConst {kind : LitKind} {text : String} {v : Value} {t : Ty} {code : Code}
    (hl : literal? kind text = some (v, t)) (h : pushConst pos v sc = .ok (code, sc')) :
    ∃ i, code = [.indexed .pushConst i] ∧ sc.HasConst v i sc' := by
  simp only [pushConst] at h
  split at h
  · next i hi =>
    cases h
    obtain ⟨hlt, hsame, -⟩ := List.findIdx?_eq_some_iff_getElem.mp hi
    refine ⟨i, rfl, ⟨List.prefix_refl _, id, rfl⟩, ?_⟩
    rw [List.getElem?_eq_getElem hlt, literal_same hl hsame]
  · split at h
    · next hlt =>
      cases h
      refine ⟨_, rfl, ⟨List.prefix_append _ _, fun _ => ?_, rfl⟩, by simp⟩
      simp only [List.length_append, List.length_singleton]
      omega
    · cases h

theorem identCode_emits {name : String} {code : Code} {t : Ty}
    (h : identCode ctx pos name sc = .ok ((code, t), sc')) :
    Emits ctx sc (.expr (.ident pos name)) code [t] sc' := by
  simp only [identCode, bind_eq_ok, localSlot?_eq_ok] at h
  obtain ⟨slot, sc₁, ⟨hl, rfl⟩, h⟩ := h
  cases hp : paramSlot? ctx name with
  | some p =>
    obtain ⟨i, u⟩ := p
    simp only [hp, pure_eq_ok] at h
    obtain ⟨he, rfl⟩ := h
    cases he
    exact .param hp
  | none =>
    cases slot with
    | some p =>
      obtain ⟨i, u⟩ := p
      simp only [hp, pure_eq_ok] at h
      obtain ⟨he, rfl⟩ := h
      cases he
      exact .var hp hl
    | none =>
      have hv : ctx.isVar sc.locals name = false := by simp [Context.isVar, hp, hl]
      simp only [hp] at h
      split at h
      all_goals first
        | exact (fail_eq_ok.mp h).elim
        | obtain ⟨he, rfl⟩ := pure_eq_ok.mp h
          cases he
          exact .const hv rfl


/-- The code of an expression follows the rules. -/
def ExprEmits (ctx : Context) (x : Expr) : Prop :=
  ∀ {sc sc' : Scope} {code : Code} {types : List Ty},
    exprCode ctx x sc = .ok ((code, types), sc') → Emits ctx sc (.expr x) code types sc'

/-- The code of arguments follows the rules. -/
def ArgsEmits (ctx : Context) (xs : List Expr) : Prop :=
  ∀ {sc sc' : Scope} {callee : String} {targets : List Ty} {code : Code},
    targets.length = xs.length → argsCode ctx callee targets xs sc = .ok (code, sc') →
      ∃ types, Emits ctx sc (.args targets xs) code types sc'

attribute [local simp] exprCode

theorem lit_emits {kind : LitKind} {text : String} : ExprEmits ctx (.lit pos kind text) := by
  intro sc sc' code types h
  cases kind with
  | int =>
    cases hn : readInt? text with
    | none => simp [hn, typeFault_eq_ok] at h
    | some n =>
      simp only [exprCode, hn, bind_eq_ok, pure_eq_ok, Prod.mk.injEq] at h
      obtain ⟨_, sc₁, h, ⟨rfl, rfl⟩, rfl⟩ := h
      have hl : literal? .int text = some (.int n, .int) := by simp [literal?, hn]
      obtain ⟨i, rfl, hi⟩ := hasConst_of_pushConst hl h
      exact .lit hl hi
  | string =>
    cases hn : unquote? text with
    | none => simp [hn, typeFault_eq_ok] at h
    | some s =>
      simp only [exprCode, hn, bind_eq_ok, pure_eq_ok, Prod.mk.injEq] at h
      obtain ⟨_, sc₁, h, ⟨rfl, rfl⟩, rfl⟩ := h
      have hl : literal? .string text = some (.str s, .string) := by simp [literal?, hn]
      obtain ⟨i, rfl, hi⟩ := hasConst_of_pushConst hl h
      exact .lit hl hi
  | float | imag | char => simp [fail_eq_ok] at h

theorem unary_emits {op : UnaryOp} {x : Expr} (ihx : ExprEmits ctx x) :
    ExprEmits ctx (.unary pos op x) := by
  intro sc sc' code types h
  cases op with
  | not =>
    simp only [exprCode, bind_eq_ok, operand_eq_ok, pure_eq_ok, Prod.mk.injEq] at h
    obtain ⟨_, sc₁, h, ⟨rfl, rfl⟩, rfl⟩ := h
    exact .not (ihx h)
  | neg =>
    simp only [exprCode, bind_eq_ok, operand_eq_ok, pure_eq_ok, Prod.mk.injEq] at h
    obtain ⟨_, sc₁, h, ⟨rfl, rfl⟩, rfl⟩ := h
    exact .neg (ihx h)
  | plus | xor | addr | recv => simp [fail_eq_ok] at h

theorem nilTest_emits {op : BinaryOp} {x y z : Expr} {sc sc' : Scope} {code : Code}
    {types : List Ty} (ihz : ExprEmits ctx z) (hz : ctx.nilOperand? sc.locals op x y = some z)
    (h : (single z (exprCode ctx z) >>= fun r =>
      if !r.2.isNillable || r.2 = .nil then typeFault pos (.mismatch r.2 .nil)
      else pure (r.1 ++ [nilInstr op], [.bool])) sc = .ok ((code, types), sc')) :
    Emits ctx sc (.expr (.binary pos op x y)) code types sc' := by
  simp only [bind_eq_ok, Prod.exists, single_eq_ok] at h
  obtain ⟨code', t, sc₁, hx, h⟩ := h
  split at h
  · exact (typeFault_eq_ok.mp h).elim
  · next ht =>
    simp only [pure_eq_ok, Prod.mk.injEq] at h
    obtain ⟨⟨rfl, rfl⟩, rfl⟩ := h
    simp only [Bool.or_eq_true, Bool.not_eq_true', decide_eq_true_eq, not_or,
      Bool.not_eq_false] at ht
    exact .nilTest hz (ihz hx) ht.1 ht.2

theorem binary_emits {op : BinaryOp} {x y : Expr} (ihx : ExprEmits ctx x) (ihy : ExprEmits ctx y) :
    ExprEmits ctx (.binary pos op x y) := by
  intro sc sc' code types h
  by_cases hop : op = .logicalAnd ∨ op = .logicalOr
  · have hb : (decide (op = .logicalAnd) || decide (op = .logicalOr)) = true := by simpa using hop
    simp only [exprCode, hb, if_true, bind_eq_ok, operand_eq_ok, jumpBy_eq_ok, pure_eq_ok,
      Prod.mk.injEq] at h
    obtain ⟨left, sc₁, hx, right, sc₂, hy, _, _, ⟨hr, rfl, rfl⟩, ⟨rfl, rfl⟩, rfl⟩ := h
    exact .logical hop (ihx hx) (ihy hy) hr
  · have hb : (decide (op = .logicalAnd) || decide (op = .logicalOr)) = false := by simpa using hop
    simp only [exprCode, hb, Bool.false_eq_true, if_false, bind_eq_ok, isNilConst_eq_ok] at h
    obtain ⟨_, _, ⟨rfl, rfl⟩, _, _, ⟨rfl, rfl⟩, h⟩ := h
    split at h
    · next hnil =>
      split at h
      · next hy => exact nilTest_emits ihx (by rw [Context.nilOperand?, if_pos hnil, if_pos hy]) h
      · next hy => exact nilTest_emits ihy (by rw [Context.nilOperand?, if_pos hnil, if_neg hy]) h
    · next hnil =>
      simp only [bind_eq_ok, Prod.exists, single_eq_ok, binaryInstr_eq_ok, pure_eq_ok,
        Prod.mk.injEq] at h
      obtain ⟨left, t, sc₁, hx, right, t', sc₂, hy, _, result, _, ⟨rfl, ⟨opcode, ho, rfl⟩, rfl⟩,
        ⟨rfl, rfl⟩, rfl⟩ := h
      exact .binary (by rw [Context.nilOperand?, if_neg hnil]) (ihx hx) (ihy hy) ho

theorem directCode_emits {fn : Expr} {callee : String} {target : Instr × Signature} {xs : List Expr}
    {sc sc' : Scope} {code : Code} {types : List Ty} (ihxs : ArgsEmits ctx xs)
    (hf : ctx.direct? sc.locals fn = some target)
    (h : callCode pos callee target xs.length [] (fun types => argsCode ctx callee types xs) sc =
      .ok ((code, types), sc')) :
    Emits ctx sc (.expr (.call pos fn xs false)) code types sc' := by
  obtain ⟨hn, rfl, inner, ha, rfl⟩ := callCode_eq_ok.mp h
  obtain ⟨ts, ha⟩ := ihxs hn ha
  exact .call hf ha

theorem methodCode_emits {fn x : Expr} {name : String} {fnPos : Position} {xs : List Expr}
    {sc sc' : Scope} {code : Code} {types : List Ty} (ihx : ExprEmits ctx x)
    (ihxs : ArgsEmits ctx xs) (hf : ctx.receiver? sc.locals fn = some (x, name))
    (h : (single x (exprCode ctx x) >>= fun r =>
      match method? ctx r.2 name with
      | some target =>
        callCode pos ("(" ++ r.2.text ++ ")." ++ name) target xs.length r.1
          fun types => argsCode ctx ("(" ++ r.2.text ++ ")." ++ name) types xs
      | none => fail fnPos (.undefined ("(" ++ r.2.text ++ ")." ++ name))) sc =
        .ok ((code, types), sc')) :
    Emits ctx sc (.expr (.call pos fn xs false)) code types sc' := by
  simp only [bind_eq_ok, Prod.exists, single_eq_ok] at h
  obtain ⟨receiver, t, sc₁, hx, h⟩ := h
  cases hm : method? ctx t name with
  | none => simp [hm, fail_eq_ok] at h
  | some target =>
    simp only [hm] at h
    obtain ⟨hn, rfl, inner, ha, rfl⟩ := callCode_eq_ok.mp h
    obtain ⟨ts, ha⟩ := ihxs hn ha
    exact .method hf (ihx hx) hm ha

theorem plainCall_emits {fnPos : Position} {name : String} {xs : List Expr} {spread : Bool}
    (ihxs : ArgsEmits ctx xs) : ExprEmits ctx (.call pos (.ident fnPos name) xs spread) := by
  intro sc sc' code types h
  cases spread with
  | true => simp [fail_eq_ok] at h
  | false =>
    simp only [exprCode, Bool.false_eq_true, if_false, bind_eq_ok, isVar_eq_ok] at h
    obtain ⟨_, _, ⟨rfl, rfl⟩, h⟩ := h
    split at h
    · next hlen => exact directCode_emits ihxs (by rw [Context.direct?, if_pos hlen]) h
    · next hlen =>
      cases ht : plainCallee? ctx name with
      | none => simp [ht, fail_eq_ok] at h
      | some target =>
        simp only [ht] at h
        exact directCode_emits ihxs (by rw [Context.direct?, if_neg hlen, ht]) h

theorem selectorCall_emits {fnPos : Position} {x sel : Expr} {xs : List Expr} {spread : Bool}
    (ihx : ExprEmits ctx x) (ihxs : ArgsEmits ctx xs) :
    ExprEmits ctx (.call pos (.selector fnPos x sel) xs spread) := by
  intro sc sc' code types h
  cases spread with
  | true => simp [fail_eq_ok] at h
  | false =>
    cases hs : sel.identName? with
    | none => simp [hs, fail_eq_ok] at h
    | some name =>
      simp only [exprCode, Bool.false_eq_true, if_false, hs] at h
      by_cases hq : ∃ p q, x = .ident p q
      · obtain ⟨p, q, rfl⟩ := hq
        simp only [bind_eq_ok, isVar_eq_ok, pure_eq_ok] at h
        obtain ⟨_, _, ⟨rfl, rfl⟩, _, _, ⟨rfl, rfl⟩, h⟩ := h
        cases hv : ctx.isVar sc.locals q with
        | true =>
          simp only [hv, if_true] at h
          exact methodCode_emits ihx ihxs (by simp [Context.receiver?, hv, hs]) h
        | false =>
          simp only [hv, Bool.false_eq_true, if_false] at h
          cases ht : qualifiedCallee? ctx q name with
          | none => simp [ht, fail_eq_ok] at h
          | some target =>
            simp only [ht] at h
            exact directCode_emits ihxs (by simp [Context.direct?, hv, hs, ht]) h
      · have hr : ctx.receiver? sc.locals (.selector fnPos x sel) = some (x, name) := by
          cases x <;> simp_all [Context.receiver?]
        split at h
        · exact (hq ⟨_, _, rfl⟩).elim
        · simp only [bind_eq_ok, pure_eq_ok] at h
          obtain ⟨_, _, ⟨rfl, rfl⟩, h⟩ := h
          exact methodCode_emits ihx ihxs hr h

mutual

theorem exprCode_emits (x : Expr) : ExprEmits ctx x := by
  intro sc sc' code types h
  cases x with
  | ident pos name =>
    simp only [exprCode, bind_eq_ok, Prod.exists, pure_eq_ok, Prod.mk.injEq] at h
    obtain ⟨_, t, sc₁, h, ⟨rfl, rfl⟩, rfl⟩ := h
    exact identCode_emits h
  | lit pos kind text => exact lit_emits h
  | paren pos x =>
    simp only [exprCode, bind_eq_ok, Prod.exists, single_eq_ok, pure_eq_ok, Prod.mk.injEq] at h
    obtain ⟨_, t, sc₁, h, ⟨rfl, rfl⟩, rfl⟩ := h
    exact .paren (exprCode_emits x h)
  | unary pos op x => exact unary_emits (exprCode_emits x) h
  | binary pos op x y => exact binary_emits (exprCode_emits x) (exprCode_emits y) h
  | call pos fn args spread =>
    cases fn with
    | ident fnPos name => exact plainCall_emits (argsCode_emits args) h
    | selector fnPos x sel => exact selectorCall_emits (exprCode_emits x) (argsCode_emits args) h
    | _ => cases spread <;> simp [fail_eq_ok] at h
  | slice pos x low high max full =>
    cases max with
    | some max => simp [fail_eq_ok] at h
    | none =>
      simp only [exprCode, bind_eq_ok, operand_eq_ok, pure_eq_ok, Prod.mk.injEq] at h
      obtain ⟨code, sc₁, hx, lowCode, sc₂, hl, highCode, sc₃, hh, ⟨rfl, rfl⟩, rfl⟩ := h
      obtain ⟨ts, hl⟩ := boundCode_emits low hl
      obtain ⟨us, hh⟩ := boundCode_emits high hh
      exact .slice (exprCode_emits x hx) hl hh
  | _ => simp [fail_eq_ok] at h

theorem boundCode_emits (x : Option Expr) {sc sc' : Scope} {code : Code}
    (h : boundCode ctx x sc = .ok (code, sc')) :
    ∃ types, Emits ctx sc (.bound x) code types sc' := by
  cases x with
  | none =>
    simp only [boundCode, pure_eq_ok] at h
    obtain ⟨rfl, rfl⟩ := h
    exact ⟨_, .noBound⟩
  | some x =>
    simp only [boundCode, operand_eq_ok] at h
    exact ⟨_, .bound (exprCode_emits x h)⟩

theorem argsCode_emits (xs : List Expr) : ArgsEmits ctx xs := by
  intro sc sc' callee targets code hn h
  cases xs with
  | nil =>
    obtain rfl := List.length_eq_zero_iff.mp hn
    simp only [argsCode, pure_eq_ok] at h
    obtain ⟨rfl, rfl⟩ := h
    exact ⟨_, .noArgs⟩
  | cons x xs =>
    cases targets with
    | nil => simp at hn
    | cons target targets =>
      simp only [argsCode, bind_eq_ok, Prod.exists, single_eq_ok, checkAssignable_eq_ok,
        pure_eq_ok] at h
      obtain ⟨_, t, sc₁, hx, _, _, ⟨ht, rfl⟩, _, sc₂, hxs, rfl, rfl⟩ := h
      obtain ⟨ts, hxs⟩ := argsCode_emits xs (by simpa using hn) hxs
      exact ⟨_, .arg (exprCode_emits x hx) ht hxs⟩

end

end Compiler

end GoSift.Filter
