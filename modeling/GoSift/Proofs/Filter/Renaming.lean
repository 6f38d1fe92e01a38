import GoSift.Proofs.Filter.Layout
import GoSift.Proofs.Syntax.Regular

/-!
Calls by other numbers. Code depends on the functions that are known only by the numbers in its calls: if
everything that is called stays callable under another number, the compiler makes the same code with the
other numbers. Where it fails is one of the places of the tree that it compiles.
-/
namespace GoSift.Filter

open Compiler

/-- The instruction with another number if it is a call of a function. -/
def Instr.renamed (ρ : Nat → Nat) : Instr → Instr
  | numbered .call id => .numbered .call (ρ id)
  | i => i

def Code.renamed (ρ : Nat → Nat) (code : Code) : Code :=
  code.map (Instr.renamed ρ)

section

variable {ρ : Nat → Nat}

@[simp] theorem Instr.size_renamed (i : Instr) : (i.renamed ρ).size = i.size := by
  unfold renamed
  split <;> rfl

@[simp] theorem Instr.renamed_plain (op : Opcode) : (plain op).renamed ρ = plain op := rfl

@[simp] theorem Instr.renamed_indexed (op : Opcode) (i : Nat) :
    (indexed op i).renamed ρ = indexed op i := rfl

/-- Open jumps stay what they are. -/
theorem Instr.renamed_eq_open {i kind : Instr} (hk : kind = .leave ∨ kind = .repeat_) :
    i.renamed ρ = kind ↔ i = kind := by
  unfold renamed
  split
  · rcases hk with rfl | rfl <;> simp
  · exact Iff.rfl

namespace Code

@[simp] theorem renamed_nil : renamed ρ [] = [] := rfl

@[simp] theorem renamed_cons (i : Instr) (code : Code) :
    renamed ρ (i :: code) = i.renamed ρ :: renamed ρ code := rfl

@[simp] theorem renamed_append (code rest : Code) :
    renamed ρ (code ++ rest) = code.renamed ρ ++ rest.renamed ρ :=
  List.map_append

@[simp] theorem size_renamed (code : Code) : size (renamed ρ code) = size code := by
  induction code with
  | nil => rfl
  | cons i code ih =>
    rw [renamed_cons, size_cons, size_cons, Instr.size_renamed, ih]

theorem renamed_pops (types : List Ty) :
    renamed ρ (types.map fun _ => Instr.plain .pop) = types.map fun _ => .plain .pop := by
  simp [renamed, Instr.renamed]

end Code

end

/-- Renames the calls of code that comes with something else. -/
def renamedFst {α : Type} (ρ : Nat → Nat) (r : Code × α) : Code × α :=
  (r.1.renamed ρ, r.2)

/-- What a function is compiled in, with other numbers for the functions that can be called there. -/
structure Context.Renames (ρ : Nat → Nat) (ctx ctx' : Context) : Prop where
  sig : ctx'.sig = ctx.sig
  params : ctx'.params = ctx.params
  plain : ∀ {name : String} {i : Instr} {sig : Signature},
    plainCallee? ctx name = some (i, sig) → plainCallee? ctx' name = some (i.renamed ρ, sig)
  qualified : ∀ {qualifier name : String} {i : Instr} {sig : Signature},
    qualifiedCallee? ctx qualifier name = some (i, sig) →
      qualifiedCallee? ctx' qualifier name = some (i.renamed ρ, sig)
  method : ∀ {type : Ty} {name : String} {i : Instr} {sig : Signature},
    method? ctx type name = some (i, sig) → method? ctx' type name = some (i.renamed ρ, sig)

namespace Compiler

/-- Where the first compiler succeeds, so does the second, in the same scope and with the result that
is turned. The first fails at places in `S` only. -/
structure Turns {α : Type} (S : Position → Prop) (f : α → α) (p q : Compiler α) : Prop where
  ok : ∀ {sc sc' : Scope} {a : α}, p sc = .ok (a, sc') → q sc = .ok (f a, sc')
  fails : ∀ {sc : Scope} {e : FilterError}, p sc = .error e → S e.pos

variable {S : Position → Prop} {pos : Position}

namespace Turns

variable {α β : Type} {f : α → α} {g : β → β} {p q p' q' : Compiler α}

theorem pure {a b : α} (h : f a = b) : Turns S f (Pure.pure a) (Pure.pure b) where
  ok hc := by
    obtain ⟨rfl, rfl⟩ := pure_eq_ok.mp hc
    exact pure_eq_ok.mpr ⟨h.symm, rfl⟩
  fails := nofun

theorem same {a : α} : Turns S id (Pure.pure a) (Pure.pure a) :=
  pure rfl

theorem fail {flaw : Flaw} (h : S pos) : Turns S f (Compiler.fail pos flaw) q where
  ok hc := (fail_eq_ok.mp hc).elim
  fails := by
    rintro _ _ ⟨⟩
    exact h

theorem typeFault {fault : TypeFault} (h : S pos) : Turns S f (Compiler.typeFault pos fault) q :=
  fail h

/-- A compiler whose results do not change when they are turned. -/
theorem fixed (h : Turns S id p p) (hf : ∀ {sc sc' : Scope} {a : α}, p sc = .ok (a, sc') → f a = a) :
    Turns S f p p where
  ok hp := by rw [hf hp]; exact hp
  fails := h.fails

theorem bind {F G : α → Compiler β} (h : Turns S f p q) (hF : ∀ a, Turns S g (F a) (G (f a))) :
    Turns S g (p >>= F) (q >>= G) where
  ok hb := by
    obtain ⟨a, sc₁, ha, hb⟩ := bind_eq_ok.mp hb
    exact bind_eq_ok.mpr ⟨f a, sc₁, h.ok ha, (hF a).ok hb⟩
  fails := by
    intro sc e he
    simp only [Bind.bind, StateT.bind, Except.bind] at he
    cases hp : p sc with
    | error e' =>
      rw [hp] at he
      cases he
      exact h.fails hp
    | ok r =>
      rw [hp] at he
      exact (hF r.1).fails he

theorem ite {c : Prop} {_ : Decidable c} (h : Turns S f p q) (h' : Turns S f p' q') :
    Turns S f (if c then p else p') (if c then q else q') := by
  split
  · exact h
  · exact h'

/-! Steps that make no calls. -/

theorem get : Turns S id (MonadState.get : Compiler Scope) MonadState.get :=
  ⟨id, nofun⟩

theorem localSlot? {name : String} : Turns S id (Compiler.localSlot? name) (Compiler.localSlot? name) :=
  .bind get fun _ => .pure rfl

theorem isVar {ctx : Context} {name : String} :
    Turns S id (Compiler.isVar ctx name) (Compiler.isVar ctx name) :=
  .bind localSlot? fun _ => .pure rfl

theorem isNilConst {ctx : Context} {x : Expr} :
    Turns S id (Compiler.isNilConst ctx x) (Compiler.isNilConst ctx x) := by
  unfold Compiler.isNilConst
  split
  · exact .bind isVar fun _ => .pure rfl
  · exact .pure rfl

theorem checkAssignable {t target : Ty} {use : Use} (h : S pos) :
    Turns S id (Compiler.checkAssignable pos t target use)
      (Compiler.checkAssignable pos t target use) :=
  .ite (.pure rfl) (.typeFault h)

end Turns

section

variable {ρ : Nat → Nat} {ctx ctx' : Context}

theorem single_turns {x : Expr} {p q : Compiler (Code × List Ty)} (hx : S x.pos)
    (h : Turns S (renamedFst ρ) p q) : Turns S (renamedFst ρ) (single x p) (single x q) := by
  refine .bind h ?_
  rintro ⟨code, _ | ⟨t, _ | _⟩⟩
  · exact .typeFault hx
  · exact .pure rfl
  · exact .typeFault hx

theorem operand_turns {x : Expr} {want : Ty} {op : String} {p q : Compiler (Code × List Ty)}
    (hx : S x.pos) (h : Turns S (renamedFst ρ) p q) :
    Turns S (Code.renamed ρ) (operand x want op p) (operand x want op q) :=
  .bind (single_turns hx h) fun _ => .ite (.pure rfl) (.typeFault hx)

theorem pushConst_turns {v : Value} (h : S pos) :
    Turns S (Code.renamed ρ) (pushConst pos v) (pushConst pos v) where
  ok := by
    intro sc sc' code hp
    rw [hp]
    unfold pushConst at hp
    split at hp
    · cases hp
      rfl
    · dsimp only at hp
      split at hp
      · cases hp
        rfl
      · cases hp
  fails := by
    intro sc e hp
    unfold pushConst at hp
    split at hp
    · cases hp
    · dsimp only at hp
      split at hp
      · cases hp
      · cases hp
        exact h

theorem jumpBy_turns (ρ : Nat → Nat) {op : Opcode} {offset : Int} (h : S pos) :
    Turns S (Instr.renamed ρ) (jumpBy pos op offset) (jumpBy pos op offset) :=
  .ite (.pure rfl) (.fail h)

theorem binaryInstr_turns (ρ : Nat → Nat) {op : BinaryOp} {t t' : Ty} (h : S pos) :
    Turns S (fun r => (r.1.renamed ρ, r.2)) (binaryInstr pos op t t') (binaryInstr pos op t t') := by
  refine .ite (.typeFault h) ?_
  split
  · exact .pure rfl
  · exact .typeFault h

theorem close_turns {kind : Instr} (hk : kind = .leave ∨ kind = .repeat_) {behind : Nat} (h : S pos)
    (code : Code) :
    Turns S (Code.renamed ρ) (close pos kind behind code) (close pos kind behind (code.renamed ρ)) := by
  induction code with
  | nil => exact .pure rfl
  | cons i code ih =>
    simp only [close, Code.renamed_cons, Instr.renamed_eq_open hk, Code.size_cons,
      Instr.size_renamed, Code.size_renamed]
    split
    · exact .bind (jumpBy_turns ρ h) fun j => .bind ih fun rest => .pure rfl
    · exact .bind (.pure rfl) fun j => .bind ih fun rest => .pure rfl

theorem loopCode_turns (h : S pos) (test : Option Code) (body post : Code) :
    Turns S (Code.renamed ρ) (loopCode pos test body post)
      (loopCode pos (test.map (Code.renamed ρ)) (body.renamed ρ) (post.renamed ρ)) := by
  have hback : ∀ front : Code, Turns S (Code.renamed ρ)
      (do
        let back ← jumpBy pos .jump (-(front.size + body.size + post.size : Nat))
        let body ← close pos .leave (post.size + 3) body
        return front ++ body ++ post ++ [back])
      (do
        let back ← jumpBy pos .jump (-((front.renamed ρ).size + body.size + post.size : Nat))
        let body ← close pos .leave (post.size + 3) (body.renamed ρ)
        return front.renamed ρ ++ body ++ post.renamed ρ ++ [back]) := by
    intro front
    rw [Code.size_renamed]
    refine .bind (jumpBy_turns ρ h) fun back => .bind (close_turns (Or.inl rfl) h body) fun body => ?_
    exact .pure (by simp)
  cases test with
  | none =>
    simp only [loopCode, Option.map_none, Code.size_renamed]
    exact .bind (.pure rfl) hback
  | some test =>
    simp only [loopCode, Option.map_some, Code.size_renamed]
    exact .bind (jumpBy_turns ρ h) fun exit => .bind (.pure (by simp)) hback

theorem callCode_turns {callee : String} {i : Instr} {sig : Signature} {count : Nat}
    {receiver : Code} {args args' : List Ty → Compiler Code} (hpos : S pos)
    (h : ∀ types, Turns S (Code.renamed ρ) (args types) (args' types)) :
    Turns S (renamedFst ρ) (callCode pos callee (i, sig) count receiver args)
      (callCode pos callee (i.renamed ρ, sig) count (receiver.renamed ρ) args') :=
  .ite (.typeFault hpos) <| .bind (h _) fun _ => .pure (by simp [renamedFst])

/-- A call of what was found under a name. -/
theorem calleeCode_turns {fnPos : Position} {flaw : Flaw} {callee : String}
    {target target' : Option (Instr × Signature)} {count : Nat} {receiver : Code}
    {args args' : List Ty → Compiler Code} (hpos : S pos) (hfn : S fnPos)
    (h : ∀ types, Turns S (Code.renamed ρ) (args types) (args' types)) :
    (∀ {i : Instr} {sig : Signature}, target = some (i, sig) →
      target' = some (i.renamed ρ, sig)) →
    Turns S (renamedFst ρ)
      (match target with
        | some target => callCode pos callee target count receiver args
        | none => fail fnPos flaw)
      (match target' with
        | some target => callCode pos callee target count (receiver.renamed ρ) args'
        | none => fail fnPos flaw) := by
  intro ht
  cases target with
  | none => exact .fail hfn
  | some target =>
    rw [ht rfl]
    exact callCode_turns hpos h

theorem nilTest_turns {op : BinaryOp} {t : Ty} {code : Code} (h : S pos) :
    Turns S (renamedFst ρ)
      (if !t.isNillable || t = .nil then typeFault pos (.mismatch t .nil)
        else pure (code ++ [nilInstr op], [Ty.bool]))
      (if !t.isNillable || t = .nil then typeFault pos (.mismatch t .nil)
        else pure (code.renamed ρ ++ [nilInstr op], [Ty.bool])) :=
  .ite (.typeFault h) (.pure (by simp [renamedFst, nilInstr]))

end

end Compiler

namespace Context.Renames

theorem refl (ctx : Context) : ctx.Renames id ctx := by
  have hsame (i : Instr) : i.renamed id = i := by
    unfold Instr.renamed
    split <;> rfl
  refine ⟨rfl, rfl, ?_, ?_, ?_⟩ <;>
  · intros
    rwa [hsame]

variable {S : Position → Prop} {ρ : Nat → Nat} {ctx ctx' : Context} {pos : Position}

section

variable (h : ctx.Renames ρ ctx')
include h

theorem paramSlot?_eq (name : String) : paramSlot? ctx' name = paramSlot? ctx name := by
  simp only [paramSlot?, h.params]

theorem isVar_eq (name : String) : Compiler.isVar ctx' name = Compiler.isVar ctx name := by
  simp only [Compiler.isVar, h.paramSlot?_eq]

theorem isNilConst_eq (x : Expr) : isNilConst ctx' x = isNilConst ctx x := by
  unfold isNilConst
  split
  · simp only [h.isVar_eq]
  · rfl

theorem identCode_turns (name : String) (hpos : S pos) :
    Turns S (renamedFst ρ) (identCode ctx pos name) (identCode ctx' pos name) := by
  unfold identCode
  rw [h.paramSlot?_eq]
  refine .bind .localSlot? fun slot => ?_
  dsimp only [id]
  split
  · exact .pure rfl
  · exact .pure rfl
  · split
    iterate 3 exact .pure rfl
    · exact .fail hpos

end

mutual

theorem exprCode_turns (h : ctx.Renames ρ ctx') (x : Expr) (hat : x.Each (Node.At S)) :
    Turns S (renamedFst ρ) (exprCode ctx x) (exprCode ctx' x) := by
  obtain ⟨hpos, hat⟩ := Expr.each_iff.mp hat
  cases x with
  | ident pos name =>
    simp only [exprCode]
    exact .bind (h.identCode_turns name hpos) fun _ => .pure rfl
  | lit pos kind text =>
    cases kind with
    | int =>
      simp only [exprCode]
      cases readInt? text with
      | none => exact .typeFault hpos
      | some n => exact .bind (pushConst_turns hpos) fun _ => .pure rfl
    | string =>
      simp only [exprCode]
      cases unquote? text with
      | none => exact .typeFault hpos
      | some s => exact .bind (pushConst_turns hpos) fun _ => .pure rfl
    | float | imag | char => exact .fail hpos
  | paren pos x =>
    simp only [exprCode]
    exact .bind (single_turns hat.at (h.exprCode_turns x hat)) fun _ => .pure rfl
  | unary pos op x =>
    have hx := h.exprCode_turns x hat
    cases op with
    | not | neg =>
      simp only [exprCode]
      exact .bind (operand_turns hat.at hx) fun _ => .pure (by simp [renamedFst])
    | plus | xor | addr | recv => exact .fail hpos
  | binary pos op x y =>
    have hx := h.exprCode_turns x hat.1
    have hy := h.exprCode_turns y hat.2
    simp only [exprCode, h.isNilConst_eq]
    split
    · refine .bind (operand_turns hat.1.at hx) fun left => .bind (operand_turns hat.2.at hy) fun right => ?_
      rw [Code.size_renamed]
      exact .bind (jumpBy_turns ρ hpos) fun jump => .pure (by simp [renamedFst])
    · refine .bind .isNilConst fun leftNil => .bind .isNilConst fun rightNil => ?_
      dsimp only [id]
      split
      · split
        · exact .bind (single_turns hat.1.at hx) fun r => nilTest_turns hpos
        · exact .bind (single_turns hat.2.at hy) fun r => nilTest_turns hpos
      · refine .bind (single_turns hat.1.at hx) fun left => .bind (single_turns hat.2.at hy) fun right => ?_
        exact .bind (binaryInstr_turns ρ hpos) fun instr => .pure (by simp [renamedFst])
  | call pos fn args spread =>
    have hargs := fun callee types => h.argsCode_turns callee types args hat.2
    cases fn with
    | ident fnPos name =>
      simp only [exprCode, h.isVar_eq]
      refine .ite (.fail hpos) (.bind .isVar fun isVar => ?_)
      exact .ite (callCode_turns hpos (hargs name))
        (calleeCode_turns hpos hat.1.at (hargs name) h.plain)
    | selector fnPos x sel =>
      obtain ⟨hfn, hx, -⟩ := Expr.each_iff.mp hat.1
      have hrecv := single_turns hx.at (h.exprCode_turns x hx)
      simp only [exprCode, h.isVar_eq]
      refine .ite (.fail hpos) ?_
      cases sel.identName? with
      | none => exact .fail hpos
      | some name =>
        dsimp only
        split
        · refine .bind .isVar fun isVar => .bind .same fun package => ?_
          cases package with
          | some qualifier => exact calleeCode_turns hpos hfn (hargs _) h.qualified
          | none => exact .bind hrecv fun r => calleeCode_turns hpos hfn (hargs _) h.method
        · refine .bind .same fun package => ?_
          cases package with
          | some qualifier => exact calleeCode_turns hpos hfn (hargs _) h.qualified
          | none => exact .bind hrecv fun r => calleeCode_turns hpos hfn (hargs _) h.method
    | _ => cases spread <;> exact .fail hpos
  | slice pos x low high max full =>
    have hx := h.exprCode_turns x hat.1
    have hlow := h.boundCode_turns low hat.2.1
    have hhigh := h.boundCode_turns high hat.2.2.1
    cases max with
    | some max => exact .fail hpos
    | none =>
      simp only [exprCode]
      refine .bind (operand_turns hat.1.at hx) fun code => .bind hlow fun lowCode =>
        .bind hhigh fun highCode => .pure ?_
      cases low <;> cases high <;> simp [renamedFst]
  | _ => exact .fail hpos

theorem boundCode_turns (h : ctx.Renames ρ ctx') (x : Option Expr) (hat : ∀ y ∈ x, y.Each (Node.At S)) :
    Turns S (Code.renamed ρ) (boundCode ctx x) (boundCode ctx' x) := by
  cases x with
  | none => exact .pure rfl
  | some x => exact operand_turns (hat x rfl).at (h.exprCode_turns x (hat x rfl))

theorem argsCode_turns (h : ctx.Renames ρ ctx') (callee : String) (types : List Ty) (xs : List Expr)
    (hat : ∀ x ∈ xs, x.Each (Node.At S)) :
    Turns S (Code.renamed ρ) (argsCode ctx callee types xs) (argsCode ctx' callee types xs) := by
  cases xs with
  | nil => cases types <;> exact .pure rfl
  | cons x xs =>
    obtain ⟨hx, hxs⟩ := List.forall_mem_cons.mp hat
    cases types with
    | nil => exact .pure rfl
    | cons target types =>
      simp only [argsCode]
      refine .bind (single_turns hx.at (h.exprCode_turns x hx)) fun r => .bind (.checkAssignable hx.at)
        fun _ => .bind (h.argsCode_turns callee types xs hxs) fun rest => ?_
      exact .pure (by simp [renamedFst])

end

section

variable (h : ctx.Renames ρ ctx')
include h

theorem valueCode_turns {x : Expr} (hat : x.Each (Node.At S)) :
    Turns S (renamedFst ρ) (valueCode ctx x) (valueCode ctx' x) :=
  single_turns hat.at (h.exprCode_turns x hat)

theorem assignTarget_eq (x : Expr) : assignTarget ctx' x = assignTarget ctx x := by
  unfold assignTarget
  simp only [h.paramSlot?_eq]

omit h in
theorem assignTarget_turns {x : Expr} (hat : S x.pos) :
    Turns S id (assignTarget ctx x) (assignTarget ctx x) := by
  cases x with
  | ident pos name =>
    refine .ite (.fail hat) (.bind .localSlot? fun _ => ?_)
    split
    · exact .pure rfl
    · exact .fail hat
  | _ => exact .fail hat

theorem store_turns {target : Expr} (hat : S target.pos) (t : Ty) (define : Bool) :
    Turns S (Code.renamed ρ) (store ctx target t define) (store ctx' target t define) := by
  have heq : store ctx' target t define = store ctx target t define := by
    unfold store declare
    simp only [h.assignTarget_eq, h.isVar_eq]
  rw [heq]
  refine .fixed ?_ fun hp => ?_
  · cases target with
    | ident pos name =>
      have hdeclare : Turns S id (declare ctx pos name t) (declare ctx pos name t) :=
        .bind .isVar fun _ => .ite (.fail hat) <| .bind .get fun _ =>
          .ite (.bind ⟨id, by rintro _ _ ⟨⟩⟩ fun _ => .pure rfl) (.fail hat)
      exact .ite (.pure rfl) <| .ite hdeclare <| .bind (assignTarget_turns hat) fun _ =>
        .bind (.checkAssignable hat) fun _ => .pure rfl
    | _ => exact .fail hat
  · cases store_stores hp with
    | discard | declare _ _ _ | assign _ _ _ _ => rfl

theorem assignOne_turns {target value : Expr} (ht : S target.pos) (hv : value.Each (Node.At S))
    (define : Bool) :
    Turns S (Code.renamed ρ) (assignOne ctx target value define)
      (assignOne ctx' target value define) :=
  .bind (h.valueCode_turns hv) fun r => .ite (.typeFault hv.at) <| .bind (h.store_turns ht r.2 define)
    fun code => .pure (by simp)

theorem assignTwo_turns {first second call : Expr} (hpos : S pos) (ht : S first.pos) (ht' : S second.pos)
    (hv : call.Each (Node.At S)) (define : Bool) :
    Turns S (Code.renamed ρ) (assignTwo ctx pos first second call define)
      (assignTwo ctx' pos first second call define) := by
  unfold assignTwo
  refine .bind (h.exprCode_turns call hv) ?_
  rintro ⟨code, _ | ⟨t, _ | ⟨t', _ | _⟩⟩⟩
  · exact .typeFault hpos
  · exact .typeFault hpos
  · refine .bind (h.store_turns ht' t' define) fun code₂ => .bind (h.store_turns ht t define) fun code₁ => ?_
    exact .pure (by simp)
  · exact .typeFault hpos

theorem assignUpdate_turns {target value : Expr} (hpos : S pos) (ht : S target.pos)
    (hv : value.Each (Node.At S)) (op : BinaryOp) :
    Turns S (Code.renamed ρ) (assignUpdate ctx pos target op value)
      (assignUpdate ctx' pos target op value) := by
  unfold assignUpdate
  rw [h.assignTarget_eq]
  refine .bind (assignTarget_turns ht) fun slot => .bind (h.valueCode_turns hv) fun r => ?_
  refine .bind (binaryInstr_turns ρ hpos) fun instr => .bind (.checkAssignable hpos) fun _ => ?_
  exact .pure (by simp)

theorem assignCode_turns {lhs rhs : List Expr} (hpos : S pos) (hl : ∀ x ∈ lhs, x.Each (Node.At S))
    (hr : ∀ x ∈ rhs, x.Each (Node.At S)) (op : AssignOp) :
    Turns S (Code.renamed ρ) (assignCode ctx pos lhs op rhs) (assignCode ctx' pos lhs op rhs) := by
  have hleft {x : Expr} (hx : x ∈ lhs) : S x.pos := (hl x hx).at
  unfold assignCode
  split
  · exact h.assignUpdate_turns hpos (hleft (by simp)) (hr _ (by simp)) _
  · exact h.assignOne_turns (hleft (by simp)) (hr _ (by simp)) _
  · exact h.assignOne_turns (hleft (by simp)) (hr _ (by simp)) _
  · exact h.assignTwo_turns hpos (hleft (by simp)) (hleft (by simp)) (hr _ (by simp)) _
  · exact h.assignTwo_turns hpos (hleft (by simp)) (hleft (by simp)) (hr _ (by simp)) _
  · exact .fail hpos

theorem exprStmtCode_turns {x : Expr} (hat : x.Each (Node.At S)) :
    Turns S (Code.renamed ρ) (exprStmtCode ctx x) (exprStmtCode ctx' x) := by
  unfold exprStmtCode
  split
  · exact .bind (h.exprCode_turns _ hat) fun r =>
      .pure (by simp only [Code.renamed_append, Code.renamed_pops])
  · exact .typeFault hat.at

theorem boolReturn?_turns (x : Expr) :
    Turns S (Option.map (Instr.renamed ρ)) (boolReturn? ctx x) (boolReturn? ctx' x) := by
  have heq : boolReturn? ctx' x = boolReturn? ctx x := by
    unfold boolReturn?
    simp only [h.isVar_eq, h.sig]
  rw [heq]
  cases x with
  | ident pos name =>
    refine .bind .isVar fun _ => .ite (.pure rfl) ?_
    split
    iterate 3 exact .pure rfl
  | _ => exact .pure rfl

theorem returnCode_turns {x : Expr} (hat : x.Each (Node.At S)) :
    Turns S (Code.renamed ρ) (returnCode ctx x) (returnCode ctx' x) := by
  unfold returnCode
  refine .bind (h.boolReturn?_turns x) fun instr => ?_
  cases instr with
  | some instr => exact .pure rfl
  | none =>
    rw [h.sig]
    exact .bind (h.valueCode_turns hat) fun r => .bind (.checkAssignable hat.at) fun _ => .pure (by simp)

theorem stepCode_turns {x : Expr} (hat : S x.pos) (up : Bool) :
    Turns S (Code.renamed ρ) (Compiler.stepCode ctx x up) (Compiler.stepCode ctx' x up) := by
  unfold Compiler.stepCode
  rw [h.assignTarget_eq]
  exact .bind (assignTarget_turns hat) fun slot => .ite (.pure rfl) (.typeFault hat)

theorem testCode_turns {x : Expr} (hat : x.Each (Node.At S)) (loop : Bool) :
    Turns S (Code.renamed ρ) (testCode ctx x loop) (testCode ctx' x loop) :=
  .bind (h.valueCode_turns hat) fun _ => .ite (.pure rfl) (.typeFault hat.at)

theorem loopTestCode_turns {x : Option Expr} (hat : ∀ y ∈ x, y.Each (Node.At S)) :
    Turns S (Option.map (Code.renamed ρ)) (loopTestCode ctx x) (loopTestCode ctx' x) := by
  cases x with
  | none => exact .pure rfl
  | some x =>
    simp only [loopTestCode, map_eq_pure_bind]
    exact .bind (h.testCode_turns (hat x rfl) true) fun code => .pure rfl

end

mutual

theorem stmtCode_turns (h : ctx.Renames ρ ctx') (l : Bool) (s : Stmt) (hat : s.Each (Node.At S)) :
    Turns S (Code.renamed ρ) (stmtCode ctx l s) (stmtCode ctx' l s) := by
  obtain ⟨hpos, hat⟩ := Stmt.each_iff.mp hat
  cases s with
  | expr _ x => exact h.exprStmtCode_turns hat
  | ret _ xs =>
    match xs, hat with
    | [], _ => exact .fail hpos
    | [x], hat => exact h.returnCode_turns (hat x List.mem_cons_self)
    | _ :: _ :: _, _ => exact .fail hpos
  | assign _ lhs op rhs => exact h.assignCode_turns hpos hat.1 hat.2 op
  | incDec _ x up => exact h.stepCode_turns hat.at up
  | block _ ss => exact h.stmtsCode_turns l ss hat
  | cond pos init test body other =>
    have hinit := h.stmtOptCode_turns l init hat.1
    have htest := h.testCode_turns hat.2.1 false
    have hbody := h.stmtCode_turns l body hat.2.2.1
    cases other with
    | none =>
      simp only [stmtCode]
      refine .bind hinit fun ic => .bind htest fun tc => .bind hbody fun bc => ?_
      rw [Code.size_renamed]
      exact .bind (jumpBy_turns ρ hpos) fun jump => .pure (by simp)
    | some other =>
      have hother := h.stmtCode_turns l other (hat.2.2.2 other rfl)
      simp only [stmtCode]
      refine .bind hinit fun ic => .bind htest fun tc => .bind hbody fun bc => ?_
      rw [Code.size_renamed]
      refine .bind (jumpBy_turns ρ hpos) fun jump => .bind hother fun oc => ?_
      rw [Code.size_renamed]
      exact .bind (jumpBy_turns ρ hpos) fun skip => .pure (by simp)
  | loop pos init test post body =>
    have hinit := h.stmtOptCode_turns l init hat.1
    have hbody := h.stmtCode_turns true body hat.2.2.2
    have hpost := h.stmtOptCode_turns l post hat.2.2.1
    simp only [stmtCode]
    refine .bind hinit fun ic => .bind (h.loopTestCode_turns hat.2.1) fun tc => .bind hbody fun bc => ?_
    refine .bind (close_turns (Or.inr rfl) hpos bc) fun bc => .bind hpost fun pc => ?_
    exact .bind (loopCode_turns hpos tc bc pc) fun code => .pure (by simp)
  | branch pos kind label =>
    cases label with
    | some label => cases kind <;> exact .fail hpos
    | none =>
      cases kind with
      | break_ | continue_ => exact .ite (.pure rfl) (.typeFault hpos)
      | _ => exact .fail hpos
  | empty _ => exact .pure rfl
  | _ => exact .fail hpos

theorem stmtOptCode_turns (h : ctx.Renames ρ ctx') (l : Bool) (s : Option Stmt)
    (hat : ∀ t ∈ s, t.Each (Node.At S)) :
    Turns S (Code.renamed ρ) (stmtOptCode ctx l s) (stmtOptCode ctx' l s) := by
  cases s with
  | none => exact .pure rfl
  | some s => exact h.stmtCode_turns l s (hat s rfl)

theorem stmtsCode_turns (h : ctx.Renames ρ ctx') (l : Bool) (ss : List Stmt)
    (hat : ∀ s ∈ ss, s.Each (Node.At S)) :
    Turns S (Code.renamed ρ) (stmtsCode ctx l ss) (stmtsCode ctx' l ss) := by
  cases ss with
  | nil => exact .pure rfl
  | cons s ss =>
    obtain ⟨hs, hss⟩ := List.forall_mem_cons.mp hat
    simp only [stmtsCode]
    exact .bind (h.stmtCode_turns l s hs) fun code => .bind (h.stmtsCode_turns l ss hss) fun rest =>
      .pure (by simp)

end

theorem stmtsCode_eq_ok (h : ctx.Renames ρ ctx') {l : Bool} {ss : List Stmt} {sc sc' : Scope}
    {code : Code} (hc : stmtsCode ctx l ss sc = .ok (code, sc')) :
    stmtsCode ctx' l ss sc = .ok (code.renamed ρ, sc') :=
  (h.stmtsCode_turns l ss fun _ _ n _ => n.at_true).ok hc

end Context.Renames

end GoSift.Filter
