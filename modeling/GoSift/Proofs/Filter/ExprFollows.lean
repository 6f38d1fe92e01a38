import GoSift.Proofs.Filter.Follows
import GoSift.Proofs.Filter.Resolution

/-!
The code of an expression follows its meaning: it pushes the values of the expression and leaves the
rest of the machine as it was.
-/
namespace GoSift.Filter

open Compiler

/-- The machine is about to leave the function it is in with a value. -/
def Returns (r : Registry) (callers : List Frame) (stack : Stack) (v : Value) (s : State) : Prop :=
  s.step r = State.leave { s with callers, stack } v

/-- Entering the function follows a call of the declaration. -/
structure Serves (r : Registry) (n : Nat) (call : List Value → Run Value) (decl : GoSift.Func)
    (f : Func) : Prop where
  params : f.numParams = (headOf decl).1.params.length
  results : (headOf decl).1.results.length = 1
  follows : ∀ {args : List Value} {callers : List Frame} {stack : Stack} {calls : List NativeCall},
    args.length = f.numParams →
      Follows r (n - 1) ⟨.enter f args, callers, stack, calls⟩ (call args) (Returns r callers stack)

/-- Each native takes its arguments off the stack and puts on it what the oracle answers, one value for
each result. -/
def Program.Answered (P : Program) : Prop :=
  ∀ id f, P.natives.get? id = some f → ∀ args below : List Value, args.length = f.arity →
    f.run (args.reverse ++ below) = (P.oracle id args).reverse ++ below ∧
      (P.oracle id args).length = f.sig.results.length

/-- A call of a compiled declaration of the program, where `fin` is all that the compiler met in it. -/
structure Setting (P : Program) (r : Registry) (n : Nat)
    (call : GoSift.Func → List Value → Run Value) (ctx : Context) (decl : GoSift.Func) (fin : Scope)
    (a : Activation) : Prop where
  context : ctx.Of P decl
  natives : r.natives = P.natives
  answered : P.Answered
  func : ∀ {id : Nat} {callee : GoSift.Func}, P.decls[id]? = some callee →
    ∃ f, r.funcs.get? id = some f ∧ Serves r n (call callee) callee f
  itself : Serves r n (call decl) decl a.func
  constants : a.func.constants = fin.constants.toArray
  args : a.args.length = ctx.params.length
  wellFormed : fin.WellFormed

/-- The variables have the values that the machine has for them. -/
structure Agrees (ctx : Context) (fin : Scope) (a : Activation) (locals : List Value) (σ : Store) :
    Prop where
  params : σ.params = (ctx.params.map Prod.fst).zip a.args
  length : locals.length = maxLocals
  value : ∀ {i : Nat} {name : String} {t : Ty}, fin.locals[i]? = some (name, t) →
    locals[i]? = some (σ.locals name)

/-- So many values were pushed, and the machine is at `pc`. -/
def Pushed (a : Activation) (pc : Nat) (locals : List Value) (stack : Stack) (count : Nat)
    (vs : List Value) (s : State) : Prop :=
  vs.length = count ∧ ∃ calls, s = a.state pc locals (vs.reverse ++ stack) calls

section

variable {P : Program} {r : Registry} {n : Nat} {call : GoSift.Func → List Value → Run Value}
  {ctx : Context} {decl : GoSift.Func} {fin : Scope} {a : Activation} {brk cont pc : Nat}
  {locals : List Value} {stack : Stack} {calls : List NativeCall} {σ : Store} {sc sc' : Scope}

theorem valueOf_singleton (v : Value) : valueOf [v] = v := rfl

theorem Pushed.single {vs : List Value} {s : State} (h : Pushed a pc locals stack 1 vs s) :
    ∃ v calls, vs = [v] ∧ s = a.state pc locals (v :: stack) calls := by
  obtain ⟨hlen, calls, rfl⟩ := h
  obtain ⟨v, rfl⟩ := List.length_eq_one_iff.mp hlen
  exact ⟨v, calls, rfl, rfl⟩

theorem Pushed.one {v : Value} : Pushed a pc locals stack 1 [v] (a.state pc locals (v :: stack) calls) :=
  ⟨rfl, calls, rfl⟩

/-- An operation on the stack that gives one value. -/
theorem follows_onStack {op : Opcode} {f : Stack → Stack} {v : Value} {stack' : Stack}
    (hi : InstrAt a.func brk cont pc (.plain op)) (hf : op.onStack? = some f)
    (hv : f stack' = v :: stack) :
    Follows r n (a.state pc locals stack' calls) (pure [v]) (Pushed a (pc + 1) locals stack 1) := by
  refine .step (Activation.step_onStack hi.1 hf) rfl (.pure ?_)
  rw [hv]
  exact .one

/-- A call of a function. -/
theorem Serves.follows_call {f : Func} {callee : GoSift.Func} {args : List Value} {size : Nat}
    (h : Serves r n (call callee) callee f) (hlen : args.length = f.numParams)
    (hstep : (a.state pc locals (args.reverse ++ stack) calls).step r =
      .next ⟨.enter f args, a.resume (pc + size) locals :: a.callers, stack, calls⟩) :
    Follows r n (a.state pc locals (args.reverse ++ stack) calls) (P.apply call args (some (.func callee)))
      (Pushed a (pc + size) locals stack 1) := by
  have hone : (a.state pc locals (args.reverse ++ stack) calls).Steps r 1
      ⟨.enter f args, a.resume (pc + size) locals :: a.callers, stack, calls⟩ := ⟨_, hstep, rfl⟩
  have hcall := ((h.follows hlen).steps hone rfl).weaken (by omega : n ≤ n - 1 + 1) fun _ _ h => h
  refine hcall.bind fun v s hreturn => ?_
  exact .step hreturn rfl (.pure .one)

theorem Callee.Coded.follows (hS : Setting P r n call ctx decl fin a) {c : Callee} {i : Instr}
    {sig : Signature} {args : List Value} (h : c.Coded P decl i sig) (hfits : c.Fits)
    (hi : InstrAt a.func brk cont pc i)
    (hlen : args.length = sig.params.length + c.isMethod.toNat) :
    Follows r n (a.state pc locals (args.reverse ++ stack) calls) (P.apply call args (some c))
      (Pushed a (pc + i.size) locals stack sig.results.length) := by
  cases h with
  | length =>
    obtain ⟨v, rfl⟩ := List.length_eq_one_iff.mp hlen
    exact follows_onStack hi rfl rfl
  | self =>
    have hargs : args.length = a.func.numParams := hlen.trans hS.itself.params.symm
    rw [hS.itself.results]
    exact hS.itself.follows_call hargs (Activation.step_callSelf hi.1 hargs)
  | func hd =>
    obtain ⟨f, hf, hserves⟩ := hS.func hd
    have hargs : args.length = f.numParams := hlen.trans hserves.params.symm
    rw [hserves.results]
    exact hserves.follows_call hargs (Activation.step_call hi.1 hi.2.2 hf hargs)
  | @native id f method hf =>
    have hargs : args.length = f.arity := hlen.trans hfits.symm
    obtain ⟨hrun, hresults⟩ := hS.answered id f hf args stack hargs
    rw [← hS.natives] at hf
    have hstep := @Activation.step_callNative r a pc locals stack calls id f args hi.1 hi.2.2 hf hargs
    rw [hrun] at hstep
    exact ⟨1, _, ⟨_, hstep, rfl⟩, rfl, hresults, _, rfl⟩

/-- The values of the parameters, by their places. -/
theorem lastOf?_zip (name : String) (args : List Value) (h : args.length = ctx.params.length) :
    lastOf? name ((ctx.params.map Prod.fst).zip args) =
      (paramSlot? ctx name).map fun slot => args.getD slot.1 .nil := by
  have hzip : (ctx.params.map Prod.fst).zip args =
      ctx.params.zipIdx.map fun p => (p.1.1, args.getD p.2 .nil) := by
    apply List.ext_getElem
    · simp [h]
    · intro i hi hi'
      have hi'' : i < args.length := by simp at hi; omega
      simp [hi'']
  rw [lastOf?, hzip, ← List.map_reverse, List.find?_map]
  simp only [paramSlot?, Option.map_map]
  rfl

theorem Agrees.get_param (hA : Agrees ctx fin a locals σ) (hargs : a.args.length = ctx.params.length)
    {name : String} {i : Nat} {t : Ty} (hp : paramSlot? ctx name = some (i, t)) :
    a.args[i]? = some (σ.get name) := by
  have hi : i < a.args.length := hargs ▸ paramSlot?_lt hp
  simp [Store.get, hA.params, lastOf?_zip name a.args hargs, hp, hi]

theorem Agrees.get_local (hA : Agrees ctx fin a locals σ) (hargs : a.args.length = ctx.params.length)
    (hg : sc.Grows fin) {name : String} {i : Nat} {t : Ty} (hp : paramSlot? ctx name = none)
    (hl : slot? name sc.locals = some (i, t)) : locals[i]? = some (σ.get name) := by
  have hvalue := hA.value (getElem?_extend hg.locals (slot?_eq_some hl))
  rw [hvalue, Store.get, hA.params, lastOf?_zip name a.args hargs, hp]
  rfl

/-- The values of a phrase. -/
def Program.evalPhrase (P : Program) (call : GoSift.Func → List Value → Run Value) (vars : Vars)
    (σ : Store) : Phrase → Run (List Value)
  | .expr x => P.eval call vars σ x
  | .bound x => P.evalBound call vars σ x
  | .args _ xs => P.evalArgs call vars σ xs

/-- What a phrase calls. -/
def Program.phraseCallees (P : Program) (vars : Vars) : Phrase → List Callee
  | .expr x => P.exprCallees vars x
  | .bound x => P.boundCallees vars x
  | .args _ xs => P.argsCallees vars xs

theorem binaryOpcode?_onStack_eq {op : BinaryOp} {t result : Ty} {opcode : Opcode}
    (h : binaryOpcode? op t = some (opcode, result)) :
    opcode.onStack? = some (Stack.map₂ (binaryValue op t t)) := by
  unfold binaryOpcode? at h
  split at h <;> cases h
  case h_17 | h_18 | h_19 | h_20 =>
    refine congrArg (fun f => some (Stack.map₂ f)) (funext fun v => funext fun w => ?_)
    simp [binaryValue, stringValue, Text.bytesOf_lt_iff, ← List.not_lt]
  all_goals rfl

/-- The code of a phrase follows its meaning, wherever it lies and whatever is below on the stack. -/
def CodeFollows (P : Program) (r : Registry) (n : Nat) (call : GoSift.Func → List Value → Run Value)
    (ctx : Context) (fin : Scope) (a : Activation) (vars : Vars) (ph : Phrase) (code : Code)
    (count : Nat) : Prop :=
  ∀ ⦃brk cont pc : Nat⦄ ⦃locals : List Value⦄ ⦃stack : Stack⦄ ⦃calls : List NativeCall⦄ ⦃σ : Store⦄,
    Agrees ctx fin a locals σ → CodeAt a.func brk cont pc code →
    (∀ c ∈ P.phraseCallees vars ph, c.Fits) →
      Follows r n (a.state pc locals stack calls) (P.evalPhrase call vars σ ph)
        (Pushed a (pc + code.size) locals stack count)

theorem ident_follows {pos : Position} {name : String}
    {op : Opcode} {i : Nat} (hv : ctx.isVar sc.locals name = true)
    (hstep : ∀ {pc : Nat} {locals : List Value} {stack : Stack} {calls : List NativeCall} {σ : Store},
      Agrees ctx fin a locals σ → a.func.opcode? pc = some op → (a.func.at pc).index? = some i →
        (a.state pc locals stack calls).step r =
          .next (a.state (pc + 2) locals (σ.get name :: stack) calls)) :
    CodeFollows P r n call ctx fin a (ctx.vars sc) (.expr (.ident pos name)) [.indexed op i] 1 := by
  intro brk cont pc locals stack calls σ hA hcode _
  obtain ⟨⟨hop, -, hi⟩, -⟩ := hcode
  have heval : P.eval call (ctx.vars sc) σ (.ident pos name) = pure [σ.get name] := by
    rw [← isSome_vars_type?, Option.isSome_iff_exists] at hv
    obtain ⟨t, ht⟩ := hv
    simp [Program.eval, ht]
  rw [Program.evalPhrase, heval]
  exact .step (hstep hA hop hi) rfl (.pure .one)

theorem unary_follows {pos : Position} {op : UnaryOp} {x : Expr} {code : Code} {opcode : Opcode}
    {vars : Vars} {f : Value → Value} (hf : opcode.onStack? = some (Stack.map f))
    (hop : ∀ v : Value, (if op = .not then Value.bool !v.asBool else .int (-v.asInt)) = f v)
    (hx : CodeFollows P r n call ctx fin a vars (.expr x) code 1) :
    CodeFollows P r n call ctx fin a vars (.expr (.unary pos op x)) (code ++ [.plain opcode]) 1 := by
  intro brk cont pc locals stack calls σ hA hcode hfits
  rw [codeAt_append, codeAt_cons] at hcode
  obtain ⟨hcode, hi, -⟩ := hcode
  refine (hx hA hcode hfits).bind fun vs s hs => ?_
  obtain ⟨v, calls, rfl, rfl⟩ := hs.single
  have hlast := @follows_onStack r n a brk cont _ locals stack calls opcode _ (f v) (v :: stack) hi hf rfl
  simp only [valueOf_singleton, hop]
  simpa [Instr.size, Nat.add_assoc] using hlast

theorem binary_follows {pos : Position} {op : BinaryOp} {x y : Expr} {left right : Code}
    {opcode : Opcode} {vars : Vars} {t : Ty}
    (hf : opcode.onStack? = some (Stack.map₂ (binaryValue op t t)))
    (hop : op ≠ .logicalAnd ∧ op ≠ .logicalOr) (htx : P.types vars x = [t])
    (hty : P.types vars y = [t]) (hx : CodeFollows P r n call ctx fin a vars (.expr x) left 1)
    (hy : CodeFollows P r n call ctx fin a vars (.expr y) right 1) :
    CodeFollows P r n call ctx fin a vars (.expr (.binary pos op x y))
      (left ++ right ++ [.plain opcode]) 1 := by
  intro brk cont pc locals stack calls σ hA hcode hfits
  rw [codeAt_append, codeAt_append, codeAt_cons] at hcode
  obtain ⟨⟨hleft, hright⟩, hi, -⟩ := hcode
  have hfits' := List.forall_mem_append.mp hfits
  refine (hx hA hleft hfits'.1).bind fun vs s hs => ?_
  obtain ⟨v, calls, rfl, rfl⟩ := hs.single
  have hdecides : decides op v = false := by
    cases op <;> first | rfl | exact (hop.1 rfl).elim | exact (hop.2 rfl).elim
  simp only [valueOf_singleton, hdecides, Bool.false_eq_true, if_false]
  refine (hy hA hright hfits'.2).bind fun ws s hs => ?_
  obtain ⟨w, calls, rfl, rfl⟩ := hs.single
  rw [htx, hty, valueOf_singleton]
  have hlast := @follows_onStack r n a brk cont _ locals stack calls opcode _
    (binaryValue op t t v w) (w :: v :: stack) hi hf rfl
  simpa [Instr.size, Nat.add_assoc, typeOf] using hlast

theorem logical_follows {pos : Position} {op : BinaryOp} {x y : Expr} {left right : Code}
    {vars : Vars} (hop : op = .logicalAnd ∨ op = .logicalOr)
    (hx : CodeFollows P r n call ctx fin a vars (.expr x) left 1)
    (hy : CodeFollows P r n call ctx fin a vars (.expr y) right 1) :
    CodeFollows P r n call ctx fin a vars (.expr (.binary pos op x y))
      (left ++ [.plain .dup, .jump (if op = .logicalAnd then .jumpFalse else .jumpTrue)
        (right.size + 4 : Nat), .plain .pop] ++ right) 1 := by
  intro brk cont pc locals stack calls σ hA hcode hfits
  simp only [codeAt_append, codeAt_cons, Code.size_append, Code.size_cons, Code.size_nil, Instr.size,
    Nat.add_zero, ← Nat.add_assoc] at hcode ⊢
  obtain ⟨⟨hleft, ⟨hdup, -⟩, ⟨hjump, -, htarget⟩, ⟨hpop, -⟩, -⟩, hright⟩ := hcode
  have hfits' := List.forall_mem_append.mp hfits
  refine (hx hA hleft hfits'.1).bind fun vs s hs => ?_
  obtain ⟨v, calls, rfl, rfl⟩ := hs.single
  have hstep : (a.state (pc + left.size) locals (v :: stack) calls).step r =
      .next (a.state (pc + left.size + 1) locals (v :: v :: stack) calls) :=
    Activation.step_onStack (f := fun s => s.pop.1 :: s) hdup rfl
  refine .step hstep rfl ?_
  -- The jump goes past the second operand if the first one decides.
  have hopcode : a.func.opcode? (pc + left.size + 1) =
      some (if decide (op = .logicalOr) then .jumpTrue else .jumpFalse) := by
    rcases hop with rfl | rfl <;> exact hjump
  have hto := htarget (pc + left.size + 1 + (right.size + 4)) (by push_cast; omega)
  refine .step (Activation.step_jumpIf hopcode hto) rfl ?_
  have hdecides : decides op v = true ↔ v.asBool = decide (op = .logicalOr) := by
    rcases hop with rfl | rfl <;> simp [decides]
  rw [valueOf_singleton]
  by_cases hd : decides op v = true
  · rw [if_pos hd, if_pos (hdecides.mp hd)]
    have hend : pc + left.size + 1 + (right.size + 4) = pc + left.size + 1 + 3 + 1 + right.size := by
      omega
    rw [hend]
    exact .pure .one
  · rw [if_neg hd, if_neg (fun h => hd (hdecides.mpr h))]
    refine .step (Activation.step_onStack hpop rfl) rfl ?_
    refine (hy hA hright hfits'.2).bind fun ws s hs => ?_
    obtain ⟨w, calls, rfl, rfl⟩ := hs.single
    have hvalue : ∀ t t', binaryValue op t t' v w = w := by
      intro t t'
      unfold binaryValue
      rw [if_pos hop]
    simp only [valueOf_singleton, hvalue]
    exact .pure .one

theorem isNil_eval {x : Expr} (h : ctx.isNil sc.locals x = true) :
    P.eval call (ctx.vars sc) σ x = pure [.nil] ∧ P.types (ctx.vars sc) x = [.nil] := by
  unfold Context.isNil at h
  split at h
  · next pos =>
    have hnone : (ctx.vars sc).type? "nil" = none := vars_type?_eq_none.mpr (by simpa using h)
    simp [Program.eval, Program.types, hnone, namedConstant?]
  · cases h

theorem nilInstr_onStack {op : BinaryOp} :
    ∃ opcode, nilInstr op = .plain opcode ∧ opcode.onStack? = some (Stack.map (nilValue op)) := by
  by_cases h : op = .eq
  · exact ⟨.isNil, by simp [nilInstr, h], by rw [h]; rfl⟩
  · refine ⟨.isNotNil, by simp [nilInstr, h], congrArg (fun f => some (Stack.map f)) ?_⟩
    funext v
    rw [nilValue, if_neg h]

theorem nilTest_follows {pos : Position} {op : BinaryOp} {x y z : Expr} {code : Code} {t : Ty}
    (hz : ctx.nilOperand? sc.locals op x y = some z) (ht : P.types (ctx.vars sc) z = [t])
    (hn : t ≠ .nil) (hx : CodeFollows P r n call ctx fin a (ctx.vars sc) (.expr z) code 1) :
    CodeFollows P r n call ctx fin a (ctx.vars sc) (.expr (.binary pos op x y))
      (code ++ [nilInstr op]) 1 := by
  intro brk cont pc locals stack calls σ hA hcode hfits
  rw [codeAt_append, codeAt_cons] at hcode
  obtain ⟨hcode, hi, -⟩ := hcode
  have hfits' := List.forall_mem_append.mp hfits
  have hop : ∀ v, decides op v = false := by
    rcases eq_or_ne_of_nilOperand? hz with rfl | rfl <;> exact fun _ => rfl
  have hlogical : ¬(op = .logicalAnd ∨ op = .logicalOr) := by
    rcases eq_or_ne_of_nilOperand? hz with rfl | rfl <;> simp
  obtain ⟨opcode, hinstr, hstack⟩ := @nilInstr_onStack op
  rw [hinstr] at hi ⊢
  -- The operand that is left out is `nil`, so evaluating both is evaluating the other one.
  have heval : P.eval call (ctx.vars sc) σ (.binary pos op x y) = (do
      let v ← P.eval call (ctx.vars sc) σ z
      return [nilValue op (valueOf v)]) ∧ ∀ c ∈ P.exprCallees (ctx.vars sc) z, c.Fits := by
    unfold Context.nilOperand? at hz
    split at hz
    · next hnil =>
      cases hz
      split at ht
      · next hy =>
        obtain ⟨hy, hyt⟩ := @isNil_eval P call ctx σ sc y hy
        rw [if_pos ‹_›]
        refine ⟨?_, hfits'.1⟩
        simp [Program.eval, hop, hy, hyt, binaryValue, hlogical, typeOf]
      · next hy =>
        have hx : ctx.isNil sc.locals x = true := by
          simp only [Bool.and_eq_true, Bool.or_eq_true] at hnil
          exact hnil.2.resolve_right hy
        obtain ⟨hx, hxt⟩ := @isNil_eval P call ctx σ sc x hx
        rw [if_neg hy]
        refine ⟨?_, hfits'.2⟩
        simp [Program.eval, hop, hx, hxt, ht, binaryValue, hlogical, typeOf, hn]
    · cases hz
  rw [Program.evalPhrase, heval.1]
  refine (hx hA hcode heval.2).bind fun vs s hs => ?_
  obtain ⟨v, calls, rfl, rfl⟩ := hs.single
  have hlast := @follows_onStack r n a brk cont _ locals stack calls opcode _ (nilValue op v)
    (v :: stack) hi hstack rfl
  simpa [Instr.size, Nat.add_assoc, valueOf_singleton] using hlast

theorem noBound_follows {vars : Vars} : CodeFollows P r n call ctx fin a vars (.bound none) [] 0 := by
  intro brk cont pc locals stack calls σ _ _ _
  exact .pure ⟨rfl, calls, rfl⟩

theorem call_follows (hS : Setting P r n call ctx decl fin a) {pos : Position} {fn : Expr}
    {xs : List Expr} {receiver code : Code} {instr : Instr} {sig : Signature} {c : Callee}
    {vars : Vars} (hcallee : P.calleeOf? vars fn = some c) (hcoded : c.Coded P decl instr sig)
    (hx : CodeFollows P r n call ctx fin a vars (.bound (vars.receiver? fn)) receiver
      c.isMethod.toNat)
    (hxs : CodeFollows P r n call ctx fin a vars (.args sig.params xs) code sig.params.length) :
    CodeFollows P r n call ctx fin a vars (.expr (.call pos fn xs false))
      (receiver ++ code ++ [instr]) sig.results.length := by
  intro brk cont pc locals stack calls σ hA hcode hfits
  rw [codeAt_append, codeAt_append, codeAt_cons] at hcode
  obtain ⟨⟨hreceiver, hcode⟩, hi, -⟩ := hcode
  rw [Program.phraseCallees, Program.exprCallees_call, hcallee] at hfits
  obtain ⟨hfits, hfitsCallee⟩ := List.forall_mem_append.mp hfits
  obtain ⟨hfitsReceiver, hfitsArgs⟩ := List.forall_mem_append.mp hfits
  rw [Program.evalPhrase, Program.eval_call]
  refine (hx hA hreceiver hfitsReceiver).bind fun vs s hs => ?_
  obtain ⟨hvs, calls, rfl⟩ := hs
  refine (hxs hA hcode hfitsArgs).bind fun ws s hs => ?_
  obtain ⟨hws, calls, rfl⟩ := hs
  have hlen : (vs ++ ws).length = sig.params.length + c.isMethod.toNat := by
    rw [List.length_append, hvs, hws, Nat.add_comm]
  have hlast := @Callee.Coded.follows P r n call ctx decl fin a brk cont _ locals stack calls hS c
    instr sig (vs ++ ws) hcoded (hfitsCallee c (by simp)) hi hlen
  rw [hcallee]
  simpa [Nat.add_assoc] using hlast

theorem slice_follows {pos : Position} {x : Expr} {low high : Option Expr} {full : Bool}
    {code lowCode highCode : Code} {vars : Vars}
    (hx : CodeFollows P r n call ctx fin a vars (.expr x) code 1)
    (hl : CodeFollows P r n call ctx fin a vars (.bound low) lowCode low.isSome.toNat)
    (hh : CodeFollows P r n call ctx fin a vars (.bound high) highCode high.isSome.toNat) :
    CodeFollows P r n call ctx fin a vars (.expr (.slice pos x low high none full))
      (code ++ lowCode ++ highCode ++ sliceInstrs low.isSome high.isSome) 1 := by
  intro brk cont pc locals stack calls σ hA hcode hfits
  simp only [codeAt_append] at hcode
  obtain ⟨⟨⟨hcode, hlow⟩, hhigh⟩, hinstr⟩ := hcode
  obtain ⟨hfits, hfitsHigh⟩ := List.forall_mem_append.mp hfits
  obtain ⟨hfitsString, hfitsLow⟩ := List.forall_mem_append.mp hfits
  refine (hx hA hcode hfitsString).bind fun vs s hs => ?_
  obtain ⟨v, calls, rfl, rfl⟩ := hs.single
  refine (hl hA hlow hfitsLow).bind fun ls s hs => ?_
  obtain ⟨hls, calls, rfl⟩ := hs
  rw [Code.size_append, ← Nat.add_assoc] at hhigh
  refine (hh hA hhigh hfitsHigh).bind fun hs s hpushed => ?_
  obtain ⟨hhs, calls, rfl⟩ := hpushed
  rw [valueOf_singleton]
  simp only [Code.size_append, ← Nat.add_assoc] at hinstr ⊢
  cases low <;> cases high
  · obtain rfl := List.length_eq_zero_iff.mp hls
    obtain rfl := List.length_eq_zero_iff.mp hhs
    exact .pure .one
  · obtain rfl := List.length_eq_zero_iff.mp hls
    obtain ⟨h, rfl⟩ := List.length_eq_one_iff.mp hhs
    exact follows_onStack hinstr.1 rfl rfl
  · obtain ⟨l, rfl⟩ := List.length_eq_one_iff.mp hls
    obtain rfl := List.length_eq_zero_iff.mp hhs
    exact follows_onStack hinstr.1 rfl rfl
  · obtain ⟨l, rfl⟩ := List.length_eq_one_iff.mp hls
    obtain ⟨h, rfl⟩ := List.length_eq_one_iff.mp hhs
    exact follows_onStack hinstr.1 rfl rfl

theorem Emits.length_args {types ts : List Ty} {xs : List Expr} {code : Code}
    (h : Emits ctx sc (.args types xs) code ts sc') : ts.length = types.length := by
  induction types generalizing sc xs code ts with
  | nil =>
    cases h
    rfl
  | cons t types ih =>
    cases h with
    | arg _ _ hxs => exact congrArg (· + 1) (ih hxs)

theorem Emits.length_bound {x : Option Expr} {ts : List Ty} {code : Code}
    (h : Emits ctx sc (.bound x) code ts sc') : ts.length = x.isSome.toNat := by
  cases h <;> rfl

/-- The code of a phrase follows its meaning. -/
theorem Emits.follows (hS : Setting P r n call ctx decl fin a) {ph : Phrase} {code : Code}
    {ts : List Ty} (h : Emits ctx sc ph code ts sc') (hg : sc'.Grows fin) :
    CodeFollows P r n call ctx fin a (ctx.vars sc) ph code ts.length := by
  have hc := hS.context
  induction h with
  | param hp =>
    refine ident_follows (by simp [Context.isVar, hp]) fun hA hop hi => ?_
    exact Activation.step_pushParam hop hi (hA.get_param hS.args hp)
  | var hp hl =>
    refine ident_follows (by simp [Context.isVar, hl]) fun hA hop hi => ?_
    exact Activation.step_pushLocal hop hi (hA.get_local hS.args hg hp hl)
  | const hv hk =>
    intro brk cont pc locals stack calls σ _ hcode _
    obtain ⟨v, hv', hstack⟩ := namedConstant?_of_constant? hk
    simp only [Program.evalPhrase, Program.eval, vars_type?_eq_none.mpr hv, hv']
    exact follows_onStack hcode.1 hstack rfl
  | lit hl hi =>
    intro brk cont pc locals stack calls σ _ hcode _
    obtain ⟨⟨hop, -, hindex⟩, -⟩ := hcode
    have hvalue := getElem?_extend hg.constants hi.value
    simp only [Program.evalPhrase, Program.eval, (literal_of_literal? hl).1]
    refine .step (Activation.step_pushConst hop hindex ?_) rfl (.pure .one)
    rw [hS.constants, List.getElem?_toArray, hvalue]
  | paren _ ih => exact ih hg
  | not _ ih => exact unary_follows (f := fun v => .bool !v.asBool) rfl (fun _ => rfl) (ih hg)
  | neg _ ih => exact unary_follows (f := fun v => .int (-v.asInt)) rfl (fun _ => rfl) (ih hg)
  | logical hop hx hy _ ihx ihy =>
    have ihy := ihy hg
    rw [hx.vars_eq] at ihy
    exact logical_follows hop (ihx (hy.grows.trans hg)) ihy
  | nilTest hz hx _ hn ih => exact nilTest_follows hz (hx.types_eq hc rfl) hn (ih hg)
  | binary _ hx hy ho ihx ihy =>
    have ihy := ihy hg
    have hty := hy.types_eq hc rfl
    rw [hx.vars_eq] at ihy hty
    refine binary_follows (binaryOpcode?_onStack_eq ho) ?_ (hx.types_eq hc rfl) hty
      (ihx (hy.grows.trans hg)) ihy
    constructor <;> rintro rfl <;> cases ho
  | @call sc _ _ _ _ _ _ _ _ hf hxs ih =>
    obtain ⟨hreceiver, c, hcallee, hcoded, hmethod⟩ := direct?_coded hc hf
    have ih := ih hg
    rw [hxs.length_args] at ih
    have hnone := @noBound_follows P r n call ctx fin a (ctx.vars sc)
    rw [← hreceiver, ← Bool.toNat_false, ← hmethod] at hnone
    exact call_follows hS hcallee hcoded hnone ih
  | method hf hx hm hxs ihx ihxs =>
    obtain ⟨hreceiver, c, hcallee, hcoded, hmethod⟩ := method?_coded hc hf hm (hx.types_eq hc rfl)
    have ihxs := ihxs hg
    rw [hxs.length_args, hx.vars_eq] at ihxs
    refine call_follows hS hcallee hcoded ?_ ihxs
    rw [hreceiver, hmethod]
    exact ihx (hxs.grows.trans hg)
  | slice hx hl hh ihx ihl ihh =>
    have ihl := ihl (hh.grows.trans hg)
    have ihh := ihh hg
    rw [hl.length_bound, hx.vars_eq] at ihl
    rw [hh.length_bound, hl.vars_eq, hx.vars_eq] at ihh
    exact slice_follows (ihx ((hl.moreConstants.trans hh.moreConstants).scope_grows.trans hg)) ihl ihh
  | noBound => exact noBound_follows
  | bound _ ih => exact ih hg
  | noArgs =>
    intro brk cont pc locals stack calls σ _ _ _
    exact .pure ⟨rfl, calls, rfl⟩
  | arg hx _ hxs ihx ihxs =>
    intro brk cont pc locals stack calls σ hA hcode hfits
    obtain ⟨hcode, hrest⟩ := codeAt_append.mp hcode
    have hfits' := List.forall_mem_append.mp hfits
    have ihxs := ihxs hg
    rw [hx.vars_eq] at ihxs
    refine (ihx (hxs.grows.trans hg) hA hcode hfits'.1).bind fun vs s hs => ?_
    obtain ⟨hvs, calls, rfl⟩ := hs
    refine (ihxs hA hrest hfits'.2).map fun ws s hs => ?_
    obtain ⟨hws, calls, rfl⟩ := hs
    refine ⟨?_, calls, ?_⟩
    · rw [List.length_append, hvs, hws]
      exact Nat.add_comm 1 _
    · simp [Nat.add_assoc]

end

end GoSift.Filter
