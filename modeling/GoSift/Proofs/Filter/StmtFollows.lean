import GoSift.Proofs.Filter.ControlFlow
import GoSift.Proofs.Filter.ExprFollows

/-!
The code of a statement follows its meaning. It leaves the stack as it was, and the machine goes on
where the flow of the statement leads: behind it, behind the loop around it, to the next round of that
loop, or out of the function.
-/
namespace GoSift.Filter

open Compiler

/-- What running a clause means. -/
def Program.execClause (P : Program) (call : GoSift.Func → List Value → Run Value) (fuel : Nat)
    (vars : Vars) : Clause → Store → Run (Flow × Store)
  | .one s => P.exec call fuel vars s
  | .opt s => P.execOpt call fuel vars s
  | .many ss => P.execMany call fuel vars ss

/-- What a clause calls. -/
def Program.clauseCallees (P : Program) (vars : Vars) : Clause → List Callee
  | .one s => P.stmtCallees vars s
  | .opt s => P.optCallees vars s
  | .many ss => P.manyCallees vars ss

/-- Where the machine is behind a clause, by the flow. Control does not go past a terminating clause,
and only a clause with a `break` leaves the loop around it. -/
inductive Lands (r : Registry) (ctx : Context) (fin : Scope) (a : Activation) (l : Bool) (c : Clause)
    (brk cont stop : Nat) (stack : Stack) : Flow × Store → State → Prop
  | next {σ : Store} {locals : List Value} {calls : List NativeCall} (ht : c.terminates = false)
      (hA : Agrees ctx fin a locals σ) :
      Lands r ctx fin a l c brk cont stop stack (.next, σ) (a.state stop locals stack calls)
  | break_ {σ : Store} {locals : List Value} {calls : List NativeCall} (hl : l) (hb : c.breaks)
      (hA : Agrees ctx fin a locals σ) :
      Lands r ctx fin a l c brk cont stop stack (.break_, σ) (a.state brk locals stack calls)
  | continue_ {σ : Store} {locals : List Value} {calls : List NativeCall} (hl : l)
      (hA : Agrees ctx fin a locals σ) :
      Lands r ctx fin a l c brk cont stop stack (.continue_, σ) (a.state cont locals stack calls)
  | ret {σ : Store} {v : Value} {s : State} (h : Returns r a.callers stack v s) :
      Lands r ctx fin a l c brk cont stop stack (.ret v, σ) s

/-- The code of a clause follows its meaning, wherever it lies. -/
def ClauseFollows (P : Program) (r : Registry) (n : Nat)
    (call : GoSift.Func → List Value → Run Value) (ctx : Context) (fin : Scope) (a : Activation)
    (l : Bool) (vars : Vars) (c : Clause) (code : Code) : Prop :=
  ∀ ⦃brk cont pc : Nat⦄ ⦃locals : List Value⦄ ⦃stack : Stack⦄ ⦃calls : List NativeCall⦄ ⦃σ : Store⦄,
    Agrees ctx fin a locals σ → CodeAt a.func brk cont pc code →
    (∀ c' ∈ P.clauseCallees vars c, c'.Fits) →
      Follows r n (a.state pc locals stack calls) (P.execClause call n vars c σ)
        (Lands r ctx fin a l c brk cont (pc + code.size) stack)

section

variable {P : Program} {r : Registry} {n : Nat} {call : GoSift.Func → List Value → Run Value}
  {ctx : Context} {decl : GoSift.Func} {fin : Scope} {a : Activation} {l : Bool}
  {brk cont pc stop : Nat} {locals : List Value} {stack : Stack} {calls : List NativeCall} {σ : Store}
  {sc sc' : Scope} {c c' : Clause}

theorem Lands.weaken {out : Flow × Store} {s : State} (h : Lands r ctx fin a l c brk cont stop stack out s)
    (ht : c.terminates = false → c'.terminates = false) (hb : c.breaks → c'.breaks) :
    Lands r ctx fin a l c' brk cont stop stack out s := by
  cases h with
  | next hf hA => exact .next (ht hf) hA
  | break_ hl hbr hA => exact .break_ hl (hb hbr) hA
  | continue_ hl hA => exact .continue_ hl hA
  | ret h => exact .ret h

theorem Follows.andThen {s : State} {first : Run (Flow × Store)} {rest : Store → Run (Flow × Store)}
    {pc : Nat} (h : Follows r n s first (Lands r ctx fin a l c brk cont pc stack))
    (hb : c.breaks → c'.breaks)
    (hrest : ∀ {locals : List Value} {calls : List NativeCall} {σ : Store}, c.terminates = false →
      Agrees ctx fin a locals σ →
        Follows r n (a.state pc locals stack calls) (rest σ)
          (Lands r ctx fin a l c' brk cont stop stack)) :
    Follows r n s (Program.andThen first rest) (Lands r ctx fin a l c' brk cont stop stack) := by
  refine h.bind fun out s hlands => ?_
  cases hlands with
  | next ht hA => exact hrest ht hA
  | break_ hl hbr hA => exact .pure (.break_ hl (hb hbr) hA)
  | continue_ hl hA => exact .pure (.continue_ hl hA)
  | ret h => exact .pure (.ret h)

/-- Assigning to a local keeps the values in agreement, since the locals have different names. -/
theorem Agrees.set (hA : Agrees ctx fin a locals σ) (hw : fin.WellFormed) {i : Nat} {name : String}
    {t : Ty} (hi : fin.locals[i]? = some (name, t)) (v : Value) :
    Agrees ctx fin a (locals.set i v) (σ.set name v) where
  params := hA.params
  length := by rw [List.length_set, hA.length]
  value := by
    intro j name' t' hj
    rw [List.getElem?_set]
    by_cases hij : i = j
    · subst hij
      rw [hi] at hj
      cases hj
      have hlt : i < locals.length := by
        have := lt_length_of_getElem? hi
        have := hw.locals
        have := hA.length
        omega
      simp [Store.set, hlt]
    · have hne : name' ≠ name := by
        rintro rfl
        apply hij
        have hlt : i < (fin.locals.map Prod.fst).length := by
          rw [List.length_map]
          exact lt_length_of_getElem? hi
        exact (List.getElem?_inj hlt hw.distinct).mp (by simp [hi, hj])
      rw [if_neg hij, hA.value hj]
      simp [Store.set, hne]

theorem Stores.follows (hw : fin.WellFormed) {x : Expr} {t : Ty} {define : Bool} {code : Code}
    (h : Stores ctx sc x t define code sc') (hg : sc'.Grows fin) (hA : Agrees ctx fin a locals σ)
    (hcode : CodeAt a.func brk cont pc code) (v : Value) :
    ∃ locals', (a.state pc locals (v :: stack) calls).step r =
        .next (a.state (pc + code.size) locals' stack calls) ∧
      Agrees ctx fin a locals' (σ.assign x v) := by
  cases h with
  | discard => exact ⟨locals, Activation.step_onStack hcode.1.1 rfl, hA⟩
  | @declare _ name t hn _ _ =>
    have hi : fin.locals[sc.locals.length]? = some (name, t) :=
      getElem?_extend hg.locals List.getElem?_concat_length
    refine ⟨_, Activation.step_setLocal hcode.1.1 hcode.1.2.2 (hA.value hi), ?_⟩
    simpa [Store.assign, hn] using hA.set hw hi v
  | @assign _ name i _ t' hn _ hl _ =>
    have hi : fin.locals[i]? = some (name, t') := getElem?_extend hg.locals (slot?_eq_some hl)
    refine ⟨_, Activation.step_setLocal hcode.1.1 hcode.1.2.2 (hA.value hi), ?_⟩
    simpa [Store.assign, hn] using hA.set hw hi v

/-- A test with the jump that is taken if it fails. -/
theorem Emits.follows_test (hS : Setting P r n call ctx decl fin a) {x : Expr} {code : Code}
    {offset : Int} {t : Nat} (hx : Emits ctx sc (.expr x) code [.bool] sc') (hg : sc'.Grows fin)
    (hA : Agrees ctx fin a locals σ) (hcode : CodeAt a.func brk cont pc code)
    (hjump : InstrAt a.func brk cont (pc + code.size) (.jump .jumpFalse offset))
    (ht : (t : Int) = (pc + code.size : Nat) + offset)
    (hfits : ∀ c ∈ P.exprCallees (ctx.vars sc) x, c.Fits) :
    Follows r n (a.state pc locals stack calls) (P.evalTest call (ctx.vars sc) σ (some x))
      fun b s => ∃ calls, s = a.state (if b then pc + code.size + 3 else t) locals stack calls := by
  refine (hx.follows hS hg hA hcode hfits).bind fun vs s hs => ?_
  obtain ⟨v, calls, rfl, rfl⟩ := hs.single
  have hstep := @Activation.step_jumpIf r a (pc + code.size) locals stack calls false t v hjump.1
    (hjump.2.2 t ht)
  refine .step hstep rfl (.pure ⟨calls, ?_⟩)
  rw [valueOf_singleton]
  cases v.asBool <;> rfl

theorem EmitsTest.follows (hS : Setting P r n call ctx decl fin a) {test : Option Expr}
    {code : Option Code} {body post : Code} (h : EmitsTest ctx sc test code sc') (hg : sc'.Grows fin)
    (hA : Agrees ctx fin a locals σ) (hcode : CodeAt a.func brk cont pc (loopFront code body post))
    (hfits : ∀ c ∈ P.boundCallees (ctx.vars sc) test, c.Fits) :
    Follows r n (a.state pc locals stack calls) (P.evalTest call (ctx.vars sc) σ test)
      fun b s => (b = false → test.isSome) ∧ ∃ calls, s = a.state
        (if b then pc + (loopFront code body post).size
          else pc + (loopFront code body post).size + body.size + post.size + 3)
        locals stack calls := by
  cases h with
  | none => exact .pure ⟨by simp, calls, rfl⟩
  | @some _ x code hx =>
    simp only [loopFront, codeAt_append, codeAt_singleton, Code.size_append, Code.size_singleton,
      Instr.size, ← Nat.add_assoc] at hcode ⊢
    have hend : ((pc + code.size + 3 + body.size + post.size + 3 : Nat) : Int)
        = (pc + code.size : Nat) + (body.size + post.size + 6 : Nat) := by omega
    refine (hx.follows_test hS hg hA hcode.1 hcode.2 hend hfits).mono fun b s hs => ?_
    exact ⟨fun _ => rfl, hs⟩

theorem iterate_follows {test : Store → Run Bool} {body post : Store → Run (Flow × Store)}
    {start front behind back : Nat} {cb cp : Clause}
    (htest : ∀ {locals : List Value} {calls : List NativeCall} {σ : Store}, Agrees ctx fin a locals σ →
      Follows r n (a.state start locals stack calls) (test σ) fun b s =>
        (b = false → c.terminates = false) ∧
          ∃ calls, s = a.state (if b then front else stop) locals stack calls)
    (hbody : ∀ {locals : List Value} {calls : List NativeCall} {σ : Store}, Agrees ctx fin a locals σ →
      Follows r n (a.state front locals stack calls) (body σ)
        (Lands r ctx fin a true cb stop behind behind stack))
    (hpost : ∀ {locals : List Value} {calls : List NativeCall} {σ : Store}, Agrees ctx fin a locals σ →
      Follows r n (a.state behind locals stack calls) (post σ)
        (Lands r ctx fin a l cp brk cont back stack))
    (hback : ∀ {locals : List Value} {calls : List NativeCall},
      (a.state back locals stack calls).step r = .next (a.state start locals stack calls))
    (hb : cb.breaks → c.terminates = false) (hp : cp.breaks = false) {m : Nat} (hm : m ≤ n)
    (hA : Agrees ctx fin a locals σ) :
    Follows r m (a.state start locals stack calls) (Program.iterate test body post m σ)
      (Lands r ctx fin a l c brk cont stop stack) := by
  -- Each round makes the step back, so that a loop without fuel has made as many steps as it had.
  induction m generalizing locals calls σ with
  | zero => exact .failure
  | succ m ih =>
    have hagain : ∀ {locals : List Value} {calls : List NativeCall} {σ : Store},
        Agrees ctx fin a locals σ → Follows r (m + 1) (a.state behind locals stack calls)
          (Program.andThen (post σ) (Program.iterate test body post m))
          (Lands r ctx fin a l c brk cont stop stack) := by
      intro locals calls σ hA
      refine ((hpost hA).weaken hm fun _ _ h => h).bind fun out s hlands => ?_
      cases hlands with
      | next _ hA => exact (ih (by omega) hA).steps ⟨_, hback, rfl⟩ rfl
      | break_ _ hbr _ => rw [hp] at hbr; cases hbr
      | continue_ hl hA => exact .pure (.continue_ hl hA)
      | ret h => exact .pure (.ret h)
    refine ((htest hA).weaken hm fun _ _ h => h).bind fun b s hs => ?_
    obtain ⟨hfalse, calls, rfl⟩ := hs
    cases b with
    | false => exact .pure (.next (hfalse rfl) hA)
    | true =>
      refine ((hbody hA).weaken hm fun _ _ h => h).bind fun out s hlands => ?_
      cases hlands with
      | next _ hA => exact hagain hA
      | break_ _ hbr hA => exact .pure (.next (hb hbr) hA)
      | continue_ _ hA => exact hagain hA
      | ret h => exact .pure (.ret h)

/-- Dropping what was pushed. -/
theorem follows_pops {α : Type} {m : Run α} {fits : α → State → Prop} {types : List Ty}
    {vs : List Value} (hlen : vs.length = types.length)
    (hcode : CodeAt a.func brk cont pc (types.map fun _ => .plain .pop))
    (h : Follows r n (a.state (pc + Code.size (types.map fun _ => .plain .pop)) locals stack calls) m
      fits) : Follows r n (a.state pc locals (vs ++ stack) calls) m fits := by
  induction types generalizing pc vs with
  | nil =>
    obtain rfl := List.length_eq_zero_iff.mp hlen
    exact h
  | cons t types ih =>
    cases vs with
    | nil => cases hlen
    | cons v vs =>
      rw [List.map_cons, codeAt_cons] at hcode
      rw [List.map_cons, Code.size_cons, ← Nat.add_assoc] at h
      exact .step (Activation.step_onStack hcode.1.1 rfl) rfl (ih (Nat.succ.inj hlen) hcode.2 h)

theorem returns_top (hi : InstrAt a.func brk cont pc (.plain .returnTop)) (v : Value) :
    Returns r a.callers stack v (a.state pc locals (v :: stack) calls) :=
  Activation.step_returnTop hi.1

theorem returns_bool {b : Bool} (hi : InstrAt a.func brk cont pc (boolReturn b)) :
    Returns r a.callers stack (.bool b) (a.state pc locals stack calls) :=
  Activation.step_returnBool hi.1

theorem fits_single {vars : Vars} {x : Expr} (h : ∀ c ∈ P.argsCallees vars [x], c.Fits) :
    ∀ c ∈ P.exprCallees vars x, c.Fits :=
  (List.forall_mem_append.mp h).1

theorem assign_follows (hS : Setting P r n call ctx decl fin a) {p : Position} {op : AssignOp}
    {target value : Expr} {code store : Code} {t : Ty} {sc₁ : Scope}
    (hop : op = .assign ∨ op = .define) (hx : Emits ctx sc (.expr value) code [t] sc₁)
    (hs : Stores ctx sc₁ target t (op = .define) store sc') (hg : sc'.Grows fin) :
    ClauseFollows P r n call ctx fin a l (ctx.vars sc) (.one (.assign p [target] op [value]))
      (code ++ store) := by
  intro brk cont pc locals stack calls σ hA hcode hfits
  rw [codeAt_append] at hcode
  have hexec : P.execClause call n (ctx.vars sc) (.one (.assign p [target] op [value])) σ = (do
      let v ← P.eval call (ctx.vars sc) σ value
      return (.next, σ.assign target (valueOf v))) := by
    rcases hop with rfl | rfl <;> cases target <;> rfl
  rw [hexec]
  have hfits := fits_single hfits
  refine (hx.follows hS (hs.grows.trans hg) hA hcode.1 hfits).bind fun vs s hpushed => ?_
  obtain ⟨v, calls, rfl, rfl⟩ := hpushed.single
  obtain ⟨locals', hstep, hA'⟩ := hs.follows hS.wellFormed hg hA hcode.2 v
  rw [Code.size_append, ← Nat.add_assoc]
  exact .step hstep rfl (.pure (.next rfl hA'))

theorem assignTwo_follows (hS : Setting P r n call ctx decl fin a) {p pos : Position} {op : AssignOp}
    {first second fn : Expr} {xs : List Expr} {spread : Bool} {code store₁ store₂ : Code} {t t' : Ty}
    {sc₁ sc₂ : Scope} (hop : op = .assign ∨ op = .define)
    (hx : Emits ctx sc (.expr (.call pos fn xs spread)) code [t, t'] sc₁)
    (hs₂ : Stores ctx sc₁ second t' (op = .define) store₂ sc₂)
    (hs₁ : Stores ctx sc₂ first t (op = .define) store₁ sc') (hg : sc'.Grows fin) :
    ClauseFollows P r n call ctx fin a l (ctx.vars sc)
      (.one (.assign p [first, second] op [.call pos fn xs spread])) (code ++ store₂ ++ store₁) := by
  intro brk cont pc locals stack calls σ hA hcode hfits
  rw [codeAt_append, codeAt_append] at hcode
  obtain ⟨⟨hcode, hcode₂⟩, hcode₁⟩ := hcode
  obtain ⟨store, hexec, hstore⟩ : ∃ store : List Value → Run (Flow × Store),
      P.execClause call n (ctx.vars sc) (.one (.assign p [first, second] op [.call pos fn xs spread])) σ =
        P.eval call (ctx.vars sc) σ (.call pos fn xs spread) >>= store ∧
      ∀ v w, store [v, w] = pure (.next, (σ.assign second w).assign first v) := by
    rcases hop with rfl | rfl <;> cases first <;> exact ⟨_, rfl, fun _ _ => rfl⟩
  rw [hexec]
  have hfits := fits_single hfits
  have hg₂ := hs₁.grows.trans hg
  refine (hx.follows hS (hs₂.grows.trans hg₂) hA hcode hfits).bind fun vs s hpushed => ?_
  obtain ⟨hlen, calls, rfl⟩ := hpushed
  obtain ⟨v, w, rfl⟩ := List.length_eq_two.mp hlen
  obtain ⟨locals₂, hstep₂, hA₂⟩ := hs₂.follows hS.wellFormed hg₂ hA hcode₂ w
  rw [Code.size_append, ← Nat.add_assoc] at hcode₁
  obtain ⟨locals₁, hstep₁, hA₁⟩ := hs₁.follows hS.wellFormed hg hA₂ hcode₁ v
  rw [Code.size_append, Code.size_append, ← Nat.add_assoc, ← Nat.add_assoc, hstore]
  exact .step hstep₂ rfl (.step hstep₁ rfl (.pure (.next rfl hA₁)))

theorem update_follows (hS : Setting P r n call ctx decl fin a) {p pos : Position} {op : BinaryOp}
    {name : String} {value : Expr} {code : Code} {i : Nat} {t result : Ty} {opcode : Opcode}
    (hp : paramSlot? ctx name = none) (hl : slot? name sc.locals = some (i, t))
    (hx : Emits ctx sc (.expr value) code [t] sc')
    (ho : binaryOpcode? op t = some (opcode, result)) (hg : sc'.Grows fin) :
    ClauseFollows P r n call ctx fin a l (ctx.vars sc)
      (.one (.assign p [.ident pos name] (.update op) [value]))
      ([.indexed .pushLocal i] ++ code ++ [.plain opcode, .indexed .setLocal i]) := by
  intro brk cont pc locals stack calls σ hA hcode hfits
  simp only [codeAt_append, codeAt_cons, codeAt_nil, and_true, Code.size_append, Code.size_cons,
    Code.size_nil, Instr.size, ← Nat.add_assoc, Nat.add_zero] at hcode ⊢
  obtain ⟨⟨hpush, hcode⟩, hop, hset⟩ := hcode
  have hscope := hx.grows.trans hg
  have hget := hA.get_local hS.args hscope hp hl
  refine .step (Activation.step_pushLocal hpush.1 hpush.2.2 hget) rfl ?_
  refine (hx.follows hS hg hA hcode (fits_single hfits)).bind fun vs s hpushed => ?_
  obtain ⟨w, calls, rfl, rfl⟩ := hpushed.single
  refine .step (Activation.step_onStack hop.1 (binaryOpcode?_onStack_eq ho)) rfl ?_
  have hi : fin.locals[i]? = some (name, t) := getElem?_extend hscope.locals (slot?_eq_some hl)
  refine .step (Activation.step_setLocal hset.1 hset.2.2 (hA.value hi)) rfl (.pure ?_)
  have ht : (ctx.vars sc).type? name = some t := by simp [vars_type?_eq, hp, hl]
  simp only [ht, Option.getD_some, valueOf_singleton]
  exact .next rfl (hA.set hS.wellFormed hi _)

theorem step_follows (hS : Setting P r n call ctx decl fin a) {p pos : Position} {name : String}
    {up : Bool} {i : Nat} (hp : paramSlot? ctx name = none)
    (hl : slot? name sc.locals = some (i, .int)) (hg : sc.Grows fin) :
    ClauseFollows P r n call ctx fin a l (ctx.vars sc) (.one (.incDec p (.ident pos name) up))
      [.indexed (if up then .incLocal else .decLocal) i] := by
  intro brk cont pc locals stack calls σ hA hcode _
  obtain ⟨⟨hop, -, hindex⟩, -⟩ := hcode
  have hget := hA.get_local hS.args hg hp hl
  refine .step (Activation.step_stepLocal hop hindex hget) rfl (.pure ?_)
  exact .next rfl (hA.set hS.wellFormed (getElem?_extend hg.locals (slot?_eq_some hl)) _)

theorem cond_follows (hS : Setting P r n call ctx decl fin a) {p : Position} {init : Option Stmt}
    {test : Expr} {body : Stmt} {initCode testCode bodyCode : Code} {sc₁ sc₂ : Scope}
    (hi : ClauseFollows P r n call ctx fin a l (ctx.vars sc) (.opt init) initCode)
    (ht : Emits ctx sc₁ (.expr test) testCode [.bool] sc₂) (hg : sc₂.Grows fin)
    (hb : ClauseFollows P r n call ctx fin a l (ctx.vars sc₂) (.one body) bodyCode)
    (hvars : ctx.vars sc₁ = P.declaredOpt (ctx.vars sc) init)
    (hr : (Clause.one (.cond p init test body none)).Headed) :
    ClauseFollows P r n call ctx fin a l (ctx.vars sc) (.one (.cond p init test body none))
      (initCode ++ testCode ++ [.jump .jumpFalse (bodyCode.size + 3 : Nat)] ++ bodyCode) := by
  intro brk cont pc locals stack calls σ hA hcode hfits
  simp only [codeAt_append, codeAt_singleton, Code.size_append, Code.size_singleton, Instr.size,
    ← Nat.add_assoc] at hcode ⊢
  obtain ⟨⟨⟨hci, hct⟩, hjump⟩, hcb⟩ := hcode
  simp only [Program.clauseCallees, Program.stmtCallees, ← hvars, List.forall_mem_append] at hfits
  obtain ⟨⟨⟨hfitsInit, hfitsTest⟩, hfitsBody⟩, -⟩ := hfits
  obtain ⟨hsimple, hinit, -⟩ := Stmt.each_iff.mp hr
  have hheader := Clause.headed_opt hinit hsimple
  rw [Program.execClause, Program.exec, ← hvars]
  refine (hi hA hci hfitsInit).andThen (by simp [hheader.not_breaks]) fun _ hA => ?_
  have hend : ((pc + initCode.size + testCode.size + 3 + bodyCode.size : Nat) : Int)
      = (pc + initCode.size + testCode.size : Nat) + (bodyCode.size + 3 : Nat) := by omega
  refine (ht.follows_test hS hg hA hct hjump hend hfitsTest).bind fun b s hs => ?_
  obtain ⟨calls, rfl⟩ := hs
  cases b with
  | false => exact .pure (.next (by simp [Clause.terminates, isTerminating, isTerminatingOpt]) hA)
  | true =>
    rw [ht.vars_eq] at hb
    refine (hb hA hcb hfitsBody).mono fun out s hlands => hlands.weaken ?_ ?_
    · simp [Clause.terminates, isTerminating, isTerminatingOpt]
    · simp only [Clause.breaks, hasBreak, Bool.or_eq_true]
      exact Or.inl

theorem condElse_follows (hS : Setting P r n call ctx decl fin a) {p : Position}
    {init : Option Stmt} {test : Expr} {body other : Stmt}
    {initCode testCode bodyCode otherCode : Code} {sc₁ sc₂ sc₃ : Scope}
    (hi : ClauseFollows P r n call ctx fin a l (ctx.vars sc) (.opt init) initCode)
    (ht : Emits ctx sc₁ (.expr test) testCode [.bool] sc₂) (hg : sc₂.Grows fin)
    (hb : ClauseFollows P r n call ctx fin a l (ctx.vars sc₂) (.one body) bodyCode)
    (ho : ClauseFollows P r n call ctx fin a l (ctx.vars sc₃) (.one other) otherCode)
    (hvars : ctx.vars sc₁ = P.declaredOpt (ctx.vars sc) init)
    (hvars' : ctx.vars sc₃ = P.declared (ctx.vars sc₂) body)
    (hr : (Clause.one (.cond p init test body (some other))).Headed) :
    ClauseFollows P r n call ctx fin a l (ctx.vars sc) (.one (.cond p init test body (some other)))
      (initCode ++ testCode ++ [.jump .jumpFalse (bodyCode.size + 6 : Nat)] ++ bodyCode
        ++ [.jump .jump (otherCode.size + 3 : Nat)] ++ otherCode) := by
  intro brk cont pc locals stack calls σ hA hcode hfits
  simp only [codeAt_append, codeAt_singleton, Code.size_append, Code.size_singleton, Instr.size,
    ← Nat.add_assoc] at hcode ⊢
  obtain ⟨⟨⟨⟨⟨hci, hct⟩, hjump⟩, hcb⟩, hskip⟩, hco⟩ := hcode
  rw [ht.vars_eq] at hvars' hb
  simp only [Program.clauseCallees, Program.stmtCallees, ← hvars, ← hvars',
    List.forall_mem_append] at hfits
  obtain ⟨⟨⟨hfitsInit, hfitsTest⟩, hfitsBody⟩, hfitsOther⟩ := hfits
  obtain ⟨hsimple, hinit, -⟩ := Stmt.each_iff.mp hr
  have hheader := Clause.headed_opt hinit hsimple
  rw [Program.execClause, Program.exec, ← hvars]
  refine (hi hA hci hfitsInit).andThen (by simp [hheader.not_breaks]) fun _ hA => ?_
  have helse : ((pc + initCode.size + testCode.size + 3 + bodyCode.size + 3 : Nat) : Int)
      = (pc + initCode.size + testCode.size : Nat) + (bodyCode.size + 6 : Nat) := by omega
  have hend : ((pc + initCode.size + testCode.size + 3 + bodyCode.size + 3 + otherCode.size : Nat) : Int)
      = (pc + initCode.size + testCode.size + 3 + bodyCode.size : Nat)
        + (otherCode.size + 3 : Nat) := by omega
  refine (ht.follows_test hS hg hA hct hjump helse hfitsTest).bind fun b s hs => ?_
  obtain ⟨calls, rfl⟩ := hs
  cases b with
  | false =>
    simp only [Bool.false_eq_true, if_false]
    rw [← hvars', Program.execOpt]
    refine (ho hA hco hfitsOther).mono fun out s hlands => hlands.weaken ?_ ?_
    · simp only [Clause.terminates, isTerminating, isTerminatingOpt, Bool.and_eq_false_iff]
      exact Or.inr
    · simp only [Clause.breaks, hasBreak, hasBreakOpt, Bool.or_eq_true]
      exact Or.inr
  | true =>
    -- A body that is gone through is left by the jump over the other branch.
    refine (hb hA hcb hfitsBody).after fun out s hlands => ?_
    cases hlands with
    | next hf hA =>
      refine .step (Activation.step_jump hskip.1 (hskip.2.2 _ hend)) rfl (.pure (.next ?_ hA))
      simp only [Clause.terminates, isTerminating, isTerminatingOpt, Bool.and_eq_false_iff]
      exact Or.inl hf
    | break_ hl hbr hA =>
      refine .pure (.break_ hl ?_ hA)
      simp only [Clause.breaks, hasBreak, Bool.or_eq_true]
      exact Or.inl hbr
    | continue_ hl hA => exact .pure (.continue_ hl hA)
    | ret h => exact .pure (.ret h)

theorem loop_follows (hS : Setting P r n call ctx decl fin a) {p : Position}
    {init post : Option Stmt} {test : Option Expr} {body : Stmt} {initCode bodyCode postCode : Code}
    {testCode : Option Code} {sc₁ sc₂ sc₃ : Scope}
    (hi : ClauseFollows P r n call ctx fin a l (ctx.vars sc) (.opt init) initCode)
    (ht : EmitsTest ctx sc₁ test testCode sc₂) (hg : sc₂.Grows fin)
    (hb : ClauseFollows P r n call ctx fin a true (ctx.vars sc₂) (.one body) bodyCode)
    (hp : ClauseFollows P r n call ctx fin a l (ctx.vars sc₃) (.opt post) postCode)
    (hvars : ctx.vars sc₁ = P.declaredOpt (ctx.vars sc) init)
    (hvars' : ctx.vars sc₃ = P.declared (ctx.vars sc₂) body)
    (hr : (Clause.one (.loop p init test post body)).Headed) :
    ClauseFollows P r n call ctx fin a l (ctx.vars sc) (.one (.loop p init test post body))
      (initCode ++ (loopFront testCode bodyCode postCode ++ loopBody bodyCode postCode ++ postCode
        ++ [loopBack testCode bodyCode postCode])) := by
  intro brk cont pc locals stack calls σ hA hcode hfits
  simp only [codeAt_append, codeAt_singleton, Code.size_append, Code.size_singleton, size_loopBody,
    ← Nat.add_assoc] at hcode ⊢
  obtain ⟨hci, ⟨⟨hcf, hcb⟩, hcp⟩, hback⟩ := hcode
  rw [ht.vars_eq] at hvars' hb
  simp only [Program.clauseCallees, Program.stmtCallees, ← hvars, ← hvars',
    List.forall_mem_append] at hfits
  obtain ⟨⟨⟨hfitsInit, hfitsTest⟩, hfitsBody⟩, hfitsPost⟩ := hfits
  obtain ⟨⟨hsimple, hsimple'⟩, hinit, -, hpost, -⟩ := Stmt.each_iff.mp hr
  have hheader := Clause.headed_opt hinit hsimple
  have hheader' := Clause.headed_opt hpost hsimple'
  rw [Program.execClause, Program.exec, ← hvars, ← hvars']
  refine (hi hA hci hfitsInit).andThen (by simp [hheader.not_breaks]) fun _ hA => ?_
  have hstart : ((pc + initCode.size : Nat) : Int) = (pc + initCode.size
      + (loopFront testCode bodyCode postCode).size + bodyCode.size + postCode.size : Nat)
      + -((loopFront testCode bodyCode postCode).size + bodyCode.size + postCode.size : Nat) := by
    omega
  refine iterate_follows (n := n) ?_ (fun hA => hb hA (codeAt_of_loopBody hcb) hfitsBody)
    (fun hA => hp hA hcp hfitsPost) ?_ ?_ hheader'.not_breaks (Nat.le_refl n) hA
  · intro locals calls σ hA
    refine (ht.follows hS hg hA hcf hfitsTest).mono fun b s hs => ⟨fun h => ?_, hs.2⟩
    cases test with
    | none => cases hs.1 h
    | some x => rfl
  · intro locals calls
    exact Activation.step_jump hback.1 (hback.2.2 _ hstart)
  · intro hbr
    cases test with
    | none => simpa [Clause.terminates, isTerminating, Clause.breaks] using hbr
    | some x => rfl

/-- The code of a clause follows its meaning. -/
theorem EmitsStmt.follows (hS : Setting P r n call ctx decl fin a) {code : Code}
    (h : EmitsStmt ctx l sc c code sc') (hr : c.Headed) (hg : sc'.Grows fin) :
    ClauseFollows P r n call ctx fin a l (ctx.vars sc) c code := by
  have hc := hS.context
  induction h with
  | call hx =>
    intro brk cont pc locals stack calls σ hA hcode hfits
    rw [codeAt_append] at hcode
    refine (hx.follows hS hg hA hcode.1 hfits).bind fun vs s hpushed => ?_
    obtain ⟨hlen, calls, rfl⟩ := hpushed
    rw [Code.size_append, ← Nat.add_assoc]
    exact follows_pops (by simpa using hlen) hcode.2 (.pure (.next rfl hA))
  | @retConst _ sc _ pos b _ hv =>
    intro brk cont pc locals stack calls σ _ hcode _
    have heval : P.eval call (ctx.vars sc) σ (.ident pos (toString b)) = pure [.bool b] := by
      rw [Program.eval, vars_type?_eq_none.mpr hv]
      cases b <;> rfl
    rw [Program.execClause, Program.exec, heval]
    exact .pure (.ret (returns_bool hcode.1))
  | ret hx _ =>
    intro brk cont pc locals stack calls σ hA hcode hfits
    rw [codeAt_append] at hcode
    refine (hx.follows hS hg hA hcode.1 (fits_single hfits)).bind fun vs s hpushed => ?_
    obtain ⟨v, calls, rfl, rfl⟩ := hpushed.single
    exact .pure (.ret (returns_top hcode.2.1 v))
  | assign hop hx _ hs => exact assign_follows hS hop hx hs hg
  | assignTwo hop hx hs₂ hs₁ => exact assignTwo_follows hS hop hx hs₂ hs₁ hg
  | update hp hl hx ho _ => exact update_follows hS hp hl hx ho hg
  | step hp hl => exact step_follows hS hp hl hg
  | block _ ih =>
    intro brk cont pc locals stack calls σ hA hcode hfits
    refine (ih (Stmt.each_iff.mp hr).2 hg hA hcode hfits).mono fun out s h => ?_
    exact h.weaken id id
  | cond hi ht hb _ ihi ihb =>
    obtain ⟨hsimple, hinit, -, hbody, -⟩ := Stmt.each_iff.mp hr
    have hg₂ := hb.grows.trans hg
    have hg₁ := ht.grows.trans hg₂
    exact cond_follows hS (ihi (Clause.headed_opt hinit hsimple) hg₁) ht hg₂ (ihb hbody hg)
      (hi.vars_eq hc) hr
  | condElse hi ht hb ho _ _ ihi ihb iho =>
    obtain ⟨hsimple, hinit, -, hbody, hother⟩ := Stmt.each_iff.mp hr
    have hg₃ := ho.grows.trans hg
    have hg₂ := hb.grows.trans hg₃
    have hg₁ := ht.grows.trans hg₂
    exact condElse_follows hS (ihi (Clause.headed_opt hinit hsimple) hg₁) ht hg₂
      (ihb hbody hg₃) (iho (hother _ rfl) hg) (hi.vars_eq hc) (hb.vars_eq hc) hr
  | loop hi ht hb hp _ _ _ ihi ihb ihp =>
    obtain ⟨⟨hsimple, hsimple'⟩, hinit, -, hpost, hbody⟩ := Stmt.each_iff.mp hr
    have hg₃ := hp.grows.trans hg
    have hg₂ := hb.grows.trans hg₃
    have hg₁ := ht.grows.trans hg₂
    exact loop_follows hS (ihi (Clause.headed_opt hinit hsimple) hg₁) ht hg₂ (ihb hbody hg₃)
      (ihp (Clause.headed_opt hpost hsimple') hg) (hi.vars_eq hc) (hb.vars_eq hc) hr
  | leave =>
    intro brk cont pc locals stack calls σ hA hcode _
    exact .step (Activation.step_jump hcode.1.1 hcode.1.2) rfl (.pure (.break_ rfl rfl hA))
  | again =>
    intro brk cont pc locals stack calls σ hA hcode _
    exact .step (Activation.step_jump hcode.1.1 hcode.1.2) rfl (.pure (.continue_ rfl hA))
  | empty | absent | nil =>
    intro brk cont pc locals stack calls σ hA _ _
    exact .pure (.next rfl hA)
  | given _ ih =>
    intro brk cont pc locals stack calls σ hA hcode hfits
    refine (ih (hr _ rfl).1 hg hA hcode hfits).mono fun out s h => ?_
    exact h.weaken id id
  | @cons _ _ _ _ s ss _ _ hs hss ih ihs =>
    intro brk cont pc locals stack calls σ hA hcode hfits
    rw [codeAt_append] at hcode
    obtain ⟨hr, hrs⟩ := List.forall_mem_cons.mp hr
    obtain ⟨hfits, hfitsRest⟩ := List.forall_mem_append.mp hfits
    have ihs := ihs hrs hg
    rw [hs.vars_eq hc] at ihs
    rw [Code.size_append, ← Nat.add_assoc]
    refine (ih hr (hss.grows.trans hg) hA hcode.1 hfits).andThen ?_ fun hf hA => ?_
    · simp only [Clause.breaks, anyBreak, Bool.or_eq_true]
      exact Or.inl
    · refine (ihs hA hcode.2 hfitsRest).mono fun out s hlands => hlands.weaken ?_ ?_
      · cases ss with
        | nil => exact fun _ => hf
        | cons => exact id
      · simp only [Clause.breaks, anyBreak, Bool.or_eq_true]
        exact Or.inr

end

end GoSift.Filter
