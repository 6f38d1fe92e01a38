import GoSift.Proofs.Filter.Emission

/-! What the compiler emits for statements and functions, as rules. -/
namespace GoSift.Filter

open Compiler

/-- A statement, a statement that may be missing, or several in a row. -/
inductive Clause where
  | one (s : Stmt)
  | opt (s : Option Stmt)
  | many (ss : List Stmt)

/-- Leads the open jumps of one kind `behind` bytes past the end of the code. -/
def Code.closed (kind : Instr) (behind : Nat) : Code → Code
  | [] => []
  | i :: rest =>
    (if i = kind then .jump .jump (Code.size (i :: rest) + behind : Nat) else i)
      :: closed kind behind rest

/-- Whether the offset of a jump fits into two bytes. -/
def Instr.InRange : Instr → Prop
  | jump _ offset => Filter.InRange offset
  | _ => True

/-- The test of a loop with the jump that leaves it. -/
def loopFront (test : Option Code) (body post : Code) : Code :=
  match test with
  | none => []
  | some test => test ++ [.jump .jumpFalse (body.size + post.size + 6 : Nat)]

/-- The body of a loop, whose jumps to its ends are all closed. -/
def loopBody (body post : Code) : Code :=
  (body.closed .repeat_ 0).closed .leave (post.size + 3)

/-- The jump back to the start of a loop. -/
def loopBack (test : Option Code) (body post : Code) : Instr :=
  .jump .jump (-((loopFront test body post).size + body.size + post.size : Nat))

/-- The return of a constant of type `bool`. -/
def boolReturn (b : Bool) : Instr :=
  .plain (if b then .returnTrue else .returnFalse)

section

variable (ctx : Context)

/-- The code of the test of a loop. -/
inductive EmitsTest : Scope → Option Expr → Option Code → Scope → Prop
  | none {sc : Scope} : EmitsTest sc none none sc
  | some {sc sc' : Scope} {x : Expr} {code : Code} (hx : Emits ctx sc (.expr x) code [.bool] sc') :
      EmitsTest sc (some x) (some code) sc'

/-- The code of a clause, inside a loop or not, and the scope before and behind it. -/
inductive EmitsStmt : Bool → Scope → Clause → Code → Scope → Prop
  | call {l : Bool} {sc sc' : Scope} {p pos : Position} {fn : Expr} {xs : List Expr} {spread : Bool}
      {code : Code} {types : List Ty}
      (hx : Emits ctx sc (.expr (.call pos fn xs spread)) code types sc') :
      EmitsStmt l sc (.one (.expr p (.call pos fn xs spread)))
        (code ++ types.map fun _ => .plain .pop) sc'
  | retConst {l : Bool} {sc : Scope} {p pos : Position} {b : Bool}
      (ht : ctx.sig.results.head? = some .bool) (hv : ctx.isVar sc.locals (toString b) = false) :
      EmitsStmt l sc (.one (.ret p [.ident pos (toString b)])) [boolReturn b] sc
  | ret {l : Bool} {sc sc' : Scope} {p : Position} {x : Expr} {code : Code} {t : Ty}
      (hx : Emits ctx sc (.expr x) code [t] sc')
      (ht : t.isAssignableTo (ctx.sig.results.headD .nil)) :
      EmitsStmt l sc (.one (.ret p [x])) (code ++ [.plain .returnTop]) sc'
  | assign {l : Bool} {sc sc₁ sc' : Scope} {p : Position} {op : AssignOp} {target value : Expr}
      {code store : Code} {t : Ty} (hop : op = .assign ∨ op = .define)
      (hx : Emits ctx sc (.expr value) code [t] sc₁) (ht : op = .define → t ≠ .nil)
      (hs : Stores ctx sc₁ target t (op = .define) store sc') :
      EmitsStmt l sc (.one (.assign p [target] op [value])) (code ++ store) sc'
  | assignTwo {l : Bool} {sc sc₁ sc₂ sc' : Scope} {p pos : Position} {op : AssignOp}
      {first second fn : Expr} {xs : List Expr} {spread : Bool} {code store₁ store₂ : Code}
      {t t' : Ty} (hop : op = .assign ∨ op = .define)
      (hx : Emits ctx sc (.expr (.call pos fn xs spread)) code [t, t'] sc₁)
      (hs₂ : Stores ctx sc₁ second t' (op = .define) store₂ sc₂)
      (hs₁ : Stores ctx sc₂ first t (op = .define) store₁ sc') :
      EmitsStmt l sc (.one (.assign p [first, second] op [.call pos fn xs spread]))
        (code ++ store₂ ++ store₁) sc'
  | update {l : Bool} {sc sc' : Scope} {p pos : Position} {op : BinaryOp} {name : String}
      {value : Expr} {code : Code} {i : Nat} {t result : Ty} {opcode : Opcode}
      (hp : paramSlot? ctx name = none) (hl : slot? name sc.locals = some (i, t))
      (hx : Emits ctx sc (.expr value) code [t] sc')
      (ho : binaryOpcode? op t = some (opcode, result)) (ht : result.isAssignableTo t) :
      EmitsStmt l sc (.one (.assign p [.ident pos name] (.update op) [value]))
        ([.indexed .pushLocal i] ++ code ++ [.plain opcode, .indexed .setLocal i]) sc'
  | step {l : Bool} {sc : Scope} {p pos : Position} {name : String} {up : Bool} {i : Nat}
      (hp : paramSlot? ctx name = none) (hl : slot? name sc.locals = some (i, .int)) :
      EmitsStmt l sc (.one (.incDec p (.ident pos name) up))
        [.indexed (if up then .incLocal else .decLocal) i] sc
  | block {l : Bool} {sc sc' : Scope} {p : Position} {ss : List Stmt} {code : Code}
      (h : EmitsStmt l sc (.many ss) code sc') : EmitsStmt l sc (.one (.block p ss)) code sc'
  | cond {l : Bool} {sc sc₁ sc₂ sc' : Scope} {p : Position} {init : Option Stmt} {test : Expr}
      {body : Stmt} {initCode testCode bodyCode : Code}
      (hi : EmitsStmt l sc (.opt init) initCode sc₁)
      (ht : Emits ctx sc₁ (.expr test) testCode [.bool] sc₂)
      (hb : EmitsStmt l sc₂ (.one body) bodyCode sc') (hr : InRange (bodyCode.size + 3 : Nat)) :
      EmitsStmt l sc (.one (.cond p init test body none))
        (initCode ++ testCode ++ [.jump .jumpFalse (bodyCode.size + 3 : Nat)] ++ bodyCode) sc'
  | condElse {l : Bool} {sc sc₁ sc₂ sc₃ sc' : Scope} {p : Position} {init : Option Stmt}
      {test : Expr} {body other : Stmt} {initCode testCode bodyCode otherCode : Code}
      (hi : EmitsStmt l sc (.opt init) initCode sc₁)
      (ht : Emits ctx sc₁ (.expr test) testCode [.bool] sc₂)
      (hb : EmitsStmt l sc₂ (.one body) bodyCode sc₃)
      (ho : EmitsStmt l sc₃ (.one other) otherCode sc') (hr : InRange (bodyCode.size + 6 : Nat))
      (hr' : InRange (otherCode.size + 3 : Nat)) :
      EmitsStmt l sc (.one (.cond p init test body (some other)))
        (initCode ++ testCode ++ [.jump .jumpFalse (bodyCode.size + 6 : Nat)] ++ bodyCode
          ++ [.jump .jump (otherCode.size + 3 : Nat)] ++ otherCode) sc'
  | loop {l : Bool} {sc sc₁ sc₂ sc₃ sc' : Scope} {p : Position} {init post : Option Stmt}
      {test : Option Expr} {body : Stmt} {initCode bodyCode postCode : Code}
      {testCode : Option Code} (hi : EmitsStmt l sc (.opt init) initCode sc₁)
      (ht : EmitsTest ctx sc₁ test testCode sc₂) (hb : EmitsStmt true sc₂ (.one body) bodyCode sc₃)
      (hp : EmitsStmt l sc₃ (.opt post) postCode sc')
      (hf : ∀ i ∈ loopFront testCode bodyCode postCode, i ∈ testCode.getD [] ∨ i.InRange)
      (hl : ∀ i ∈ loopBody bodyCode postCode, i ∈ bodyCode ∨ i.InRange)
      (hr : (loopBack testCode bodyCode postCode).InRange) :
      EmitsStmt l sc (.one (.loop p init test post body))
        (initCode ++ (loopFront testCode bodyCode postCode ++ loopBody bodyCode postCode ++ postCode
          ++ [loopBack testCode bodyCode postCode])) sc'
  | leave {sc : Scope} {p : Position} :
      EmitsStmt true sc (.one (.branch p .break_ none)) [.leave] sc
  | again {sc : Scope} {p : Position} :
      EmitsStmt true sc (.one (.branch p .continue_ none)) [.repeat_] sc
  | empty {l : Bool} {sc : Scope} {p : Position} : EmitsStmt l sc (.one (.empty p)) [] sc
  | absent {l : Bool} {sc : Scope} : EmitsStmt l sc (.opt none) [] sc
  | given {l : Bool} {sc sc' : Scope} {s : Stmt} {code : Code}
      (h : EmitsStmt l sc (.one s) code sc') : EmitsStmt l sc (.opt (some s)) code sc'
  | nil {l : Bool} {sc : Scope} : EmitsStmt l sc (.many []) [] sc
  | cons {l : Bool} {sc sc₁ sc' : Scope} {s : Stmt} {ss : List Stmt} {code rest : Code}
      (h : EmitsStmt l sc (.one s) code sc₁) (hs : EmitsStmt l sc₁ (.many ss) rest sc') :
      EmitsStmt l sc (.many (s :: ss)) (code ++ rest) sc'

end

namespace Compiler

variable {ctx : Context} {sc sc' : Scope} {pos : Position}

theorem assignTarget_eq_ok {x : Expr} {i : Nat} {t : Ty}
    (h : assignTarget ctx x sc = .ok ((i, t), sc')) :
    ∃ p name, x = .ident p name ∧ paramSlot? ctx name = none ∧
      slot? name sc.locals = some (i, t) ∧ sc = sc' := by
  cases x with
  | ident p name =>
    simp only [assignTarget] at h
    split at h
    · exact (fail_eq_ok.mp h).elim
    · next hp =>
      simp only [bind_eq_ok, localSlot?_eq_ok] at h
      obtain ⟨slot, _, ⟨hl, rfl⟩, h⟩ := h
      cases slot with
      | none => exact (fail_eq_ok.mp h).elim
      | some r =>
        obtain ⟨rfl, rfl⟩ := pure_eq_ok.mp h
        exact ⟨p, name, rfl, by simpa using hp, hl, rfl⟩
  | _ => exact (fail_eq_ok.mp h).elim

theorem declare_eq_ok {name : String} {t : Ty} {code : Code}
    (h : declare ctx pos name t sc = .ok (code, sc')) :
    ctx.isVar sc.locals name = false ∧ sc.locals.length < maxLocals ∧
      code = [.indexed .setLocal sc.locals.length] ∧
      sc' = { sc with locals := sc.locals ++ [(name, t)] } := by
  simp only [declare, bind_eq_ok, isVar_eq_ok] at h
  obtain ⟨_, _, ⟨rfl, rfl⟩, h⟩ := h
  split at h
  · exact (fail_eq_ok.mp h).elim
  · next hv =>
    obtain ⟨scope, _, hget, h⟩ := bind_eq_ok.mp h
    cases hget
    split at h
    · next hl =>
      obtain ⟨_, _, hset, h⟩ := bind_eq_ok.mp h
      cases hset
      obtain ⟨rfl, rfl⟩ := pure_eq_ok.mp h
      exact ⟨by simpa using hv, hl, rfl, rfl⟩
    · exact (fail_eq_ok.mp h).elim

theorem store_stores {target : Expr} {t : Ty} {define : Bool} {code : Code}
    (h : store ctx target t define sc = .ok (code, sc')) :
    Stores ctx sc target t define code sc' := by
  cases target with
  | ident p name =>
    simp only [store] at h
    split at h
    · next hn =>
      obtain ⟨rfl, rfl⟩ := pure_eq_ok.mp h
      subst hn
      exact .discard
    · next hn =>
      cases define with
      | true =>
        obtain ⟨hv, hl, rfl, rfl⟩ := declare_eq_ok h
        exact .declare hn hv hl
      | false =>
        simp only [Bool.false_eq_true, if_false, bind_eq_ok, Prod.exists, checkAssignable_eq_ok,
          pure_eq_ok] at h
        obtain ⟨i, t', _, htarget, _, _, ⟨ht, rfl⟩, rfl, rfl⟩ := h
        obtain ⟨_, _, he, hp, hl, rfl⟩ := assignTarget_eq_ok htarget
        cases he
        exact .assign hn hp hl ht
  | _ => exact (fail_eq_ok.mp h).elim

theorem close_eq_ok {kind : Instr} {behind : Nat} {code code' : Code}
    (h : close pos kind behind code sc = .ok (code', sc')) :
    code' = code.closed kind behind ∧ sc = sc' ∧ ∀ i ∈ code', i ∈ code ∨ i.InRange := by
  induction code generalizing sc code' with
  | nil =>
    obtain ⟨rfl, rfl⟩ := pure_eq_ok.mp h
    exact ⟨rfl, rfl, by simp⟩
  | cons i rest ih =>
    have hmem : ∀ i' rest', (∀ j ∈ rest', j ∈ rest ∨ j.InRange) → (i' = i ∨ i'.InRange) →
        ∀ j ∈ i' :: rest', j ∈ i :: rest ∨ j.InRange := by
      intro i' rest' hr hi j hj
      rcases List.mem_cons.mp hj with rfl | hj
      · rcases hi with rfl | hi
        · exact Or.inl List.mem_cons_self
        · exact Or.inr hi
      · exact (hr j hj).imp_left (List.mem_cons_of_mem i)
    simp only [close] at h
    split at h
    · next he =>
      simp only [bind_eq_ok, jumpBy_eq_ok, pure_eq_ok] at h
      obtain ⟨_, _, ⟨hin, rfl, rfl⟩, rest', sc₂, hrest, rfl, rfl⟩ := h
      obtain ⟨rfl, rfl, hr⟩ := ih hrest
      exact ⟨by rw [Code.closed, if_pos he], rfl, hmem _ _ hr (Or.inr hin)⟩
    · next he =>
      simp only [bind_eq_ok, pure_eq_ok] at h
      obtain ⟨_, _, ⟨rfl, rfl⟩, rest', sc₂, hrest, rfl, rfl⟩ := h
      obtain ⟨rfl, rfl, hr⟩ := ih hrest
      exact ⟨by rw [Code.closed, if_neg he], rfl, hmem _ _ hr (Or.inl rfl)⟩

theorem size_closed {kind : Instr} (hk : kind.size = 3) (behind : Nat) (code : Code) :
    (code.closed kind behind).size = code.size := by
  induction code with
  | nil => rfl
  | cons i rest ih =>
    simp only [Code.closed, Code.size, ih]
    split
    · next he =>
      rw [he, hk]
      rfl
    · rfl

/-- The parts of a loop, put together. -/
theorem loopCode_eq_ok {test : Option Code} {body post code : Code}
    (h : loopCode pos test (body.closed .repeat_ 0) post sc = .ok (code, sc')) :
    code = loopFront test body post ++ loopBody body post ++ post ++ [loopBack test body post] ∧
      sc = sc' ∧ (∀ i ∈ loopFront test body post, i ∈ test.getD [] ∨ i.InRange) ∧
      (∀ i ∈ loopBody body post, i ∈ body.closed .repeat_ 0 ∨ i.InRange) ∧
      (loopBack test body post).InRange := by
  simp only [loopCode] at h
  cases test with
  | none =>
    simp only [bind_eq_ok, pure_eq_ok, jumpBy_eq_ok] at h
    obtain ⟨_, _, ⟨rfl, rfl⟩, _, _, ⟨hb, rfl, rfl⟩, body', _, hc, rfl, rfl⟩ := h
    obtain ⟨rfl, rfl, hm⟩ := close_eq_ok hc
    rw [size_closed rfl] at hb ⊢
    exact ⟨rfl, rfl, by simp [loopFront], hm, hb⟩
  | some test =>
    simp only [bind_eq_ok, pure_eq_ok, jumpBy_eq_ok] at h
    obtain ⟨_, _, ⟨hx, rfl, rfl⟩, _, _, ⟨rfl, rfl⟩, _, _, ⟨hb, rfl, rfl⟩, body', _, hc, rfl, rfl⟩ := h
    obtain ⟨rfl, rfl, hm⟩ := close_eq_ok hc
    rw [size_closed rfl] at hb hx ⊢
    refine ⟨rfl, rfl, ?_, hm, hb⟩
    intro i hi
    simp only [loopFront, List.mem_append, List.mem_singleton] at hi
    rcases hi with hi | rfl
    · exact Or.inl hi
    · exact Or.inr hx

theorem valueCode_emits {x : Expr} {code : Code} {t : Ty}
    (h : valueCode ctx x sc = .ok ((code, t), sc')) : Emits ctx sc (.expr x) code [t] sc' :=
  exprCode_emits x (single_eq_ok.mp h)

theorem testCode_emits {x : Expr} {loop : Bool} {code : Code}
    (h : testCode ctx x loop sc = .ok (code, sc')) : Emits ctx sc (.expr x) code [.bool] sc' := by
  simp only [testCode, bind_eq_ok, Prod.exists] at h
  obtain ⟨code', t, sc₁, hx, h⟩ := h
  split at h
  · next ht =>
    obtain ⟨rfl, rfl⟩ := pure_eq_ok.mp h
    exact ht ▸ valueCode_emits hx
  · exact (typeFault_eq_ok.mp h).elim

theorem loopTestCode_emits {x : Option Expr} {code : Option Code}
    (h : loopTestCode ctx x sc = .ok (code, sc')) : EmitsTest ctx sc x code sc' := by
  cases x with
  | none =>
    obtain ⟨rfl, rfl⟩ := pure_eq_ok.mp h
    exact .none
  | some x =>
    simp only [loopTestCode, ← bind_pure_comp, bind_eq_ok, pure_eq_ok] at h
    obtain ⟨code', sc₁, hx, rfl, rfl⟩ := h
    exact .some (testCode_emits hx)

theorem assignOne_emits {l : Bool} {op : AssignOp} {target value : Expr} {code : Code}
    (hop : op = .assign ∨ op = .define)
    (h : assignOne ctx target value (op = .define) sc = .ok (code, sc')) :
    EmitsStmt ctx l sc (.one (.assign pos [target] op [value])) code sc' := by
  simp only [assignOne, bind_eq_ok, Prod.exists] at h
  obtain ⟨code', t, sc₁, hx, h⟩ := h
  split at h
  · exact (typeFault_eq_ok.mp h).elim
  · next ht =>
    obtain ⟨st, sc₂, hs, h⟩ := bind_eq_ok.mp h
    obtain ⟨rfl, rfl⟩ := pure_eq_ok.mp h
    refine .assign hop (valueCode_emits hx) ?_ (store_stores hs)
    intro hd hn
    simp [hd, hn] at ht

theorem assignTwo_emits {l : Bool} {op : AssignOp} {p : Position} {first second fn : Expr}
    {xs : List Expr} {spread : Bool} {code : Code} (hop : op = .assign ∨ op = .define)
    (h : assignTwo ctx pos first second (.call p fn xs spread) (op = .define) sc = .ok (code, sc')) :
    EmitsStmt ctx l sc (.one (.assign pos [first, second] op [.call p fn xs spread])) code sc' := by
  simp only [assignTwo, bind_eq_ok, Prod.exists] at h
  obtain ⟨code', types, sc₁, hx, h⟩ := h
  rcases types with _ | ⟨t, _ | ⟨t', _ | ⟨_, _⟩⟩⟩
  · exact (typeFault_eq_ok.mp h).elim
  · exact (typeFault_eq_ok.mp h).elim
  · simp only [bind_eq_ok, pure_eq_ok] at h
    obtain ⟨st₂, sc₂, hs₂, st₁, sc₃, hs₁, rfl, rfl⟩ := h
    exact .assignTwo hop (exprCode_emits _ hx) (store_stores hs₂) (store_stores hs₁)
  · exact (typeFault_eq_ok.mp h).elim

theorem assignUpdate_emits {l : Bool} {op : BinaryOp} {target value : Expr} {code : Code}
    (h : assignUpdate ctx pos target op value sc = .ok (code, sc')) :
    EmitsStmt ctx l sc (.one (.assign pos [target] (.update op) [value])) code sc' := by
  simp only [assignUpdate, bind_eq_ok, Prod.exists, binaryInstr_eq_ok, checkAssignable_eq_ok,
    pure_eq_ok] at h
  obtain ⟨i, t, _, htarget, code', t', sc₁, hx, _, result, _, ⟨rfl, ⟨opcode, ho, rfl⟩, rfl⟩, _, _,
    ⟨ht, rfl⟩, rfl, rfl⟩ := h
  obtain ⟨p, name, rfl, hp, hl, rfl⟩ := assignTarget_eq_ok htarget
  exact .update hp hl (valueCode_emits hx) ho ht

theorem assignCode_emits {l : Bool} {lhs rhs : List Expr} {op : AssignOp} {code : Code}
    (h : assignCode ctx pos lhs op rhs sc = .ok (code, sc')) :
    EmitsStmt ctx l sc (.one (.assign pos lhs op rhs)) code sc' := by
  unfold assignCode at h
  split at h
  · exact assignUpdate_emits h
  · exact assignOne_emits (Or.inl rfl) h
  · exact assignOne_emits (Or.inr rfl) h
  · exact assignTwo_emits (Or.inl rfl) h
  · exact assignTwo_emits (Or.inr rfl) h
  · exact (fail_eq_ok.mp h).elim

theorem exprStmtCode_emits {l : Bool} {x : Expr} {code : Code}
    (h : exprStmtCode ctx x sc = .ok (code, sc')) :
    EmitsStmt ctx l sc (.one (.expr pos x)) code sc' := by
  cases x with
  | call p fn xs spread =>
    simp only [exprStmtCode, bind_eq_ok, Prod.exists, pure_eq_ok] at h
    obtain ⟨code', types, sc₁, hx, rfl, rfl⟩ := h
    exact .call (exprCode_emits _ hx)
  | _ => exact (typeFault_eq_ok.mp h).elim

theorem boolReturn?_eq_ok {x : Expr} {i : Option Instr}
    (h : boolReturn? ctx x sc = .ok (i, sc')) :
    sc = sc' ∧ ∀ instr, i = some instr → ∃ p b, x = .ident p (toString (b : Bool)) ∧
      instr = boolReturn b ∧ ctx.sig.results.head? = some .bool ∧
      ctx.isVar sc.locals (toString b) = false := by
  cases x with
  | ident p name =>
    simp only [boolReturn?, bind_eq_ok, isVar_eq_ok] at h
    obtain ⟨_, _, ⟨rfl, rfl⟩, h⟩ := h
    split at h
    · obtain ⟨rfl, rfl⟩ := pure_eq_ok.mp h
      exact ⟨rfl, by simp⟩
    · next hc =>
      simp only [Bool.or_eq_true, decide_eq_true_eq, not_or, Decidable.not_not,
        Bool.not_eq_true] at hc
      split at h
      · obtain ⟨rfl, rfl⟩ := pure_eq_ok.mp h
        exact ⟨rfl, fun _ hi => ⟨p, true, rfl, (Option.some.inj hi).symm, hc⟩⟩
      · obtain ⟨rfl, rfl⟩ := pure_eq_ok.mp h
        exact ⟨rfl, fun _ hi => ⟨p, false, rfl, (Option.some.inj hi).symm, hc⟩⟩
      · obtain ⟨rfl, rfl⟩ := pure_eq_ok.mp h
        exact ⟨rfl, by simp⟩
  | _ =>
    obtain ⟨rfl, rfl⟩ := pure_eq_ok.mp h
    exact ⟨rfl, by simp⟩

theorem returnCode_emits {l : Bool} {x : Expr} {code : Code}
    (h : returnCode ctx x sc = .ok (code, sc')) :
    EmitsStmt ctx l sc (.one (.ret pos [x])) code sc' := by
  simp only [returnCode, bind_eq_ok] at h
  obtain ⟨i, _, hi, h⟩ := h
  obtain ⟨rfl, hconst⟩ := boolReturn?_eq_ok hi
  cases i with
  | some instr =>
    obtain ⟨rfl, rfl⟩ := pure_eq_ok.mp h
    obtain ⟨p, b, rfl, rfl, ht, hv⟩ := hconst _ rfl
    exact .retConst ht hv
  | none =>
    simp only [bind_eq_ok, Prod.exists, checkAssignable_eq_ok, pure_eq_ok] at h
    obtain ⟨code', t, sc₁, hx, _, _, ⟨ht, rfl⟩, rfl, rfl⟩ := h
    exact .ret (valueCode_emits hx) ht

theorem stepCode_emits {l : Bool} {x : Expr} {up : Bool} {code : Code}
    (h : stepCode ctx x up sc = .ok (code, sc')) :
    EmitsStmt ctx l sc (.one (.incDec pos x up)) code sc' := by
  simp only [stepCode, bind_eq_ok, Prod.exists] at h
  obtain ⟨i, t, _, htarget, h⟩ := h
  obtain ⟨p, name, rfl, hp, hl, rfl⟩ := assignTarget_eq_ok htarget
  split at h
  · next ht =>
    obtain ⟨rfl, rfl⟩ := pure_eq_ok.mp h
    exact .step hp (ht ▸ hl)
  · exact (typeFault_eq_ok.mp h).elim

theorem branchCode_emits {l : Bool} {kind : Branch} {label : Option String} {code : Code}
    (h : stmtCode ctx l (.branch pos kind label) sc = .ok (code, sc')) :
    EmitsStmt ctx l sc (.one (.branch pos kind label)) code sc' := by
  cases label with
  | some label => cases kind <;> exact (fail_eq_ok.mp h).elim
  | none =>
    cases kind with
    | break_ =>
      simp only [stmtCode] at h
      cases l with
      | false => exact (typeFault_eq_ok.mp h).elim
      | true =>
        obtain ⟨rfl, rfl⟩ := pure_eq_ok.mp h
        exact .leave
    | continue_ =>
      simp only [stmtCode] at h
      cases l with
      | false => exact (typeFault_eq_ok.mp h).elim
      | true =>
        obtain ⟨rfl, rfl⟩ := pure_eq_ok.mp h
        exact .again
    | _ => exact (fail_eq_ok.mp h).elim

mutual

theorem stmtCode_emits {l : Bool} {sc sc' : Scope} {code : Code} :
    ∀ s, stmtCode ctx l s sc = .ok (code, sc') → EmitsStmt ctx l sc (.one s) code sc'
  | .expr _ x, h => exprStmtCode_emits h
  | .ret _ [], h => (fail_eq_ok.mp h).elim
  | .ret _ [x], h => returnCode_emits h
  | .ret _ (_ :: _ :: _), h => (fail_eq_ok.mp h).elim
  | .assign _ _ _ _, h => assignCode_emits h
  | .incDec _ _ _, h => stepCode_emits h
  | .block _ ss, h => .block (stmtsCode_emits ss h)
  | .cond _ init test body other, h => by
    simp only [stmtCode, bind_eq_ok] at h
    obtain ⟨ic, sc₁, hi, tc, sc₂, ht, bc, sc₃, hb, h⟩ := h
    have hi := stmtOptCode_emits init hi
    have hb := stmtCode_emits body hb
    cases other with
    | none =>
      simp only [bind_eq_ok, jumpBy_eq_ok, pure_eq_ok] at h
      obtain ⟨_, _, ⟨hr, rfl, rfl⟩, rfl, rfl⟩ := h
      exact .cond hi (testCode_emits ht) hb hr
    | some other =>
      simp only [bind_eq_ok, jumpBy_eq_ok, pure_eq_ok] at h
      obtain ⟨_, _, ⟨hr, rfl, rfl⟩, oc, sc₄, ho, _, _, ⟨hr', rfl, rfl⟩, rfl, rfl⟩ := h
      exact .condElse hi (testCode_emits ht) hb (stmtCode_emits other ho) hr hr'
  | .loop _ init test post body, h => by
    simp only [stmtCode, bind_eq_ok, pure_eq_ok] at h
    obtain ⟨ic, sc₁, hi, tc, sc₂, ht, bc, sc₃, hb, _, _, hc, pc, sc₄, hp, _, _, hl, rfl, rfl⟩ := h
    obtain ⟨rfl, rfl, hm⟩ := close_eq_ok hc
    obtain ⟨rfl, rfl, hf, hm', hr⟩ := loopCode_eq_ok hl
    refine .loop (stmtOptCode_emits init hi) (loopTestCode_emits ht) (stmtCode_emits body hb)
      (stmtOptCode_emits post hp) hf ?_ hr
    intro i hi
    rcases hm' i hi with hi | hi
    · exact hm i hi
    · exact Or.inr hi
  | .branch _ kind label, h => branchCode_emits h
  | .empty _, h => by
    obtain ⟨rfl, rfl⟩ := pure_eq_ok.mp h
    exact .empty
  | .send .., h | .var .., h | .go .., h | .defer .., h | .labeled .., h | .switch .., h
  | .typeSwitch .., h | .clause .., h | .range .., h => (fail_eq_ok.mp h).elim

theorem stmtOptCode_emits {l : Bool} {sc sc' : Scope} {code : Code} :
    ∀ s, stmtOptCode ctx l s sc = .ok (code, sc') → EmitsStmt ctx l sc (.opt s) code sc'
  | none, h => by
    obtain ⟨rfl, rfl⟩ := pure_eq_ok.mp h
    exact .absent
  | some s, h => .given (stmtCode_emits s h)

theorem stmtsCode_emits {l : Bool} {sc sc' : Scope} {code : Code} :
    ∀ ss, stmtsCode ctx l ss sc = .ok (code, sc') → EmitsStmt ctx l sc (.many ss) code sc'
  | [], h => by
    obtain ⟨rfl, rfl⟩ := pure_eq_ok.mp h
    exact .nil
  | s :: ss, h => by
    simp only [stmtsCode, bind_eq_ok, pure_eq_ok] at h
    obtain ⟨code₁, sc₁, hs, code₂, sc₂, hss, rfl, rfl⟩ := h
    exact .cons (stmtCode_emits s hs) (stmtsCode_emits ss hss)

end

end Compiler

/-- A signature has the types of the parameters, and one result. -/
theorem signatureOf_eq_ok {decl : GoSift.Func} {sig : Signature} {params : List (String × Ty)}
    (h : signatureOf decl = .ok (sig, params)) :
    paramTypes decl.params = .ok params ∧ sig.params = params.map Prod.snd ∧
      sig.results.length = 1 := by
  simp only [signatureOf, bind, Except.bind, pure, Except.pure, throw, throwThe,
    MonadExceptOf.throw] at h
  split at h
  · cases h
  · split at h
    · cases h
    · next hp =>
      split at h
      · split at h
        · cases h
        · split at h
          · cases h
          · cases h
            exact ⟨hp, rfl, rfl⟩
      · cases h

/-- What a function is compiled from: its signature and parameters, its statements, and their code. -/
structure Compiles (r : Registry) (package : String) (decl : GoSift.Func) (sig : Signature)
    (params : List (String × Ty)) (body : List Stmt) (code : Code) (scope : Scope) : Prop where
  signature : signatureOf decl = .ok (sig, params)
  statements : decl.body.bind Stmt.blockStmts? = some body
  few : params.length ≤ 256
  compiled : Compiler.stmtsCode ⟨r, package, decl.name, sig, params⟩ false body {} = .ok (code, scope)
  ends : endsTerminating body

theorem Compiles.emits {r : Registry} {package : String} {decl : GoSift.Func} {sig : Signature}
    {params : List (String × Ty)} {body : List Stmt} {code : Code} {scope : Scope}
    (h : Compiles r package decl sig params body code scope) :
    EmitsStmt ⟨r, package, decl.name, sig, params⟩ false {} (.many body) code scope :=
  Compiler.stmtsCode_emits body h.compiled

/-- The function that is made from compiled code. -/
def assemble (decl : GoSift.Func) (sig : Signature) (code : Code) (scope : Scope) : Func :=
  ⟨decl.name, code.bytes, scope.constants.toArray, sig.params.length, scope.locals.length, sig⟩

theorem compileFunc_eq_ok {r : Registry} {package : String} {decl : GoSift.Func} {f : Func}
    (h : compileFunc r package decl = .ok f) :
    ∃ sig params body code scope, Compiles r package decl sig params body code scope ∧
      f = assemble decl sig code scope := by
  unfold compileFunc at h
  cases hs : signatureOf decl with
  | error e => simp [hs, bind, Except.bind] at h
  | ok r =>
    obtain ⟨sig, params⟩ := r
    cases hb : decl.body.bind Stmt.blockStmts? with
    | none => simp [hs, hb, bind, Except.bind] at h
    | some body =>
      simp only [hs, hb, bind, Except.bind, pure, Except.pure] at h
      split at h
      · cases h
      · next hp =>
        split at h
        · cases h
        · next r hc =>
          obtain ⟨code, scope⟩ := r
          split at h
          · cases h
          · next he =>
            cases h
            exact ⟨sig, params, body, code, scope,
              ⟨hs, hb, by omega, hc, by simpa using he⟩, rfl⟩

theorem Compiles.compileFunc_eq {r : Registry} {package : String} {decl : GoSift.Func}
    {sig : Signature} {params : List (String × Ty)} {body : List Stmt} {code : Code} {scope : Scope}
    (h : Compiles r package decl sig params body code scope) :
    compileFunc r package decl = .ok (assemble decl sig code scope) := by
  have hfew : ¬ 256 < params.length := Nat.not_lt.mpr h.few
  simp [compileFunc, h.signature, h.statements, hfew, h.compiled, h.ends, bind, Except.bind, pure,
    Except.pure, assemble]

end GoSift.Filter
