import GoSift.Proofs.Filter.Checked
import GoSift.Proofs.Filter.ControlFlow

/-!
Compiled code is well typed. The code of an expression leaves values of the types that the compiler found
on top of what was there. The code of a statement leaves the stack as it was at each place where control
can leave it. Which natives are called in which form depends on the source: a discipline says that, and
hands it on to the parts of an expression or a statement.
-/
namespace GoSift.Filter

open Compiler

/-- The expressions in an expression that have code of their own. -/
def Context.parts (ctx : Context) (locals : List (String × Ty)) : Expr → List Expr
  | .paren _ x | .unary _ _ x => [x]
  | .binary _ _ x y => [x, y]
  | .call _ fn args _ => ((ctx.receiver? locals fn).map Prod.fst).toList ++ args
  | .slice _ x low high _ _ => x :: (low.toList ++ high.toList)
  | _ => []

def Phrase.exprs : Phrase → List Expr
  | expr x => [x]
  | bound x => x.toList
  | args _ xs => xs

/-- The expressions whose values a simple statement uses. -/
def operandsOf : Stmt → List Expr
  | .expr _ x => [x]
  | .ret _ xs | .assign _ _ _ xs => xs
  | _ => []

/-- The parts of a conditional or a loop: what is done first, the test, the body, and what comes last. -/
def headerOf? : Stmt → Option (Option Stmt × Option Expr × Stmt × Option Stmt)
  | .cond _ init test body other => some (init, some test, body, other)
  | .loop _ init test post body => some (init, test, body, post)
  | _ => none

/-- Conditions on expressions and clauses where certain locals are known. The parts inherit them, and
natives are called as permitted. -/
structure Discipline (ctx : Context) (permits : CallPolicy) where
  expr : List (String × Ty) → Expr → Prop
  clause : List (String × Ty) → Clause → Prop
  part : ∀ {locals : List (String × Ty)} {x y : Expr}, expr locals x → y ∈ ctx.parts locals x →
    expr locals y
  direct : ∀ {locals : List (String × Ty)} {pos : Position} {fn : Expr} {args : List Expr} {id : Nat}
    {sig : Signature} {g : Native}, expr locals (.call pos fn args false) →
    ctx.direct? locals fn = some (.numbered .callNative id, sig) →
    ctx.registry.natives.get? id = some g → permits id g none
  method : ∀ {sc sc' : Scope} {pos : Position} {fn x : Expr} {name : String} {args : List Expr}
    {code : Code} {t : Ty} {id : Nat} {g : Native}, expr sc.locals (.call pos fn args false) →
    ctx.receiver? sc.locals fn = some (x, name) → Emits ctx sc (.expr x) code [t] sc' →
    ctx.registry.lookupNative? t.text name = some (id, g) → permits id g (some t)
  operand : ∀ {locals : List (String × Ty)} {s : Stmt} {x : Expr}, clause locals (.one s) →
    x ∈ operandsOf s → expr locals x
  block : ∀ {locals : List (String × Ty)} {pos : Position} {ss : List Stmt},
    clause locals (.one (.block pos ss)) → clause locals (.many ss)
  given : ∀ {locals : List (String × Ty)} {s : Stmt}, clause locals (.opt (some s)) →
    clause locals (.one s)
  head : ∀ {locals : List (String × Ty)} {s : Stmt} {ss : List Stmt},
    clause locals (.many (s :: ss)) → clause locals (.one s)
  tail : ∀ {l : Bool} {sc sc' : Scope} {s : Stmt} {ss : List Stmt} {code : Code},
    clause sc.locals (.many (s :: ss)) → EmitsStmt ctx l sc (.one s) code sc' →
    clause sc'.locals (.many ss)
  init : ∀ {locals : List (String × Ty)} {s body : Stmt} {first last : Option Stmt}
    {test : Option Expr}, clause locals (.one s) → headerOf? s = some (first, test, body, last) →
    clause locals (.opt first)
  body : ∀ {l : Bool} {sc sc' : Scope} {s body : Stmt} {first last : Option Stmt}
    {test : Option Expr} {code : Code}, clause sc.locals (.one s) →
    headerOf? s = some (first, test, body, last) → EmitsStmt ctx l sc (.opt first) code sc' →
    (∀ x ∈ test, expr sc'.locals x) ∧ clause sc'.locals (.one body)
  last : ∀ {l l' : Bool} {sc sc₁ sc₂ sc' : Scope} {s body : Stmt} {first last : Option Stmt}
    {test : Option Expr} {code code' : Code}, clause sc.locals (.one s) →
    headerOf? s = some (first, test, body, last) → EmitsStmt ctx l sc (.opt first) code sc₁ →
    sc₂.locals = sc₁.locals → EmitsStmt ctx l' sc₂ (.one body) code' sc' →
    clause sc'.locals (.opt last)

/-- A function that is made in a context, and a registry that has what it calls. -/
structure Makes (r : Registry) (ctx : Context) (fin : Scope) (f : Func) : Prop where
  natives : r.natives = ctx.registry.natives
  funcs : ∀ {id : Nat} {g : Func}, ctx.registry.funcs.get? id = some g →
    ∃ g', r.funcs.get? id = some g' ∧ g'.sig = g.sig
  sig : f.sig = ctx.sig
  params : ctx.sig.params = ctx.params.map Prod.snd
  constants : f.constants = fin.constants.toArray

/-- What a call by an instruction refers to, and its signature. -/
inductive Context.Target (ctx : Context) : Instr → Signature → Prop
  | length : Target ctx (.plain .stringLen) ⟨[.string], [.int]⟩
  | self : Target ctx (.plain .callSelf) ctx.sig
  | func {id : Nat} {g : Func} (hg : ctx.registry.funcs.get? id = some g) :
      Target ctx (.numbered .call id) g.sig
  | native {id : Nat} {g : Native} (hg : ctx.registry.natives.get? id = some g) :
      Target ctx (.numbered .callNative id) g.sig

section

variable {ctx : Context} {instr : Instr} {sig : Signature}

theorem plainCallee?_target {name : String} (h : plainCallee? ctx name = some (instr, sig)) :
    ctx.Target instr sig := by
  unfold plainCallee? at h
  split at h
  · cases h
    exact .self
  · split at h
    · next hf =>
      cases h
      exact .func (Table.get?_of_lookup? hf)
    · obtain ⟨⟨id, g⟩, hn, he⟩ := Option.map_eq_some_iff.mp h
      cases he
      exact .native (Table.get?_of_lookup? hn)

theorem qualifiedCallee?_target {qualifier name : String}
    (h : qualifiedCallee? ctx qualifier name = some (instr, sig)) : ctx.Target instr sig := by
  unfold qualifiedCallee? at h
  split at h
  · next hn =>
    cases h
    exact .native (Table.get?_of_lookup? hn)
  · obtain ⟨⟨id, g⟩, hf, he⟩ := Option.map_eq_some_iff.mp h
    cases he
    exact .func (Table.get?_of_lookup? hf)

theorem direct?_target {locals : List (String × Ty)} {fn : Expr}
    (h : ctx.direct? locals fn = some (instr, sig)) : ctx.Target instr sig := by
  unfold Context.direct? at h
  split at h
  · split at h
    · cases h
      exact .length
    · exact plainCallee?_target h
  · split at h
    · cases h
    · obtain ⟨name, -, hq⟩ := Option.bind_eq_some_iff.mp h
      exact qualifiedCallee?_target hq
  · cases h

end

theorem Ty.eq_string_of_assignable {t : Ty} (h : t.isAssignableTo .string) : t = .string := by
  cases t <;> first | rfl | cases h

theorem Ty.answers_self (t : Ty) : t.Answers (some t) :=
  fun _ hu => Option.some.inj hu

theorem Ty.answers_any (t : Ty) : t.Answers none :=
  fun _ hu => by cases hu

/-- The arguments of a call can be used as the parameters. -/
theorem Emits.assignable {ctx : Context} {sc sc' : Scope} {params ts : List Ty} {xs : List Expr}
    {code : Code} (h : Emits ctx sc (.args params xs) code ts sc') :
    List.Forall₂ (·.isAssignableTo ·) ts params := by
  generalize hph : Phrase.args params xs = ph at h
  induction h generalizing params xs with
  | noArgs =>
    cases hph
    exact .nil
  | arg _ ht _ _ ihxs =>
    cases hph
    exact .cons ht (ihxs rfl)
  | _ => cases hph

section

variable {r : Registry} {permits : CallPolicy} {ctx : Context} {fin : Scope} {f : Func}
  {sc sc' : Scope} {brk cont n pc : Nat} {us : List Ty}

/-- Well-typed code of a function whose locals are those of a scope. -/
abbrev TypedIn (r : Registry) (permits : CallPolicy) (fin : Scope) (f : Func) (n pc : Nat)
    (ts : List Ty) : Prop :=
  f.Typed r permits (fin.locals.map Prod.snd) n pc ts

theorem TypedIn.operation {op : Opcode} {out : Ty} (ins : List Ty)
    (hop : InstrAt f brk cont pc (.plain op)) (hout : op.result? = some out)
    (hins : List.Forall₂ Ty.Answers ins op.operands)
    (hnext : TypedIn r permits fin f n (pc + 1) (out :: us)) :
    TypedIn r permits fin f n pc (ins ++ us) := by
  rw [← hop.2] at hnext
  exact .of_allows (.straight hop.1 (.operation hout hins) hnext)

theorem TypedIn.pop {t : Ty} (hop : InstrAt f brk cont pc (.plain .pop))
    (hnext : TypedIn r permits fin f n (pc + 1) us) : TypedIn r permits fin f n pc (t :: us) :=
  .of_allows (.straight hop.1 .pop hnext)

/-- Both ways of a conditional jump. -/
theorem TypedIn.branch {offset : Int} {t : Nat} (whenTrue : Bool)
    (hop : InstrAt f brk cont pc (.jump (if whenTrue then .jumpTrue else .jumpFalse) offset))
    (ht : (t : Int) = pc + offset) (hnext : TypedIn r permits fin f n (pc + 3) us)
    (hjump : TypedIn r permits fin f n t us) : TypedIn r permits fin f n pc (.bool :: us) :=
  .of_allows (.branch hop.1 (hop.2.2 t ht) hnext hjump)

theorem TypedIn.jump {offset : Int} {t : Nat} (hop : InstrAt f brk cont pc (.jump .jump offset))
    (ht : (t : Int) = pc + offset) (hjump : TypedIn r permits fin f n t us) :
    TypedIn r permits fin f n pc us :=
  .of_allows (.jump hop.1 (hop.2.2 t ht) hjump)

/-- A call of a native takes its arguments, with the receiver below them, and leaves its results. -/
theorem TypedIn.native {id : Nat} {g : Native} {ts : List Ty} (recv : Option Ty)
    (hm : Makes r ctx fin f) (hop : InstrAt f brk cont pc (.numbered .callNative id))
    (hg : ctx.registry.natives.get? id = some g) (hpermits : permits id g recv)
    (hargs : List.Forall₂ (·.isAssignableTo ·) ts g.sig.params)
    (hnext : TypedIn r permits fin f n (pc + 3) (g.sig.results.reverse ++ us)) :
    TypedIn r permits fin f n pc (ts.reverse ++ (recv.toList ++ us)) := by
  rw [← hm.natives] at hg
  exact .of_allows (.straight hop.1 (.callNative hop.2.2 hg hpermits hargs) hnext)

/-- A call by a name takes its arguments and leaves its results. -/
theorem TypedIn.call {instr : Instr} {sig : Signature} {ts : List Ty} (hm : Makes r ctx fin f)
    (hop : InstrAt f brk cont pc instr) (htarget : ctx.Target instr sig)
    (hpermits : ∀ {id : Nat} {g : Native}, instr = .numbered .callNative id →
      ctx.registry.natives.get? id = some g → permits id g none)
    (hargs : List.Forall₂ (·.isAssignableTo ·) ts sig.params)
    (hnext : TypedIn r permits fin f n (pc + instr.size) (sig.results.reverse ++ us)) :
    TypedIn r permits fin f n pc (ts.reverse ++ us) := by
  cases htarget with
  | length =>
    obtain ⟨t, _, ht, hnil, rfl⟩ := List.forall₂_cons_right_iff.mp hargs
    obtain rfl := List.forall₂_nil_right_iff.mp hnil
    obtain rfl := Ty.eq_string_of_assignable ht
    exact .operation [.string] hop rfl (.cons (Ty.answers_self _) .nil) hnext
  | self =>
    rw [← hm.sig] at hargs hnext
    exact .of_allows (.straight hop.1 (.callSelf hargs) hnext)
  | func hg =>
    obtain ⟨g', hget, hsig⟩ := hm.funcs hg
    rw [← hsig] at hargs hnext
    exact .of_allows (.straight hop.1 (.call hop.2.2 hget hargs) hnext)
  | native hg => exact .native none hm hop hg (hpermits rfl hg) hargs hnext

/-- A local of the scope at a place is one of the function. -/
theorem getElem?_fin_locals {name : String} {i : Nat} {t : Ty} (hg : sc.Grows fin)
    (h : sc.locals[i]? = some (name, t)) : (fin.locals.map Prod.snd)[i]? = some t := by
  rw [List.getElem?_map, getElem?_extend hg.locals h]
  rfl

/-- The code of a slice takes the text and the bounds that are given. -/
theorem TypedIn.slice {low high : Option Expr} {ts us vs : List Ty} {lowCode highCode : Code}
    {sc₁ : Scope} (hl : Emits ctx sc (.bound low) lowCode ts sc₁)
    (hh : Emits ctx sc₁ (.bound high) highCode us sc')
    (hc : CodeAt f brk cont pc (sliceInstrs low.isSome high.isSome))
    (hnext : TypedIn r permits fin f n (pc + (sliceInstrs low.isSome high.isSome).size)
      (.string :: vs)) :
    TypedIn r permits fin f n pc (us.reverse ++ (ts.reverse ++ .string :: vs)) := by
  cases hl with
  | noBound =>
    cases hh with
    | noBound => exact hnext
    | bound _ =>
      exact .operation [.int, .string] hc.1 rfl
        (.cons (Ty.answers_self _) (.cons (Ty.answers_self _) .nil)) hnext
  | bound _ =>
    cases hh with
    | noBound =>
      exact .operation [.int, .string] hc.1 rfl
        (.cons (Ty.answers_self _) (.cons (Ty.answers_self _) .nil)) hnext
    | bound _ =>
      exact .operation [.int, .int, .string] hc.1 rfl
        (.cons (Ty.answers_self _) (.cons (Ty.answers_self _) (.cons (Ty.answers_self _) .nil))) hnext

variable {D : Discipline ctx permits}

/-- The phrases in an expression inherit the discipline. -/
theorem Discipline.phrase {x : Expr} {ph : Phrase} {locals : List (String × Ty)}
    (hx : D.expr locals x) (hl : sc.locals = locals)
    (hparts : ph.exprs ⊆ ctx.parts locals x := by simp [Phrase.exprs, Context.parts]) :
    ∀ y ∈ ph.exprs, D.expr sc.locals y :=
  fun _ hy => hl ▸ D.part hx (hparts hy)

/-- The only value that a statement uses is an expression with the discipline. -/
theorem Discipline.only {s : Stmt} {x : Expr} {locals : List (String × Ty)}
    (h : D.clause locals (.one s)) (hs : operandsOf s = [x] := by rfl) :
    ∀ y ∈ (Phrase.expr x).exprs, D.expr locals y :=
  fun _ hy => D.operand h (hs ▸ hy)

theorem nilOperand?_mem {locals : List (String × Ty)} {op : BinaryOp} {x y z : Expr}
    (h : ctx.nilOperand? locals op x y = some z) : z = x ∨ z = y := by
  unfold Context.nilOperand? at h
  split at h
  · cases h
    split
    · exact Or.inl rfl
    · exact Or.inr rfl
  · cases h

/-- If the code behind an expression is well typed with its values on the stack, then so is the code of
the expression and what follows it. -/
theorem Emits.typed {ph : Phrase} {code : Code} {ts : List Ty} (h : Emits ctx sc ph code ts sc')
    (hm : Makes r ctx fin f) (hg : sc'.Grows fin) (hc : CodeAt f brk cont pc code)
    (hD : ∀ x ∈ ph.exprs, D.expr sc.locals x)
    (hnext : TypedIn r permits fin f n (pc + code.size) (ts.reverse ++ us)) :
    TypedIn r permits fin f n pc us := by
  induction h generalizing pc us with
  | @param _ _ _ i t hp =>
    have ht : f.sig.params[i]? = some t := by
      rw [hm.sig, hm.params, List.getElem?_map, paramSlot?_eq_some hp]
      rfl
    exact .of_allows (.straight hc.1.1 (.pushParam hc.1.2.2 ht) hnext)
  | var _ hl =>
    have ht := getElem?_fin_locals hg (slot?_eq_some hl)
    exact .of_allows (.straight hc.1.1 (.pushLocal hc.1.2.2 ht) hnext)
  | const _ hk =>
    obtain ⟨hins, hout⟩ := constant?_typed hk
    exact .operation [] hc.1 hout (hins ▸ .nil) hnext
  | @lit _ _ _ _ _ v _ i hl hi =>
    have hv : f.constants[i]? = some v := by
      rw [hm.constants, List.getElem?_toArray]
      exact getElem?_extend hg.constants hi.value
    exact .of_allows (.straight hc.1.1 (.pushConst hc.1.2.2 hv (literal?_holds hl)) hnext)
  | paren hx ih =>
    have hD := hD _ List.mem_cons_self
    exact ih hg hc (D.phrase hD rfl) hnext
  | not hx ih | neg hx ih =>
    have hD := hD _ List.mem_cons_self
    simp only [codeAt_append, codeAt_singleton, Code.size_append, Code.size_singleton, Instr.size,
      ← Nat.add_assoc] at hc hnext
    exact ih hg hc.1 (D.phrase hD rfl)
      (.operation [_] hc.2 rfl (.cons (Ty.answers_self _) .nil) hnext)
  | @logical _ _ _ _ op _ _ left right hop hx hy hr ihx ihy =>
    have hD := hD _ List.mem_cons_self
    simp only [codeAt_append, codeAt_cons, Code.size_append, Code.size_cons, Code.size_nil,
      Instr.size, ← Nat.add_assoc, Nat.add_zero] at hc hnext
    obtain ⟨⟨hleft, hdup, hjump, hpop, -⟩, hright⟩ := hc
    have hend : ((pc + left.size + 1 + 3 + 1 + right.size : Nat) : Int)
        = (pc + left.size + 1 : Nat) + (right.size + 4 : Nat) := by omega
    have hjump : InstrAt f brk cont (pc + left.size + 1)
        (.jump (if decide (op = .logicalOr) then .jumpTrue else .jumpFalse)
          (right.size + 4 : Nat)) := by
      rcases hop with rfl | rfl <;> exact hjump
    have hright := ihy hg hright (D.phrase hD hx.moreConstants.locals) hnext
    have hbranch := TypedIn.branch _ hjump hend (.pop hpop hright) hnext
    exact ihx (hy.grows.trans hg) hleft (D.phrase hD rfl)
      (.of_allows (.straight hdup.1 .dup hbranch))
  | @nilTest _ _ _ op x y z _ t hz hx ht hn ih =>
    have hD := hD _ List.mem_cons_self
    simp only [codeAt_append, codeAt_singleton, Code.size_append, Code.size_singleton,
      ← Nat.add_assoc] at hc hnext
    have hz : z ∈ [x, y] := by simpa using nilOperand?_mem hz
    refine ih hg hc.1 (D.phrase hD rfl (by simpa [Phrase.exprs, Context.parts] using hz)) ?_
    unfold nilInstr at hc hnext
    split at hc <;> exact .operation [t] hc.2 rfl (.cons (Ty.answers_any _) .nil) hnext
  | @binary _ _ _ _ _ _ _ _ _ t _ _ hz hx hy ho ihx ihy =>
    have hD := hD _ List.mem_cons_self
    simp only [codeAt_append, codeAt_singleton, Code.size_append, Code.size_singleton, Instr.size,
      ← Nat.add_assoc] at hc hnext
    obtain ⟨hins, hout⟩ := binaryOpcode?_typed ho
    have hop := TypedIn.operation [t, t] hc.2 hout
      (hins ▸ .cons (Ty.answers_self _) (.cons (Ty.answers_self _) .nil)) hnext
    have hright := ihy hg hc.1.2 (D.phrase hD hx.moreConstants.locals) hop
    exact ihx (hy.grows.trans hg) hc.1.1 (D.phrase hD rfl) hright
  | call hf hx ih =>
    have hD := hD _ List.mem_cons_self
    simp only [codeAt_append, codeAt_singleton, Code.size_append, Code.size_singleton,
      ← Nat.add_assoc] at hc hnext
    refine ih hg hc.1 (D.phrase hD rfl) ?_
    refine .call hm hc.2 (direct?_target hf) ?_ hx.assignable hnext
    rintro id g rfl hget
    exact D.direct hD hf hget
  | method hf hx hme ha ihx iha =>
    have hD := hD _ List.mem_cons_self
    simp only [codeAt_append, codeAt_singleton, Code.size_append, Code.size_singleton,
      ← Nat.add_assoc] at hc hnext
    obtain ⟨⟨id, g⟩, hn, he⟩ := Option.map_eq_some_iff.mp hme
    cases he
    have hcall := TypedIn.native (some _) hm hc.2 (Table.get?_of_lookup? hn) (D.method hD hf hx hn)
      ha.assignable hnext
    have hargs := iha hg hc.1.2 (D.phrase hD hx.moreConstants.locals) hcall
    exact ihx (ha.grows.trans hg) hc.1.1
      (D.phrase hD rfl (by simp [Phrase.exprs, Context.parts, hf])) hargs
  | slice hx hl hh ihx ihl ihh =>
    have hD := hD _ List.mem_cons_self
    simp only [codeAt_append, Code.size_append, ← Nat.add_assoc] at hc hnext
    obtain ⟨⟨⟨hcx, hcl⟩, hch⟩, hcs⟩ := hc
    have hlocals := hl.moreConstants.locals.trans hx.moreConstants.locals
    have hgrows := hh.grows.trans hg
    have hhigh := ihh hg hch (D.phrase hD hlocals) (.slice hl hh hcs hnext)
    have hlow := ihl hgrows hcl (D.phrase hD hx.moreConstants.locals) hhigh
    exact ihx (hl.grows.trans hgrows) hcx (D.phrase hD rfl) hlow
  | noBound | noArgs => exact hnext
  | bound _ ih => exact ih hg hc hD hnext
  | arg hx ht hxs ihx ihxs =>
    obtain ⟨hDx, hDxs⟩ := List.forall_mem_cons.mp hD
    simp only [codeAt_append, Code.size_append, ← Nat.add_assoc, List.reverse_cons,
      List.append_assoc] at hc hnext
    have hrest := ihxs hg hc.2 (hx.moreConstants.locals ▸ hDxs) hnext
    exact ihx (hxs.grows.trans hg) hc.1 (by simpa [Phrase.exprs] using hDx) hrest

theorem Stores.typed {x : Expr} {t : Ty} {define : Bool} {code : Code}
    (h : Stores ctx sc x t define code sc') (hg : sc'.Grows fin) (hc : CodeAt f brk cont pc code)
    (hnext : TypedIn r permits fin f n (pc + code.size) us) :
    TypedIn r permits fin f n pc (t :: us) := by
  cases h with
  | discard => exact .pop hc.1 hnext
  | declare _ _ _ =>
    have ht := getElem?_fin_locals hg List.getElem?_concat_length
    exact .of_allows (.straight hc.1.1 (.setLocal hc.1.2.2 ht (by simp)) hnext)
  | assign _ _ hl hu =>
    have ht := getElem?_fin_locals hg (slot?_eq_some hl)
    exact .of_allows (.straight hc.1.1 (.setLocal hc.1.2.2 ht hu) hnext)

/-- Popping as many values as there are. -/
theorem TypedIn.pops {α : Type} {xs : List α} {ts : List Ty} (hl : ts.length = xs.length)
    (hc : CodeAt f brk cont pc (xs.map fun _ => .plain .pop))
    (hnext : TypedIn r permits fin f n (pc + Code.size (xs.map fun _ => .plain .pop)) us) :
    TypedIn r permits fin f n pc (ts ++ us) := by
  induction xs generalizing pc ts with
  | nil =>
    obtain rfl := List.length_eq_zero_iff.mp hl
    exact hnext
  | cons x xs ih =>
    obtain ⟨t, ts, rfl⟩ := List.exists_cons_of_length_eq_add_one hl
    simp only [List.map_cons, codeAt_cons, Code.size_cons, ← Nat.add_assoc] at hc hnext
    exact .pop hc.1 (ih (by simpa using hl) hc.2 hnext)

/-- The test of a loop leads to its end or, if there is one, behind the loop. -/
theorem EmitsTest.typed {test : Option Expr} {code : Option Code} {body post : Code}
    (h : EmitsTest ctx sc test code sc') (hm : Makes r ctx fin f) (hg : sc'.Grows fin)
    (hc : CodeAt f brk cont pc (loopFront code body post)) (hD : ∀ x ∈ test, D.expr sc.locals x)
    (hnext : TypedIn r permits fin f n (pc + (loopFront code body post).size) [])
    (hleave : test.isSome → TypedIn r permits fin f n
      (pc + (loopFront code body post).size + body.size + post.size + 3) []) :
    TypedIn r permits fin f n pc [] := by
  cases h with
  | none => exact hnext
  | @some _ x code hx =>
    simp only [loopFront, codeAt_append, codeAt_singleton, Code.size_append, Code.size_singleton,
      Instr.size, ← Nat.add_assoc] at hc hnext hleave
    have hend : ((pc + code.size + 3 + body.size + post.size + 3 : Nat) : Int)
        = (pc + code.size : Nat) + (body.size + post.size + 6 : Nat) := by omega
    refine hx.typed hm hg hc.1 (by simpa [Phrase.exprs] using hD) ?_
    exact .branch false hc.2 hend hnext (hleave rfl)

/-- The places at which control can leave the code of a clause are well typed: its end unless the clause
is terminating, and in a loop those to which `break` and `continue` lead. -/
structure TypedExits (r : Registry) (permits : CallPolicy) (fin : Scope) (f : Func) (n : Nat) (l : Bool)
    (c : Clause) (brk cont stop : Nat) : Prop where
  falls : c.terminates = false → TypedIn r permits fin f n stop []
  leaves : l → c.breaks → TypedIn r permits fin f n brk []
  repeats : l → TypedIn r permits fin f n cont []

/-- A statement in a header is no `break`. -/
theorem TypedExits.header {l : Bool} {s : Option Stmt} {stop : Nat} (hr : (Clause.opt s).Headed)
    (hnext : TypedIn r permits fin f n stop []) (hrepeats : l → TypedIn r permits fin f n cont []) :
    TypedExits r permits fin f n l (.opt s) brk cont stop where
  falls _ := hnext
  leaves _ hb := by
    rw [hr.not_breaks] at hb
    cases hb
  repeats := hrepeats

/-- Nothing but the values of a statement is on the stack, so each of them starts with an empty one. -/
theorem EmitsStmt.typed {l : Bool} {c : Clause} {code : Code} (h : EmitsStmt ctx l sc c code sc')
    (hm : Makes r ctx fin f) (hresult : ctx.sig.results.length = 1) (hg : sc'.Grows fin)
    (hr : c.Headed) (hc : CodeAt f brk cont pc code) (hD : D.clause sc.locals c)
    (hexits : TypedExits r permits fin f n l c brk cont (pc + code.size)) :
    TypedIn r permits fin f n pc [] := by
  obtain ⟨result, hresult⟩ := List.length_eq_one_iff.mp hresult
  induction h generalizing pc n brk cont with
  | call hx =>
    have hnext := hexits.falls rfl
    simp only [codeAt_append, Code.size_append, ← Nat.add_assoc] at hc hnext
    exact hx.typed hm hg hc.1 (D.only hD) (.pops (by simp) hc.2 hnext)
  | @retConst _ _ _ _ b ht hv =>
    rw [hresult] at ht
    cases ht
    exact .of_allows (.retBool hc.1.1 (hm.sig ▸ hresult))
  | ret hx ht =>
    rw [codeAt_append] at hc
    rw [hresult] at ht
    exact hx.typed hm hg hc.1 (D.only hD) (.of_allows (.ret hc.2.1.1 (hm.sig ▸ hresult) ht))
  | assign hop hx _ hs =>
    have hnext := hexits.falls rfl
    simp only [codeAt_append, Code.size_append, ← Nat.add_assoc] at hc hnext
    exact hx.typed hm (hs.grows.trans hg) hc.1 (D.only hD) (hs.typed hg hc.2 hnext)
  | assignTwo hop hx hs₂ hs₁ =>
    have hnext := hexits.falls rfl
    simp only [codeAt_append, Code.size_append, ← Nat.add_assoc] at hc hnext
    obtain ⟨⟨hcx, hc₂⟩, hc₁⟩ := hc
    have hstore := hs₂.typed (hs₁.grows.trans hg) hc₂ (hs₁.typed hg hc₁ hnext)
    exact hx.typed hm ((hs₂.grows.trans hs₁.grows).trans hg) hcx (D.only hD) hstore
  | @update _ _ _ _ _ _ _ _ _ _ t _ _ _ hl hx ho ht =>
    have hnext := hexits.falls rfl
    simp only [codeAt_append, codeAt_cons, codeAt_nil, and_true, Code.size_append, Code.size_cons,
      Code.size_nil, Instr.size, ← Nat.add_assoc, Nat.add_zero] at hc hnext
    obtain ⟨⟨hpush, hcx⟩, hop, hset⟩ := hc
    have hlocal := getElem?_fin_locals (hx.grows.trans hg) (slot?_eq_some hl)
    obtain ⟨hins, hout⟩ := binaryOpcode?_typed ho
    have hstore : TypedIn r permits fin f n _ [_] :=
      .of_allows (.straight hset.1 (.setLocal hset.2.2 hlocal ht) hnext)
    have hvalue := TypedIn.operation [t, t] hop hout
      (hins ▸ .cons (Ty.answers_self _) (.cons (Ty.answers_self _) .nil)) hstore
    exact .of_allows (.straight hpush.1 (.pushLocal hpush.2.2 hlocal)
      (hx.typed hm hg hcx (D.only hD) hvalue))
  | @step _ _ _ _ _ up _ _ hl =>
    have hlocal := getElem?_fin_locals hg (slot?_eq_some hl)
    refine .of_allows (.straight hc.1.1 (.stepLocal hc.1.2.2 hlocal) ?_)
    cases up <;> exact hexits.falls rfl
  | block _ ih =>
    exact ih hg (Stmt.each_iff.mp hr).2 hc (D.block hD)
      ⟨hexits.falls, hexits.leaves, hexits.repeats⟩
  | @cond _ _ _ _ _ _ init _ body ic tc bc hi ht hb _ ihi ihb =>
    have hnext := hexits.falls (by simp [Clause.terminates, isTerminating, isTerminatingOpt])
    simp only [codeAt_append, codeAt_singleton, Code.size_append, Code.size_singleton, Instr.size,
      ← Nat.add_assoc] at hc hnext
    obtain ⟨⟨⟨hci, hct⟩, hjump⟩, hcb⟩ := hc
    obtain ⟨hsimple, hinit, -, hbody, -⟩ := Stmt.each_iff.mp hr
    have hheader := Clause.headed_opt hinit hsimple
    obtain ⟨hDt, hDb⟩ := D.body hD rfl hi
    have hend : ((pc + ic.size + tc.size + 3 + bc.size : Nat) : Int)
        = (pc + ic.size + tc.size : Nat) + (bc.size + 3 : Nat) := by omega
    have hbody : TypedIn r permits fin f n (pc + ic.size + tc.size + 3) [] := by
      refine ihb hg hbody hcb (ht.moreConstants.locals ▸ hDb) ⟨fun _ => hnext, ?_, hexits.repeats⟩
      intro hl hbr
      refine hexits.leaves hl ?_
      simp only [Clause.breaks, hasBreak, Bool.or_eq_true]
      exact Or.inl hbr
    have hgb := hb.grows.trans hg
    have htest := ht.typed hm hgb hct (by simpa [Phrase.exprs] using hDt _ rfl)
      (.branch false hjump hend hbody hnext)
    exact ihi (ht.grows.trans hgb) hheader hci (D.init hD rfl)
      (.header hheader htest hexits.repeats)
  | @condElse _ _ _ _ _ _ _ init _ body other ic tc bc oc hi ht hb ho _ _ ihi ihb iho =>
    have hnext := hexits.falls
    simp only [codeAt_append, codeAt_singleton, Code.size_append, Code.size_singleton, Instr.size,
      ← Nat.add_assoc, Clause.terminates, isTerminating, isTerminatingOpt,
      Bool.and_eq_false_iff] at hc hnext
    have hleaves := hexits.leaves
    simp only [Clause.breaks, hasBreak, hasBreakOpt, Bool.or_eq_true] at hleaves
    obtain ⟨⟨⟨⟨⟨hci, hct⟩, hjump⟩, hcb⟩, hskip⟩, hco⟩ := hc
    obtain ⟨hsimple, hinit, -, hbody, hother⟩ := Stmt.each_iff.mp hr
    have hheader := Clause.headed_opt hinit hsimple
    obtain ⟨hDt, hDb⟩ := D.body hD rfl hi
    have helse : ((pc + ic.size + tc.size + 3 + bc.size + 3 : Nat) : Int)
        = (pc + ic.size + tc.size : Nat) + (bc.size + 6 : Nat) := by omega
    have hend : ((pc + ic.size + tc.size + 3 + bc.size + 3 + oc.size : Nat) : Int)
        = (pc + ic.size + tc.size + 3 + bc.size : Nat) + (oc.size + 3 : Nat) := by omega
    have hother : TypedIn r permits fin f n (pc + ic.size + tc.size + 3 + bc.size + 3) [] :=
      iho hg (hother other rfl) hco (D.given (D.last hD rfl hi ht.moreConstants.locals hb))
        ⟨fun hf => hnext (Or.inr hf), fun hl hbr => hleaves hl (Or.inr hbr), hexits.repeats⟩
    have hgo := ho.grows.trans hg
    have hbody : TypedIn r permits fin f n (pc + ic.size + tc.size + 3) [] :=
      ihb hgo hbody hcb (ht.moreConstants.locals ▸ hDb)
        ⟨fun hf => .jump hskip hend (hnext (Or.inl hf)), fun hl hbr => hleaves hl (Or.inl hbr),
          hexits.repeats⟩
    have hgb := hb.grows.trans hgo
    have htest := ht.typed hm hgb hct (by simpa [Phrase.exprs] using hDt _ rfl)
      (.branch false hjump helse hbody hother)
    exact ihi (ht.grows.trans hgb) hheader hci (D.init hD rfl)
      (.header hheader htest hexits.repeats)
  | @loop l _ _ _ _ _ p init post test body ic bc qc tc hi ht hb hp _ _ _ ihi ihb ihp =>
    have hfalls := hexits.falls
    simp only [codeAt_append, codeAt_singleton, Code.size_append, Code.size_singleton,
      size_loopBody, ← Nat.add_assoc] at hc hfalls
    obtain ⟨hci, ⟨⟨hcf, hcb⟩, hcp⟩, hback⟩ := hc
    obtain ⟨⟨hsimple, hsimple'⟩, hinit, -, hpost, hbody⟩ := Stmt.each_iff.mp hr
    have hheader := Clause.headed_opt hinit hsimple
    have hheader' := Clause.headed_opt hpost hsimple'
    obtain ⟨hDt, hDb⟩ := D.body hD rfl hi
    have hDp := D.last hD rfl hi ht.moreConstants.locals hb
    have hgp := hp.grows.trans hg
    have hgb := hb.grows.trans hgp
    -- The jump back uses up an instruction, so the start is well typed for one more after each round.
    have hround : ∀ m ≤ n, TypedIn r permits fin f m (pc + ic.size) [] := by
      intro m hmn
      induction m with
      | zero => trivial
      | succ m ih =>
        have hjump : TypedIn r permits fin f (m + 1)
            (pc + ic.size + (loopFront tc bc qc).size + bc.size + qc.size) [] :=
          Func.Allows.jump hback.1 (hback.2.2 (pc + ic.size) (by omega)) (ih (by omega))
        have hpost := ihp hg hheader' hcp hDp
          (.header hheader' hjump fun hl => (hexits.repeats hl).mono hmn)
        have hbody := ihb hgp hbody (codeAt_of_loopBody hcb) (ht.moreConstants.locals ▸ hDb)
          ⟨fun _ => hpost, fun _ hbr => (hfalls ?_).mono hmn, fun _ => hpost⟩
        · refine ht.typed hm hgb hcf hDt hbody fun hsome => (hfalls ?_).mono hmn
          obtain ⟨x, rfl⟩ := Option.isSome_iff_exists.mp hsome
          rfl
        · cases test with
          | none => simpa [Clause.terminates, isTerminating, Clause.breaks] using hbr
          | some x => rfl
    exact ihi (ht.grows.trans hgb) hheader hci (D.init hD rfl)
      (.header hheader (hround n (Nat.le_refl n)) hexits.repeats)
  | leave => exact .of_allows (.jump hc.1.1 hc.1.2 (hexits.leaves rfl rfl))
  | again => exact .of_allows (.jump hc.1.1 hc.1.2 (hexits.repeats rfl))
  | empty | absent | nil => exact hexits.falls rfl
  | @given _ _ _ s _ h ih =>
    exact ih hg (hr s rfl).1 hc (D.given hD) ⟨hexits.falls, hexits.leaves, hexits.repeats⟩
  | @cons _ _ _ _ s ss _ _ h hs ih ihs =>
    have hnext := hexits.falls
    have hleaves := hexits.leaves
    simp only [codeAt_append, Code.size_append, ← Nat.add_assoc, Clause.breaks, anyBreak,
      Bool.or_eq_true] at hc hnext hleaves
    obtain ⟨hr, hrs⟩ := List.forall_mem_cons.mp hr
    refine ih (hs.grows.trans hg) hr hc.1 (D.head hD)
      ⟨fun hf => ?_, fun hl hbr => hleaves hl (Or.inl hbr), hexits.repeats⟩
    refine ihs hg hrs hc.2 (D.tail hD h)
      ⟨fun hfs => hnext ?_, fun hl hbr => hleaves hl (Or.inr hbr), hexits.repeats⟩
    cases ss with
    | nil => exact hf
    | cons => exact hfs

end

/-- A compiled function is checked. The registry has what was known when it was compiled. -/
theorem Compiles.checked {r known : Registry} {permits : CallPolicy} {package : String}
    {decl : GoSift.Func} {sig : Signature} {params : List (String × Ty)} {body : List Stmt} {code : Code}
    {scope : Scope} (h : Compiles known package decl sig params body code scope) (hb : known.Built)
    (hd : decl.Headed) (hnatives : r.natives = known.natives)
    (hfuncs : ∀ {id : Nat} {g : Func}, known.funcs.get? id = some g →
      ∃ g', r.funcs.get? id = some g' ∧ g'.sig = g.sig)
    {D : Discipline ⟨known, package, decl.name, sig, params⟩ permits}
    (hD : D.clause [] (.many body)) :
    (assemble decl sig code scope).Checked r permits (scope.locals.map Prod.snd) := by
  obtain ⟨-, hparams, hresults⟩ := signatureOf_eq_ok h.signature
  have hm : Makes r ⟨known, package, decl.name, sig, params⟩ scope (assemble decl sig code scope) :=
    ⟨hnatives, hfuncs, rfl, hparams, rfl⟩
  refine ⟨rfl, List.length_eq_one_iff.mp hresults, by simpa using h.wellFormed.locals, fun n => ?_⟩
  have hcode : CodeAt (assemble decl sig code scope) 0 0 0 code := h.codeAt hb
  refine h.emits.typed hm hresults (.refl scope) (h.each hd) hcode hD ⟨?_, nofun, nofun⟩
  intro hf
  have hends : endsTerminating body = false := hf
  rw [h.ends] at hends
  cases hends

/-! ### Paths through checked code -/

section

variable {r : Registry} {permits : CallPolicy} {f : Func} {locals : List Ty} {m n pc e : Nat} {ts : List Ty}

/-- An instruction that does something to the stack leads to the next one. -/
theorem Func.Transfer.next_eq {op : Opcode} {us : List Ty} (h : f.Transfer r permits locals pc op ts us)
    (hop : f.opcode? pc = some op) : f.next pc = [pc + op.width] := by
  cases h with
  | operation hout _ => cases op <;> cases hout <;> simp [next, hop]
  | @stepLocal up => cases up <;> simp_all [next]
  | _ => simp [next, hop]

/-- The checker goes on along every path. -/
theorem Func.Typed.leads (h : f.Typed r permits locals (n + m) pc ts) (hl : f.Leads m pc e) :
    ∃ us, f.Typed r permits locals n e us := by
  induction m generalizing pc ts with
  | zero => exact ⟨ts, hl ▸ h⟩
  | succ m ih =>
    obtain ⟨pc', hpc', hl⟩ := hl
    cases h with
    | straight hop ht hnext =>
      rw [ht.next_eq hop, List.mem_singleton] at hpc'
      exact ih (hpc' ▸ hnext) hl
    | jump hop ht hjump =>
      simp only [next, hop, ht, Option.toList_some, List.mem_singleton] at hpc'
      exact ih (hpc' ▸ hjump) hl
    | @branch whenTrue t _ hop ht hnext hjump =>
      have hboth : pc' = pc + 3 ∨ pc' = t := by cases whenTrue <;> simpa [next, hop, ht] using hpc'
      obtain rfl | rfl := hboth
      · exact ih hnext hl
      · exact ih hjump hl
    | ret hop => simp [next, hop] at hpc'
    | @retBool b hop => cases b <;> simp [next, hop] at hpc'

/-- Behind the end there is no instruction, so no path leads there. -/
theorem Func.Checked.stays (h : f.Checked r permits locals) (n : Nat) : ¬ f.Leads n 0 f.code.size := by
  intro hl
  obtain ⟨us, hend⟩ := (h.typed (1 + n)).leads hl
  have hop : ∃ op, f.opcode? f.code.size = some op := by
    cases hend with
    | straight hop | jump hop | branch hop | ret hop | retBool hop => exact ⟨_, hop⟩
  obtain ⟨op, hop⟩ := hop
  exact Nat.lt_irrefl _ (lt_size_of_opcode? hop)

end

/-- Any native may be called anywhere. -/
def Discipline.free (ctx : Context) : Discipline ctx fun _ _ _ => True where
  expr _ _ := True
  clause _ _ := True
  part _ _ := trivial
  direct _ _ _ := trivial
  method _ _ _ _ := trivial
  operand _ _ := trivial
  block _ := trivial
  given _ := trivial
  head _ := trivial
  tail _ _ := trivial
  init _ _ := trivial
  body _ _ _ := ⟨fun _ _ => trivial, trivial⟩
  last _ _ _ _ _ := trivial

/-- No path through a compiled function leads to its end. -/
theorem Compiles.stays {r : Registry} {package : String} {decl : GoSift.Func} {sig : Signature}
    {params : List (String × Ty)} {body : List Stmt} {code : Code} {scope : Scope}
    (h : Compiles r package decl sig params body code scope) (hr : r.Built) (hd : decl.Headed) (n : Nat) :
    ¬ (assemble decl sig code scope).Leads n 0 (assemble decl sig code scope).code.size :=
  (h.checked hr hd rfl (fun hg => ⟨_, hg, rfl⟩) (D := .free _) trivial).stays n

end GoSift.Filter
