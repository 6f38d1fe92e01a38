import GoSift.Proofs.Filter.Operand
import GoSift.Proofs.Filter.Semantics

/-!
Names, types and callees. What the compiler finds out about them is what they mean: a registry that has
the functions of a program gives the same types, the same variables and the same callees.
-/
namespace GoSift.Filter

open Compiler

/-- The registry has the natives of the program, and each of its functions, known by its signature, in
the place that it has among the declarations. -/
structure Program.Known (P : Program) (r : Registry) : Prop where
  natives : r.natives = P.natives
  size : r.funcs.size = P.decls.length
  ids : ∀ key : Key, r.funcs.ids[key]? =
    if key.qualifier = P.package then P.decls.findIdx? (·.name = key.name) else none
  sig : ∀ {i : Nat} {decl : GoSift.Func}, P.decls[i]? = some decl →
    ∃ f, r.funcs.get? i = some f ∧ f.sig = (headOf decl).1

/-- The context in which a declaration of the program is compiled. -/
structure Context.Of (ctx : Context) (P : Program) (fn : GoSift.Func) : Prop where
  known : P.Known ctx.registry
  package : ctx.package = P.package
  decl : P.decl? ctx.name = some fn
  head : headOf fn = (ctx.sig, ctx.params)

/-- The variables that the compiler has met. -/
def Context.vars (ctx : Context) (sc : Scope) : Vars :=
  ⟨ctx.params, sc.locals⟩

/-- The instruction calls what is meant, and the signature is that of the callee. -/
inductive Callee.Coded (P : Program) (self : GoSift.Func) : Callee → Instr → Signature → Prop
  | length : Coded P self .length (.plain .stringLen) ⟨[.string], [.int]⟩
  | self : Coded P self (.func self) (.plain .callSelf) (headOf self).1
  | func {id : Nat} {decl : GoSift.Func} (hd : P.decls[id]? = some decl) :
      Coded P self (.func decl) (.numbered .call id) (headOf decl).1
  | native {id : Nat} {f : Native} {method : Bool} (hf : P.natives.get? id = some f) :
      Coded P self (.native id f method) (.numbered .callNative id) f.sig

theorem Callee.Coded.results_eq {P : Program} {self : GoSift.Func} {c : Callee} {i : Instr}
    {sig : Signature} (h : c.Coded P self i sig) : c.results = sig.results := by
  cases h <;> rfl

section

variable {P : Program} {r : Registry} {ctx : Context} {self : GoSift.Func} {sc sc' : Scope}

theorem paramSlot?_map_snd (name : String) :
    (paramSlot? ctx name).map Prod.snd = lastOf? name ctx.params := by
  conv => rhs; rw [lastOf?, ← List.zipIdx_map_fst 0 ctx.params, ← List.map_reverse, List.find?_map]
  simp only [paramSlot?, Option.map_map]
  rfl

theorem slot?_map_snd (name : String) (vars : List (String × Ty)) :
    (slot? name vars).map Prod.snd = (vars.find? (·.1 = name)).map Prod.snd := by
  conv => rhs; rw [← List.zipIdx_map_fst 0 vars, List.find?_map]
  simp only [slot?, Option.map_map]
  rfl

theorem vars_type?_eq (name : String) :
    (ctx.vars sc).type? name = ((paramSlot? ctx name).or (slot? name sc.locals)).map Prod.snd := by
  rw [Option.map_or, paramSlot?_map_snd, slot?_map_snd]
  rfl

theorem isSome_vars_type? (name : String) :
    ((ctx.vars sc).type? name).isSome = ctx.isVar sc.locals name := by
  rw [vars_type?_eq, Option.isSome_map, Option.isSome_or]
  rfl

theorem vars_type?_eq_none {name : String} :
    (ctx.vars sc).type? name = none ↔ ctx.isVar sc.locals name = false := by
  rw [← isSome_vars_type?, Option.isSome_eq_false_iff, Option.isNone_iff_eq_none]

namespace Program

theorem getElem?_of_findIdx? {name : String} {id : Nat}
    (h : P.decls.findIdx? (·.name = name) = some id) : P.decls[id]? = P.decl? name := by
  rw [decl?, List.find?_eq_bind_findIdx?_getElem?, h]
  rfl

theorem Known.lookupFunc?_eq_some (h : P.Known r) {qualifier name : String} {id : Nat} {f : Func}
    (hl : r.lookupFunc? qualifier name = some (id, f)) :
    qualifier = P.package ∧ ∃ decl, P.decls[id]? = some decl ∧ P.decl? name = some decl ∧
      f.sig = (headOf decl).1 := by
  have hget := Table.get?_of_lookup? hl
  obtain ⟨_, hid, hf⟩ := Option.bind_eq_some_iff.mp hl
  obtain ⟨_, -, he⟩ := Option.map_eq_some_iff.mp hf
  cases he
  rw [h.ids] at hid
  split at hid
  · next hq =>
    obtain ⟨hlt, -⟩ := List.findIdx?_eq_some_iff_getElem.mp hid
    have hdecl := List.getElem?_eq_getElem hlt
    obtain ⟨f', hf', hsig⟩ := h.sig hdecl
    obtain rfl : f' = f := Option.some.inj (hf'.symm.trans hget)
    exact ⟨hq, _, hdecl, (getElem?_of_findIdx? hid).symm.trans hdecl, hsig⟩
  · cases hid

theorem Known.lookupFunc?_eq_none (h : P.Known r) {name : String}
    (hl : r.lookupFunc? P.package name = none) : P.decl? name = none := by
  cases hd : P.decls.findIdx? (·.name = name) with
  | none =>
    rw [decl?, List.find?_eq_bind_findIdx?_getElem?, hd]
    rfl
  | some id =>
    obtain ⟨hlt, -⟩ := List.findIdx?_eq_some_iff_getElem.mp hd
    obtain ⟨f, hf, -⟩ := h.sig (List.getElem?_eq_getElem hlt)
    have hid : r.funcs.ids[(⟨P.package, name⟩ : Key)]? = some id := by
      rw [h.ids, if_pos rfl, hd]
    have hfound : r.lookupFunc? P.package name = some (id, f) := by
      rw [Registry.lookupFunc?, Table.lookup?, hid]
      exact Option.map_eq_some_iff.mpr ⟨f, hf, rfl⟩
    rw [hfound] at hl
    cases hl

end Program

theorem native?_coded {id : Nat} {f : Native} {qualifier name : String} (method : Bool)
    (hn : r.natives = P.natives) (h : r.lookupNative? qualifier name = some (id, f)) :
    P.native? qualifier name method = some (.native id f method) ∧
      Callee.Coded P self (.native id f method) (.numbered .callNative id) f.sig := by
  rw [Registry.lookupNative?, hn] at h
  constructor
  · rw [Program.native?, h]
    rfl
  · exact .native (Table.get?_of_lookup? h)

theorem plainCallee?_coded (hc : ctx.Of P self) {name : String} {i : Instr} {sig : Signature}
    (h : plainCallee? ctx name = some (i, sig)) :
    ∃ c, ((P.decl? name).map .func).or (P.native? P.package name false) = some c ∧
      c.Coded P self i sig ∧ c.isMethod = false := by
  unfold plainCallee? at h
  split at h
  · next he =>
    cases h
    refine ⟨.func self, ?_, ?_, rfl⟩
    · rw [he, hc.decl]
      rfl
    · have hcoded := @Callee.Coded.self P self
      rwa [hc.head] at hcoded
  · rw [hc.package] at h
    split at h
    · next id f hl =>
      cases h
      obtain ⟨-, decl, hd, hname, hsig⟩ := hc.known.lookupFunc?_eq_some hl
      refine ⟨.func decl, ?_, ?_, rfl⟩
      · rw [hname]
        rfl
      · rw [hsig]
        exact .func hd
    · next hl =>
      obtain ⟨⟨id, f⟩, hf, he⟩ := Option.map_eq_some_iff.mp h
      cases he
      obtain ⟨hcallee, hcoded⟩ := native?_coded false hc.known.natives hf
      refine ⟨_, ?_, hcoded, rfl⟩
      rw [hc.known.lookupFunc?_eq_none hl]
      exact hcallee

theorem qualifiedCallee?_coded (hc : ctx.Of P self) {qualifier name : String} {i : Instr}
    {sig : Signature} (h : qualifiedCallee? ctx qualifier name = some (i, sig)) :
    ∃ c, P.qualified? qualifier name = some c ∧ c.Coded P self i sig ∧ c.isMethod = false := by
  unfold qualifiedCallee? at h
  split at h
  · next id f hf =>
    cases h
    obtain ⟨hcallee, hcoded⟩ := native?_coded false hc.known.natives hf
    refine ⟨_, ?_, hcoded, rfl⟩
    rw [Program.qualified?, hcallee]
    rfl
  · next hn =>
    obtain ⟨⟨id, f⟩, hl, he⟩ := Option.map_eq_some_iff.mp h
    cases he
    obtain ⟨rfl, decl, hd, hname, hsig⟩ := hc.known.lookupFunc?_eq_some hl
    rw [Registry.lookupNative?, hc.known.natives] at hn
    refine ⟨.func decl, ?_, ?_, rfl⟩
    · rw [Program.qualified?, Program.native?, hn, if_pos rfl, hname]
      rfl
    · rw [hsig]
      exact .func hd

theorem vars_package?_eq {pos : Position} {name : String} :
    (ctx.vars sc).package? (.ident pos name) =
      if ctx.isVar sc.locals name then none else some name := by
  rw [Vars.package?, isSome_vars_type?]

/-- A call by a name. -/
theorem direct?_coded (hc : ctx.Of P self) {fn : Expr} {i : Instr} {sig : Signature}
    (h : ctx.direct? sc.locals fn = some (i, sig)) :
    (ctx.vars sc).receiver? fn = none ∧
      ∃ c, P.calleeOf? (ctx.vars sc) fn = some c ∧ c.Coded P self i sig ∧ c.isMethod = false := by
  unfold Context.direct? at h
  split at h
  · next pos name =>
    refine ⟨rfl, ?_⟩
    change ∃ c, P.plain? (ctx.vars sc) name = some c ∧ _
    unfold Program.plain?
    simp only [Bool.and_eq_true, decide_eq_true_eq, Bool.not_eq_true', ← vars_type?_eq_none] at h
    split at h
    · next hlen =>
      cases h
      rw [if_pos hlen]
      exact ⟨.length, rfl, .length, rfl⟩
    · next hlen =>
      rw [if_neg hlen]
      exact plainCallee?_coded hc h
  · next p pos qualifier sel =>
    split at h
    · cases h
    · next hv =>
      obtain ⟨name, hname, h⟩ := Option.bind_eq_some_iff.mp h
      have hpackage := @vars_package?_eq ctx sc pos qualifier
      rw [if_neg hv] at hpackage
      refine ⟨by simp [Vars.receiver?, hpackage], ?_⟩
      obtain ⟨c, hq, hcoded⟩ := qualifiedCallee?_coded hc h
      refine ⟨c, ?_, hcoded⟩
      simp only [Program.calleeOf?, Program.callee?, hname, hpackage]
      exact hq
  · cases h

/-- A call of a method. -/
theorem method?_coded (hc : ctx.Of P self) {fn x : Expr} {name : String} {t : Ty} {i : Instr}
    {sig : Signature} (h : ctx.receiver? sc.locals fn = some (x, name))
    (hm : method? ctx t name = some (i, sig)) (ht : P.types (ctx.vars sc) x = [t]) :
    (ctx.vars sc).receiver? fn = some x ∧
      ∃ c, P.calleeOf? (ctx.vars sc) fn = some c ∧ c.Coded P self i sig ∧ c.isMethod = true := by
  obtain ⟨⟨id, f⟩, hf, he⟩ := Option.map_eq_some_iff.mp hm
  cases he
  have hfn : ∃ p sel, fn = .selector p x sel ∧ sel.identName? = some name ∧
      (ctx.vars sc).package? x = none := by
    unfold Context.receiver? at h
    split at h
    · next p pos qualifier sel =>
      split at h
      · next hv =>
        obtain ⟨_, hsel, he⟩ := Option.map_eq_some_iff.mp h
        cases he
        exact ⟨p, sel, rfl, hsel, by rw [vars_package?_eq, if_pos hv]⟩
      · cases h
    · next p y sel hident =>
      obtain ⟨_, hsel, he⟩ := Option.map_eq_some_iff.mp h
      cases he
      refine ⟨p, sel, rfl, hsel, ?_⟩
      unfold Vars.package?
      split
      · exact (hident _ _ rfl).elim
      · rfl
    · cases h
  obtain ⟨p, sel, rfl, hsel, hpackage⟩ := hfn
  obtain ⟨hcallee, hcoded⟩ := @native?_coded P _ self id f _ name true hc.known.natives hf
  refine ⟨by simp [Vars.receiver?, hpackage], _, ?_, hcoded, rfl⟩
  simp only [Program.calleeOf?, Program.callee?, hsel, hpackage, ht, typeOf]
  exact hcallee

theorem namedConstant?_of_constant? {name : String} {op : Opcode} {t : Ty}
    (h : constant? name = some (op, t)) :
    ∃ v, namedConstant? name = some (t, v) ∧ op.onStack? = some (v :: ·) := by
  unfold constant? at h
  split at h <;> cases h <;> exact ⟨_, rfl, rfl⟩

theorem literal_of_literal? {kind : LitKind} {text : String} {v : Value} {t : Ty}
    (h : literal? kind text = some (v, t)) : literalValue kind text = v ∧ literalType kind = t := by
  unfold literal? at h
  split at h
  · obtain ⟨n, hn, he⟩ := Option.map_eq_some_iff.mp h
    cases he
    simp [literalValue, literalType, hn]
  · obtain ⟨s, hs, he⟩ := Option.map_eq_some_iff.mp h
    cases he
    simp [literalValue, literalType, hs]
  · cases h

theorem resultType_of_binaryOpcode? {op : BinaryOp} {t result : Ty} {opcode : Opcode}
    (h : binaryOpcode? op t = some (opcode, result)) : resultType op t = result := by
  unfold binaryOpcode? at h
  split at h <;> cases h <;> rfl

theorem eq_or_ne_of_nilOperand? {op : BinaryOp} {x y z : Expr}
    (h : ctx.nilOperand? sc.locals op x y = some z) : op = .eq ∨ op = .ne := by
  unfold Context.nilOperand? at h
  split at h
  · next hop => simpa using (Bool.and_eq_true_iff.mp hop).1
  · cases h

/-- The types that the compiler finds are the types of the values. -/
theorem Emits.types_eq (hc : ctx.Of P self) {ph : Phrase} {code : Code} {ts : List Ty}
    (h : Emits ctx sc ph code ts sc') {x : Expr} (hx : ph = .expr x) :
    P.types (ctx.vars sc) x = ts := by
  induction h generalizing x with
  | param hp =>
    cases hx
    simp [Program.types, vars_type?_eq, hp]
  | var hp hl =>
    cases hx
    simp [Program.types, vars_type?_eq, hp, hl]
  | const hv hk =>
    cases hx
    obtain ⟨v, hv', -⟩ := namedConstant?_of_constant? hk
    simp [Program.types, vars_type?_eq_none.mpr hv, hv']
  | lit hl _ =>
    cases hx
    simp [Program.types, (literal_of_literal? hl).2]
  | paren _ ih =>
    cases hx
    rw [Program.types]
    exact ih rfl
  | not _ _ =>
    cases hx
    rfl
  | neg _ _ =>
    cases hx
    rfl
  | logical hop _ _ _ _ _ =>
    cases hx
    rcases hop with rfl | rfl <;> rfl
  | nilTest hz _ _ _ _ =>
    cases hx
    rcases eq_or_ne_of_nilOperand? hz with rfl | rfl <;> rfl
  | binary _ _ _ ho ihx _ =>
    cases hx
    simp [Program.types, ihx rfl, typeOf, resultType_of_binaryOpcode? ho]
  | call hf _ _ =>
    cases hx
    obtain ⟨-, c, hcallee, hcoded, -⟩ := direct?_coded hc hf
    rw [Program.types_call, hcallee]
    exact hcoded.results_eq
  | method hf _ hm _ ihx _ =>
    cases hx
    obtain ⟨-, c, hcallee, hcoded, -⟩ := method?_coded hc hf hm (ihx rfl)
    rw [Program.types_call, hcallee]
    exact hcoded.results_eq
  | slice _ _ _ _ _ _ =>
    cases hx
    rfl
  | noBound | bound _ _ | noArgs | arg _ _ _ _ _ => cases hx

theorem Emits.vars_eq {ph : Phrase} {code : Code} {ts : List Ty}
    (h : Emits ctx sc ph code ts sc') : ctx.vars sc' = ctx.vars sc := by
  rw [Context.vars, h.moreConstants.locals]
  rfl

theorem EmitsTest.vars_eq {x : Option Expr} {code : Option Code}
    (h : EmitsTest ctx sc x code sc') : ctx.vars sc' = ctx.vars sc := by
  cases h with
  | none => rfl
  | some hx => exact hx.vars_eq

theorem Stores.vars_eq {x : Expr} {t : Ty} {define : Bool} {code : Code}
    (h : Stores ctx sc x t define code sc') :
    ctx.vars sc' = if define then (ctx.vars sc).declare x t else ctx.vars sc := by
  cases h with
  | discard => split <;> rfl
  | declare hn _ _ => simp [Vars.declare, hn, Context.vars]
  | assign _ _ _ _ => rfl

/-- The variables behind a clause. -/
def Program.declaredBy (P : Program) (vars : Vars) : Clause → Vars
  | .one s => P.declared vars s
  | .opt s => P.declaredOpt vars s
  | .many ss => P.declaredMany vars ss

/-- The locals that the compiler has met behind a clause are the variables declared there. -/
theorem EmitsStmt.vars_eq (hc : ctx.Of P self) {l : Bool} {c : Clause} {code : Code}
    (h : EmitsStmt ctx l sc c code sc') : ctx.vars sc' = P.declaredBy (ctx.vars sc) c := by
  induction h with
  | call hx => exact hx.vars_eq
  | retConst _ _ => rfl
  | ret hx _ => exact hx.vars_eq
  | assign hop hx _ hs =>
    rw [hs.vars_eq, hx.vars_eq]
    rcases hop with rfl | rfl
    · rfl
    · simp [Program.declaredBy, Program.declared, hx.types_eq hc rfl, typeOf]
  | assignTwo hop hx hs₂ hs₁ =>
    rw [hs₁.vars_eq, hs₂.vars_eq, hx.vars_eq]
    rcases hop with rfl | rfl
    · rfl
    · simp [Program.declaredBy, Program.declared, hx.types_eq hc rfl]
  | update _ _ hx _ _ => exact hx.vars_eq
  | step _ _ => rfl
  | block _ ih => exact ih
  | cond _ ht _ _ ihi ihb => rw [ihb, ht.vars_eq, ihi]; rfl
  | condElse _ ht _ _ _ _ ihi ihb iho => rw [iho, ihb, ht.vars_eq, ihi]; rfl
  | loop _ ht _ _ _ _ _ ihi ihb ihp => rw [ihp, ihb, ht.vars_eq, ihi]; rfl
  | leave => rfl
  | again => rfl
  | empty => rfl
  | absent => rfl
  | given _ ih => exact ih
  | nil => rfl
  | cons _ _ ih ihs => rw [ihs, ih]; rfl

end

end GoSift.Filter
