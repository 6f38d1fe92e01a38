import GoSift.Proofs.Filter.CodeTyping
import GoSift.Proofs.Filter.Linking
import GoSift.Proofs.Filter.StmtFollows

/-!
Programs that call natives in the form in which they were registered. Functions and methods stand in one
table under a qualifier and a name, so the form of a call decides whether there is a receiver on the
stack. All functions of such a program are checked.
-/
namespace GoSift.Filter

open Compiler

theorem Ty.ofName_text_ofName (name : String) : ofName (ofName name).text = ofName name := by
  have h : (ofName name).text = name := by
    unfold ofName
    split <;> rfl
  rw [h]

theorem Ty.ofName_eq_named {name : String} {c : Char} (h : c ∈ name.toList) (hc : c = '*' ∨ c = '.') :
    ofName name = named name := by
  unfold ofName
  split <;> first | rfl | rcases hc with rfl | rfl <;> simp at h

/-- A type that is written is the one of its text. -/
theorem Ty.ofName_text_of_ofExpr? {x : Expr} {t : Ty} (h : ofExpr? x = some t) : ofName t.text = t := by
  unfold ofExpr? at h
  split at h
  · cases h
    exact ofName_text_ofName _
  · obtain ⟨name, hn, rfl⟩ := Option.map_eq_some_iff.mp h
    obtain ⟨base, -, rfl⟩ := Option.map_eq_some_iff.mp hn
    have hstar : '*' ∈ ("*" ++ base).toList := by simp
    exact ofName_eq_named hstar (Or.inl rfl)
  · obtain ⟨name, hn, rfl⟩ := Option.map_eq_some_iff.mp h
    have hdot : '.' ∈ name.toList := by
      unfold typeName? at hn
      split at hn
      · next he => cases he
      · next he => cases he
      · cases hn
        simp
      · cases hn
    exact ofName_eq_named hdot (Or.inr rfl)
  · cases h
    rfl
  · cases h

theorem paramTypes_written {fields : List Field} {params : List (String × Ty)}
    (h : paramTypes fields = .ok params) : ∀ p ∈ params, Ty.ofName p.2.text = p.2 := by
  induction fields generalizing params with
  | nil =>
    cases h
    simp
  | cons field fields ih =>
    obtain ⟨pos, names, type⟩ := field
    rw [paramTypes] at h
    cases ht : Ty.ofExpr? type with
    | none =>
      rw [ht] at h
      cases h
    | some t =>
      rw [ht] at h
      cases hrest : paramTypes fields with
      | error e =>
        rw [hrest] at h
        cases h
      | ok rest =>
        rw [hrest] at h
        cases h
        intro p hp
        rcases List.mem_append.mp hp with hp | hp
        · obtain ⟨name, -, rfl⟩ := List.mem_map.mp hp
          exact Ty.ofName_text_of_ofExpr? ht
        · exact ih hrest p hp

/-- The types in the head of a declaration are written there. -/
theorem headOf_written (decl : GoSift.Func) :
    (∀ p ∈ (headOf decl).2, Ty.ofName p.2.text = p.2) ∧
      ∀ t ∈ (headOf decl).1.results, Ty.ofName t.text = t := by
  cases h : signatureOf decl with
  | error e => simp [headOf, h, Except.toOption]
  | ok head =>
    obtain ⟨sig, params⟩ := head
    rw [headOf_eq h]
    refine ⟨paramTypes_written (signatureOf_eq_ok h).1, ?_⟩
    simp only [signatureOf, bind, Except.bind, pure, Except.pure, throw, throwThe,
      MonadExceptOf.throw] at h
    split at h
    · cases h
    · split at h
      · cases h
      · split at h
        · split at h
          · cases h
          · split at h
            · cases h
            · next ht =>
              cases h
              simpa using Ty.ofName_text_of_ofExpr? ht
        · cases h

/-- A type of receivers of methods that are registered under a name: the type with that name, or one that
a native gives and that has that text. -/
def Table.Receives (natives : Table Native) (qualifier : String) (t : Ty) : Prop :=
  t.text = qualifier ∧
    (Ty.ofName qualifier = t ∨ ∃ id g, natives.get? id = some g ∧ t ∈ g.sig.results)

namespace Program

variable (P : Program)

/-- The types that expressions of a program have. -/
def Knows (t : Ty) : Prop :=
  t = .nil ∨ P.natives.Receives t.text t

/-- A native is called in its form, and as a method on a value of a type under which it is found. -/
def permits : CallPolicy := fun id g recv =>
  g.arity = g.sig.params.length + recv.isSome.toNat ∧
    ∀ t ∈ recv, P.Knows t ∧ ∃ name, P.natives.lookup? ⟨t.text, name⟩ = some (id, g)

variable {P}

theorem knows_of_written {t : Ty} (h : Ty.ofName t.text = t) : P.Knows t :=
  Or.inr ⟨rfl, Or.inl h⟩

end Program

theorem Opcode.knows_result {P : Program} {op : Opcode} {t : Ty} (h : op.result? = some t) :
    P.Knows t := by
  cases op <;> cases h <;> first | exact Or.inl rfl | exact Program.knows_of_written rfl

section

variable {P : Program} {ctx : Context} {self : GoSift.Func} {sc sc' : Scope}

theorem Callee.Coded.knows {c : Callee} {i : Instr} {sig : Signature} (h : c.Coded P self i sig) :
    ∀ t ∈ sig.results, P.Knows t := by
  cases h with
  | length => simpa using Program.knows_of_written rfl
  | self => exact fun t ht => Program.knows_of_written ((headOf_written self).2 t ht)
  | @func _ decl _ => exact fun t ht => Program.knows_of_written ((headOf_written decl).2 t ht)
  | native hf => exact fun t ht => Or.inr ⟨rfl, Or.inr ⟨_, _, hf, ht⟩⟩

/-- Expressions have types that are known, if their variables have. -/
theorem Emits.knows (hc : ctx.Of P self) {ph : Phrase} {code : Code} {ts : List Ty}
    (h : Emits ctx sc ph code ts sc') (hl : ∀ p ∈ sc.locals, P.Knows p.2) : ∀ t ∈ ts, P.Knows t := by
  have hparams : ∀ p ∈ ctx.params, P.Knows p.2 := by
    have hwritten := (headOf_written self).1
    rw [hc.head] at hwritten
    exact fun p hp => Program.knows_of_written (hwritten p hp)
  have hbool : ∀ t ∈ [Ty.bool], P.Knows t := by simpa using Program.knows_of_written rfl
  have hint : ∀ t ∈ [Ty.int], P.Knows t := by simpa using Program.knows_of_written rfl
  have hstring : ∀ t ∈ [Ty.string], P.Knows t := by simpa using Program.knows_of_written rfl
  induction h with
  | param hp => simpa using hparams _ (List.mem_of_getElem? (paramSlot?_eq_some hp))
  | var _ hv => simpa using hl _ (List.mem_of_getElem? (slot?_eq_some hv))
  | const _ hk => simpa using Opcode.knows_result (constant?_typed hk).2
  | lit hv _ =>
    unfold literal? at hv
    split at hv
    · obtain ⟨_, -, he⟩ := Option.map_eq_some_iff.mp hv
      cases he
      exact hint
    · obtain ⟨_, -, he⟩ := Option.map_eq_some_iff.mp hv
      cases he
      exact hstring
    · cases hv
  | paren _ ih => exact ih hl
  | not _ _ | logical _ _ _ _ _ _ | nilTest _ _ _ _ _ => exact hbool
  | neg _ _ | bound _ _ => exact hint
  | binary _ _ _ ho _ _ => simpa using Opcode.knows_result (binaryOpcode?_typed ho).2
  | call hf _ _ =>
    obtain ⟨-, c, -, hcoded, -⟩ := direct?_coded hc hf
    exact hcoded.knows
  | method hf hx hm _ _ _ =>
    obtain ⟨-, c, -, hcoded, -⟩ := method?_coded hc hf hm (hx.types_eq hc rfl)
    exact hcoded.knows
  | slice _ _ _ _ _ _ => exact hstring
  | noBound | noArgs => simp
  | arg hx _ _ ihx ihxs =>
    have hfirst := ihx hl
    have hrest := ihxs (hx.moreConstants.locals ▸ hl)
    simp only [List.mem_singleton, forall_eq] at hfirst
    exact List.forall_mem_cons.mpr ⟨hfirst, hrest⟩

theorem Stores.knows {x : Expr} {t : Ty} {define : Bool} {code : Code}
    (h : Stores ctx sc x t define code sc') (ht : P.Knows t) (hl : ∀ p ∈ sc.locals, P.Knows p.2) :
    ∀ p ∈ sc'.locals, P.Knows p.2 := by
  cases h with
  | discard | assign _ _ _ _ => exact hl
  | declare _ _ _ => exact List.forall_mem_append.mpr ⟨hl, by simpa using ht⟩

theorem EmitsStmt.knows (hc : ctx.Of P self) {l : Bool} {c : Clause} {code : Code}
    (h : EmitsStmt ctx l sc c code sc') (hl : ∀ p ∈ sc.locals, P.Knows p.2) :
    ∀ p ∈ sc'.locals, P.Knows p.2 := by
  induction h with
  | call hx | ret hx _ | update _ _ hx _ _ => exact hx.moreConstants.locals ▸ hl
  | assign _ hx _ hs =>
    have ht := hx.knows hc hl
    exact hs.knows (ht _ List.mem_cons_self) (hx.moreConstants.locals ▸ hl)
  | assignTwo _ hx hs₂ hs₁ =>
    have ht := hx.knows hc hl
    exact hs₁.knows (ht _ List.mem_cons_self)
      (hs₂.knows (ht _ (by simp)) (hx.moreConstants.locals ▸ hl))
  | cond _ ht _ _ ihi ihb => exact ihb (ht.moreConstants.locals ▸ ihi hl)
  | condElse _ ht _ _ _ _ ihi ihb iho => exact iho (ihb (ht.moreConstants.locals ▸ ihi hl))
  | loop _ ht _ _ _ _ _ ihi ihb ihp => exact ihp (ihb (ht.moreConstants.locals ▸ ihi hl))
  | cons _ _ ih ihs => exact ihs (ih hl)
  | block _ ih | given _ ih => exact ih hl
  | retConst | step | leave | again | empty | absent | nil => exact hl

namespace Program

theorem mem_argsCallees {vars : Vars} {x : Expr} {xs : List Expr} {c : Callee} (hx : x ∈ xs)
    (hc : c ∈ P.exprCallees vars x) : c ∈ P.argsCallees vars xs := by
  induction xs with
  | nil => cases hx
  | cons y ys ih =>
    rw [argsCallees, List.mem_append]
    rcases List.mem_cons.mp hx with rfl | hx
    · exact Or.inl hc
    · exact Or.inr (ih hx)

theorem boundCallees_eq (vars : Vars) (x : Option Expr) :
    P.boundCallees vars x = P.argsCallees vars x.toList := by
  cases x <;> simp [boundCallees, argsCallees]

theorem selector_of_receiver? {locals : List (String × Ty)} {fn x : Expr} {name : String}
    (h : ctx.receiver? locals fn = some (x, name)) : ∃ pos sel, fn = .selector pos x sel := by
  unfold Context.receiver? at h
  split at h
  · split at h
    · obtain ⟨_, -, he⟩ := Option.map_eq_some_iff.mp h
      cases he
      exact ⟨_, _, rfl⟩
    · cases h
  · obtain ⟨_, -, he⟩ := Option.map_eq_some_iff.mp h
    cases he
    exact ⟨_, _, rfl⟩
  · cases h

/-- What a part of an expression calls, the expression calls. -/
theorem exprCallees_part {locals : List (String × Ty)} {vars : Vars} {x y : Expr} {c : Callee}
    (hy : y ∈ ctx.parts locals x) (hc : c ∈ P.exprCallees vars y) : c ∈ P.exprCallees vars x := by
  unfold Context.parts at hy
  split at hy
  · obtain rfl := List.mem_singleton.mp hy
    exact hc
  · obtain rfl := List.mem_singleton.mp hy
    exact hc
  · rw [exprCallees, List.mem_append]
    simp only [List.mem_cons, List.not_mem_nil, or_false] at hy
    rcases hy with rfl | rfl
    · exact Or.inl hc
    · exact Or.inr hc
  · rcases List.mem_append.mp hy with hy | hy
    · obtain ⟨⟨_, name⟩, hr, rfl⟩ := Option.map_eq_some_iff.mp (Option.mem_toList.mp hy)
      obtain ⟨_, _, rfl⟩ := selector_of_receiver? hr
      simp only [exprCallees, List.mem_append]
      exact Or.inl (Or.inl hc)
    · rw [exprCallees_call]
      simp only [List.mem_append]
      exact Or.inl (Or.inr (mem_argsCallees hy hc))
  · rw [exprCallees]
    simp only [List.mem_cons, List.mem_append, boundCallees_eq] at hy ⊢
    rcases hy with rfl | hy | hy
    · exact Or.inl (Or.inl hc)
    · exact Or.inl (Or.inr (mem_argsCallees hy hc))
    · exact Or.inr (mem_argsCallees hy hc)
  · cases hy

/-- What a call means, the call calls. -/
theorem mem_exprCallees {vars : Vars} {pos : Position} {fn : Expr} {args : List Expr} {spread : Bool}
    {c : Callee} (h : P.calleeOf? vars fn = some c) :
    c ∈ P.exprCallees vars (.call pos fn args spread) := by
  rw [exprCallees_call, h]
  simp

/-- What a call of a native means. -/
theorem eq_native_of_coded {c : Callee} {id : Nat} {sig : Signature} {g : Native} (hc : ctx.Of P self)
    (h : c.Coded P self (.numbered .callNative id) sig) (hg : ctx.registry.natives.get? id = some g) :
    c = .native id g c.isMethod := by
  cases h with
  | native hf =>
    rw [hc.known.natives, hf] at hg
    cases hg
    rfl

theorem mem_stmtCallees {vars : Vars} {s : Stmt} {x : Expr} {c : Callee} (hx : x ∈ operandsOf s)
    (hc : c ∈ P.exprCallees vars x) : c ∈ P.stmtCallees vars s := by
  unfold operandsOf at hx
  split at hx
  · obtain rfl := List.mem_singleton.mp hx
    exact hc
  · exact mem_argsCallees hx hc
  · exact mem_argsCallees hx hc
  · cases hx

/-- What a conditional or a loop calls. -/
theorem stmtCallees_header {vars : Vars} {s body : Stmt} {first last : Option Stmt}
    {test : Option Expr} (h : headerOf? s = some (first, test, body, last)) :
    P.stmtCallees vars s = P.optCallees vars first
      ++ P.boundCallees (P.declaredOpt vars first) test
      ++ P.stmtCallees (P.declaredOpt vars first) body
      ++ P.optCallees (P.declared (P.declaredOpt vars first) body) last := by
  unfold headerOf? at h
  split at h <;> cases h <;> rfl

/-- Programs whose natives are called in their forms. -/
def discipline (hc : ctx.Of P self) : Discipline ctx P.permits where
  expr locals x :=
    (∀ c ∈ P.exprCallees ⟨ctx.params, locals⟩ x, c.Fits) ∧ ∀ p ∈ locals, P.Knows p.2
  clause locals c :=
    (∀ c' ∈ P.clauseCallees ⟨ctx.params, locals⟩ c, c'.Fits) ∧ ∀ p ∈ locals, P.Knows p.2
  part h hy := ⟨fun c hc => h.1 c (exprCallees_part hy hc), h.2⟩
  direct {locals _ _ _ _ _ _} h hd hg := by
    obtain ⟨-, c, hcallee, hcoded, hform⟩ := @direct?_coded P ctx self ⟨[], locals⟩ hc _ _ _ hd
    have hfits := h.1 c (mem_exprCallees hcallee)
    rw [eq_native_of_coded hc hcoded hg, hform] at hfits
    exact ⟨hfits, nofun⟩
  method {_ _ _ _ _ name _ _ t id g} h hr hx hn := by
    have hm : method? ctx t name = some (.numbered .callNative id, g.sig) := by
      rw [method?, hn]
      rfl
    obtain ⟨-, c, hcallee, hcoded, hform⟩ := method?_coded hc hr hm (hx.types_eq hc rfl)
    have hfits := h.1 c (mem_exprCallees hcallee)
    rw [eq_native_of_coded hc hcoded (Table.get?_of_lookup? hn), hform] at hfits
    refine ⟨hfits, ?_⟩
    rintro u ⟨rfl⟩
    rw [Registry.lookupNative?, hc.known.natives] at hn
    exact ⟨hx.knows hc h.2 t List.mem_cons_self, name, hn⟩
  operand h hx := ⟨fun c hc => h.1 c (mem_stmtCallees hx hc), h.2⟩
  block h := h
  given h := h
  head h := ⟨fun c hc => h.1 c (List.mem_append_left _ hc), h.2⟩
  tail {_ sc sc' _ _ _} h hs := by
    refine ⟨fun c hmem => h.1 c (List.mem_append_right _ ?_), hs.knows hc h.2⟩
    have hvars : ctx.vars sc' = P.declared (ctx.vars sc) _ := hs.vars_eq hc
    change c ∈ P.manyCallees (ctx.vars sc') _ at hmem
    rwa [hvars] at hmem
  init h hh := by
    refine ⟨fun c hmem => h.1 c ?_, h.2⟩
    rw [clauseCallees, stmtCallees_header hh]
    simp only [List.mem_append]
    exact Or.inl (Or.inl (Or.inl hmem))
  body {_ sc sc' _ _ first _ _ _} h hh hs := by
    have hvars : ctx.vars sc' = P.declaredOpt (ctx.vars sc) first := hs.vars_eq hc
    have hfits : ∀ c ∈ P.stmtCallees (ctx.vars sc) _, c.Fits := h.1
    simp only [stmtCallees_header hh, ← hvars, List.forall_mem_append, boundCallees_eq] at hfits
    have hknows := hs.knows hc h.2
    refine ⟨fun x hx => ⟨fun c hmem => hfits.1.1.2 c ?_, hknows⟩, hfits.1.2, hknows⟩
    exact mem_argsCallees (Option.mem_toList.mpr hx) hmem
  last {_ _ sc sc₁ sc₂ sc' _ body first _ _ _ _} h hh hs hl hb := by
    have hvars : ctx.vars sc₁ = P.declaredOpt (ctx.vars sc) first := hs.vars_eq hc
    have hsame : ctx.vars sc₂ = ctx.vars sc₁ := by simp [Context.vars, hl]
    have hvars' : ctx.vars sc' = P.declared (ctx.vars sc₂) body := hb.vars_eq hc
    have hfits : ∀ c ∈ P.stmtCallees (ctx.vars sc) _, c.Fits := h.1
    simp only [stmtCallees_header hh, ← hvars, ← hsame, ← hvars', List.forall_mem_append] at hfits
    exact ⟨hfits.2, hb.knows hc (hl ▸ hs.knows hc h.2)⟩

/-- The types of the locals of a compiled function, as its declaration has them. -/
def localTypes (P : Program) (f : Func) : List Ty :=
  match P.decl? f.name with
  | some decl => (P.declaredMany { params := (headOf decl).2 } (bodyOf decl)).locals.map Prod.snd
  | none => []

/-- A linked program has the functions that were known when a part of it was compiled. -/
theorem Linked.sig_of_known {r known : Registry} (hP : P.Linked r) (hknown : P.Known known)
    {id : Nat} {g : Func}
    (hg : known.funcs.get? id = some g) : ∃ g', r.funcs.get? id = some g' ∧ g'.sig = g.sig := by
  have hlt : id < P.decls.length := by
    rw [← hknown.size]
    exact (Array.getElem?_eq_some_iff.mp hg).1
  have hi := List.getElem?_eq_getElem hlt
  obtain ⟨_, hg', hsig⟩ := hknown.sig hi
  obtain rfl := Option.some.inj (hg'.symm.trans hg)
  obtain ⟨_, f, -, -, hcompile, hf⟩ := hP.func hi
  exact ⟨f, hf, (faithful_compileFunc hcompile).2.trans hsig.symm⟩

/-- Each function of a linked program is checked. -/
theorem Linked.checked {r : Registry} (hP : P.Linked r) (hd : (P.decls.map (·.name)).Nodup)
    (hheaded : ∀ decl ∈ P.decls, decl.Headed)
    (hfits : ∀ decl ∈ P.decls, ∀ c ∈ P.callees decl, c.Fits)
    {id : Nat} {f : Func} (hf : r.funcs.get? id = some f) :
    f.Checked r P.permits (P.localTypes f) := by
  have hlt : id < P.decls.length := by
    rw [← hP.size]
    exact (Array.getElem?_eq_some_iff.mp hf).1
  have hi : P.decls[id]? = some P.decls[id] := List.getElem?_eq_getElem hlt
  have hmem := List.mem_of_getElem? hi
  obtain ⟨known, f', hknown, hb, hcompile, hf'⟩ := hP.func hi
  obtain rfl : f' = f := Option.some.inj (hf'.symm.trans hf)
  obtain ⟨sig, params, body, code, scope, hc, rfl⟩ := compileFunc_eq_ok hcompile
  have hhead := headOf_eq hc.signature
  have hbody : bodyOf P.decls[id] = body := by
    rw [bodyOf, hc.statements]
    rfl
  have hof : Context.Of ⟨known, P.package, P.decls[id].name, sig, params⟩ P P.decls[id] :=
    ⟨hknown, rfl, P.decl?_name hd hmem, hhead⟩
  have hlocals : P.localTypes (assemble P.decls[id] sig code scope) = scope.locals.map Prod.snd := by
    have hvars := hc.emits.vars_eq hof
    have hname : P.decl? (assemble P.decls[id] sig code scope).name = some P.decls[id] :=
      P.decl?_name hd hmem
    rw [localTypes, hname]
    dsimp only
    rw [hhead, hbody]
    exact congrArg (fun vars => vars.locals.map Prod.snd) hvars.symm
  rw [hlocals]
  have hcallees := hfits _ hmem
  rw [Program.callees, hhead, hbody] at hcallees
  exact hc.checked hb (hheaded _ hmem) (hP.natives.trans hknown.natives.symm) (hP.sig_of_known hknown)
    (D := discipline hof) ⟨hcallees, nofun⟩

end Program

end

end GoSift.Filter
