import GoSift.Proofs.Filter.Natives
import GoSift.Proofs.Syntax.Parsed

/-!
Packages in one registry. Packages are added one after the other, and the functions of earlier ones stay
as they are. What is compiled for words and the library finds on the stack what it takes, so the machine
can do each of its instructions.
-/
namespace GoSift.Filter

open Compiler

namespace Registry

/-- The functions of a registry are in another one too, perhaps with other code. -/
structure Grows (r r' : Registry) : Prop where
  natives : r'.natives = r.natives
  funcs : ∀ {id : Nat} {g : Func}, r.funcs.get? id = some g →
    ∃ g', r'.funcs.get? id = some g' ∧ g'.sig = g.sig

section

variable {base known r r' : Registry} {package : String} {decls : List GoSift.Func}

theorem Grows.trans (h : known.Grows r) (h' : r.Grows r') : known.Grows r' where
  natives := h'.natives.trans h.natives
  funcs hg := by
    obtain ⟨g', hg', hsig⟩ := h.funcs hg
    obtain ⟨g'', hg'', hsig'⟩ := h'.funcs hg'
    exact ⟨g'', hg'', hsig'.trans hsig⟩

theorem lt_size_of_get? {α : Type} {t : Table α} {id : Nat} {a : α} (h : t.get? id = some a) :
    id < t.size :=
  (Array.getElem?_eq_some_iff.mp h).1

theorem Holds.get?_old (h : base.Holds package decls r) {id : Nat} {g : Func}
    (hg : base.funcs.get? id = some g) : r.funcs.get? id = some g :=
  (h.old id (lt_size_of_get? hg)).trans hg

theorem Holds.base_grows (h : base.Holds package decls r) : base.Grows r where
  natives := h.natives
  funcs hg := ⟨_, h.get?_old hg, rfl⟩

/-- Two registries that hold a package have its functions with the same signatures. -/
theorem Holds.grows (hk : base.Holds package decls known) (h : base.Holds package decls r) :
    known.Grows r where
  natives := h.natives.trans hk.natives.symm
  funcs {id g} hg := by
    by_cases hid : id < base.funcs.size
    · rw [hk.old id hid] at hg
      exact ⟨g, h.get?_old hg, rfl⟩
    · have hlt := lt_size_of_get? hg
      rw [hk.size] at hlt
      obtain ⟨i, rfl⟩ := Nat.exists_eq_add_of_le (Nat.not_lt.mp hid)
      have hi : decls[i]? = some (decls.get ⟨i, by omega⟩) := List.getElem?_eq_getElem (by omega)
      obtain ⟨g₁, hg₁, hsig₁⟩ := hk.sig hi
      obtain ⟨g₂, hg₂, hsig₂⟩ := h.sig hi
      obtain rfl := Option.some.inj (hg₁.symm.trans hg)
      exact ⟨g₂, hg₂, hsig₂.trans hsig₁.symm⟩

/-- A package that is added leaves no trace under other names. -/
theorem Holds.lacks (h : base.Holds package decls r) {other : String} (hl : base.Lacks other)
    (hne : other ≠ package) : r.Lacks other := by
  intro key hq
  rw [h.ids, if_neg (hq ▸ hne), hl key hq]

end

/-- A registry to which packages were added. Each was new, and its declarations have different names and
meet a condition. -/
inductive Packed (base : Registry) (Q : String → GoSift.Func → Prop) : Registry → Prop
  | base : Packed base Q base
  | add {r r' : Registry} {package : String} {decls : List GoSift.Func} {ids : List Nat}
      (h : Packed base Q r) (hnew : r.Lacks package) (hd : (decls.map (·.name)).Nodup)
      (hq : ∀ decl ∈ decls, Q package decl)
      (hc : compilePackage r package decls = (r', .ok ids)) : Packed base Q r'

namespace Packed

variable {base r : Registry} {Q : String → GoSift.Func → Prop}

theorem built (h : base.Packed Q r) (hb : base.Built) : r.Built := by
  induction h with
  | base => exact hb
  | add _ hnew hd _ hc ih => exact (links_of_compilePackage ih hnew hd hc).1.built

theorem natives (h : base.Packed Q r) (hb : base.Built) : r.natives = base.natives := by
  induction h with
  | base => rfl
  | add h hnew hd _ hc ih =>
    exact (links_of_compilePackage (h.built hb) hnew hd hc).1.holds.natives.trans ih

/-- Each function that was added is compiled from a declaration, with what was known at that time. -/
theorem origin (h : base.Packed Q r) (hb : base.Built) {id : Nat} {f : Func}
    (hf : r.funcs.get? id = some f) : base.funcs.get? id = some f ∨
      ∃ known package decl, known.Built ∧ known.Grows r ∧ Q package decl ∧
        compileFunc known package decl = .ok f := by
  induction h generalizing id f with
  | base => exact Or.inl hf
  | @add r r' package decls ids h hnew hd hq hc ih =>
    obtain ⟨hlinks, -⟩ := links_of_compilePackage (h.built hb) hnew hd hc
    have hholds := hlinks.holds
    by_cases hid : id < r.funcs.size
    · rw [hholds.old id hid] at hf
      rcases ih hf with hf | ⟨known, package, decl, hkb, hgrows, horigin⟩
      · exact Or.inl hf
      · exact Or.inr ⟨known, package, decl, hkb, hgrows.trans hholds.base_grows, horigin⟩
    · have hlt := lt_size_of_get? hf
      rw [hholds.size] at hlt
      obtain ⟨i, rfl⟩ := Nat.exists_eq_add_of_le (Nat.not_lt.mp hid)
      have hi : decls[i]? = some (decls.get ⟨i, by omega⟩) := List.getElem?_eq_getElem (by omega)
      obtain ⟨known, g, hk, hkb, hg, hget⟩ := hlinks.func hi
      obtain rfl := Option.some.inj (hget.symm.trans hf)
      exact Or.inr ⟨known, package, _, hkb, hk.grows hholds, hq _ (List.mem_of_getElem? hi), hg⟩

end Packed

end Registry

/-- A declaration of a package that is not named like the type of captured nodes, where the identifiers
are words. -/
def Wordy (package : String) (decl : GoSift.Func) : Prop :=
  package ≠ varType ∧ decl.RegularIn Token.Kind.NamesWord

theorem not_isWord_varType : ¬ Text.IsWord varType := by
  unfold Text.IsWord
  decide +kernel

section

variable {ctx : Context}

/-- No method is called like a function where no word is the name of the type that has methods. -/
theorem direct?_covered (hn : ctx.registry.natives = Registry.standard.natives)
    (hp : ctx.package ≠ varType) {locals : List (String × Ty)} {fn : Expr} {id : Nat}
    {sig : Signature} {g : Native} (hfn : fn.RegularIn Token.Kind.NamesWord)
    (h : ctx.direct? locals fn = some (.numbered .callNative id, sig))
    (hg : ctx.registry.natives.get? id = some g) : covered id g none := by
  have hlookup : ∃ key : Key, key.qualifier ≠ varType ∧
      ctx.registry.natives.lookup? key = some (id, g) := by
    unfold Context.direct? at h
    split at h
    · split at h
      · cases h
      · unfold plainCallee? at h
        split at h
        · cases h
        · split at h
          · cases h
          · obtain ⟨⟨id', g'⟩, hl, he⟩ := Option.map_eq_some_iff.mp h
            cases he
            obtain rfl := Option.some.inj ((Table.get?_of_lookup? hl).symm.trans hg)
            exact ⟨_, hp, hl⟩
    · next qualifier sel =>
      have hq : Text.IsWord qualifier :=
        (Expr.each_iff.mp (Expr.each_iff.mp hfn).2.1).1
      split at h
      · cases h
      · obtain ⟨name, -, h⟩ := Option.bind_eq_some_iff.mp h
        unfold qualifiedCallee? at h
        split at h
        · next hl =>
          cases h
          obtain rfl := Option.some.inj ((Table.get?_of_lookup? hl).symm.trans hg)
          exact ⟨_, fun he => not_isWord_varType (he ▸ hq), hl⟩
        · obtain ⟨_, -, he⟩ := Option.map_eq_some_iff.mp h
          cases he
    · cases h
  obtain ⟨key, hkey, hl⟩ := hlookup
  rw [hn] at hl
  exact Nat.le_of_eq ((Registry.standard_arity hl).2 hkey)

/-- What holds of all statements of a clause. -/
def Clause.RegularIn (I : Token.Kind → Prop) : Clause → Prop
  | one s => s.RegularIn I
  | opt s => ∀ t ∈ s, t.RegularIn I
  | many ss => ∀ s ∈ ss, s.RegularIn I

theorem regularIn_of_part {I : Token.Kind → Prop} {locals : List (String × Ty)} {x y : Expr}
    (h : x.RegularIn I) (hy : y ∈ ctx.parts locals x) : y.RegularIn I := by
  have hparts := (Expr.each_iff.mp h).2
  unfold Context.parts at hy
  split at hy
  · obtain rfl := List.mem_singleton.mp hy
    exact hparts
  · obtain rfl := List.mem_singleton.mp hy
    exact hparts
  · rcases List.mem_cons.mp hy with rfl | hy
    · exact hparts.1
    · obtain rfl := List.mem_singleton.mp hy
      exact hparts.2
  · rcases List.mem_append.mp hy with hy | hy
    · obtain ⟨⟨_, name⟩, hr, rfl⟩ := Option.map_eq_some_iff.mp (Option.mem_toList.mp hy)
      obtain ⟨_, _, rfl⟩ := Program.selector_of_receiver? hr
      exact (Expr.each_iff.mp hparts.1).2.1
    · exact hparts.2 y hy
  · obtain ⟨hx, hlow, hhigh, -⟩ := hparts
    simp only [List.mem_cons, List.mem_append, Option.mem_toList] at hy
    rcases hy with rfl | hy | hy
    · exact hx
    · exact hlow y hy
    · exact hhigh y hy
  · cases hy

theorem regularIn_of_operand {I : Token.Kind → Prop} {s : Stmt} {x : Expr} (h : s.RegularIn I)
    (hx : x ∈ operandsOf s) : x.RegularIn I := by
  have hparts := (Stmt.each_iff.mp h).2
  unfold operandsOf at hx
  split at hx
  · obtain rfl := List.mem_singleton.mp hx
    exact hparts
  · exact hparts x hx
  · exact hparts.2 x hx
  · cases hx

theorem regularIn_of_header {I : Token.Kind → Prop} {s body : Stmt} {first last : Option Stmt}
    {test : Option Expr} (h : s.RegularIn I) (hh : headerOf? s = some (first, test, body, last)) :
    (∀ t ∈ first, t.RegularIn I) ∧ (∀ x ∈ test, x.RegularIn I) ∧ body.RegularIn I ∧
      ∀ t ∈ last, t.RegularIn I := by
  have hparts := (Stmt.each_iff.mp h).2
  unfold headerOf? at hh
  split at hh
  · cases hh
    exact ⟨hparts.1, by simpa using hparts.2.1, hparts.2.2⟩
  · cases hh
    exact ⟨hparts.1, hparts.2.1, hparts.2.2.2, hparts.2.2.1⟩
  · cases hh

/-- Sources whose identifiers are words. -/
def wordDiscipline (hn : ctx.registry.natives = Registry.standard.natives)
    (hp : ctx.package ≠ varType) : Discipline ctx covered where
  expr _ x := x.RegularIn Token.Kind.NamesWord
  clause _ c := c.RegularIn Token.Kind.NamesWord
  part h hy := regularIn_of_part h hy
  direct h hd hg := direct?_covered hn hp (Expr.each_iff.mp h).2.1 hd hg
  method _ _ _ hl := by
    rw [Registry.lookupNative?, hn] at hl
    exact (Registry.standard_arity hl).1
  operand h hx := regularIn_of_operand h hx
  block h := (Stmt.each_iff.mp h).2
  given h := h _ rfl
  head h := h _ List.mem_cons_self
  tail h _ := fun s hs => h s (List.mem_cons_of_mem _ hs)
  init h hh := (regularIn_of_header h hh).1
  body h hh _ := ⟨(regularIn_of_header h hh).2.1, (regularIn_of_header h hh).2.2.1⟩
  last h hh _ _ _ := (regularIn_of_header h hh).2.2.2

end

/-- The functions of packages whose identifiers are words are checked. -/
theorem Registry.Packed.checked {r : Registry} (h : standard.Packed Wordy r) {id : Nat} {f : Func}
    (hf : r.funcs.get? id = some f) : ∃ locals, f.Checked r covered locals := by
  rcases h.origin standard_built hf with hf | ⟨known, package, decl, hkb, hgrows, ⟨hp, hw⟩, hcompile⟩
  · rw [standard_funcs] at hf
    cases hf
  · obtain ⟨sig, params, body, code, scope, hc, rfl⟩ := compileFunc_eq_ok hcompile
    have hn : known.natives = standard.natives :=
      hgrows.natives.symm.trans (h.natives standard_built)
    have hbody : Clause.RegularIn Token.Kind.NamesWord (.many body) := hc.each hw
    exact ⟨_, hc.checked hkb hw.headed hgrows.natives hgrows.funcs
      (D := wordDiscipline hn hp) hbody⟩

/-- What the next instruction of a state refers to is there: its operand names an argument, a local, a
constant or a place in the code, or it calls something that is registered. -/
def State.Executable (r : Registry) (s : State) : Prop :=
  ∃ op, s.frame.func.opcode? s.frame.pc = some op ∧
    match op with
    | .pushParam => ∃ i v, s.frame.index? = some i ∧ s.frame.args[i]? = some v
    | .pushLocal | .setLocal | .incLocal | .decLocal =>
      ∃ i v, s.frame.index? = some i ∧ s.frame.locals[i]? = some v
    | .pushConst => ∃ i v, s.frame.index? = some i ∧ s.frame.func.constants[i]? = some v
    | .jump | .jumpFalse | .jumpTrue => ∃ t, s.frame.target? = some t
    | .call => ∃ id g, s.frame.word? = some id ∧ r.funcs.get? id = some g
    | .callNative => ∃ id g, s.frame.word? = some id ∧ r.natives.get? id = some g
    | _ => True

/-- A step for which all is there goes on, or ends with a value. -/
theorem State.Executable.result_of_done {r : Registry} {s : State} {o : Outcome}
    (h : s.Executable r) (ho : s.step r = .done o) : ∃ v, o.result = .ok v := by
  obtain ⟨op, hop, h⟩ := h
  rw [step_of_opcode hop] at ho
  have hleave : ∀ {s : State} {v : Value}, s.leave v = .done o → ∃ v, o.result = .ok v := by
    intro s v ho
    unfold leave at ho
    split at ho
    · cases ho
      exact ⟨v, rfl⟩
    · cases ho
  cases hf : op.onStack? with
  | some f =>
    rw [exec_of_onStack hf] at ho
    cases ho
  | none =>
    cases op with
    | pushParam | pushLocal | pushConst | incLocal | decLocal | setLocal =>
      obtain ⟨i, v, hi, hv⟩ := h
      simp [exec, push, setLocal, go, hi, hv] at ho
    | jump =>
      obtain ⟨t, ht⟩ := h
      simp [exec, jump, ht] at ho
    | jumpFalse | jumpTrue =>
      obtain ⟨t, ht⟩ := h
      simp only [exec, jump, go, ht] at ho
      split at ho <;> cases ho
    | returnTop | returnTrue | returnFalse => exact hleave ho
    | callSelf => cases ho
    | call =>
      obtain ⟨id, g, hid, hg⟩ := h
      simp [exec, hid, hg, enter] at ho
    | callNative =>
      obtain ⟨id, g, hid, hg⟩ := h
      simp [exec, hid, hg, callNative] at ho
    | _ => cases hf

namespace Watch

/-- Nothing is watched but that the stack holds enough values. -/
def loose (locals : Func → List Ty) : Watch :=
  ⟨False, fun _ => True, locals⟩

variable {locals : Func → List Ty} {r : Registry} {permits : CallPolicy} {n : Nat} {out : Ty}

theorem conforms_loose {ts : List Ty} {stack : Stack} :
    (loose locals).Conforms ts stack ↔ ts.length ≤ stack.length := by
  refine ⟨Conforms.length_le, fun h => ?_⟩
  induction ts generalizing stack with
  | nil => exact .floor trivial
  | cons t ts ih =>
    obtain ⟨v, stack, rfl⟩ := List.exists_cons_of_length_pos (Nat.lt_of_lt_of_le (Nat.succ_pos _) h)
    exact .push False.elim (ih (by simpa using h))

/-- Balanced natives leave enough values on the stack if they find what they take. -/
theorem nativesConform_loose
    (hn : ∀ {id : Nat} {g : Native}, r.natives.get? id = some g → g.Balanced) :
    (loose locals).NativesConform r covered := by
  intro id g recv ts us stack hg hcovered hargs hstack
  rw [conforms_loose] at hstack ⊢
  have hrecv : recv.toList.length = recv.isSome.toNat := by cases recv <;> rfl
  have harity : g.arity ≤ ts.length + recv.toList.length := by
    rw [hargs.length_eq, hrecv]
    exact hcovered
  simp only [List.length_append, List.length_reverse] at hstack ⊢
  obtain ⟨results, hlen, hrun⟩ := hn hg (stack.take g.arity).reverse (by simp; omega)
  have hresult : g.run stack = results.reverse ++ stack.drop g.arity := by
    rw [← hrun (stack.drop g.arity), List.reverse_reverse, List.take_append_drop]
  rw [hresult, List.length_append, List.length_reverse, List.length_drop, hlen]
  omega

/-- In a run of checked code each instruction can be done. -/
theorem Ok.executable {W : Watch} {s : State} (h : W.Ok r permits (n + 1) out s) : s.Executable r := by
  obtain ⟨ts, us, result, hfr, -, -⟩ := h
  cases hfr.typed with
  | @straight op _ _ hop ht _ =>
    refine ⟨op, hop, ?_⟩
    cases ht with
    | operation hout _ => cases op <;> trivial
    | pop | dup | callSelf _ => trivial
    | pushParam hi ht =>
      obtain ⟨v, hget, -⟩ := exists_getElem?_of_forall₂ hfr.fits.args ht
      exact ⟨_, v, hi, hget⟩
    | pushLocal hi ht | setLocal hi ht _ =>
      obtain ⟨v, hget, -⟩ := hfr.fits.getLocal hfr.checked ht
      exact ⟨_, v, hi, hget⟩
    | @stepLocal up _ _ hi ht =>
      obtain ⟨v, hget, -⟩ := hfr.fits.getLocal hfr.checked ht
      cases up <;> exact ⟨_, v, hi, hget⟩
    | pushConst hi hv _ => exact ⟨_, _, hi, hv⟩
    | call hid hg _ => exact ⟨_, _, hid, hg⟩
    | callNative hid hg _ _ => exact ⟨_, _, hid, hg⟩
  | jump hop ht _ => exact ⟨_, hop, _, ht⟩
  | @branch whenTrue _ _ hop ht _ _ =>
    refine ⟨_, hop, ?_⟩
    cases whenTrue <;> exact ⟨_, ht⟩
  | ret hop _ _ => exact ⟨_, hop, trivial⟩
  | @retBool b hop _ =>
    refine ⟨_, hop, ?_⟩
    cases b <;> trivial

end Watch

/-- The types of the locals of checked functions. -/
noncomputable def Registry.layout (r : Registry) (f : Func) : List Ty :=
  open Classical in if h : ∃ locals, f.Checked r covered locals then h.choose else []

theorem Registry.Packed.checked_layout {r : Registry} (h : standard.Packed Wordy r) {id : Nat}
    {f : Func} (hf : r.funcs.get? id = some f) : f.Checked r covered (r.layout f) := by
  have hex := h.checked hf
  rw [layout, dif_pos hex]
  exact hex.choose_spec

section

variable {r : Registry} {f : Func} {id : Nat} {args : List Value} {stack : Stack}

/-- A run of a function with as many arguments as it has parameters, on any stack. -/
theorem Registry.Packed.ok_start (h : standard.Packed Wordy r) (hf : r.funcs.get? id = some f)
    (hargs : args.length = f.sig.params.length) (stack : Stack) :
    ∃ out, ∀ n, (Watch.loose r.layout).Ok r covered n out (.start f args stack) := by
  have hchecked := h.checked_layout hf
  obtain ⟨out, hout⟩ := hchecked.results
  exact ⟨out, Watch.ok_start hchecked hout (Watch.forall₂_fits not_false hargs.symm) trivial⟩

theorem Registry.Packed.balanced (h : standard.Packed Wordy r) {g : Native}
    (hg : r.natives.get? id = some g) : g.Balanced := by
  rw [h.natives standard_built] at hg
  exact standard_balanced hg

theorem Registry.Packed.nativesConform (h : standard.Packed Wordy r) :
    (Watch.loose r.layout).NativesConform r covered :=
  Watch.nativesConform_loose fun hg => h.balanced hg

/-- Each instruction of a run can be done. -/
theorem Registry.Packed.executable (h : standard.Packed Wordy r) (hf : r.funcs.get? id = some f)
    (hargs : args.length = f.sig.params.length) {k : Nat} {s : State}
    (hs : (State.start f args stack).Steps r k s) : s.Executable r := by
  obtain ⟨out, hok⟩ := h.ok_start hf hargs stack
  obtain ⟨hlast, -⟩ := (hok (1 + k)).steps h.nativesConform (fun hg => h.checked_layout hg)
    (k := 0) False.elim hs
  exact hlast.executable

theorem Registry.Packed.eval_eq_some (h : standard.Packed Wordy r) (hf : r.funcs.get? id = some f)
    (hargs : args.length = f.sig.params.length) {o : Outcome} (ho : f.eval r args stack = some o) :
    ∃ v stack calls, o = ⟨.ok v, stack, calls⟩ := by
  obtain ⟨out, hok⟩ := h.ok_start hf hargs stack
  obtain ⟨v, stack', calls, rfl, -⟩ :=
    Watch.Ok.run_eq_some h.nativesConform (fun hg => h.checked_layout hg) not_false hok ho
  exact ⟨v, stack', calls, rfl⟩

/-- A function does the same on every stack, and does not look at it. -/
theorem Registry.Packed.eval_under (h : standard.Packed Wordy r) (hf : r.funcs.get? id = some f)
    (hargs : args.length = f.sig.params.length) (stack : Stack) :
    f.eval r args stack = (f.eval r args []).map (·.under stack) := by
  obtain ⟨out, hok⟩ := h.ok_start hf hargs []
  exact Watch.Ok.run_under (fun hcovered => hcovered) (fun hg => h.balanced hg) (fun hg => h.checked_layout hg)
    h.nativesConform not_false hok stack fuelLimit

end

end GoSift.Filter
