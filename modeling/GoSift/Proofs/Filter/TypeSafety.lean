import GoSift.Proofs.Filter.CallForms
import GoSift.Proofs.Filter.Correctness
import GoSift.Proofs.Filter.Preservation

/-!
Type safety of compiled code. An operation that reads an operand as a truth value, a number or a text
finds one, so the value that another kind would stand for is never used. There is one exception: a name is
known in a whole function once it is declared, and a local that is read before its declaration was run
is `nil`.
-/
namespace GoSift.Filter

/-- The next instruction finds what it reads: on the stack operands of the types for which it looks, and
a number in a local that it steps. -/
def State.Meets (s : State) : Prop :=
  ∀ op, s.frame.func.opcode? s.frame.pc = some op →
    (∀ (i : Nat) (t : Ty), op.operands[i]? = some (some t) → ∃ v, s.stack[i]? = some v ∧ t.holds v) ∧
      (op ∈ [.incLocal, .decLocal] →
        ∃ i v, s.frame.index? = some i ∧ s.frame.locals[i]? = some v ∧ Ty.int.holds v)

/-- On these arguments a native takes exactly them and gives results of its types. -/
def Native.Gives (g : Native) (args : List Value) : Prop :=
  ∃ results : List Value, List.Forall₂ (fun t v => t.holds v) g.sig.results results ∧
    ∀ below, g.run (args.reverse ++ below) = results.reverse ++ below

/-- Natives keep their types: a function with arguments of the types of its parameters, and a method also
with a receiver of the type under which it is registered. -/
structure Table.KeepsTypes (natives : Table Native) : Prop where
  func : ∀ {id : Nat} {g : Native} {args : List Value}, natives.get? id = some g →
    g.arity = g.sig.params.length → List.Forall₂ (fun t v => t.holds v) g.sig.params args → g.Gives args
  method : ∀ {key : Key} {id : Nat} {g : Native} {t : Ty} {v : Value} {args : List Value},
    natives.lookup? key = some (id, g) → g.arity = g.sig.params.length + 1 →
    natives.Receives key.qualifier t → t.holds v →
    List.Forall₂ (fun t v => t.holds v) g.sig.params args → g.Gives (v :: args)

/-- The kinds of all values are watched, and what lies on the stack at the start. -/
def Program.typing (P : Program) (stack : Stack) : Watch :=
  ⟨True, (· = stack), P.localTypes⟩

section

variable {P : Program} {r : Registry} {stack : Stack}

theorem Program.typing_fits {t : Ty} {v : Value} : (P.typing stack).Fits t v ↔ t.holds v :=
  ⟨fun h => h trivial, fun h _ => h⟩

theorem Program.forall₂_typing {ts : List Ty} {vs : List Value} :
    List.Forall₂ (P.typing stack).Fits ts vs ↔ List.Forall₂ (fun t v => t.holds v) ts vs := by
  constructor <;> exact List.Forall₂.imp fun t v => by simp [typing_fits]

/-- A value of a type that the program knows is one of a type of receivers with the same text. -/
theorem Program.Knows.receives {t : Ty} {v : Value} (h : P.Knows t) (hv : t.holds v) :
    ∃ u, P.natives.Receives t.text u ∧ u.holds v := by
  rcases h with rfl | h
  · exact ⟨.named "untyped nil", ⟨rfl, Or.inl rfl⟩, rfl⟩
  · exact ⟨t, h, hv⟩

theorem Program.nativesConform_typing (hnatives : r.natives = P.natives) (hn : P.natives.KeepsTypes) :
    (P.typing stack).NativesConform r P.permits := by
  rintro id g recv ts us below hg ⟨harity, hrecv⟩ hargs hstack
  rw [hnatives] at hg
  obtain ⟨args, below, rfl, hvs, hbelow⟩ := hstack.args
  have hvs := P.forall₂_typing.mp (Watch.fits_of_assignable hvs hargs)
  -- A receiver lies below the arguments.
  have hgives : ∃ (receiver : Option Value) (below' : Stack), below = receiver.toList ++ below' ∧
      g.Gives (receiver.toList ++ args) ∧ (P.typing stack).Conforms us below' := by
    cases recv with
    | none => exact ⟨none, below, rfl, hn.func hg (by simpa using harity) hvs, hbelow⟩
    | some t =>
      obtain ⟨v, below', rfl, hv, hbelow'⟩ := hbelow.pop
      obtain ⟨hknows, name, hlookup⟩ := hrecv t rfl
      obtain ⟨u, hu, hvu⟩ := hknows.receives (typing_fits.mp hv)
      exact ⟨some v, below', rfl, hn.method hlookup (by simpa using harity) hu hvu hvs, hbelow'⟩
  obtain ⟨receiver, below', rfl, ⟨results, hresults, hrun⟩, hbelow'⟩ := hgives
  have hreverse : args.reverse ++ (receiver.toList ++ below') =
      (receiver.toList ++ args).reverse ++ below' := by
    cases receiver <;> simp
  rw [hreverse, hrun]
  refine Watch.Conforms.append_iff.mpr ⟨_, below', rfl, P.forall₂_typing.mpr ?_, hbelow'⟩
  exact List.forall₂_reverse_iff.mpr hresults

end

section

variable {W : Watch} {r : Registry} {permits : CallPolicy} {n : Nat} {out : Ty} {s : State}

theorem Watch.Conforms.getElem? {ts : List Ty} {stack : Stack} {i : Nat} {t : Ty}
    (h : W.Conforms ts stack) (ht : ts[i]? = some t) : ∃ v, stack[i]? = some v ∧ W.Fits t v := by
  induction h generalizing i with
  | floor _ => cases ht
  | push hv _ ih =>
    cases i with
    | zero =>
      cases ht
      exact ⟨_, rfl, hv⟩
    | succ i => exact ih ht

/-- The checker has the types on the stack for which the next instruction looks. -/
theorem Func.Allows.getElem? {f : Func} {locals : List Ty} {next : Nat → List Ty → Prop} {pc i : Nat}
    {ts : List Ty} {op : Opcode} {t : Ty} (h : f.Allows r permits locals next pc ts)
    (hop : f.opcode? pc = some op) (ht : op.operands[i]? = some (some t)) : ts[i]? = some t := by
  have hmem : some t ∈ op.operands := List.mem_of_getElem? ht
  cases h with
  | straight hop' htransfer _ =>
    cases hop'.symm.trans hop
    cases htransfer with
    | operation _ hins =>
      obtain ⟨u, hu, hanswers⟩ := Watch.exists_getElem?_of_forall₂ hins.flip ht
      rw [List.getElem?_append_left (lt_length_of_getElem? hu), hu, hanswers t rfl]
    | @stepLocal up _ _ _ _ => cases up <;> simp [Opcode.operands] at hmem
    | _ => simp [Opcode.operands] at hmem
  | jump hop' _ _ =>
    cases hop'.symm.trans hop
    simp [Opcode.operands] at hmem
  | @branch whenTrue _ _ hop' _ _ _ =>
    have hoperands : op.operands = [some .bool] := by
      cases whenTrue <;> (cases hop'.symm.trans hop; rfl)
    rw [hoperands] at ht
    cases i with
    | zero =>
      cases ht
      rfl
    | succ i => simp at ht
  | ret hop' _ _ =>
    cases hop'.symm.trans hop
    simp [Opcode.operands] at hmem
  | @retBool b hop' _ =>
    cases hop'.symm.trans hop
    cases b <;> simp [Opcode.operands] at hmem

/-- A local that is stepped is a number. -/
theorem Func.Allows.stepped {f : Func} {locals : List Ty} {next : Nat → List Ty → Prop} {pc : Nat}
    {ts : List Ty} {op : Opcode} (h : f.Allows r permits locals next pc ts)
    (hop : f.opcode? pc = some op) (hstep : op ∈ [.incLocal, .decLocal]) :
    ∃ i : Nat, (f.at pc).index? = some i ∧ locals[i]? = some .int := by
  cases h with
  | straight hop' htransfer _ =>
    cases hop'.symm.trans hop
    cases htransfer with
    | operation hout _ =>
      simp only [List.mem_cons, List.not_mem_nil, or_false] at hstep
      rcases hstep with rfl | rfl <;> cases hout
    | stepLocal hi ht => exact ⟨_, hi, ht⟩
    | _ => simp at hstep
  | jump hop' _ _ | ret hop' _ _ =>
    cases hop'.symm.trans hop
    simp at hstep
  | @branch whenTrue _ _ hop' _ _ _ =>
    cases hop'.symm.trans hop
    cases whenTrue <;> simp at hstep
  | @retBool b hop' _ =>
    cases hop'.symm.trans hop
    cases b <;> simp at hstep

theorem Watch.Ok.meets (h : W.Ok r permits (n + 1) out s) (hk : W.kinds)
    (hread : s.readsUnset W.locals = false) : s.Meets := by
  obtain ⟨ts, us, result, hfr, -, hstack⟩ := h
  intro op hop
  constructor
  · intro i t ht
    have hget := Func.Allows.getElem? hfr.typed hop ht
    have happend : (ts ++ us)[i]? = some t := by
      rw [List.getElem?_append_left (lt_length_of_getElem? hget), hget]
    obtain ⟨v, hv, hfits⟩ := hstack.getElem? happend
    exact ⟨v, hv, hfits hk⟩
  · intro hstep
    obtain ⟨i, hi, ht⟩ := Func.Allows.stepped hfr.typed hop hstep
    obtain ⟨v, hv, hvalue⟩ := hfr.fits.getLocal hfr.checked ht
    refine ⟨i, v, hi, hv, ?_⟩
    rcases hvalue with rfl | hfits
    · exact State.holds_of_readsUnset hread hop (List.mem_cons_of_mem _ hstep) hi ht hv
    · exact hfits hk

end

theorem State.exists_steps_of_run {r : Registry} {fuel : Nat} {s : State} {o : Outcome}
    (h : s.run r fuel = some o) : ∃ k < fuel, ∃ s', s.Steps r k s' ∧ s'.step r = .done o := by
  induction fuel generalizing s with
  | zero => cases h
  | succ fuel ih =>
    rw [run] at h
    cases hstep : s.step r with
    | next s₁ =>
      rw [hstep] at h
      obtain ⟨k, hk, s', hs, hdone⟩ := ih h
      exact ⟨k + 1, by omega, s', ⟨s₁, hstep, hs⟩, hdone⟩
    | done o' =>
      rw [hstep] at h
      cases h
      exact ⟨0, by omega, s, rfl, hstep⟩

/-- Compiled packages are type safe. Before the package there are natives only, which keep their types;
the declarations have different names, and natives are called as they were registered. A call with
arguments of the types of the parameters meets operands of the right kinds, and ends with a value of the
type of the result, if it does not read a local of a type without `nil` before the local is assigned. -/
theorem compilePackage_typeSafe {P : Program} {r r' : Registry} {ids : List Nat} (hb : r.Built)
    (hfuncs : r.funcs = {}) (hnatives : r.natives = P.natives) (hn : r.natives.KeepsTypes)
    (hd : (P.decls.map (·.name)).Nodup) (hheaded : ∀ decl ∈ P.decls, decl.Headed)
    (hfits : ∀ decl ∈ P.decls, ∀ c ∈ P.callees decl, c.Fits)
    (hc : compilePackage r P.package P.decls = (r', .ok ids)) {id : Nat} {f : Func}
    (hf : r'.funcs.get? id = some f) {args : List Value}
    (hargs : List.Forall₂ (fun t v => t.holds v) f.sig.params args) (stack : Stack) :
    (∀ k s, (State.start f args stack).Steps r' k s →
      (State.start f args stack).readsSet r' P.localTypes (k + 1) → s.Meets) ∧
      ∀ fuel o, (State.start f args stack).run r' fuel = some o →
        (State.start f args stack).readsSet r' P.localTypes fuel →
        ∃ v result, o.result = .ok v ∧ f.sig.results = [result] ∧ result.holds v := by
  obtain ⟨hlinked, -⟩ := P.linked_of_compilePackage hb hnatives hfuncs hd hc
  rw [hnatives] at hn
  have hchecked := fun {id : Nat} {g : Func} (hg : r'.funcs.get? id = some g) =>
    hlinked.checked hd hheaded hfits hg
  have hconform : (P.typing stack).NativesConform r' P.permits :=
    P.nativesConform_typing hlinked.natives hn
  obtain ⟨result, hresult⟩ := (hchecked hf).results
  have hstart := Watch.ok_start (W := P.typing stack) (hchecked hf) hresult
    (P.forall₂_typing.mpr hargs) rfl
  have hreach : ∀ {k d s}, (State.start f args stack).Steps r' k s →
      (State.start f args stack).readsSet r' P.localTypes (k + d + 1) →
      (P.typing stack).Ok r' P.permits 1 result s ∧ s.readsUnset P.localTypes = false := by
    intro k d s hs hread
    obtain ⟨hok, hset⟩ := (hstart (1 + k)).steps (k := d + 1) hconform hchecked (fun _ => hread) hs
    have hset : s.readsSet r' P.localTypes (d + 1) := hset trivial
    simp only [State.readsSet, Bool.and_eq_true, Bool.not_eq_true'] at hset
    exact ⟨hok, hset.1⟩
  constructor
  · intro k s hs hread
    obtain ⟨hok, hset⟩ := hreach (d := 0) hs hread
    exact hok.meets trivial hset
  · intro fuel o ho hread
    obtain ⟨k, hk, s, hs, hdone⟩ := State.exists_steps_of_run ho
    obtain ⟨d, rfl⟩ := Nat.exists_eq_add_of_lt hk
    obtain ⟨hok, hset⟩ := hreach hs hread
    rcases hok.step hconform hchecked (fun _ => hset) with ⟨s', hnext, -⟩ | ⟨v, _, hend, hv, -⟩
    · rw [hdone] at hnext
      cases hnext
    · rw [hdone] at hend
      cases hend
      exact ⟨v, result, rfl, hresult, hv trivial⟩

theorem scales_keepsTypes : scales.natives.KeepsTypes := by
  have hentry : ∀ {id : Nat} {g : Native}, scales.natives.get? id = some g →
      g = ⟨"(string).Weight", ⟨[], [.int]⟩, 1, weigh⟩ := by
    intro id g hg
    change scales.natives.entries[id]? = some g at hg
    rw [scales_natives] at hg
    cases id with
    | zero => exact (Option.some.inj hg).symm
    | succ id => simp at hg
  constructor
  · intro id g args hg harity
    rw [hentry hg] at harity
    cases harity
  · intro key id g t v args hg _ _ _ hargs
    obtain rfl := hentry (Table.get?_of_lookup? hg)
    obtain rfl := List.forall₂_nil_left_iff.mp hargs
    exact ⟨[.ofNat v.asStr.utf8ByteSize], .cons rfl .nil, fun _ => rfl⟩

/-- `func heavier(s string) int { n := s.Weight(); n++; return n }` -/
def heavierDecl : GoSift.Func :=
  let p : Position := default
  let s : Expr := .ident p "s"
  let n : Expr := .ident p "n"
  { pos := p
    recv := none
    name := "heavier"
    params := [.mk p [s] (.ident p "string")]
    results := [.mk p [] (.ident p "int")]
    body := some (.block p [
      .assign p [n] .define [.call p (.selector p s (.ident p "Weight")) [] false],
      .incDec p n true,
      .ret p [n]]) }

def heavier : Program :=
  { weighing with decls := [heavierDecl] }

theorem heavier_typeSafe : ∃ r f v result,
    compilePackage scales heavier.package heavier.decls = (r, .ok [0]) ∧ r.funcs.get? 0 = some f ∧
      (State.start f [.str "pear"] []).readsSet r heavier.localTypes 10 ∧
      ((State.start f [.str "pear"] []).run r 10).map (·.result.toOption) = some (some v) ∧
      f.sig.results = [result] ∧ result.holds v := by
  have hids : (compilePackage scales heavier.package heavier.decls).2 = .ok [0] := by cbv
  have hc : compilePackage scales heavier.package heavier.decls =
      ((compilePackage scales heavier.package heavier.decls).1, .ok [0]) := by rw [← hids]
  have hrun : ((compilePackage scales heavier.package heavier.decls).1.funcs.get? 0).map (fun f =>
      (f.sig.params, ((State.start f [.str "pear"] []).run
        (compilePackage scales heavier.package heavier.decls).1 10).isSome,
        (State.start f [.str "pear"] []).readsSet
          (compilePackage scales heavier.package heavier.decls).1 heavier.localTypes 10)) =
      some ([.string], true, true) := by cbv
  obtain ⟨f, hf, hrun⟩ := Option.map_eq_some_iff.mp hrun
  simp only [Prod.mk.injEq] at hrun
  obtain ⟨hparams, hrun, hset⟩ := hrun
  obtain ⟨o, ho⟩ := Option.isSome_iff_exists.mp hrun
  have hfits : ∀ decl ∈ heavier.decls, ∀ c ∈ heavier.callees decl, c.Fits := by
    have hcallees : heavier.callees heavierDecl =
        [.native 0 ⟨"(string).Weight", ⟨[], [.int]⟩, 1, weigh⟩ true] := by cbv
    change ∀ decl ∈ [heavierDecl], _
    simp [hcallees, Callee.Fits]
  have hargs : List.Forall₂ (fun t v => t.holds v) f.sig.params [.str "pear"] := by
    rw [hparams]
    exact .cons rfl .nil
  obtain ⟨v, result, hv, hresult, hholds⟩ := (compilePackage_typeSafe (.method .empty _ _ _ _) rfl rfl
    scales_keepsTypes (by decide) (by decide) hfits hc hf hargs []).2 10 o ho hset
  refine ⟨_, f, v, result, hc, hf, hset, ?_, hresult, hholds⟩
  rw [ho, Option.map_some, hv]
  rfl

/-- `func pick(b bool) int { if b { x := 1 }; return x }` -/
def pickDecl : GoSift.Func :=
  let p : Position := default
  let b : Expr := .ident p "b"
  let x : Expr := .ident p "x"
  { pos := p
    recv := none
    name := "pick"
    params := [.mk p [b] (.ident p "bool")]
    results := [.mk p [] (.ident p "int")]
    body := some (.block p [
      .cond p none b (.block p [.assign p [x] .define [.lit p .int "1"]]) none,
      .ret p [x]]) }

/-- A local that was declared in a branch can be read although the branch was not taken. -/
theorem skipped_declaration_gives_nil : ∃ r f,
    compilePackage .empty "main" [pickDecl] = (r, .ok [0]) ∧ r.funcs.get? 0 = some f ∧
      f.sig = ⟨[.bool], [.int]⟩ ∧
      (State.start f [.bool false] []).run r 10 = some ⟨.ok .nil, [], []⟩ ∧
      Ty.int.holds .nil = false := by
  have hids : (compilePackage .empty "main" [pickDecl]).2 = .ok [0] := by cbv
  have hc : compilePackage .empty "main" [pickDecl] =
      ((compilePackage .empty "main" [pickDecl]).1, .ok [0]) := by rw [← hids]
  have hrun : ((compilePackage .empty "main" [pickDecl]).1.funcs.get? 0).map (fun f =>
      (f.sig, (State.start f [.bool false] []).run
        (compilePackage .empty "main" [pickDecl]).1 10)) =
      some (⟨[.bool], [.int]⟩, some ⟨.ok .nil, [], []⟩) := by cbv
  obtain ⟨f, hf, hrun⟩ := Option.map_eq_some_iff.mp hrun
  simp only [Prod.mk.injEq] at hrun
  exact ⟨_, f, hc, hf, hrun.1, hrun.2, rfl⟩

end GoSift.Filter
