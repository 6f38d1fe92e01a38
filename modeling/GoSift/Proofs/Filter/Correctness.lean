import GoSift.Proofs.Filter.Linking
import GoSift.Proofs.Filter.StmtFollows
import GoSift.Proofs.Filter.Verified
import Mathlib

/-!
Compiled packages do what their declarations mean: the machine ends as a call of the declaration ends,
with the same value and the same calls of natives, and it goes on forever if the call does.
-/
namespace GoSift.Filter

variable {P : Program} {r r' : Registry} {decl : GoSift.Func} {f : Func}

/-- The machine at the start of a function, where no local is assigned yet. -/
theorem Agrees.start {ctx : Context} {fin : Scope} {a : Activation} (hw : fin.WellFormed) :
    Agrees ctx fin a (List.replicate maxLocals .nil)
      { params := (ctx.params.map Prod.fst).zip a.args } where
  params := rfl
  length := List.length_replicate
  value := by
    intro i name t hi
    have hlt := Nat.lt_of_lt_of_le (lt_length_of_getElem? hi) hw.locals
    simp [hlt]

section

variable {known : Registry} {n : Nat}

/-- A compiled function follows a call of its declaration, if the functions it calls do so. -/
theorem serves_of_compileFunc (hk : P.Known known) (hb : known.Built)
    (hf : compileFunc known P.package decl = .ok f) (hdecl : P.decl? decl.name = some decl)
    (hheaded : decl.Headed) (hfits : ∀ c ∈ P.callees decl, c.Fits) (hnatives : r.natives = P.natives)
    (hanswered : P.Answered)
    (hfunc : ∀ {i : Nat} {callee : GoSift.Func}, P.decls[i]? = some callee →
      ∃ f, r.funcs.get? i = some f ∧ Serves r n (P.callFunc n callee) callee f)
    (hself : Serves r n (P.callFunc n decl) decl f) :
    Serves r (n + 1) (P.callFunc (n + 1) decl) decl f where
  params := hself.params
  results := hself.results
  follows := by
    intro args callers stack calls hargs
    obtain ⟨sig, params, body, code, scope, hc, rfl⟩ := compileFunc_eq_ok hf
    have hhead := headOf_eq hc.signature
    have hparams : params.length = sig.params.length := by
      rw [(signatureOf_eq_ok hc.signature).2.1, List.length_map]
    have hbody : bodyOf decl = body := by rw [bodyOf, hc.statements]; rfl
    have hcode : CodeAt (assemble decl sig code scope) 0 0 0 code := hc.codeAt hb
    have hS : Setting P r n (P.callFunc n) ⟨known, P.package, decl.name, sig, params⟩ decl scope
        ⟨assemble decl sig code scope, args, callers⟩ :=
      ⟨⟨hk, rfl, hdecl, hhead⟩, hnatives, hanswered, hfunc, hself, rfl, hargs.trans hparams.symm,
        hc.wellFormed⟩
    rw [Program.callees, hhead, hbody] at hfits
    rw [Program.callFunc, hhead, hbody]
    have hfollows := hc.emits.follows hS (hc.each hheaded) (.refl scope)
    refine (hfollows (Agrees.start hc.wellFormed) hcode hfits).bind fun out s hlands => ?_
    cases hlands with
    | next hf _ =>
      have hends : endsTerminating body = false := hf
      rw [hc.ends] at hends
      cases hends
    | break_ hl _ _ => cases hl
    | continue_ hl _ => cases hl
    | ret h => exact .pure h

end

/-- All functions of a linked program follow the calls of their declarations, at any fuel. -/
theorem Program.Linked.serves (hP : P.Linked r) (hanswered : P.Answered)
    (hd : (P.decls.map (·.name)).Nodup) (hheaded : ∀ decl ∈ P.decls, decl.Headed)
    (hfits : ∀ decl ∈ P.decls, ∀ c ∈ P.callees decl, c.Fits) (n : Nat) {i : Nat}
    {decl : GoSift.Func} (hi : P.decls[i]? = some decl) :
    ∃ f, r.funcs.get? i = some f ∧ Serves r n (P.callFunc n decl) decl f := by
  induction n generalizing i decl with
  | zero =>
    obtain ⟨known, f, -, -, hf, hget⟩ := hP.func hi
    obtain ⟨sig, params, body, code, scope, hc, rfl⟩ := compileFunc_eq_ok hf
    refine ⟨_, hget, ?_, ?_, fun _ => .failure⟩
    · rw [headOf_eq hc.signature]
      rfl
    · rw [headOf_eq hc.signature]
      exact (signatureOf_eq_ok hc.signature).2.2
  | succ n ih =>
    obtain ⟨known, f, hk, hb, hf, hget⟩ := hP.func hi
    have hm := List.mem_of_getElem? hi
    obtain ⟨f', hget', hserves⟩ := ih hi
    obtain rfl : f = f' := Option.some.inj (hget.symm.trans hget')
    exact ⟨f, hget, serves_of_compileFunc hk hb hf (P.decl?_name hd hm) (hheaded _ hm) (hfits _ hm)
      hP.natives hanswered ih hserves⟩

/-- A function does what a call of the declaration means. It ends with a value if and only if the call
has that value with enough fuel, and then the stack is as before and the calls of natives are the same.
However long a call goes on without an end, the function goes on as long, with the same calls. -/
structure Implements (P : Program) (r : Registry) (decl : GoSift.Func) (f : Func) : Prop where
  params : f.numParams = (headOf decl).1.params.length
  ends : ∀ {args : List Value} {stack : Stack}, args.length = f.numParams → ∀ o : Outcome,
    (∃ fuel, (State.start f args stack).run r fuel = some o) ↔
      ∃ fuel v calls, (P.callFunc fuel decl args).result [] = (some v, calls) ∧
        o = ⟨.ok v, stack, calls⟩
  goesOn : ∀ {args : List Value} {stack : Stack}, args.length = f.numParams →
    ∀ {fuel : Nat} {calls : List NativeCall}, (P.callFunc fuel decl args).result [] = (none, calls) →
      ∃ k s, fuel ≤ k + 1 ∧ (State.start f args stack).Steps r k s ∧ s.calls = calls

section

variable {n : Nat} {args : List Value} {calls : List NativeCall} {v : Value}

/-- A result of a call is an outcome of the machine. -/
theorem Serves.run_eq (h : Serves r n (P.callFunc n decl) decl f) (hargs : args.length = f.numParams)
    (hres : (P.callFunc n decl args).result [] = (some v, calls)) (stack : Stack) :
    ∃ fuel, (State.start f args stack).run r fuel = some ⟨.ok v, stack, calls⟩ := by
  have hfollows : Follows r (n - 1) (State.start f args stack) _ (Returns r [] stack) := h.follows hargs
  obtain ⟨k, s, hs, rfl, hreturn⟩ := hfollows.of_some hres
  refine ⟨k + 1, ?_⟩
  rw [State.run_of_steps hs, State.run, hreturn]
  rfl

/-- The machine does not end before a call that has no result. -/
theorem Serves.steps (h : Serves r n (P.callFunc n decl) decl f) (hargs : args.length = f.numParams)
    (hres : (P.callFunc n decl args).result [] = (none, calls)) (stack : Stack) :
    ∃ k s, n ≤ k + 1 ∧ (State.start f args stack).Steps r k s ∧ s.calls = calls := by
  have hfollows : Follows r (n - 1) (State.start f args stack) _ (Returns r [] stack) := h.follows hargs
  obtain ⟨k, s, hk, hs, hcalls⟩ := hfollows.of_none hres
  exact ⟨k, s, by omega, hs, hcalls⟩

end

theorem implements_of_serves (h : ∀ n, Serves r n (P.callFunc n decl) decl f) :
    Implements P r decl f where
  params := (h 0).params
  ends := by
    intro args stack hargs o
    constructor
    · rintro ⟨fuel, hrun⟩
      cases hres : (P.callFunc (fuel + 1) decl args).result [] with
      | mk result calls =>
        cases result with
        | none =>
          obtain ⟨k, s, hk, hs, -⟩ := (h (fuel + 1)).steps hargs hres stack
          rw [State.run_eq_none_of_steps hs (by omega)] at hrun
          cases hrun
        | some v =>
          obtain ⟨fuel', hrun'⟩ := (h (fuel + 1)).run_eq hargs hres stack
          have hmax := State.run_mono hrun (Nat.le_max_left fuel fuel')
          rw [State.run_mono hrun' (Nat.le_max_right fuel fuel')] at hmax
          exact ⟨fuel + 1, v, calls, hres, (Option.some.inj hmax).symm⟩
    · rintro ⟨fuel, v, calls, hres, rfl⟩
      exact (h fuel).run_eq hargs hres stack
  goesOn := by
    intro args stack hargs fuel calls hres
    exact (h fuel).steps hargs hres stack

/-- Compiling a package is correct. Before it there are natives only, and they do what the oracle says;
the declarations have different names, and natives are called as they were registered. -/
theorem compilePackage_implements {ids : List Nat} (hb : r.Built) (hfuncs : r.funcs = {})
    (hnatives : r.natives = P.natives) (hanswered : P.Answered)
    (hd : (P.decls.map (·.name)).Nodup) (hheaded : ∀ decl ∈ P.decls, decl.Headed)
    (hfits : ∀ decl ∈ P.decls, ∀ c ∈ P.callees decl, c.Fits)
    (hc : compilePackage r P.package P.decls = (r', .ok ids)) {i : Nat} {decl : GoSift.Func}
    (hi : P.decls[i]? = some decl) :
    ∃ id f, ids[i]? = some id ∧ r'.funcs.get? id = some f ∧ Implements P r' decl f := by
  obtain ⟨hlinked, rfl⟩ := P.linked_of_compilePackage hb hnatives hfuncs hd hc
  obtain ⟨f, hget, -⟩ := hlinked.serves hanswered hd hheaded hfits 0 hi
  refine ⟨i, f, by simp [lt_length_of_getElem? hi], hget, implements_of_serves fun n => ?_⟩
  obtain ⟨f', hget', hserves⟩ := hlinked.serves hanswered hd hheaded hfits n hi
  obtain rfl : f = f' := Option.some.inj (hget.symm.trans hget')
  exact hserves

/-- A native method that pops its receiver and pushes the size of it. -/
def weigh (s : Stack) : Stack :=
  .ofNat s.pop.1.asStr.utf8ByteSize :: s.pop.2

def scales : Registry :=
  (Registry.empty.addMethod "string" "Weight" ⟨[], [.int]⟩ weigh).1

/-- `func name(n int) bool { if n == 0 { return answer }; return other(n - 1) }` -/
def countDown (name other : String) (answer : Bool) : GoSift.Func :=
  let p : Position := default
  let n : Expr := .ident p "n"
  { pos := p
    recv := none
    name := name
    params := [.mk p [n] (.ident p "int")]
    results := [.mk p [] (.ident p "bool")]
    body := some (.block p [
      .cond p none (.binary p .eq n (.lit p .int "0"))
        (.block p [.ret p [.ident p (toString answer)]]) none,
      .ret p [.call p (.ident p other) [.binary p .sub n (.lit p .int "1")] false]]) }

/-- `func evenWeight(s string) bool { return s != "" && even(s.Weight()) }` -/
def evenWeight : GoSift.Func :=
  let p : Position := default
  let s : Expr := .ident p "s"
  { pos := p
    recv := none
    name := "evenWeight"
    params := [.mk p [s] (.ident p "string")]
    results := [.mk p [] (.ident p "bool")]
    body := some (.block p [
      .ret p [.binary p .logicalAnd (.binary p .ne s (.lit p .string "\x22\x22"))
        (.call p (.ident p "even") [.call p (.selector p s (.ident p "Weight")) [] false] false)]]) }

def weighing : Program where
  natives := scales.natives
  oracle _ args := [.ofNat (valueOf args).asStr.utf8ByteSize]
  package := "gorules"
  decls := [countDown "even" "odd" true, countDown "odd" "even" false, evenWeight]

theorem weighing_headed : ∀ decl ∈ weighing.decls, decl.Headed := by
  decide

theorem scales_natives :
    scales.natives.entries = #[⟨"(string).Weight", ⟨[], [.int]⟩, 1, weigh⟩] := by
  cbv

theorem weighing_answered : weighing.Answered := by
  intro id f hf args below hargs
  change scales.natives.entries[id]? = some f at hf
  rw [scales_natives] at hf
  cases id with
  | zero =>
    cases hf
    obtain ⟨v, rfl⟩ := List.length_eq_one_iff.mp hargs
    exact ⟨rfl, rfl⟩
  | succ id => simp at hf

theorem weighing_fits : ∀ decl ∈ weighing.decls, ∀ c ∈ weighing.callees decl, c.Fits := by
  have heven : weighing.callees (countDown "even" "odd" true) =
      [.func (countDown "odd" "even" false)] := by cbv
  have hodd : weighing.callees (countDown "odd" "even" false) =
      [.func (countDown "even" "odd" true)] := by cbv
  have hweight : weighing.callees evenWeight =
      [.native 0 ⟨"(string).Weight", ⟨[], [.int]⟩, 1, weigh⟩ true,
        .func (countDown "even" "odd" true)] := by cbv
  change ∀ decl ∈ [countDown "even" "odd" true, countDown "odd" "even" false, evenWeight], _
  simp [heven, hodd, hweight, Callee.Fits]

theorem weighing_implemented : ∃ r ids id f,
    compilePackage scales weighing.package weighing.decls = (r, .ok ids) ∧ ids[2]? = some id ∧
      r.funcs.get? id = some f ∧ Implements weighing r evenWeight f := by
  have hids : (compilePackage scales weighing.package weighing.decls).2 = .ok [0, 1, 2] := by cbv
  have hc : compilePackage scales weighing.package weighing.decls =
      ((compilePackage scales weighing.package weighing.decls).1, .ok [0, 1, 2]) := by rw [← hids]
  have hnames : (weighing.decls.map (·.name)).Nodup := by decide
  have hdecl : weighing.decls[2]? = some evenWeight := rfl
  obtain ⟨id, f, hid, hget, himpl⟩ := compilePackage_implements (.method .empty _ _ _ _) rfl rfl
    weighing_answered hnames weighing_headed weighing_fits hc hdecl
  exact ⟨_, _, id, f, hc, hid, hget, himpl⟩

end GoSift.Filter
