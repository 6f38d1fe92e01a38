import GoSift.Proofs.Filter.CallForms
import GoSift.Proofs.Filter.Correctness
import GoSift.Proofs.Filter.Preservation

/-!
Balance of the operand stack. A run of a compiled function takes nothing off the stack but what it has
put there, so it does the same on every stack, and leaves it as it was.
-/
namespace GoSift.Filter

/-- The same state with more values at the bottom of the stack. -/
def State.under (s : State) (below : Stack) : State :=
  { s with stack := s.stack ++ below }

def Outcome.under (o : Outcome) (below : Stack) : Outcome :=
  { o with stack := o.stack ++ below }

def Progress.under (below : Stack) : Progress → Progress
  | next s => .next (s.under below)
  | done o => .done (o.under below)

/-- How many values the instruction at a place takes off the stack or looks at there. -/
def Func.demand (r : Registry) (f : Func) (pc : Nat) : Nat :=
  match f.opcode? pc with
  | none => 0
  | some .call => (((f.at pc).word?.bind r.funcs.get?).map Func.numParams).getD 0
  | some .callSelf => f.numParams
  | some .callNative => (((f.at pc).word?.bind r.natives.get?).map Native.arity).getD 0
  | some op => op.operands.length

/-- A native takes as many values as it has arguments and puts one on the stack for each result. -/
def Native.Balanced (g : Native) : Prop :=
  ∀ args : List Value, args.length = g.arity → ∃ results : List Value,
    results.length = g.sig.results.length
      ∧ ∀ below, g.run (args.reverse ++ below) = results.reverse ++ below

section

variable {r : Registry} {s : State} {below : Stack}

/-- Operations on the stack look at their operands only. -/
theorem Opcode.onStack?_append {op : Opcode} {f : Stack → Stack} (hf : op.onStack? = some f)
    {own : Stack} (hd : op.operands.length ≤ own.length) : f (own ++ below) = f own ++ below := by
  cases op <;> cases hf <;>
    first
      | rfl
      | obtain _ | ⟨x, _ | ⟨y, _ | ⟨z, own⟩⟩⟩ := own <;> first | rfl | simp [operands] at hd

namespace State

theorem push_under (op : Opcode) (v : Option Value) :
    (s.under below).push op v = (s.push op v).under below := by
  cases v <;> rfl

theorem setLocal_under (op : Opcode) (change : Value → Value) :
    (s.under below).setLocal op change = (s.setLocal op change).under below := by
  simp only [setLocal, under]
  cases s.frame.index? with
  | none => rfl
  | some i => cases hv : s.frame.locals[i]? <;> simp only [hv] <;> rfl

theorem jump_under : (s.under below).jump = s.jump.under below := by
  simp only [jump, under]
  cases s.frame.target? <;> rfl

theorem leave_under (v : Value) : (s.under below).leave v = (s.leave v).under below := by
  simp only [leave, under]
  cases s.callers <;> rfl

theorem enter_under (op : Opcode) {f : Func} (hd : f.numParams ≤ s.stack.length) :
    (s.under below).enter op f = (s.enter op f).under below := by
  simp only [enter, under, Stack.popN, List.take_append_of_le_length hd,
    List.drop_append_of_le_length hd]
  rfl

theorem callNative_under (op : Opcode) {id : Nat} {g : Native} (hg : g.Balanced)
    (hd : g.arity ≤ s.stack.length) :
    (s.under below).callNative op id g = (s.callNative op id g).under below := by
  obtain ⟨results, -, hrun⟩ := hg (s.stack.take g.arity).reverse (by simpa using hd)
  simp only [List.reverse_reverse] at hrun
  have hstack : s.stack = s.stack.take g.arity ++ s.stack.drop g.arity :=
    (List.take_append_drop _ _).symm
  have hunder : g.run (s.stack ++ below) = g.run s.stack ++ below := by
    rw [hstack, List.append_assoc, hrun, hrun, List.append_assoc]
  simp only [callNative, under, Stack.popN, List.take_append_of_le_length hd, hunder]
  rfl

theorem step_of_opcode {op : Opcode} (h : s.frame.func.opcode? s.frame.pc = some op) :
    s.step r = s.exec r op := by
  have hbind : s.frame.func.code[s.frame.pc]?.bind Opcode.ofByte? = some op := h
  simp only [step, hbind]

theorem exec_of_onStack {op : Opcode} {f : Stack → Stack} (hf : op.onStack? = some f) :
    s.exec r op = s.go op (f s.stack) := by
  cases op <;> cases hf <;> rfl

/-- A step does not depend on what lies below its operands. -/
theorem step_under (hn : ∀ {id : Nat} {g : Native}, r.natives.get? id = some g → g.Balanced)
    (hd : s.frame.func.demand r s.frame.pc ≤ s.stack.length) :
    (s.under below).step r = (s.step r).under below := by
  cases hop : s.frame.func.opcode? s.frame.pc with
  | none =>
    have hbind : s.frame.func.code[s.frame.pc]?.bind Opcode.ofByte? = none := hop
    simp only [step, under, hbind]
    rfl
  | some op =>
    rw [step_of_opcode hop, step_of_opcode (s := s.under below) hop]
    simp only [Func.demand, hop] at hd
    cases hf : op.onStack? with
    | some f =>
      have hd : op.operands.length ≤ s.stack.length := by cases op <;> first | exact hd | cases hf
      rw [exec_of_onStack hf, exec_of_onStack hf]
      simp only [go, under, Opcode.onStack?_append hf hd]
      rfl
    | none =>
      obtain ⟨fr, callers, stack, calls⟩ := s
      cases op with
      | pushParam => exact push_under _ _
      | pushLocal => exact push_under _ _
      | pushConst => exact push_under _ _
      | incLocal => exact setLocal_under _ _
      | decLocal => exact setLocal_under _ _
      | jump => exact jump_under
      | returnTrue => exact leave_under _
      | returnFalse => exact leave_under _
      | setLocal =>
        obtain ⟨v, stack, rfl⟩ := List.exists_cons_of_length_pos hd
        exact setLocal_under (s := ⟨fr, callers, stack, calls⟩) _ _
      | returnTop =>
        obtain ⟨v, stack, rfl⟩ := List.exists_cons_of_length_pos hd
        exact leave_under (s := ⟨fr, callers, stack, calls⟩) _
      | jumpFalse =>
        obtain ⟨v, stack, rfl⟩ := List.exists_cons_of_length_pos hd
        cases hv : v.asBool <;> simp only [exec, under, List.cons_append, Stack.pop, hv]
        · exact jump_under (s := ⟨fr, callers, stack, calls⟩)
        · rfl
      | jumpTrue =>
        obtain ⟨v, stack, rfl⟩ := List.exists_cons_of_length_pos hd
        cases hv : v.asBool <;> simp only [exec, under, List.cons_append, Stack.pop, hv]
        · rfl
        · exact jump_under (s := ⟨fr, callers, stack, calls⟩)
      | callSelf => exact enter_under _ hd
      | call =>
        simp only [exec, under]
        cases hid : fr.word? with
        | none => rfl
        | some id =>
          cases hg : r.funcs.get? id with
          | none =>
            simp only [hg]
            rfl
          | some g =>
            simp only [hg]
            refine enter_under (s := ⟨fr, callers, stack, calls⟩) _ ?_
            change (((fr.word?).bind r.funcs.get?).map Func.numParams).getD 0 ≤ _ at hd
            simpa [hid, hg] using hd
      | callNative =>
        simp only [exec, under]
        cases hid : fr.word? with
        | none => rfl
        | some id =>
          cases hg : r.natives.get? id with
          | none =>
            simp only [hg]
            rfl
          | some g =>
            simp only [hg]
            refine callNative_under (s := ⟨fr, callers, stack, calls⟩) _ (hn hg) ?_
            change (((fr.word?).bind r.natives.get?).map Native.arity).getD 0 ≤ _ at hd
            simpa [hid, hg] using hd
      | _ => cases hf

end State

end

/-- Nothing is watched but the number of values, on a stack that is empty at the start. -/
def Program.counting (P : Program) : Watch :=
  ⟨False, (· = []), P.localTypes⟩

section

variable {P : Program} {r : Registry} {n : Nat} {out : Ty}

/-- Balanced natives that are called in their forms replace their arguments by results. -/
theorem Program.nativesConform_counting
    (hn : ∀ {id : Nat} {g : Native}, r.natives.get? id = some g → g.Balanced) :
    P.counting.NativesConform r P.permits := by
  rintro id g recv ts us stack hg ⟨harity, -⟩ hargs hstack
  have hreverse : ts.reverse ++ (recv.toList ++ us) = (recv.toList ++ ts).reverse ++ us := by
    cases recv <;> simp
  rw [hreverse] at hstack
  obtain ⟨args, below, rfl, hvs, hbelow⟩ := hstack.args
  have hlen : args.length = g.arity := by
    rw [← hvs.length_eq, harity, ← hargs.length_eq]
    cases recv <;> simp
  obtain ⟨results, hresults, hrun⟩ := hn hg args hlen
  rw [hrun]
  exact Watch.Conforms.append_iff.mpr
    ⟨_, below, rfl, Watch.forall₂_fits not_false (by simp [hresults]), hbelow⟩

end

/-- A native takes no more values than the call puts on the stack. -/
def covered : CallPolicy := fun _ g recv =>
  g.arity ≤ g.sig.params.length + recv.isSome.toNat

section

variable {r : Registry} {permits : CallPolicy}
  (hp : ∀ {id : Nat} {g : Native} {recv : Option Ty}, permits id g recv → covered id g recv)
include hp

/-- The checker has at least as many values on the stack as the next instruction needs. -/
theorem Func.Allows.demand_le {f : Func} {locals : List Ty} {next : Nat → List Ty → Prop} {pc : Nat}
    {ts : List Ty} (h : f.Allows r permits locals next pc ts)
    (hf : f.numParams = f.sig.params.length)
    (hfuncs : ∀ {id : Nat} {g : Func}, r.funcs.get? id = some g → g.numParams = g.sig.params.length) :
    f.demand r pc ≤ ts.length := by
  cases h with
  | @straight op _ _ hop ht _ =>
    simp only [demand, hop]
    cases ht with
    | operation hout hins =>
      have hlen := hins.length_eq
      cases op <;> cases hout <;> simp_all
    | pop | dup | pushParam _ _ | pushLocal _ _ | pushConst _ _ _ | setLocal _ _ _ =>
      simp [Opcode.operands]
    | @stepLocal up _ _ _ _ => cases up <;> simp [Opcode.operands]
    | call hid hg hargs => simp [hid, hg, hfuncs hg, hargs.length_eq]
    | callSelf hargs => simp [hf, hargs.length_eq]
    | @callNative _ _ recv _ _ hid hg hpermits hargs =>
      have hcovered := hp hpermits
      unfold covered at hcovered
      cases recv <;> simp_all [hargs.length_eq] <;> omega
  | jump hop _ _ => simp [demand, hop, Opcode.operands]
  | @branch whenTrue _ _ hop _ _ _ => cases whenTrue <;> simp_all [demand, Opcode.operands]
  | ret hop _ _ => simp [demand, hop, Opcode.operands]
  | @retBool b hop _ => cases b <;> simp_all [demand, Opcode.operands]

namespace Watch.Ok

variable {W : Watch} {s : State} {out : Ty}
  (hn : ∀ {id : Nat} {g : Native}, r.natives.get? id = some g → g.Balanced)
  (hf : ∀ {id : Nat} {g : Func}, r.funcs.get? id = some g → g.Checked r permits (W.locals g))
include hf

/-- In a run of checked code each instruction finds its operands. -/
theorem demand_le {n : Nat} (h : W.Ok r permits (n + 1) out s) :
    s.frame.func.demand r s.frame.pc ≤ s.stack.length := by
  obtain ⟨ts, us, result, hfr, -, hstack⟩ := h
  have hdemand := Func.Allows.demand_le hp hfr.typed hfr.checked.params fun hg => (hf hg).params
  have hlen := hstack.length_le
  rw [List.length_append] at hlen
  omega

include hn

/-- A run of checked code on a stack follows the run without the values below. -/
theorem run_under (hnatives : W.NativesConform r permits) (hk : ¬ W.kinds)
    (h : ∀ n, W.Ok r permits n out s) (below : Stack) (fuel : Nat) :
    (s.under below).run r fuel = (s.run r fuel).map (·.under below) := by
  induction fuel generalizing s with
  | zero => rfl
  | succ fuel ih =>
    simp only [State.run, State.step_under hn ((h 1).demand_le hp hf)]
    rcases step_always hnatives hf hk h with ⟨s', hnext, hok⟩ | ⟨v, _, hdone, -⟩
    · rw [hnext]
      exact ih hok
    · rw [hdone]
      rfl

end Watch.Ok

end

section

variable {P : Program} {r : Registry} {n : Nat} {out : Ty}

theorem Program.covered_of_permits {id : Nat} {g : Native} {recv : Option Ty}
    (h : P.permits id g recv) : covered id g recv :=
  Nat.le_of_eq h.1

/-- A state in a run of a program, on a stack that was empty at the start. -/
def Program.Counted (P : Program) (r : Registry) (s : State) : Prop :=
  ∃ out, ∀ n, P.counting.Ok r P.permits n out s

section

variable {s s' : State} {stack : Stack} {k : Nat}
  (hn : ∀ {id : Nat} {g : Native}, r.natives.get? id = some g → g.Balanced)
  (hf : ∀ {id : Nat} {g : Func}, r.funcs.get? id = some g → g.Checked r P.permits (P.localTypes g))
include hn hf

/-- The next instruction finds its operands, and afterwards the run has ended with nothing on the stack
or goes on in the same way. -/
theorem Program.Counted.step (h : P.Counted r s) :
    s.frame.func.demand r s.frame.pc ≤ s.stack.length ∧
      ((∃ s', s.step r = .next s' ∧ P.Counted r s') ∨
        ∃ v, s.step r = .done ⟨.ok v, [], s.calls⟩) := by
  obtain ⟨out, h⟩ := h
  constructor
  · exact (h 1).demand_le P.covered_of_permits hf
  · rcases Watch.Ok.step_always (P.nativesConform_counting hn) hf not_false h with
      ⟨s', hnext, hok⟩ | ⟨v, _, hdone, rfl⟩
    · exact Or.inl ⟨s', hnext, out, hok⟩
    · exact Or.inr ⟨v, hdone⟩

/-- A run on a stack follows the run on the empty one. -/
theorem Program.Counted.steps_under (h : P.Counted r s) (hs : (s.under stack).Steps r k s') :
    ∃ own, s.Steps r k own ∧ s' = own.under stack ∧
      own.frame.func.demand r own.frame.pc ≤ own.stack.length := by
  induction k generalizing s with
  | zero => exact ⟨s, rfl, hs.symm, (h.step hn hf).1⟩
  | succ k ih =>
    obtain ⟨s₁, hstep, hrest⟩ := hs
    obtain ⟨hdemand, hprogress⟩ := h.step hn hf
    rw [State.step_under hn hdemand] at hstep
    rcases hprogress with ⟨s₂, hnext, hcounted⟩ | ⟨v, hdone⟩
    · rw [hnext] at hstep
      cases hstep
      obtain ⟨own, hown, hlast⟩ := ih hcounted hrest
      exact ⟨own, ⟨s₂, hnext, hown⟩, hlast⟩
    · rw [hdone] at hstep
      cases hstep

theorem Program.Counted.run_under (h : P.Counted r s) (stack : Stack) (fuel : Nat) :
    (s.under stack).run r fuel = (s.run r fuel).map (·.under stack) := by
  obtain ⟨out, h⟩ := h
  exact Watch.Ok.run_under P.covered_of_permits hn hf (P.nativesConform_counting hn) not_false h
    stack fuel

/-- If the run ends, then with a value and an empty stack. -/
theorem Program.Counted.run_eq_some (h : P.Counted r s) {fuel : Nat} {o : Outcome}
    (ho : s.run r fuel = some o) : ∃ v calls, o = ⟨.ok v, [], calls⟩ := by
  obtain ⟨out, h⟩ := h
  obtain ⟨v, _, calls, rfl, rfl⟩ :=
    Watch.Ok.run_eq_some (P.nativesConform_counting hn) hf not_false h ho
  exact ⟨v, calls, rfl⟩

end

theorem Program.counted_start {f : Func} {args : List Value} (hf : f.Checked r P.permits (P.localTypes f))
    (hargs : args.length = f.numParams) : P.Counted r (.start f args []) := by
  obtain ⟨out, hout⟩ := hf.results
  have hfits : List.Forall₂ P.counting.Fits f.sig.params args :=
    Watch.forall₂_fits not_false (by rw [hargs, hf.params])
  exact ⟨out, Watch.ok_start hf hout hfits rfl⟩

end

/-- Functions of a package use the stack for their own values only. Before the package there are natives
only, which take their arguments and give their results; the declarations have different names, and
natives are called as they were registered. Every state of a run is one of the run on the empty stack
with the initial values below, which no instruction reaches, and in the end only these are left. -/
theorem compilePackage_balanced {P : Program} {r r' : Registry} {ids : List Nat} (hb : r.Built)
    (hfuncs : r.funcs = {}) (hnatives : r.natives = P.natives)
    (hn : ∀ id g, r.natives.get? id = some g → g.Balanced) (hd : (P.decls.map (·.name)).Nodup)
    (hheaded : ∀ decl ∈ P.decls, decl.Headed)
    (hfits : ∀ decl ∈ P.decls, ∀ c ∈ P.callees decl, c.Fits)
    (hc : compilePackage r P.package P.decls = (r', .ok ids)) {id : Nat} {f : Func}
    (hf : r'.funcs.get? id = some f) {args : List Value} (hargs : args.length = f.numParams)
    (stack : Stack) :
    (∀ k s, (State.start f args stack).Steps r' k s → ∃ own : State,
      (State.start f args []).Steps r' k own ∧ s = own.under stack ∧
        own.frame.func.demand r' own.frame.pc ≤ own.stack.length) ∧
      ∀ fuel o, (State.start f args stack).run r' fuel = some o →
        ∃ v calls, o = ⟨.ok v, stack, calls⟩ ∧
          ∀ other, (State.start f args other).run r' fuel = some ⟨.ok v, other, calls⟩ := by
  obtain ⟨hlinked, -⟩ := P.linked_of_compilePackage hb hnatives hfuncs hd hc
  have hn' : ∀ {id : Nat} {g : Native}, r'.natives.get? id = some g → g.Balanced := by
    rw [hlinked.natives, ← hnatives]
    exact fun {id g} => hn id g
  have hchecked := fun {id : Nat} {g : Func} (hg : r'.funcs.get? id = some g) =>
    hlinked.checked hd hheaded hfits hg
  have hstart := P.counted_start (hchecked hf) hargs
  refine ⟨fun k s hs => hstart.steps_under hn' hchecked hs, fun fuel o ho => ?_⟩
  have hrun := fun stack => hstart.run_under hn' hchecked stack fuel
  obtain ⟨o, hend, rfl⟩ := Option.map_eq_some_iff.mp ((hrun stack).symm.trans ho)
  obtain ⟨v, calls, rfl⟩ := hstart.run_eq_some hn' hchecked hend
  refine ⟨v, calls, rfl, fun other => ?_⟩
  exact (hrun other).trans (congrArg (Option.map (·.under other)) hend)

theorem scales_balanced : ∀ id g, scales.natives.get? id = some g → g.Balanced := by
  intro id g hg args hargs
  obtain ⟨hrun, hlen⟩ := weighing_answered id g hg args [] hargs
  exact ⟨_, hlen, fun below => (weighing_answered id g hg args below hargs).1⟩

theorem weighing_balanced : ∃ r f calls,
    compilePackage scales weighing.package weighing.decls = (r, .ok [0, 1, 2]) ∧
      r.funcs.get? 2 = some f ∧ f.name = "evenWeight" ∧ ∀ other,
        (State.start f [.str "pear"] other).run r 100 = some ⟨.ok (.bool true), other, calls⟩ := by
  have hids : (compilePackage scales weighing.package weighing.decls).2 = .ok [0, 1, 2] := by cbv
  have hc : compilePackage scales weighing.package weighing.decls =
      ((compilePackage scales weighing.package weighing.decls).1, .ok [0, 1, 2]) := by rw [← hids]
  have hrun : ((compilePackage scales weighing.package weighing.decls).1.funcs.get? 2).map (fun f =>
      (f.name, f.numParams, ((State.start f [.str "pear"] [.nil]).run
        (compilePackage scales weighing.package weighing.decls).1 100).map (·.result.toOption))) =
      some ("evenWeight", 1, some (some (.bool true))) := by cbv
  obtain ⟨f, hf, hrun⟩ := Option.map_eq_some_iff.mp hrun
  simp only [Prod.mk.injEq] at hrun
  obtain ⟨hname, hparams, hrun⟩ := hrun
  obtain ⟨o, ho, hresult⟩ := Option.map_eq_some_iff.mp hrun
  have hnames : (weighing.decls.map (·.name)).Nodup := by decide
  have hargs : [Value.str "pear"].length = f.numParams := hparams.symm
  obtain ⟨v, calls, rfl, hother⟩ := (compilePackage_balanced (.method .empty _ _ _ _) rfl rfl
    scales_balanced hnames weighing_headed weighing_fits hc hf hargs [.nil]).2 100 o ho
  cases hresult
  exact ⟨_, f, calls, hc, hf, hname, hother⟩

/-- A native function that pops a text and pushes it with a mark. -/
def addMark (s : Stack) : Stack :=
  .str (s.pop.1.asStr ++ "!") :: s.pop.2

def marks : Registry :=
  (Registry.empty.addNative "string" "Mark" ⟨[.string], [.string]⟩ addMark).1

theorem marks_balanced : ∀ id g, marks.natives.get? id = some g → g.Balanced := by
  have hentries : marks.natives.entries =
      #[⟨"string.Mark", ⟨[.string], [.string]⟩, 1, addMark⟩] := by cbv
  intro id g hg args hargs
  change marks.natives.entries[id]? = some g at hg
  rw [hentries] at hg
  cases id with
  | zero =>
    cases hg
    obtain ⟨v, rfl⟩ := List.length_eq_one_iff.mp hargs
    exact ⟨[.str (v.asStr ++ "!")], rfl, fun _ => rfl⟩
  | succ id => simp at hg

/-- `func mark(s string) string { return s.Mark("x") }` -/
def markDecl : GoSift.Func :=
  let p : Position := default
  let s : Expr := .ident p "s"
  { pos := p
    recv := none
    name := "mark"
    params := [.mk p [s] (.ident p "string")]
    results := [.mk p [] (.ident p "string")]
    body := some (.block p [
      .ret p [.call p (.selector p s (.ident p "Mark")) [.lit p .string "\x22x\x22"] false]]) }

/-- A function under the name of a type can be called like a method, and then leaves the receiver. -/
theorem function_called_on_value_unbalanced : ∃ r f calls,
    compilePackage marks "main" [markDecl] = (r, .ok [0]) ∧ r.funcs.get? 0 = some f ∧
      (∀ id g, marks.natives.get? id = some g → g.Balanced) ∧
      (State.start f [.str "ab"] []).run r 10 =
        some ⟨.ok (.str "x!"), [.str "ab"], calls⟩ := by
  have hids : (compilePackage marks "main" [markDecl]).2 = .ok [0] := by cbv
  have hc : compilePackage marks "main" [markDecl] =
      ((compilePackage marks "main" [markDecl]).1, .ok [0]) := by rw [← hids]
  have hrun : ((compilePackage marks "main" [markDecl]).1.funcs.get? 0).map (fun f =>
      ((State.start f [.str "ab"] []).run (compilePackage marks "main" [markDecl]).1 10).map fun o =>
        (o.result.toOption, o.stack)) = some (some (some (.str "x!"), [.str "ab"])) := by cbv
  obtain ⟨f, hf, hrun⟩ := Option.map_eq_some_iff.mp hrun
  obtain ⟨⟨result, stack, calls⟩, ho, hresult⟩ := Option.map_eq_some_iff.mp hrun
  cases result with
  | error e => cases hresult
  | ok v =>
    cases hresult
    exact ⟨_, f, calls, hc, hf, marks_balanced, ho⟩

end GoSift.Filter
