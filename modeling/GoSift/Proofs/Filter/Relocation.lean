import GoSift.Proofs.Filter.Balance
import GoSift.Proofs.Filter.Renaming
import GoSift.Proofs.Filter.Verified

/-!
Runs by other numbers. Two functions that differ by the numbers in their calls run alike, step by step, in
registries where these numbers lead to functions that differ in the same way.
-/
namespace GoSift.Filter

/-- A function and one that calls others by other numbers. At the places where their instructions start
they have the same operations with the same operands; numbers of functions are below `count` and are
renamed. -/
structure Func.Alike (ρ : Nat → Nat) (count : Nat) (places : List Nat) (f g : Func) : Prop where
  name : g.name = f.name
  constants : g.constants = f.constants
  numParams : g.numParams = f.numParams
  entry : 0 ∈ places
  opcode : ∀ {pc : Nat}, pc ∈ places → g.opcode? pc = f.opcode? pc
  next : ∀ {pc : Nat} {op : Opcode}, pc ∈ places → f.opcode? pc = some op → pc + op.width ∈ places
  index : ∀ {pc : Nat} {op : Opcode}, pc ∈ places → f.opcode? pc = some op → op.width = 2 →
    (g.at pc).index? = (f.at pc).index?
  target : ∀ {pc : Nat} {op : Opcode}, pc ∈ places → f.opcode? pc = some op →
    op ∈ [.jump, .jumpFalse, .jumpTrue] →
      ∃ t ∈ places, (f.at pc).target? = some t ∧ (g.at pc).target? = some t
  native : ∀ {pc : Nat}, pc ∈ places → f.opcode? pc = some .callNative →
    (g.at pc).word? = (f.at pc).word?
  call : ∀ {pc : Nat}, pc ∈ places → f.opcode? pc = some .call →
    ∃ id < count, (f.at pc).word? = some id ∧ (g.at pc).word? = some (ρ id)

/-- The functions of a registry are in another one under other numbers. -/
structure Registry.Renames (ρ : Nat → Nat) (r r' : Registry) : Prop where
  natives : r'.natives = r.natives
  funcs : ∀ id < r.funcs.size, ∃ f g places, r.funcs.get? id = some f ∧
    r'.funcs.get? (ρ id) = some g ∧ f.Alike ρ r.funcs.size places g

/-- Frames at the same place of functions that are alike. -/
inductive Frame.Alike (ρ : Nat → Nat) (count : Nat) : Frame → Frame → Prop
  | mk {places : List Nat} {f g : Func} {args locals : List Value} {pc : Nat}
      (hf : f.Alike ρ count places g) (hpc : pc ∈ places) :
      Alike ρ count ⟨f, args, locals, pc⟩ ⟨g, args, locals, pc⟩

/-- States with the same values, in frames that are alike. -/
inductive State.Alike (ρ : Nat → Nat) (count : Nat) : State → State → Prop
  | mk {fr fr' : Frame} {callers callers' : List Frame} {stack : Stack} {calls : List NativeCall}
      (hfr : fr.Alike ρ count fr') (hcallers : List.Forall₂ (Frame.Alike ρ count) callers callers') :
      Alike ρ count ⟨fr, callers, stack, calls⟩ ⟨fr', callers', stack, calls⟩

/-- Both go on, or both end in the same way. -/
inductive Progress.Alike (ρ : Nat → Nat) (count : Nat) : Progress → Progress → Prop
  | next {s s' : State} (h : s.Alike ρ count s') : Alike ρ count (.next s) (.next s')
  | done (o : Outcome) : Alike ρ count (.done o) (.done o)

section

variable {ρ : Nat → Nat} {count : Nat}

theorem Frame.Alike.enter {places : List Nat} {f g : Func} (h : f.Alike ρ count places g)
    (args : List Value) : (Frame.enter f args).Alike ρ count (Frame.enter g args) :=
  .mk h h.entry

namespace State.Alike

variable {s s' : State} {op : Opcode}

theorem fault (h : s.Alike ρ count s') (e : Fault) : (s.fault e).Alike ρ count (s'.fault e) := by
  cases h with
  | mk _ _ => exact .done _

theorem leave (h : s.Alike ρ count s') (v : Value) : (s.leave v).Alike ρ count (s'.leave v) := by
  cases h with
  | mk _ hcallers =>
    cases hcallers with
    | nil => exact .done _
    | cons hcaller hcallers => exact .next (.mk hcaller hcallers)

theorem withStack (h : s.Alike ρ count s') (stack : Stack) :
    State.Alike ρ count { s with stack } { s' with stack } := by
  cases h with
  | mk hfr hcallers => exact .mk hfr hcallers

section

variable (h : s.Alike ρ count s') (hop : s.frame.func.opcode? s.frame.pc = some op)
include h hop

theorem go (stack : Stack) : (s.go op stack).Alike ρ count (s'.go op stack) := by
  obtain ⟨⟨hf, hpc⟩, hcallers⟩ := h
  exact .next (.mk (.mk hf (hf.next hpc hop)) hcallers)

theorem push (v : Option Value) : (s.push op v).Alike ρ count (s'.push op v) := by
  cases v with
  | none => exact h.fault _
  | some v =>
    have hstack : s'.stack = s.stack := by cases h with | mk _ _ => rfl
    simp only [State.push, hstack]
    exact h.go hop _

theorem index?_eq (hw : op.width = 2) : s'.frame.index? = s.frame.index? := by
  obtain ⟨⟨hf, hpc⟩, -⟩ := h
  exact hf.index hpc hop hw

theorem setLocal (hw : op.width = 2) (change : Value → Value) :
    (s.setLocal op change).Alike ρ count (s'.setLocal op change) := by
  have hindex := h.index?_eq hop hw
  simp only [State.setLocal, hindex]
  split
  · exact h.fault _
  · obtain ⟨⟨hf, hpc⟩, hcallers⟩ := h
    dsimp only
    split
    · exact .done _
    · exact .next (.mk (.mk hf (hf.next hpc hop)) hcallers)

theorem jump (hj : op ∈ [.jump, .jumpFalse, .jumpTrue]) : s.jump.Alike ρ count s'.jump := by
  cases h with
  | mk hfr hcallers =>
    cases hfr with
    | @mk places f g args locals pc hf hpc =>
      obtain ⟨t, ht, hfrom, hto⟩ := hf.target hpc hop hj
      change Frame.target? ⟨f, args, locals, pc⟩ = some t at hfrom
      change Frame.target? ⟨g, args, locals, pc⟩ = some t at hto
      simp only [State.jump, hfrom, hto]
      exact .next (.mk (.mk hf ht) hcallers)

theorem enter {places : List Nat} {f g : Func} (hf : f.Alike ρ count places g) :
    (s.enter op f).Alike ρ count (s'.enter op g) := by
  obtain ⟨⟨hfunc, hpc⟩, hcallers⟩ := h
  simp only [State.enter, hf.numParams]
  exact .next (.mk (.enter hf _) (.cons (.mk hfunc (hfunc.next hpc hop)) hcallers))

theorem callNative (id : Nat) (native : Native) :
    (s.callNative op id native).Alike ρ count (s'.callNative op id native) := by
  obtain ⟨⟨hf, hpc⟩, hcallers⟩ := h
  exact .next (.mk (.mk hf (hf.next hpc hop)) hcallers)

end

end State.Alike

end

section

variable {ρ : Nat → Nat} {r r' : Registry} {s s' : State}

/-- States that are alike do alike operations. -/
theorem State.Alike.exec (hr : r.Renames ρ r') (h : s.Alike ρ r.funcs.size s') {op : Opcode}
    (hop : s.frame.func.opcode? s.frame.pc = some op) :
    (s.exec r op).Alike ρ r.funcs.size (s'.exec r' op) := by
  have hstack : s'.stack = s.stack := by cases h with | mk _ _ => rfl
  cases hf : op.onStack? with
  | some f =>
    rw [exec_of_onStack hf, exec_of_onStack hf, hstack]
    exact h.go hop _
  | none =>
    cases op with
    | pushParam | pushLocal =>
      have hindex := h.index?_eq hop rfl
      simp only [State.exec, hindex]
      obtain ⟨⟨hf, hpc⟩, hcallers⟩ := h
      exact push (.mk (.mk hf hpc) hcallers) hop _
    | pushConst =>
      have hindex := h.index?_eq hop rfl
      simp only [State.exec, hindex]
      obtain ⟨⟨hf, hpc⟩, hcallers⟩ := h
      simp only [hf.constants]
      exact push (.mk (.mk hf hpc) hcallers) hop _
    | incLocal | decLocal => exact h.setLocal hop rfl _
    | setLocal =>
      simp only [State.exec, hstack]
      exact (h.withStack s.stack.pop.2).setLocal hop rfl _
    | jump => exact h.jump hop (by simp)
    | returnTrue | returnFalse => exact h.leave _
    | returnTop =>
      simp only [State.exec, hstack]
      exact (h.withStack _).leave _
    | jumpFalse =>
      simp only [State.exec, hstack]
      split
      · exact h.go hop _
      · exact (h.withStack _).jump hop (by simp)
    | jumpTrue =>
      simp only [State.exec, hstack]
      split
      · exact (h.withStack _).jump hop (by simp)
      · exact h.go hop _
    | callSelf =>
      obtain ⟨⟨hf, hpc⟩, hcallers⟩ := h
      exact enter (.mk (.mk hf hpc) hcallers) hop hf
    | call =>
      have hcall : ∃ id < r.funcs.size, s.frame.word? = some id ∧ s'.frame.word? = some (ρ id) := by
        obtain ⟨⟨hf, hpc⟩, -⟩ := h
        exact hf.call hpc hop
      obtain ⟨id, hid, hfrom, hto⟩ := hcall
      obtain ⟨f, g, places, hget, hget', halike⟩ := hr.funcs id hid
      simp only [State.exec, hfrom, hto, hget, hget']
      exact h.enter hop halike
    | callNative =>
      have hword : s'.frame.word? = s.frame.word? ∧ s'.frame.func.name = s.frame.func.name := by
        obtain ⟨⟨hf, hpc⟩, -⟩ := h
        exact ⟨hf.native hpc hop, hf.name⟩
      simp only [State.exec, hword, hr.natives]
      split
      · exact h.fault _
      · split
        · exact h.fault _
        · exact h.callNative hop _ _
    | _ => cases hf

/-- States that are alike take alike steps. -/
theorem State.Alike.step (hr : r.Renames ρ r') (h : s.Alike ρ r.funcs.size s') :
    (s.step r).Alike ρ r.funcs.size (s'.step r') := by
  have hopcode : s'.frame.func.opcode? s'.frame.pc = s.frame.func.opcode? s.frame.pc := by
    obtain ⟨⟨hf, hpc⟩, -⟩ := h
    exact hf.opcode hpc
  cases hop : s.frame.func.opcode? s.frame.pc with
  | none =>
    obtain ⟨⟨hf, hpc⟩, -⟩ := h
    simp only [State.step]
    rw [show Option.bind _ _ = none from hop, show Option.bind _ _ = none from hopcode.trans hop]
    dsimp only
    rw [hf.name]
    exact .done _
  | some op =>
    rw [step_of_opcode hop, step_of_opcode (hopcode.trans hop)]
    exact h.exec hr hop

/-- Runs from states that are alike end alike. -/
theorem State.Alike.run_eq (hr : r.Renames ρ r') (h : s.Alike ρ r.funcs.size s') (fuel : Nat) :
    s'.run r' fuel = s.run r fuel := by
  induction fuel generalizing s s' with
  | zero => rfl
  | succ fuel ih =>
    have hstep := h.step hr
    simp only [State.run]
    generalize s.step r = p at hstep ⊢
    generalize s'.step r' = p' at hstep ⊢
    cases hstep with
    | next h => exact ih h
    | done o => rfl

theorem Func.Alike.eval_eq (hr : r.Renames ρ r') {places : List Nat} {f g : Func}
    (hf : f.Alike ρ r.funcs.size places g) (args : List Value) (stack : Stack) :
    g.eval r' args stack = f.eval r args stack :=
  State.Alike.run_eq hr (.mk (.enter hf args) .nil) fuelLimit

end

/-- What the form of an instruction is, by its operation. -/
theorem Instr.Refers.form {r : Registry} {params locals constants : Nat} {i : Instr}
    (h : i.Refers r params locals constants false) :
    (i.opcode.width = 2 → i.opcode.width = i.size → ∃ op k, i = .indexed op k) ∧
      (i.opcode ∈ [.jump, .jumpFalse, .jumpTrue] → ∃ op offset, i = .jump op offset) ∧
      (i.opcode = .callNative → ∃ id, i = .numbered .callNative id) ∧
      (i.opcode = .call → ∃ id < r.funcs.size, i = .numbered .call id) := by
  cases i with
  | plain op => cases op <;> simp_all [opcode, Refers, Opcode.width, size]
  | indexed op k => cases op <;> simp_all [opcode, Refers]
  | numbered op id => cases op <;> simp_all [opcode, Refers, Opcode.width]
  | jump op offset => cases op <;> simp_all [opcode, Refers, Opcode.width]
  | leave => cases h
  | repeat_ => cases h

theorem Instr.opcode_renamed {ρ : Nat → Nat} (i : Instr) : (i.renamed ρ).opcode = i.opcode := by
  unfold renamed
  split <;> rfl

namespace Code

variable {ρ : Nat → Nat} {pc : Nat} {code : Code}

theorem located_renamed : (code.renamed ρ).located pc =
    (code.located pc).map fun x => (x.1, x.2.renamed ρ) := by
  induction code generalizing pc with
  | nil => rfl
  | cons i code ih => simp [located, ih]

theorem next_mem_starts {x : Nat × Instr} (h : x ∈ code.located pc) :
    x.1 + x.2.size ∈ code.starts pc := by
  induction code generalizing pc with
  | nil => cases h
  | cons i code ih =>
    rcases List.mem_cons.mp h with rfl | h
    · exact List.mem_cons_of_mem _ (start_mem_starts _ _)
    · exact List.mem_cons_of_mem _ (ih h)

end Code

section

variable {ρ : Nat → Nat} {known known' : Registry} {package : String} {decl : GoSift.Func}
  {sig : Signature} {params : List (String × Ty)} {body : List Stmt} {code : Code} {scope : Scope}

/-- Behind the last instruction there is nothing. -/
theorem opcode?_size_assemble : (assemble decl sig code scope).opcode? code.size = none := by
  have hsize : (assemble decl sig code scope).code.size = code.size := size_assemble
  simp [Func.opcode?, ← hsize]

theorem Compiles.alike (h : Compiles known package decl sig params body code scope)
    (hb : known.Built) (h' : Compiles known' package decl sig params body (code.renamed ρ) scope)
    (hb' : known'.Built) :
    (assemble decl sig code scope).Alike ρ known.funcs.size (code.starts 0)
      (assemble decl sig (code.renamed ρ) scope) := by
  have hcode : ∀ x ∈ code.located 0, InstrAt (assemble decl sig code scope) 0 0 x.1 x.2 :=
    (h.codeAt hb).located
  have hcode' : ∀ x ∈ code.located 0,
      InstrAt (assemble decl sig (code.renamed ρ) scope) 0 0 x.1 (x.2.renamed ρ) := by
    intro x hx
    refine (h'.codeAt hb').located (x.1, x.2.renamed ρ) ?_
    rw [Code.located_renamed]
    exact List.mem_map_of_mem hx
  have hplace : ∀ {pc : Nat} {op : Opcode}, pc ∈ code.starts 0 →
      (assemble decl sig code scope).opcode? pc = some op →
      ∃ i, (pc, i) ∈ code.located 0 ∧ i.opcode = op := by
    intro pc op hpc hop
    rcases Code.mem_starts.mp hpc with hpc | rfl
    · obtain ⟨⟨_, i⟩, hi, rfl⟩ := List.mem_map.mp hpc
      exact ⟨i, hi, Option.some.inj ((hcode _ hi).opcode.1.symm.trans hop)⟩
    · rw [Nat.zero_add, opcode?_size_assemble] at hop
      cases hop
  refine ⟨rfl, rfl, rfl, Code.start_mem_starts 0 code, ?_, ?_, ?_, ?_, ?_, ?_⟩
  · intro pc hpc
    rcases Code.mem_starts.mp hpc with hpc | rfl
    · obtain ⟨⟨_, i⟩, hi, rfl⟩ := List.mem_map.mp hpc
      rw [(hcode _ hi).opcode.1, (hcode' _ hi).opcode.1, Instr.opcode_renamed]
    · have hend : (assemble decl sig (code.renamed ρ) scope).opcode? (code.renamed ρ).size = none :=
        opcode?_size_assemble
      rw [Code.size_renamed] at hend
      rw [Nat.zero_add, opcode?_size_assemble, hend]
  · intro pc op hpc hop
    obtain ⟨i, hi, rfl⟩ := hplace hpc hop
    rw [(hcode _ hi).opcode.2]
    exact Code.next_mem_starts hi
  · intro pc op hpc hop hw
    obtain ⟨i, hi, rfl⟩ := hplace hpc hop
    obtain ⟨_, k, rfl⟩ := (h.refers hi).form.1 hw (hcode _ hi).opcode.2
    exact (hcode' _ hi).2.2.trans (hcode _ hi).2.2.symm
  · intro pc op hpc hop hj
    obtain ⟨i, hi, rfl⟩ := hplace hpc hop
    obtain ⟨_, offset, rfl⟩ := (h.refers hi).form.2.1 hj
    obtain ⟨t, ht, hstart⟩ := (h.emits.inside 0).located _ hi _ _ rfl
    exact ⟨t, hstart, (hcode _ hi).2.2 t ht, (hcode' _ hi).2.2 t ht⟩
  · intro pc hpc hop
    obtain ⟨i, hi, he⟩ := hplace hpc hop
    obtain ⟨id, rfl⟩ := (h.refers hi).form.2.2.1 he
    exact (hcode' _ hi).2.2.trans (hcode _ hi).2.2.symm
  · intro pc hpc hop
    obtain ⟨i, hi, he⟩ := hplace hpc hop
    obtain ⟨id, hid, rfl⟩ := (h.refers hi).form.2.2.2 he
    exact ⟨id, hid, (hcode _ hi).2.2, (hcode' _ hi).2.2⟩

/-- A declaration can be compiled with other numbers for what it calls, to code that differs by them
only. -/
theorem exists_compiles_renamed {f : Func}
    (hctx : ∀ sig params, Context.Renames ρ ⟨known, package, decl.name, sig, params⟩
      ⟨known', package, decl.name, sig, params⟩)
    (hf : compileFunc known package decl = .ok f) :
    ∃ sig params body code scope, Compiles known package decl sig params body code scope ∧
      Compiles known' package decl sig params body (code.renamed ρ) scope ∧
      assemble decl sig code scope = f := by
  obtain ⟨sig, params, body, code, scope, hc, rfl⟩ := compileFunc_eq_ok hf
  exact ⟨sig, params, body, code, scope, hc, ⟨hc.signature, hc.statements, hc.few,
    (hctx sig params).stmtsCode_eq_ok hc.compiled, hc.ends⟩, rfl⟩

end

namespace Registry

/-- What is found by its name is found in another registry too, under another number. For plain names of
one package nothing else is found there. -/
structure Resolves (ρ : Nat → Nat) (package : String) (r r' : Registry) : Prop where
  natives : r'.natives = r.natives
  found : ∀ {qualifier name : String} {id : Nat} {f : Func},
    r.lookupFunc? qualifier name = some (id, f) →
      ∃ g, r'.lookupFunc? qualifier name = some (ρ id, g) ∧ g.sig = f.sig
  missing : ∀ {name : String}, r.lookupFunc? package name = none → r'.lookupFunc? package name = none

theorem Resolves.renames {ρ : Nat → Nat} {package : String} {r r' : Registry}
    (h : r.Resolves ρ package r') (name : String) (sig : Signature) (params : List (String × Ty)) :
    Context.Renames ρ ⟨r, package, name, sig, params⟩ ⟨r', package, name, sig, params⟩ where
  sig := rfl
  params := rfl
  plain {callee i sig} hc := by
    unfold Compiler.plainCallee? at hc ⊢
    dsimp only at hc ⊢
    split at hc
    · next hself =>
      cases hc
      rw [if_pos hself]
      rfl
    · next hself =>
      rw [if_neg hself]
      split at hc
      · next id f hf =>
        cases hc
        obtain ⟨g, hg, hsig⟩ := h.found hf
        simp only [hg, hsig]
        rfl
      · next hf =>
        obtain ⟨⟨id, f⟩, hn, he⟩ := Option.map_eq_some_iff.mp hc
        cases he
        simp only [h.missing hf, lookupNative?, h.natives]
        rw [show r.natives.lookup? _ = _ from hn]
        rfl
  qualified {qualifier callee i sig} hc := by
    unfold Compiler.qualifiedCallee? lookupNative? at hc ⊢
    dsimp only at hc ⊢
    rw [h.natives]
    split at hc
    · cases hc
      rfl
    · obtain ⟨⟨id, f⟩, hf, he⟩ := Option.map_eq_some_iff.mp hc
      cases he
      obtain ⟨g, hg, hsig⟩ := h.found hf
      simp only [hg, Option.map_some, hsig]
      rfl
  method {type callee i sig} hc := by
    unfold Compiler.method? lookupNative? at hc ⊢
    dsimp only at hc ⊢
    obtain ⟨⟨id, f⟩, hn, he⟩ := Option.map_eq_some_iff.mp hc
    cases he
    rw [h.natives, hn]
    rfl

variable {base base' known known' r r' : Registry} {package : String} {decls : List GoSift.Func}

/-- A function of the package is found by its name. -/
theorem Holds.lookupFunc?_eq (h : base.Holds package decls r) {name : String} {i : Nat}
    (hi : decls.findIdx? (·.name = name) = some i) :
    ∃ decl f, decls[i]? = some decl ∧
      r.lookupFunc? package name = some (base.funcs.size + i, f) ∧ f.sig = (headOf decl).1 := by
  obtain ⟨hlt, -⟩ := List.findIdx?_eq_some_iff_getElem.mp hi
  have hdecl := List.getElem?_eq_getElem hlt
  obtain ⟨f, hf, hsig⟩ := h.sig hdecl
  refine ⟨_, f, hdecl, Table.lookup?_eq_some_iff.mpr ⟨?_, hf⟩, hsig⟩
  rw [h.ids, if_pos rfl, hi]
  rfl

theorem Holds.lookupFunc?_eq_none (h : base.Holds package decls r) {name : String}
    (hi : decls.findIdx? (·.name = name) = none) : r.lookupFunc? package name = none := by
  rw [lookupFunc?, Table.lookup?, h.ids, if_pos rfl, hi]
  rfl

/-- A package behind natives only, and behind other packages. -/
theorem Holds.resolves (h : base.Holds package decls known) (h' : base'.Holds package decls known')
    (hempty : base.funcs = {}) (hn : base'.natives = base.natives) :
    known.Resolves (base'.funcs.size + ·) package known' where
  natives := by rw [h.natives, h'.natives, hn]
  found {qualifier name id f} hf := by
    have hsize : base.funcs.size = 0 := by
      rw [hempty]
      rfl
    have hid := (Table.lookup?_eq_some_iff.mp hf).1
    rw [h.ids] at hid
    split at hid
    · next hq =>
      change qualifier = package at hq
      subst hq
      obtain ⟨i, hi, rfl⟩ := Option.map_eq_some_iff.mp hid
      obtain ⟨decl, f₁, hdecl, hf₁, hsig₁⟩ := h.lookupFunc?_eq hi
      obtain ⟨_, g, hdecl', hg, hsig⟩ := h'.lookupFunc?_eq hi
      obtain rfl := Option.some.inj (hdecl.symm.trans hdecl')
      obtain rfl : f₁ = f := congrArg Prod.snd (Option.some.inj (hf₁.symm.trans hf))
      refine ⟨g, ?_, hsig.trans hsig₁.symm⟩
      rw [hg, hsize, Nat.zero_add]
    · rw [hempty] at hid
      change (∅ : Std.HashMap Key Nat)[_]? = _ at hid
      rw [Std.HashMap.getElem?_empty] at hid
      cases hid
  missing {name} hnone := by
    cases hi : decls.findIdx? (·.name = name) with
    | none => exact h'.lookupFunc?_eq_none hi
    | some i =>
      obtain ⟨_, f, -, hf, -⟩ := h.lookupFunc?_eq hi
      rw [hf] at hnone
      cases hnone

/-- The functions of a package behind natives only are those of the package behind others, with other
numbers. -/
theorem Links.renames (h : base.Links package decls r) (h' : base'.Links package decls r')
    (hempty : base.funcs = {}) (hn : base'.natives = base.natives) :
    r.Renames (base'.funcs.size + ·) r' where
  natives := by rw [h.holds.natives, h'.holds.natives, hn]
  funcs i hi := by
    have hsize : base.funcs.size = 0 := by
      rw [hempty]
      rfl
    have hlt : i < decls.length := by
      rwa [h.holds.size, hsize, Nat.zero_add] at hi
    have hdecl := List.getElem?_eq_getElem hlt
    obtain ⟨known, f, hk, hkb, hf, hget⟩ := h.func hdecl
    obtain ⟨known', g, hk', hkb', hg, hget'⟩ := h'.func hdecl
    obtain ⟨_, _, _, _, _, hc, hc', rfl⟩ :=
      exists_compiles_renamed ((hk.resolves hk' hempty hn).renames _) hf
    obtain rfl := Except.ok.inj (hc'.compileFunc_eq.symm.trans hg)
    have halike := hc.alike hkb hc' hkb'
    rw [hk.size, ← h.holds.size] at halike
    rw [hsize, Nat.zero_add] at hget
    exact ⟨_, _, _, hget, hget', halike⟩

/-- Functions that are added later change nothing. -/
theorem Renames.keep {ρ : Nat → Nat} (h : r.Renames ρ r') {r'' : Registry}
    (hn : r''.natives = r'.natives)
    (hkeep : ∀ {id : Nat} {g : Func}, r'.funcs.get? id = some g → r''.funcs.get? id = some g) :
    r.Renames ρ r'' where
  natives := hn.trans h.natives
  funcs id hid := by
    obtain ⟨f, g, places, hf, hg, halike⟩ := h.funcs id hid
    exact ⟨f, g, places, hf, hkeep hg, halike⟩

end Registry

end GoSift.Filter
