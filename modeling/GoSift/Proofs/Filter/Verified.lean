import GoSift.Proofs.Filter.CodeTyping
import GoSift.Proofs.Filter.Jumps

/-!
Compiled functions are verified code: they decode into whole instructions, their operands refer to
things that exist, and their jumps lead to instructions. Control cannot run off their end, if only
simple statements stand in headers.
-/
namespace GoSift.Filter

/-- The code from a place on is a sequence of whole instructions, each with its place. -/
inductive Decoded (f : Func) : Nat → List (Nat × Opcode) → Prop
  | stop : Decoded f f.code.size []
  | instr {pc : Nat} {op : Opcode} {rest : List (Nat × Opcode)} (hop : f.opcode? pc = some op)
      (hfit : pc + op.width ≤ f.code.size) (hrest : Decoded f (pc + op.width) rest) :
      Decoded f pc ((pc, op) :: rest)

/-- The line of a listing for the instruction at a place. -/
def listingLine (r : Registry) (f : Func) (pc : Nat) (op : Opcode) : String :=
  placeText pc ++ "  " ++ op.name ++ operandText r (f.at pc) op ++ "\n"

/-- Code that passes verification, with its instructions and their places. -/
structure Verified (r : Registry) (f : Func) (instrs : List (Nat × Opcode)) : Prop where
  decoded : Decoded f 0 instrs
  listed : f.listing r = String.join (instrs.map fun i => listingLine r f i.1 i.2)
  jumps : ∀ i ∈ instrs, i.2 ∈ [.jump, .jumpFalse, .jumpTrue] →
    ∃ t, (f.at i.1).target? = some t ∧ (t ∈ instrs.map Prod.fst ∨ t = f.code.size)
  params : ∀ i ∈ instrs, i.2 = .pushParam → ∃ k < f.numParams, (f.at i.1).index? = some k
  locals : ∀ i ∈ instrs, i.2 ∈ [.pushLocal, .setLocal, .incLocal, .decLocal] →
    ∃ k < f.numLocals, (f.at i.1).index? = some k
  fewLocals : f.numLocals ≤ 8
  constants : ∀ i ∈ instrs, i.2 = .pushConst → ∃ k < f.constants.size, (f.at i.1).index? = some k
  calls : ∀ i ∈ instrs, i.2 = .call → ∃ id < r.funcs.size, (f.at i.1).word? = some id
  natives : ∀ i ∈ instrs, i.2 = .callNative → ∃ id < r.natives.size, (f.at i.1).word? = some id

theorem Decoded.listed {r : Registry} {f : Func} {pc : Nat} {instrs : List (Nat × Opcode)}
    (h : Decoded f pc instrs) :
    listingFrom r f pc = String.join (instrs.map fun i => listingLine r f i.1 i.2) := by
  induction h with
  | stop =>
    rw [listingFrom, dif_neg (Nat.lt_irrefl _)]
    rfl
  | @instr pc op rest hop hfit _ ih =>
    have hlt := lt_size_of_opcode? hop
    have hbyte : Opcode.ofByte? f.code[pc] = some op := by
      rwa [Func.opcode?, Array.getElem?_eq_getElem hlt, Option.bind_some] at hop
    rw [listingFrom, dif_pos hlt]
    simp only [hbyte, if_neg (Nat.not_lt.mpr hfit), ih, List.map_cons]
    rw [String.join_cons]
    rfl

namespace Code

/-- The instructions of some code with their places. -/
def located : Nat → Code → List (Nat × Instr)
  | _, [] => []
  | pc, i :: code => (pc, i) :: located (pc + i.size) code

@[simp] theorem located_nil (pc : Nat) : located pc [] = [] := rfl

@[simp] theorem located_cons (pc : Nat) (i : Instr) (code : Code) :
    located pc (i :: code) = (pc, i) :: located (pc + i.size) code := rfl

end Code

/-- The operation of an instruction. -/
def Instr.opcode : Instr → Opcode
  | plain op | indexed op _ | numbered op _ | jump op _ => op
  | leave | repeat_ => .jump

variable {f : Func} {brk cont pc : Nat}

theorem InstrAt.opcode {i : Instr} (h : InstrAt f brk cont pc i) :
    f.opcode? pc = some i.opcode ∧ i.opcode.width = i.size := by
  cases i with
  | plain op => exact h
  | indexed op k => exact ⟨h.1, h.2.1⟩
  | numbered op id => exact ⟨h.1, h.2.1⟩
  | jump op offset => exact ⟨h.1, h.2.1⟩
  | leave => exact ⟨h.1, rfl⟩
  | repeat_ => exact ⟨h.1, rfl⟩

theorem CodeAt.located {code : Code} (h : CodeAt f brk cont pc code) :
    ∀ x ∈ code.located pc, InstrAt f brk cont x.1 x.2 := by
  induction code generalizing pc with
  | nil => simp
  | cons i code ih =>
    rw [Code.located_cons, List.forall_mem_cons]
    exact ⟨h.1, ih h.2⟩

theorem Code.mem_of_located {code : Code} {x : Nat × Instr} (h : x ∈ code.located pc) :
    x.2 ∈ code := by
  induction code generalizing pc with
  | nil => simp at h
  | cons i code ih =>
    rcases List.mem_cons.mp h with rfl | h
    · exact List.mem_cons_self
    · exact List.mem_cons_of_mem i (ih h)

theorem Code.JumpsTo.located {P : Nat → Prop} {code : Code} (h : code.JumpsTo P pc) :
    ∀ x ∈ code.located pc, ∀ op offset, x.2 = .jump op offset →
      ∃ t : Nat, (t : Int) = x.1 + offset ∧ P t := by
  induction code generalizing pc with
  | nil => simp
  | cons i code ih =>
    rw [Code.located_cons, List.forall_mem_cons]
    exact ⟨h.1, ih h.2⟩

theorem Code.mem_starts {code : Code} {t : Nat} :
    t ∈ code.starts pc ↔ t ∈ (code.located pc).map Prod.fst ∨ t = pc + code.size := by
  induction code generalizing pc with
  | nil => simp [starts]
  | cons i code ih => simp [starts, ih, or_assoc, Nat.add_assoc]

/-- Code that fills a function up to its end decodes into its instructions. -/
theorem CodeAt.decoded {code : Code} (h : CodeAt f brk cont pc code)
    (hs : pc + code.size = f.code.size) :
    Decoded f pc ((code.located pc).map fun x => (x.1, x.2.opcode)) := by
  induction code generalizing pc with
  | nil =>
    obtain rfl : pc = f.code.size := hs
    exact .stop
  | cons i code ih =>
    obtain ⟨hop, hw⟩ := h.1.opcode
    rw [Code.size_cons] at hs
    refine .instr hop ?_ ?_
    · change pc + i.opcode.width ≤ _
      omega
    · change Decoded f (pc + i.opcode.width) _
      rw [hw]
      exact ih h.2 (by omega)

variable {r : Registry} {package : String} {decl : GoSift.Func} {sig : Signature}
  {params : List (String × Ty)} {body : List Stmt} {code : Code} {scope : Scope}

theorem size_assemble : (assemble decl sig code scope).code.size = code.size := by
  change (code.flatMap Instr.bytes).toArray.size = _
  rw [List.size_toArray, Code.length_bytes]

/-- What the operand of a located instruction refers to. -/
theorem Compiles.refers (h : Compiles r package decl sig params body code scope) {x : Nat × Instr}
    (hx : x ∈ code.located pc) :
    x.2.Refers r params.length scope.locals.length scope.constants.length false :=
  h.emits.refers x.2 (Code.mem_of_located hx)

/-- The operand of an instruction refers to something that exists. -/
theorem InstrAt.operand {i : Instr} {params locals constants : Nat} (h : InstrAt f brk cont pc i)
    (hr : i.Refers r params locals constants false) :
    (i.opcode = .pushParam → ∃ k < params, (f.at pc).index? = some k) ∧
      (i.opcode ∈ [.pushLocal, .setLocal, .incLocal, .decLocal] →
        ∃ k < locals, (f.at pc).index? = some k) ∧
      (i.opcode = .pushConst → ∃ k < constants, (f.at pc).index? = some k) ∧
      (i.opcode = .call → ∃ id < r.funcs.size, (f.at pc).word? = some id) ∧
      (i.opcode = .callNative → ∃ id < r.natives.size, (f.at pc).word? = some id) := by
  cases i with
  | plain op => cases op <;> simp_all [Instr.opcode, Instr.Refers, Opcode.width]
  | indexed op k => cases op <;> simp_all [Instr.opcode, Instr.Refers, InstrAt]
  | numbered op id => cases op <;> simp_all [Instr.opcode, Instr.Refers, InstrAt]
  | jump op offset => cases op <;> simp_all [Instr.opcode, Instr.Refers]
  | leave => cases hr
  | repeat_ => cases hr

/-- A jump leads to the start of an instruction or to the end. -/
theorem InstrAt.jumpTarget {code : Code} {x : Nat × Instr} {params locals constants : Nat}
    (h : InstrAt f brk cont x.1 x.2) (hr : x.2.Refers r params locals constants false)
    (hin : code.JumpsTo (· ∈ code.starts pc) pc) (hx : x ∈ code.located pc)
    (hop : x.2.opcode ∈ [.jump, .jumpFalse, .jumpTrue]) :
    ∃ t ∈ code.starts pc, (f.at x.1).target? = some t := by
  obtain ⟨p, i⟩ := x
  cases i with
  | plain op => cases op <;> simp_all [Instr.opcode, Instr.Refers, Opcode.width]
  | indexed op k => cases op <;> simp_all [Instr.opcode, Instr.Refers]
  | numbered op id => cases op <;> simp_all [Instr.opcode, Instr.Refers]
  | jump op offset =>
    obtain ⟨t, ht, hstart⟩ := hin.located _ hx op offset rfl
    exact ⟨t, hstart, h.2.2 t ht⟩
  | leave => cases hr
  | repeat_ => cases hr

/-- A compiled function is verified code. No path through it leads to its end, if only simple
statements stand in the headers of its declaration. -/
theorem compileFunc_verified {f : Func} (hr : r.Built) (h : compileFunc r package decl = .ok f) :
    (∃ instrs, Verified r f instrs) ∧ (decl.Headed → ∀ n, ¬ f.Leads n 0 f.code.size) := by
  obtain ⟨sig, params, body, code, scope, hc, rfl⟩ := compileFunc_eq_ok h
  have hcode : CodeAt (assemble decl sig code scope) 0 0 0 code := hc.codeAt hr
  have hdec := hcode.decoded (by rw [size_assemble, Nat.zero_add])
  have hparams : params.length = sig.params.length := by
    rw [(signatureOf_eq_ok hc.signature).2.1, List.length_map]
  have hoperand := fun x hx => (hcode.located x hx).operand (hparams ▸ hc.refers hx)
  refine ⟨⟨_, hdec, hdec.listed, ?_, ?_, ?_, hc.wellFormed.locals, ?_, ?_, ?_⟩, hc.stays hr⟩
  · intro i hi hop
    obtain ⟨x, hx, rfl⟩ := List.mem_map.mp hi
    obtain ⟨t, hstart, ht⟩ :=
      (hcode.located x hx).jumpTarget (hc.refers hx) (hc.emits.inside 0) hx hop
    refine ⟨t, ht, ?_⟩
    rw [size_assemble, List.map_map]
    simpa using Code.mem_starts.mp hstart
  · intro i hi hop
    obtain ⟨x, hx, rfl⟩ := List.mem_map.mp hi
    exact (hoperand x hx).1 hop
  · intro i hi hop
    obtain ⟨x, hx, rfl⟩ := List.mem_map.mp hi
    exact (hoperand x hx).2.1 hop
  · intro i hi hop
    obtain ⟨x, hx, rfl⟩ := List.mem_map.mp hi
    simpa [assemble] using (hoperand x hx).2.2.1 hop
  · intro i hi hop
    obtain ⟨x, hx, rfl⟩ := List.mem_map.mp hi
    exact (hoperand x hx).2.2.2.1 hop
  · intro i hi hop
    obtain ⟨x, hx, rfl⟩ := List.mem_map.mp hi
    exact (hoperand x hx).2.2.2.2 hop

/-- `func search(n int, s string) bool { i := 0; for ; i < n; i++ { if len(s) == i || s == "x"
{ break } }; return i < n }` -/
def searchDecl : GoSift.Func :=
  let p : Position := default
  let n : Expr := .ident p "n"
  let s : Expr := .ident p "s"
  let i : Expr := .ident p "i"
  let found : Expr := .binary p .logicalOr
    (.binary p .eq (.call p (.ident p "len") [s] false) i)
    (.binary p .eq s (.lit p .string "\x22x\x22"))
  { pos := p
    recv := none
    name := "search"
    params := [.mk p [n] (.ident p "int"), .mk p [s] (.ident p "string")]
    results := [.mk p [] (.ident p "bool")]
    body := some (.block p [
      .assign p [i] .define [.lit p .int "0"],
      .loop p none (some (.binary p .lt i n)) (some (.incDec p i true))
        (.block p [.cond p none found (.block p [.branch p .break_ none]) none]),
      .ret p [.binary p .lt i n]]) }

theorem searchDecl_verified : ∃ f instrs, compileFunc .empty "gorules" searchDecl = .ok f ∧
    Verified .empty f instrs ∧ ∀ n, ¬ f.Leads n 0 f.code.size := by
  have hf : ∃ f, compileFunc .empty "gorules" searchDecl = .ok f := ⟨_, rfl⟩
  obtain ⟨f, hf⟩ := hf
  obtain ⟨⟨instrs, hv⟩, hstays⟩ := compileFunc_verified .empty hf
  exact ⟨f, instrs, hf, hv, hstays (by decide)⟩

/-- `func f() bool { for { for ; ; break {}; return true } }`, with a `break` in a header. -/
def escapeDecl : GoSift.Func :=
  let p : Position := default
  { pos := p
    recv := none
    name := "f"
    params := []
    results := [.mk p [] (.ident p "bool")]
    body := some (.block p [.loop p none none none (.block p [
      .loop p none none (some (.branch p .break_ none)) (.block p []), .ret p [.ident p "true"]])]) }

/-- A `break` in the header of an inner loop leaves the outer one, which is taken to have none. -/
theorem escapeDecl_runs_off : ∃ f, compileFunc .empty "gorules" escapeDecl = .ok f ∧
    f.code = #[12, 10, 0, 12, 253, 255, 16, 12, 249, 255] ∧ f.Leads 1 0 f.code.size ∧
    f.eval .empty [] [] = some ⟨.error (.badCode "f" 10), [], []⟩ := by
  refine ⟨⟨"f", #[12, 10, 0, 12, 253, 255, 16, 12, 249, 255], #[], 0, 0, ⟨[], [.bool]⟩⟩, ?_, rfl,
    ⟨10, by decide, rfl⟩, ?_⟩
  all_goals with_unfolding_all rfl

end GoSift.Filter
