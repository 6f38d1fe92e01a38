import GoSift.Proofs.Filter.Operand
import GoSift.Proofs.Filter.Registered
import GoSift.Proofs.Syntax.Regular

/-!
The control-flow graph of compiled code. Both outcomes of a conditional jump are possible in it. How
control leaves the code of a clause depends on whether the clause is a terminating one and on the `break`
statements in it.
-/
namespace GoSift.Filter

open Compiler

/-- The places to which control can go from a place. -/
def Func.next (f : Func) (pc : Nat) : List Nat :=
  match f.opcode? pc with
  | none => []
  | some .jump => (f.at pc).target?.toList
  | some .jumpFalse | some .jumpTrue => (pc + 3) :: (f.at pc).target?.toList
  | some .returnTop | some .returnTrue | some .returnFalse => []
  | some op => [pc + op.width]

/-- A path of `n` instructions leads from one place to another. -/
def Func.Leads (f : Func) : Nat → Nat → Nat → Prop
  | 0, pc, e => pc = e
  | n + 1, pc, e => ∃ pc' ∈ f.next pc, f.Leads n pc' e

theorem lt_size_of_opcode? {f : Func} {pc : Nat} {op : Opcode} (h : f.opcode? pc = some op) :
    pc < f.code.size := by
  obtain ⟨b, hb, -⟩ := Option.bind_eq_some_iff.mp h
  exact (Array.getElem?_eq_some_iff.mp hb).1

/-- Whether control cannot go past a clause. -/
def Clause.terminates : Clause → Bool
  | one s => isTerminating s
  | opt s => isTerminatingOpt s
  | many ss => endsTerminating ss

/-- Whether a clause has a `break` that leaves the loop around it. -/
def Clause.breaks : Clause → Bool
  | one s => hasBreak s
  | opt s => hasBreakOpt s
  | many ss => anyBreak ss

/-- A clause with simple statements in headers. A statement that may be missing stands in one. -/
def Clause.Headed : Clause → Prop
  | one s => s.Each Node.Headed
  | opt s => ∀ t ∈ s, t.Each Node.Headed ∧ t.isSimple
  | many ss => ∀ s ∈ ss, s.Each Node.Headed

theorem Clause.headed_opt {s : Option Stmt} (h : ∀ t ∈ s, t.Each Node.Headed)
    (hs : ∀ t ∈ s, t.isSimple) : (Clause.opt s).Headed := fun t ht => ⟨h t ht, hs t ht⟩

/-- A statement in a header is no `break`. -/
theorem Clause.Headed.not_breaks {s : Option Stmt} (h : (Clause.opt s).Headed) :
    (Clause.opt s).breaks = false := by
  cases s with
  | none => rfl
  | some s =>
    have hs := (h s rfl).2
    cases s <;> first | rfl | cases hs

section

variable {brk cont : Nat} {r : Registry} {package : String} {decl : GoSift.Func} {sig : Signature}
  {params : List (String × Ty)} {body : List Stmt} {code : Code} {scope : Scope}

theorem Compiles.wellFormed (h : Compiles r package decl sig params body code scope) :
    scope.WellFormed := by
  apply h.emits.grows.wellFormed
  exact ⟨Nat.zero_le _, Nat.zero_le _, List.nodup_nil⟩

theorem Compiles.codeAt (h : Compiles r package decl sig params body code scope) (hr : r.Built) :
    CodeAt (assemble decl sig code scope) brk cont 0 code := by
  have hw := h.wellFormed
  apply @codeAt_of_bytes (assemble decl sig code scope) brk cont []
  · simp [assemble, Code.bytes]
  · intro i hi
    exact (h.emits.refers i hi).encodable h.few hw.locals hw.constants hr.size_le.2 hr.size_le.1

/-- What holds in a declaration holds in the statements that are compiled. -/
theorem Compiles.each {L : Node → Prop} [Node.OnTrees L]
    (h : Compiles r package decl sig params body code scope) (hd : decl.Each L) :
    ∀ s ∈ body, s.Each L := by
  obtain ⟨block, hb, hs⟩ := Option.bind_eq_some_iff.mp h.statements
  have hblock := (Func.each_iff.mp hd).2.2.2 block hb
  cases block with
  | block p stmts =>
    cases hs
    exact (Stmt.each_iff.mp hblock).2
  | _ => cases hs

end

end GoSift.Filter
