import GoSift.Proofs.Filter.Typing

/-!
Checked code. A checker goes through the code of a function with the types of the values that the function
itself has on the stack, the top first. Code is well typed for `n` instructions if the checker gets that
far on every path; compiled code is so for all `n`.
-/
namespace GoSift.Filter

/-- Whether an operand of a type can stand where an operation looks for one. -/
def Ty.Answers (t : Ty) (want : Option Ty) : Prop :=
  ∀ u ∈ want, t = u

/-- Which calls of natives are permitted: by number, by what is registered there, and by the type of the
receiver if there is one. -/
abbrev CallPolicy := Nat → Native → Option Ty → Prop

section

variable (r : Registry) (permits : CallPolicy) (f : Func) (locals : List Ty)

/-- What an instruction that leads to the next one does to the types on the stack. -/
inductive Func.Transfer (pc : Nat) : Opcode → List Ty → List Ty → Prop
  | operation {op : Opcode} {ins us : List Ty} {out : Ty} (hout : op.result? = some out)
      (hins : List.Forall₂ Ty.Answers ins op.operands) :
      Transfer pc op (ins ++ us) (out :: us)
  | pop {t : Ty} {us : List Ty} : Transfer pc .pop (t :: us) us
  | dup {t : Ty} {us : List Ty} : Transfer pc .dup (t :: us) (t :: t :: us)
  | pushParam {i : Nat} {t : Ty} {us : List Ty} (hi : (f.at pc).index? = some i)
      (ht : f.sig.params[i]? = some t) : Transfer pc .pushParam us (t :: us)
  | pushLocal {i : Nat} {t : Ty} {us : List Ty} (hi : (f.at pc).index? = some i)
      (ht : locals[i]? = some t) : Transfer pc .pushLocal us (t :: us)
  | pushConst {i : Nat} {v : Value} {t : Ty} {us : List Ty} (hi : (f.at pc).index? = some i)
      (hv : f.constants[i]? = some v) (ht : t.holds v) : Transfer pc .pushConst us (t :: us)
  | setLocal {i : Nat} {t u : Ty} {us : List Ty} (hi : (f.at pc).index? = some i)
      (ht : locals[i]? = some u) (hu : t.isAssignableTo u) : Transfer pc .setLocal (t :: us) us
  | stepLocal {up : Bool} {i : Nat} {us : List Ty} (hi : (f.at pc).index? = some i)
      (ht : locals[i]? = some .int) : Transfer pc (if up then .incLocal else .decLocal) us us
  | call {id : Nat} {g : Func} {ts us : List Ty} (hid : (f.at pc).word? = some id)
      (hg : r.funcs.get? id = some g)
      (hargs : List.Forall₂ (·.isAssignableTo ·) ts g.sig.params) :
      Transfer pc .call (ts.reverse ++ us) (g.sig.results.reverse ++ us)
  | callSelf {ts us : List Ty} (hargs : List.Forall₂ (·.isAssignableTo ·) ts f.sig.params) :
      Transfer pc .callSelf (ts.reverse ++ us) (f.sig.results.reverse ++ us)
  | callNative {id : Nat} {g : Native} {recv : Option Ty} {ts us : List Ty}
      (hid : (f.at pc).word? = some id) (hg : r.natives.get? id = some g)
      (hpermits : permits id g recv)
      (hargs : List.Forall₂ (·.isAssignableTo ·) ts g.sig.params) :
      Transfer pc .callNative (ts.reverse ++ (recv.toList ++ us)) (g.sig.results.reverse ++ us)

/-- The instruction at a place can be done with these types on the stack, and all places to which it
leads are in `next` with the types behind it. What is returned is all that is left. -/
inductive Func.Allows (next : Nat → List Ty → Prop) (pc : Nat) : List Ty → Prop
  | straight {op : Opcode} {ts us : List Ty} (hop : f.opcode? pc = some op)
      (ht : f.Transfer r permits locals pc op ts us) (hnext : next (pc + op.width) us) :
      Allows next pc ts
  | jump {t : Nat} {ts : List Ty} (hop : f.opcode? pc = some .jump)
      (ht : (f.at pc).target? = some t) (hjump : next t ts) : Allows next pc ts
  | branch {whenTrue : Bool} {t : Nat} {ts : List Ty}
      (hop : f.opcode? pc = some (if whenTrue then .jumpTrue else .jumpFalse))
      (ht : (f.at pc).target? = some t) (hnext : next (pc + 3) ts) (hjump : next t ts) :
      Allows next pc (.bool :: ts)
  | ret {t result : Ty} (hop : f.opcode? pc = some .returnTop) (hr : f.sig.results = [result])
      (ht : t.isAssignableTo result) : Allows next pc [t]
  | retBool {b : Bool} (hop : f.opcode? pc = some (if b then .returnTrue else .returnFalse))
      (hr : f.sig.results = [.bool]) : Allows next pc []

/-- Code is well typed from a place on, for `n` instructions. -/
def Func.Typed : Nat → Nat → List Ty → Prop
  | 0, _, _ => True
  | n + 1, pc, ts => f.Allows r permits locals (Func.Typed n) pc ts

/-- A function whose code is well typed. -/
structure Func.Checked : Prop where
  params : f.numParams = f.sig.params.length
  results : ∃ result, f.sig.results = [result]
  few : locals.length ≤ maxLocals
  typed : ∀ n, f.Typed r permits locals n 0 []

end

section

variable {r : Registry} {permits : CallPolicy} {f : Func} {locals : List Ty} {m n pc : Nat}
  {ts us : List Ty}

theorem Func.Allows.mono {next next' : Nat → List Ty → Prop} (hn : ∀ pc ts, next pc ts → next' pc ts)
    (h : f.Allows r permits locals next pc ts) : f.Allows r permits locals next' pc ts := by
  cases h with
  | straight hop ht hnext => exact .straight hop ht (hn _ _ hnext)
  | jump hop ht hjump => exact .jump hop ht (hn _ _ hjump)
  | branch hop ht hnext hjump => exact .branch hop ht (hn _ _ hnext) (hn _ _ hjump)
  | ret hop hr ht => exact .ret hop hr ht
  | retBool hop hr => exact .retBool hop hr

namespace Func.Typed

theorem succ (h : f.Typed r permits locals (n + 1) pc ts) : f.Typed r permits locals n pc ts := by
  induction n generalizing pc ts with
  | zero => trivial
  | succ n ih => exact Allows.mono (fun _ _ => ih) h

/-- What one instruction allows holds for any number of them. -/
theorem of_allows (h : f.Allows r permits locals (f.Typed r permits locals n) pc ts) :
    f.Typed r permits locals n pc ts :=
  succ h

theorem mono (h : f.Typed r permits locals n pc ts) (hm : m ≤ n) : f.Typed r permits locals m pc ts := by
  induction hm with
  | refl => exact h
  | step _ ih => exact ih h.succ

end Func.Typed

end

end GoSift.Filter
