import GoSift.Proofs.Filter.Execution
import Mathlib.Data.List.Forall2

/-!
Types of values, and what operations take and give. The result of an operation on the stack has its type
whatever the operands are, since an operand of another kind reads as zero, as false or as the empty
string.
-/
namespace GoSift.Filter

/-- Whether a value is one of a type. Errors and opaque types have any values. -/
def Ty.holds : Ty → Value → Bool
  | bool, .bool _ | int, .int _ | string, .str _ | nil, .nil => true
  | error, _ | named _, _ => true
  | _, _ => false

theorem Ty.holds_of_assignable {t u : Ty} {v : Value} (h : t.isAssignableTo u) (hv : t.holds v) :
    u.holds v := by
  simp only [isAssignableTo, Bool.or_eq_true, Bool.and_eq_true, decide_eq_true_eq] at h
  rcases h with rfl | ⟨⟨rfl, hn⟩, -⟩
  · exact hv
  · cases u <;> first | rfl | exact hv | cases hn

theorem Ty.holds_nil_of_nillable {t : Ty} (h : t.isNillable) : t.holds .nil := by
  cases t <;> first | rfl | cases h

@[simp] theorem Ty.isAssignableTo_self (t : Ty) : t.isAssignableTo t := by
  simp [isAssignableTo]

namespace Opcode

/-- What an operation takes off the stack or looks at there, the top first: a value that it reads as one
of a type, or any value. The values that a call takes are not listed. -/
def operands : Opcode → List (Option Ty)
  | pop | dup | isNil | isNotNil | setLocal | returnTop => [none]
  | not | jumpFalse | jumpTrue => [some .bool]
  | neg => [some .int]
  | eqInt | notEqInt | gtInt | gtEqInt | ltInt | ltEqInt | add | sub | mul | div | mod =>
    [some .int, some .int]
  | eqBool | notEqBool => [some .bool, some .bool]
  | eqString | notEqString | concat | ltString | ltEqString | gtString | gtEqString =>
    [some .string, some .string]
  | stringLen => [some .string]
  | stringSlice => [some .int, some .int, some .string]
  | stringSliceFrom | stringSliceTo => [some .int, some .string]
  | pushParam | pushLocal | pushConst | pushTrue | pushFalse | pushNil | incLocal | decLocal | jump
  | returnTrue | returnFalse | call | callSelf | callNative => []

/-- The type of the value that an operation puts in the place of its operands. -/
def result? : Opcode → Option Ty
  | pushTrue | pushFalse | isNil | isNotNil | not | eqInt | notEqInt | gtInt | gtEqInt | ltInt | ltEqInt
  | eqBool | notEqBool | eqString | notEqString | ltString | ltEqString | gtString | gtEqString =>
    some .bool
  | pushNil => some .nil
  | neg | add | sub | mul | div | mod | stringLen => some .int
  | concat | stringSlice | stringSliceFrom | stringSliceTo => some .string
  | _ => none

/-- An operation with a result replaces its operands by one value of that type. -/
theorem onStack?_of_result? {op : Opcode} {t : Ty} (h : op.result? = some t) :
    ∃ f, op.onStack? = some f ∧ ∀ vs : List Value, vs.length = op.operands.length →
      ∃ v, t.holds v ∧ ∀ below, f (vs ++ below) = v :: below := by
  have hnone : ∀ vs : List Value, vs.length = 0 → vs = [] := fun vs => List.length_eq_zero_iff.mp
  have hone : ∀ vs : List Value, vs.length = 1 → ∃ x, vs = [x] := fun vs => List.length_eq_one_iff.mp
  have htwo : ∀ vs : List Value, vs.length = 2 → ∃ x y, vs = [x, y] := fun vs =>
    List.length_eq_two.mp
  have hthree : ∀ vs : List Value, vs.length = 3 → ∃ x y z, vs = [x, y, z] := fun vs =>
    List.length_eq_three.mp
  cases op <;> cases h <;> refine ⟨_, rfl, fun vs hvs => ?_⟩ <;>
    first
      | obtain rfl := hnone vs hvs; exact ⟨_, rfl, fun _ => rfl⟩
      | obtain ⟨x, rfl⟩ := hone vs hvs; exact ⟨_, rfl, fun _ => rfl⟩
      | obtain ⟨x, y, rfl⟩ := htwo vs hvs; exact ⟨_, rfl, fun _ => rfl⟩
      | obtain ⟨x, y, z, rfl⟩ := hthree vs hvs; exact ⟨_, rfl, fun _ => rfl⟩

end Opcode

/-- A binary operator is done by an operation on two operands of their type. -/
theorem binaryOpcode?_typed {op : BinaryOp} {t result : Ty} {opcode : Opcode}
    (h : Compiler.binaryOpcode? op t = some (opcode, result)) :
    opcode.operands = [some t, some t] ∧ opcode.result? = some result := by
  unfold Compiler.binaryOpcode? at h
  split at h <;> cases h <;> exact ⟨rfl, rfl⟩

theorem constant?_typed {name : String} {op : Opcode} {t : Ty} (h : constant? name = some (op, t)) :
    op.operands = [] ∧ op.result? = some t := by
  unfold constant? at h
  split at h <;> cases h <;> exact ⟨rfl, rfl⟩

theorem literal?_holds {kind : LitKind} {text : String} {v : Value} {t : Ty}
    (h : literal? kind text = some (v, t)) : t.holds v := by
  unfold literal? at h
  split at h
  · obtain ⟨n, -, he⟩ := Option.map_eq_some_iff.mp h
    cases he
    rfl
  · obtain ⟨s, -, he⟩ := Option.map_eq_some_iff.mp h
    cases he
    rfl
  · cases h

end GoSift.Filter
