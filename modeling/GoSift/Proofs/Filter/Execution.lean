import GoSift.Proofs.Filter.Layout

/-!
Steps of the machine. What an instruction does is stated once for each kind, for a state that is given
by the function being run, the place, the locals, the stack and the calls of natives.
-/
namespace GoSift.Filter

namespace State

/-- The machine goes from one state to another in `n` steps. -/
def Steps (r : Registry) : Nat → State → State → Prop
  | 0, s, s' => s = s'
  | n + 1, s, s' => ∃ s₁, s.step r = .next s₁ ∧ Steps r n s₁ s'

variable {r : Registry} {m n : Nat} {s s₁ s' : State}

theorem Steps.trans (h : Steps r m s s₁) (h' : Steps r n s₁ s') : Steps r (m + n) s s' := by
  induction m generalizing s with
  | zero =>
    obtain rfl : s = s₁ := h
    rwa [Nat.zero_add]
  | succ m ih =>
    obtain ⟨s₂, hstep, h⟩ := h
    rw [Nat.add_right_comm]
    exact ⟨s₂, hstep, ih h⟩

theorem run_succ (fuel : Nat) : s.run r (fuel + 1) =
    match s.step r with
    | .next s₁ => s₁.run r fuel
    | .done o => some o :=
  rfl

theorem run_of_next (h : s.step r = .next s₁) (fuel : Nat) : s.run r (fuel + 1) = s₁.run r fuel := by
  rw [run_succ, h]

theorem run_of_done {o : Outcome} (h : s.step r = .done o) (fuel : Nat) :
    s.run r (fuel + 1) = some o := by
  rw [run_succ, h]

/-- Running on after some steps. -/
theorem run_of_steps (h : Steps r m s s') (fuel : Nat) : s.run r (m + fuel) = s'.run r fuel := by
  induction m generalizing s with
  | zero =>
    obtain rfl : s = s' := h
    rw [Nat.zero_add]
  | succ m ih =>
    obtain ⟨s₁, hstep, h⟩ := h
    rw [Nat.add_right_comm, run_of_next hstep]
    exact ih h

/-- A machine that can make `m` steps does not end with less fuel. -/
theorem run_eq_none_of_steps (h : Steps r m s s') (hn : n ≤ m) : s.run r n = none := by
  induction n generalizing m s with
  | zero => rfl
  | succ n ih =>
    cases m with
    | zero => omega
    | succ m =>
      obtain ⟨s₁, hstep, h⟩ := h
      rw [run_of_next hstep]
      exact ih h (by omega)

/-- More fuel does not change how a run ends. -/
theorem run_mono {o : Outcome} (h : s.run r m = some o) (hn : m ≤ n) : s.run r n = some o := by
  induction m generalizing n s with
  | zero => cases h
  | succ m ih =>
    cases n with
    | zero => omega
    | succ n =>
      cases hstep : s.step r with
      | next s₁ =>
        rw [run_of_next hstep] at h ⊢
        exact ih h (by omega)
      | done o' =>
        rw [run_of_done hstep] at h ⊢
        exact h

end State

/-- A call that is being run: its function and arguments, and who waits for it. -/
structure Activation where
  func : Func
  args : List Value
  callers : List Frame

namespace Activation

/-- The machine inside a call. -/
def state (a : Activation) (pc : Nat) (locals : List Value) (stack : Stack)
    (calls : List NativeCall) : State :=
  ⟨⟨a.func, a.args, locals, pc⟩, a.callers, stack, calls⟩

variable {r : Registry} {a : Activation} {pc : Nat} {locals : List Value} {stack : Stack}
  {calls : List NativeCall} {op : Opcode}

theorem step_of_opcode (h : a.func.opcode? pc = some op) :
    (a.state pc locals stack calls).step r = (a.state pc locals stack calls).exec r op := by
  have hbind : a.func.code[pc]?.bind Opcode.ofByte? = some op := h
  simp only [State.step, state, hbind]

theorem step_onStack {f : Stack → Stack} (h : a.func.opcode? pc = some op)
    (hf : op.onStack? = some f) :
    (a.state pc locals stack calls).step r = .next (a.state (pc + 1) locals (f stack) calls) := by
  rw [step_of_opcode h]
  cases op <;> cases hf <;> rfl

/-- An operation that pushes a value. -/
theorem push_eq {value : Option Value} {v : Value} (hv : value = some v) :
    (a.state pc locals stack calls).push op value =
      .next (a.state (pc + op.width) locals (v :: stack) calls) := by
  rw [hv]
  rfl

theorem step_pushParam {i : Nat} {v : Value} (h : a.func.opcode? pc = some .pushParam)
    (hi : (a.func.at pc).index? = some i) (hv : a.args[i]? = some v) :
    (a.state pc locals stack calls).step r = .next (a.state (pc + 2) locals (v :: stack) calls) := by
  rw [step_of_opcode h]
  exact push_eq (Option.bind_eq_some_iff.mpr ⟨i, hi, hv⟩)

theorem step_pushLocal {i : Nat} {v : Value} (h : a.func.opcode? pc = some .pushLocal)
    (hi : (a.func.at pc).index? = some i) (hv : locals[i]? = some v) :
    (a.state pc locals stack calls).step r = .next (a.state (pc + 2) locals (v :: stack) calls) := by
  rw [step_of_opcode h]
  exact push_eq (Option.bind_eq_some_iff.mpr ⟨i, hi, hv⟩)

theorem step_pushConst {i : Nat} {v : Value} (h : a.func.opcode? pc = some .pushConst)
    (hi : (a.func.at pc).index? = some i) (hv : a.func.constants[i]? = some v) :
    (a.state pc locals stack calls).step r = .next (a.state (pc + 2) locals (v :: stack) calls) := by
  rw [step_of_opcode h]
  exact push_eq (Option.bind_eq_some_iff.mpr ⟨i, hi, hv⟩)

/-- An operation that changes a local. -/
theorem setLocal_eq {i : Nat} {v : Value} {change : Value → Value}
    (hi : (a.func.at pc).index? = some i) (hv : locals[i]? = some v) :
    (a.state pc locals stack calls).setLocal op change =
      .next (a.state (pc + op.width) (locals.set i (change v)) stack calls) := by
  change (a.state pc locals stack calls).frame.index? = some i at hi
  change (a.state pc locals stack calls).frame.locals[i]? = some v at hv
  simp only [State.setLocal, hi, hv]
  rfl

theorem step_setLocal {i : Nat} {v w : Value} (h : a.func.opcode? pc = some .setLocal)
    (hi : (a.func.at pc).index? = some i) (hv : locals[i]? = some v) :
    (a.state pc locals (w :: stack) calls).step r =
      .next (a.state (pc + 2) (locals.set i w) stack calls) := by
  rw [step_of_opcode h]
  exact setLocal_eq hi hv

/-- A step of a local up or down. -/
theorem step_stepLocal {up : Bool} {i : Nat} {v : Value}
    (h : a.func.opcode? pc = some (if up then .incLocal else .decLocal))
    (hi : (a.func.at pc).index? = some i) (hv : locals[i]? = some v) :
    (a.state pc locals stack calls).step r = .next (a.state (pc + 2)
      (locals.set i (.int (if up then v.asInt + 1 else v.asInt - 1))) stack calls) := by
  rw [step_of_opcode h]
  cases up <;> exact setLocal_eq hi hv

theorem jump_eq {t : Nat} (ht : (a.func.at pc).target? = some t) :
    (a.state pc locals stack calls).jump = .next (a.state t locals stack calls) := by
  change (a.state pc locals stack calls).frame.target? = some t at ht
  simp only [State.jump, ht]
  rfl

theorem step_jump {t : Nat} (h : a.func.opcode? pc = some .jump)
    (ht : (a.func.at pc).target? = some t) :
    (a.state pc locals stack calls).step r = .next (a.state t locals stack calls) := by
  rw [step_of_opcode h]
  exact jump_eq ht

/-- A conditional jump takes its test off the stack. -/
theorem step_jumpIf {whenTrue : Bool} {t : Nat} {v : Value}
    (h : a.func.opcode? pc = some (if whenTrue then .jumpTrue else .jumpFalse))
    (ht : (a.func.at pc).target? = some t) :
    (a.state pc locals (v :: stack) calls).step r =
      .next (a.state (if v.asBool = whenTrue then t else pc + 3) locals stack calls) := by
  rw [step_of_opcode h]
  unfold State.exec
  cases whenTrue <;> cases hv : v.asBool <;> simp only [Bool.false_eq_true, if_false, if_true, state,
    Stack.pop, hv, reduceCtorEq]
  · exact jump_eq ht
  · rfl
  · rfl
  · exact jump_eq ht

theorem step_returnTop {v : Value} (h : a.func.opcode? pc = some .returnTop) :
    (a.state pc locals (v :: stack) calls).step r = (a.state pc locals stack calls).leave v := by
  rw [step_of_opcode h]
  rfl

theorem step_returnBool {b : Bool}
    (h : a.func.opcode? pc = some (if b then .returnTrue else .returnFalse)) :
    (a.state pc locals stack calls).step r = (a.state pc locals stack calls).leave (.bool b) := by
  rw [step_of_opcode h]
  cases b <;> rfl

/-- The frame in which a call goes on behind an instruction. -/
def resume (a : Activation) (pc : Nat) (locals : List Value) : Frame :=
  ⟨a.func, a.args, locals, pc⟩

theorem enter_eq {f : Func} {args : List Value} (hn : args.length = f.numParams) :
    (a.state pc locals (args.reverse ++ stack) calls).enter op f =
      .next ⟨.enter f args, a.resume (pc + op.width) locals :: a.callers, stack, calls⟩ := by
  simp only [State.enter, state, Stack.popN]
  rw [List.take_left' (by simpa using hn), List.drop_left' (by simpa using hn), List.reverse_reverse]
  rfl

theorem step_call {id : Nat} {f : Func} {args : List Value} (h : a.func.opcode? pc = some .call)
    (hid : (a.func.at pc).word? = some id) (hf : r.funcs.get? id = some f)
    (hn : args.length = f.numParams) :
    (a.state pc locals (args.reverse ++ stack) calls).step r =
      .next ⟨.enter f args, a.resume (pc + 3) locals :: a.callers, stack, calls⟩ := by
  change (a.state pc locals (args.reverse ++ stack) calls).frame.word? = some id at hid
  rw [step_of_opcode h]
  unfold State.exec
  simp only [hid, hf]
  exact enter_eq hn

theorem step_callSelf {args : List Value} (h : a.func.opcode? pc = some .callSelf)
    (hn : args.length = a.func.numParams) :
    (a.state pc locals (args.reverse ++ stack) calls).step r =
      .next ⟨.enter a.func args, a.resume (pc + 1) locals :: a.callers, stack, calls⟩ := by
  rw [step_of_opcode h]
  exact enter_eq hn

theorem step_callNative {id : Nat} {native : Native} {args : List Value}
    (h : a.func.opcode? pc = some .callNative) (hid : (a.func.at pc).word? = some id)
    (hf : r.natives.get? id = some native) (hn : args.length = native.arity) :
    (a.state pc locals (args.reverse ++ stack) calls).step r =
      .next (a.state (pc + 3) locals (native.run (args.reverse ++ stack)) (⟨id, args⟩ :: calls)) := by
  change (a.state pc locals (args.reverse ++ stack) calls).frame.word? = some id at hid
  rw [step_of_opcode h]
  unfold State.exec
  simp only [hid, hf, State.callNative, Stack.popN]
  rw [show (a.state pc locals (args.reverse ++ stack) calls).stack = args.reverse ++ stack from rfl,
    List.take_left' (by simpa using hn), List.reverse_reverse]
  rfl

end Activation

end GoSift.Filter
