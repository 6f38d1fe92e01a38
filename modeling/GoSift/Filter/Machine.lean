import GoSift.Filter.Operator
import GoSift.Filter.Registry

/-!
The machine that runs filter code. It has an operand stack, the frame of the function it is in, and
those of its callers. Code that the compiler did not make can fault.
-/
namespace GoSift.Filter

/-- Each frame has so many locals. -/
def maxLocals : Nat := 8

/-- Why code cannot go on: no operation where one is needed, a call of a number that no function has,
or an operand that is missing or refers to nothing. -/
inductive Fault where
  | badCode (func : String) (pc : Nat)
  | unknownFunc (func : String) (id : Nat)
  | unknownNative (func : String) (id : Nat)
  | outOfRange
deriving DecidableEq, Repr

def Fault.message? : Fault → Option String
  | badCode func pc => some ("malformed bytecode in " ++ func ++ " at " ++ toString pc)
  | unknownFunc func id =>
    some ("malformed bytecode in " ++ func ++ ": unknown function #" ++ toString id)
  | unknownNative func id =>
    some ("malformed bytecode in " ++ func ++ ": unknown native #" ++ toString id)
  | outOfRange => none

/-- A function that is being run. -/
structure Frame where
  func : Func
  args : List Value
  locals : List Value
  pc : Nat

namespace Frame

def enter (func : Func) (args : List Value) : Frame :=
  ⟨func, args, List.replicate maxLocals .nil, 0⟩

/-- The byte behind the operation. -/
def index? (f : Frame) : Option Nat :=
  f.func.code[f.pc + 1]?.map UInt8.toNat

/-- The two bytes behind the operation. -/
def word? (f : Frame) : Option Nat := do
  let low ← f.func.code[f.pc + 1]?
  let high ← f.func.code[f.pc + 2]?
  return low.toNat + 256 * high.toNat

/-- A place that lies `offset` from `pc`, where the offset is a number of 16 bits with sign. A place
before the first wraps around to the last ones of 64 bits. -/
def offsetPlace (pc offset : Nat) : Nat :=
  if offset < 0x8000 then pc + offset
  else if 0x10000 ≤ pc + offset then pc + offset - 0x10000
  else pc + offset + 0x10000000000000000 - 0x10000

/-- Where the jump at the current place leads. -/
def target? (f : Frame) : Option Nat :=
  f.word?.map (offsetPlace f.pc)

/-- The frame behind an instruction. -/
def advance (f : Frame) (op : Opcode) : Frame :=
  { f with pc := f.pc + op.width }

end Frame

/-- A call of a native: its number and the values it found on the stack. -/
structure NativeCall where
  id : Nat
  args : List Value

/-- The machine between two instructions. The calls of natives so far are kept, the last one first. -/
structure State where
  frame : Frame
  callers : List Frame
  stack : Stack
  calls : List NativeCall

/-- How a run ends, and what it leaves. -/
structure Outcome where
  result : Except Fault Value
  stack : Stack
  calls : List NativeCall

/-- The machine goes on, or ends. -/
inductive Progress where
  | next (s : State)
  | done (o : Outcome)

namespace State

def fault (s : State) (f : Fault) : Progress :=
  .done ⟨.error f, s.stack, s.calls⟩

/-- Goes on behind the instruction with another stack. -/
def go (s : State) (op : Opcode) (stack : Stack) : Progress :=
  .next { s with frame := s.frame.advance op, stack }

/-- Goes on behind the instruction with a value pushed, or faults if there is none. -/
def push (s : State) (op : Opcode) : Option Value → Progress
  | some v => s.go op (v :: s.stack)
  | none => s.fault .outOfRange

/-- Changes the local that the operand names. -/
def setLocal (s : State) (op : Opcode) (change : Value → Value) : Progress :=
  match s.frame.index? with
  | none => s.fault .outOfRange
  | some i =>
    match s.frame.locals[i]? with
    | none => s.fault .outOfRange
    | some v =>
      .next { s with frame := { s.frame.advance op with locals := s.frame.locals.set i (change v) } }

def jump (s : State) : Progress :=
  match s.frame.target? with
  | none => s.fault .outOfRange
  | some pc => .next { s with frame := { s.frame with pc } }

/-- Leaves the current function with a value. -/
def leave (s : State) (v : Value) : Progress :=
  match s.callers with
  | [] => .done ⟨.ok v, s.stack, s.calls⟩
  | caller :: callers => .next { s with frame := caller, callers, stack := v :: s.stack }

/-- Enters a function with its arguments from the stack. -/
def enter (s : State) (op : Opcode) (func : Func) : Progress :=
  let (args, stack) := Stack.popN func.numParams s.stack
  .next { s with frame := .enter func args, callers := s.frame.advance op :: s.callers, stack }

def callNative (s : State) (op : Opcode) (id : Nat) (native : Native) : Progress :=
  let call : NativeCall := ⟨id, (Stack.popN native.arity s.stack).1⟩
  .next { s with
    frame := s.frame.advance op, stack := native.run s.stack, calls := call :: s.calls }

/-- Does one operation. -/
def exec (r : Registry) (s : State) (op : Opcode) : Progress :=
  match op with
  | .pushParam => s.push op do s.frame.args[← s.frame.index?]?
  | .pushLocal => s.push op do s.frame.locals[← s.frame.index?]?
  | .pushConst => s.push op do s.frame.func.constants[← s.frame.index?]?
  | .setLocal =>
    let (v, stack) := s.stack.pop
    { s with stack }.setLocal op fun _ => v
  | .incLocal => s.setLocal op fun v => .int (v.asInt + 1)
  | .decLocal => s.setLocal op fun v => .int (v.asInt - 1)
  | .jump => s.jump
  | .jumpFalse =>
    let (v, stack) := s.stack.pop
    if v.asBool then s.go op stack else { s with stack }.jump
  | .jumpTrue =>
    let (v, stack) := s.stack.pop
    if v.asBool then { s with stack }.jump else s.go op stack
  | .returnTop =>
    let (v, stack) := s.stack.pop
    { s with stack }.leave v
  | .returnTrue => s.leave (.bool true)
  | .returnFalse => s.leave (.bool false)
  | .call =>
    match s.frame.word? with
    | none => s.fault .outOfRange
    | some id =>
      match r.funcs.get? id with
      | none => s.fault (.unknownFunc s.frame.func.name id)
      | some func => s.enter op func
  | .callSelf => s.enter op s.frame.func
  | .callNative =>
    match s.frame.word? with
    | none => s.fault .outOfRange
    | some id =>
      match r.natives.get? id with
      | none => s.fault (.unknownNative s.frame.func.name id)
      | some native => s.callNative op id native
  | _ =>
    match op.onStack? with
    | some f => s.go op (f s.stack)
    | none => s.fault .outOfRange

/-- Does the next instruction. -/
def step (r : Registry) (s : State) : Progress :=
  match s.frame.func.code[s.frame.pc]?.bind Opcode.ofByte? with
  | none => s.fault (.badCode s.frame.func.name s.frame.pc)
  | some op => s.exec r op

/-- Runs at most `fuel` instructions. -/
def run (r : Registry) : Nat → State → Option Outcome
  | 0, _ => none
  | fuel + 1, s =>
    match s.step r with
    | .next s => run r fuel s
    | .done o => some o

/-- The machine at the start of a function. -/
def start (func : Func) (args : List Value) (stack : Stack) : State :=
  ⟨.enter func args, [], stack, []⟩

end State

/-- More instructions than any filter of practical use takes. -/
def fuelLimit : Nat := 0x1000000000000000

/-- Runs a function. There is no outcome if it does not end. -/
def Func.eval (r : Registry) (func : Func) (args : List Value) (stack : Stack) : Option Outcome :=
  (State.start func args stack).run r fuelLimit

end GoSift.Filter
