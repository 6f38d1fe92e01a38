import GoSift.Filter.Error
import GoSift.Filter.Opcode
import GoSift.Filter.Registry

/-!
Code in the making. It is a list of instructions; the jumps of `break` and `continue` stay open until
the loop around them is complete. The compiler collects constants and locals on its way.
-/
namespace GoSift.Filter

/-- An instruction. `leave` and `repeat_` are the open jumps of `break` and `continue`. -/
inductive Instr where
  | plain (op : Opcode)
  | indexed (op : Opcode) (index : Nat)
  | numbered (op : Opcode) (id : Nat)
  | jump (op : Opcode) (offset : Int)
  | leave
  | repeat_
deriving DecidableEq, Repr

abbrev Code := List Instr

/-- The number of bytes. -/
def Instr.size : Instr → Nat
  | plain _ => 1
  | indexed .. => 2
  | numbered .. | jump .. | leave | repeat_ => 3

def Code.size : Code → Nat
  | [] => 0
  | i :: code => i.size + size code

/-- A number as two bytes, the lower one first. -/
def wordBytes (n : Nat) : List UInt8 :=
  [UInt8.ofNat n, UInt8.ofNat (n / 256)]

def Instr.bytes : Instr → List UInt8
  | plain op => [op.byte]
  | indexed op index => [op.byte, UInt8.ofNat index]
  | numbered op id => op.byte :: wordBytes id
  | jump op offset => op.byte :: wordBytes (offset % 0x10000).toNat
  | leave | repeat_ => [Opcode.jump.byte, 0, 0]

/-- The code in memory. -/
def Code.bytes (code : Code) : Array UInt8 :=
  (code.flatMap Instr.bytes).toArray

/-- What compiled code depends on: the functions that can be called, the package, and the function
itself. -/
structure Context where
  registry : Registry
  package : String
  name : String
  sig : Signature
  params : List (String × Ty)

/-- What the compiler has met so far. A local has the place at which it stands in its list. -/
structure Scope where
  constants : List Value := []
  locals : List (String × Ty) := []

abbrev Compiler := StateT Scope (Except FilterError)

namespace Compiler

def fail {α : Type} (pos : Position) (flaw : Flaw) : Compiler α :=
  throw ⟨pos, flaw⟩

def typeFault {α : Type} (pos : Position) (fault : TypeFault) : Compiler α :=
  fail pos (.type fault)

/-- The place and type of a variable in a list. -/
def slot? (name : String) (vars : List (String × Ty)) : Option (Nat × Ty) :=
  (vars.zipIdx.find? (·.1.1 = name)).map fun ((_, type), i) => (i, type)

/-- A parameter. Of several with one name the last counts. -/
def paramSlot? (ctx : Context) (name : String) : Option (Nat × Ty) :=
  (ctx.params.zipIdx.reverse.find? (·.1.1 = name)).map fun ((_, type), i) => (i, type)

def localSlot? (name : String) : Compiler (Option (Nat × Ty)) := do
  return slot? name (← get).locals

/-- Whether a name is that of a variable. -/
def isVar (ctx : Context) (name : String) : Compiler Bool := do
  return (paramSlot? ctx name).isSome || (← localSlot? name).isSome

/-- The instruction that pushes a constant. Equal constants are kept once, and there are at most as
many as a byte can number. -/
def pushConst (pos : Position) (v : Value) : Compiler Code := fun scope =>
  match scope.constants.findIdx? (·.same v) with
  | some i => .ok ([.indexed .pushConst i], scope)
  | none =>
    let i := scope.constants.length
    if i < 256 then
      .ok ([.indexed .pushConst i], { scope with constants := scope.constants ++ [v] })
    else .error ⟨pos, .tooManyConstants⟩

/-- A jump. Its offset has to fit into two bytes with a sign. -/
def jumpBy (pos : Position) (op : Opcode) (offset : Int) : Compiler Instr :=
  if -0x8000 ≤ offset ∧ offset < 0x8000 then return .jump op offset
  else fail pos .jumpTooFar

/-- Closes the open jumps of one kind so that they lead `behind` bytes past the end of the code. -/
def close (pos : Position) (kind : Instr) (behind : Nat) : Code → Compiler Code
  | [] => return []
  | i :: rest => do
    let i' ← if i = kind then jumpBy pos .jump (Code.size (i :: rest) + behind : Nat) else pure i
    return i' :: (← close pos kind behind rest)

/-- Fails unless a value of type `t` can be used as one of type `target`. -/
def checkAssignable (pos : Position) (t target : Ty) (use : Use) : Compiler Unit :=
  if t.isAssignableTo target then return ()
  else typeFault pos (.notAssignable t target use)

end Compiler

end GoSift.Filter
