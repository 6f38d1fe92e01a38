/-!
The instructions of filter code. An instruction is a byte for the operation and its operand: nothing,
an index of one byte, or a jump offset or function number of two bytes, the lower one first. A jump is
relative to the place of its own first byte.
-/
namespace GoSift.Filter

/-- The operations of filter code. -/
inductive Opcode where
  | pop
  | dup
  | pushParam
  | pushLocal
  | pushConst
  | pushTrue
  | pushFalse
  | pushNil
  | setLocal
  | incLocal
  | decLocal
  | jump
  | jumpFalse
  | jumpTrue
  | returnTop
  | returnTrue
  | returnFalse
  | call
  | callSelf
  | callNative
  | isNil
  | isNotNil
  | not
  | neg
  | eqInt
  | notEqInt
  | gtInt
  | gtEqInt
  | ltInt
  | ltEqInt
  | add
  | sub
  | mul
  | div
  | mod
  | eqBool
  | notEqBool
  | eqString
  | notEqString
  | concat
  | stringLen
  | stringSlice
  | stringSliceFrom
  | stringSliceTo
  | ltString
  | ltEqString
  | gtString
  | gtEqString
deriving DecidableEq, Repr

namespace Opcode

/-- The operations in the order of their numbers, which begin with one. -/
def all : Array Opcode :=
  #[pop, dup, pushParam, pushLocal, pushConst, pushTrue, pushFalse, pushNil, setLocal,
    incLocal, decLocal, jump, jumpFalse, jumpTrue, returnTop, returnTrue, returnFalse, call,
    callSelf, callNative, isNil, isNotNil, not, neg, eqInt, notEqInt, gtInt, gtEqInt, ltInt,
    ltEqInt, add, sub, mul, div, mod, eqBool, notEqBool, eqString, notEqString, concat,
    stringLen, stringSlice, stringSliceFrom, stringSliceTo, ltString, ltEqString, gtString,
    gtEqString]

/-- The operation with the given number. -/
def ofByte? (b : UInt8) : Option Opcode :=
  if b = 0 then none else all[b.toNat - 1]?

/-- The number of an operation. -/
def byte (op : Opcode) : UInt8 :=
  UInt8.ofNat (all.idxOf op + 1)

def name : Opcode → String
  | pop => "Pop"
  | dup => "Dup"
  | pushParam => "PushParam"
  | pushLocal => "PushLocal"
  | pushConst => "PushConst"
  | pushTrue => "PushTrue"
  | pushFalse => "PushFalse"
  | pushNil => "PushNil"
  | setLocal => "SetLocal"
  | incLocal => "IncLocal"
  | decLocal => "DecLocal"
  | jump => "Jump"
  | jumpFalse => "JumpFalse"
  | jumpTrue => "JumpTrue"
  | returnTop => "ReturnTop"
  | returnTrue => "ReturnTrue"
  | returnFalse => "ReturnFalse"
  | call => "Call"
  | callSelf => "CallRecur"
  | callNative => "CallNative"
  | isNil => "IsNil"
  | isNotNil => "IsNotNil"
  | not => "Not"
  | neg => "Neg"
  | eqInt => "EqInt"
  | notEqInt => "NotEqInt"
  | gtInt => "GtInt"
  | gtEqInt => "GtEqInt"
  | ltInt => "LtInt"
  | ltEqInt => "LtEqInt"
  | add => "Add"
  | sub => "Sub"
  | mul => "Mul"
  | div => "Div"
  | mod => "Mod"
  | eqBool => "EqBool"
  | notEqBool => "NotEqBool"
  | eqString => "EqString"
  | notEqString => "NotEqString"
  | concat => "Concat"
  | stringLen => "StringLen"
  | stringSlice => "StringSlice"
  | stringSliceFrom => "StringSliceFrom"
  | stringSliceTo => "StringSliceTo"
  | ltString => "LtString"
  | ltEqString => "LtEqString"
  | gtString => "GtString"
  | gtEqString => "GtEqString"

/-- The number of bytes of an instruction. -/
def width : Opcode → Nat
  | pushParam | pushLocal | pushConst | setLocal | incLocal | decLocal => 2
  | jump | jumpFalse | jumpTrue | call | callNative => 3
  | _ => 1

def ofName? (name : String) : Option Opcode :=
  all.find? (·.name = name)

end Opcode

end GoSift.Filter
