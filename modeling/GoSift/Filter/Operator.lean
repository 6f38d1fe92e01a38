import GoSift.Filter.Opcode
import GoSift.Filter.Value
import GoSift.Text.Bytes

/-! What operations do that look at the stack only. -/
namespace GoSift.Filter

/-- The part of a string between two places counted in bytes. It is empty if they are out of range, in
the wrong order, or inside a character. -/
def sliceString (s : String) (low high : Int) : String :=
  if low < 0 || high < 0 then ""
  else (Text.sliceBytes s low.toNat high.toNat).getD ""

/-- Division toward zero; by zero it gives zero. -/
def divInt (x y : Int64) : Int64 :=
  if y = 0 then 0 else x / y

/-- The remainder of division toward zero; by zero it gives zero. -/
def modInt (x y : Int64) : Int64 :=
  if y = 0 then 0 else x % y

namespace Stack

/-- Replaces the top value. -/
def map (f : Value → Value) (s : Stack) : Stack :=
  let (x, s) := s.pop
  f x :: s

/-- Replaces the two values on top. -/
def map₂ (f : Value → Value → Value) (s : Stack) : Stack :=
  let (y, s) := s.pop
  let (x, s) := s.pop
  f x y :: s

/-- Replaces the three values on top. -/
def map₃ (f : Value → Value → Value → Value) (s : Stack) : Stack :=
  let (z, s) := s.pop
  let (y, s) := s.pop
  let (x, s) := s.pop
  f x y z :: s

def onInts (f : Int64 → Int64 → Value) : Stack → Stack :=
  map₂ fun x y => f x.asInt y.asInt

def onBools (f : Bool → Bool → Value) : Stack → Stack :=
  map₂ fun x y => f x.asBool y.asBool

def onStrings (f : String → String → Value) : Stack → Stack :=
  map₂ fun x y => f x.asStr y.asStr

end Stack

/-- The effect of an operation that looks at nothing but the stack. -/
def Opcode.onStack? : Opcode → Option (Stack → Stack)
  | pop => some fun s => s.pop.2
  | dup => some fun s => s.pop.1 :: s
  | pushTrue => some (.bool true :: ·)
  | pushFalse => some (.bool false :: ·)
  | pushNil => some (.nil :: ·)
  | isNil => some (Stack.map fun x => .bool x.isNil)
  | isNotNil => some (Stack.map fun x => .bool !x.isNil)
  | not => some (Stack.map fun x => .bool !x.asBool)
  | neg => some (Stack.map fun x => .int (-x.asInt))
  | eqInt => some (Stack.onInts fun x y => .bool (x = y))
  | notEqInt => some (Stack.onInts fun x y => .bool (x ≠ y))
  | gtInt => some (Stack.onInts fun x y => .bool (y < x))
  | gtEqInt => some (Stack.onInts fun x y => .bool (y ≤ x))
  | ltInt => some (Stack.onInts fun x y => .bool (x < y))
  | ltEqInt => some (Stack.onInts fun x y => .bool (x ≤ y))
  | add => some (Stack.onInts fun x y => .int (x + y))
  | sub => some (Stack.onInts fun x y => .int (x - y))
  | mul => some (Stack.onInts fun x y => .int (x * y))
  | div => some (Stack.onInts fun x y => .int (divInt x y))
  | mod => some (Stack.onInts fun x y => .int (modInt x y))
  | eqBool => some (Stack.onBools fun x y => .bool (x = y))
  | notEqBool => some (Stack.onBools fun x y => .bool (x ≠ y))
  | eqString => some (Stack.onStrings fun x y => .bool (x = y))
  | notEqString => some (Stack.onStrings fun x y => .bool (x ≠ y))
  | concat => some (Stack.onStrings fun x y => .str (x ++ y))
  | ltString => some (Stack.onStrings fun x y => .bool (x < y))
  | ltEqString => some (Stack.onStrings fun x y => .bool (!(y < x)))
  | gtString => some (Stack.onStrings fun x y => .bool (y < x))
  | gtEqString => some (Stack.onStrings fun x y => .bool (!(x < y)))
  | stringLen => some (Stack.map fun x => .ofNat x.asStr.utf8ByteSize)
  | stringSlice => some (Stack.map₃ fun s low high =>
      .str (sliceString s.asStr low.asInt.toInt high.asInt.toInt))
  | stringSliceFrom => some (Stack.map₂ fun s low =>
      .str (sliceString s.asStr low.asInt.toInt s.asStr.utf8ByteSize))
  | stringSliceTo => some (Stack.map₂ fun s high =>
      .str (sliceString s.asStr 0 high.asInt.toInt))
  | pushParam | pushLocal | pushConst | setLocal | incLocal | decLocal | jump | jumpFalse | jumpTrue
  | returnTop | returnTrue | returnFalse | call | callSelf | callNative => none

end GoSift.Filter
