import GoSift.Syntax.Facts
import GoSift.Text.Quoted

/-! Values of the filter language and the stack they are kept on. -/
namespace GoSift.Filter

/-- A value. A reference stands for a captured node; it is equal to itself only, so it carries an
identity besides the facts. -/
inductive Value where
  | nil
  | bool (b : Bool)
  | int (n : Int64)
  | str (s : String)
  | ref (id : Nat) (facts : Facts)
deriving DecidableEq, Repr

namespace Value

instance : Inhabited Value := ⟨nil⟩

def isNil : Value → Bool
  | nil => true
  | _ => false

/-- A value of another kind reads as false. -/
def asBool : Value → Bool
  | bool b => b
  | _ => false

/-- A value of another kind reads as zero. -/
def asInt : Value → Int64
  | int n => n
  | _ => 0

/-- A value of another kind reads as the empty string. -/
def asStr : Value → String
  | str s => s
  | _ => ""

def facts? : Value → Option Facts
  | ref _ facts => some facts
  | _ => none

/-- Equality, where a reference equals itself only. -/
def same : Value → Value → Bool
  | nil, nil => true
  | bool a, bool b => a = b
  | int a, int b => a = b
  | str a, str b => a = b
  | ref i _, ref j _ => i = j
  | _, _ => false

/-- The written form in listings. -/
def text : Value → String
  | nil => "nil"
  | bool b => if b then "true" else "false"
  | int n => toString n.toInt
  | str s => Text.quote s
  | ref .. => "<ref>"

/-- The written form with the kind of the value. -/
def debugText : Value → String
  | nil => "Nil"
  | bool b => "Bool(" ++ (bool b).text ++ ")"
  | int n => "Int(" ++ (int n).text ++ ")"
  | str s => "Str(" ++ (str s).text ++ ")"
  | ref .. => "Ref(..)"

/-- The value of a count. -/
def ofNat (n : Nat) : Value :=
  int (Int64.ofNat (min n 0x7fffffffffffffff))

end Value

/-- The operand stack, its top first. -/
abbrev Stack := List Value

namespace Stack

/-- The top of the stack and what is below. An empty stack gives `nil`. -/
def pop : Stack → Value × Stack
  | [] => (.nil, [])
  | v :: s => (v, s)

/-- The top `n` values in the order in which they were pushed, and what is below. -/
def popN (n : Nat) (s : Stack) : List Value × Stack :=
  ((s.take n).reverse, s.drop n)

end Stack

end GoSift.Filter
