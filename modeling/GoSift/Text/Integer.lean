/-! Reading integers of a bounded range from digits. -/
namespace GoSift.Text

/-- Why a text is not an integer of the wanted range. -/
inductive IntegerError where
  | empty
  | invalidDigit
  | tooLarge
  | tooSmall
deriving DecidableEq, Repr

def IntegerError.message : IntegerError → String
  | .empty => "cannot parse integer from empty string"
  | .invalidDigit => "invalid digit found in string"
  | .tooLarge => "number too large to fit in target type"
  | .tooSmall => "number too small to fit in target type"

/-- The value of a digit or letter below `radix`. -/
def digitValue (radix : Nat) (c : Char) : Option Nat :=
  let value :=
    if '0' ≤ c ∧ c ≤ '9' then some (c.toNat - '0'.toNat)
    else if 'a' ≤ c ∧ c ≤ 'z' then some (c.toNat - 'a'.toNat + 10)
    else if 'A' ≤ c ∧ c ≤ 'Z' then some (c.toNat - 'A'.toNat + 10)
    else none
  value.filter (· < radix)

/-- Goes on reading digits behind `acc`. The first fault from the left decides: a character that is
no digit, or the digit that leaves the range. -/
def readDigits (radix limit : Nat) (overflow : IntegerError) :
    Nat → List Char → Except IntegerError Nat
  | acc, [] => .ok acc
  | acc, c :: cs =>
    match digitValue radix c with
    | none => .error .invalidDigit
    | some d =>
      if acc * radix + d ≤ limit then readDigits radix limit overflow (acc * radix + d) cs
      else .error overflow

/-- A natural number up to `limit`, with an optional plus sign. -/
def readNat (radix limit : Nat) : List Char → Except IntegerError Nat
  | [] => .error .empty
  | ['+'] => .error .invalidDigit
  | '+' :: cs => readDigits radix limit .tooLarge 0 cs
  | cs => readDigits radix limit .tooLarge 0 cs

/-- A 64-bit integer with an optional sign. -/
def readInt64 (radix : Nat) : List Char → Except IntegerError Int64
  | ['-'] => .error .invalidDigit
  | '-' :: cs =>
    (readDigits radix 0x8000000000000000 .tooSmall 0 cs).map fun n => Int64.ofInt (-(n : Int))
  | cs => (readNat radix 0x7fffffffffffffff cs).map fun n => Int64.ofInt (n : Int)

end GoSift.Text
