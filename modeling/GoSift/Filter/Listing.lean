import GoSift.Filter.Machine

/-!
Listings of filter code, a line for each instruction. Constants are written out, jumps lead to places,
and calls name the function.
-/
namespace GoSift.Filter

/-- A number in a field four characters wide. -/
def placeText (n : Nat) : String :=
  let digits := toString n
  "".pushn ' ' (4 - digits.length) ++ digits

/-- A byte as two hexadecimal digits. -/
def hexByte (b : UInt8) : String :=
  let digits := Nat.toDigits 16 b.toNat
  String.ofList (List.replicate (2 - digits.length) '0' ++ digits)

/-- A function by its name, or its number if there is none. -/
def nameOr (name : Option String) (id : Nat) : String :=
  name.getD ("#" ++ toString id)

/-- The operand of the instruction at the place of a frame. -/
def operandText (r : Registry) (f : Frame) : Opcode → String
  | .pushParam | .pushLocal | .setLocal | .incLocal | .decLocal =>
    " " ++ toString (f.index?.getD 0)
  | .pushConst =>
    let i := f.index?.getD 0
    " " ++ nameOr (f.func.constants[i]?.map Value.text) i
  | .jump | .jumpFalse | .jumpTrue => " " ++ toString (f.target?.getD 0)
  | .call =>
    let id := f.word?.getD 0
    " " ++ nameOr ((r.funcs.get? id).map Func.name) id
  | .callSelf => " " ++ f.func.name
  | .callNative =>
    let id := f.word?.getD 0
    " " ++ nameOr ((r.natives.get? id).map Native.name) id
  | _ => ""

/-- The lines for the code from `pc` on. -/
def listingFrom (r : Registry) (func : Func) (pc : Nat) : String :=
  if h : pc < func.code.size then
    let byte := func.code[pc]
    match Opcode.ofByte? byte with
    | none =>
      placeText pc ++ "  <bad opcode 0x" ++ hexByte byte ++ ">\n" ++ listingFrom r func (pc + 1)
    | some op =>
      if func.code.size < pc + op.width then
        placeText pc ++ "  <truncated " ++ op.name ++ ">\n"
      else
        placeText pc ++ "  " ++ op.name ++ operandText r ⟨func, [], [], pc⟩ op ++ "\n"
          ++ listingFrom r func (pc + op.width)
  else ""
termination_by func.code.size - pc
decreasing_by
  · omega
  · have : 0 < op.width := by cases op <;> decide
    omega

/-- The listing of a function. -/
def Func.listing (r : Registry) (func : Func) : String :=
  listingFrom r func 0

end GoSift.Filter
