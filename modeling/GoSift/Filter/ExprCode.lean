import GoSift.Filter.Code
import GoSift.Filter.Literal
import GoSift.Syntax.Printer

/-!
The code of expressions. It leaves the values of the expression on the stack, one except for calls, and
their types are known.
-/
namespace GoSift.Filter.Compiler

/-- What an unsupported expression is called. -/
def exprConstruct : Expr → Construct
  | .composite .. => .compositeLit
  | .funcLit .. => .funcLit
  | .selector .. => .selector
  | .index .. => .index
  | .slice .. => .fullSlice
  | .typeAssert .. => .typeAssert
  | .star .. => .deref
  | .unary .. => .unary
  | .keyValue .. => .keyValue
  | .lit _ .float _ => .floatLit
  | .lit _ .imag _ => .imagLit
  | .lit _ .char _ => .charLit
  | .wildcard .. => .wildcard
  | _ => .typeExpr

/-- The operation of a binary operator on two values of one type, and the type of its result. -/
def binaryOpcode? : BinaryOp → Ty → Option (Opcode × Ty)
  | .eq, .int => some (.eqInt, .bool)
  | .ne, .int => some (.notEqInt, .bool)
  | .lt, .int => some (.ltInt, .bool)
  | .le, .int => some (.ltEqInt, .bool)
  | .gt, .int => some (.gtInt, .bool)
  | .ge, .int => some (.gtEqInt, .bool)
  | .add, .int => some (.add, .int)
  | .sub, .int => some (.sub, .int)
  | .mul, .int => some (.mul, .int)
  | .quo, .int => some (.div, .int)
  | .rem, .int => some (.mod, .int)
  | .eq, .bool => some (.eqBool, .bool)
  | .ne, .bool => some (.notEqBool, .bool)
  | .eq, .string => some (.eqString, .bool)
  | .ne, .string => some (.notEqString, .bool)
  | .add, .string => some (.concat, .string)
  | .lt, .string => some (.ltString, .bool)
  | .le, .string => some (.ltEqString, .bool)
  | .gt, .string => some (.gtString, .bool)
  | .ge, .string => some (.gtEqString, .bool)
  | _, _ => none

/-- The instruction of a binary operator between values of the given types. -/
def binaryInstr (pos : Position) (op : BinaryOp) (t t' : Ty) : Compiler (Instr × Ty) :=
  if t ≠ t' then typeFault pos (.mismatch t t')
  else
    match binaryOpcode? op t with
    | some (opcode, result) => return (.plain opcode, result)
    | none => typeFault pos (.operator op t)

/-- The code of an expression that has to have one value. -/
def single (x : Expr) (values : Compiler (Code × List Ty)) : Compiler (Code × Ty) := do
  match ← values with
  | (code, [t]) => return (code, t)
  | (_, []) => typeFault x.pos (.noValue x.text)
  | (_, _) => typeFault x.pos (.manyValues x.text)

/-- The code of an operand that has to have the type `want`. -/
def operand (x : Expr) (want : Ty) (op : String) (values : Compiler (Code × List Ty)) :
    Compiler Code := do
  let (code, t) ← single x values
  if t = want then return code else typeFault x.pos (.operand op x.text t)

/-- The code of a name. Parameters and locals hide the names of constants. -/
def identCode (ctx : Context) (pos : Position) (name : String) : Compiler (Code × Ty) := do
  match paramSlot? ctx name, ← localSlot? name with
  | some (i, t), _ => return ([.indexed .pushParam i], t)
  | none, some (i, t) => return ([.indexed .pushLocal i], t)
  | none, none =>
    match name with
    | "true" => return ([.plain .pushTrue], .bool)
    | "false" => return ([.plain .pushFalse], .bool)
    | "nil" => return ([.plain .pushNil], .nil)
    | _ => fail pos (.undefined name)

/-- Whether an expression is the constant `nil`. -/
def isNilConst (ctx : Context) : Expr → Compiler Bool
  | .ident _ "nil" => do return !(← isVar ctx "nil")
  | _ => return false

/-- The function that a call by a plain name means: this function, one of the package, or a native of
the package. -/
def plainCallee? (ctx : Context) (name : String) : Option (Instr × Signature) :=
  if name = ctx.name then some (.plain .callSelf, ctx.sig)
  else
    match ctx.registry.lookupFunc? ctx.package name with
    | some (id, f) => some (.numbered .call id, f.sig)
    | none =>
      (ctx.registry.lookupNative? ctx.package name).map fun (id, f) =>
        (.numbered .callNative id, f.sig)

/-- The function that a call by a qualified name means: a native, or a function of that package. -/
def qualifiedCallee? (ctx : Context) (qualifier name : String) : Option (Instr × Signature) :=
  match ctx.registry.lookupNative? qualifier name with
  | some (id, f) => some (.numbered .callNative id, f.sig)
  | none =>
    (ctx.registry.lookupFunc? qualifier name).map fun (id, f) => (.numbered .call id, f.sig)

/-- The method of a type. -/
def method? (ctx : Context) (type : Ty) (name : String) : Option (Instr × Signature) :=
  (ctx.registry.lookupNative? type.text name).map fun (id, f) => (.numbered .callNative id, f.sig)

/-- The code of a call, from that of its receiver and its arguments. -/
def callCode (pos : Position) (callee : String) (target : Instr × Signature) (count : Nat)
    (receiver : Code) (args : List Ty → Compiler Code) : Compiler (Code × List Ty) := do
  let (instr, sig) := target
  if sig.params.length ≠ count then
    typeFault pos (.argCount callee count sig.params.length)
  else
    let code ← args sig.params
    return (receiver ++ code ++ [instr], sig.results)

/-- The instruction that compares with `nil`. -/
def nilInstr (op : BinaryOp) : Instr :=
  .plain (if op = .eq then .isNil else .isNotNil)

mutual

/-- The code of an expression and the types of its values. -/
def exprCode (ctx : Context) : Expr → Compiler (Code × List Ty)
  | .ident pos name => do
    let (code, t) ← identCode ctx pos name
    return (code, [t])
  | .lit pos .int text =>
    match readInt? text with
    | some n => do return (← pushConst pos (.int n), [.int])
    | none => typeFault pos (.intLiteral text)
  | .lit pos .string text =>
    match unquote? text with
    | some s => do return (← pushConst pos (.str s), [.string])
    | none => typeFault pos (.stringLiteral text)
  | .paren _ x => do
    let (code, t) ← single x (exprCode ctx x)
    return (code, [t])
  | .unary _ .not x => do
    let code ← operand x .bool "!" (exprCode ctx x)
    return (code ++ [.plain .not], [.bool])
  | .unary _ .neg x => do
    let code ← operand x .int "-" (exprCode ctx x)
    return (code ++ [.plain .neg], [.int])
  | .binary pos op x y =>
    if op = .logicalAnd || op = .logicalOr then do
      let left ← operand x .bool op.text (exprCode ctx x)
      let right ← operand y .bool op.text (exprCode ctx y)
      let jump ← jumpBy pos (if op = .logicalAnd then .jumpFalse else .jumpTrue)
        (right.size + 4 : Nat)
      return (left ++ [.plain .dup, jump, .plain .pop] ++ right, [.bool])
    else do
      let leftNil ← isNilConst ctx x
      let rightNil ← isNilConst ctx y
      if (op = .eq || op = .ne) && (leftNil || rightNil) then
        let (code, t) ←
          if rightNil then single x (exprCode ctx x) else single y (exprCode ctx y)
        if !t.isNillable || t = .nil then typeFault pos (.mismatch t .nil)
        else return (code ++ [nilInstr op], [.bool])
      else
        let (left, t) ← single x (exprCode ctx x)
        let (right, t') ← single y (exprCode ctx y)
        let (instr, result) ← binaryInstr pos op t t'
        return (left ++ right ++ [instr], [result])
  | .call pos fn args spread =>
    if spread then fail pos (.unsupported .variadicCall)
    else
      match fn with
      | .ident fnPos name => do
        if name = "len" && !(← isVar ctx name) then
          callCode pos name (.plain .stringLen, ⟨[.string], [.int]⟩) args.length []
            fun types => argsCode ctx name types args
        else
          match plainCallee? ctx name with
          | some target =>
            callCode pos name target args.length [] fun types => argsCode ctx name types args
          | none => fail fnPos (.undefined name)
      | .selector fnPos x sel =>
        match sel.identName? with
        | none => fail pos (.unsupported .selector)
        | some name => do
          let package? ←
            match x with
            | .ident _ qualifier => do pure (if ← isVar ctx qualifier then none else some qualifier)
            | _ => pure none
          match package? with
          | some qualifier =>
            let callee := qualifier ++ "." ++ name
            match qualifiedCallee? ctx qualifier name with
            | some target =>
              callCode pos callee target args.length [] fun types => argsCode ctx callee types args
            | none => fail fnPos (.undefined callee)
          | none =>
            let (receiver, t) ← single x (exprCode ctx x)
            let callee := "(" ++ t.text ++ ")." ++ name
            match method? ctx t name with
            | some target =>
              callCode pos callee target args.length receiver
                fun types => argsCode ctx callee types args
            | none => fail fnPos (.undefined callee)
      | _ => fail pos (.unsupported .indirectCall)
  | .slice _ s low high none _ => do
    let code ← operand s .string "slice" (exprCode ctx s)
    let lowCode ← boundCode ctx low
    let highCode ← boundCode ctx high
    let instr := match low.isSome, high.isSome with
      | false, false => []
      | true, false => [Instr.plain .stringSliceFrom]
      | false, true => [Instr.plain .stringSliceTo]
      | true, true => [Instr.plain .stringSlice]
    return (code ++ lowCode ++ highCode ++ instr, [.string])
  | x => fail x.pos (.unsupported (exprConstruct x))
termination_by structural x => x

/-- The code of a bound of a slice, if it is given. -/
def boundCode (ctx : Context) : Option Expr → Compiler Code
  | none => return []
  | some x => operand x .int "slice" (exprCode ctx x)
termination_by structural x => x

/-- The code of the arguments of a call. -/
def argsCode (ctx : Context) (callee : String) : List Ty → List Expr → Compiler Code
  | target :: types, x :: xs => do
    let (code, t) ← single x (exprCode ctx x)
    checkAssignable x.pos t target (.argument callee)
    return code ++ (← argsCode ctx callee types xs)
  | _, _ => return []
termination_by structural _ xs => xs

end

/-- The code of an expression with one value, and its type. -/
def valueCode (ctx : Context) (x : Expr) : Compiler (Code × Ty) :=
  single x (exprCode ctx x)

end GoSift.Filter.Compiler
