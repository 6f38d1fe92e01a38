import GoSift.Filter.Package
import GoSift.Proofs.Text.ByteOrder

/-!
What filter functions mean. Declarations are run as they stand in the source, over a store of named
variables; no code is made. Calls of natives are answered by an oracle and kept in a trace. Every call
and every loop uses up fuel, and a run without fuel has no result, but still a trace.
-/
namespace GoSift.Filter

open Text (bytesOf)

/-- A computation that keeps the calls of natives, the last one first, and may run out of fuel. -/
abbrev Run := OptionT (StateM (List NativeCall))

/-- Functions that call each other, and the natives they can call. The oracle gives the results of a
native from its number and its arguments. -/
structure Program where
  natives : Table Native
  oracle : Nat → List Value → List Value
  package : String
  decls : List GoSift.Func

/-- The variables that a place in a function sees, with their types. -/
structure Vars where
  params : List (String × Ty)
  locals : List (String × Ty) := []

/-- The values of the variables. A local is `nil` until it is assigned. -/
structure Store where
  params : List (String × Value)
  locals : String → Value := fun _ => .nil

/-- How a statement ends. -/
inductive Flow where
  | next
  | break_
  | continue_
  | ret (v : Value)

/-- What is called: the builtin `len`, a declared function, or a native, as a method or not. -/
inductive Callee where
  | length
  | func (decl : GoSift.Func)
  | native (id : Nat) (f : Native) (method : Bool)

/-- The last of the parameters with a name. -/
def lastOf? {α : Type} (name : String) (params : List (String × α)) : Option α :=
  (params.reverse.find? (·.1 = name)).map Prod.snd

namespace Vars

/-- The type of a variable. A parameter hides a local. -/
def type? (vars : Vars) (name : String) : Option Ty :=
  (lastOf? name vars.params).or ((vars.locals.find? (·.1 = name)).map Prod.snd)

/-- The package that an expression names, which is a name that no variable has. -/
def package? (vars : Vars) : Expr → Option String
  | .ident _ name => if (vars.type? name).isSome then none else some name
  | _ => none

/-- The receiver in a call of a method. -/
def receiver? (vars : Vars) : Expr → Option Expr
  | .selector _ x _ => if (vars.package? x).isSome then none else some x
  | _ => none

/-- The variables behind `target := ..`. -/
def declare (vars : Vars) (target : Expr) (t : Ty) : Vars :=
  match target with
  | .ident _ name =>
    if name = "_" then vars else { vars with locals := vars.locals ++ [(name, t)] }
  | _ => vars

end Vars

namespace Store

def get (σ : Store) (name : String) : Value :=
  (lastOf? name σ.params).getD (σ.locals name)

def set (σ : Store) (name : String) (v : Value) : Store :=
  { σ with locals := fun other => if other = name then v else σ.locals other }

/-- Assigns to a local; `_` takes any value and keeps none. -/
def assign (σ : Store) (target : Expr) (v : Value) : Store :=
  match target with
  | .ident _ name => if name = "_" then σ else σ.set name v
  | _ => σ

end Store

/-- The signature of a declaration, and its parameters with their names. -/
def headOf (decl : GoSift.Func) : Signature × List (String × Ty) :=
  (signatureOf decl).toOption.getD ({}, [])

/-- The statements of a declaration. -/
def bodyOf (decl : GoSift.Func) : List Stmt :=
  (decl.body.bind Stmt.blockStmts?).getD []

def literalType : LitKind → Ty
  | .int => .int
  | .string => .string
  | _ => .nil

def literalValue (kind : LitKind) (text : String) : Value :=
  match kind with
  | .int => .int ((readInt? text).getD 0)
  | .string => .str ((unquote? text).getD "")
  | _ => .nil

/-- The type and the value of a constant that has a name. -/
def namedConstant? : String → Option (Ty × Value)
  | "true" => some (.bool, .bool true)
  | "false" => some (.bool, .bool false)
  | "nil" => some (.nil, .nil)
  | _ => none

/-- The type of the result of an operator on operands of type `t`. -/
def resultType (op : BinaryOp) (t : Ty) : Ty :=
  match op with
  | .add | .sub | .mul | .quo | .rem => t
  | _ => .bool

/-- Operators on numbers, which wrap around. A division by zero gives zero. -/
def intValue (op : BinaryOp) (x y : Int64) : Value :=
  match op with
  | .add => .int (x + y)
  | .sub => .int (x - y)
  | .mul => .int (x * y)
  | .quo => .int (if y = 0 then 0 else x / y)
  | .rem => .int (if y = 0 then 0 else x % y)
  | .eq => .bool (x = y)
  | .ne => .bool (x ≠ y)
  | .lt => .bool (x < y)
  | .le => .bool (x ≤ y)
  | .gt => .bool (y < x)
  | .ge => .bool (y ≤ x)
  | _ => .nil

def boolValue (op : BinaryOp) (x y : Bool) : Value :=
  match op with
  | .eq => .bool (x = y)
  | .ne => .bool (x ≠ y)
  | _ => .nil

/-- Operators on strings, which are ordered by their bytes. -/
def stringValue (op : BinaryOp) (x y : String) : Value :=
  match op with
  | .add => .str (x ++ y)
  | .eq => .bool (x = y)
  | .ne => .bool (x ≠ y)
  | .lt => .bool (bytesOf x < bytesOf y)
  | .le => .bool (bytesOf x ≤ bytesOf y)
  | .gt => .bool (bytesOf y < bytesOf x)
  | .ge => .bool (bytesOf y ≤ bytesOf x)
  | _ => .nil

/-- The comparison of a value with `nil`. -/
def nilValue (op : BinaryOp) (v : Value) : Value :=
  .bool (if op = .eq then v.isNil else !v.isNil)

/-- Whether the first operand of an operator decides, so that the second is left out. -/
def decides (op : BinaryOp) (v : Value) : Bool :=
  match op with
  | .logicalAnd => !v.asBool
  | .logicalOr => v.asBool
  | _ => false

/-- The value of an operator whose first operand does not decide. The types of the operands choose the
operation, and an operand of another kind reads as zero, as false or as the empty string. -/
def binaryValue (op : BinaryOp) (t t' : Ty) (v w : Value) : Value :=
  if op = .logicalAnd ∨ op = .logicalOr then w
  else if t' = .nil then nilValue op v
  else
    match t with
    | .nil => nilValue op w
    | .int => intValue op v.asInt w.asInt
    | .bool => boolValue op v.asBool w.asBool
    | .string => stringValue op v.asStr w.asStr
    | .error | .named _ => .nil

/-- The part of a string between two bounds. Without bounds it is the string itself. -/
def sliceValue (s : Value) : Option Value → Option Value → Value
  | none, none => s
  | low, high =>
    .str (sliceString s.asStr ((low.map (·.asInt.toInt)).getD 0)
      ((high.map (·.asInt.toInt)).getD s.asStr.utf8ByteSize))

/-- The first of some values; `nil` if there is none. -/
def valueOf (vs : List Value) : Value :=
  vs.headD .nil

def typeOf (ts : List Ty) : Ty :=
  ts.headD .nil

namespace Callee

/-- The types of the results. -/
def results : Callee → List Ty
  | length => [.int]
  | func decl => (headOf decl).1.results
  | native _ f _ => f.sig.results

def isMethod : Callee → Bool
  | native _ _ method => method
  | _ => false

/-- A native that is called by its name is no method, and one called on a value is. -/
def Fits : Callee → Prop
  | native _ f method => f.arity = f.sig.params.length + method.toNat
  | _ => True

end Callee

namespace Program

variable (P : Program)

def decl? (name : String) : Option GoSift.Func :=
  P.decls.find? (·.name = name)

def native? (qualifier name : String) (method : Bool) : Option Callee :=
  (P.natives.lookup? ⟨qualifier, name⟩).map fun (id, f) => .native id f method

/-- The function that a plain name means: `len` unless a variable has that name, a declared function,
or a native of the package. -/
def plain? (vars : Vars) (name : String) : Option Callee :=
  if name = "len" ∧ vars.type? name = none then some .length
  else ((P.decl? name).map .func).or (P.native? P.package name false)

/-- The function that a qualified name means: a native, or a declared function of the package. -/
def qualified? (qualifier name : String) : Option Callee :=
  (P.native? qualifier name false).or
    (if qualifier = P.package then (P.decl? name).map .func else none)

/-- What a call means, where `receiver` has the types of the part before the dot. -/
def callee? (vars : Vars) (receiver : List Ty) : Expr → Option Callee
  | .ident _ name => P.plain? vars name
  | .selector _ x sel => do
    let name ← sel.identName?
    match vars.package? x with
    | some qualifier => P.qualified? qualifier name
    | none => P.native? (typeOf receiver).text name true
  | _ => none

/-- The types of the values of an expression. -/
def types (vars : Vars) : Expr → List Ty
  | .ident _ name =>
    ((vars.type? name).or ((namedConstant? name).map Prod.fst)).toList
  | .lit _ kind _ => [literalType kind]
  | .paren _ x => types vars x
  | .unary _ op _ => if op = .not then [.bool] else [.int]
  | .binary _ op x _ => [resultType op (typeOf (types vars x))]
  | .call _ fn _ _ =>
    let receiver := match fn with
      | .selector _ x _ => types vars x
      | _ => []
    ((P.callee? vars receiver fn).map Callee.results).getD []
  | .slice .. => [.string]
  | _ => []
termination_by structural x => x

/-- What a call means. -/
def calleeOf? (vars : Vars) (fn : Expr) : Option Callee :=
  let receiver := match fn with
    | .selector _ x _ => P.types vars x
    | _ => []
  P.callee? vars receiver fn

variable {P} in
theorem types_call {vars : Vars} {pos : Position} {fn : Expr} {args : List Expr} {spread : Bool} :
    P.types vars (.call pos fn args spread) =
      ((P.calleeOf? vars fn).map Callee.results).getD [] := by
  cases fn <;> rfl

section

variable (call : GoSift.Func → List Value → Run Value)

/-- The results of a call. A call of a native is kept. -/
def apply (args : List Value) : Option Callee → Run (List Value)
  | some .length => return [.ofNat (valueOf args).asStr.utf8ByteSize]
  | some (.func decl) => do return [← call decl args]
  | some (.native id _ _) => do
    modify (⟨id, args⟩ :: ·)
    return P.oracle id args
  | none => return []

mutual

/-- The values of an expression. The second operand of `&&` and `||` is left out if the first decides;
the operand that decides is the value. -/
def eval (vars : Vars) (σ : Store) : Expr → Run (List Value)
  | .ident _ name =>
    match vars.type? name, namedConstant? name with
    | none, some (_, v) => return [v]
    | _, _ => return [σ.get name]
  | .lit _ kind text => return [literalValue kind text]
  | .paren _ x => eval vars σ x
  | .unary _ op x => do
    let v := valueOf (← eval vars σ x)
    return [if op = .not then .bool !v.asBool else .int (-v.asInt)]
  | .binary _ op x y => do
    let v := valueOf (← eval vars σ x)
    if decides op v then return [v]
    else
      let w := valueOf (← eval vars σ y)
      return [binaryValue op (typeOf (P.types vars x)) (typeOf (P.types vars y)) v w]
  | .call _ fn args _ => do
    let receiver ← match fn with
      | .selector _ x _ => if (vars.package? x).isSome then pure [] else eval vars σ x
      | _ => pure []
    let values ← evalArgs vars σ args
    P.apply call (receiver ++ values) (P.calleeOf? vars fn)
  | .slice _ x low high _ _ => do
    let s ← eval vars σ x
    let low ← evalBound vars σ low
    let high ← evalBound vars σ high
    return [sliceValue (valueOf s) low.head? high.head?]
  | _ => return []
termination_by structural x => x

/-- The value of a bound of a slice, if it is given. -/
def evalBound (vars : Vars) (σ : Store) : Option Expr → Run (List Value)
  | none => return []
  | some x => eval vars σ x
termination_by structural x => x

/-- The values of arguments, from left to right. -/
def evalArgs (vars : Vars) (σ : Store) : List Expr → Run (List Value)
  | [] => return []
  | x :: xs => do
    let v ← eval vars σ x
    return v ++ (← evalArgs vars σ xs)
termination_by structural xs => xs

end

variable {P call} in
theorem eval_call {vars : Vars} {σ : Store} {pos : Position} {fn : Expr} {args : List Expr}
    {spread : Bool} :
    P.eval call vars σ (.call pos fn args spread) = (do
      let receiver ← P.evalBound call vars σ (vars.receiver? fn)
      let values ← P.evalArgs call vars σ args
      P.apply call (receiver ++ values) (P.calleeOf? vars fn)) := by
  cases fn with
  | selector _ x _ =>
    rw [eval, Vars.receiver?]
    split <;> rfl
  | _ => rfl

/-- One round after the other, until the test fails, a round ends the loop, or there is no fuel. -/
def iterate (test : Store → Run Bool) (body post : Store → Run (Flow × Store)) :
    Nat → Store → Run (Flow × Store)
  | 0, _ => failure
  | fuel + 1, σ => do
    if ← test σ then
      match ← body σ with
      | (.break_, σ) => return (.next, σ)
      | (.ret v, σ) => return (.ret v, σ)
      | (.next, σ) | (.continue_, σ) =>
        match ← post σ with
        | (.next, σ) => iterate test body post fuel σ
        | out => return out
    else return (.next, σ)

/-- Goes on if nothing else is to be done first. -/
def andThen (first : Run (Flow × Store)) (rest : Store → Run (Flow × Store)) :
    Run (Flow × Store) := do
  match ← first with
  | (.next, σ) => rest σ
  | out => return out

mutual

/-- The variables behind a statement. A variable is seen by all that is written behind its declaration. -/
def declared (vars : Vars) : Stmt → Vars
  | .assign _ [target] .define [value] => vars.declare target (typeOf (P.types vars value))
  | .assign _ [first, second] .define [value] =>
    match P.types vars value with
    | [t, t'] => (vars.declare second t').declare first t
    | _ => vars
  | .block _ ss => declaredMany vars ss
  | .cond _ init _ body other => declaredOpt (declared (declaredOpt vars init) body) other
  | .loop _ init _ post body => declaredOpt (declared (declaredOpt vars init) body) post
  | _ => vars
termination_by structural s => s

def declaredOpt (vars : Vars) : Option Stmt → Vars
  | none => vars
  | some s => declared vars s
termination_by structural s => s

def declaredMany (vars : Vars) : List Stmt → Vars
  | [] => vars
  | s :: ss => declaredMany (declared vars s) ss
termination_by structural ss => ss

end

/-- Whether a test holds. A loop without a test goes on. -/
def evalTest (vars : Vars) (σ : Store) : Option Expr → Run Bool
  | none => return true
  | some x => do return (valueOf (← P.eval call vars σ x)).asBool

mutual

/-- Runs a statement. Of two results the second is assigned first. -/
def exec (fuel : Nat) (vars : Vars) : Stmt → Store → Run (Flow × Store)
  | .expr _ x, σ => do
    let _ ← P.eval call vars σ x
    return (.next, σ)
  | .ret _ [x], σ => do return (.ret (valueOf (← P.eval call vars σ x)), σ)
  | .assign _ [.ident _ name] (.update op) [value], σ => do
    let w := valueOf (← P.eval call vars σ value)
    let t := (vars.type? name).getD .nil
    return (.next, σ.set name (binaryValue op t t (σ.get name) w))
  | .assign _ [target] _ [value], σ => do
    return (.next, σ.assign target (valueOf (← P.eval call vars σ value)))
  | .assign _ [first, second] _ [value], σ => do
    match ← P.eval call vars σ value with
    | [v, w] => return (.next, (σ.assign second w).assign first v)
    | _ => return (.next, σ)
  | .incDec _ (.ident _ name) up, σ =>
    let n := (σ.get name).asInt
    return (.next, σ.set name (.int (if up then n + 1 else n - 1)))
  | .block _ ss, σ => execMany fuel vars ss σ
  | .cond _ init test body other, σ =>
    let vars' := P.declaredOpt vars init
    andThen (execOpt fuel vars init σ) fun σ => do
      if ← P.evalTest call vars' σ (some test) then exec fuel vars' body σ
      else execOpt fuel (P.declared vars' body) other σ
  | .loop _ init test post body, σ =>
    let vars' := P.declaredOpt vars init
    andThen (execOpt fuel vars init σ) fun σ =>
      iterate (P.evalTest call vars' · test) (exec fuel vars' body)
        (execOpt fuel (P.declared vars' body) post) fuel σ
  | .branch _ .break_ _, σ => return (.break_, σ)
  | .branch _ .continue_ _, σ => return (.continue_, σ)
  | _, σ => return (.next, σ)
termination_by structural s => s

def execOpt (fuel : Nat) (vars : Vars) : Option Stmt → Store → Run (Flow × Store)
  | none, σ => return (.next, σ)
  | some s, σ => exec fuel vars s σ
termination_by structural s => s

/-- Runs statements one after the other. -/
def execMany (fuel : Nat) (vars : Vars) : List Stmt → Store → Run (Flow × Store)
  | [], σ => return (.next, σ)
  | s :: ss, σ => andThen (exec fuel vars s σ) (execMany fuel (P.declared vars s) ss)
termination_by structural ss => ss

end

end

mutual

/-- What an expression calls. -/
def exprCallees (vars : Vars) : Expr → List Callee
  | .paren _ x | .unary _ _ x => exprCallees vars x
  | .binary _ _ x y => exprCallees vars x ++ exprCallees vars y
  | .call _ fn args _ =>
    let receiver := match fn with
      | .selector _ x _ => exprCallees vars x
      | _ => []
    receiver ++ argsCallees vars args ++ (P.calleeOf? vars fn).toList
  | .slice _ x low high _ _ =>
    exprCallees vars x ++ boundCallees vars low ++ boundCallees vars high
  | _ => []
termination_by structural x => x

def boundCallees (vars : Vars) : Option Expr → List Callee
  | none => []
  | some x => exprCallees vars x
termination_by structural x => x

def argsCallees (vars : Vars) : List Expr → List Callee
  | [] => []
  | x :: xs => exprCallees vars x ++ argsCallees vars xs
termination_by structural xs => xs

end

variable {P} in
theorem exprCallees_call {vars : Vars} {pos : Position} {fn : Expr} {args : List Expr}
    {spread : Bool} :
    P.exprCallees vars (.call pos fn args spread) = P.boundCallees vars (vars.receiver? fn)
      ++ P.argsCallees vars args ++ (P.calleeOf? vars fn).toList := by
  cases fn with
  | selector _ x _ =>
    rw [exprCallees, Vars.receiver?]
    unfold Vars.package?
    split
    · split <;> rfl
    · rfl
  | _ => rfl

mutual

/-- What a statement calls. -/
def stmtCallees (vars : Vars) : Stmt → List Callee
  | .expr _ x => P.exprCallees vars x
  | .ret _ xs => P.argsCallees vars xs
  | .assign _ _ _ xs => P.argsCallees vars xs
  | .block _ ss => manyCallees vars ss
  | .cond _ init test body other =>
    let vars' := P.declaredOpt vars init
    optCallees vars init ++ P.exprCallees vars' test ++ stmtCallees vars' body
      ++ optCallees (P.declared vars' body) other
  | .loop _ init test post body =>
    let vars' := P.declaredOpt vars init
    optCallees vars init ++ P.boundCallees vars' test ++ stmtCallees vars' body
      ++ optCallees (P.declared vars' body) post
  | _ => []
termination_by structural s => s

def optCallees (vars : Vars) : Option Stmt → List Callee
  | none => []
  | some s => stmtCallees vars s
termination_by structural s => s

def manyCallees (vars : Vars) : List Stmt → List Callee
  | [] => []
  | s :: ss => stmtCallees vars s ++ manyCallees (P.declared vars s) ss
termination_by structural ss => ss

end

/-- What a declaration calls. -/
def callees (decl : GoSift.Func) : List Callee :=
  P.manyCallees { params := (headOf decl).2 } (bodyOf decl)

/-- Calls a function. A loop in it has at most `fuel` rounds, and so deep are the calls in it. -/
def callFunc : Nat → GoSift.Func → List Value → Run Value
  | 0, _, _ => failure
  | fuel + 1, decl, args => do
    let params := (headOf decl).2
    let σ : Store := { params := (params.map Prod.fst).zip args }
    match ← P.execMany (callFunc fuel) fuel { params } (bodyOf decl) σ with
    | (.ret v, _) => return v
    | _ => return .nil

end Program

end GoSift.Filter
