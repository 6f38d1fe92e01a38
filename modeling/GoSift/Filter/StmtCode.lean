import GoSift.Filter.ExprCode
import GoSift.Filter.Machine

/-! The code of statements. It leaves the stack as it was. -/
namespace GoSift.Filter.Compiler

/-- What an unsupported statement is called. -/
def stmtConstruct : Stmt → Construct
  | .switch .. => .switchStmt
  | .typeSwitch .. => .typeSwitchStmt
  | .clause .. => .clause
  | .go .. => .goStmt
  | .defer .. => .deferStmt
  | .send .. => .sendStmt
  | .var .. => .varDecl
  | .labeled .. => .labeledStmt
  | .range .. => .rangeStmt
  | .branch _ _ (some _) => .labeledBranch
  | .branch _ .goto _ => .gotoStmt
  | .branch _ .fallthrough _ => .fallthroughStmt
  | _ => .stmt

/-- The local that an assignment changes. -/
def assignTarget (ctx : Context) : Expr → Compiler (Nat × Ty)
  | .ident pos name => do
    if (paramSlot? ctx name).isSome then fail pos (.assignToParam name)
    else
      match ← localSlot? name with
      | some slot => return slot
      | none => fail pos (.undefined name)
  | x => fail x.pos (.unsupported .assignTarget)

/-- A new local. -/
def declare (ctx : Context) (pos : Position) (name : String) (t : Ty) : Compiler Code := do
  if ← isVar ctx name then fail pos (.shadowing name)
  else
    let scope ← get
    let slot := scope.locals.length
    if slot < maxLocals then
      set { scope with locals := scope.locals ++ [(name, t)] }
      return [.indexed .setLocal slot]
    else
      fail pos .tooManyLocals

/-- Takes a value of type `t` off the stack into a variable, a new one if `define` is set. -/
def store (ctx : Context) (target : Expr) (t : Ty) (define : Bool) : Compiler Code := do
  match target with
  | .ident pos name =>
    if name = "_" then return [.plain .pop]
    else if define then declare ctx pos name t
    else
      let (slot, t') ← assignTarget ctx target
      checkAssignable pos t t' .assignment
      return [.indexed .setLocal slot]
  | x => fail x.pos (.unsupported .assignTarget)

/-- `x = y` or `x := y`. -/
def assignOne (ctx : Context) (target value : Expr) (define : Bool) : Compiler Code := do
  let (code, t) ← valueCode ctx value
  if t = .nil && define then typeFault value.pos .untypedNil
  else return code ++ (← store ctx target t define)

/-- `x, y = f()` or `x, y := f()`. The second value is on top of the stack. -/
def assignTwo (ctx : Context) (pos : Position) (first second call : Expr) (define : Bool) :
    Compiler Code := do
  match ← exprCode ctx call with
  | (code, [t, t']) =>
    let storeSecond ← store ctx second t' define
    return code ++ storeSecond ++ (← store ctx first t define)
  | (_, types) => typeFault pos (.assignCount call.text types.length)

/-- `x op= y`. -/
def assignUpdate (ctx : Context) (pos : Position) (target : Expr) (op : BinaryOp) (value : Expr) :
    Compiler Code := do
  let (slot, t) ← assignTarget ctx target
  let (code, t') ← valueCode ctx value
  let (instr, result) ← binaryInstr pos op t t'
  checkAssignable pos result t .assignment
  return [.indexed .pushLocal slot] ++ code ++ [instr, .indexed .setLocal slot]

def assignCode (ctx : Context) (pos : Position) (lhs : List Expr) (op : AssignOp)
    (rhs : List Expr) : Compiler Code :=
  match op, lhs, rhs with
  | .update op, [target], [value] => assignUpdate ctx pos target op value
  | .assign, [target], [value] => assignOne ctx target value false
  | .define, [target], [value] => assignOne ctx target value true
  | .assign, [first, second], [.call p f args spread] =>
    assignTwo ctx pos first second (.call p f args spread) false
  | .define, [first, second], [.call p f args spread] =>
    assignTwo ctx pos first second (.call p f args spread) true
  | _, _, _ => fail pos (.unsupported .multiAssign)

/-- A call for its effects. Its results are dropped. -/
def exprStmtCode (ctx : Context) : Expr → Compiler Code
  | .call pos f args spread => do
    let (code, types) ← exprCode ctx (.call pos f args spread)
    return code ++ types.map fun _ => .plain .pop
  | x => typeFault x.pos (.unused x.text)

/-- The instruction that returns a constant of type `bool`, if the expression is one. -/
def boolReturn? (ctx : Context) : Expr → Compiler (Option Instr)
  | .ident _ name => do
    if ctx.sig.results.head? ≠ some .bool || (← isVar ctx name) then return none
    else
      match name with
      | "true" => return some (.plain .returnTrue)
      | "false" => return some (.plain .returnFalse)
      | _ => return none
  | _ => return none

def returnCode (ctx : Context) (x : Expr) : Compiler Code := do
  match ← boolReturn? ctx x with
  | some instr => return [instr]
  | none =>
    let (code, t) ← valueCode ctx x
    checkAssignable x.pos t (ctx.sig.results.headD .nil) .result
    return code ++ [.plain .returnTop]

/-- `x++` or `x--`. -/
def stepCode (ctx : Context) (x : Expr) (up : Bool) : Compiler Code := do
  let (slot, t) ← assignTarget ctx x
  if t = .int then return [.indexed (if up then .incLocal else .decLocal) slot]
  else typeFault x.pos (.step x.text up t)

/-- The code of a condition. -/
def testCode (ctx : Context) (x : Expr) (loop : Bool) : Compiler Code := do
  let (code, t) ← valueCode ctx x
  if t = .bool then return code else typeFault x.pos (.condition loop)

/-- The code of the test of a loop. -/
def loopTestCode (ctx : Context) : Option Expr → Compiler (Option Code)
  | none => return none
  | some x => some <$> testCode ctx x true

/-- A loop from its parts. Open jumps that repeat are closed already. -/
def loopCode (pos : Position) (test : Option Code) (body post : Code) : Compiler Code := do
  let front : Code ←
    match test with
    | none => pure []
    | some test => do
      let exit ← jumpBy pos .jumpFalse (body.size + post.size + 6 : Nat)
      pure (test ++ [exit])
  let back ← jumpBy pos .jump (-(front.size + body.size + post.size : Nat))
  let body ← close pos .leave (post.size + 3) body
  return front ++ body ++ post ++ [back]

mutual

/-- The code of a statement. Inside a loop it may have open jumps. -/
def stmtCode (ctx : Context) (inLoop : Bool) : Stmt → Compiler Code
  | .expr _ x => exprStmtCode ctx x
  | .ret pos [] => fail pos .nakedReturn
  | .ret _ [x] => returnCode ctx x
  | .ret pos _ => fail pos .resultCount
  | .assign pos lhs op rhs => assignCode ctx pos lhs op rhs
  | .incDec _ x up => stepCode ctx x up
  | .block _ stmts => stmtsCode ctx inLoop stmts
  | .cond pos init test body other => do
    let init ← stmtOptCode ctx inLoop init
    let test ← testCode ctx test false
    let body ← stmtCode ctx inLoop body
    match other with
    | none =>
      let jump ← jumpBy pos .jumpFalse (body.size + 3 : Nat)
      return init ++ test ++ [jump] ++ body
    | some other =>
      let jump ← jumpBy pos .jumpFalse (body.size + 6 : Nat)
      let other ← stmtCode ctx inLoop other
      let skip ← jumpBy pos .jump (other.size + 3 : Nat)
      return init ++ test ++ [jump] ++ body ++ [skip] ++ other
  | .loop pos init test post body => do
    let init ← stmtOptCode ctx inLoop init
    let test ← loopTestCode ctx test
    let body ← stmtCode ctx true body
    let body ← close pos .repeat_ 0 body
    let post ← stmtOptCode ctx inLoop post
    return init ++ (← loopCode pos test body post)
  | .branch pos .break_ none => if inLoop then return [.leave] else typeFault pos (.strayBranch .break_)
  | .branch pos .continue_ none =>
    if inLoop then return [.repeat_] else typeFault pos (.strayBranch .continue_)
  | .empty _ => return []
  | s => fail s.pos (.unsupported (stmtConstruct s))
termination_by structural s => s

def stmtOptCode (ctx : Context) (inLoop : Bool) : Option Stmt → Compiler Code
  | none => return []
  | some s => stmtCode ctx inLoop s
termination_by structural s => s

def stmtsCode (ctx : Context) (inLoop : Bool) : List Stmt → Compiler Code
  | [] => return []
  | s :: ss => do
    let code ← stmtCode ctx inLoop s
    return code ++ (← stmtsCode ctx inLoop ss)
termination_by structural ss => ss

end

end GoSift.Filter.Compiler
