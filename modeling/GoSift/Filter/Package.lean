import GoSift.Filter.StmtCode

/-! Compiling functions, and packages of functions that call each other. -/
namespace GoSift.Filter

mutual

/-- Whether a statement has a `break` that leaves the loop around it. -/
def hasBreak : Stmt → Bool
  | .branch _ .break_ none => true
  | .block _ stmts => anyBreak stmts
  | .cond _ _ _ body other => hasBreak body || hasBreakOpt other
  | .labeled _ _ s => hasBreak s
  | _ => false
termination_by structural s => s

def hasBreakOpt : Option Stmt → Bool
  | none => false
  | some s => hasBreak s
termination_by structural s => s

def anyBreak : List Stmt → Bool
  | [] => false
  | s :: ss => hasBreak s || anyBreak ss
termination_by structural ss => ss

end

mutual

/-- Whether control cannot go past a statement. -/
def isTerminating : Stmt → Bool
  | .ret .. => true
  | .block _ stmts => endsTerminating stmts
  | .cond _ _ _ body other => isTerminating body && isTerminatingOpt other
  | .loop _ _ none _ body => !hasBreak body
  | _ => false
termination_by structural s => s

/-- Whether there is a branch and control cannot go past it. -/
def isTerminatingOpt : Option Stmt → Bool
  | none => false
  | some s => isTerminating s
termination_by structural s => s

/-- Whether control cannot go past the last of some statements. -/
def endsTerminating : List Stmt → Bool
  | [] => false
  | [s] => isTerminating s
  | _ :: ss => endsTerminating ss
termination_by structural ss => ss

end

/-- The names and types of the parameters in a list of fields. Without a name it is `_`. -/
def paramTypes : List Field → Except FilterError (List (String × Ty))
  | [] => return []
  | .mk pos names type :: fields => do
    match Ty.ofExpr? type with
    | none => throw ⟨pos, .unsupportedType type.text⟩
    | some t =>
      let names := if names.isEmpty then ["_"] else names.map fun x => x.identName?.getD "_"
      return names.map (·, t) ++ (← paramTypes fields)

/-- The signature of a function, and its parameters with their names. There is exactly one result. -/
def signatureOf (decl : GoSift.Func) : Except FilterError (Signature × List (String × Ty)) := do
  if decl.recv.isSome then throw ⟨decl.pos, .unsupported .method⟩
  let params ← paramTypes decl.params
  match decl.results with
  | [.mk pos names type] =>
    if 1 < names.length then throw ⟨decl.pos, .resultCount⟩
    match Ty.ofExpr? type with
    | none => throw ⟨pos, .unsupportedType type.text⟩
    | some t => return (⟨params.map (·.2), [t]⟩, params)
  | _ => throw ⟨decl.pos, .resultCount⟩

/-- Compiles a function. -/
def compileFunc (registry : Registry) (package : String) (decl : GoSift.Func) :
    Except FilterError Func := do
  let (sig, params) ← signatureOf decl
  match decl.body.bind Stmt.blockStmts? with
  | none => throw ⟨decl.pos, .unsupported .noBody⟩
  | some body =>
    if 256 < params.length then throw ⟨decl.pos, .unsupported .manyParams⟩
    let ctx : Context := ⟨registry, package, decl.name, sig, params⟩
    let (code, scope) ← Compiler.stmtsCode ctx false body {}
    if !endsTerminating body then throw ⟨decl.pos, .missingReturn⟩
    return {
      name := decl.name
      code := code.bytes
      constants := scope.constants.toArray
      numParams := sig.params.length
      numLocals := scope.locals.length
      sig }

/-- A function that is known but has no code. -/
def Func.stub (name : String) (sig : Signature) : Func :=
  ⟨name, #[], #[], sig.params.length, 0, sig⟩

/-- Adds a function, or fails if there is no room. -/
def register (r : Registry) (package : String) (decl : GoSift.Func)
    (func : Except FilterError Func) : Registry × Except FilterError Nat :=
  match func with
  | .error e => (r, .error e)
  | .ok f =>
    match r.addFunc package f with
    | (r, some id) => (r, .ok id)
    | (r, none) => (r, .error ⟨decl.pos, .tooManyFuncs⟩)

/-- Adds functions one after the other. What is added before a failure stays. -/
def registerAll (package : String) (make : Registry → GoSift.Func → Except FilterError Func) :
    Registry → List GoSift.Func → Registry × Except FilterError (List Nat)
  | r, [] => (r, .ok [])
  | r, decl :: decls =>
    match register r package decl (make r decl) with
    | (r, .error e) => (r, .error e)
    | (r, .ok id) =>
      let (r, ids) := registerAll package make r decls
      (r, ids.map (id :: ·))

/-- Compiles the functions of a package. All of them are known by their signatures before any body is
compiled. -/
def compilePackage (r : Registry) (package : String) (decls : List GoSift.Func) :
    Registry × Except FilterError (List Nat) :=
  let stub (_ : Registry) (decl : GoSift.Func) : Except FilterError Func := do
    return .stub decl.name (← signatureOf decl).1
  match registerAll package stub r decls with
  | (r, .error e) => (r, .error e)
  | (r, .ok _) => registerAll package (fun r => compileFunc r package) r decls

end GoSift.Filter
