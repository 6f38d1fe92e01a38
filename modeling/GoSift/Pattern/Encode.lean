import GoSift.Pattern.Program
import GoSift.Pattern.Error

/-!
From syntax trees with wildcards to instructions. The texts met so far are the state; a text that is
already known keeps its index. The limits are checked from the outside in: the nesting before a node,
the length of a list before its elements, and a new text before the arguments of its instruction.
-/
namespace GoSift.Pattern

/-- At most so many different texts. -/
def maxStrings : Nat := 255

/-- At most so many elements in one list. -/
def maxElements : Nat := 255

/-- At most so many expressions and statements inside one another. -/
def maxNesting : Nat := 64

/-- Emits instructions while it collects texts. -/
abbrev Encoder := StateT (List String) (Except PatternError)

/-- The index of a text. -/
def intern (s : String) : Encoder Nat := fun strings =>
  match strings.idxOf? s with
  | some i => .ok (i, strings)
  | none =>
    if strings.length < maxStrings then .ok (strings.length, strings ++ [s])
    else .error (.limit .strings)

/-- An instruction with a text. -/
def withText (op : Op) (s : String) (value : Nat := 0) : Encoder (List Inst) := do
  let index ← intern s
  return [⟨op, value, index⟩]

/-- A wildcard; `_` is anonymous. -/
def encodeWildcard (name : String) (slot : Slot) : Encoder (List Inst) :=
  if name = "_" then return [⟨.wildcard slot false, 0, 0⟩]
  else withText (.wildcard slot true) name

/-- The code of a list, unless the list is too long. -/
def limited {α : Type} (xs : List α) (limit : PatternLimit) (code : Encoder (List Inst)) :
    Encoder (List Inst) :=
  if maxElements < xs.length then throw (.limit limit) else code

/-- The wildcard for a run, if the expression is one. -/
def runName? (x : Expr) : Option String :=
  match x with
  | .wildcard _ name true => some name
  | _ => none

/-- The wildcard for a run, if the statement is one. -/
def stmtRunName? (s : Stmt) : Option String :=
  match s with
  | .expr _ x => runName? x
  | _ => none

/-- Whether a call pattern asks for `...`. A wildcard for a run at the end leaves it open. -/
def callSpread (args : List Expr) (spread : Bool) : Option Bool :=
  if spread then some true
  else if (args.getLast?.bind runName?).isSome then none
  else some false

def Inst.plain (op : Op) : Inst :=
  ⟨op, 0, 0⟩

def Inst.coded (op : Op) (value : Nat) : Inst :=
  ⟨op, value, 0⟩

/-- The closing instruction of a run. -/
def Inst.closing : Inst :=
  .plain .close

/-- The code of a list of fields, from that of its elements. -/
def fieldListOf (fields : List Field) (elements : Encoder (List Inst)) : Encoder (List Inst) :=
  limited fields .fields do return .plain .fieldList :: (← elements)

/-- The code of a signature, from that of its two lists. -/
def signatureOf (results : List Field) (params' results' : Encoder (List Inst)) :
    Encoder (List Inst) := do
  let ps ← params'
  if results.isEmpty then
    return .plain (.funcType false) :: ps
  else
    return .plain (.funcType true) :: ps ++ (← results')

/-- Whether each side of an assignment is one expression that cannot stand for a run. -/
def isSingleAssign : List Expr → List Expr → Bool
  | [x], [y] => (runName? x).isNone && (runName? y).isNone
  | _, _ => false

mutual

/-- The code of an expression that has `depth` nodes around it. -/
def encodeExpr (depth : Nat) (x : Expr) : Encoder (List Inst) :=
  if maxNesting ≤ depth then throw (.limit .nesting)
  else
    match x with
    | .wildcard _ name _ => encodeWildcard name .single
    | .ident _ name => withText .ident name
    | .lit _ kind text => withText (.lit kind) text
    | .composite _ none elts => do
      let elts ← limited elts .expressions (encodeExprs (depth + 1) elts)
      return .plain (.composite false) :: elts
    | .composite _ (some type) elts => do
      let type ← encodeExpr (depth + 1) type
      let elts ← limited elts .expressions (encodeExprs (depth + 1) elts)
      return .plain (.composite true) :: type ++ elts
    | .funcLit _ params results body => do
      let sig ← signatureOf results (fieldListOf params (encodeFields (depth + 1) params))
        (fieldListOf results (encodeFields (depth + 1) results))
      return .plain .funcLit :: sig ++ (← encodeStmt (depth + 1) body)
    | .paren _ x => return .plain .paren :: (← encodeExpr (depth + 1) x)
    | .selector _ x sel =>
      match sel.identName?, sel.wildcard? with
      | some name, _ => do
        let head ← withText .fixedSelector name
        return head ++ (← encodeExpr (depth + 1) x)
      | none, some (_, true) => throw (.unsupported (.point sel.pos) .variadicSelector)
      | none, _ => do
        let x ← encodeExpr (depth + 1) x
        return .plain .selector :: x ++ (← encodeExpr (depth + 1) sel)
    | .index _ x i => do
      let x ← encodeExpr (depth + 1) x
      return .plain .index :: x ++ (← encodeExpr (depth + 1) i)
    | .slice pos x low high max _ =>
      if max.isSome && high.isNone then throw (.unsupported (.point pos) .sliceBounds)
      else do
        let head := Inst.plain (.slice low.isSome high.isSome max.isSome)
        let x ← encodeExpr (depth + 1) x
        let low ← encodeExprOpt (depth + 1) low
        let high ← encodeExprOpt (depth + 1) high
        let max ← encodeExprOpt (depth + 1) max
        return head :: x ++ low ++ high ++ max
    | .typeAssert _ x type => do
      let head := Inst.plain (.typeAssert type.isSome)
      let x ← encodeExpr (depth + 1) x
      return head :: x ++ (← encodeExprOpt (depth + 1) type)
    | .call _ fn args spread => do
      let head := Inst.plain (.call (callSpread args spread))
      let fn ← encodeExpr (depth + 1) fn
      return head :: fn ++ (← limited args .expressions (encodeExprs (depth + 1) args))
    | .star _ x => return .plain .star :: (← encodeExpr (depth + 1) x)
    | .unary _ op x => return .coded .unary op.code :: (← encodeExpr (depth + 1) x)
    | .binary _ op x y => do
      let x ← encodeExpr (depth + 1) x
      return .coded .binary op.code :: x ++ (← encodeExpr (depth + 1) y)
    | .keyValue _ key value => do
      let key ← encodeExpr (depth + 1) key
      return .plain .keyValue :: key ++ (← encodeExpr (depth + 1) value)
    | .arrayType _ len elem => do
      let head := Inst.plain (.arrayType len.isSome)
      let len ← encodeExprOpt (depth + 1) len
      return head :: len ++ (← encodeExpr (depth + 1) elem)
    | .ellipsis _ elem => do
      let head := Inst.plain (.ellipsis elem.isSome)
      return head :: (← encodeExprOpt (depth + 1) elem)
    | .mapType _ key value => do
      let key ← encodeExpr (depth + 1) key
      return .plain .mapType :: key ++ (← encodeExpr (depth + 1) value)
    | .chanType _ dir value =>
      return .coded .chanType dir.code :: (← encodeExpr (depth + 1) value)
    | .funcType _ params results =>
      signatureOf results (fieldListOf params (encodeFields (depth + 1) params))
        (fieldListOf results (encodeFields (depth + 1) results))
    | .structType _ fields =>
      return .plain .structType :: (← fieldListOf fields (encodeFields (depth + 1) fields))
    | .interfaceType _ fields =>
      return .plain .interfaceType :: (← fieldListOf fields (encodeFields (depth + 1) fields))
termination_by structural x

/-- The code of a part that the operation in front announces, if there is one. -/
def encodeExprOpt (depth : Nat) : Option Expr → Encoder (List Inst)
  | none => return []
  | some x => encodeExpr depth x
termination_by structural x => x

/-- The code of a part that may be absent in a match. -/
def encodeExprSlot (depth : Nat) : Option Expr → Encoder (List Inst)
  | none => return []
  | some x =>
    match runName? x with
    | some name => encodeWildcard name .opt
    | none => encodeExpr depth x
termination_by structural x => x

/-- The code of the elements of a list, with the closing instruction. -/
def encodeExprs (depth : Nat) : List Expr → Encoder (List Inst)
  | [] => return [.closing]
  | x :: xs => do
    let head ←
      match runName? x with
      | some name => encodeWildcard name .seq
      | none => encodeExpr depth x
    return head ++ (← encodeExprs depth xs)
termination_by structural xs => xs

/-- The expressions of a clause, if it has them. -/
def encodeExprsOpt (depth : Nat) : Option (List Expr) → Encoder (List Inst)
  | none => return []
  | some xs => limited xs .expressions (encodeExprs depth xs)
termination_by structural xs => xs

def encodeField (depth : Nat) : Field → Encoder (List Inst)
  | .mk _ names type =>
    match names, type.wildcard? with
    | [], some (name, any) => encodeWildcard name (if any then .seq else .single)
    | [], none => return .plain .unnamedField :: (← encodeExpr depth type)
    | [name], _ =>
      match name.identName? with
      | some ident => do
        let head ← withText .fixedField ident
        return head ++ (← encodeExpr depth type)
      | none => do
        let name ← encodeExpr depth name
        return .plain .field :: name ++ (← encodeExpr depth type)
    | names, _ => do
      let names ← limited names .expressions (encodeExprs depth names)
      return .plain .multiField :: names ++ (← encodeExpr depth type)
termination_by structural f => f

def encodeFields (depth : Nat) : List Field → Encoder (List Inst)
  | [] => return [.closing]
  | f :: fs => do
    let head ← encodeField depth f
    return head ++ (← encodeFields depth fs)
termination_by structural fs => fs

/-- The code of a statement that has `depth` nodes around it. -/
def encodeStmt (depth : Nat) (s : Stmt) : Encoder (List Inst) :=
  if maxNesting ≤ depth then throw (.limit .nesting)
  else
    match s with
    | .expr _ x =>
      match x.wildcard? with
      | some (name, _) => encodeWildcard name .single
      | none => return .plain .exprStmt :: (← encodeExpr (depth + 1) x)
    | .send _ chan value => do
      let chan ← encodeExpr (depth + 1) chan
      return .plain .send :: chan ++ (← encodeExpr (depth + 1) value)
    | .incDec _ x up => return .coded .incDec (stepCode up) :: (← encodeExpr (depth + 1) x)
    | .assign _ lhs op rhs =>
      if isSingleAssign lhs rhs then do
        let l ← encodeOnly (depth + 1) lhs
        return .coded .assign op.code :: l ++ (← encodeOnly (depth + 1) rhs)
      else do
        let l ← limited lhs .expressions (encodeExprs (depth + 1) lhs)
        let r ← limited rhs .expressions (encodeExprs (depth + 1) rhs)
        return .coded .multiAssign op.code :: l ++ r
    | .var _ names type values => do
      let head := Inst.plain (.var type.isSome)
      let names ← limited names .expressions (encodeExprs (depth + 1) names)
      let type ← encodeExprOpt (depth + 1) type
      let values ← limited values .expressions (encodeExprs (depth + 1) values)
      return head :: names ++ type ++ values
    | .go _ x => return .plain .go :: (← encodeExpr (depth + 1) x)
    | .defer _ x => return .plain .defer :: (← encodeExpr (depth + 1) x)
    | .ret _ results =>
      return .plain .ret :: (← limited results .expressions (encodeExprs (depth + 1) results))
    | .branch _ kind none => return [.coded (.branch false) kind.code]
    | .branch _ kind (some label) => withText (.branch true) label kind.code
    | .labeled _ label stmt => do
      let head ← withText .labeled label
      return head ++ (← encodeStmt (depth + 1) stmt)
    | .block _ stmts =>
      return .plain .block :: (← limited stmts .statements (encodeStmts (depth + 1) stmts))
    | .cond _ init test body other => do
      let head := Inst.plain (.cond init.isSome other.isSome)
      let init ← encodeStmtSlot (depth + 1) init
      let test ← encodeExpr (depth + 1) test
      let body ← encodeStmt (depth + 1) body
      let other ← encodeStmtOpt (depth + 1) other
      return head :: init ++ test ++ body ++ other
    | .switch _ init tag body => do
      let head := Inst.plain (.switch init.isSome tag.isSome)
      let init ← encodeStmtSlot (depth + 1) init
      let tag ← encodeExprSlot (depth + 1) tag
      return head :: init ++ tag ++ (← encodeStmt (depth + 1) body)
    | .typeSwitch _ init guard body => do
      let head := Inst.plain (.typeSwitch init.isSome)
      let init ← encodeStmtSlot (depth + 1) init
      let guard ← encodeStmt (depth + 1) guard
      return head :: init ++ guard ++ (← encodeStmt (depth + 1) body)
    | .clause _ list body => do
      let head := Inst.plain (if list.isSome then .clause else .defaultClause)
      let list ← encodeExprsOpt (depth + 1) list
      return head :: list ++ (← limited body .statements (encodeStmts (depth + 1) body))
    | .loop _ init test post body => do
      let head := Inst.plain (.loop init.isSome test.isSome post.isSome)
      let init ← encodeStmtSlot (depth + 1) init
      let test ← encodeExprSlot (depth + 1) test
      let post ← encodeStmtSlot (depth + 1) post
      return head :: init ++ test ++ post ++ (← encodeStmt (depth + 1) body)
    | .range _ none _ _ x body => do
      let x ← encodeExpr (depth + 1) x
      return .plain .rangeAll :: x ++ (← encodeStmt (depth + 1) body)
    | .range _ (some key) value define x body => do
      let head := Inst.coded (if value.isSome then .rangeKeyValue else .rangeKey) (defineCode define)
      let key ← encodeExpr (depth + 1) key
      let value ← encodeExprOpt (depth + 1) value
      let x ← encodeExpr (depth + 1) x
      return head :: key ++ value ++ x ++ (← encodeStmt (depth + 1) body)
    | .empty _ => return [.plain .empty]
termination_by structural s

def encodeStmtOpt (depth : Nat) : Option Stmt → Encoder (List Inst)
  | none => return []
  | some s => encodeStmt depth s
termination_by structural s => s

def encodeStmtSlot (depth : Nat) : Option Stmt → Encoder (List Inst)
  | none => return []
  | some s =>
    match stmtRunName? s with
    | some name => encodeWildcard name .opt
    | none => encodeStmt depth s
termination_by structural s => s

def encodeStmts (depth : Nat) : List Stmt → Encoder (List Inst)
  | [] => return [.closing]
  | s :: ss => do
    let head ←
      match stmtRunName? s with
      | some name => encodeWildcard name .seq
      | none => encodeStmt depth s
    return head ++ (← encodeStmts depth ss)
termination_by structural ss => ss

/-- The code of the expressions without a closing instruction. -/
def encodeOnly (depth : Nat) : List Expr → Encoder (List Inst)
  | [] => return []
  | x :: xs => do
    let head ← encodeExpr depth x
    return head ++ (← encodeOnly depth xs)
termination_by structural xs => xs

end

/-- The pattern with the code that `code` emits. -/
def ofEncoder (code : Encoder (List Inst)) : Except PatternError Pattern := do
  let (insts, strings) ← code []
  return ⟨insts, strings⟩

/-- The pattern for one expression, or for several in a row. -/
def ofExprs (xs : List Expr) : Except PatternError Pattern :=
  ofEncoder <|
    match xs with
    | [x] => encodeExpr 0 x
    | xs => do return .plain .exprList :: (← limited xs .expressions (encodeExprs 0 xs))

/-- The pattern for one statement, or for several in a row. -/
def ofStmts (ss : List Stmt) : Except PatternError Pattern :=
  match ss with
  | [] => .error .empty
  | [s] => ofEncoder (encodeStmt 0 s)
  | ss => ofEncoder do return .plain .stmtList :: (← limited ss .statements (encodeStmts 0 ss))

end GoSift.Pattern
