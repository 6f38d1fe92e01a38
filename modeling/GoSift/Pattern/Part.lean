import GoSift.Pattern.Program
import GoSift.Syntax.Node

/-!
How a node is taken apart by an operation: whether it has the shape the operation asks for, and which
parts of it the arguments of the operation are matched against.
-/
namespace GoSift.Pattern

/-- What an argument is matched against: a node, the elements of a list, or a part that the node does
not have, for which a name is bound to an empty list. -/
inductive Part where
  | one (node : Node)
  | run (list : Node)
  | absent (empty : Node)

namespace Part

def expr (x : Expr) : Part := one (.expr x)

def stmt (s : Stmt) : Part := one (.stmt s)

def fields (fs : List Field) : Part := one (.fields fs)

def exprs (xs : List Expr) : Part := run (.exprs xs)

def stmts (ss : List Stmt) : Part := run (.stmts ss)

/-- An expression that may be missing. -/
def exprSlot : Option Expr → Part
  | some x => expr x
  | none => absent (.exprs [])

/-- A statement that may be missing. -/
def stmtSlot : Option Stmt → Part
  | some s => stmt s
  | none => absent (.stmts [])

end Part

/-- The parts if the condition holds. -/
def partsIf (condition : Bool) (parts : List Part) : Option (List Part) :=
  if condition then some parts else none

/-- A part that the operation has an argument for. -/
def spelled (present : Bool) (part : Part) : List Part :=
  if present then [part] else []

/-- The parts of an expression for an operation with an operator and a text. -/
def exprParts? (op : Op) (value : Nat) (text : String) : Expr → Option (List Part)
  | .ident _ name => partsIf (op = .ident && name = text) []
  | .wildcard .. => none
  | .lit _ kind s => partsIf (op = .lit kind && s = text) []
  | .composite _ none elts => partsIf (op = .composite false) [.exprs elts]
  | .composite _ (some type) elts => partsIf (op = .composite true) [.expr type, .exprs elts]
  | .funcLit pos params results body =>
    partsIf (op = .funcLit) [.expr (.funcType pos params results), .stmt body]
  | .paren _ x => partsIf (op = .paren) [.expr x]
  | .selector _ x sel =>
    match op with
    | .fixedSelector => partsIf (sel.identName? = some text) [.expr x]
    | .selector => some [.expr x, .expr sel]
    | _ => none
  | .index _ x i => partsIf (op = .index) [.expr x, .expr i]
  | .slice _ x low high max full =>
    partsIf (op = .slice low.isSome high.isSome max.isSome && full = max.isSome)
      (.expr x :: ([low, high, max].filterMap id).map .expr)
  | .typeAssert _ x none => partsIf (op = .typeAssert false) [.expr x]
  | .typeAssert _ x (some type) => partsIf (op = .typeAssert true) [.expr x, .expr type]
  | .call _ fn args spread =>
    partsIf (op = .call none || op = .call (some spread)) [.expr fn, .exprs args]
  | .star _ x => partsIf (op = .star) [.expr x]
  | .unary _ o x => partsIf (op = .unary && value = o.code) [.expr x]
  | .binary _ o x y => partsIf (op = .binary && value = o.code) [.expr x, .expr y]
  | .keyValue _ key v => partsIf (op = .keyValue) [.expr key, .expr v]
  | .arrayType _ none elem => partsIf (op = .arrayType false) [.expr elem]
  | .arrayType _ (some len) elem => partsIf (op = .arrayType true) [.expr len, .expr elem]
  | .ellipsis _ none => partsIf (op = .ellipsis false) []
  | .ellipsis _ (some elem) => partsIf (op = .ellipsis true) [.expr elem]
  | .mapType _ key v => partsIf (op = .mapType) [.expr key, .expr v]
  | .chanType _ dir v => partsIf (op = .chanType && value = dir.code) [.expr v]
  | .funcType _ params [] => partsIf (op = .funcType false) [.fields params]
  | .funcType _ params results => partsIf (op = .funcType true) [.fields params, .fields results]
  | .structType _ fields => partsIf (op = .structType) [.fields fields]
  | .interfaceType _ methods => partsIf (op = .interfaceType) [.fields methods]

def fieldParts? (op : Op) (text : String) : Field → Option (List Part)
  | .mk _ [] type => partsIf (op = .unnamedField) [.expr type]
  | .mk _ (name :: names) type =>
    match op with
    | .fixedField => partsIf (names.isEmpty && name.identName? = some text) [.expr type]
    | .field => partsIf names.isEmpty [.expr name, .expr type]
    | .multiField => some [.exprs (name :: names), .expr type]
    | _ => none

/-- The parts of a statement. Of an optional part the operation says whether the pattern spells it
out; where it does not, the part has to be missing. -/
def stmtParts? (op : Op) (value : Nat) (text : String) : Stmt → Option (List Part)
  | .expr _ x => partsIf (op = .exprStmt) [.expr x]
  | .send _ chan v => partsIf (op = .send) [.expr chan, .expr v]
  | .incDec _ x up => partsIf (op = .incDec && value = stepCode up) [.expr x]
  | .assign _ lhs o rhs =>
    match op, lhs, rhs with
    | .assign, [l], [r] => partsIf (value = o.code) [.expr l, .expr r]
    | .multiAssign, _, _ => partsIf (value = o.code) [.exprs lhs, .exprs rhs]
    | _, _, _ => none
  | .var _ names none values => partsIf (op = .var false) [.exprs names, .exprs values]
  | .var _ names (some type) values =>
    partsIf (op = .var true) [.exprs names, .expr type, .exprs values]
  | .go _ x => partsIf (op = .go) [.expr x]
  | .defer _ x => partsIf (op = .defer) [.expr x]
  | .ret _ results => partsIf (op = .ret) [.exprs results]
  | .branch _ kind none => partsIf (op = .branch false && value = kind.code) []
  | .branch _ kind (some label) =>
    partsIf (op = .branch true && value = kind.code && label = text) []
  | .labeled _ label s => partsIf (op = .labeled && label = text) [.stmt s]
  | .block _ stmts => partsIf (op = .block) [.stmts stmts]
  | .cond _ init test body other =>
    match op with
    | .cond wantInit wantOther =>
      partsIf ((wantInit || init.isNone) && wantOther = other.isSome)
        (spelled wantInit (.stmtSlot init) ++ [.expr test, .stmt body] ++ other.toList.map .stmt)
    | _ => none
  | .switch _ init tag body =>
    match op with
    | .switch wantInit wantTag =>
      partsIf ((wantInit || init.isNone) && (wantTag || tag.isNone))
        (spelled wantInit (.stmtSlot init) ++ spelled wantTag (.exprSlot tag) ++ [.stmt body])
    | _ => none
  | .typeSwitch _ init guard body =>
    match op with
    | .typeSwitch wantInit =>
      partsIf (wantInit || init.isNone)
        (spelled wantInit (.stmtSlot init) ++ [.stmt guard, .stmt body])
    | _ => none
  | .clause _ none body => partsIf (op = .defaultClause) [.stmts body]
  | .clause _ (some list) body => partsIf (op = .clause) [.exprs list, .stmts body]
  | .loop _ init test post body =>
    match op with
    | .loop wantInit wantTest wantPost =>
      partsIf
        ((wantInit || init.isNone) && (wantTest || test.isNone) && (wantPost || post.isNone))
        (spelled wantInit (.stmtSlot init) ++ spelled wantTest (.exprSlot test)
          ++ spelled wantPost (.stmtSlot post) ++ [.stmt body])
    | _ => none
  | .range _ none _ _ x body => partsIf (op = .rangeAll) [.expr x, .stmt body]
  | .range _ (some key) none define x body =>
    partsIf (op = .rangeKey && value = defineCode define) [.expr key, .expr x, .stmt body]
  | .range _ (some key) (some v) define x body =>
    partsIf (op = .rangeKeyValue && value = defineCode define)
      [.expr key, .expr v, .expr x, .stmt body]
  | .empty _ => partsIf (op = .empty) []

/-- The parts of a node for an operation with an operator and a text, if it has the right shape. -/
def parts? (op : Op) (value : Nat) (text : String) : Node → Option (List Part)
  | .expr x => exprParts? op value text x
  | .stmt s => stmtParts? op value text s
  | .field f => fieldParts? op text f
  | .fields fs => partsIf (op = .fieldList) [.run (.fields fs)]
  | .exprs _ | .stmts _ => none

end GoSift.Pattern
