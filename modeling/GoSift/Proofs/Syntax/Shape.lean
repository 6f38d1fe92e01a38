import GoSift.Proofs.Syntax.Leading

/-!
The shapes of parsed trees. The types of trees allow more than the grammar: a loop whose body is no
block, a clause outside a switch, an element of a composite literal in the place of an operand. Which
trees the parser can give is said by rules, one for each form.
-/
namespace GoSift

/-- Whether an expression is an identifier or a wildcard. -/
def Expr.isName : Expr → Bool
  | ident .. | wildcard .. => true
  | _ => false

def Stmt.isBlock : Stmt → Bool
  | block .. => true
  | _ => false

/-- No field of a list has a name, or each has one. -/
def Field.EvenlyNamed (fs : List Field) : Prop :=
  (∀ f ∈ fs, f.names = []) ∨ ∀ f ∈ fs, f.names ≠ []

mutual

/-- Expressions and types that stand by themselves. No key with its value is one, no literal without a
type, and no `...`. -/
inductive Expr.Shaped (w : Bool) : Expr → Prop
  | ident {pos name} : Expr.Shaped w (.ident pos name)
  | wildcard {pos name any} : Expr.Shaped w (.wildcard pos name any)
  | lit {pos kind text} : Expr.Shaped w (.lit pos kind text)
  | composite {pos type elts} (hliteral : type.isLiteralType) (htype : Expr.Shaped w type)
      (helts : ∀ x ∈ elts, Expr.ShapedElement w x) : Expr.Shaped w (.composite pos (some type) elts)
  | funcLit {pos params results body} (hparams : Field.ShapedParams w params)
      (hresults : Field.ShapedParams w results) (hblock : body.isBlock) (hbody : Stmt.Shaped w body) :
      Expr.Shaped w (.funcLit pos params results body)
  | paren {pos x} (hx : Expr.Shaped w x) : Expr.Shaped w (.paren pos x)
  | selector {pos x sel} (hx : Expr.Shaped w x) (hsel : sel.isName) :
      Expr.Shaped w (.selector pos x sel)
  | index {pos x i} (hx : Expr.Shaped w x) (hi : Expr.Shaped w i) : Expr.Shaped w (.index pos x i)
  | slice {pos x low high max full} (hx : Expr.Shaped w x) (hlow : ∀ y ∈ low, Expr.Shaped w y)
      (hhigh : ∀ y ∈ high, Expr.Shaped w y) (hmax : ∀ y ∈ max, Expr.Shaped w y)
      (hfull : full = true ↔ max.isSome) (hbound : max.isSome → high.isSome) :
      Expr.Shaped w (.slice pos x low high max full)
  | typeAssert {pos x type} (hx : Expr.Shaped w x) (htype : ∀ t ∈ type, Expr.Shaped w t) :
      Expr.Shaped w (.typeAssert pos x type)
  | call {pos fn args spread} (hfn : Expr.Shaped w fn) (hargs : ∀ x ∈ args, Expr.Shaped w x) :
      Expr.Shaped w (.call pos fn args spread)
  | star {pos x} (hx : Expr.Shaped w x) : Expr.Shaped w (.star pos x)
  | unary {pos op x} (hx : Expr.Shaped w x) : Expr.Shaped w (.unary pos op x)
  | binary {pos op x y} (hx : Expr.Shaped w x) (hy : Expr.Shaped w y) :
      Expr.Shaped w (.binary pos op x y)
  | sliceType {pos elem} (helem : Expr.Shaped w elem) : Expr.Shaped w (.arrayType pos none elem)
  | arrayType {pos len elem} (hlen : Expr.Shaped w len) (helem : Expr.Shaped w elem) :
      Expr.Shaped w (.arrayType pos (some len) elem)
  | openArrayType {pos dots elem} (helem : Expr.Shaped w elem) :
      Expr.Shaped w (.arrayType pos (some (.ellipsis dots none)) elem)
  | mapType {pos key value} (hkey : Expr.Shaped w key) (hvalue : Expr.Shaped w value) :
      Expr.Shaped w (.mapType pos key value)
  | chanType {pos dir value} (hvalue : Expr.Shaped w value) : Expr.Shaped w (.chanType pos dir value)
  | funcType {pos params results} (hparams : Field.ShapedParams w params)
      (hresults : Field.ShapedParams w results) : Expr.Shaped w (.funcType pos params results)
  | structType {pos fields} (hfields : ∀ f ∈ fields, Field.Shaped w f) :
      Expr.Shaped w (.structType pos fields)
  | interfaceType {pos methods} (hmethods : ∀ f ∈ methods, Field.Shaped w f) :
      Expr.Shaped w (.interfaceType pos methods)

/-- Elements of composite literals. -/
inductive Expr.ShapedElement (w : Bool) : Expr → Prop
  | value {x} (hx : Expr.ShapedValue w x) : Expr.ShapedElement w x
  | keyValue {pos key value} (hkey : Expr.ShapedValue w key) (hvalue : Expr.ShapedValue w value) :
      Expr.ShapedElement w (.keyValue pos key value)

/-- Keys and values in composite literals. An inner literal may leave out its type. -/
inductive Expr.ShapedValue (w : Bool) : Expr → Prop
  | expr {x} (hx : Expr.Shaped w x) : Expr.ShapedValue w x
  | elided {pos elts} (helts : ∀ x ∈ elts, Expr.ShapedElement w x) :
      Expr.ShapedValue w (.composite pos none elts)

/-- Types of parameters. -/
inductive Expr.ShapedParam (w : Bool) : Expr → Prop
  | type {x} (hx : Expr.Shaped w x) : Expr.ShapedParam w x
  | variadic {pos x} (hx : Expr.Shaped w x) : Expr.ShapedParam w (.ellipsis pos (some x))

/-- Fields of structs and methods of interfaces. -/
inductive Field.Shaped (w : Bool) : Field → Prop
  | mk {pos names type} (hnames : ∀ x ∈ names, Expr.Shaped w x) (htype : Expr.Shaped w type) :
      Field.Shaped w (.mk pos names type)

/-- Lists of parameters or results. -/
inductive Field.ShapedParams (w : Bool) : List Field → Prop
  | mk {fs} (heven : Field.EvenlyNamed fs) (hnames : ∀ f ∈ fs, ∀ x ∈ f.names, x.isName)
      (htypes : ∀ f ∈ fs, Expr.ShapedParam w f.type) : Field.ShapedParams w fs

/-- Statements that stand by themselves. No clause of a switch is one. -/
inductive Stmt.Shaped (w : Bool) : Stmt → Prop
  | expr {pos x} (hx : Expr.Shaped w x) : Stmt.Shaped w (.expr pos x)
  | send {pos chan value} (hchan : Expr.Shaped w chan) (hvalue : Expr.Shaped w value) :
      Stmt.Shaped w (.send pos chan value)
  | incDec {pos x up} (hx : Expr.Shaped w x) : Stmt.Shaped w (.incDec pos x up)
  | assign {pos lhs op rhs} (hlne : lhs ≠ []) (hrne : rhs ≠ []) (hlhs : ∀ x ∈ lhs, Expr.Shaped w x)
      (hrhs : ∀ x ∈ rhs, Expr.Shaped w x) : Stmt.Shaped w (.assign pos lhs op rhs)
  | var {pos names type values} (hne : names ≠ []) (hnames : ∀ x ∈ names, x.isName)
      (htype : ∀ t ∈ type, Expr.Shaped w t) (hvalues : ∀ x ∈ values, Expr.Shaped w x) :
      Stmt.Shaped w (.var pos names type values)
  | go {pos call} (hcall : Expr.Shaped w call) : Stmt.Shaped w (.go pos call)
  | defer {pos call} (hcall : Expr.Shaped w call) : Stmt.Shaped w (.defer pos call)
  | ret {pos results} (hresults : ∀ x ∈ results, Expr.Shaped w x) : Stmt.Shaped w (.ret pos results)
  | branch {pos kind label} : Stmt.Shaped w (.branch pos kind label)
  | labeled {pos label s} (hs : Stmt.Shaped w s) : Stmt.Shaped w (.labeled pos label s)
  | block {pos ss} (hss : ∀ s ∈ ss, Stmt.Shaped w s) : Stmt.Shaped w (.block pos ss)
  | cond {pos init test body other} (hinit : ∀ s ∈ init, Stmt.Shaped w s) (htest : Expr.Shaped w test)
      (hblock : body.isBlock) (hbody : Stmt.Shaped w body)
      (helse : ∀ s ∈ other, s.isBlock ∨ s.isCond) (hother : ∀ s ∈ other, Stmt.Shaped w s) :
      Stmt.Shaped w (.cond pos init test body other)
  | switch {pos init tag bodyPos ss} (hinit : ∀ s ∈ init, Stmt.Shaped w s)
      (htag : ∀ x ∈ tag, Expr.Shaped w x) (hguard : ∀ x ∈ tag, ∀ p y, x ≠ .typeAssert p y none)
      (hss : ∀ s ∈ ss, Stmt.ShapedClause w s) : Stmt.Shaped w (.switch pos init tag (.block bodyPos ss))
  | typeSwitch {pos init guard bodyPos ss} (hinit : ∀ s ∈ init, Stmt.Shaped w s)
      (hform : guard.isTypeSwitchGuard) (hguard : Stmt.Shaped w guard)
      (hss : ∀ s ∈ ss, Stmt.ShapedClause w s) :
      Stmt.Shaped w (.typeSwitch pos init guard (.block bodyPos ss))
  | loop {pos init test post body} (hinit : ∀ s ∈ init, Stmt.Shaped w s)
      (htest : ∀ x ∈ test, Expr.Shaped w x) (hpost : ∀ s ∈ post, Stmt.Shaped w s)
      (hblock : body.isBlock) (hbody : Stmt.Shaped w body) :
      Stmt.Shaped w (.loop pos init test post body)
  | range {pos key value define x body} (hkey : ∀ y ∈ key, Expr.Shaped w y)
      (hvalue : ∀ y ∈ value, Expr.Shaped w y) (hx : Expr.Shaped w x)
      (hvars : value.isSome → key.isSome) (hdefine : key.isNone → define = false)
      (hblock : body.isBlock) (hbody : Stmt.Shaped w body) :
      Stmt.Shaped w (.range pos key value define x body)
  | empty {pos} : Stmt.Shaped w (.empty pos)

/-- What stands in a switch: clauses, and where wildcards are allowed, statements that begin with
one. -/
inductive Stmt.ShapedClause (w : Bool) : Stmt → Prop
  | clause {pos list body} (hne : ∀ xs ∈ list, xs ≠ []) (hlist : ∀ xs ∈ list, ∀ x ∈ xs, Expr.Shaped w x)
      (hbody : ∀ s ∈ body, Stmt.Shaped w s) : Stmt.ShapedClause w (.clause pos list body)
  | wildcard {s} (hw : w = true) (hstart : s.startsWithWildcard) (hs : Stmt.Shaped w s) :
      Stmt.ShapedClause w s

end

/-- Functions. -/
structure Func.Shaped (w : Bool) (f : Func) : Prop where
  recv : ∀ r ∈ f.recv, Field.ShapedParams w [r]
  params : Field.ShapedParams w f.params
  results : Field.ShapedParams w f.results
  block : ∀ s ∈ f.body, s.isBlock
  body : ∀ s ∈ f.body, s.Shaped w

theorem Expr.Shaped.of_isName {w : Bool} {x : Expr} (h : x.isName) : x.Shaped w := by
  cases x with
  | ident => exact .ident
  | wildcard => exact .wildcard
  | _ => cases h

/-- Tokens among which there are wildcards only if they are allowed. -/
def Token.Kind.Allowed (wildcards : Bool) : Kind → Prop
  | .wildcard _ _ => wildcards = true
  | _ => True

theorem Token.Kind.allowed_true (kind : Kind) : kind.Allowed true := by
  cases kind <;> first | rfl | trivial

end GoSift
