import GoSift.Syntax.Basic

/-! Syntax trees as text, on one line. -/
namespace GoSift

/-- Texts with a separator between them. -/
def joinWith (sep : String) (texts : List String) : String :=
  sep.intercalate texts

/-- A parameter or result list with its brackets; one unnamed result needs none. -/
def signatureText (params results : List String) (bareResult : Bool) : String :=
  let front := "(" ++ joinWith ", " params ++ ")"
  match results with
  | [] => front
  | [result] => if bareResult then front ++ " " ++ result else front ++ " (" ++ result ++ ")"
  | results => front ++ " (" ++ joinWith ", " results ++ ")"

/-- Whether the results are one unnamed result. -/
def bareResult : List Field → Bool
  | [.mk _ [] _] => true
  | _ => false

def bracedText (texts : List String) (sep : String) : String :=
  "\x7b" ++ joinWith sep texts ++ "\x7d"

mutual

def Expr.text : Expr → String
  | .ident _ name => name
  | .wildcard _ name any => Token.Kind.wildcardText name any
  | .lit _ _ text => text
  | .composite _ type elts => Expr.optText type ++ bracedText (Expr.texts elts) ", "
  | .funcLit _ params results body =>
    "func" ++ signatureText (Field.texts params) (Field.texts results) (bareResult results) ++ " "
      ++ body.text
  | .paren _ x => "(" ++ x.text ++ ")"
  | .selector _ x sel => x.text ++ "." ++ sel.text
  | .index _ x i => x.text ++ "[" ++ i.text ++ "]"
  | .slice _ x low high max full =>
    x.text ++ "[" ++ Expr.optText low ++ ":" ++ Expr.optText high
      ++ (if full then ":" ++ Expr.optText max else "") ++ "]"
  | .typeAssert _ x (some type) => x.text ++ ".(" ++ type.text ++ ")"
  | .typeAssert _ x none => x.text ++ ".(type)"
  | .call _ fn args spread =>
    fn.text ++ "(" ++ joinWith ", " (Expr.texts args) ++ (if spread then "..." else "") ++ ")"
  | .star _ x => "*" ++ x.text
  | .unary _ op x => op.text ++ x.text
  | .binary _ op x y => x.text ++ " " ++ op.text ++ " " ++ y.text
  | .keyValue _ key value => key.text ++ ": " ++ value.text
  | .arrayType _ len elem => "[" ++ Expr.optText len ++ "]" ++ elem.text
  | .ellipsis _ elem => "..." ++ Expr.optText elem
  | .mapType _ key value => "map[" ++ key.text ++ "]" ++ value.text
  | .chanType _ .both value => "chan " ++ value.text
  | .chanType _ .send value => "chan<- " ++ value.text
  | .chanType _ .recv value => "<-chan " ++ value.text
  | .funcType _ params results =>
    "func" ++ signatureText (Field.texts params) (Field.texts results) (bareResult results)
  | .structType _ fields => "struct" ++ bracedText (Field.texts fields) "; "
  | .interfaceType _ methods => "interface" ++ bracedText (Field.methodTexts methods) "; "
termination_by structural x => x

def Expr.optText : Option Expr → String
  | none => ""
  | some x => x.text
termination_by structural x => x

def Expr.texts : List Expr → List String
  | [] => []
  | x :: xs => x.text :: Expr.texts xs
termination_by structural xs => xs

def Field.text : Field → String
  | .mk _ names type =>
    match Expr.texts names with
    | [] => type.text
    | names => joinWith ", " names ++ " " ++ type.text
termination_by structural x => x

def Field.texts : List Field → List String
  | [] => []
  | f :: fs => f.text :: Field.texts fs
termination_by structural fs => fs

/-- Methods of an interface leave out the word `func`. -/
def Field.methodTexts : List Field → List String
  | [] => []
  | .mk _ [name] (.funcType _ params results) :: fs =>
    (name.text
      ++ signatureText (Field.texts params) (Field.texts results) (bareResult results))
      :: Field.methodTexts fs
  | f :: fs => f.text :: Field.methodTexts fs
termination_by structural fs => fs

def Stmt.text : Stmt → String
  | .expr _ x => x.text
  | .send _ chan value => chan.text ++ " <- " ++ value.text
  | .incDec _ x up => x.text ++ stepText up
  | .assign _ lhs op rhs =>
    joinWith ", " (Expr.texts lhs) ++ " " ++ op.text ++ " " ++ joinWith ", " (Expr.texts rhs)
  | .var _ names type values =>
    "var " ++ joinWith ", " (Expr.texts names)
      ++ (match type with
        | none => ""
        | some type => " " ++ type.text)
      ++ (match Expr.texts values with
        | [] => ""
        | values => " = " ++ joinWith ", " values)
  | .go _ call => "go " ++ call.text
  | .defer _ call => "defer " ++ call.text
  | .ret _ results =>
    match Expr.texts results with
    | [] => "return"
    | results => "return " ++ joinWith ", " results
  | .branch _ kind none => kind.text
  | .branch _ kind (some label) => kind.text ++ " " ++ label
  | .labeled _ label stmt => label ++ ": " ++ stmt.text
  | .block _ stmts =>
    match Stmt.texts stmts with
    | [] => "\x7b\x7d"
    | stmts => "\x7b " ++ joinWith "; " stmts ++ " \x7d"
  | .cond _ init test body other =>
    "if " ++ Stmt.headText init ++ test.text ++ " " ++ body.text
      ++ (match other with
        | none => ""
        | some other => " else " ++ other.text)
  | .switch _ init tag body =>
    "switch " ++ Stmt.headText init
      ++ (match tag with
        | none => ""
        | some tag => tag.text ++ " ")
      ++ body.text
  | .typeSwitch _ init guard body =>
    "switch " ++ Stmt.headText init ++ guard.text ++ " " ++ body.text
  | .clause _ list body =>
    (match list with
      | none => "default:"
      | some list => "case " ++ joinWith ", " (Expr.texts list) ++ ":")
      ++ (match Stmt.texts body with
        | [] => ""
        | body => " " ++ joinWith "; " body)
  | .loop _ none none none body => "for " ++ body.text
  | .loop _ none (some test) none body => "for " ++ test.text ++ " " ++ body.text
  | .loop _ init test post body =>
    "for " ++ Stmt.optText init ++ "; " ++ Expr.optText test ++ "; "
      ++ (match post with
        | none => ""
        | some post => post.text ++ " ")
      ++ body.text
  | .range _ key value define x body =>
    "for "
      ++ (match key with
        | none => ""
        | some key =>
          key.text
            ++ (match value with
              | none => ""
              | some value => ", " ++ value.text)
            ++ " " ++ defineText define ++ " ")
      ++ "range " ++ x.text ++ " " ++ body.text
  | .empty _ => ""
termination_by structural x => x

def Stmt.optText : Option Stmt → String
  | none => ""
  | some s => s.text
termination_by structural x => x

/-- A statement in front of a header's condition. -/
def Stmt.headText : Option Stmt → String
  | none => ""
  | some s => s.text ++ "; "
termination_by structural x => x

def Stmt.texts : List Stmt → List String
  | [] => []
  | s :: ss => s.text :: Stmt.texts ss
termination_by structural ss => ss

end

def Func.text (f : Func) : String :=
  "func "
    ++ (match f.recv with
      | none => ""
      | some recv => "(" ++ recv.text ++ ") ")
    ++ f.name
    ++ signatureText (Field.texts f.params) (Field.texts f.results) (bareResult f.results)
    ++ (match f.body with
      | none => ""
      | some body => " " ++ body.text)

end GoSift
