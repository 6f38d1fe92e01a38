import GoSift.Source.Position

/-! Tokens of Go source text, and the wildcards that patterns add to them. -/
namespace GoSift

/-- The kinds of literals. -/
inductive LitKind where
  | int
  | float
  | imag
  | char
  | string
deriving DecidableEq, Repr

def LitKind.text : LitKind → String
  | .int => "int"
  | .float => "float"
  | .imag => "imag"
  | .char => "char"
  | .string => "string"

inductive Keyword where
  | break_
  | case_
  | chan
  | const
  | continue_
  | default_
  | defer
  | else_
  | fallthrough
  | for_
  | func
  | go
  | goto
  | if_
  | import_
  | interface
  | map
  | package
  | range
  | return_
  | select
  | struct
  | switch
  | type
  | var
deriving DecidableEq, Repr

namespace Keyword

def spelling : Keyword → String
  | break_ => "break"
  | case_ => "case"
  | chan => "chan"
  | const => "const"
  | continue_ => "continue"
  | default_ => "default"
  | defer => "defer"
  | else_ => "else"
  | fallthrough => "fallthrough"
  | for_ => "for"
  | func => "func"
  | go => "go"
  | goto => "goto"
  | if_ => "if"
  | import_ => "import"
  | interface => "interface"
  | map => "map"
  | package => "package"
  | range => "range"
  | return_ => "return"
  | select => "select"
  | struct => "struct"
  | switch => "switch"
  | type => "type"
  | var => "var"

def all : List Keyword :=
  [break_, case_, chan, const, continue_, default_, defer, else_, fallthrough, for_, func, go, goto,
    if_, import_, interface, map, package, range, return_, select, struct, switch, type, var]

def ofSpelling? (word : String) : Option Keyword :=
  all.find? (·.spelling == word)

def name (k : Keyword) : String :=
  k.spelling.capitalize

end Keyword

/-- Operators and delimiters. -/
inductive Symbol where
  | shlAssign
  | shrAssign
  | andNotAssign
  | ellipsis
  | andAnd
  | orOr
  | arrow
  | inc
  | dec
  | eqEq
  | neEq
  | lte
  | gte
  | define
  | plusAssign
  | minusAssign
  | starAssign
  | slashAssign
  | percentAssign
  | ampAssign
  | pipeAssign
  | caretAssign
  | shl
  | shr
  | andNot
  | plus
  | minus
  | star
  | slash
  | percent
  | amp
  | pipe
  | caret
  | lt
  | gt
  | assign
  | not
  | lParen
  | rParen
  | lBracket
  | rBracket
  | lBrace
  | rBrace
  | comma
  | dot
  | semiColon
  | colon
deriving DecidableEq, Repr

namespace Symbol

/-- Name and spelling of a symbol. -/
def entry : Symbol → String × String
  | shlAssign => ("ShlAssign", "<<=")
  | shrAssign => ("ShrAssign", ">>=")
  | andNotAssign => ("AndNotAssign", "&^=")
  | ellipsis => ("Ellipsis", "...")
  | andAnd => ("AndAnd", "&&")
  | orOr => ("OrOr", "||")
  | arrow => ("Arrow", "<-")
  | inc => ("Inc", "++")
  | dec => ("Dec", "--")
  | eqEq => ("EqEq", "==")
  | neEq => ("NeEq", "!=")
  | lte => ("Lte", "<=")
  | gte => ("Gte", ">=")
  | define => ("Define", ":=")
  | plusAssign => ("PlusAssign", "+=")
  | minusAssign => ("MinusAssign", "-=")
  | starAssign => ("StarAssign", "*=")
  | slashAssign => ("SlashAssign", "/=")
  | percentAssign => ("PercentAssign", "%=")
  | ampAssign => ("AmpAssign", "&=")
  | pipeAssign => ("PipeAssign", "|=")
  | caretAssign => ("CaretAssign", "^=")
  | shl => ("Shl", "<<")
  | shr => ("Shr", ">>")
  | andNot => ("AndNot", "&^")
  | plus => ("Plus", "+")
  | minus => ("Minus", "-")
  | star => ("Star", "*")
  | slash => ("Slash", "/")
  | percent => ("Percent", "%")
  | amp => ("Amp", "&")
  | pipe => ("Pipe", "|")
  | caret => ("Caret", "^")
  | lt => ("Lt", "<")
  | gt => ("Gt", ">")
  | assign => ("Assign", "=")
  | not => ("Not", "!")
  | lParen => ("LParen", "(")
  | rParen => ("RParen", ")")
  | lBracket => ("LBracket", "[")
  | rBracket => ("RBracket", "]")
  | lBrace => ("LBrace", "\x7b")
  | rBrace => ("RBrace", "\x7d")
  | comma => ("Comma", ",")
  | dot => ("Dot", ".")
  | semiColon => ("SemiColon", ";")
  | colon => ("Colon", ":")

def name (s : Symbol) : String := s.entry.1

def spelling (s : Symbol) : String := s.entry.2

/-- All symbols, longer spellings first, so that the first one that fits is the longest. -/
def all : List Symbol :=
  [shlAssign, shrAssign, andNotAssign, ellipsis,
    andAnd, orOr, arrow, inc, dec, eqEq, neEq, lte, gte, define, plusAssign, minusAssign,
    starAssign, slashAssign, percentAssign, ampAssign, pipeAssign, caretAssign, shl, shr, andNot,
    plus, minus, star, slash, percent, amp, pipe, caret, lt, gt, assign, not, lParen, rParen,
    lBracket, rBracket, lBrace, rBrace, comma, dot, semiColon, colon]

end Symbol

namespace Token

/-- What a token is, without its place. Literals keep their source text. A wildcard stands for one
node, or with `any` for any run of nodes. -/
inductive Kind where
  | ident (name : String)
  | literal (kind : LitKind) (text : String)
  | wildcard (name : String) (any : Bool)
  | keyword (word : Keyword)
  | symbol (sym : Symbol)
  | newLine
  | eof
deriving DecidableEq, Repr

namespace Kind

def name : Kind → String
  | ident _ => "Ident"
  | literal .int _ => "IntLiteral"
  | literal .float _ => "FloatLiteral"
  | literal .imag _ => "ImagLiteral"
  | literal .char _ => "CharLiteral"
  | literal .string _ => "StringLiteral"
  | wildcard _ _ => "Wildcard"
  | keyword word => word.name
  | symbol sym => sym.name
  | newLine => "NewLine"
  | eof => "Eof"

/-- The written form of a wildcard. -/
def wildcardText (name : String) (any : Bool) : String :=
  if any then "$*" ++ name else "$" ++ name

/-- The written form of a token. -/
def text : Kind → String
  | ident name => name
  | literal _ text => text
  | wildcard name any => wildcardText name any
  | keyword word => word.spelling
  | symbol sym => sym.spelling
  | newLine => "\n"
  | eof => "EOF"

/-- Whether a line end behind this token ends the statement. -/
def endsStatement : Kind → Bool
  | ident _ | literal _ _ | wildcard _ _ => true
  | keyword word => (word matches .break_ | .continue_ | .fallthrough | .return_)
  | symbol sym => (sym matches .inc | .dec | .rParen | .rBracket | .rBrace)
  | newLine | eof => false

end Kind

end Token

/-- A token and the part of the source it was read from. -/
structure Token where
  kind : Token.Kind
  range : Range
deriving DecidableEq, Repr

namespace Token

def start (t : Token) : Position := t.range.start

def text (t : Token) : String := t.kind.text

end Token

end GoSift
