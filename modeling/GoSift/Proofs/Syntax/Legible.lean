import GoSift.Proofs.Syntax.Grouping
import GoSift.Proofs.Token.Scans
import GoSift.Syntax.Printer

/-!
Trees whose printed text can be read back: names are names, brackets stand where precedence asks for
them, and no two tokens of the text run into one another. The text of such a tree is read as the tokens
the tree is made of.
-/
namespace GoSift

open Token

namespace UnaryOp

/-- The symbol an operator is written with. -/
def symbol : UnaryOp → Symbol
  | plus => .plus
  | neg => .minus
  | not => .not
  | xor => .caret
  | addr => .amp
  | recv => .arrow

theorem text_eq_spelling (op : UnaryOp) : op.text = op.symbol.spelling := by
  cases op <;> rfl

theorem ofSymbol?_symbol (op : UnaryOp) : ofSymbol? op.symbol = some op := by
  cases op <;> rfl

/-- Whether an operator and a character behind it are read as another symbol. -/
def fusesWith : UnaryOp → Char → Bool
  | plus, c => c == '+'
  | neg, c => c == '-'
  | addr, c => c == '&' || c == '^'
  | _, _ => false

theorem not_mem_extenders {op : UnaryOp} {d : Char} (hfuse : op.fusesWith d = false)
    (hassign : d ≠ '=') : d ∉ op.symbol.extenders := by
  have hplus : Symbol.plus.extenders = ['+', '='] := by decide
  have hminus : Symbol.minus.extenders = ['-', '='] := by decide
  have hnot : Symbol.not.extenders = ['='] := by decide
  have hcaret : Symbol.caret.extenders = ['='] := by decide
  have hamp : Symbol.amp.extenders = ['^', '&', '=', '^'] := by decide
  have harrow : Symbol.arrow.extenders = [] := by decide
  cases op <;> simp_all [fusesWith, symbol]

end UnaryOp

namespace BinaryOp

/-- The symbol an operator is written with. -/
def symbol : BinaryOp → Symbol
  | add => .plus
  | sub => .minus
  | mul => .star
  | quo => .slash
  | rem => .percent
  | and => .amp
  | or => .pipe
  | xor => .caret
  | shl => .shl
  | shr => .shr
  | andNot => .andNot
  | logicalAnd => .andAnd
  | logicalOr => .orOr
  | eq => .eqEq
  | ne => .neEq
  | lt => .lt
  | gt => .gt
  | le => .lte
  | ge => .gte

theorem text_eq_spelling (op : BinaryOp) : op.text = op.symbol.spelling := by
  cases op <;> rfl

theorem ofSymbol?_symbol (op : BinaryOp) : ofSymbol? op.symbol = some op := by
  cases op <;> rfl

theorem space_not_mem_extenders (op : BinaryOp) : ' ' ∉ op.symbol.extenders := by
  cases op <;> decide

theorem not_blank_of_spelling (op : BinaryOp) (rest : List Char) :
    ∃ d ∈ (op.symbol.spelling.toList ++ rest).head?, Scanner.isBlank d = false := by
  cases op <;> exact ⟨_, rfl, rfl⟩

end BinaryOp

/-- A name: a letter with letters, numerals and underscores behind it, and no keyword. -/
def Token.isName (name : String) : Bool :=
  match name.toList with
  | [] => false
  | c :: cs => Text.isLetter c && cs.all Text.continuesWord && (Keyword.ofSpelling? name).isNone

namespace Expr

/-- Whether the text of an expression ends in bare digits, which a point behind them would go on with. -/
def endsInDigits : Expr → Bool
  | .lit _ _ text => text.toList.all Scanner.isDigit
  | .star _ x => x.endsInDigits
  | .unary _ _ x => x.endsInDigits
  | .binary _ _ _ y => y.endsInDigits
  | .keyValue _ _ value => value.endsInDigits
  | _ => false
termination_by structural x => x

end Expr

/-- Places of a tree in another: as an operand that more can be put behind, as an operand of an
operator, as a whole expression, and in a composite literal as a key or value or as an element. -/
inductive Place where
  | primary
  | operand
  | expr
  | value
  | element

/-- Trees that can be read back from their text in the given place. -/
inductive Expr.Legible : Place → Expr → Prop
  | ident {pos : Position} {name : String} (hname : isName name) : Legible .primary (.ident pos name)
  | lit {pos : Position} {kind : LitKind} {text : String}
      (htext : Token.kinds false text = .ok [.literal kind text, .symbol .semiColon, .eof]) :
      Legible .primary (.lit pos kind text)
  | paren {pos : Position} {x : Expr} (hx : Legible .expr x) : Legible .primary (.paren pos x)
  | selector {pos pos' : Position} {x : Expr} {name : String} (hx : Legible .primary x)
      (hdigits : x.endsInDigits = false) (hname : isName name) :
      Legible .primary (.selector pos x (.ident pos' name))
  | index {pos : Position} {x i : Expr} (hx : Legible .primary x) (hi : Legible .expr i) :
      Legible .primary (.index pos x i)
  | slice {pos : Position} {x : Expr} {low high : Option Expr} (hx : Legible .primary x)
      (hlow : ∀ y ∈ low, Legible .expr y) (hhigh : ∀ y ∈ high, Legible .expr y) :
      Legible .primary (.slice pos x low high none false)
  | fullSlice {pos : Position} {x high max : Expr} {low : Option Expr} (hx : Legible .primary x)
      (hlow : ∀ y ∈ low, Legible .expr y) (hhigh : Legible .expr high) (hmax : Legible .expr max) :
      Legible .primary (.slice pos x low (some high) (some max) true)
  | call {pos : Position} {fn : Expr} {args : List Expr} {spread : Bool} (hfn : Legible .primary fn)
      (hargs : ∀ x ∈ args, Legible .expr x)
      (hspread : spread → ∃ x ∈ args.getLast?, x.endsInDigits = false) :
      Legible .primary (.call pos fn args spread)
  | typeAssert {pos : Position} {x type : Expr} (hx : Legible .primary x)
      (hdigits : x.endsInDigits = false) (htype : Legible .primary type) (hname : type.isTypeName) :
      Legible .primary (.typeAssert pos x (some type))
  | typeSwitch {pos : Position} {x : Expr} (hx : Legible .primary x)
      (hdigits : x.endsInDigits = false) : Legible .primary (.typeAssert pos x none)
  | composite {pos : Position} {type : Expr} {elts : List Expr} (htype : Legible .primary type)
      (hname : type.isTypeName) (helts : ∀ x ∈ elts, Legible .element x) :
      Legible .primary (.composite pos (some type) elts)
  | ofPrimary {x : Expr} (hx : Legible .primary x) : Legible .operand x
  | star {pos : Position} {x : Expr} (hx : Legible .operand x) : Legible .operand (.star pos x)
  | unary {pos : Position} {op : UnaryOp} {x : Expr} (hx : Legible .operand x)
      (hfuse : ∀ d ∈ x.text.toList.head?, op.fusesWith d = false) :
      Legible .operand (.unary pos op x)
  | ofOperand {x : Expr} (hx : Legible .operand x) : Legible .expr x
  | binary {pos : Position} {op : BinaryOp} {x y : Expr} (hx : Legible .expr x)
      (hy : Legible .expr y) (hleft : op.precedence ≤ x.tightness)
      (hright : op.precedence < y.tightness) : Legible .expr (.binary pos op x y)
  | ofExpr {x : Expr} (hx : Legible .expr x) : Legible .value x
  | elided {pos : Position} {elts : List Expr} (helts : ∀ x ∈ elts, Legible .element x) :
      Legible .value (.composite pos none elts)
  | ofValue {x : Expr} (hx : Legible .value x) : Legible .element x
  | keyValue {pos : Position} {key value : Expr} (hkey : Legible .value key)
      (hvalue : Legible .value value) : Legible .element (.keyValue pos key value)

/-- What stands behind the last argument of a call. -/
def spreadKinds (spread : Bool) : List Kind :=
  if spread then [.symbol .ellipsis] else []

mutual

/-- The tokens of an expression in order. Types and functions are left out. -/
def Expr.kinds : Expr → List Kind
  | .ident _ name => [.ident name]
  | .wildcard _ name any => [.wildcard name any]
  | .lit _ kind text => [.literal kind text]
  | .composite _ type elts =>
    Expr.optKinds type ++ .symbol .lBrace :: (Expr.listKinds elts ++ [.symbol .rBrace])
  | .paren _ x => .symbol .lParen :: (x.kinds ++ [.symbol .rParen])
  | .selector _ x sel => x.kinds ++ .symbol .dot :: sel.kinds
  | .index _ x i => x.kinds ++ .symbol .lBracket :: (i.kinds ++ [.symbol .rBracket])
  | .slice _ x low high max full =>
    x.kinds ++ .symbol .lBracket :: (Expr.optKinds low ++ .symbol .colon :: (Expr.optKinds high
      ++ ((if full then .symbol .colon :: Expr.optKinds max else []) ++ [.symbol .rBracket])))
  | .typeAssert _ x (some type) =>
    x.kinds ++ .symbol .dot :: .symbol .lParen :: (type.kinds ++ [.symbol .rParen])
  | .typeAssert _ x none =>
    x.kinds ++ [.symbol .dot, .symbol .lParen, .keyword .type, .symbol .rParen]
  | .call _ fn args spread =>
    fn.kinds ++ .symbol .lParen :: (Expr.listKinds args ++ (spreadKinds spread ++ [.symbol .rParen]))
  | .star _ x => .symbol .star :: x.kinds
  | .unary _ op x => .symbol op.symbol :: x.kinds
  | .binary _ op x y => x.kinds ++ .symbol op.symbol :: y.kinds
  | .keyValue _ key value => key.kinds ++ .symbol .colon :: value.kinds
  | _ => []
termination_by structural x => x

def Expr.optKinds : Option Expr → List Kind
  | none => []
  | some x => x.kinds
termination_by structural x => x

/-- The tokens of a list, with commas between the parts. -/
def Expr.listKinds : List Expr → List Kind
  | [] => []
  | x :: xs => x.kinds ++ Expr.tailKinds xs
termination_by structural xs => xs

/-- The tokens of a list, with a comma in front of each part. -/
def Expr.tailKinds : List Expr → List Kind
  | [] => []
  | x :: xs => .symbol .comma :: (x.kinds ++ Expr.tailKinds xs)
termination_by structural xs => xs

end

/-- What may stand behind the text of an expression: a closing character, and no point behind bare
digits. -/
def Expr.ClosedBy (x : Expr) (rest : List Char) : Prop :=
  ∀ d ∈ rest.head?, d ∈ closers ∧ (d = '.' → x.endsInDigits = false)

/-- The text of an expression is read as its tokens, whatever stands behind it. -/
def Expr.Spelled (x : Expr) : Prop :=
  ∀ rest, x.ClosedBy rest → Scans (x.text.toList ++ rest) x.kinds rest

/-- A character that can begin the text of an expression: no blank, and nothing that turns an operator in
front of it into an assignment. -/
def Token.begins (d : Char) : Bool :=
  !Scanner.isBlank d && d != '='

namespace Token

theorem begins_of_isLetter {c : Char} (h : Text.isLetter c) : begins c := by
  have hne : ∀ b, Text.isLetter b = false → c ≠ b := fun _ => Text.ne_of_isLetter h
  simp [begins, Scanner.isBlank, hne ' ' rfl, hne '\t' rfl, hne '\r' rfl, hne '=' rfl]

theorem exists_cons_of_isName {name : String} (h : isName name) :
    ∃ c cs, name.toList = c :: cs ∧ Text.isLetter c ∧ cs.all Text.continuesWord
      ∧ Keyword.ofSpelling? name = none := by
  unfold isName at h
  split at h
  · cases h
  · next c cs heq =>
    simp only [Bool.and_eq_true, Option.isNone_iff_eq_none] at h
    exact ⟨c, cs, heq, h.1.1, h.1.2, h.2⟩

/-- A name is read as an identifier in front of a closing character. -/
theorem Scans.name {name : String} (h : isName name) {rest : List Char}
    (hrest : ∀ d ∈ rest.head?, d ∈ closers) : Scans (name.toList ++ rest) [.ident name] rest := by
  have hstop := closer_avoids Text.continuesWord rfl
  obtain ⟨c, cs, hcs, hc, hall, hkey⟩ := exists_cons_of_isName h
  have hkind : Scanner.wordKind (c :: cs) = .ident name := by
    rw [Scanner.wordKind, ← hcs, String.ofList_toList, hkey]
  rw [hcs, ← hkind]
  exact .single (Piece.next?_word hc hall fun d hd => hstop d (hrest d hd))

theorem ne_assign_of_head? {cs : List Char} (hcs : ∃ d ∈ cs.head?, begins d) (rest : List Char) :
    ∀ c ∈ (cs ++ rest).head?, c ≠ '=' := by
  obtain ⟨d, hd, hbegins⟩ := hcs
  rw [List.head?_append, Option.mem_def.mp hd]
  rintro _ ⟨⟩ rfl
  cases hbegins

theorem not_blank_of_head? {cs : List Char} (hcs : ∃ d ∈ cs.head?, begins d) (rest : List Char) :
    ∃ c ∈ (cs ++ rest).head?, Scanner.isBlank c = false := by
  obtain ⟨d, hd, hbegins⟩ := hcs
  rw [List.head?_append, Option.mem_def.mp hd]
  simp only [begins, Bool.and_eq_true, Bool.not_eq_true'] at hbegins
  exact ⟨d, rfl, hbegins.1⟩

theorem Scans.space {cs back : List Char} {kinds : List Kind}
    (hcs : ∃ d ∈ cs.head?, Scanner.isBlank d = false) (h : Scans cs kinds back) :
    Scans (" ".toList ++ cs) kinds back := by
  obtain ⟨d, hd, hblank⟩ := hcs
  obtain ⟨ds, rfl⟩ := List.head?_eq_some_iff.mp hd
  have hspace : Scanner.isBlank ' ' = true := rfl
  have hnext : Scanner.blank (' ' :: d :: ds) = some (.blank, [' '], d :: ds) := by
    simp [Scanner.blank, Recognizer.run1, Recognizer.run, hblank, hspace]
  exact .blank (Piece.next?_eq_some [] rfl rfl hnext) h

/-- Symbols that nothing behind them makes longer. -/
def marks : List Symbol :=
  [.lParen, .rParen, .lBracket, .rBracket, .lBrace, .rBrace, .comma, .ellipsis]

theorem Scans.mark (s : Symbol) (hs : s ∈ marks) {cs back : List Char} {kinds : List Kind}
    (h : Scans cs kinds back) : Scans (s.spelling.toList ++ cs) (.symbol s :: kinds) back := by
  have hmarks : ∀ s ∈ marks, s.extenders = [] ∧ s ≠ .dot ∧ s ≠ .slash := by decide
  obtain ⟨hextend, hdot, hslash⟩ := hmarks s hs
  exact .append (.symbol s (by simp [hextend]) (absurd · hdot) (absurd · hslash)) h

/-- A text in brackets. -/
theorem Scans.bracketed (o c : Symbol) (hs : o ∈ marks ∧ c ∈ marks) {body rest : List Char}
    {kinds : List Kind}
    (h : Scans (body ++ (c.spelling.toList ++ rest)) kinds (c.spelling.toList ++ rest)) :
    Scans (o.spelling.toList ++ (body ++ (c.spelling.toList ++ rest)))
      (.symbol o :: (kinds ++ [.symbol c])) rest :=
  .mark o hs.1 (h.append (.mark c hs.2 (.done rest)))

end Token

/-- A literal begins with a digit, a point or a quote. -/
theorem Token.head?_of_literal {cs : List Char} {kind : LitKind} {text : String}
    {parts : List Char × List Char}
    (h : Piece.next? cs = some (.token (.literal kind text), parts)) : ∃ d ∈ cs.head?, begins d := by
  cases cs with
  | nil => cases h
  | cons c cs =>
    refine ⟨c, rfl, ?_⟩
    have hne : ∀ b, begins b = false →
        Piece.next? (b :: cs) ≠ some (.token (.literal kind text), parts) := by
      intro b hb hnext
      obtain ⟨scan, hm, hscan⟩ := Piece.scanner_of_literal hnext
      simp only [begins, Scanner.isBlank, Bool.and_eq_false_iff, Bool.not_eq_false', Bool.or_eq_true,
        beq_iff_eq, bne_eq_false_iff_eq] at hb
      simp only [List.mem_cons, List.not_mem_nil, or_false] at hm
      rcases hb with ((rfl | rfl) | rfl) | rfl <;>
        rcases hm with rfl | rfl | rfl | rfl <;> cases hscan
    rw [← Bool.not_eq_false]
    exact fun hc => hne c hc h

theorem Expr.closedBy_cons {x : Expr} {d : Char} {rest : List Char} (hd : d ∈ closers ∧ d ≠ '.') :
    x.ClosedBy (d :: rest) := by
  rintro _ ⟨⟩
  exact ⟨hd.1, fun h => absurd h hd.2⟩

/-- A spelled tree in front of a closing character. -/
theorem Expr.Spelled.before {x : Expr} (hx : x.Spelled) {d : Char} {rest : List Char}
    (hd : d ∈ closers ∧ d ≠ '.') : Scans (x.text.toList ++ d :: rest) x.kinds (d :: rest) :=
  hx _ (closedBy_cons hd)

namespace Expr.Legible

variable {x : Expr} {place : Place}

theorem next?_lit {kind : LitKind} {text : String}
    (h : Token.kinds false text = .ok [.literal kind text, .symbol .semiColon, .eof]) :
    Piece.next? text.toList = some (.token (.literal kind text), text.toList, []) :=
  next?_of_kinds h List.mem_cons_self

theorem head?_text (h : Legible place x) : ∃ d ∈ x.text.toList.head?, begins d := by
  induction h with
  | ident hname =>
    obtain ⟨c, cs, hcs, hc, -⟩ := exists_cons_of_isName hname
    exact ⟨c, by simp [Expr.text, hcs], begins_of_isLetter hc⟩
  | lit htext => exact head?_of_literal (next?_lit htext)
  | paren => exact ⟨'(', by simp [Expr.text], rfl⟩
  | selector _ _ _ ih | index _ _ ih | slice _ _ _ ih | fullSlice _ _ _ _ ih | call _ _ _ ih
  | typeAssert _ _ _ _ ih | typeSwitch _ _ ih | composite _ _ _ ih | binary _ _ _ _ ih
  | keyValue _ _ ih =>
    obtain ⟨d, hhead, hd⟩ := ih
    exact ⟨d, by simp [Expr.text, Expr.optText, List.head?_append, Option.mem_def.mp hhead], hd⟩
  | ofPrimary _ ih | ofOperand _ ih | ofExpr _ ih | ofValue _ ih => exact ih
  | star => exact ⟨'*', by simp [Expr.text], rfl⟩
  | @unary _ op _ _ _ _ =>
    cases op <;> exact ⟨_, by simp [Expr.text, UnaryOp.text]; rfl, rfl⟩
  | elided => exact ⟨'\x7b', by simp [Expr.text, Expr.optText, bracedText], rfl⟩

theorem closedBy_point {rest : List Char} (h : x.endsInDigits = false) : x.ClosedBy ('.' :: rest) := by
  rintro _ ⟨⟩
  exact ⟨by decide, fun _ => h⟩

theorem spelled_lit {pos : Position} {kind : LitKind} {text : String}
    (h : Token.kinds false text = .ok [.literal kind text, .symbol .semiColon, .eof]) :
    (Expr.lit pos kind text).Spelled := by
  intro rest hrest
  have hnext := next?_lit h
  cases rest with
  | nil =>
    rw [List.append_nil]
    exact .single hnext
  | cons d rest =>
    obtain ⟨hd, hpoint⟩ := hrest d rfl
    exact .single (Piece.next?_literal hnext hd hpoint)

/-- A point with a name behind it. -/
theorem scans_dot_name {name : String} (h : isName name) {rest : List Char}
    (hrest : ∀ d ∈ rest.head?, d ∈ closers) :
    Scans (".".toList ++ (name.toList ++ rest)) [.symbol .dot, .ident name] rest := by
  have hextend : Symbol.dot.extenders = ['.'] := by decide
  obtain ⟨c, cs, hcs, hc, -⟩ := exists_cons_of_isName h
  have hhead : ∀ d ∈ (name.toList ++ rest).head?, Text.isLetter d := by
    rw [hcs]
    rintro _ ⟨⟩
    exact hc
  refine .append (.symbol .dot (fun d hd => ?_) (fun _ d hd => ?_) nofun) (.name h hrest)
  · simpa [hextend] using Text.ne_of_isLetter (hhead d hd) (d := '.') rfl
  · exact Scanner.isDigit_of_isLetter (hhead d hd)

theorem scans_colon {cs back : List Char} {kinds : List Kind} (hcs : ∀ d ∈ cs.head?, d ≠ '=')
    (h : Scans cs kinds back) : Scans (":".toList ++ cs) (.symbol .colon :: kinds) back := by
  have hextend : Symbol.colon.extenders = ['='] := by decide
  refine .append (.symbol .colon (fun d hd => ?_) nofun nofun) h
  simpa [hextend] using hcs d hd

/-- The text of an expression that may be missing, in front of a closing character. -/
theorem scans_opt {o : Option Expr} (ho : ∀ x ∈ o, x.Spelled) {d : Char} {rest : List Char}
    (hd : d ∈ closers ∧ d ≠ '.') :
    Scans ((Expr.optText o).toList ++ d :: rest) (Expr.optKinds o) (d :: rest) := by
  cases o with
  | none => exact .done _
  | some x => exact (ho x rfl).before hd

/-- Texts with a comma and a blank in front of each. -/
def tailText (xs : List Expr) : List Char :=
  xs.flatMap fun x => ", ".toList ++ x.text.toList

theorem toList_joinWith_texts (x : Expr) (xs : List Expr) :
    (joinWith ", " (Expr.texts (x :: xs))).toList = x.text.toList ++ tailText xs := by
  rw [joinWith, String.toList_intercalate]
  induction xs generalizing x with
  | nil => simp [Expr.texts, tailText, List.intercalate]
  | cons y ys ih =>
    have hstep := ih y
    simp only [Expr.texts, List.map_cons, List.intercalate, List.intersperse_cons_cons,
      List.flatten_cons, tailText, List.flatMap_cons, List.append_assoc] at hstep ⊢
    rw [hstep]

/-- Behind a part of a list stands the comma of the next one, or what stands behind the list. -/
theorem closedBy_tail {xs : List Expr} {rest : List Char}
    (hrest : ∀ y ∈ (x :: xs).getLast?, y.ClosedBy rest) : x.ClosedBy (tailText xs ++ rest) := by
  cases xs with
  | nil => exact hrest x rfl
  | cons y ys => exact closedBy_cons (by decide)

theorem scans_tail {xs : List Expr} (hspelled : ∀ x ∈ xs, x.Spelled)
    (hbegin : ∀ x ∈ xs, ∃ d ∈ x.text.toList.head?, begins d) {rest : List Char}
    (hrest : ∀ x ∈ xs.getLast?, x.ClosedBy rest) :
    Scans (tailText xs ++ rest) (Expr.tailKinds xs) rest := by
  induction xs with
  | nil => exact .done rest
  | cons x xs ih =>
    obtain ⟨hx, hxs⟩ := List.forall_mem_cons.mp hspelled
    obtain ⟨hb, hbs⟩ := List.forall_mem_cons.mp hbegin
    have htail : Scans (tailText xs ++ rest) (Expr.tailKinds xs) rest := by
      refine ih hxs hbs fun y hy => hrest y ?_
      cases xs with
      | nil => cases hy
      | cons z zs => exact hy
    have hlist := (hx _ (closedBy_tail hrest)).append htail
    have htext : tailText (x :: xs) ++ rest
        = ",".toList ++ (" ".toList ++ (x.text.toList ++ (tailText xs ++ rest))) := by
      simp [tailText]
    rw [htext, Expr.tailKinds]
    exact .mark .comma (by decide) (.space (not_blank_of_head? hb _) hlist)

/-- A list is read as its parts with commas between them. -/
theorem scans_list {xs : List Expr} (hspelled : ∀ x ∈ xs, x.Spelled)
    (hbegin : ∀ x ∈ xs, ∃ d ∈ x.text.toList.head?, begins d) {rest : List Char}
    (hrest : ∀ x ∈ xs.getLast?, x.ClosedBy rest) :
    Scans ((joinWith ", " (Expr.texts xs)).toList ++ rest) (Expr.listKinds xs) rest := by
  cases xs with
  | nil => exact .done rest
  | cons x xs =>
    obtain ⟨hx, hxs⟩ := List.forall_mem_cons.mp hspelled
    obtain ⟨-, hbs⟩ := List.forall_mem_cons.mp hbegin
    rw [toList_joinWith_texts, List.append_assoc, Expr.listKinds]
    refine (hx _ (closedBy_tail hrest)).append (scans_tail hxs hbs fun y hy => hrest y ?_)
    cases xs with
    | nil => cases hy
    | cons z zs => exact hy

/-- A slice up to its bounds behind the first colon. -/
theorem scans_slice {low high : Option Expr} (hx : x.Spelled) (hlow : ∀ y ∈ low, y.Spelled)
    (hhigh : ∀ y ∈ high, y.Spelled) (hbegin : ∀ y ∈ high, ∃ d ∈ y.text.toList.head?, begins d)
    {d : Char} (hd : d ∈ closers ∧ d ≠ '.') {back rest : List Char} {kinds : List Kind}
    (h : Scans (d :: back) kinds rest) :
    Scans (x.text.toList ++ ("[".toList ++ ((Expr.optText low).toList ++ (":".toList
        ++ ((Expr.optText high).toList ++ d :: back)))))
      (x.kinds ++ .symbol .lBracket :: (Expr.optKinds low ++ .symbol .colon :: (Expr.optKinds high
        ++ kinds))) rest := by
  have hhead : ∀ c ∈ ((Expr.optText high).toList ++ d :: back).head?, c ≠ '=' := by
    cases high with
    | none =>
      rintro _ ⟨⟩
      exact closer_ne '=' (by decide) d hd.1
    | some y => exact ne_assign_of_head? (hbegin y rfl) _
  have hbounds := scans_colon hhead ((scans_opt hhigh hd).append h)
  exact (hx.before (by decide)).append
    (.mark .lBracket (by decide) ((scans_opt hlow (by decide)).append hbounds))

theorem spelled (h : Legible place x) : x.Spelled := by
  induction h with
  | ident hname => exact fun rest hrest => .name hname fun d hd => (hrest d hd).1
  | lit htext => exact spelled_lit htext
  | paren _ ih =>
    intro rest _
    simp only [Expr.text, String.toList_append, List.append_assoc, Expr.kinds]
    exact .bracketed .lParen .rParen (by decide) (ih.before (by decide))
  | selector hx hdigits hname ih =>
    intro rest hrest
    simp only [Expr.text, String.toList_append, List.append_assoc, Expr.kinds]
    exact (ih _ (closedBy_point hdigits)).append (scans_dot_name hname fun d hd => (hrest d hd).1)
  | index hx hi ihx ihi =>
    intro rest _
    simp only [Expr.text, String.toList_append, List.append_assoc, Expr.kinds]
    exact (ihx.before (by decide)).append
      (.bracketed .lBracket .rBracket (by decide) (ihi.before (by decide)))
  | slice hx hlow hhigh ihx ihlow ihhigh =>
    intro rest _
    simp only [Expr.text, String.toList_append, List.append_assoc, Expr.kinds]
    exact scans_slice ihx ihlow ihhigh (fun y hy => (hhigh y hy).head?_text) (by decide)
      (.mark .rBracket (by decide) (.done rest))
  | @fullSlice _ _ high max _ hx hlow hhigh hmax ihx ihlow ihhigh ihmax =>
    intro rest _
    have hmax := scans_colon (ne_assign_of_head? hmax.head?_text _)
      ((ihmax.before (by decide)).append (.mark .rBracket (by decide) (.done rest)))
    have hhighs : ∀ y ∈ some high, y.Spelled := by
      rintro _ ⟨⟩
      exact ihhigh
    have hbegin : ∀ y ∈ some high, ∃ d ∈ y.text.toList.head?, begins d := by
      rintro _ ⟨⟩
      exact hhigh.head?_text
    simp only [Expr.text, Expr.optText, String.toList_append, List.append_assoc, Expr.kinds,
      Expr.optKinds, if_true, List.cons_append]
    exact scans_slice ihx ihlow hhighs hbegin (by decide) hmax
  | @call _ _ args spread hfn hargs hspread ihfn ihargs =>
    intro rest _
    have hbegin := fun y hy => (hargs y hy).head?_text
    have hclose : Scans (")".toList ++ rest) [.symbol .rParen] rest :=
      .mark .rParen (by decide) (.done rest)
    simp only [Expr.text, String.toList_append, List.append_assoc, Expr.kinds]
    refine (ihfn.before (by decide)).append (.mark .lParen (by decide) ?_)
    cases spread with
    | false => exact (scans_list ihargs hbegin fun _ _ => closedBy_cons (by decide)).append hclose
    | true =>
      obtain ⟨last, hlast, hdigits⟩ := hspread rfl
      refine (scans_list ihargs hbegin ?_).append (.mark .ellipsis (by decide) hclose)
      intro y hy
      cases Option.mem_unique hlast hy
      exact closedBy_point hdigits
  | typeAssert hx hdigits htype hname ihx ihtype =>
    intro rest _
    simp only [Expr.text, String.toList_append, List.append_assoc, Expr.kinds]
    refine (ihx _ (closedBy_point hdigits)).append (.token rfl ?_)
    exact .bracketed .lParen .rParen (by decide) (ihtype.before (by decide))
  | typeSwitch hx hdigits ih =>
    intro rest _
    simp only [Expr.text, String.toList_append, List.append_assoc, Expr.kinds]
    refine (ih _ (closedBy_point hdigits)).append (.token rfl (.token rfl ?_))
    have htype : Piece.next? ("type".toList ++ (")".toList ++ rest))
        = some (.token (.keyword .type), "type".toList, ")".toList ++ rest) := by
      refine Piece.next?_word rfl rfl ?_
      rintro _ ⟨⟩
      rfl
    exact .token htype (.mark .rParen (by decide) (.done rest))
  | composite htype hname helts ihtype ihelts =>
    intro rest _
    simp only [Expr.text, Expr.optText, bracedText, String.toList_append, List.append_assoc, Expr.kinds,
      Expr.optKinds]
    refine (ihtype.before (by decide)).append ?_
    exact .bracketed .lBrace .rBrace (by decide)
      (scans_list ihelts (fun y hy => (helts y hy).head?_text) fun _ _ => closedBy_cons (by decide))
  | ofPrimary _ ih | ofOperand _ ih | ofExpr _ ih | ofValue _ ih => exact ih
  | star hx ih =>
    intro rest hrest
    have hextend : Symbol.star.extenders = ['='] := by decide
    simp only [Expr.text, String.toList_append, List.append_assoc, Expr.kinds]
    refine .append (.symbol .star (fun d hd => ?_) nofun nofun) (ih rest hrest)
    simpa [hextend] using ne_assign_of_head? hx.head?_text rest d hd
  | @unary _ op _ hx hfuse ih =>
    intro rest hrest
    simp only [Expr.text, String.toList_append, List.append_assoc, Expr.kinds, op.text_eq_spelling]
    refine .append (.symbol op.symbol (fun d hd => ?_) ?_ ?_) (ih rest hrest)
    · have hassign := ne_assign_of_head? hx.head?_text rest d hd
      refine UnaryOp.not_mem_extenders (hfuse d ?_) hassign
      obtain ⟨c, hc, -⟩ := hx.head?_text
      rw [List.head?_append, Option.mem_def.mp hc] at hd
      cases hd
      exact hc
    · cases op <;> exact nofun
    · cases op <;> exact nofun
  | @binary _ op x y hx hy _ _ ihx ihy =>
    intro rest hrest
    simp only [Expr.text, String.toList_append, List.append_assoc, Expr.kinds, op.text_eq_spelling]
    have hop : Scans (op.symbol.spelling.toList ++ (" ".toList ++ (y.text.toList ++ rest)))
        [.symbol op.symbol] (" ".toList ++ (y.text.toList ++ rest)) := by
      refine .symbol op.symbol ?_ ?_ ?_
      · rintro _ ⟨⟩
        exact op.space_not_mem_extenders
      · cases op <;> exact nofun
      · rintro - _ ⟨⟩
        decide
    have hright := Scans.space (not_blank_of_head? hy.head?_text rest) (ihy rest hrest)
    exact (ihx.before (by decide)).append (.space (op.not_blank_of_spelling _) (hop.append hright))
  | elided helts ih =>
    intro rest _
    simp only [Expr.text, Expr.optText, bracedText, String.toList_append, List.append_assoc, Expr.kinds,
      Expr.optKinds, List.nil_append]
    exact .bracketed .lBrace .rBrace (by decide)
      (scans_list ih (fun y hy => (helts y hy).head?_text) fun _ _ => closedBy_cons (by decide))
  | keyValue hkey hvalue ihk ihv =>
    intro rest hrest
    simp only [Expr.text, String.toList_append, List.append_assoc, Expr.kinds]
    have hbehind := Scans.space (not_blank_of_head? hvalue.head?_text rest) (ihv rest hrest)
    refine (ihk.before (by decide)).append (scans_colon ?_ hbehind)
    rintro _ ⟨⟩
    decide

theorem all_tailKinds {xs : List Expr} (h : ∀ x ∈ xs, x.kinds.all Kind.isPlain) :
    (Expr.tailKinds xs).all Kind.isPlain := by
  induction xs with
  | nil => rfl
  | cons x xs ih =>
    obtain ⟨hx, hxs⟩ := List.forall_mem_cons.mp h
    simp [Expr.tailKinds, List.all_append, hx, ih hxs, Kind.isPlain]

theorem all_listKinds {xs : List Expr} (h : ∀ x ∈ xs, x.kinds.all Kind.isPlain) :
    (Expr.listKinds xs).all Kind.isPlain := by
  cases xs with
  | nil => rfl
  | cons x xs =>
    obtain ⟨hx, hxs⟩ := List.forall_mem_cons.mp h
    rw [Expr.listKinds, List.all_append, hx, all_tailKinds hxs]
    rfl

theorem all_optKinds {o : Option Expr} (h : ∀ x ∈ o, x.kinds.all Kind.isPlain) :
    (Expr.optKinds o).all Kind.isPlain := by
  cases o with
  | none => rfl
  | some x => exact h x rfl

theorem all_kinds (h : Legible place x) : x.kinds.all Kind.isPlain := by
  induction h with
  | ident | lit => rfl
  | paren _ ih | star _ ih | unary _ _ ih => simp [Expr.kinds, List.all_append, ih, Kind.isPlain]
  | selector _ _ _ ih | typeSwitch _ _ ih =>
    simp [Expr.kinds, List.all_append, ih, Kind.isPlain]
  | index _ _ ihx ihy | typeAssert _ _ _ _ ihx ihy | binary _ _ _ _ ihx ihy
  | keyValue _ _ ihx ihy =>
    simp [Expr.kinds, List.all_append, ihx, ihy, Kind.isPlain]
  | slice _ _ _ ih ihlow ihhigh =>
    simp [Expr.kinds, List.all_append, ih, all_optKinds ihlow, all_optKinds ihhigh, Kind.isPlain]
  | fullSlice _ _ _ _ ih ihlow ihhigh ihmax =>
    simp [Expr.kinds, Expr.optKinds, List.all_append, ih, all_optKinds ihlow, ihhigh, ihmax,
      Kind.isPlain]
  | @call _ _ _ spread _ _ _ ih ihargs =>
    cases spread <;>
      simp [Expr.kinds, spreadKinds, List.all_append, ih, all_listKinds ihargs, Kind.isPlain]
  | composite _ _ _ ih ihelts =>
    simp [Expr.kinds, Expr.optKinds, List.all_append, ih, all_listKinds ihelts, Kind.isPlain]
  | ofPrimary _ ih | ofOperand _ ih | ofExpr _ ih | ofValue _ ih => exact ih
  | elided _ ih =>
    simp [Expr.kinds, Expr.optKinds, List.all_append, all_listKinds ih, Kind.isPlain]

/-- The tokens of the text are those of the tree, then what ends the text. -/
theorem exists_tokenize (h : Legible place x) (wildcards : Bool) :
    ∃ ts tail, tokenize wildcards x.text = .ok ts ∧ IsTail tail
      ∧ ts.map Token.kind = x.kinds ++ tail := by
  have hscans := h.spelled [] nofun
  rw [List.append_nil] at hscans
  exact hscans.exists_tokenize (List.all_eq_true.mp h.all_kinds) wildcards

end Expr.Legible

end GoSift
