import GoSift.Proofs.Syntax.Legible
import GoSift.Proofs.Syntax.Reading

/-!
What the parsers of expressions do at the token ahead, one rule for each form. A rule says what is left
to be read by the grammar one level below.
-/
namespace GoSift

open Token GoSift.Parser

namespace Token.Kind

/-- Whether a token goes on with the operand in front of it. -/
def continuesPrimary : Kind → Bool
  | symbol sym => (sym matches .dot | .lBracket | .lParen | .lBrace)
  | _ => false

/-- Whether an expression ends in front of a token, whatever its operators are. -/
def endsExpr (k : Kind) : Bool :=
  !k.continuesPrimary && k.binaryOp?.isNone

/-- Whether a token begins an expression. -/
def startsExpr : Kind → Bool
  | ident _ | literal .. => true
  | symbol sym => sym == .lParen || sym == .star || (UnaryOp.ofSymbol? sym).isSome
  | _ => false

end Token.Kind

namespace Grammar

variable {g : Grammar} {k : Kind} {ks : List Kind} {x : Expr} {Q : Expr → List Kind → Prop}

/-- A level of the grammar for each token ahead is enough. -/
theorem reads_bounded {n : Nonterminal} {Q : n.Tree → List Kind → Prop} {depth : Nat}
    (hdepth : ks.length ≤ depth)
    (h : ∀ depth, ks.length ≤ depth + 1 → Reads (step (bounded depth) n) ks Q) :
    Reads (bounded depth n) ks Q := by
  cases depth with
  | zero =>
    rintro c rfl
    exact absurd hdepth (Nat.not_succ_le_zero _)
  | succ depth => exact h depth hdepth

theorem reads_primaryTail_end (hk : k.continuesPrimary = false) (h : Q x (k :: ks)) :
    Reads (primaryTail g x) (k :: ks) Q := by
  unfold primaryTail
  refine .bind (.kind ?_)
  split <;> first | cases hk | exact .pure h

theorem reads_primaryTail_name {name : String}
    (h : ∀ pos, Reads (g (.primaryTail (.selector x.pos x (.ident pos name)))) ks Q) :
    Reads (primaryTail g x) (.symbol .dot :: .ident name :: ks) Q := by
  refine .bind (.kind (.bind (.advance (by simp) fun _ _ => .bind ?_)))
  refine .bind (.advance (by simp) fun t ht => ?_)
  simp only [ht]
  exact .pure (h _)

theorem reads_binaryTail_end {least : Nat} (hk : ∀ op ∈ k.binaryOp?, op.precedence < least)
    (h : Q x (k :: ks)) : Reads (binaryTail g least x) (k :: ks) Q := by
  unfold binaryTail
  refine .bind (.kind ?_)
  split
  · split
    · exact .pure h
    · next op hop =>
      rw [if_pos (hk op hop)]
      exact .pure h
  · exact .pure h

theorem reads_binaryTail_op {least : Nat} {op : BinaryOp} (hop : least ≤ op.precedence)
    (h : Reads (g (.binary (op.precedence + 1))) ks fun y left =>
      Reads (g (.binaryTail least (.binary x.pos op x y))) left Q) :
    Reads (binaryTail g least x) (.symbol op.symbol :: ks) Q := by
  unfold binaryTail
  refine .bind (.kind ?_)
  simp only [op.ofSymbol?_symbol]
  rw [if_neg (Nat.not_lt.mpr hop)]
  exact .bind (.advance (by simp) fun _ _ => .bind h)

theorem reads_unaryExpr_star (h : ∀ pos, Reads (g .unary) ks fun y left => Q (.star pos y) left) :
    Reads (unaryExpr g) (.symbol .star :: ks) Q := by
  unfold unaryExpr
  refine .bind (.current fun t ht => ?_)
  simp only [ht]
  exact .bind (.advance (by simp) fun _ _ => .bind ((h t.start).mono fun _ _ => .pure))

theorem reads_unaryExpr_op {op : UnaryOp} (hk : k ≠ .keyword .chan)
    (h : ∀ pos, Reads (g .unary) (k :: ks) fun y left => Q (.unary pos op y) left) :
    Reads (unaryExpr g) (.symbol op.symbol :: k :: ks) Q := by
  unfold unaryExpr
  refine .bind (.current fun t ht => ?_)
  have hstar : op.symbol ≠ .star := by cases op <;> exact nofun
  simp only [ht, op.ofSymbol?_symbol]
  refine .bind (.advance (by simp) fun _ _ => .bind (.kind ?_))
  rw [if_neg (by simp [hk])]
  exact .bind ((h t.start).mono fun _ _ => .pure)

theorem reads_unaryExpr_operand
    (hk : ∀ sym, k = .symbol sym → sym ≠ .star ∧ UnaryOp.ofSymbol? sym = none)
    (h : Reads (operand g) (k :: ks) fun y left => Reads (primaryTail g y) left Q) :
    Reads (unaryExpr g) (k :: ks) Q := by
  unfold unaryExpr
  refine .bind (.current fun t ht => ?_)
  rw [ht]
  dsimp only
  split
  · exact absurd rfl (hk _ rfl).1
  · next sym _ =>
    rw [(hk sym rfl).2]
    exact .bind h
  · exact .bind h

theorem reads_operand_ident {name : String} (h : ∀ pos, Q (.ident pos name) ks) :
    Reads (operand g) (.ident name :: ks) Q := by
  unfold operand
  refine .bind (.current fun t ht => ?_)
  simp only [ht]
  exact .name h

theorem reads_operand_lit {kind : LitKind} {text : String} (h : ∀ pos, Q (.lit pos kind text) ks) :
    Reads (operand g) (.literal kind text :: ks) Q := by
  unfold operand
  refine .bind (.current fun t ht => ?_)
  simp only [ht]
  exact .bind (.advance (by simp) fun _ _ => .pure (h _))

theorem reads_operand_paren
    (h : ∀ pos, Reads g.expr ks fun y left =>
      Reads (expectSymbol .rParen) left fun _ left => Q (.paren pos y) left) :
    Reads (operand g) (.symbol .lParen :: ks) Q := by
  unfold operand
  refine .bind (.current fun t ht => ?_)
  simp only [ht]
  refine .bind (.advance (by simp) fun _ _ => .bind (.bracketed ?_))
  exact (h t.start).mono fun _ _ hclose => .bind (hclose.mono fun _ _ hQ => .pure hQ)

/-- A tail behind an opening bracket. -/
theorem reads_primaryTail_bracket
    (h : Reads (indexOrSlice g x) ks fun y left => Reads (g (.primaryTail y)) left Q) :
    Reads (primaryTail g x) (.symbol .lBracket :: ks) Q :=
  .bind (.kind (.bind (.advance (by simp) fun _ _ => .bind (.bracketed h))))

theorem reads_primaryTail_call
    (h : Reads (g .args) ks fun list left => Reads (expectSymbol .rParen) left fun _ left =>
      Reads (g (.primaryTail (.call x.pos x list.1 list.2))) left Q) :
    Reads (primaryTail g x) (.symbol .lParen :: ks) Q := by
  refine .bind (.kind (.bind (.advance (by simp) fun _ _ => .bind (.bracketed ?_))))
  exact .bind (h.mono fun ⟨_, _⟩ _ hclose => .bind (hclose.mono fun _ _ hQ => .pure hQ))

theorem reads_primaryTail_brace (hx : x.isTypeName)
    (h : Reads (composite g (some x)) (.symbol .lBrace :: ks) fun y left =>
      Reads (g (.primaryTail y)) left Q) :
    Reads (primaryTail g x) (.symbol .lBrace :: ks) Q := by
  refine .bind (.kind (.bind (.level fun n hn => ?_)))
  have hlit : x.isLiteralType = true := by
    unfold Expr.isLiteralType
    split <;> first | rfl | exact hx
  rw [if_pos (by simp [hlit, hn])]
  exact .bind h

theorem reads_primaryTail_assert (hk : k ≠ .keyword .type)
    (h : Reads (g .type) (k :: ks) fun type left => Reads (expectSymbol .rParen) left fun _ left =>
      Reads (g (.primaryTail (.typeAssert x.pos x (some type)))) left Q) :
    Reads (primaryTail g x) (.symbol .dot :: .symbol .lParen :: k :: ks) Q := by
  refine .bind (.kind (.bind (.advance (by simp) fun _ _ => .bind ?_)))
  refine .bind (.advance (by simp) fun t ht => ?_)
  simp only [ht]
  refine .bind (.eat_other hk ?_)
  rw [if_neg Bool.false_ne_true]
  exact .bind (.map (h.mono fun _ _ hclose => .bind (hclose.mono fun _ _ hQ => .pure hQ)))

theorem reads_primaryTail_typeSwitch
    (h : Reads (g (.primaryTail (.typeAssert x.pos x none))) ks Q) :
    Reads (primaryTail g x) (.symbol .dot :: .symbol .lParen :: .keyword .type :: .symbol .rParen :: ks)
      Q := by
  refine .bind (.kind (.bind (.advance (by simp) fun _ _ => .bind ?_)))
  refine .bind (.advance (by simp) fun t ht => ?_)
  simp only [ht]
  refine .bind (.eat (by simp) ?_)
  rw [if_pos rfl]
  exact .bind (.pure (.bind (.expect (by simp) fun _ _ => .pure h)))

theorem reads_composite {type : Option Expr}
    (h : Reads (g .elements) ks fun elts left => Reads (expectSymbol .rBrace) left fun _ left =>
      ∀ pos, Q (.composite pos type elts) left) :
    Reads (composite g type) (.symbol .lBrace :: ks) Q := by
  refine .bind (.expect (by simp) fun _ _ => .bind (.bracketed ?_))
  exact h.mono fun _ _ hclose => .bind (hclose.mono fun _ _ hQ => .pure (hQ _))

/-- The index or low bound behind an opening bracket. -/
def lowBound (g : Grammar) : Parser (Option Expr) := do
  if (← kind) = .symbol .colon then return none else some <$> g.expr

/-- An index or slice of `x` behind its low bound. -/
def sliced (g : Grammar) (x : Expr) (low : Option Expr) : Parser Expr := do
  let bounds ← sliceBounds g
  let close ← expectSymbol .rBracket
  match low, bounds with
  | some i, [] => return .index x.pos x i
  | none, [] => throw (.expected close .operand)
  | low, [high] => return .slice x.pos x low high none false
  | low, [some high, some max] => return .slice x.pos x low (some high) (some max) true
  | _, _ => throw (.malformed close.range .sliceBounds)

theorem indexOrSlice_eq (g : Grammar) (x : Expr) :
    indexOrSlice g x = lowBound g >>= sliced g x := by
  unfold indexOrSlice lowBound
  rw [bind_assoc]
  refine bind_congr fun k => ?_
  split <;> rfl

/-- An element of a composite literal, with its key if it has one. -/
def element (g : Grammar) : Parser Expr := do
  let key ← elementValue g
  if ← eatSymbol .colon then
    return .keyValue key.pos key (← elementValue g)
  else
    return key

theorem elements_eq (g : Grammar) :
    elements g = do
      if (← kind) = .symbol .rBrace then
        return []
      else
        let elt ← element g
        if ← eatSymbol .comma then
          return elt :: (← g .elements)
        else
          return [elt] := by
  unfold elements element
  refine bind_congr fun k => ?_
  split
  · rfl
  · simp only [bind_assoc]
    refine bind_congr fun key => bind_congr fun colon => ?_
    cases colon <;> simp

end Grammar

end GoSift
