import GoSift.Proofs.Syntax.Forward

/-!
How trees begin. What is read at a token starts where the token starts; at a wildcard it begins with
that wildcard, and a statement at the word `if` is a condition. No operand is a bare operation.
-/
namespace GoSift

def Expr.isBinary : Expr → Bool
  | binary .. => true
  | _ => false

/-- Whether the first token of an expression is a wildcard. -/
def Expr.startsWithWildcard : Expr → Bool
  | wildcard .. => true
  | composite _ (some x) _ | selector _ x _ | index _ x _ | slice _ x .. | typeAssert _ x _
  | call _ x .. | binary _ _ x _ | keyValue _ x _ => x.startsWithWildcard
  | _ => false
termination_by structural x => x

/-- Whether the first token of a statement is a wildcard. -/
def Stmt.startsWithWildcard : Stmt → Bool
  | expr _ x | send _ x _ | incDec _ x _ | assign _ (x :: _) _ _ => x.startsWithWildcard
  | _ => false

def Stmt.isCond : Stmt → Bool
  | cond .. => true
  | _ => false

/-- An expression that is read at the token `t`. -/
structure Expr.LedBy (t : Token) (x : Expr) : Prop where
  pos : x.pos = t.start
  wildcard : t.isWildcard → x.startsWithWildcard

/-- An operand that is read at the token `t`. -/
structure Expr.OperandAt (t : Token) (x : Expr) : Prop extends x.LedBy t where
  bare : x.isBinary = false

/-- A statement that is read at the token `t`. -/
structure Stmt.LedBy (t : Token) (s : Stmt) : Prop where
  pos : s.pos = t.start
  wildcard : t.isWildcard → s.startsWithWildcard
  cond : t.kind = .keyword .if_ → s.isCond

namespace Parser

/-- What holds of every result of a parser at the token `t`. -/
def From {α : Type} (p : Parser α) (t : Token) (Q : α → Prop) : Prop :=
  ∀ c a c', c.current = t → p c = .ok a c' → Q a

namespace From

variable {α β : Type} {p : Parser α} {t : Token} {Q : α → Prop} {R : β → Prop}

theorem pure {a : α} (h : Q a) : (Pure.pure a : Parser α).From t Q := by
  intro c b c' _ he
  cases he
  exact h

theorem throw {e : ParseError} : (throw e : Parser α).From t Q := by
  intro c b c' _ he
  cases he

theorem wanted {what : Expectation} : (Parser.wanted what : Parser α).From t Q := by
  intro c b c' _ he
  cases he

theorem mono {Q' : α → Prop} (h : p.From t Q) (hq : ∀ a, Q a → Q' a) : p.From t Q' :=
  fun c a c' hc he => hq a (h c a c' hc he)

theorem current {f : Token → Parser β} (h : (f t).From t R) : (Parser.current >>= f).From t R := by
  rintro c b c' rfl he
  exact h c b c' rfl he

theorem here {f : Position → Parser β} (h : (f t.start).From t R) :
    (Parser.here >>= f).From t R := by
  rintro c b c' rfl he
  exact h c b c' rfl he

theorem advance {f : Token → Parser β} (h : ∀ u, (f t).From u R) :
    (Parser.advance >>= f).From t R := by
  rintro c b c' rfl he
  exact h _ c.next b c' rfl he

theorem bind {f : α → Parser β} (hp : p.From t Q) (hf : ∀ a, Q a → ∀ u, (f a).From u R) :
    (p >>= f).From t R := by
  intro c b c' hc he
  obtain ⟨a, c₁, ha, hb⟩ := bind_eq_ok.mp he
  exact hf a (hp c a c₁ hc ha) _ c₁ b c' rfl hb

theorem choice {c : Prop} [Decidable c] {p' : Parser α} (hp : p.From t Q) (hp' : p'.From t Q) :
    (if c then p else p').From t Q := by
  split
  · exact hp
  · exact hp'

theorem atLevel {enter : Int → Int} {leave : Int → Int → Int} (hp : p.From t Q) :
    (Parser.atLevel enter leave p).From t Q := by
  intro c a c' hc he
  simp only [Parser.atLevel] at he
  split at he
  · next c₁ ha =>
    have hresult := hp { c with level := enter c.level } _ _ hc ha
    cases he
    exact hresult
  · cases he

/-- A step whose result does not matter. -/
theorem seq {f : α → Parser β} (hf : ∀ a u, (f a).From u R) : (p >>= f).From t R := by
  have hp : p.From t fun _ => True := fun _ _ _ _ _ => trivial
  exact bind hp fun a _ => hf a

/-- A choice between two ways to read a part that does not matter. -/
theorem ite {c : Prop} [Decidable c] {p' : Parser α} {f : α → Parser β}
    (hf : ∀ a u, (f a).From u R) : (if c then p >>= f else p' >>= f).From t R :=
  choice (seq hf) (seq hf)

end From

end Parser

/-- What holds of every tree that a nonterminal reads at the token `t`. A tail goes on behind a tree and
begins as that does. -/
def Nonterminal.LedBy (t : Token) : (n : Nonterminal) → n.Tree → Prop
  | binary _ => Expr.LedBy t
  | binaryTail _ x => fun y => ∀ t', x.LedBy t' → y.LedBy t'
  | unary | type => Expr.OperandAt t
  | primaryTail x => fun y => ∀ t', x.OperandAt t' → y.OperandAt t'
  | stmt => Stmt.LedBy t
  | _ => fun _ => True

/-- A grammar all of whose trees begin with the token at which they are read. -/
def Grammar.Leading (g : Grammar) : Prop :=
  ∀ (n : Nonterminal) (t : Token), (g n).From t (n.LedBy t)

/-- At a token of a kind that is no wildcard. -/
theorem Expr.OperandAt.proper {t : Token} {x : Expr} {kind : Token.Kind} (hk : t.kind = kind)
    (hkind : Token.isWildcard ⟨kind, t.range⟩ = false) (hpos : x.pos = t.start)
    (hbare : x.isBinary = false) : x.OperandAt t := by
  subst hk
  exact ⟨⟨hpos, fun h => absurd (hkind.symm.trans h) Bool.false_ne_true⟩, hbare⟩

theorem Stmt.LedBy.proper {t : Token} {s : Stmt} {kind : Token.Kind} (hk : t.kind = kind)
    (hkind : Token.isWildcard ⟨kind, t.range⟩ = false) (hif : kind ≠ .keyword .if_)
    (hpos : s.pos = t.start) : s.LedBy t := by
  subst hk
  exact ⟨hpos, fun h => absurd (hkind.symm.trans h) Bool.false_ne_true, fun h => absurd h hif⟩

namespace Grammar

open GoSift.Parser GoSift.Token

variable {g : Grammar} {t : Token}

theorem type_bare (hg : g.Leading) (t : Token) : (g .type).From t fun x => x.isBinary = false :=
  .mono (hg .type t) fun _ hx => hx.bare

theorem unary_bare (hg : g.Leading) (t : Token) : (g .unary).From t fun x => x.isBinary = false :=
  .mono (hg .unary t) fun _ hx => hx.bare

theorem name_from : Parser.name.From t (Expr.OperandAt t) := by
  refine .advance fun u => ?_
  split
  · next hk => exact .pure (.proper hk rfl rfl rfl)
  · exact .pure ⟨⟨rfl, fun _ => rfl⟩, rfl⟩
  · exact .throw

theorem typeName_from : (typeName t.start).From t (Expr.OperandAt t) := by
  refine .bind name_from fun x hx _ => .seq fun _ _ => .seq fun _ _ => ?_
  split
  · exact .seq fun _ _ => .seq fun sel _ => .pure ⟨⟨rfl, hx.wildcard⟩, rfl⟩
  · exact .pure hx

theorem typeExpr_from : (typeExpr g).From t (Expr.OperandAt t) := by
  refine .current ?_
  dsimp only
  split
  · exact typeName_from
  · exact typeName_from
  · next hk => exact .seq fun _ _ => .seq fun _ _ => .pure (.proper hk rfl rfl rfl)
  · next hk => exact .seq fun _ _ => .seq fun _ _ => .seq fun _ _ => .pure (.proper hk rfl rfl rfl)
  · next hk =>
    exact .seq fun _ _ => .seq fun _ _ => .seq fun _ _ => .seq fun _ _ => .seq fun _ _ =>
      .pure (.proper hk rfl rfl rfl)
  · next hk => exact .seq fun _ _ => .seq fun _ _ => .seq fun _ _ => .pure (.proper hk rfl rfl rfl)
  · next hk => exact .seq fun _ _ => .seq fun _ _ => .seq fun _ _ => .pure (.proper hk rfl rfl rfl)
  · next hk => exact .seq fun _ _ => .seq fun _ _ => .pure (.proper hk rfl rfl rfl)
  · next hk => exact .seq fun _ _ => .pure (.proper hk rfl rfl rfl)
  · next hk => exact .seq fun _ _ => .pure (.proper hk rfl rfl rfl)
  · next hk => exact .seq fun _ _ => .seq fun _ _ => .seq fun _ _ => .pure (.proper hk rfl rfl rfl)
  · exact .wanted

theorem operand_from : (operand g).From t (Expr.OperandAt t) := by
  refine .current ?_
  dsimp only
  split
  · exact name_from
  · exact name_from
  · next hk => exact .seq fun _ _ => .pure (.proper hk rfl rfl rfl)
  · next hk => exact .seq fun _ _ => .seq fun _ _ => .seq fun _ _ => .pure (.proper hk rfl rfl rfl)
  · next hk =>
    refine .seq fun _ _ => .seq fun _ _ => .seq fun _ _ => ?_
    split
    · exact .seq fun _ _ => .pure (.proper hk rfl rfl rfl)
    · exact .pure (.proper hk rfl rfl rfl)
  iterate 5 exact typeExpr_from
  · exact .wanted

/-! Behind a first operand a tree keeps the operand as its leftmost part. -/

theorem selection_from {x : Expr} : (selection g x).From t fun y => ∀ t', x.OperandAt t' → y.OperandAt t' := by
  refine .seq fun _ _ => ?_
  split
  · exact .pure fun _ hx => ⟨⟨hx.pos, hx.wildcard⟩, rfl⟩
  · exact .pure fun _ hx => ⟨⟨hx.pos, hx.wildcard⟩, rfl⟩
  · refine .seq fun _ _ => ?_
    dsimp only
    exact .ite fun _ _ => .seq fun _ _ => .pure fun _ hx => ⟨⟨hx.pos, hx.wildcard⟩, rfl⟩
  · exact .throw

theorem indexOrSlice_from {x : Expr} :
    (indexOrSlice g x).From t fun y => ∀ t', x.OperandAt t' → y.OperandAt t' := by
  refine .seq fun _ _ => ?_
  dsimp only
  refine .ite fun low _ => .seq fun bounds _ => .seq fun _ _ => ?_
  split
  · exact .pure fun _ hx => ⟨⟨hx.pos, hx.wildcard⟩, rfl⟩
  · exact .throw
  · exact .pure fun _ hx => ⟨⟨hx.pos, hx.wildcard⟩, rfl⟩
  · exact .pure fun _ hx => ⟨⟨hx.pos, hx.wildcard⟩, rfl⟩
  · exact .throw

theorem composite_from {x : Expr} :
    (composite g (some x)).From t fun y => ∀ t', x.OperandAt t' → y.OperandAt t' :=
  .seq fun _ _ => .seq fun _ _ => .seq fun _ _ => .pure fun _ hx => ⟨⟨hx.pos, hx.wildcard⟩, rfl⟩

theorem primaryTail_from (hg : g.Leading) {x : Expr} :
    (primaryTail g x).From t fun y => ∀ t', x.OperandAt t' → y.OperandAt t' := by
  have htail : ∀ y : Expr, (∀ t', x.OperandAt t' → y.OperandAt t') → ∀ u,
      (g (.primaryTail y)).From u fun z => ∀ t', x.OperandAt t' → z.OperandAt t' :=
    fun y hy u => .mono (hg (.primaryTail y) u) fun z hz t' hx => hz t' (hy t' hx)
  refine .seq fun k _ => ?_
  split
  · exact .seq fun _ _ => .bind selection_from htail
  · refine .seq fun _ _ => .bind (Q := fun y => ∀ t', x.OperandAt t' → y.OperandAt t') ?_ htail
    exact .atLevel indexOrSlice_from
  · refine .seq fun _ _ => .seq fun r u => ?_
    obtain ⟨args, spread⟩ := r
    exact htail (.call x.pos x args spread) (fun _ hx => ⟨⟨hx.pos, hx.wildcard⟩, rfl⟩) u
  · refine .seq fun _ _ => ?_
    split
    · exact .bind composite_from htail
    · exact .pure fun _ hx => hx
  · exact .pure fun _ hx => hx

theorem unaryExpr_from (hg : g.Leading) : (unaryExpr g).From t (Expr.OperandAt t) := by
  have hprimary : (do primaryTail g (← operand g) : Parser Expr).From t (Expr.OperandAt t) :=
    .bind operand_from fun x hx _ => .mono (primaryTail_from hg) fun y hy => hy t hx
  refine .current ?_
  dsimp only
  split
  · next hk => exact .seq fun _ _ => .seq fun _ _ => .pure (.proper hk rfl rfl rfl)
  · next hk =>
    split
    · exact hprimary
    · refine .seq fun _ _ => .seq fun _ _ => ?_
      split
      · exact .seq fun _ _ => .seq fun _ _ => .pure (.proper hk rfl rfl rfl)
      · exact .seq fun _ _ => .pure (.proper hk rfl rfl rfl)
  · exact hprimary

theorem binaryTail_from (hg : g.Leading) {least : Nat} {x : Expr} :
    (binaryTail g least x).From t fun y => ∀ t', x.LedBy t' → y.LedBy t' := by
  refine .seq fun k _ => ?_
  split
  · split
    · exact .pure fun _ hx => hx
    · next op _ =>
      split
      · exact .pure fun _ hx => hx
      · refine .seq fun _ _ => .seq fun y u => ?_
        refine .mono (hg (.binaryTail least (.binary x.pos op x y)) u) fun z hz t' hx => ?_
        exact hz t' ⟨hx.pos, hx.wildcard⟩
  · exact .pure fun _ hx => hx

theorem binaryExpr_from (hg : g.Leading) {least : Nat} : (binaryExpr g least).From t (Expr.LedBy t) :=
  .bind (unaryExpr_from hg) fun _ hx _ => .mono (binaryTail_from hg) fun _ hy => hy t hx.toLedBy

theorem exprs_from (hg : g.Leading) :
    (exprs g).From t fun xs => ∃ x rest, xs = x :: rest ∧ x.LedBy t := by
  refine .bind (binaryExpr_from hg) fun x hx _ => .seq fun _ _ => .choice ?_ (.pure ⟨x, [], rfl, hx⟩)
  exact .seq fun xs _ => .pure ⟨x, xs, rfl, hx⟩

theorem single_from {u : Token} {xs : List Expr} : (single u xs).From t fun x => xs = [x] := by
  unfold single
  split
  · exact .pure rfl
  · exact .throw

theorem labeledStmt_from {pos : Position} {label : String} :
    (labeledStmt g pos label).From t fun s => s.pos = pos := by
  refine .seq fun u _ => ?_
  split
  · exact .pure rfl
  · exact .seq fun _ _ => .pure rfl

/-- How a statement begins that is read behind expressions of which the first begins with `t`. -/
theorem simpleTail_from {mode : SimpleMode} {x : Expr} {rest : List Expr} {u : Token} (hx : x.LedBy t) :
    (simpleTail g mode t.start (x :: rest) u).From u
      fun s => s.pos = t.start ∧ (t.isWildcard → s.startsWithWildcard) := by
  unfold simpleTail
  split
  · next heq =>
    cases heq
    refine .seq fun _ _ => .mono labeledStmt_from fun s hs => ⟨hs, fun h => ?_⟩
    cases hx.wildcard h
  · refine .seq fun _ _ => .bind single_from fun y hy _ => .seq fun _ _ => .pure ⟨rfl, fun h => ?_⟩
    cases hy
    exact hx.wildcard h
  · refine .seq fun _ _ => .bind single_from fun y hy _ => .pure ⟨rfl, fun h => ?_⟩
    cases hy
    exact hx.wildcard h
  · refine .seq fun _ _ => .bind single_from fun y hy _ => .pure ⟨rfl, fun h => ?_⟩
    cases hy
    exact hx.wildcard h
  · refine .bind single_from fun y hy _ => .pure ⟨rfl, fun h => ?_⟩
    cases hy
    exact hx.wildcard h

theorem assignment_from {mode : SimpleMode} {x : Expr} {rest : List Expr} {op : AssignOp} {u v : Token}
    (hx : x.LedBy t) : (assignment g mode t.start (x :: rest) u op).From v fun r => ∀ s, r = .stmt s →
      s.pos = t.start ∧ (t.isWildcard → s.startsWithWildcard) := by
  refine .seq fun _ _ => .choice ?_ ?_
  · refine .seq fun _ _ => .choice .throw (.seq fun _ _ => .pure fun s hs => ?_)
    cases hs
  · refine .seq fun rhs _ => .pure fun s hs => ?_
    cases hs
    exact ⟨rfl, hx.wildcard⟩

theorem simple_from (hg : g.Leading) {mode : SimpleMode} :
    (simple g mode).From t fun r => ∀ s, r = .stmt s →
      s.pos = t.start ∧ (t.isWildcard → s.startsWithWildcard) := by
  refine .current ?_
  dsimp only
  split
  · refine .seq fun _ _ => .seq fun _ _ => .pure fun s hs => ?_
    cases hs
  · refine .bind (exprs_from hg) fun lhs hl _ => .current ?_
    obtain ⟨x, rest, rfl, hx⟩ := hl
    split
    · exact .seq fun _ _ => assignment_from hx
    · refine .bind (simpleTail_from hx) fun s hs _ => .pure fun s' hs' => ?_
      cases hs'
      exact hs

theorem simpleStmt_from (hg : g.Leading) {mode : SimpleMode} :
    (simpleStmt g mode).From t fun s => s.pos = t.start ∧ (t.isWildcard → s.startsWithWildcard) := by
  refine .bind (simple_from hg) fun r hr _ => ?_
  split
  · exact .pure (hr _ rfl)
  · exact .throw

theorem block_from : (block g).From t fun s => s.pos = t.start :=
  .here (.seq fun _ _ => .seq fun _ _ => .seq fun _ _ => .pure rfl)

theorem varDecl_from {pos : Position} : (varDecl g pos).From t fun s => s.pos = pos := by
  refine .seq fun names _ => .seq fun _ _ => ?_
  dsimp only
  split
  all_goals exact .seq fun _ _ => .seq fun _ _ => .ite fun _ _ => .pure rfl

theorem condStmt_from {pos : Position} :
    (condStmt g pos).From t fun s => s.pos = pos ∧ s.isCond := by
  refine .seq fun _ _ => .seq fun _ _ => .choice .wanted ?_
  refine .seq fun r _ => .seq fun body _ => .seq fun _ _ => .choice ?_ (.pure ⟨rfl, rfl⟩)
  refine .seq fun _ _ => ?_
  split
  · exact .seq fun _ _ => .pure ⟨rfl, rfl⟩
  · exact .seq fun _ _ => .pure ⟨rfl, rfl⟩
  · exact .wanted

theorem switchStmt_from {pos : Position} : (switchStmt g pos).From t fun s => s.pos = pos := by
  refine .seq fun _ _ => .seq fun r _ => .seq fun _ _ => .seq fun _ _ => .seq fun _ _ =>
    .seq fun _ _ => ?_
  obtain ⟨init, tag⟩ := r
  dsimp only
  split
  · exact .pure rfl
  · split
    · exact .pure rfl
    · split
      · exact .pure rfl
      · exact .throw

theorem loopStmt_from {pos : Position} : (loopStmt g pos).From t fun s => s.pos = pos := by
  refine .seq fun _ _ => .seq fun header _ => .seq fun body _ => ?_
  split
  · exact .pure rfl
  · exact .pure rfl

theorem stmt_from (hg : g.Leading) : (stmt g).From t (Stmt.LedBy t) := by
  refine .current ?_
  dsimp only
  split
  · next hk => exact .seq fun _ _ => .mono varDecl_from fun s hs => .proper hk rfl (by simp) hs
  · next hk => exact .seq fun _ _ => .seq fun _ _ => .pure (.proper hk rfl (by simp) rfl)
  · next hk => exact .seq fun _ _ => .seq fun _ _ => .pure (.proper hk rfl (by simp) rfl)
  · next hk => exact .seq fun _ _ => .seq fun _ _ => .pure (.proper hk rfl (by simp) rfl)
  · next hk =>
    refine .mono condStmt_from fun s hs => ⟨hs.1, fun h => ?_, fun _ => hs.2⟩
    simp [Token.isWildcard, hk] at h
  · next hk => exact .mono switchStmt_from fun s hs => .proper hk rfl (by simp) hs
  · next hk => exact .mono loopStmt_from fun s hs => .proper hk rfl (by simp) hs
  iterate 5 exact .throw
  · next hif _ _ _ _ _ _ _ hk =>
    have hword : Kind.keyword _ ≠ .keyword .if_ := fun h => hif (Kind.keyword.inj h)
    split
    · exact .seq fun _ _ => .seq fun _ _ => .pure (.proper hk rfl hword rfl)
    · exact .mono (simpleStmt_from hg) fun s hs => .proper hk rfl hword hs.1
  · next hk => exact .mono block_from fun s hs => .proper hk rfl (by simp) hs
  · next hk => exact .pure (.proper hk rfl (by simp) rfl)
  · next hif _ _ _ _ _ _ _ _ _ _ =>
    exact .mono (simpleStmt_from hg) fun s hs => ⟨hs.1, hs.2, fun h => (hif h).elim⟩

/-- A grammar that uses a leading one for its parts is leading. -/
theorem leading_step (hg : g.Leading) : (step g).Leading := by
  intro n t
  cases n with
  | binary least => exact binaryExpr_from hg
  | binaryTail least x => exact binaryTail_from hg
  | unary => exact unaryExpr_from hg
  | primaryTail x => exact primaryTail_from hg
  | type => exact typeExpr_from
  | stmt => exact stmt_from hg
  | _ => exact fun _ _ _ _ _ => trivial

theorem leading_bounded (n : Nat) : (bounded n).Leading := by
  induction n with
  | zero =>
    intro n t c a c' _ h
    cases h
  | succ n ih => exact leading_step ih

end Grammar

end GoSift
