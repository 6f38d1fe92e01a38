import GoSift.Proofs.Syntax.Forward
import GoSift.Proofs.Syntax.Grouping
import GoSift.Proofs.Syntax.Regular
import GoSift.Proofs.Syntax.Shape
import GoSift.Proofs.Token.Scans

/-!
What the parser does with its tokens. Whatever it reads is regular and has the shape of the grammar, and
its names, labels and literals are among the tokens. Where it fails is one of the tokens, or the start of
one.
-/
namespace GoSift

/-- What holds of a node of a tree that is parsed from tokens in `I`. -/
def Node.LocalIn (I : Token.Kind → Prop) : Node → Prop
  | .expr (.ident _ name) => I (.ident name)
  | .expr (.wildcard _ name any) => I (.wildcard name any)
  | .expr (.lit _ kind text) => I (.literal kind text)
  | .expr (.star _ x) | .expr (.unary _ _ x) => x.isBinary = false
  | .expr (.binary _ op x y) => op.precedence ≤ x.tightness ∧ op.precedence < y.tightness
  | .stmt (.branch _ _ label) => ∀ name ∈ label, I (.ident name)
  | .stmt (.labeled _ label _) => I (.ident label)
  | n => n.Local

section

variable {I : Token.Kind → Prop}

instance Node.onTrees_localIn : OnTrees (LocalIn I) :=
  ⟨fun _ => trivial, fun _ => trivial, fun _ => trivial, fun _ => trivial⟩

theorem Node.LocalIn.mono {J : Token.Kind → Prop} (hIJ : ∀ k, I k → J k) {n : Node} (h : n.LocalIn I) :
    n.LocalIn J := by
  unfold LocalIn at h ⊢
  split at h
  all_goals first | exact hIJ _ h | exact fun name hname => hIJ _ (h name hname) | assumption

theorem Node.LocalIn.local {n : Node} (h : n.LocalIn I) : n.Local := by
  unfold LocalIn at h
  split at h
  all_goals trivial

variable (I)

abbrev Expr.RegularIn (x : Expr) : Prop := x.Each (Node.LocalIn I)

abbrev Field.RegularIn (f : Field) : Prop := f.Each (Node.LocalIn I)

abbrev Stmt.RegularIn (s : Stmt) : Prop := s.Each (Node.LocalIn I)

/-- Every part of a function is as the parser makes it from tokens in `I`. -/
abbrev Func.RegularIn (f : Func) : Prop := f.Each (Node.LocalIn I)

variable {I}

theorem Func.RegularIn.headed {f : Func} (h : f.RegularIn I) : f.Headed :=
  fun n hn => (h n hn).local.headed

end

section

variable {I : Token.Kind → Prop}

theorem Expr.RegularIn.node {x : Expr} (h : (Node.expr x).LocalIn I)
    (hparts : x.PartsEach (Node.LocalIn I)) : x.RegularIn I :=
  Expr.each_iff.mpr ⟨h, hparts⟩

theorem Stmt.RegularIn.node {s : Stmt} (h : (Node.stmt s).LocalIn I)
    (hparts : s.PartsEach (Node.LocalIn I)) : s.RegularIn I :=
  Stmt.each_iff.mpr ⟨h, hparts⟩

end

namespace Token

variable (I : Token → Prop)

/-- Whether a token in `I` is of a kind. -/
def KindIn (kind : Kind) : Prop :=
  ∃ t, I t ∧ t.kind = kind

/-- Whether a token in `I` starts at a place. -/
def StartIn (p : Position) : Prop :=
  ∃ t, I t ∧ p = t.start

/-- The ranges of tokens in `I` and of their starts. -/
inductive RangeIn : Range → Prop
  | token {t : Token} (h : I t) : RangeIn t.range
  | start {t : Token} (h : I t) : RangeIn (.point t.start)

end Token

open Token (KindIn StartIn RangeIn)
open Token.Kind (Allowed)

/-- The tokens at the cursor and behind it are in `I`. -/
def Cursor.Within (I : Token → Prop) (c : Cursor) : Prop :=
  ∀ t ∈ c.tokens, I t

theorem Cursor.within_ofTokens {I : Token → Prop} {ts : List Token} (hne : ts ≠ [])
    (h : ∀ t ∈ ts, I t) : (Cursor.ofTokens ts).Within I := by
  cases ts with
  | nil => exact absurd rfl hne
  | cons => exact h

theorem all_left {α γ : Type} [Membership α γ] {s : γ} {P S : α → Prop} (h : ∀ a ∈ s, P a ∧ S a) :
    ∀ a ∈ s, P a :=
  fun a ha => (h a ha).1

theorem all_right {α γ : Type} [Membership α γ] {s : γ} {P S : α → Prop}
    (h : ∀ a ∈ s, P a ∧ S a) : ∀ a ∈ s, S a :=
  fun a ha => (h a ha).2

theorem all_some {α : Type} {a : α} {P : α → Prop} (h : P a) : ∀ b ∈ some a, P b :=
  fun _ hb => Option.mem_some.mp hb ▸ h

namespace Parser

/-- What a parser for tokens in `I` has come to: a result of which `Q` holds, or a failure at a token. -/
def Outcome {α : Type} (I : Token → Prop) (Q : α → Prop) : EStateM.Result ParseError Cursor α → Prop
  | .ok a c => c.Within I ∧ Q a
  | .error e _ => RangeIn I e.range

/-- What a parser does at the token `t`, for tokens in `I`. -/
def YieldsAt {α : Type} (p : Parser α) (t : Token) (I : Token → Prop) (Q : α → Prop) : Prop :=
  ∀ c, c.current = t → c.Within I → Outcome I Q (p c)

/-- What a parser does, for tokens in `I`. -/
def Yields {α : Type} (p : Parser α) (I : Token → Prop) (Q : α → Prop) : Prop :=
  ∀ t, p.YieldsAt t I Q

variable {α β : Type} {p : Parser α} {I : Token → Prop} {t : Token} {Q : α → Prop} {R : β → Prop}

theorem YieldsAt.bind {f : α → Parser β} (hp : p.YieldsAt t I Q) (hf : ∀ a, Q a → (f a).Yields I R) :
    (p >>= f).YieldsAt t I R := by
  intro c hc hin
  have hfirst := hp c hc hin
  change Outcome I R (EStateM.bind p f c)
  simp only [EStateM.bind]
  cases hr : p c with
  | ok a c' =>
    rw [hr] at hfirst
    exact hf a hfirst.2 _ c' rfl hfirst.1
  | error e c' =>
    rw [hr] at hfirst
    exact hfirst

theorem YieldsAt.led {Q' : α → Prop} (hp : p.Yields I Q) (hq : p.From t Q') :
    p.YieldsAt t I fun a => Q a ∧ Q' a := by
  intro c hc hin
  have hread := hp t c hc hin
  cases hr : p c with
  | ok a c' =>
    rw [hr] at hread
    exact ⟨hread.1, hread.2, hq c a c' hc hr⟩
  | error e c' =>
    rw [hr] at hread
    exact hread

namespace Yields

theorem any [Forward p] : p.Yields I fun _ => True := by
  intro t c _ hin
  cases hr : p c with
  | ok a c' => exact ⟨fun t ht => hin t ((Forward.suffix hr).subset ht), trivial⟩
  | error e c' =>
    obtain ⟨t, ht, hrange⟩ := Forward.blames hr
    rw [Outcome, hrange]
    exact .token (hin t ht)

theorem advance : Parser.advance.Yields I I :=
  fun _ c _ hin => ⟨fun t ht => hin t (c.tokens_next_suffix.subset ht), hin _ List.mem_cons_self⟩

theorem current : Parser.current.Yields I I :=
  fun _ _ _ hin => ⟨hin, hin _ List.mem_cons_self⟩

theorem kind : Parser.kind.Yields I (KindIn I) :=
  fun _ c _ hin => ⟨hin, c.current, hin _ List.mem_cons_self, rfl⟩

theorem here : Parser.here.Yields I (StartIn I) :=
  fun _ c _ hin => ⟨hin, c.current, hin _ List.mem_cons_self, rfl⟩

theorem expectSymbol {sym : Symbol} : (Parser.expectSymbol sym).Yields I I := by
  intro t c hc hin
  unfold Parser.expectSymbol Parser.expect
  split
  · exact advance t c hc hin
  · exact .token (hin _ List.mem_cons_self)

theorem pure {a : α} (h : Q a) : (Pure.pure a : Parser α).Yields I Q :=
  fun _ _ _ hin => ⟨hin, h⟩

theorem throw {e : ParseError} (h : RangeIn I e.range) : (throw e : Parser α).Yields I Q :=
  fun _ _ _ _ => h

theorem wanted {what : Expectation} : (Parser.wanted what : Parser α).Yields I Q :=
  fun _ _ _ hin => .token (hin _ List.mem_cons_self)

theorem bind {f : α → Parser β} (hp : p.Yields I Q) (hf : ∀ a, Q a → (f a).Yields I R) :
    (p >>= f).Yields I R :=
  fun t => (hp t).bind hf

/-- A step that looks at the token and leaves it there. -/
theorem peek {f : Token.Kind → Parser β} (hf : ∀ t, I t → (f t.kind).YieldsAt t I R) :
    (Parser.kind >>= f).Yields I R :=
  fun _ c _ hin => hf c.current (hin _ List.mem_cons_self) c rfl hin

theorem mono {Q' : α → Prop} (h : p.Yields I Q) (hq : ∀ a, Q a → Q' a) : p.Yields I Q' := by
  rw [← bind_pure p]
  exact bind h fun a ha => pure (hq a ha)

/-- What holds of the results whatever the tokens are, besides. -/
theorem also {Q' : α → Prop} (h : p.Yields I Q) (hq : ∀ t, p.From t Q') :
    p.Yields I fun a => Q a ∧ Q' a :=
  fun t => .led h (hq t)

/-- What is read begins with the token at which it is read. -/
theorem led {Q' : Token → α → Prop} (h : p.Yields I Q) (hq : ∀ t, p.From t (Q' t)) :
    p.Yields I fun a => Q a ∧ ∃ t, I t ∧ Q' t a := by
  intro t c hc hin
  have hread := YieldsAt.led h (hq t) c hc hin
  have ht : I t := hc ▸ hin _ List.mem_cons_self
  cases hr : p c with
  | ok a c' =>
    rw [hr] at hread
    exact ⟨hread.1, hread.2.1, t, ht, hread.2.2⟩
  | error e c' =>
    rw [hr] at hread
    exact hread

/-- A step whose result does not matter. -/
theorem seq [Forward p] {f : α → Parser β} (hf : ∀ a, (f a).Yields I R) : (p >>= f).Yields I R :=
  bind any fun a _ => hf a

theorem map {f : α → β} (hp : p.Yields I Q) (hf : ∀ a, Q a → R (f a)) : (f <$> p).Yields I R := by
  rw [← bind_pure_comp]
  exact bind hp fun a ha => pure (hf a ha)

/-- What may be left out, if it is there. -/
theorem some (hp : p.Yields I Q) : (some <$> p).Yields I fun x => ∀ a ∈ x, Q a :=
  map hp fun _ => all_some

theorem choice {c : Prop} [Decidable c] {p' : Parser α} (hp : p.Yields I Q) (hp' : p'.Yields I Q) :
    (if c then p else p').Yields I Q := by
  split
  · exact hp
  · exact hp'

/-- A choice between two ways to read one part of a whole. -/
theorem ite {c : Prop} [Decidable c] {p' : Parser α} {f : α → Parser β} (hp : p.Yields I Q)
    (hp' : p'.Yields I Q) (hf : ∀ a, Q a → (f a).Yields I R) :
    (if c then p >>= f else p' >>= f).Yields I R :=
  choice (bind hp hf) (bind hp' hf)

/-- A list from its first item on, which goes on behind a separator. -/
theorem series {sym : Symbol} {a : α} {rest : Parser (List α)} (ha : Q a)
    (hr : rest.Yields I fun as => ∀ b ∈ as, Q b) :
    (do if ← eatSymbol sym then return a :: (← rest) else return [a] : Parser (List α)).Yields I
      fun as => as ≠ [] ∧ ∀ b ∈ as, Q b := by
  refine seq fun _ => ?_
  split
  · exact bind hr fun as has => pure ⟨List.cons_ne_nil a as, List.forall_mem_cons.mpr ⟨ha, has⟩⟩
  · exact pure ⟨List.cons_ne_nil a [], List.forall_mem_singleton.mpr ha⟩

theorem atLevel {enter : Int → Int} {leave : Int → Int → Int} (hp : p.Yields I Q) :
    (Parser.atLevel enter leave p).Yields I Q := by
  intro t c hc hin
  have hinner := hp t { c with level := enter c.level } hc hin
  unfold Parser.atLevel
  cases hr : p { c with level := enter c.level } with
  | ok a c' =>
    rw [hr] at hinner
    exact hinner
  | error e c' =>
    rw [hr] at hinner
    exact hinner

end Yields

end Parser

section

variable (w : Bool) (I : Token → Prop)

/-- An expression as it is parsed from tokens in `I`: it is regular, and shaped as one. -/
abbrev Expr.Parsed (x : Expr) : Prop := x.RegularIn (KindIn I) ∧ x.Shaped w

abbrev Expr.ParsedName (x : Expr) : Prop := x.RegularIn (KindIn I) ∧ x.isName

abbrev Expr.ParsedElement (x : Expr) : Prop := x.RegularIn (KindIn I) ∧ x.ShapedElement w

abbrev Expr.ParsedValue (x : Expr) : Prop := x.RegularIn (KindIn I) ∧ x.ShapedValue w

abbrev Expr.ParsedParam (x : Expr) : Prop := x.RegularIn (KindIn I) ∧ x.ShapedParam w

/-- A parsed entry of a parameter list. -/
abbrev ParsedEntry (entry : Expr × Option Expr) : Prop :=
  (entry.1.ParsedParam w I ∧ StartIn I entry.1.pos) ∧ ∀ t ∈ entry.2, t.ParsedParam w I

abbrev Field.Parsed (f : Field) : Prop := f.RegularIn (KindIn I) ∧ f.Shaped w

abbrev Field.ParsedParams (fs : List Field) : Prop :=
  (∀ f ∈ fs, f.RegularIn (KindIn I)) ∧ Field.ShapedParams w fs

abbrev Stmt.Parsed (s : Stmt) : Prop := s.RegularIn (KindIn I) ∧ s.Shaped w

/-- A statement that may stand in a header. -/
abbrev Stmt.ParsedSimple (s : Stmt) : Prop := s.Parsed w I ∧ s.isSimple

abbrev Stmt.ParsedBlock (s : Stmt) : Prop := s.Parsed w I ∧ s.isBlock

abbrev Stmt.ParsedClause (s : Stmt) : Prop := s.RegularIn (KindIn I) ∧ s.ShapedClause w

abbrev Func.Parsed (f : Func) : Prop := f.RegularIn (KindIn I) ∧ f.Shaped w

/-- A range clause as it is parsed. -/
structure RangeClause.Parsed (c : RangeClause) : Prop where
  pos : StartIn I c.pos
  key : ∀ y ∈ c.key, y.Parsed w I
  value : ∀ y ∈ c.value, y.Parsed w I
  x : c.x.Parsed w I
  vars : c.key.isNone → c.value.isNone ∧ c.define = false

/-- A simple statement as it is parsed, or the range clause in its place. -/
def Simple.Parsed (mode : SimpleMode) : Simple → Prop
  | stmt s => s.Parsed w I ∧ (mode ≠ .labeled → s.isSimple)
  | range clause => clause.Parsed w I

/-- The header of a loop as it is parsed. -/
def LoopHeader.Parsed : LoopHeader → Prop
  | clauses init test post =>
    (∀ s ∈ init, s.ParsedSimple w I) ∧ (∀ x ∈ test, x.Parsed w I) ∧ ∀ s ∈ post, s.ParsedSimple w I
  | range clause => clause.Parsed w I

/-- What holds of every tree that a nonterminal reads. Whether operands are grouped is seen only when all
of them are read. -/
def Nonterminal.Parsed : (n : Nonterminal) → n.Tree → Prop
  | binary _ | unary | primaryTail _ | type => Expr.Parsed w I
  | binaryTail _ _ => fun x => (x.Grouped → x.RegularIn (KindIn I)) ∧ x.Shaped w
  | exprs => fun xs => xs ≠ [] ∧ ∀ x ∈ xs, x.Parsed w I
  | names => fun xs => xs ≠ [] ∧ ∀ x ∈ xs, x.ParsedName I
  | args => fun r => ∀ x ∈ r.1, x.Parsed w I
  | elements => fun xs => ∀ x ∈ xs, x.ParsedElement w I
  | params => fun entries => ∀ entry ∈ entries, ParsedEntry w I entry
  | fields | methods => fun fs => ∀ f ∈ fs, f.Parsed w I
  | stmt => Stmt.Parsed w I
  | stmts => fun ss => ∀ s ∈ ss, s.Parsed w I
  | clauses => fun ss => ∀ s ∈ ss, s.ParsedClause w I
  | importSpecs | imports => fun _ => True
  | funcs | decls => fun fs => ∀ f ∈ fs, f.Parsed w I

/-- What holds of the tree with which a nonterminal begins. -/
def Nonterminal.Begun : Nonterminal → Prop
  | binaryTail _ x => (x.Grouped → x.RegularIn (KindIn I)) ∧ x.Shaped w
  | primaryTail x => x.Parsed w I
  | _ => True

/-- A grammar that reads trees as they should be from tokens in `I`. -/
structure Grammar.Sound (g : Grammar) : Prop extends g.Climbs where
  allowed : ∀ t, I t → t.kind.Allowed w
  yields : ∀ n : Nonterminal, n.Begun w I → (g n).Yields I (n.Parsed w I)

end

namespace Grammar

open GoSift.Parser

variable {g : Grammar} {w : Bool} {I : Token → Prop}

attribute [local simp] Nonterminal.Parsed

/-! ### Parts that do not use the grammar -/

theorem name_yields : Parser.name.Yields I (Expr.ParsedName I) := by
  refine .bind .advance fun t ht => ?_
  split
  · next hk => exact .pure ⟨.node ⟨t, ht, hk⟩ trivial, rfl⟩
  · next hk => exact .pure ⟨.node ⟨t, ht, hk⟩ trivial, rfl⟩
  · exact .throw (.token ht)

theorem typeName_yields {start : Position} : (typeName start).Yields I (Expr.Parsed w I) := by
  refine .bind name_yields fun x hx => .seq fun _ => .seq fun _ => ?_
  split
  · exact .seq fun _ => .bind name_yields fun sel hsel =>
      .pure ⟨.node trivial ⟨hx.1, hsel.1⟩, .selector (.of_isName hx.2) hsel.2⟩
  · exact .pure ⟨hx.1, .of_isName hx.2⟩

theorem bracedFields_yields {entries : Parser (List Field)} {Q : List Field → Prop}
    (h : entries.Yields I Q) : (bracedFields entries).Yields I Q :=
  .seq fun _ => .seq fun _ => .bind h fun _ hf => .seq fun _ => .pure hf

theorem single_yields {t : Token} (ht : I t) {xs : List Expr} (hxs : ∀ x ∈ xs, x.Parsed w I) :
    (single t xs).Yields I (Expr.Parsed w I) := by
  unfold single
  split
  · exact .pure (List.forall_mem_singleton.mp hxs)
  · exact .throw (.token ht)

theorem branchLabel_yields :
    branchLabel.Yields I fun label => ∀ name ∈ label, KindIn I (.ident name) := by
  refine .bind .kind fun k hk => ?_
  split
  · exact .seq fun _ => .pure (by simpa using hk)
  · exact .pure (by simp)

theorem groupParams_parsed {close : Range} {names : List Expr} {entries : List (Expr × Option Expr)}
    {fields : List Field} (h : groupParams close names entries = .ok fields)
    (hn : ∀ x ∈ names, x.ParsedName I) (he : ∀ entry ∈ entries, ParsedEntry w I entry) :
    ∀ f ∈ fields, f.RegularIn (KindIn I) ∧ f.names ≠ [] ∧ (∀ x ∈ f.names, x.isName) ∧
      f.type.ShapedParam w := by
  induction entries generalizing names fields with
  | nil =>
    cases names with
    | nil =>
      cases h
      simp
    | cons _ _ => cases h
  | cons entry entries ih =>
    obtain ⟨name, type⟩ := entry
    obtain ⟨⟨⟨hname, -⟩, htype⟩, hrest⟩ := List.forall_mem_cons.mp he
    simp only [groupParams] at h
    split at h
    · cases h
    · next hshape =>
      have hisName : name.isName := by
        cases name with
        | ident | wildcard => rfl
        | _ => exact absurd rfl hshape
      have hnames : ∀ x ∈ names ++ [name], x.ParsedName I :=
        List.forall_mem_append.mpr ⟨hn, List.forall_mem_singleton.mpr ⟨hname.1, hisName⟩⟩
      cases type with
      | none => exact ih h hnames hrest
      | some type =>
        simp only [Except.map] at h
        split at h
        · cases h
        · next hgroup =>
          cases h
          obtain ⟨htype, hshaped⟩ := htype type rfl
          refine List.forall_mem_cons.mpr ⟨⟨?_, ?_, all_right hnames, hshaped⟩, ih hgroup (by simp) hrest⟩
          · exact Field.each_iff.mpr ⟨all_left hnames, htype⟩
          · exact List.append_ne_nil_of_right_ne_nil _ (List.cons_ne_nil _ _)

theorem paramFields_parsed {close : Range} {entries : List (Expr × Option Expr)}
    {fields : List Field} (h : paramFields close entries = .ok fields)
    (he : ∀ entry ∈ entries, ParsedEntry w I entry) : Field.ParsedParams w I fields := by
  unfold paramFields at h
  split at h
  · have hfields := groupParams_parsed h (by simp) he
    exact ⟨all_left hfields, .mk (.inr fun f hf => (hfields f hf).2.1)
      (fun f hf => (hfields f hf).2.2.1) fun f hf => (hfields f hf).2.2.2⟩
  · cases h
    have hfields : ∀ f ∈ entries.map fun entry => Field.mk entry.1.pos [] entry.1,
        f.RegularIn (KindIn I) ∧ f.names = [] ∧ f.type.ShapedParam w := by
      intro f hf
      obtain ⟨entry, hentry, rfl⟩ := List.mem_map.mp hf
      obtain ⟨⟨⟨hregular, hshaped⟩, -⟩, -⟩ := he entry hentry
      exact ⟨Field.each_iff.mpr ⟨by simp, hregular⟩, rfl, hshaped⟩
    refine ⟨all_left hfields, .mk (.inl fun f hf => (hfields f hf).2.1) (fun f hf x hx => ?_)
      fun f hf => (hfields f hf).2.2⟩
    rw [(hfields f hf).2.1] at hx
    cases hx

theorem groupParams_range {close : Range} (hclose : RangeIn I close) {names : List Expr}
    {entries : List (Expr × Option Expr)} (he : ∀ entry ∈ entries, StartIn I entry.1.pos)
    {e : ParseError} (h : groupParams close names entries = .error e) : RangeIn I e.range := by
  induction entries generalizing names with
  | nil =>
    cases names <;> cases h
    exact hclose
  | cons entry entries ih =>
    obtain ⟨name, type⟩ := entry
    obtain ⟨⟨t, ht, hpos⟩, hrest⟩ := List.forall_mem_cons.mp he
    simp only [groupParams] at h
    split at h
    · cases h
      change RangeIn I (.point name.pos)
      rw [hpos]
      exact .start ht
    · cases type with
      | none => exact ih hrest h
      | some type =>
        simp only [Except.map] at h
        split at h <;> cases h
        next hgroup => exact ih hrest hgroup

theorem noParams_parsed : Field.ParsedParams w I [] :=
  ⟨by simp, .mk (.inl (by simp)) (by simp) (by simp)⟩

variable (hg : g.Sound w I)
include hg

theorem expr_yields : g.expr.Yields I (Expr.Parsed w I) :=
  hg.yields (.binary 1) trivial

theorem type_yields : (g .type).Yields I (Expr.Parsed w I) :=
  hg.yields .type trivial

/-! ### Types -/

theorem paramList_yields : (paramList g).Yields I (Field.ParsedParams w I) := by
  refine .seq fun _ => .bind (hg.yields .params trivial) fun entries he =>
    .bind .expectSymbol fun close hclose => ?_
  split
  · next h => exact .pure (paramFields_parsed h he)
  · next h =>
    unfold paramFields at h
    split at h
    · exact .throw (groupParams_range (.token hclose) (fun entry hm => (he entry hm).1.2) h)
    · cases h

theorem signature_yields : (signature g).Yields I
    fun r => Field.ParsedParams w I r.1 ∧ Field.ParsedParams w I r.2 := by
  refine .bind (paramList_yields hg) fun params hp => .seq fun t => ?_
  split
  · exact .bind (paramList_yields hg) fun results hr => .pure ⟨hp, hr⟩
  · split
    · refine .bind (type_yields hg) fun type ht => .pure ⟨hp, ?_, .mk (.inl ?_) ?_ ?_⟩
      · exact List.forall_mem_singleton.mpr (Field.each_iff.mpr ⟨by simp, ht.1⟩)
      · simp [Field.names]
      · simp [Field.names]
      · exact List.forall_mem_singleton.mpr (.type ht.2)
    · exact .pure ⟨hp, noParams_parsed⟩

omit hg in
theorem funcType_parsed {pos : Position} {params results : List Field}
    (h : Field.ParsedParams w I params ∧ Field.ParsedParams w I results) :
    (Expr.funcType pos params results).Parsed w I :=
  ⟨.node trivial ⟨h.1.1, h.2.1⟩, .funcType h.1.2 h.2.2⟩

/-- What is read as a length makes an array type. -/
theorem arrayLength_yields : (arrayLength g).Yields I
    fun len => ∀ pos elem, elem.Parsed w I → (Expr.arrayType pos len elem).Parsed w I := by
  refine .seq fun _ => ?_
  split
  · exact .pure fun _ _ he => ⟨.node trivial ⟨by simp, he.1⟩, .sliceType he.2⟩
  · refine .seq fun t => ?_
    have hrest : ∀ len : Expr, (∀ pos elem, elem.Parsed w I →
        (Expr.arrayType pos (some len) elem).Parsed w I) →
        (do let _ ← expectSymbol .rBracket; return some len : Parser (Option Expr)).Yields I
          fun len => ∀ pos elem, elem.Parsed w I → (Expr.arrayType pos len elem).Parsed w I :=
      fun len hl => .seq fun _ => .pure hl
    dsimp only
    split
    · refine .seq fun _ => .bind (.pure fun pos elem he => ⟨.node trivial ⟨?_, he.1⟩, ?_⟩) hrest
      · exact all_some (Expr.RegularIn.node trivial (by simp [Expr.PartsEach]))
      · exact .openArrayType he.2
    · exact .bind (.atLevel (expr_yields hg)) fun len hl => hrest len fun _ _ he =>
        ⟨.node trivial ⟨all_some hl.1, he.1⟩, .arrayType hl.2 he.2⟩

theorem typeExpr_yields : (typeExpr g).Yields I (Expr.Parsed w I) := by
  have htype := type_yields hg
  refine .seq fun t => ?_
  dsimp only
  split
  · exact typeName_yields
  · exact typeName_yields
  · exact .seq fun _ => .bind (.also htype (type_bare hg.leading)) fun x hx =>
      .pure ⟨.node hx.2 hx.1.1, .star hx.1.2⟩
  · exact .seq fun _ => .bind (arrayLength_yields hg) fun len hl => .bind htype fun x hx =>
      .pure (hl _ x hx)
  · exact .seq fun _ => .seq fun _ => .bind htype fun key hk => .seq fun _ => .bind htype fun x hx =>
      .pure ⟨.node trivial ⟨hk.1, hx.1⟩, .mapType hk.2 hx.2⟩
  · exact .seq fun _ => .seq fun _ => .bind htype fun x hx =>
      .pure ⟨.node trivial hx.1, .chanType hx.2⟩
  · exact .seq fun _ => .seq fun _ => .bind htype fun x hx =>
      .pure ⟨.node trivial hx.1, .chanType hx.2⟩
  · exact .seq fun _ => .bind (signature_yields hg) fun r hr => .pure (funcType_parsed hr)
  · exact .bind (bracedFields_yields (hg.yields .fields trivial)) fun fs hf =>
      .pure ⟨.node trivial (all_left hf), .structType (all_right hf)⟩
  · exact .bind (bracedFields_yields (hg.yields .methods trivial)) fun fs hf =>
      .pure ⟨.node trivial (all_left hf), .interfaceType (all_right hf)⟩
  · exact .seq fun _ => .bind htype fun x hx => .seq fun _ =>
      .pure ⟨.node trivial hx.1, .paren hx.2⟩
  · exact .wanted

theorem paramType_yields :
    (paramType g).Yields I fun x => x.ParsedParam w I ∧ StartIn I x.pos := by
  refine .bind .current fun t ht => ?_
  split
  · exact .seq fun _ => .bind (type_yields hg) fun x hx =>
      .pure ⟨⟨.node trivial (all_some hx.1), .variadic hx.2⟩, t, ht, rfl⟩
  · refine .mono (.led (typeExpr_yields hg) fun _ => typeExpr_from) ?_
    exact fun _ ⟨hx, u, hu, hled⟩ => ⟨⟨hx.1, .type hx.2⟩, u, hu, hled.pos⟩

theorem params_yields : (params g).Yields I (Nonterminal.Parsed w I .params) := by
  refine .seq fun _ => .choice (.pure (by simp)) ?_
  refine .bind (paramType_yields hg) fun first hf => .seq fun k => ?_
  have hsecond : (some <$> paramType g).Yields I fun second => ∀ t ∈ second, t.ParsedParam w I :=
    .mono (.some (paramType_yields hg)) fun _ => all_left
  dsimp only
  exact .ite (.pure (by simp)) hsecond fun second hs =>
    .mono (.series ⟨hf, hs⟩ (hg.yields .params trivial)) fun _ h => h.2

theorem names_yields : (names g).Yields I (Nonterminal.Parsed w I .names) :=
  .bind name_yields fun _ hx => .series hx (.mono (hg.yields .names trivial) fun _ h => h.2)

theorem structField_yields : (structField g).Yields I (Field.Parsed w I) := by
  have hfield : ∀ {pos names type}, (∀ x ∈ names, Expr.Parsed w I x) → type.Parsed w I →
      (Field.mk pos names type).Parsed w I := fun hn ht =>
    ⟨Field.each_iff.mpr ⟨all_left hn, ht.1⟩, .mk (all_right hn) ht.2⟩
  refine .seq fun _ => .bind (typeExpr_yields hg) fun first hf => .seq fun _ => ?_
  split
  · refine .bind (hg.yields .names trivial) fun xs hxs => .bind (type_yields hg) fun type ht =>
      .pure (hfield (List.forall_mem_cons.mpr ⟨hf, fun x hx => ?_⟩) ht)
    exact ⟨(hxs.2 x hx).1, .of_isName (hxs.2 x hx).2⟩
  · refine .seq fun k => ?_
    split
    · exact .pure (hfield (by simp) hf)
    · exact .bind (type_yields hg) fun type ht =>
        .pure (hfield (List.forall_mem_singleton.mpr hf) ht)

theorem fields_yields : (fields g).Yields I (Nonterminal.Parsed w I .fields) := by
  refine .seq fun _ => .choice (.pure (by simp)) ?_
  refine .bind (structField_yields hg) fun field hf => .seq fun _ => ?_
  have hmore := hg.yields .fields trivial
  exact .choice (.seq fun _ => .mono (.series hf hmore) fun _ h => h.2)
    (.mono (.series hf hmore) fun _ h => h.2)

theorem method_yields : (method g).Yields I (Field.Parsed w I) := by
  refine .seq fun t => .seq fun _ => .choice ?_ ?_
  · refine .bind name_yields fun x hx => .bind (signature_yields hg) fun r hr => .pure ?_
    have htype : (Expr.funcType t.start r.1 r.2).Parsed w I := funcType_parsed hr
    exact ⟨Field.each_iff.mpr ⟨List.forall_mem_singleton.mpr hx.1, htype.1⟩,
      .mk (List.forall_mem_singleton.mpr (.of_isName hx.2)) htype.2⟩
  · exact .bind (typeExpr_yields hg) fun type ht =>
      .pure ⟨Field.each_iff.mpr ⟨by simp, ht.1⟩, .mk (by simp) ht.2⟩

theorem methods_yields : (methods g).Yields I (Nonterminal.Parsed w I .methods) := by
  refine .seq fun _ => .choice (.pure (by simp)) ?_
  exact .bind (method_yields hg) fun field hf =>
    .mono (.series hf (hg.yields .methods trivial)) fun _ h => h.2

/-! ### Expressions -/

theorem block_yields : (block g).Yields I (Stmt.ParsedBlock w I) :=
  .seq fun _ => .seq fun _ => .bind (hg.yields .stmts trivial) fun _ hss => .seq fun _ =>
    .pure ⟨⟨.node trivial (all_left hss), .block (all_right hss)⟩, rfl⟩

theorem optExpr_yields : (some <$> g.expr).Yields I fun x => ∀ y ∈ x, y.Parsed w I :=
  .some (expr_yields hg)

theorem sliceBound_yields : (sliceBound g).Yields I fun x => ∀ y ∈ x, y.Parsed w I :=
  .seq fun _ => .choice (.pure (by simp)) (optExpr_yields hg)

theorem sliceBounds_yields :
    (sliceBounds g).Yields I fun xs => ∀ x ∈ xs, ∀ y ∈ x, y.Parsed w I := by
  refine .seq fun _ => ?_
  split
  · refine .bind (sliceBound_yields hg) fun high hh => .seq fun _ => ?_
    split
    · refine .bind (sliceBound_yields hg) fun max hm => .pure ?_
      exact List.forall_mem_cons.mpr ⟨hh, List.forall_mem_singleton.mpr hm⟩
    · exact .pure (List.forall_mem_singleton.mpr hh)
  · exact .pure (by simp)

theorem indexOrSlice_yields {x : Expr} (hx : x.Parsed w I) :
    (indexOrSlice g x).Yields I (Expr.Parsed w I) := by
  refine .seq fun _ => ?_
  dsimp only
  refine .ite (.pure (by simp)) (optExpr_yields hg) fun low (hl : ∀ y ∈ low, y.Parsed w I) =>
    .bind (sliceBounds_yields hg) fun bounds hb => .bind .expectSymbol fun close hclose => ?_
  have hslice : ∀ (high max : Option Expr), (∀ y ∈ high, y.Parsed w I) → (∀ y ∈ max, y.Parsed w I) →
      (max.isSome → high.isSome) → (Expr.slice x.pos x low high max max.isSome).Parsed w I :=
    fun high max hh hm hbound => ⟨.node ⟨rfl, hbound⟩ ⟨hx.1, all_left hl, all_left hh, all_left hm⟩,
      .slice hx.2 (all_right hl) (all_right hh) (all_right hm) Iff.rfl hbound⟩
  split
  · exact .pure ⟨.node trivial ⟨hx.1, (hl _ rfl).1⟩, .index hx.2 (hl _ rfl).2⟩
  · exact .throw (.token hclose)
  · exact .pure (hslice _ none (hb _ (by simp)) (by simp) (by simp))
  · exact .pure (hslice _ (some _) (hb _ (by simp)) (hb _ (by simp)) (by simp))
  · exact .throw (.token hclose)

/-- A literal, of whose elements the rest follows. -/
theorem composite_yields {type : Option Expr} {Q : Expr → Prop}
    (h : ∀ pos elts, (∀ x ∈ elts, x.ParsedElement w I) → Q (.composite pos type elts)) :
    (composite g type).Yields I Q :=
  .seq fun _ => .bind (.atLevel (hg.yields .elements trivial)) fun elts he => .seq fun _ =>
    .pure (h _ elts he)

theorem funcOperand_yields {pos : Position} : (funcOperand g pos).Yields I (Expr.Parsed w I) := by
  refine .seq fun _ => .bind (signature_yields hg) fun r hr => .seq fun _ => ?_
  split
  · exact .bind (.atLevel (block_yields hg)) fun body hb =>
      .pure ⟨.node trivial ⟨hr.1.1, hr.2.1, hb.1.1⟩, .funcLit hr.1.2 hr.2.2 hb.2 hb.1.2⟩
  · exact .pure (funcType_parsed hr)

theorem operand_yields : (operand g).Yields I (Expr.Parsed w I) := by
  have hname : Parser.name.Yields I (Expr.Parsed w I) :=
    .mono name_yields fun _ hx => ⟨hx.1, .of_isName hx.2⟩
  refine .bind .current fun t ht => ?_
  dsimp only
  split
  · exact hname
  · exact hname
  · next hk => exact .seq fun _ => .pure ⟨.node ⟨t, ht, hk⟩ trivial, .lit⟩
  · exact .seq fun _ => .bind (.atLevel (expr_yields hg)) fun x hx => .seq fun _ =>
      .pure ⟨.node trivial hx.1, .paren hx.2⟩
  · exact funcOperand_yields hg
  iterate 5 exact typeExpr_yields hg
  · exact .wanted

theorem selection_yields {x : Expr} (hx : x.Parsed w I) :
    (selection g x).Yields I (Expr.Parsed w I) := by
  have hselector : ∀ sel : Expr, sel.ParsedName I → (Expr.selector x.pos x sel).Parsed w I :=
    fun sel hs => ⟨.node trivial ⟨hx.1, hs.1⟩, .selector hx.2 hs.2⟩
  refine .bind .advance fun t ht => ?_
  split
  · next hk => exact .pure (hselector _ ⟨.node ⟨t, ht, hk⟩ trivial, rfl⟩)
  · next hk => exact .pure (hselector _ ⟨.node ⟨t, ht, hk⟩ trivial, rfl⟩)
  · refine .seq fun _ => ?_
    dsimp only
    exact .ite (.pure (by simp)) (.some (type_yields hg)) fun type ht => .seq fun _ =>
      .pure ⟨.node trivial ⟨hx.1, all_left ht⟩, .typeAssert hx.2 (all_right ht)⟩
  · exact .throw (.token ht)

theorem primaryTail_yields {x : Expr} (hx : x.Parsed w I) :
    (primaryTail g x).Yields I (Expr.Parsed w I) := by
  have htail : ∀ y : Expr, y.Parsed w I → (g (.primaryTail y)).Yields I (Expr.Parsed w I) :=
    fun y hy => hg.yields (.primaryTail y) hy
  refine .seq fun k => ?_
  split
  · exact .seq fun _ => .bind (selection_yields hg hx) htail
  · exact .seq fun _ => .bind (.atLevel (indexOrSlice_yields hg hx)) htail
  · refine .seq fun _ => .bind (Q := fun r => ∀ y ∈ r.1, y.Parsed w I) (.atLevel ?_) fun r hr =>
      htail _ ⟨.node trivial ⟨hx.1, all_left hr⟩, .call hx.2 (all_right hr)⟩
    exact .bind (hg.yields .args trivial) fun r hr => .seq fun _ => .pure hr
  · refine .seq fun _ => ?_
    split
    · next hbrace =>
      have hliteral : x.isLiteralType := (Bool.and_eq_true_iff.mp hbrace).1
      exact .bind (composite_yields hg fun _ _ he => ⟨.node trivial ⟨all_some hx.1, all_left he⟩,
        .composite hliteral hx.2 (all_right he)⟩) htail
    · exact .pure hx
  · exact .pure hx

theorem unaryExpr_yields : (unaryExpr g).Yields I (Expr.Parsed w I) := by
  have hprimary : (do primaryTail g (← operand g) : Parser Expr).Yields I (Expr.Parsed w I) :=
    .bind (operand_yields hg) fun _ hx => primaryTail_yields hg hx
  have hunary : (g .unary).Yields I fun x => x.Parsed w I ∧ x.isBinary = false :=
    .also (hg.yields .unary trivial) (unary_bare hg.leading)
  refine .seq fun t => ?_
  dsimp only
  split
  · exact .seq fun _ => .bind hunary fun x hx => .pure ⟨.node hx.2 hx.1.1, .star hx.1.2⟩
  · split
    · exact hprimary
    · refine .seq fun _ => .seq fun _ => ?_
      split
      · exact .seq fun _ => .bind (type_yields hg) fun x hx =>
          .pure ⟨.node trivial hx.1, .chanType hx.2⟩
      · exact .bind hunary fun x hx => .pure ⟨.node hx.2 hx.1.1, .unary hx.1.2⟩
  · exact hprimary

theorem binaryTail_yields {least : Nat} {x : Expr}
    (hx : (x.Grouped → x.RegularIn (KindIn I)) ∧ x.Shaped w) :
    (binaryTail g least x).Yields I fun y => (y.Grouped → y.RegularIn (KindIn I)) ∧ y.Shaped w := by
  refine .seq fun k => ?_
  split
  · split
    · exact .pure hx
    · split
      · exact .pure hx
      · refine .seq fun _ => .bind (hg.yields (.binary _) trivial) fun y hy =>
          hg.yields (.binaryTail least _) ⟨fun hgrouped => ?_, .binary hx.2 hy.2⟩
        obtain ⟨-, hleft, hright, hgrouped, -⟩ := hgrouped
        exact .node ⟨hleft, hright⟩ ⟨hx.1 hgrouped, hy.1⟩
  · exact .pure hx

theorem binaryExpr_yields {least : Nat} : (binaryExpr g least).Yields I (Expr.Parsed w I) := by
  have hgrouped : ∀ t, (binaryExpr g least).From t Expr.Grouped :=
    fun _ _ _ _ _ he => (binaryExpr_climbs hg.toClimbs he).1
  have hreads : (binaryExpr g least).Yields I
      fun y => (y.Grouped → y.RegularIn (KindIn I)) ∧ y.Shaped w :=
    .bind (unaryExpr_yields hg) fun _ hx => binaryTail_yields hg ⟨fun _ => hx.1, hx.2⟩
  exact .mono (.also hreads hgrouped) fun _ hy => ⟨hy.1.1 hy.2, hy.1.2⟩

theorem moreExprs_yields : (g .exprs).Yields I fun xs => ∀ x ∈ xs, x.Parsed w I :=
  .mono (hg.yields .exprs trivial) fun _ h => h.2

theorem exprs_yields : (exprs g).Yields I (Nonterminal.Parsed w I .exprs) :=
  .bind (binaryExpr_yields hg) fun _ hx => .series hx (moreExprs_yields hg)

theorem args_yields : (args g).Yields I (Nonterminal.Parsed w I .args) := by
  refine .seq fun _ => .choice (.pure (by simp)) ?_
  refine .bind (binaryExpr_yields hg) fun x hx => .seq fun _ => .seq fun _ => ?_
  split
  · exact .bind (hg.yields .args trivial) fun r hr => .pure (List.forall_mem_cons.mpr ⟨hx, hr⟩)
  · exact .pure (List.forall_mem_singleton.mpr hx)

theorem elementValue_yields : (elementValue g).Yields I (Expr.ParsedValue w I) := by
  refine .seq fun _ => ?_
  split
  · exact composite_yields hg fun _ _ he =>
      ⟨.node trivial ⟨by simp, all_left he⟩, .elided (all_right he)⟩
  · exact .mono (binaryExpr_yields hg) fun _ hx => ⟨hx.1, .expr hx.2⟩

theorem elements_yields : (elements g).Yields I (Nonterminal.Parsed w I .elements) := by
  refine .seq fun _ => .choice (.pure (by simp)) ?_
  refine .bind (elementValue_yields hg) fun key hk => .seq fun _ => ?_
  have hrest : ∀ elt : Expr, elt.ParsedElement w I →
      (do if ← eatSymbol .comma then return elt :: (← g .elements) else return [elt] :
        Parser (List Expr)).Yields I (Nonterminal.Parsed w I .elements) :=
    fun elt he => .mono (.series he (hg.yields .elements trivial)) fun _ h => h.2
  dsimp only
  split
  · exact .bind (elementValue_yields hg) fun value hv =>
      .bind (.pure ⟨.node trivial ⟨hk.1, hv.1⟩, .keyValue hk.2 hv.2⟩) hrest
  · exact .bind (.pure ⟨hk.1, .value hk.2⟩) hrest

/-! ### Statements -/

theorem rangeClause_yields {pos : Position} (hpos : StartIn I pos) {vars : List Expr} {define : Bool}
    (hv : ∀ x ∈ vars, x.Parsed w I) (hd : vars = [] → define = false) :
    (rangeClause g pos vars define).Yields I (RangeClause.Parsed w I) := by
  refine .bind (expr_yields hg) fun x hx => .pure ⟨hpos, ?_, ?_, hx, ?_⟩
  · exact fun y hy => hv y (List.mem_of_getElem? hy)
  · exact fun y hy => hv y (List.mem_of_getElem? hy)
  · cases vars with
    | nil => exact fun _ => ⟨rfl, hd rfl⟩
    | cons => simp

theorem assignment_yields {mode : SimpleMode} {pos : Position} (hpos : StartIn I pos)
    {lhs : List Expr} (hl : lhs ≠ [] ∧ ∀ x ∈ lhs, x.Parsed w I) {t : Token} (ht : I t)
    {op : AssignOp} : (assignment g mode pos lhs t op).Yields I (Simple.Parsed w I mode) := by
  refine .seq fun _ => .choice ?_ ?_
  · refine .seq fun _ => .choice (.throw (.token ht)) ?_
    exact .bind (rangeClause_yields hg hpos hl.2 fun he => (hl.1 he).elim) fun _ hc => .pure hc
  · exact .bind (hg.yields .exprs trivial) fun rhs hr =>
      .pure ⟨⟨.node trivial ⟨all_left hl.2, all_left hr.2⟩,
        .assign hl.1 hr.1 (all_right hl.2) (all_right hr.2)⟩, fun _ => rfl⟩

theorem labeledStmt_yields {pos : Position} {label : String} (hl : KindIn I (.ident label)) :
    (labeledStmt g pos label).Yields I (Stmt.Parsed w I) := by
  refine .seq fun t => .choice ?_ ?_
  · exact .pure ⟨.node hl (Stmt.RegularIn.node trivial trivial), .labeled .empty⟩
  · exact .bind (hg.yields .stmt trivial) fun s hs => .pure ⟨.node hl hs.1, .labeled hs.2⟩

theorem simpleTail_yields {mode : SimpleMode} {pos : Position} {lhs : List Expr}
    (hl : ∀ x ∈ lhs, x.Parsed w I) {t : Token} (ht : I t) :
    (simpleTail g mode pos lhs t).Yields I
      fun s => s.Parsed w I ∧ (mode ≠ .labeled → s.isSimple) := by
  have hsingle := single_yields ht hl
  unfold simpleTail
  split
  · have hlabel := (Expr.each_iff.mp (List.forall_mem_singleton.mp hl).1).1
    exact .seq fun _ => .mono (labeledStmt_yields hg hlabel) fun s hs => ⟨hs, fun h => (h rfl).elim⟩
  · exact .seq fun _ => .bind hsingle fun x hx => .bind (expr_yields hg) fun y hy =>
      .pure ⟨⟨.node trivial ⟨hx.1, hy.1⟩, .send hx.2 hy.2⟩, fun _ => rfl⟩
  · exact .seq fun _ => .bind hsingle fun x hx =>
      .pure ⟨⟨.node trivial hx.1, .incDec hx.2⟩, fun _ => rfl⟩
  · exact .seq fun _ => .bind hsingle fun x hx =>
      .pure ⟨⟨.node trivial hx.1, .incDec hx.2⟩, fun _ => rfl⟩
  · exact .bind hsingle fun x hx => .pure ⟨⟨.node trivial hx.1, .expr hx.2⟩, fun _ => rfl⟩

theorem simple_yields {mode : SimpleMode} :
    (simple g mode).Yields I (Simple.Parsed w I mode) := by
  refine .bind .current fun first hfirst => .choice ?_ ?_
  · exact .seq fun _ => .bind (rangeClause_yields hg ⟨first, hfirst, rfl⟩ (by simp) fun _ => rfl)
      fun _ hc => .pure hc
  · refine .bind (exprs_yields hg) fun lhs hl => .bind .current fun t ht => ?_
    dsimp only
    split
    · exact .seq fun _ => assignment_yields hg ⟨first, hfirst, rfl⟩ hl ht
    · exact .bind (simpleTail_yields hg hl.2 ht) fun s hs => .pure hs

theorem simpleStmt_yields {mode : SimpleMode} : (simpleStmt g mode).Yields I
    fun s => s.Parsed w I ∧ (mode ≠ .labeled → s.isSimple) := by
  refine .bind (simple_yields hg) fun r hr => ?_
  cases r with
  | stmt s => exact .pure hr
  | range clause =>
    obtain ⟨t, ht, hpos⟩ := hr.pos
    dsimp only
    rw [hpos]
    exact .throw (.start ht)

/-- A simple statement in a header. -/
theorem headerStmt_yields : (simpleStmt g .basic).Yields I (Stmt.ParsedSimple w I) :=
  .mono (simpleStmt_yields hg) fun _ h => ⟨h.1, h.2 (by decide)⟩

theorem optStmt_yields :
    (some <$> simpleStmt g .basic).Yields I fun s => ∀ t ∈ s, t.ParsedSimple w I :=
  .some (headerStmt_yields hg)

theorem varDecl_yields {pos : Position} : (varDecl g pos).Yields I (Stmt.Parsed w I) := by
  refine .bind (hg.yields .names trivial) fun names hn => .seq fun k => ?_
  have hrest : ∀ type : Option Expr, (∀ t ∈ type, t.Parsed w I) →
      (do
        let values ← if ← eatSymbol .assign then g .exprs else pure []
        return .var pos names type values : Parser Stmt).Yields I (Stmt.Parsed w I) := by
    intro type ht
    refine .seq fun _ => ?_
    dsimp only
    exact .ite (moreExprs_yields hg) (.pure (by simp)) fun values hv =>
      .pure ⟨.node trivial ⟨all_left hn.2, all_left ht, all_left hv⟩,
        .var hn.1 (all_right hn.2) (all_right ht) (all_right hv)⟩
  dsimp only
  split
  iterate 4 exact .bind (.pure (by simp)) hrest
  · exact .bind (.some (type_yields hg)) hrest

theorem results_yields : (results g).Yields I fun xs => ∀ x ∈ xs, x.Parsed w I := by
  refine .seq fun k => ?_
  split
  iterate 3 exact .pure (by simp)
  · exact moreExprs_yields hg

omit hg in
theorem expr_of_stmt {pos : Position} {x : Expr} (h : (Stmt.expr pos x).Parsed w I) :
    x.Parsed w I := by
  refine ⟨(Stmt.each_iff.mp h.1).2, ?_⟩
  cases h.2 with
  | expr hx => exact hx

theorem condHeader_yields : (condHeader g).Yields I
    fun r => (∀ s ∈ r.1, s.ParsedSimple w I) ∧ r.2.Parsed w I := by
  refine .seq fun _ => ?_
  dsimp only
  refine .ite (.pure (by simp)) (optStmt_yields hg) fun init (hi : ∀ s ∈ init, s.ParsedSimple w I) =>
    .seq fun _ => .choice ?_ ?_
  · exact .bind (expr_yields hg) fun test ht => .pure ⟨hi, ht⟩
  · split
    · exact .pure ⟨by simp, expr_of_stmt (hi _ rfl).1⟩
    · exact .wanted

theorem condStmt_yields {pos : Position} : (condStmt g pos).Yields I (Stmt.Parsed w I) := by
  refine .seq fun _ => .seq fun _ => .choice .wanted ?_
  refine .bind (.atLevel (condHeader_yields hg)) fun r hr => .bind (block_yields hg) fun body hb => ?_
  obtain ⟨init, test⟩ := r
  obtain ⟨hinit, htest⟩ := hr
  have hcond : ∀ other : Option Stmt, (∀ s ∈ other, s.Parsed w I) →
      (∀ s ∈ other, s.isBlock ∨ s.isCond) → (Stmt.cond pos init test body other).Parsed w I :=
    fun other ho hform => ⟨.node (all_right hinit)
      ⟨all_left (all_left hinit), htest.1, hb.1.1, all_left ho⟩,
      .cond (all_right (all_left hinit)) htest.2 hb.2 hb.1.2 hform (all_right ho)⟩
  have hother : ∀ s : Stmt, s.Parsed w I → s.isBlock ∨ s.isCond →
      (Stmt.cond pos init test body (some s)).Parsed w I := by
    intro s hs hform
    refine hcond _ ?_ ?_ <;> rintro _ ⟨⟩ <;> assumption
  refine .seq fun _ => .choice (.peek fun t _ => ?_) (.pure (hcond _ (by simp) (by simp)))
  split
  · next hk =>
    -- at the word `if` only a condition is read
    exact .bind (.led (hg.yields .stmt trivial) (hg.leading .stmt t)) fun s hs =>
      .pure (hother s hs.1 (.inr (hs.2.cond hk)))
  · exact Yields.bind (block_yields hg) (fun s hs => .pure (hother s hs.1 (.inl hs.2))) t
  · exact Yields.wanted t

theorem switchHeader_yields : (switchHeader g).Yields I
    fun r => (∀ s ∈ r.1, s.Parsed w I) ∧ ∀ s ∈ r.2, s.Parsed w I ∧ StartIn I s.pos := by
  have hstmt : (simpleStmt g .basic).Yields I fun s => s.Parsed w I ∧ StartIn I s.pos :=
    .mono (.led (headerStmt_yields hg) fun _ => simpleStmt_from hg.leading)
      fun _ ⟨hs, t, ht, hpos, _⟩ => ⟨hs.1, t, ht, hpos⟩
  refine .seq fun _ => .choice (.pure (by simp)) (.seq fun _ => ?_)
  dsimp only
  refine .ite (.pure (by simp)) (.some hstmt)
    fun first (hf : ∀ s ∈ first, s.Parsed w I ∧ StartIn I s.pos) => .seq fun _ => .choice ?_ ?_
  · refine .seq fun _ => .choice (.pure ⟨all_left hf, by simp⟩) ?_
    exact .bind hstmt fun s hs => .pure ⟨all_left hf, all_some hs⟩
  · exact .pure ⟨by simp, hf⟩

theorem switchStmt_yields {pos : Position} : (switchStmt g pos).Yields I (Stmt.Parsed w I) := by
  refine .seq fun _ => .bind (.atLevel (switchHeader_yields hg)) fun r hr => .seq fun _ =>
    .seq fun _ => .bind (hg.yields .clauses trivial) fun clauses hc => .seq fun _ => ?_
  obtain ⟨init, tag⟩ := r
  obtain ⟨hinit, htag⟩ := hr
  have hbody : ∀ p, (Stmt.block p clauses).RegularIn (KindIn I) := fun p =>
    .node trivial (all_left hc)
  dsimp only
  split
  · exact .pure ⟨.node trivial ⟨all_left hinit, by simp, hbody _⟩,
      .switch (all_right hinit) (by simp) (by simp) (all_right hc)⟩
  · next guard =>
    obtain ⟨hguard, t, ht, hpos⟩ := htag guard rfl
    split
    · next hform =>
      exact .pure ⟨.node trivial ⟨all_left hinit, hguard.1, hbody _⟩,
        .typeSwitch (all_right hinit) hform hguard.2 (all_right hc)⟩
    · next hform =>
      split
      · next x =>
        have hx := expr_of_stmt hguard
        refine .pure ⟨.node trivial ⟨all_left hinit, all_some hx.1, hbody _⟩,
          .switch (all_right hinit) (all_some hx.2) (all_some ?_) (all_right hc)⟩
        intro p z hz
        rw [hz] at hform
        exact hform rfl
      · rw [hpos]
        exact .throw (.start ht)

theorem loopClauses_yields {init : Option Stmt} (hi : ∀ s ∈ init, s.ParsedSimple w I) :
    (loopClauses g init).Yields I (LoopHeader.Parsed w I) := by
  refine .seq fun _ => ?_
  dsimp only
  refine .ite (.pure (by simp)) (optExpr_yields hg) fun test (ht : ∀ x ∈ test, x.Parsed w I) =>
    .seq fun _ => .seq fun _ => ?_
  exact .ite (.pure (by simp)) (optStmt_yields hg) fun post hp => .pure ⟨hi, ht, hp⟩

theorem loopHeader_yields : (loopHeader g).Yields I (LoopHeader.Parsed w I) := by
  refine .seq fun _ => ?_
  split
  · exact .pure ⟨by simp, by simp, by simp⟩
  · exact .seq fun _ => loopClauses_yields hg (by simp)
  · refine .bind (simple_yields hg) fun r hr => ?_
    cases r with
    | range clause => exact .pure hr
    | stmt init =>
      refine .seq fun _ => .choice (loopClauses_yields hg (all_some ⟨hr.1, hr.2 (by decide)⟩)) ?_
      split
      · exact .pure ⟨by simp, all_some (expr_of_stmt hr.1), by simp⟩
      · exact .wanted

theorem loopStmt_yields {pos : Position} : (loopStmt g pos).Yields I (Stmt.Parsed w I) := by
  refine .seq fun _ => .bind (.atLevel (loopHeader_yields hg)) fun header hh =>
    .bind (block_yields hg) fun body hb => ?_
  cases header with
  | clauses init test post =>
    obtain ⟨hi, ht, hp⟩ := hh
    exact .pure ⟨.node ⟨all_right hi, all_right hp⟩
      ⟨all_left (all_left hi), all_left ht, all_left (all_left hp), hb.1.1⟩,
      .loop (all_right (all_left hi)) (all_right ht) (all_right (all_left hp)) hb.2 hb.1.2⟩
  | range c =>
    refine .pure ⟨.node hh.vars ⟨all_left hh.key, all_left hh.value, hh.x.1, hb.1.1⟩,
      .range (all_right hh.key) (all_right hh.value) hh.x.2 ?_ (fun h => (hh.vars h).2) hb.2 hb.1.2⟩
    have hvars := hh.vars
    cases hkey : c.key with
    | none => simp [(hvars (by rw [hkey]; rfl)).1]
    | some => simp

theorem stmt_yields : (stmt g).Yields I (Stmt.Parsed w I) := by
  have hsimple : (simpleStmt g .labeled).Yields I (Stmt.Parsed w I) :=
    .mono (simpleStmt_yields hg) fun _ h => h.1
  refine .bind .current fun t ht => ?_
  dsimp only
  split
  · exact .seq fun _ => varDecl_yields hg
  · exact .seq fun _ => .bind (expr_yields hg) fun x hx => .pure ⟨.node trivial hx.1, .go hx.2⟩
  · exact .seq fun _ => .bind (expr_yields hg) fun x hx => .pure ⟨.node trivial hx.1, .defer hx.2⟩
  · exact .seq fun _ => .bind (results_yields hg) fun xs hxs =>
      .pure ⟨.node trivial (all_left hxs), .ret (all_right hxs)⟩
  · exact condStmt_yields hg
  · exact switchStmt_yields hg
  · exact loopStmt_yields hg
  iterate 5 exact .throw (.token ht)
  · split
    · exact .seq fun _ => .bind branchLabel_yields fun _ hl => .pure ⟨.node hl trivial, .branch⟩
    · exact hsimple
  · exact .mono (block_yields hg) fun _ h => h.1
  · exact .pure ⟨.node trivial trivial, .empty⟩
  · exact hsimple

theorem stmts_yields : (stmts g).Yields I (Nonterminal.Parsed w I .stmts) := by
  refine .seq fun _ => ?_
  split
  iterate 4 exact .pure (by simp)
  · exact .seq fun _ => hg.yields .stmts trivial
  · exact .bind (stmt_yields hg) fun _ hs => .seq fun _ => .bind (hg.yields .stmts trivial) fun _ hss =>
      .pure (List.forall_mem_cons.mpr ⟨hs, hss⟩)

theorem clause_yields : (clause g).Yields I (Stmt.ParsedClause w I) := by
  have hlist : (some <$> g .exprs).Yields I
      fun list => ∀ xs ∈ list, xs ≠ [] ∧ ∀ x ∈ xs, x.Parsed w I :=
    .some (hg.yields .exprs trivial)
  refine .seq fun t => ?_
  dsimp only
  refine .ite hlist (.pure (by simp)) fun list hl => .seq fun _ =>
    .bind (hg.yields .stmts trivial) fun ss hss => .pure ⟨.node trivial ⟨?_, all_left hss⟩, ?_⟩
  · exact fun xs hxs => all_left (hl xs hxs).2
  · exact .clause (all_left hl) (fun xs hxs => all_right (hl xs hxs).2) (all_right hss)

theorem clauses_yields : (clauses g).Yields I (Nonterminal.Parsed w I .clauses) := by
  have hclause : (do let c ← clause g; return c :: (← g .clauses) : Parser (List Stmt)).Yields I
      (Nonterminal.Parsed w I .clauses) :=
    .bind (clause_yields hg) fun _ hc => .bind (hg.yields .clauses trivial) fun _ hcs =>
      .pure (List.forall_mem_cons.mpr ⟨hc, hcs⟩)
  refine .peek fun t ht => ?_
  split
  · exact hclause t
  · exact hclause t
  · next hk =>
    -- what begins at a wildcard begins with it
    have hallowed := hg.allowed t ht
    rw [hk] at hallowed
    refine .bind (.led (stmt_yields hg) (stmt_from hg.leading)) fun s hs => .seq fun _ =>
      .bind (hg.yields .clauses trivial) fun _ hcs =>
        .pure (List.forall_mem_cons.mpr ⟨⟨hs.1.1, ?_⟩, hcs⟩)
    exact .wildcard hallowed (hs.2.wildcard (by simp [Token.isWildcard, hk])) hs.1.2
  · exact Yields.seq (fun _ => hg.yields .clauses trivial) t
  · exact Yields.pure (by simp) t

/-! ### Declarations -/

theorem importSpecs_yields : (importSpecs g).Yields I (Nonterminal.Parsed w I .importSpecs) := by
  refine .seq fun _ => .choice (.pure trivial) ?_
  refine .seq fun spec => .seq fun _ => .choice ?_ (.pure trivial)
  exact .bind (hg.yields .importSpecs trivial) fun _ _ => .pure trivial

theorem imports_yields : (imports g).Yields I (Nonterminal.Parsed w I .imports) := by
  refine .seq fun _ => .choice (.seq fun _ => ?_) (.pure trivial)
  have hrest : ∀ specs : List Import,
      (do stmtEnd; return specs ++ (← g .imports) : Parser (List Import)).Yields I fun _ => True :=
    fun specs => .seq fun _ => .bind (hg.yields .imports trivial) fun _ _ => .pure trivial
  dsimp only
  split
  · exact .bind (hg.yields .importSpecs trivial) fun _ _ => .seq fun _ => .seq hrest
  · exact .bind (Q := fun _ => True) (.map .any fun _ _ => trivial) fun specs _ => hrest specs

theorem receiver_yields {pos : Position} (hpos : StartIn I pos) :
    (receiver g pos).Yields I fun r => ∀ f ∈ r, Field.ParsedParams w I [f] := by
  refine .seq fun _ => .choice ?_ (.pure (by simp))
  refine .bind (paramList_yields hg) fun fields hf => ?_
  split
  · exact .pure (all_some hf)
  · obtain ⟨t, ht, rfl⟩ := hpos
    exact .throw (.start ht)

theorem func_yields : (func g).Yields I (Func.Parsed w I) := by
  refine .bind .here fun pos hpos => .seq fun _ => .bind (receiver_yields hg hpos) fun recv hr =>
    .seq fun _ => .bind (signature_yields hg) fun sig hs => .seq fun _ => ?_
  dsimp only
  refine .ite (.some (block_yields hg)) (.pure (by simp))
    fun body (hb : ∀ s ∈ body, s.ParsedBlock w I) => .pure ⟨Func.each_iff.mpr ?_, ?_⟩
  · exact ⟨fun f hf => List.forall_mem_singleton.mp (hr f hf).1, hs.1.1, hs.2.1, all_left (all_left hb)⟩
  · exact ⟨fun f hf => (hr f hf).2, hs.1.2, hs.2.2, all_right hb, all_right (all_left hb)⟩

/-- A function in front of others. -/
theorem funcCons_yields {rest : Parser (List Func)}
    (hr : rest.Yields I fun fs => ∀ f ∈ fs, f.Parsed w I) :
    (do let f ← func g; stmtEnd; return f :: (← rest) : Parser (List Func)).Yields I
      fun fs => ∀ f ∈ fs, f.Parsed w I :=
  .bind (func_yields hg) fun _ hf => .seq fun _ => .bind hr fun _ hfs =>
    .pure (List.forall_mem_cons.mpr ⟨hf, hfs⟩)

theorem funcs_yields : (funcs g).Yields I (Nonterminal.Parsed w I .funcs) := by
  refine .seq fun _ => ?_
  split
  · exact .pure (by simp)
  · exact .seq fun _ => hg.yields .funcs trivial
  · exact funcCons_yields hg (hg.yields .funcs trivial)

theorem decls_yields : (decls g).Yields I (Nonterminal.Parsed w I .decls) := by
  refine .seq fun _ => ?_
  split
  · exact .pure (by simp)
  · exact .seq fun _ => hg.yields .decls trivial
  · exact funcCons_yields hg (hg.yields .decls trivial)
  iterate 3 exact .seq fun _ => hg.yields .decls trivial
  · exact .bind .current fun t ht => .throw (.token ht)

/-- A grammar that uses a sound one for its parts is sound. -/
theorem sound_step : (step g).Sound w I := by
  refine ⟨climbs_step hg.toClimbs, hg.allowed, fun n hn => ?_⟩
  cases n with
  | binary least => exact binaryExpr_yields hg
  | binaryTail least x => exact binaryTail_yields hg hn
  | unary => exact unaryExpr_yields hg
  | primaryTail x => exact primaryTail_yields hg hn
  | type => exact typeExpr_yields hg
  | exprs => exact exprs_yields hg
  | args => exact args_yields hg
  | elements => exact elements_yields hg
  | params => exact params_yields hg
  | fields => exact fields_yields hg
  | methods => exact methods_yields hg
  | names => exact names_yields hg
  | stmt => exact stmt_yields hg
  | stmts => exact stmts_yields hg
  | clauses => exact clauses_yields hg
  | importSpecs => exact importSpecs_yields hg
  | imports => exact imports_yields hg
  | funcs => exact funcs_yields hg
  | decls => exact decls_yields hg

omit hg

theorem sound_bounded (hw : ∀ t, I t → t.kind.Allowed w) (n : Nat) : (bounded n).Sound w I := by
  induction n with
  | zero =>
    refine ⟨climbs_bounded 0, hw, fun n _ t c _ hin => ?_⟩
    exact .token (hin _ List.mem_cons_self)
  | succ n ih => exact sound_step ih

theorem full_yields (hw : ∀ t, I t → t.kind.Allowed w) (n : Nonterminal) (hn : n.Begun w I) :
    (full n).Yields I (n.Parsed w I) :=
  fun t c => (sound_bounded hw _).yields n hn t c

end Grammar

section

variable {w : Bool} {I : Token → Prop}

theorem Parser.Yields.run {α : Type} {p : Parser α} {Q : α → Prop} (h : p.Yields I Q)
    {ts : List Token} (hts : (Cursor.ofTokens ts).Within I) {a : α} (ha : p.run ts = .ok a) : Q a := by
  have hread := h _ _ rfl hts
  unfold Parser.run at ha
  split at ha
  · next hp =>
    cases ha
    rw [hp] at hread
    exact hread.2
  · cases ha

/-- Where a parser fails on tokens in `I`. -/
theorem Parser.Yields.fails {α : Type} {p : Parser α} {Q : α → Prop} (h : p.Yields I Q)
    {ts : List Token} (hts : (Cursor.ofTokens ts).Within I) {e : ParseError}
    (he : p.run ts = .error e) : RangeIn I e.range := by
  have hread := h _ _ rfl hts
  unfold Parser.run at he
  split at he
  · cases he
  · next hp =>
    cases he
    rw [hp] at hread
    exact hread

variable (hw : ∀ t, I t → t.kind.Allowed w)
include hw

theorem Expr.listParser_yields :
    Expr.listParser.Yields I fun xs => xs ≠ [] ∧ ∀ x ∈ xs, x.Parsed w I :=
  .bind (Grammar.full_yields hw .exprs trivial) fun _ hxs => .seq fun _ => .seq fun _ => .pure hxs

theorem Stmt.listParser_yields : Stmt.listParser.Yields I fun ss => ∀ s ∈ ss, s.Parsed w I :=
  .bind (Grammar.full_yields hw .stmts trivial) fun _ hss => .seq fun _ => .pure hss

theorem Func.listParser_yields : Func.listParser.Yields I fun fs => ∀ f ∈ fs, f.Parsed w I :=
  Grammar.full_yields hw .funcs trivial

theorem File.parser_yields : File.parser.Yields I fun file => ∀ f ∈ file.funcs, f.Parsed w I :=
  .seq fun _ => .seq fun _ => .seq fun _ => .bind (Grammar.full_yields hw .imports trivial)
    fun _ _ => .bind (Grammar.full_yields hw .decls trivial) fun _ hfs => .pure hfs

omit hw

/-- A text with tokens in `I`, that a parser reads or fails to read. -/
theorem Parser.Yields.runText {α : Type} {p : Parser α} {Q : α → Prop} (h : p.Yields I Q)
    {wildcards : Bool} {src : String}
    (hI : ∀ ts, Token.tokenize wildcards src = .ok ts → ∀ t ∈ ts, I t) {a : α}
    (ha : p.runText wildcards src = .ok a) : Q a := by
  unfold Parser.runText at ha
  split at ha
  · next ts hts => exact h.run (Cursor.within_ofTokens (Token.ne_nil_of_tokenize hts) (hI ts hts)) ha
  · cases ha

variable {J : Token.Kind → Prop}

theorem Node.LocalIn.of_kindIn {n : Node} (h : n.LocalIn (KindIn fun t => J t.kind)) : n.LocalIn J :=
  h.mono fun _ ⟨_, ht, hk⟩ => hk ▸ ht

variable {wildcards : Bool} {src : String}
  (hJ : ∀ ts, Token.tokenize wildcards src = .ok ts → ∀ t ∈ ts, J t.kind)
include hJ

theorem Expr.regularIn_of_parseList {xs : List Expr} (h : Expr.parseList wildcards src = .ok xs) :
    ∀ x ∈ xs, x.RegularIn J :=
  fun x hx n hn => (((Expr.listParser_yields fun t _ => t.kind.allowed_true).runText hJ h).2 x hx).1 n hn
    |>.of_kindIn

theorem Stmt.regularIn_of_parseList {ss : List Stmt} (h : Stmt.parseList wildcards src = .ok ss) :
    ∀ s ∈ ss, s.RegularIn J :=
  fun s hs n hn => ((Stmt.listParser_yields fun t _ => t.kind.allowed_true).runText hJ h s hs).1 n hn
    |>.of_kindIn

end

/-- The identifiers in parsed functions are words. -/
theorem Func.regularIn_of_parseList {src : String} {fs : List Func}
    (h : Func.parseList src = .ok fs) : ∀ f ∈ fs, f.RegularIn Token.Kind.NamesWord :=
  fun f hf n hn => ((Func.listParser_yields fun t _ => t.kind.allowed_true).runText
    (fun _ => Token.namesWord_of_tokenize) h f hf).1 n hn |>.of_kindIn

end GoSift
