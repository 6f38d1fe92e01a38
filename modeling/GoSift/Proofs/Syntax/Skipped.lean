import GoSift.Proofs.Syntax.Totality
import Mathlib

/-!
Declarations that are passed over: those of variables, constants and types. The loop over the declarations
of a file drops their tokens up to a semicolon outside of brackets, and what it reads in front of them ends
at a semicolon. So neither depends on the other. In front of the end mark a semicolon could be missing;
tokens that are `Token.Closed`, as `Token.closed_of_tokenize` says of those of a file, have one there.
-/
namespace GoSift

namespace Token

/-- The brackets that a token opens, less those that it closes. -/
def Kind.nesting : Kind → Int
  | symbol .lParen | symbol .lBracket | symbol .lBrace => 1
  | symbol .rParen | symbol .rBracket | symbol .rBrace => -1
  | _ => 0

def nesting (ts : List Token) : Int :=
  (ts.map (·.kind.nesting)).sum

/-- Whether a declaration that begins with this token is passed over. -/
def Kind.startsSkipped (k : Kind) : Prop :=
  k = .keyword .var ∨ k = .keyword .const ∨ k = .keyword .type

/-- A declaration that is passed over. Its brackets are balanced, and no semicolon stands outside of them;
otherwise there may be anything in it. -/
structure Skippable (d : List Token) : Prop where
  starts : ∃ t ∈ d.head?, t.kind.startsSkipped
  proper : ∀ t ∈ d, t.kind ≠ .eof
  nested : ∀ i ≤ d.length, 0 ≤ nesting (d.take i)
  balanced : nesting d = 0
  whole : ∀ i (h : i < d.length), nesting (d.take i) = 0 → d[i].kind ≠ .symbol .semiColon

/-- What is left of tokens where a declaration is dropped that is open to the given depth. -/
def skipFrom (depth : Nat) : List Token → List Token
  | [] => []
  | t :: ts => (skipTokens depth t ts).1 :: (skipTokens depth t ts).2

theorem skipFrom_cons (depth : Nat) (t : Token) {ts : List Token} (hts : ts ≠ []) :
    skipFrom depth (t :: ts) =
      if t.kind.endsDecl depth then t :: ts else skipFrom (t.kind.depthAfter depth) ts := by
  cases ts with
  | nil => exact absurd rfl hts
  | cons u us =>
    rw [skipFrom, skipTokens]
    split <;> rfl

theorem skipFrom_stop {depth : Nat} {t : Token} {ts : List Token} (h : t.kind.endsDecl depth = true) :
    skipFrom depth (t :: ts) = t :: ts := by
  cases ts with
  | nil => rfl
  | cons u us => rw [skipFrom_cons depth t (List.cons_ne_nil u us), if_pos h]

/-- Where no more brackets are closed than are open, depths are not cut off. -/
theorem depthAfter_add {k : Kind} {n : Nat} (h : 0 ≤ n + k.nesting) (depth : Nat) :
    ∃ m : Nat, (m : Int) = n + k.nesting ∧ k.depthAfter (depth + n) = depth + m := by
  unfold Kind.nesting at *
  unfold Kind.depthAfter
  split at h
  all_goals first
    | exact ⟨n + 1, rfl, rfl⟩
    | exact ⟨n - 1, by omega, by dsimp only; omega⟩
    | exact ⟨n, by simp, by split <;> simp_all⟩

/-- Balanced tokens are dropped at any depth. The induction is on the tokens, with `n` brackets open. -/
theorem skipFrom_nested {d ts : List Token} (depth n : Nat) (hts : ts ≠ [])
    (hproper : ∀ t ∈ d, t.kind ≠ .eof) (hnested : ∀ i ≤ d.length, 0 ≤ n + nesting (d.take i))
    (hbalanced : n + nesting d = 0)
    (hwhole : ∀ i (h : i < d.length), n + nesting (d.take i) = 0 → d[i].kind ≠ .symbol .semiColon) :
    skipFrom (depth + n) (d.map erase ++ ts) = skipFrom depth ts := by
  induction d generalizing n with
  | nil =>
    have hn : n = 0 := by simpa [nesting] using hbalanced
    rw [hn]
    rfl
  | cons t d ih =>
    obtain ⟨ht, hd⟩ := List.forall_mem_cons.mp hproper
    have hgoes : ¬ t.kind.endsDecl (depth + n) = true := by
      have hsemi := hwhole 0 (Nat.succ_pos _)
      unfold Kind.endsDecl
      split
      · next heof => exact absurd heof ht
      · next hk =>
        have hn : n ≠ 0 := fun hn => hsemi (by simp [nesting, hn]) hk
        simpa using fun _ => hn
      · exact Bool.false_ne_true
    obtain ⟨m, hm, hdepth⟩ := depthAfter_add (by simpa [nesting] using hnested 1 (by simp)) depth
    have hcons (front : List Token) : (m : Int) + nesting front = n + nesting (t :: front) := by
      simp only [nesting, List.map_cons, List.sum_cons] at hm ⊢
      omega
    have hfirst := skipFrom_cons (depth + n) t.erase
      (List.append_ne_nil_of_right_ne_nil (d.map erase) hts)
    refine (hfirst.trans (if_neg hgoes)).trans ?_
    change skipFrom (t.kind.depthAfter (depth + n)) _ = _
    rw [hdepth]
    refine ih m hd (fun i hi => ?_) ?_ fun i hi hzero => ?_
    · rw [hcons]
      exact hnested (i + 1) (Nat.succ_le_succ hi)
    · rwa [hcons]
    · rw [hcons] at hzero
      exact hwhole (i + 1) (Nat.succ_lt_succ hi) hzero

theorem Skippable.skipFrom {d ts : List Token} (h : Skippable d) (depth : Nat) (hts : ts ≠ []) :
    skipFrom depth (d.map erase ++ ts) = skipFrom depth ts :=
  skipFrom_nested depth 0 hts h.proper (by simpa using h.nested) (by simpa using h.balanced)
    (by simpa using h.whole)

/-- What is dropped is dropped whatever is behind it, and the declaration ends there at some depth. -/
theorem exists_skipFrom (depth : Nat) {ts : List Token} (hend : Terminated ts) :
    ∃ front k u us, ts = front ++ u :: us ∧ Token.skipFrom depth ts = u :: us ∧
      u.kind.endsDecl k = true ∧
      ∀ vs, vs ≠ [] → Token.skipFrom depth (front.map erase ++ vs) = Token.skipFrom k vs := by
  induction ts generalizing depth with
  | nil =>
    obtain ⟨t, ht, -⟩ := hend
    cases ht
  | cons t ts ih =>
    by_cases hstop : t.kind.endsDecl depth = true
    · exact ⟨[], depth, t, ts, rfl, skipFrom_stop hstop, hstop, fun _ _ => rfl⟩
    · cases ts with
      | nil =>
        obtain ⟨u, hlast, heof⟩ := hend
        cases hlast
        exact absurd (congrArg (Kind.endsDecl depth) heof) hstop
      | cons v ts =>
        obtain ⟨front, k, u, us, heq, hskip, hu, hbehind⟩ := ih (t.kind.depthAfter depth)
          (hend.suffix (List.suffix_cons _ _) (List.cons_ne_nil _ _))
        refine ⟨t :: front, k, u, us, congrArg (t :: ·) heq, ?_, hu, fun vs hvs => ?_⟩
        · rw [skipFrom_cons depth t (List.cons_ne_nil v ts), if_neg hstop, hskip]
        · have hfirst := skipFrom_cons depth t.erase
            (List.append_ne_nil_of_right_ne_nil (front.map erase) hvs)
          exact (hfirst.trans (if_neg hstop)).trans (hbehind vs hvs)

end Token

theorem Grammar.Routine.reaches {α : Type} {takes : Bool} {F : Grammar → Parser α} {c c' : Cursor} {a : α}
    (hF : Routine c.current takes F) (hend : Token.Terminated c.tokens) (h : F full c = .ok a c') :
    c.Reaches c' := by
  obtain ⟨heq, horderly⟩ := hF.agree (lockstep_full full full (c.size + 1)) c rfl hend
    (Nat.lt_succ_self _)
  rw [← heq, h] at horderly
  exact horderly.1

theorem Cursor.tokens_eq {c : Cursor} (hend : Token.Terminated c.tokens) (hk : c.current.kind ≠ .eof) :
    c.tokens = c.current :: c.next.tokens := by
  have hrest := rest_ne_nil hend hk
  unfold next
  rw [if_neg hk]
  cases hr : c.rest with
  | nil => exact absurd hr hrest
  | cons t ts => exact congrArg (c.current :: ·) hr

theorem Token.Alike.length_lt {behind behind' ts ts' : List Token} (h : Alike behind behind' ts ts') :
    behind.length < ts.length := by
  induction h with
  | stop => exact Nat.lt_succ_self _
  | cons _ _ ih => exact Nat.lt_succ_of_lt ih

namespace Cursor

theorem tokens_ofTokens {ts : List Token} (hts : ts ≠ []) : (ofTokens ts).tokens = ts := by
  cases ts with
  | nil => exact absurd rfl hts
  | cons t ts => rfl

theorem terminated_ofTokens {ts : List Token} (h : Token.Terminated ts) :
    Token.Terminated (ofTokens ts).tokens := by
  rwa [tokens_ofTokens h.ne_nil]

theorem level_ofTokens (ts : List Token) : (ofTokens ts).level = 0 := by
  cases ts <;> rfl

theorem eq_ofTokens {c : Cursor} {ts : List Token} (hlevel : c.level = 0) (htokens : c.tokens = ts) :
    c = ofTokens ts := by
  obtain ⟨level, t, rest⟩ := c
  cases hlevel
  cases htokens
  rfl

/-- Where alike tokens part, the next one is the first behind that. -/
theorem Alike.next_eq {c c' : Cursor} {us : List Token} (hc : c.tokens = c.current :: c.next.tokens)
    (h : c.Alike c.next.tokens us c') (hk : c.current.kind ≠ .eof) (hus : us ≠ [])
    (hlevel : c.level = 0) : c'.next = ofTokens us := by
  obtain ⟨level', t', ts'⟩ := c'
  obtain rfl : ts' = us := by
    have htokens := h.tokens
    rw [hc] at htokens
    cases htokens with
    | stop => rfl
    | cons _ h => exact absurd h.length_lt (Nat.lt_irrefl _)
  obtain rfl : t' = c.current.erase := h.current
  obtain rfl : level' = 0 := h.level.trans hlevel
  cases ts' with
  | nil => exact absurd rfl hus
  | cons u us => exact if_neg hk

end Cursor

namespace Parser

open GoSift.Grammar

/-- At the token `t`, with fewer than `n` tokens behind it, a parser stops right behind a token that ends a
statement, or where it began, unless `must` is set. -/
def Ends {α : Type} (n : Nat) (t : Token) (must : Bool) (p : Parser α) : Prop :=
  ∀ c a c', c.current = t → Token.Terminated c.tokens → c.size < n → p c = .ok a c' →
    must = false ∧ c' = c ∨ ∃ u : Token, u.kind.endsStatement = true ∧ u :: c'.tokens <:+ c.tokens

namespace Ends

variable {α β : Type} {n : Nat} {t : Token} {must : Bool} {p q : Parser α} {k : α → Parser β}

theorem pure {a : α} : Ends n t false (Pure.pure a : Parser α) := by
  rintro c b c' - - - ⟨⟩
  exact .inl ⟨rfl, rfl⟩

theorem throw {e : ParseError} : Ends n t must (throw e : Parser α) := by
  rintro c a c' - - - ⟨⟩

theorem wanted {what : Expectation} : Ends n t must (Parser.wanted what : Parser α) := by
  rintro c a c' - - - ⟨⟩

/-- A step that takes nothing. -/
theorem look {view : Cursor → α} (hp : p = fun c => .ok (view c) c) (hk : ∀ a u, Ends n u must (k a)) :
    Ends n t must (p >>= k) := by
  subst hp
  intro c b c' _ hend hn h
  exact hk (view c) _ c b c' rfl hend hn h

theorem seq (hp : Ends n t true p) (hk : ∀ a u, Ends n u false (k a)) : Ends n t must (p >>= k) := by
  intro c b c' hc hend hn h
  obtain ⟨a, d, ha, hb⟩ := bind_eq_ok.mp h
  obtain ⟨⟨⟩, -⟩ | ⟨u, hu, hsuffix⟩ := hp c a d hc hend hn ha
  have hd := (List.suffix_cons u d.tokens).trans hsuffix
  have hsize : d.size < n := Nat.lt_of_le_of_lt (Nat.le_of_succ_le_succ hd.length_le) hn
  obtain ⟨-, rfl⟩ | ⟨v, hv, hlast⟩ :=
    hk a _ d b c' rfl (hend.suffix hd (List.cons_ne_nil _ _)) hsize hb
  · exact .inr ⟨u, hu, hsuffix⟩
  · exact .inr ⟨v, hv, hlast.trans hd⟩

/-- Nothing is read behind it. -/
theorem last {f : α → β} (hp : Ends n t true p) : Ends n t must (p >>= fun a => Pure.pure (f a)) :=
  hp.seq fun _ _ => pure

/-- What is read last counts. -/
theorem behind {takes : Bool} {F : Grammar → Parser α} (hF : Routine t takes F)
    (hk : ∀ a u, Ends n u true (k a)) : Ends n t must (F full >>= k) := by
  rintro c b c' rfl hend hn h
  obtain ⟨a, d, ha, hb⟩ := bind_eq_ok.mp h
  have hreach := hF.reaches hend ha
  obtain ⟨⟨⟩, -⟩ | ⟨u, hu, hsuffix⟩ := hk a _ d b c' rfl (hreach.terminated hend)
    (Nat.lt_of_le_of_lt hreach.size_le hn) hb
  exact .inr ⟨u, hu, hsuffix.trans hreach.suffix⟩

theorem past {kind : Token.Kind} {k : Token → Parser β} (ht : t.kind = kind)
    (hkind : (kind == .eof) = false) (hk : ∀ u, Ends n u true (k t)) :
    Ends (n + 1) t must (Parser.advance >>= k) := by
  rintro c b c' rfl hend hn h
  have hlt := Cursor.size_next_lt hend (ht ▸ ne_of_beq_false hkind)
  obtain ⟨⟨⟩, -⟩ | ⟨u, hu, hsuffix⟩ := hk _ c.next b c' rfl (c.reaches_next.terminated hend)
    (by omega) h
  exact .inr ⟨u, hu, hsuffix.trans c.tokens_next_suffix⟩

/-- A token that is taken, with nothing behind it that must be read if it ends a statement. -/
theorem take {k : Token → Parser β} (hk : ∀ u, Ends n u (!t.kind.endsStatement) (k t)) :
    Ends n t true (Parser.advance >>= k) := by
  rintro c b c' rfl hend hn h
  have hreach := c.reaches_next
  obtain ⟨hlast, rfl⟩ | ⟨u, hu, hsuffix⟩ := hk _ c.next b c' rfl (hreach.terminated hend)
    (Nat.lt_of_le_of_lt hreach.size_le hn) h
  · refine .inr ⟨c.current, by simpa using hlast, ?_⟩
    rw [← Cursor.tokens_eq hend (fun heof => by simp [heof, Token.Kind.endsStatement] at hlast)]
  · exact .inr ⟨u, hu, hsuffix.trans hreach.suffix⟩

theorem expectSymbol {sym : Symbol} (h : (Token.Kind.symbol sym).endsStatement = true) :
    Ends n t true (Parser.expectSymbol sym) := by
  rintro c a c' rfl hend hn hp
  simp only [Parser.expectSymbol, Parser.expect] at hp
  split at hp
  · next hk =>
    cases hp
    refine .inr ⟨c.current, by rw [hk, h], ?_⟩
    rw [← Cursor.tokens_eq hend (by simp [hk])]
  · cases hp

theorem current {k : Token → Parser β} (hk : Ends n t must (k t)) :
    Ends n t must (Parser.current >>= k) := by
  rintro c b c' rfl hend hn h
  exact hk c b c' rfl hend hn h

theorem choice {c : Prop} [Decidable c] (hp : Ends n t must p) (hq : Ends n t must q) :
    Ends n t must (if c then p else q) := by
  split
  · exact hp
  · exact hq

theorem map {f : α → β} (hp : Ends n t true p) : Ends n t must (f <$> p) := by
  rw [← bind_pure_comp]
  exact hp.last

end Ends

end Parser

namespace Grammar

open GoSift.Parser
open Token (Terminated Closed Skippable skipFrom erase)

variable {n : Nat} {t : Token} {must : Bool}

theorem name_ends : Ends n t true name := by
  refine .take fun u => ?_
  split
  · next hk => rw [hk]; exact .pure
  · next hk => rw [hk]; exact .pure
  · exact .throw

theorem identName_ends : Ends n t true identName := by
  refine .take fun u => ?_
  split
  · next hk => rw [hk]; exact .pure
  · exact .throw

theorem typeName_ends {start : Position} : Ends n t true (typeName start) := by
  refine .seq name_ends fun _ _ => .look rfl fun _ _ => .look rfl fun _ _ => .choice ?_ .pure
  exact .behind .advance fun _ _ => .last name_ends

theorem paramList_ends : Ends n t must (paramList full) := by
  refine .behind (.expect _) fun _ _ => .behind (.nonterminal .params) fun _ _ =>
    .seq (.expectSymbol rfl) fun close _ => ?_
  split
  · exact .pure
  · exact .throw

theorem bracedFields_ends {F : Grammar → Parser (List Field)} (hF : ∀ u, Routine u false F) :
    Ends n t true (bracedFields (F full)) :=
  .behind .advance fun _ _ => .behind (.expect _) fun _ _ => .behind (hF _) fun _ _ =>
    .last (.expectSymbol rfl)

section

variable (h : ∀ u, Ends n u true (full .type))

include h

theorem signature_ends : Ends n t true (signature full) := by
  refine .seq paramList_ends fun _ _ => .current (.choice ?_ (.choice ?_ .pure))
  · exact .last paramList_ends
  · exact .last (h _)

theorem typeExpr_ends : Ends (n + 1) t true (typeExpr full) := by
  refine .current ?_
  dsimp only
  split
  · exact typeName_ends
  · exact typeName_ends
  · next ht => exact .past ht rfl fun _ => .last (h _)
  · next ht => exact .past ht rfl fun _ => .behind .arrayLength fun _ _ => .last (h _)
  · next ht =>
    exact .past ht rfl fun _ => .behind (.expect _) fun _ _ => .behind (.nonterminal .type)
      fun _ _ => .behind (.expect _) fun _ _ => .last (h _)
  · next ht => exact .past ht rfl fun _ => .behind (.eat _) fun _ _ => .last (h _)
  · next ht => exact .past ht rfl fun _ => .behind (.expect _) fun _ _ => .last (h _)
  · next ht => exact .past ht rfl fun _ => .last (signature_ends h)
  · exact .last (bracedFields_ends fun _ => .nonterminal .fields)
  · exact .last (bracedFields_ends fun _ => .nonterminal .methods)
  · exact .behind .advance fun _ _ => .behind (.nonterminal .type) fun _ _ =>
      .last (.expectSymbol rfl)
  · exact .wanted

end

theorem type_ends (n : Nat) (t : Token) : Ends n t true (full .type) := by
  induction n generalizing t with
  | zero => exact fun c _ _ _ _ hn => absurd hn (Nat.not_lt_zero _)
  | succ n ih =>
    intro c a c' hc hend hn h
    rw [full_eq_step hend] at h
    exact typeExpr_ends ih c a c' hc hend hn h

theorem func_ends : Ends n t true (func full) := by
  refine .look rfl fun pos _ => .behind (.expect _) fun _ _ => .behind (.receiver pos) fun _ _ =>
    .behind .identName fun _ _ => .seq (signature_ends (type_ends n)) fun sig _ => ?_
  refine .look rfl fun _ _ => .choice (.last (.map ?_)) (.look rfl fun _ _ => .pure)
  exact .look rfl fun _ _ => .behind (.expect _) fun _ _ => .behind (.nonterminal .stmts) fun _ _ =>
    .last (.expectSymbol rfl)

theorem importSpec_ends : Ends n t true importSpec := by
  have hpath (name : Option String) (u : Token) : Ends n u true (importPath name) := by
    refine .take fun u => ?_
    split
    · next hk => rw [hk]; exact .pure
    · exact .throw
  refine .look rfl fun _ _ => ?_
  dsimp only
  split
  · exact .behind .advance fun _ _ => .look rfl hpath
  · exact .behind .advance fun _ _ => .look rfl hpath
  · exact .look rfl hpath

theorem importClause_ends : Ends n t true (importClause full) := by
  refine .behind (.eat _) fun _ _ => .choice ?_ (.map importSpec_ends)
  exact .behind (.nonterminal .importSpecs) fun _ _ => .last (.expectSymbol rfl)

/-- The package of a file, up to the end of its clause. -/
def packageClause : Parser String := do
  let _ ← expectKeyword .package
  identName

theorem packageClause_ends : Ends n t true packageClause :=
  .behind (.expect _) fun _ _ => identName_ends

/-- The front part of a file, up to its declarations. -/
def header (g : Grammar) : Parser (String × List Import) := do
  let package ← packageClause
  stmtEnd
  return (package, ← g .imports)

theorem file_eq (g : Grammar) :
    g.file = do
      let (package, imports) ← g.header
      return ⟨package, imports, ← g .decls⟩ := by
  simp [file, header, packageClause]

/-- The tokens at which a statement ends though no semicolon is there, the end mark apart. -/
def closers : List Token.Kind :=
  [.symbol .rBrace, .symbol .rParen, .keyword .case_, .keyword .default_]

/-- What is read up to a semicolon is read whatever is behind that. -/
theorem stmtEnd_local {α : Type} {f : α → α} {F : Grammar → Parser α}
    (hF : ∀ {n t g g' h}, Grammar.Lockstep n g g' h → Parser.Lockstep n t false f (F g) (F g') (F h))
    (hends : ∀ n t, Ends n t true (F full)) {us : List Token} (hus : Closed false us)
    {p c : Cursor} {a : α} (hp : F full (.ofTokens us) = .ok a p) (hend : stmtEnd p = .ok () c)
    (hnext : Terminated c.tokens → c.current.kind ∉ closers) :
    ∃ taken, us = taken ++ c.tokens ∧ c.level = 0 ∧ ∀ vs, Terminated vs →
      ∃ p', F full (.ofTokens (taken.map erase ++ vs)) = .ok (f a) p' ∧
        stmtEnd p' = .ok () (.ofTokens vs) := by
  have htokens := Cursor.tokens_ofTokens hus.terminated.ne_nil
  have hterm := Cursor.terminated_ofTokens hus.terminated
  obtain ⟨heq, horderly, -⟩ := hF (lockstep_full full full _) _ rfl hterm (Nat.lt_succ_self _)
  rw [← heq, hp] at horderly
  obtain ⟨hreach, -⟩ := horderly
  obtain ⟨hk, hpass⟩ | ⟨hk, hstay⟩ | hfail := stmtEnd_cases p.current.kind
  · cases (hpass p rfl).symm.trans hend
    have hstop := Cursor.tokens_eq (hreach.terminated hterm) (by simp [hk])
    obtain ⟨front, hfront⟩ := hreach.suffix
    rw [htokens, hstop] at hfront
    refine ⟨front ++ [p.current], by simp [← hfront], ?_, fun vs hvs => ?_⟩
    · rw [p.reaches_next.level, hreach.level, Cursor.level_ofTokens]
    have hvs' : Terminated ((front ++ [p.current]).map erase ++ vs) := hvs.append _
    have halike : (Cursor.ofTokens us).Alike p.next.tokens vs
        (.ofTokens ((front ++ [p.current]).map erase ++ vs)) := by
      refine ⟨by rw [Cursor.level_ofTokens, Cursor.level_ofTokens], ?_⟩
      rw [htokens, Cursor.tokens_ofTokens hvs'.ne_nil, ← hfront, List.map_append, List.append_assoc]
      exact .append front (.stop p.current (.inr ⟨List.cons_ne_nil _ _, hk⟩))
    have herased := erased_full hF hterm (Cursor.terminated_ofTokens hvs') halike
      (by rw [Parser.leaves, hp]; exact Nat.le_of_succ_le_succ (congrArg List.length hstop).ge)
    rw [hp] at herased
    generalize F full (.ofTokens _) = r at herased ⊢
    cases herased with
    | @ok _ _ p' hp' =>
      refine ⟨p', rfl, (hpass p' (hp'.current ▸ rfl)).trans (congrArg _ ?_)⟩
      refine hp'.next_eq hstop (by simp [hk]) hvs.ne_nil ?_
      rw [hreach.level, Cursor.level_ofTokens]
  · cases (hstay p rfl).symm.trans hend
    have heof : p.current.kind = .eof := by
      replace hnext := hnext (hreach.terminated hterm)
      simp only [closers, List.mem_cons, List.not_mem_nil, or_false, not_or] at hk hnext
      simpa [hnext] using hk
    obtain ⟨⟨⟩, -⟩ | ⟨u, hu, hlast⟩ := hends _ _ _ a p rfl hterm (Nat.lt_succ_self _) hp
    rw [htokens] at hlast
    have hclosed := hus.behind_suffix hlast (List.cons_ne_nil _ _)
    rw [hu] at hclosed
    generalize hps : p.tokens = ps at hclosed
    cases hclosed with
    | cons ht _ =>
      cases hps
      exact absurd heof ht
  · obtain ⟨e, he⟩ := hfail p rfl
    cases he.symm.trans hend

theorem full_ofTokens {ts : List Token} (hts : Terminated ts) (s : Nonterminal) :
    full s (.ofTokens ts) = step full s (.ofTokens ts) :=
  full_eq_step (Cursor.terminated_ofTokens hts) s

theorem decls_semicolon {t : Token} {ts : List Token} (hts : Terminated ts)
    (hk : t.kind = .symbol .semiColon) :
    full .decls (.ofTokens (t :: ts)) = full .decls (.ofTokens ts) := by
  obtain ⟨kind, range⟩ := t
  cases hk
  cases ts with
  | nil => exact absurd rfl hts.ne_nil
  | cons u ts => exact full_ofTokens (hts.append [_]) .decls

theorem decls_skipped {t : Token} {ts : List Token} (hts : Terminated (t :: ts))
    (hk : t.kind.startsSkipped) :
    full .decls (.ofTokens (t :: ts)) = full .decls (.ofTokens (skipFrom 0 (t :: ts))) := by
  obtain ⟨kind, range⟩ := t
  obtain rfl | rfl | rfl := hk <;> exact full_ofTokens hts .decls

theorem decls_func {c p : Cursor} {f : Func} (hend : Terminated c.tokens)
    (hf : func full c = .ok f p) :
    full .decls c = (do stmtEnd; return f :: (← full .decls) : Parser (List Func)) p := by
  have hk : c.current.kind = .keyword .func := by
    obtain ⟨_, _, ⟨⟩, hrest⟩ := bind_eq_ok.mp hf
    obtain ⟨_, _, hword, -⟩ := bind_eq_ok.mp hrest
    simp only [expectKeyword, expect] at hword
    split at hword
    · assumption
    · cases hword
  have hstep : step full .decls c = (do
      let f ← func full
      stmtEnd
      return f :: (← full .decls) : Parser (List Func)) c := by
    obtain ⟨level, ⟨kind, range⟩, rest⟩ := c
    cases hk
    rfl
  rw [full_eq_step hend, hstep]
  change EStateM.bind _ _ _ = _
  rw [EStateM.bind, hf]

theorem kind_of_decls {c e : Cursor} {fs : List Func} (hend : Terminated c.tokens)
    (h : full .decls c = .ok fs e) : c.current.kind ∉ .keyword .import_ :: closers := by
  rw [full_eq_step hend] at h
  obtain ⟨level, ⟨kind, range⟩, rest⟩ := c
  intro hk
  simp only [closers, List.mem_cons, List.not_mem_nil, or_false] at hk
  obtain rfl | rfl | rfl | rfl | rfl := hk <;> cases h

/-- Whether the loop over declarations, from the tokens that are given last on, comes by `after`. -/
inductive LoopPoint (after : List Token) : List Token → Prop
  | here : LoopPoint after after
  | semicolon {t : Token} {ts : List Token} (hk : t.kind = .symbol .semiColon)
      (h : LoopPoint after ts) : LoopPoint after (t :: ts)
  | func {ts : List Token} {f : Func} {p c : Cursor} (hf : Grammar.func full (.ofTokens ts) = .ok f p)
      (hend : stmtEnd p = .ok () c) (h : LoopPoint after c.tokens) : LoopPoint after ts
  | skipped {t : Token} {ts : List Token} (hk : t.kind.startsSkipped)
      (h : LoopPoint after (skipFrom 0 (t :: ts))) : LoopPoint after (t :: ts)

/-- A declaration that was added is passed over, also where another one has been dropped in part. -/
theorem decls_skipFrom {d rest : List Token} {semi u : Token} {k : Nat} (hd : Skippable d)
    (hsemi : semi.kind = .symbol .semiColon) (hend : Terminated (u :: rest))
    (hu : k = 0 ∨ u.kind.endsDecl k = true) :
    full .decls (.ofTokens (skipFrom k ((d ++ semi :: u :: rest).map erase))) =
      full .decls (.ofTokens ((u :: rest).map erase)) := by
  rw [List.map_append, hd.skipFrom k (by simp), List.map_cons]
  by_cases hstop : semi.erase.kind.endsDecl k = true
  · rw [Token.skipFrom_stop hstop]
    exact decls_semicolon hend.map_erase hsemi
  · have hk : k ≠ 0 := by
      rintro rfl
      exact hstop (congrArg (Token.Kind.endsDecl 0) hsemi)
    have hdepth : semi.erase.kind.depthAfter k = k := congrArg (Token.Kind.depthAfter k) hsemi
    rw [Token.skipFrom_cons k semi.erase (by simp), if_neg hstop, hdepth, List.map_cons,
      Token.skipFrom_stop (t := u.erase) (hu.resolve_left hk)]

theorem decls_unseen {rest d us : List Token} {semi u : Token} (hd : Skippable d)
    (hsemi : semi.kind = .symbol .semiColon) (hrest : Terminated (u :: rest))
    (hpoint : LoopPoint (u :: rest) us) (hus : Closed false us) {fs : List Func} {e : Cursor}
    (h : full .decls (.ofTokens us) = .ok fs e) :
    ∃ front, us = front ++ u :: rest ∧ ∃ e', full .decls
      (.ofTokens (front.map erase ++ (d ++ semi :: u :: rest).map erase)) =
        .ok (fs.map Func.erase) e' := by
  have hadded : Terminated ((d ++ semi :: u :: rest).map erase) :=
    ((hrest.append [semi]).append d).map_erase
  have hpassed : full .decls (.ofTokens ((d ++ semi :: u :: rest).map erase)) =
      full .decls (.ofTokens ((u :: rest).map erase)) := by
    obtain ⟨t, ht, hstarts⟩ := hd.starts
    obtain ⟨d, rfl⟩ := List.head?_eq_some_iff.mp ht
    exact (decls_skipped hadded hstarts).trans (decls_skipFrom hd hsemi hrest (.inl rfl))
  induction hpoint generalizing fs with
  | here =>
    have herased := erased_ofTokens (fun hg => hg .decls) hrest
    rw [h] at herased
    refine ⟨[], rfl, ?_⟩
    rw [List.map_nil, List.nil_append, hpassed]
    generalize full .decls (.ofTokens ((u :: rest).map erase)) = r at herased ⊢
    cases herased with
    | ok => exact ⟨_, rfl⟩
  | @semicolon t us hk _ ih =>
    cases hus with
    | eof => cases hk
    | cons _ hus =>
      rw [decls_semicolon hus.terminated hk] at h
      obtain ⟨front, hfront, e', hdecls⟩ := ih hus.forget h
      refine ⟨t :: front, congrArg (t :: ·) hfront, e', ?_⟩
      rw [← hdecls]
      exact decls_semicolon (hadded.append _) hk
  | @func us f p c hf hend _ ih =>
    have hterm := hus.terminated
    rw [decls_func (Cursor.terminated_ofTokens hterm) hf] at h
    obtain ⟨⟨⟩, _, hc, h⟩ := bind_eq_ok.mp h
    cases hend.symm.trans hc
    obtain ⟨fs, _, hfs, ⟨⟩⟩ := bind_eq_ok.mp h
    obtain ⟨taken, htaken, hlevel, hlocal⟩ := stmtEnd_local
      (fun hg => (func_lockstep hg).lower.forget) (fun _ _ => func_ends) hus hf hend
      fun hc hk => kind_of_decls hc hfs (List.mem_cons_of_mem _ hk)
    rw [Cursor.eq_ofTokens hlevel rfl] at hfs
    obtain ⟨front, hfront, e', hdecls⟩ :=
      ih (hus.suffix ⟨taken, htaken.symm⟩ (List.cons_ne_nil _ _)) hfs
    obtain ⟨p', hp', hend'⟩ := hlocal _ (hadded.append (front.map erase))
    refine ⟨taken ++ front, by rw [List.append_assoc, ← hfront, htaken], e', ?_⟩
    rw [List.map_append, List.append_assoc, decls_func ?_ hp']
    · exact bind_eq_ok.mpr ⟨(), _, hend', bind_eq_ok.mpr ⟨_, _, hdecls, rfl⟩⟩
    · exact Cursor.terminated_ofTokens ((hadded.append (front.map erase)).append (taken.map erase))
  | @skipped t us hk _ ih =>
    have hterm := hus.terminated
    rw [decls_skipped hterm hk] at h
    obtain ⟨dropped, k, v, vs, heq, hskip, hv, hbehind⟩ := Token.exists_skipFrom 0 hterm
    rw [hskip] at ih h
    obtain ⟨front, hfront, e', hdecls⟩ :=
      ih (hus.suffix ⟨dropped, heq.symm⟩ (List.cons_ne_nil v vs)) h
    refine ⟨dropped ++ front, by rw [List.append_assoc, ← hfront, heq], e', ?_⟩
    rw [← hdecls, List.map_append, List.append_assoc]
    cases dropped with
    | nil =>
      obtain ⟨rfl, -⟩ := List.cons.inj heq
      obtain hk | hk | hk := hk <;> simp [hk, Token.Kind.endsDecl] at hv
    | cons t' dropped =>
      obtain ⟨rfl, -⟩ := List.cons.inj heq
      have hterm' := (hadded.append (front.map erase)).append ((t :: dropped).map erase)
      have hskip' := hbehind _ (hadded.append (front.map erase)).ne_nil
      refine ((decls_skipped hterm' hk).trans (congrArg (full .decls ∘ .ofTokens) hskip')).trans ?_
      cases front with
      | nil =>
        obtain ⟨rfl, rfl⟩ := List.cons.inj hfront
        exact (decls_skipFrom hd hsemi hrest (.inr hv)).trans hpassed.symm
      | cons v' front =>
        obtain ⟨rfl, -⟩ := List.cons.inj hfront
        exact congrArg (full .decls ∘ .ofTokens) (Token.skipFrom_stop (t := v.erase) hv)

theorem packageClause_lockstep : Parser.Lockstep n t false id packageClause packageClause packageClause :=
  .seq fun _ _ => .steady

theorem imports_stop {c : Cursor} (hend : Terminated c.tokens)
    (hk : c.current.kind ≠ .keyword .import_) : full .imports c = .ok [] c := by
  rw [full_eq_step hend]
  have heat : eat (.keyword .import_) c = .ok false c := if_neg hk
  change EStateM.bind _ _ _ = _
  rw [EStateM.bind, heat]
  rfl

theorem imports_cons {t : Token} {ts : List Token} (hts : Terminated ts)
    (hk : t.kind = .keyword .import_) :
    full .imports (.ofTokens (t :: ts)) = (do
      let specs ← importClause full
      stmtEnd
      return specs ++ (← full .imports) : Parser (List Import)) (.ofTokens ts) := by
  refine (full_ofTokens (hts.append [t]) .imports).trans ?_
  change imports full _ = _
  rw [imports_eq]
  obtain ⟨kind, range⟩ := t
  cases hk
  cases ts with
  | nil => exact absurd rfl hts.ne_nil
  | cons u ts => rfl

theorem kind_of_imports {c start e : Cursor} {is : List Import} {fs : List Func}
    (hend : Terminated c.tokens) (h : full .imports c = .ok is start)
    (hdecls : full .decls start = .ok fs e) : c.current.kind ∉ closers := by
  by_cases hk : c.current.kind = .keyword .import_
  · simp [hk, closers]
  · cases (imports_stop hend hk).symm.trans h
    exact fun hk => kind_of_decls hend hdecls (List.mem_cons_of_mem _ hk)

/-- Whether `a` is read from the tokens in front of `start`, whatever is behind them but imports. -/
def ReadsFront {α : Type} (p : Parser α) (ts : List Token) (a : α) (start : Cursor) : Prop :=
  ∃ front, ts = front ++ start.tokens ∧ start.level = 0 ∧ ∀ vs, Terminated vs →
    (Cursor.ofTokens vs).current.kind ≠ .keyword .import_ →
      p (.ofTokens (front.map erase ++ vs)) = .ok a (.ofTokens vs)

/-- A clause in front of imports. -/
theorem clause_readsFront {α β : Type} {F : Grammar → Parser α} {k : α → List Import → β}
    (hF : ∀ {n t g g' h}, Grammar.Lockstep n g g' h → Parser.Lockstep n t false id (F g) (F g') (F h))
    (hends : ∀ n t, Ends n t true (F full)) {ts : List Token} (hts : Closed false ts) {b : β}
    {start e : Cursor} {fs : List Func} (hdecls : full .decls start = .ok fs e)
    (h : (do let a ← F full; stmtEnd; return k a (← full .imports) : Parser β) (.ofTokens ts) = .ok b start)
    (himports : ∀ {us is}, us.length ≤ ts.length → Closed false us →
      full .imports (.ofTokens us) = .ok is start → ReadsFront (full .imports) us is start) :
    ReadsFront (do let a ← F full; stmtEnd; return k a (← full .imports)) ts b start := by
  obtain ⟨a, p, hp, h⟩ := bind_eq_ok.mp h
  obtain ⟨⟨⟩, c, hend, h⟩ := bind_eq_ok.mp h
  obtain ⟨is, _, his, ⟨⟩⟩ := bind_eq_ok.mp h
  obtain ⟨taken, rfl, hlevel, hlocal⟩ := stmtEnd_local hF hends hts hp hend
    fun hc => kind_of_imports hc his hdecls
  rw [Cursor.eq_ofTokens hlevel rfl] at his
  have hsuffix := List.suffix_append taken c.tokens
  obtain ⟨front, hfront, hstart, hread⟩ := himports hsuffix.length_le
    (hts.suffix hsuffix (List.cons_ne_nil _ _)) his
  refine ⟨taken ++ front, by rw [hfront, List.append_assoc], hstart, fun vs hvs hv => ?_⟩
  obtain ⟨p', hp', hend'⟩ := hlocal _ (hvs.append (front.map erase))
  rw [List.map_append, List.append_assoc]
  exact bind_eq_ok.mpr ⟨_, _, hp', bind_eq_ok.mpr ⟨(), _, hend',
    bind_eq_ok.mpr ⟨_, _, hread vs hvs hv, rfl⟩⟩⟩

/-- The induction is on the number of tokens. -/
theorem imports_readsFront {ts : List Token} (hts : Closed false ts) {is : List Import}
    {start e : Cursor} {fs : List Func} (hdecls : full .decls start = .ok fs e)
    (h : full .imports (.ofTokens ts) = .ok is start) : ReadsFront (full .imports) ts is start := by
  induction hn : ts.length using Nat.strong_induction_on generalizing ts is with
  | _ n ih =>
    by_cases hk : (Cursor.ofTokens ts).current.kind = .keyword .import_
    · cases hts with
      | eof => cases hk
      | @cons _ t ts _ hts =>
        change t.kind = _ at hk
        rw [imports_cons hts.terminated hk] at h
        obtain ⟨front, hfront, hstart, hread⟩ := clause_readsFront importClause_lockstep
          (fun _ _ => importClause_ends) hts.forget hdecls h fun hlen hus his =>
            ih _ (by rw [← hn, List.length_cons]; omega) hus his rfl
        refine ⟨t :: front, congrArg (t :: ·) hfront, hstart, fun vs hvs hv => ?_⟩
        rw [← hread vs hvs hv]
        exact imports_cons (hvs.append _) hk
    · have htokens := Cursor.tokens_ofTokens hts.terminated.ne_nil
      cases (imports_stop (Cursor.terminated_ofTokens hts.terminated) hk).symm.trans h
      refine ⟨[], htokens.symm, Cursor.level_ofTokens ts, fun vs hvs hv => ?_⟩
      exact imports_stop (Cursor.terminated_ofTokens hvs) hv

theorem header_readsFront {ts : List Token} (hts : Closed false ts)
    {front : String × List Import} {start e : Cursor} {fs : List Func}
    (hdecls : full .decls start = .ok fs e) (h : header full (.ofTokens ts) = .ok front start) :
    ReadsFront (header full) ts front start :=
  clause_readsFront (F := fun _ => packageClause) (fun _ => packageClause_lockstep)
    (fun _ _ => packageClause_ends) hts hdecls h fun _ hus => imports_readsFront hus hdecls

theorem run_file_iff {ts : List Token} {file : File} :
    File.parser.run ts = .ok file ↔ ∃ start e,
      header full (.ofTokens ts) = .ok (file.package, file.imports) start ∧
        full .decls start = .ok file.funcs e := by
  unfold Parser.run File.parser
  rw [file_eq]
  constructor
  · intro h
    split at h
    · next heq =>
      cases h
      obtain ⟨_, start, hheader, hrest⟩ := bind_eq_ok.mp heq
      obtain ⟨fs, e, hdecls, ⟨⟩⟩ := bind_eq_ok.mp hrest
      exact ⟨start, _, hheader, hdecls⟩
    · cases h
  · rintro ⟨start, e, hheader, hdecls⟩
    have hrest : (do return ⟨file.package, file.imports, ← full .decls⟩ : Parser File) start = .ok file e :=
      bind_eq_ok.mpr ⟨_, _, hdecls, rfl⟩
    rw [bind_eq_ok.mpr ⟨_, _, hheader, hrest⟩]

/-- Declarations that are passed over leave no trace. Wherever the loop over the declarations of a file
comes by, one of them can be put in, with a semicolon behind it. The file is read as before: to the same
package, the same imports, and functions that are the same, places apart. -/
theorem file_skippable {before after d ts : List Token} {t semi : Token} {file : File}
    (hts : Closed false (before ++ t :: after))
    (hfile : File.parser.run (before ++ t :: after) = .ok file)
    (hpoint : ∃ front start, header full (.ofTokens (before ++ t :: after)) = .ok front start ∧
      LoopPoint (t :: after) start.tokens)
    (hd : Skippable d) (hsemi : semi.kind = .symbol .semiColon)
    (hkinds : ts.map Token.kind = (before ++ (d ++ semi :: t :: after)).map Token.kind) :
    ∃ file', File.parser.run ts = .ok file' ∧ file'.same file = true := by
  obtain ⟨start, e, hheader, hdecls⟩ := run_file_iff.mp hfile
  obtain ⟨_, _, hheader', hpoint⟩ := hpoint
  cases hheader.symm.trans hheader'
  obtain ⟨taken, htaken, hlevel, hread⟩ := header_readsFront hts hdecls hheader
  rw [Cursor.eq_ofTokens hlevel rfl] at hdecls
  have hafter := hts.terminated.suffix (List.suffix_append before _) (List.cons_ne_nil t after)
  obtain ⟨front, hfront, e', hdecls'⟩ := decls_unseen hd hsemi hafter hpoint
    (hts.suffix ⟨taken, htaken.symm⟩ (List.cons_ne_nil _ _)) hdecls
  obtain rfl : before = taken ++ front := by
    rw [hfront, ← List.append_assoc] at htaken
    exact List.append_cancel_right htaken
  have hadded : Terminated (d ++ semi :: t :: after) := (hafter.append [semi]).append d
  have hbehind := hadded.map_erase.append (front.map erase)
  have hhead : (Cursor.ofTokens _).current.kind ≠ .keyword .import_ := fun hk =>
    kind_of_decls (Cursor.terminated_ofTokens hbehind) hdecls' (hk ▸ List.mem_cons_self)
  have hread' : File.parser.run (ts.map erase) = .ok file.erase := by
    rw [Token.map_erase_eq hkinds, List.append_assoc, List.map_append, List.map_append]
    exact run_file_iff.mpr ⟨_, _, hread _ hbehind hhead, hdecls'⟩
  have hterm : Terminated ts := by
    rw [Token.terminated_iff, hkinds, ← Token.terminated_iff]
    exact hadded.append _
  have herase := erase_file hterm
  rw [hread'] at herase
  cases hfile' : File.parser.run ts with
  | error e => simp [hfile', Except.toOption] at herase
  | ok file' =>
    rw [hfile'] at herase
    exact ⟨file', rfl, (File.same_iff _ _).mpr (Option.some.inj herase)⟩

/-- The tokens of a file up to its second function. -/
def firstDecls : List Token :=
  [.keyword .package, .ident "p", .symbol .semiColon, .keyword .import_, .literal .string "q",
    .symbol .semiColon, .keyword .func, .ident "f", .symbol .lParen, .symbol .rParen,
    .symbol .semiColon, .keyword .const, .ident "c", .symbol .assign, .literal .int "1",
    .symbol .semiColon].map (⟨·, default⟩)

/-- The tokens of `func g();`, up to the end. -/
def lastDecl : List Token :=
  [.keyword .func, .ident "g", .symbol .lParen, .symbol .rParen, .symbol .semiColon, .eof].map
    (⟨·, default⟩)

/-- The tokens of `type t struct { a []int; b func() }`. -/
def structDecl : List Token :=
  [.keyword .type, .ident "t", .keyword .struct, .symbol .lBrace, .ident "a", .symbol .lBracket,
    .symbol .rBracket, .ident "int", .symbol .semiColon, .ident "b", .keyword .func, .symbol .lParen,
    .symbol .rParen, .symbol .rBrace].map (⟨·, default⟩)

/-- Between two functions, behind a declaration that is passed over, another one is. -/
theorem structDecl_skippable :
    ∃ file, File.parser.run (firstDecls ++ lastDecl) = .ok file ∧ file.funcs.map (·.name) = ["f", "g"] ∧
      ∃ file', File.parser.run (firstDecls ++ (structDecl ++ ⟨.symbol .semiColon, default⟩ :: lastDecl)) =
        .ok file' ∧ file'.same file = true := by
  have hclosed : Closed false (firstDecls ++ lastDecl) := by
    repeat first | exact .eof _ | refine .cons (by decide) ?_
  have hpoint : ∃ front start, header full (.ofTokens (firstDecls ++ lastDecl)) = .ok front start ∧
      LoopPoint lastDecl start.tokens :=
    ⟨_, _, rfl, .func rfl rfl (.skipped (.inr (.inl rfl)) (.semicolon rfl .here))⟩
  have hd : Skippable structDecl :=
    ⟨⟨_, rfl, .inr (.inr rfl)⟩, by decide, by decide, by decide, by decide⟩
  exact ⟨_, rfl, rfl, file_skippable hclosed rfl hpoint hd rfl rfl⟩

end Grammar

end GoSift
