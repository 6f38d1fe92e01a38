import GoSift.Proofs.Syntax.Forward

/-!
What a parser does with the tokens ahead. The judgement speaks of the kinds of the tokens alone, so what
it says does not depend on where they stand in the source.
-/
namespace GoSift

open Token

/-- The kinds of the tokens from the cursor on. -/
def Cursor.kinds (c : Cursor) : List Kind :=
  c.tokens.map Token.kind

theorem Cursor.kinds_next {c : Cursor} {k : Kind} {ks : List Kind} (h : c.kinds = k :: ks)
    (heof : k ≠ .eof) (hend : .eof ∈ c.kinds.getLast?) :
    c.next.kinds = ks ∧ c.next.level = c.level ∧ .eof ∈ c.next.kinds.getLast? := by
  rw [h] at hend
  rw [kinds, tokens, List.map_cons, List.cons.injEq] at h
  obtain ⟨hkind, rfl⟩ := h
  unfold next
  rw [if_neg (hkind ▸ heof)]
  cases hc : c.rest with
  | nil =>
    rw [hc] at hend
    exact absurd (Option.some.inj hend) heof
  | cons t ts =>
    rw [hc] at hend
    exact ⟨rfl, rfl, hend⟩

namespace Parser

/-- With tokens of the given kinds ahead, up to the end mark, and not in the header of a statement, a
parser succeeds and leaves the level as it was. `Q` tells its result and the kinds of the tokens it
leaves. -/
def Reads {α : Type} (p : Parser α) (kinds : List Kind) (Q : α → List Kind → Prop) : Prop :=
  ∀ c : Cursor, c.kinds = kinds → .eof ∈ c.kinds.getLast? → 0 ≤ c.level →
    ∃ a c', p c = .ok a c' ∧ .eof ∈ c'.kinds.getLast? ∧ c'.level = c.level ∧ Q a c'.kinds

namespace Reads

variable {α β : Type} {p : Parser α} {f : α → Parser β} {k k' : Kind} {ks : List Kind}

theorem pure {Q : α → List Kind → Prop} {a : α} (h : Q a ks) : Reads (Pure.pure a) ks Q := by
  rintro c rfl hend -
  exact ⟨a, c, rfl, hend, rfl, h⟩

theorem mono {Q R : α → List Kind → Prop} (h : Reads p ks Q) (hQ : ∀ a left, Q a left → R a left) :
    Reads p ks R := by
  intro c hc hend hlevel
  obtain ⟨a, c', hp, hend', hlevel', hq⟩ := h c hc hend hlevel
  exact ⟨a, c', hp, hend', hlevel', hQ a _ hq⟩

theorem bind {Q : β → List Kind → Prop} (h : Reads p ks fun a left => Reads (f a) left Q) :
    Reads (p >>= f) ks Q := by
  intro c hc hend hlevel
  obtain ⟨a, c₁, hp, hend₁, hlevel₁, hf⟩ := h c hc hend hlevel
  obtain ⟨b, c₂, hb, hend₂, hlevel₂, hQ⟩ := hf c₁ rfl hend₁ (hlevel₁ ▸ hlevel)
  refine ⟨b, c₂, ?_, hend₂, hlevel₂.trans hlevel₁, hQ⟩
  change EStateM.bind p f c = _
  rw [EStateM.bind, hp]
  exact hb

theorem map {Q : β → List Kind → Prop} {g : α → β} (h : Reads p ks fun a left => Q (g a) left) :
    Reads (g <$> p) ks Q := by
  intro c hc hend hlevel
  obtain ⟨a, c₁, hp, hQ⟩ := h c hc hend hlevel
  refine ⟨g a, c₁, ?_, hQ⟩
  change EStateM.map g p c = _
  rw [EStateM.map, hp]

theorem current {Q : Token → List Kind → Prop} (h : ∀ t : Token, t.kind = k → Q t (k :: ks)) :
    Reads Parser.current (k :: ks) Q := by
  intro c hc hend _
  refine ⟨c.current, c, rfl, hend, rfl, ?_⟩
  rw [hc]
  exact h _ (List.cons.inj hc).1

theorem kind {Q : Kind → List Kind → Prop} (h : Q k (k :: ks)) :
    Reads Parser.kind (k :: ks) Q := by
  intro c hc hend _
  refine ⟨c.current.kind, c, rfl, hend, rfl, ?_⟩
  rw [hc, show c.current.kind = k from (List.cons.inj hc).1]
  exact h

theorem secondKind {Q : Kind → List Kind → Prop} (h : Q k' (k :: k' :: ks)) :
    Reads Parser.secondKind (k :: k' :: ks) Q := by
  intro c hc hend _
  refine ⟨_, c, rfl, hend, rfl, ?_⟩
  have hrest : c.rest.map Token.kind = k' :: ks := (List.cons.inj hc).2
  cases hr : c.rest with
  | nil =>
    rw [hr] at hrest
    cases hrest
  | cons t ts =>
    rw [hr, List.map_cons, List.cons.injEq] at hrest
    dsimp only
    rw [hc, hrest.1]
    exact h

theorem level {Q : Int → List Kind → Prop} (h : ∀ n : Int, 0 ≤ n → Q n ks) :
    Reads Parser.level ks Q := by
  rintro c rfl hend hlevel
  exact ⟨c.level, c, rfl, hend, rfl, h _ hlevel⟩

theorem advance {Q : Token → List Kind → Prop} (heof : k ≠ .eof)
    (h : ∀ t : Token, t.kind = k → Q t ks) : Reads Parser.advance (k :: ks) Q := by
  intro c hc hend _
  obtain ⟨hnext, hlevel, hend'⟩ := Cursor.kinds_next hc heof hend
  refine ⟨c.current, c.next, rfl, hend', hlevel, ?_⟩
  rw [hnext]
  exact h _ (List.cons.inj hc).1

theorem eat {Q : Bool → List Kind → Prop} (heof : k ≠ .eof) (h : Q true ks) :
    Reads (Parser.eat k) (k :: ks) Q := by
  intro c hc hend _
  obtain ⟨hnext, hlevel, hend'⟩ := Cursor.kinds_next hc heof hend
  refine ⟨true, c.next, if_pos (List.cons.inj hc).1, hend', hlevel, ?_⟩
  rw [hnext]
  exact h

theorem eat_other {Q : Bool → List Kind → Prop} (hne : k ≠ k') (h : Q false (k :: ks)) :
    Reads (Parser.eat k') (k :: ks) Q := by
  intro c hc hend _
  have hkind : c.current.kind = k := (List.cons.inj hc).1
  refine ⟨false, c, if_neg (hkind ▸ hne), hend, rfl, ?_⟩
  rw [hc]
  exact h

theorem expect {Q : Token → List Kind → Prop} (heof : k ≠ .eof)
    (h : ∀ t : Token, t.kind = k → Q t ks) : Reads (Parser.expect k) (k :: ks) Q := by
  intro c hc hend _
  have hkind : c.current.kind = k := (List.cons.inj hc).1
  obtain ⟨hnext, hlevel, hend'⟩ := Cursor.kinds_next hc heof hend
  refine ⟨c.current, c.next, if_pos hkind, hend', hlevel, ?_⟩
  rw [hnext]
  exact h _ hkind

theorem finish {Q : Unit → List Kind → Prop} (h : Q () (.eof :: ks)) :
    Reads Parser.finish (.eof :: ks) Q := by
  intro c hc hend _
  refine ⟨(), c, if_pos (List.cons.inj hc).1, hend, rfl, ?_⟩
  rw [hc]
  exact h

theorem bracketed {Q : α → List Kind → Prop} (h : Reads p ks Q) :
    Reads (Parser.bracketed p) ks Q := by
  intro c hc hend hlevel
  obtain ⟨a, c', hp, hend', hlevel', hQ⟩ :=
    h { c with level := c.level + 1 } hc hend (Int.le_add_one hlevel)
  refine ⟨a, { c' with level := c'.level - 1 }, ?_, hend', ?_, hQ⟩
  · unfold Parser.bracketed atLevel
    rw [hp]
  · dsimp only at hlevel' ⊢
    omega

/-- An identifier at the cursor. -/
theorem name {Q : Expr → List Kind → Prop} {text : String} (h : ∀ pos, Q (.ident pos text) ks) :
    Reads Parser.name (.ident text :: ks) Q := by
  refine .bind (.advance nofun fun t ht => ?_)
  simp only [ht]
  exact .pure (h t.start)

/-- The grammar is deep enough for the tokens ahead. -/
theorem full {n : Nonterminal} {Q : n.Tree → List Kind → Prop}
    (h : Reads (Grammar.bounded ks.length n) ks Q) : Reads (Grammar.full n) ks Q := by
  intro c hc hend hlevel
  have hsize : c.size + 1 = ks.length := by
    rw [← hc, Cursor.kinds, List.length_map]
    rfl
  obtain ⟨a, c', hp, hrest⟩ := h c hc hend hlevel
  refine ⟨a, c', ?_, hrest⟩
  rw [Grammar.full, hsize]
  exact hp

/-- A stream of tokens is read from its start, outside of all brackets. -/
theorem run {Q : α → List Kind → Prop} (h : Reads p ks Q) {ts : List Token}
    (hts : ts.map Token.kind = ks) (hend : .eof ∈ ks.getLast?) :
    ∃ a, p.run ts = .ok a ∧ ∃ left, Q a left := by
  subst hts
  cases ts with
  | nil => cases hend
  | cons t ts =>
    obtain ⟨a, c, hp, -, -, hQ⟩ := h (Cursor.ofTokens (t :: ts)) rfl hend (Int.le_refl 0)
    refine ⟨a, ?_, c.kinds, hQ⟩
    rw [Parser.run, hp]

end Reads

end Parser

end GoSift
