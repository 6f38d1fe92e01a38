import GoSift.Proofs.Syntax.Forward
import GoSift.Proofs.Syntax.Leading
import GoSift.Proofs.Token.Placement

/-!
The trail of a parser: the places it has given to trees so far. They are starts of tokens, none lies
behind the cursor's token, and each is at or behind those in front of it. A parser that gives a tree
puts the places of the tree at the end of the trail.
-/
namespace GoSift

/-- Whether a place is at or in front of another. -/
def Position.upTo (p q : Position) : Prop :=
  q.before p = false

namespace Position

theorem upTo_iff {p q : Position} :
    p.upTo q ↔ p.line < q.line ∨ p.line = q.line ∧ p.column ≤ q.column := by
  rw [upTo, Bool.eq_false_iff, ne_eq, before_iff]
  omega

theorem upTo_refl (p : Position) : p.upTo p := by
  rw [upTo_iff]
  omega

theorem upTo_trans {p q r : Position} (h : p.upTo q) (h' : q.upTo r) : p.upTo r := by
  rw [upTo_iff] at *
  omega

/-- The second list goes through places of the first in their order. It may pass over some and stop at
some more than once. -/
inductive Retraces : List Position → List Position → Prop
  | nil : Retraces [] []
  | skip {p : Position} {ps qs : List Position} (h : Retraces ps qs) : Retraces (p :: ps) qs
  | keep {p : Position} {ps qs : List Position} (h : Retraces ps qs) : Retraces (p :: ps) (p :: qs)
  | again {p : Position} {ps qs : List Position} (h : Retraces (p :: ps) qs) :
      Retraces (p :: ps) (p :: qs)

namespace Retraces

variable {ps qs ps' qs' : List Position} {p : Position}

theorem refl (ps : List Position) : Retraces ps ps := by
  induction ps with
  | nil => exact .nil
  | cons p ps ih => exact .keep ih

theorem of_eq (h : ps = qs) : Retraces ps qs :=
  h ▸ refl ps

/-- Passing over everything. -/
theorem nothing (ps : List Position) : Retraces ps [] := by
  induction ps with
  | nil => exact .nil
  | cons p ps ih => exact .skip ih

theorem append (h : Retraces ps qs) (h' : Retraces ps' qs') : Retraces (ps ++ ps') (qs ++ qs') := by
  induction h with
  | nil => exact h'
  | skip _ ih => exact .skip ih
  | keep _ ih => exact .keep ih
  | again _ ih => exact .again ih

/-- Stopping at the first place twice. -/
theorem double (h : Retraces ps (p :: qs)) : Retraces ps (p :: p :: qs) := by
  generalize hps : p :: qs = rs at h
  induction h with
  | nil => cases hps
  | skip _ ih => exact .skip (ih hps)
  | keep h =>
    cases hps
    exact .again (.keep h)
  | again h =>
    cases hps
    exact .again (.again h)

theorem subset (h : Retraces ps qs) : qs ⊆ ps := by
  induction h with
  | nil => exact List.Subset.refl _
  | skip _ ih => exact List.subset_cons_of_subset _ ih
  | keep _ ih => exact List.cons_subset_cons _ ih
  | again _ ih => exact List.cons_subset.mpr ⟨List.mem_cons_self, ih⟩

theorem pairwise (h : Retraces ps qs) (hps : ps.Pairwise upTo) : qs.Pairwise upTo := by
  induction h with
  | nil => exact .nil
  | skip _ ih => exact ih hps.tail
  | keep h ih =>
    obtain ⟨hp, hps⟩ := List.pairwise_cons.mp hps
    exact .cons (fun q hq => hp q (h.subset hq)) (ih hps)
  | @again p ps qs h ih =>
    refine .cons (fun q hq => ?_) (ih hps)
    rcases List.mem_cons.mp (h.subset hq) with rfl | hq
    · exact upTo_refl q
    · exact (List.pairwise_cons.mp hps).1 q hq

end Retraces

end Position

open Position

/-- Whether a token is never put in between those of the source. -/
def Token.Kind.isProper : Kind → Bool
  | .symbol .semiColon | .eof => false
  | _ => true

/-- Tokens that stand in the order of their starts. Those that are never put in are in `I`, and so is a
semicolon behind a colon. -/
structure Token.InOrder (I : Token → Prop) (ts : List Token) : Prop where
  sorted : ts.Pairwise fun t u => t.start.upTo u.start
  proper : ∀ t ∈ ts, t.kind.isProper → I t
  colon : ∀ t u rest, t :: u :: rest <:+ ts → t.kind = .symbol .colon →
    u.kind = .symbol .semiColon → I u

theorem Token.InOrder.suffix {I : Token → Prop} {ts us : List Token} (h : InOrder I ts)
    (hsuffix : us <:+ ts) : InOrder I us where
  sorted := h.sorted.sublist hsuffix.sublist
  proper t ht := h.proper t (hsuffix.subset ht)
  colon t u rest hrest := h.colon t u rest (hrest.trans hsuffix)

/-- The places given to trees in front of the cursor. -/
structure Cursor.Trail (I : Token → Prop) (ps : List Position) (c : Cursor) : Prop where
  ahead : Token.InOrder I c.tokens
  sorted : ps.Pairwise upTo
  passed : ∀ p ∈ ps, p.upTo c.current.start
  starts : ∀ p ∈ ps, ∃ t, I t ∧ p = t.start

namespace Cursor.Trail

variable {I : Token → Prop} {ps qs : List Position} {c c' : Cursor}

theorem forward (h : c.Trail I ps) (hsuffix : c'.tokens <:+ c.tokens) : c'.Trail I ps := by
  refine ⟨h.ahead.suffix hsuffix, h.sorted, fun p hp => ?_, h.starts⟩
  have hcurrent : c'.current ∈ c.tokens := hsuffix.subset List.mem_cons_self
  rcases List.mem_cons.mp hcurrent with heq | hlater
  · rw [heq]
    exact h.passed p hp
  · exact upTo_trans (h.passed p hp) ((List.pairwise_cons.mp h.ahead.sorted).1 _ hlater)

theorem retrace (h : c.Trail I ps) (hr : Retraces ps qs) : c.Trail I qs where
  ahead := h.ahead
  sorted := hr.pairwise h.sorted
  passed p hp := h.passed p (hr.subset hp)
  starts p hp := h.starts p (hr.subset hp)

/-- The start of the token at the cursor as the next place. -/
theorem push (h : c.Trail I ps) (hc : I c.current) : c.Trail I (ps ++ [c.current.start]) where
  ahead := h.ahead
  sorted := List.pairwise_append.mpr
    ⟨h.sorted, List.pairwise_singleton _ _, fun p hp q hq => List.mem_singleton.mp hq ▸ h.passed p hp⟩
  passed p hp := by
    rcases List.mem_append.mp hp with hp | hp
    · exact h.passed p hp
    · rw [List.mem_singleton.mp hp]
      exact upTo_refl _
  starts p hp := by
    rcases List.mem_append.mp hp with hp | hp
    · exact h.starts p hp
    · exact ⟨_, hc, List.mem_singleton.mp hp⟩

theorem own (h : c.Trail I ps) (hk : c.current.kind.isProper) : I c.current :=
  h.ahead.proper _ List.mem_cons_self hk

end Cursor.Trail

/-- At the token `t`, behind the trail `ps`, a parser leaves the trail `f a` for its result `a`. -/
def Parser.Trails {α : Type} (p : Parser α) (I : Token → Prop) (t : Token) (ps : List Position)
    (f : α → List Position) : Prop :=
  ∀ c a c', c.current = t → c.Trail I ps → p c = .ok a c' → c'.Trail I (f a)

namespace Parser.Trails

variable {α β : Type} {p : Parser α} {I : Token → Prop} {t : Token} {ps : List Position}
  {f : α → List Position} {h : β → List Position}

theorem pure {a : α} (hr : Retraces ps (f a)) : (Pure.pure a : Parser α).Trails I t ps f := by
  intro c b c' _ hc he
  cases he
  exact hc.retrace hr

theorem same {a : α} (h : ps = f a) : (Pure.pure a : Parser α).Trails I t ps f :=
  pure (.of_eq h)

theorem mono {f' : α → List Position} (hp : p.Trails I t ps f) (hr : ∀ a, Retraces (f a) (f' a)) :
    p.Trails I t ps f' :=
  fun c a c' hc htrail he => (hp c a c' hc htrail he).retrace (hr a)

theorem retrace {qs : List Position} (hr : Retraces ps qs) (hp : p.Trails I t qs f) :
    p.Trails I t ps f :=
  fun c a c' hc htrail he => hp c a c' hc (htrail.retrace hr) he

theorem throw {e : ParseError} : (throw e : Parser α).Trails I t ps f := by
  intro c b c' _ _ he
  cases he

theorem wanted {what : Expectation} : (Parser.wanted what : Parser α).Trails I t ps f := by
  intro c b c' _ _ he
  cases he

theorem any [Forward p] : p.Trails I t ps fun _ => ps :=
  fun _ _ _ _ hc he => hc.forward (Forward.suffix he)

theorem current {k : Token → Parser β} (hk : (k t).Trails I t ps h) :
    (Parser.current >>= k).Trails I t ps h := by
  rintro c b c' rfl hc he
  exact hk c b c' rfl hc he

theorem kind {k : Token.Kind → Parser β} (hk : (k t.kind).Trails I t ps h) :
    (Parser.kind >>= k).Trails I t ps h := by
  rintro c b c' rfl hc he
  exact hk c b c' rfl hc he

theorem secondKind {k : Token.Kind → Parser β} (hk : ∀ second, (k second).Trails I t ps h) :
    (Parser.secondKind >>= k).Trails I t ps h := by
  rintro c b c' rfl hc he
  exact hk _ c b c' rfl hc he

theorem here {k : Position → Parser β} (hk : (k t.start).Trails I t ps h) :
    (Parser.here >>= k).Trails I t ps h := by
  rintro c b c' rfl hc he
  exact hk c b c' rfl hc he

/-- A step whose results begin in some way at the token. -/
theorem led {Q : α → Prop} {k : α → Parser β} (hp : p.Trails I t ps f) (hq : p.From t Q)
    (hk : ∀ a, Q a → ∀ u, (k a).Trails I u (f a) h) : (p >>= k).Trails I t ps h := by
  intro c b c' hc htrail he
  obtain ⟨a, c₁, ha, hb⟩ := bind_eq_ok.mp he
  exact hk a (hq c a c₁ hc ha) _ c₁ b c' rfl (hp c a c₁ hc htrail ha) hb

theorem bind {k : α → Parser β} (hp : p.Trails I t ps f) (hk : ∀ a u, (k a).Trails I u (f a) h) :
    (p >>= k).Trails I t ps h := by
  have hq : p.From t fun _ => True := fun _ _ _ _ _ => trivial
  exact led hp hq fun a _ => hk a

/-- A step with nothing read behind it. -/
theorem last {g : α → β} (hp : p.Trails I t ps f) (hg : ∀ a, f a = h (g a)) :
    (p >>= fun a => Pure.pure (g a)).Trails I t ps h :=
  bind hp fun a _ => same (hg a)

/-- A step that gives no places. -/
theorem seq [Forward p] {k : α → Parser β} (hk : ∀ a u, (k a).Trails I u ps h) :
    (p >>= k).Trails I t ps h :=
  bind any hk

theorem advance {k : Token → Parser β} (hk : ∀ u, (k t).Trails I u ps h) :
    (Parser.advance >>= k).Trails I t ps h := by
  rintro c b c' rfl hc he
  exact hk _ c.next b c' rfl (hc.forward c.tokens_next_suffix) he

/-- Behind a colon no semicolon is put in. -/
theorem advance_colon {k : Token → Parser β} (ht : t.kind = .symbol .colon)
    (hk : ∀ u, (u.kind = .symbol .semiColon → I u) → (k t).Trails I u ps h) :
    (Parser.advance >>= k).Trails I t ps h := by
  rintro c b c' rfl hc he
  refine hk _ (fun hu => ?_) c.next b c' rfl (hc.forward c.tokens_next_suffix) he
  have hnext : c.next.current = c.current ∨ ∃ rest, c.tokens = c.current :: c.next.current :: rest := by
    unfold Cursor.next Cursor.tokens
    split
    · exact .inl rfl
    · cases c.rest with
      | nil => exact .inl rfl
      | cons u us => exact .inr ⟨us, rfl⟩
  rcases hnext with hsame | ⟨rest, hrest⟩
  · rw [hsame, ht] at hu
    cases hu
  · exact hc.ahead.colon _ _ rest (hrest ▸ List.suffix_refl _) ht hu

/-- The start of a token of the source is given to a tree. -/
theorem place (ht : I t) (hp : p.Trails I t (ps ++ [t.start]) f) : p.Trails I t ps f := by
  rintro c a c' rfl hc he
  exact hp c a c' rfl (hc.push ht) he

/-- The start of a token that is never put in is given to a tree. -/
theorem push (ht : t.kind.isProper) (hp : p.Trails I t (ps ++ [t.start]) f) : p.Trails I t ps f := by
  rintro c a c' rfl hc he
  exact hp c a c' rfl (hc.push (hc.own ht)) he

theorem own {kind : Token.Kind} (ht : t.kind = kind) (hkind : kind.isProper)
    (hp : p.Trails I t (ps ++ [t.start]) f) : p.Trails I t ps f :=
  push (ht ▸ hkind) hp

/-- The start of a token that must be there is given to a tree. -/
theorem expect {kind : Token.Kind} {k : Token → Parser β} (hkind : kind.isProper)
    (hk : ∀ u, (k t).Trails I u (ps ++ [t.start]) h) : (Parser.expect kind >>= k).Trails I t ps h := by
  rintro c b c' rfl hc he
  change EStateM.bind (Parser.expect kind) k c = _ at he
  simp only [EStateM.bind, Parser.expect] at he
  by_cases heq : c.current.kind = kind
  · rw [if_pos heq] at he
    have hpushed := hc.push (hc.own (heq ▸ hkind))
    exact hk _ c.next b c' rfl (hpushed.forward c.tokens_next_suffix) he
  · rw [if_neg heq] at he
    cases he

theorem map {g : α → β} (hp : p.Trails I t ps fun a => h (g a)) : (g <$> p).Trails I t ps h := by
  rw [← bind_pure_comp]
  exact bind hp fun a _ => pure (.refl _)

theorem choice {c : Prop} [Decidable c] {p' : Parser α} (hp : p.Trails I t ps f)
    (hp' : p'.Trails I t ps f) : (if c then p else p').Trails I t ps f := by
  split
  · exact hp
  · exact hp'

/-- A choice between two ways to read one part of a whole. -/
theorem ite {c : Prop} [Decidable c] {p' : Parser α} {k : α → Parser β} (hp : p.Trails I t ps f)
    (hp' : p'.Trails I t ps f) (hk : ∀ a u, (k a).Trails I u (f a) h) :
    (if c then p >>= k else p' >>= k).Trails I t ps h :=
  choice (bind hp hk) (bind hp' hk)

theorem atLevel {enter : Int → Int} {leave : Int → Int → Int} (hp : p.Trails I t ps f) :
    (Parser.atLevel enter leave p).Trails I t ps f := by
  intro c a c' hc htrail he
  simp only [Parser.atLevel] at he
  split at he
  · next c₁ ha =>
    have hresult := hp { c with level := enter c.level } _ _ hc
      ⟨htrail.ahead, htrail.sorted, htrail.passed, htrail.starts⟩ ha
    cases he
    exact ⟨hresult.ahead, hresult.sorted, hresult.passed, hresult.starts⟩
  · cases he

end Parser.Trails

end GoSift
