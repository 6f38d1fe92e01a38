import GoSift.Proofs.Syntax.Forward
import GoSift.Proofs.Syntax.PlaceBlind
import GoSift.Proofs.Token.Semicolons

/-!
Parsers in lockstep. As long as few enough tokens are ahead, and the end mark is the last of them, two
parsers do the same. What they do is orderly: they stay within the tokens and put the level back, whether
they succeed or fail. A third does the same on other tokens, as long as these are of the same kinds up to
where the first stops.
-/
namespace GoSift

namespace Token

theorem Terminated.map_erase {ts : List Token} (h : Terminated ts) : Terminated (ts.map Token.erase) := by
  rw [terminated_iff, List.map_map]
  exact terminated_iff.mp h

/-- The second list has the tokens of the first, with their places forgotten, up to the end, or up to a
semicolon behind which `behind` stands in the first and `behind'` in the second. -/
inductive Alike (behind behind' : List Token) : List Token → List Token → Prop
  | stop (t : Token)
      (h : behind = [] ∧ behind' = [] ∨ behind ≠ [] ∧ t.kind = .symbol .semiColon) :
      Alike behind behind' (t :: behind) (t.erase :: behind')
  | cons (t : Token) {ts ts' : List Token} (h : Alike behind behind' ts ts') :
      Alike behind behind' (t :: ts) (t.erase :: ts')

namespace Alike

variable {behind behind' ts ts' : List Token} {t t' : Token}

theorem erase {ts : List Token} (hts : ts ≠ []) : Alike [] [] ts (ts.map Token.erase) := by
  induction ts with
  | nil => exact absurd rfl hts
  | cons t ts ih =>
    cases ts with
    | nil => exact .stop t (.inl ⟨rfl, rfl⟩)
    | cons u ts => exact .cons t (ih (List.cons_ne_nil u ts))

theorem append (front : List Token) (h : Alike behind behind' ts ts') :
    Alike behind behind' (front ++ ts) (front.map Token.erase ++ ts') := by
  induction front with
  | nil => exact h
  | cons t front ih => exact .cons t ih

theorem head (h : Alike behind behind' (t :: ts) (t' :: ts')) : t' = t.erase := by
  cases h <;> rfl

/-- In front of where the lists part, they go on together. -/
theorem tail (h : Alike behind behind' (t :: ts) (t' :: ts')) (hlt : behind.length < ts.length) :
    Alike behind behind' ts ts' := by
  cases h with
  | stop => exact absurd hlt (Nat.lt_irrefl _)
  | cons _ h => exact h

theorem eq_nil (h : Alike behind behind' [t] (t' :: ts')) : ts' = [] := by
  cases h with
  | stop _ h =>
    obtain ⟨-, h⟩ | ⟨h, -⟩ := h
    · exact h
    · exact absurd rfl h
  | cons _ h => cases h

theorem skipTokens {depth : Nat} (h : Alike behind behind' (t :: ts) (t' :: ts'))
    (hlen : behind.length ≤ (GoSift.skipTokens depth t ts).2.length) :
    Alike behind behind' ((GoSift.skipTokens depth t ts).1 :: (GoSift.skipTokens depth t ts).2)
      ((GoSift.skipTokens depth t' ts').1 :: (GoSift.skipTokens depth t' ts').2) := by
  induction ts generalizing depth t t' ts' with
  | nil =>
    obtain rfl := h.eq_nil
    exact h
  | cons u us ih =>
    obtain rfl := h.head
    rw [GoSift.skipTokens] at hlen ⊢
    split at hlen
    · next hend =>
      have hstays : GoSift.skipTokens depth t.erase ts' = (t.erase, ts') := by
        cases ts' with
        | nil => rfl
        | cons u' us' => exact if_pos hend
      rw [if_pos hend, hstays]
      exact h
    · next hgoes =>
      have hle : (GoSift.skipTokens (t.kind.depthAfter depth) u us).2.length < (u :: us).length :=
        Cursor.skipTokens_suffix.length_le
      have htail := h.tail (Nat.lt_of_le_of_lt hlen hle)
      cases ts' with
      | nil => cases htail
      | cons u' us' =>
        have hgoes' : GoSift.skipTokens depth t.erase (u' :: us') =
            GoSift.skipTokens (t.kind.depthAfter depth) u' us' := if_neg hgoes
        rw [if_neg hgoes, hgoes']
        exact ih htail hlen

end Alike

end Token

namespace Cursor

/-- Whether a cursor can be moved to another: forward, and with its level put back. -/
structure Reaches (c c' : Cursor) : Prop where
  suffix : c'.tokens <:+ c.tokens
  level : c'.level = c.level

variable {c c' c'' : Cursor}

theorem Reaches.refl (c : Cursor) : c.Reaches c :=
  ⟨List.suffix_refl _, rfl⟩

theorem Reaches.trans (h : c.Reaches c') (h' : c'.Reaches c'') : c.Reaches c'' :=
  ⟨h'.suffix.trans h.suffix, h'.level.trans h.level⟩

theorem Reaches.size_le (h : c.Reaches c') : c'.size ≤ c.size :=
  Nat.le_of_succ_le_succ h.suffix.length_le

theorem Reaches.terminated (h : c.Reaches c') (hc : Token.Terminated c.tokens) :
    Token.Terminated c'.tokens :=
  hc.suffix h.suffix (List.cons_ne_nil _ _)

theorem reaches_next (c : Cursor) : c.Reaches c.next := by
  refine ⟨c.tokens_next_suffix, ?_⟩
  unfold next
  split
  · rfl
  · split <;> rfl

theorem rest_ne_nil (hc : Token.Terminated c.tokens) (hk : c.current.kind ≠ .eof) : c.rest ≠ [] := by
  intro hrest
  obtain ⟨t, hlast, heof⟩ := hc
  rw [tokens, hrest] at hlast
  cases hlast
  exact hk heof

theorem size_next_lt (hc : Token.Terminated c.tokens) (hk : c.current.kind ≠ .eof) :
    c.next.size < c.size := by
  have hrest := rest_ne_nil hc hk
  unfold next size
  rw [if_neg hk]
  cases hr : c.rest with
  | nil => exact absurd hr hrest
  | cons t ts => exact Nat.lt_succ_self _

theorem length_skipTokens_le (depth : Nat) (t : Token) (ts : List Token) :
    (skipTokens depth t ts).2.length ≤ ts.length :=
  Nat.le_of_succ_le_succ skipTokens_suffix.length_le

theorem reaches_skipDecl (c : Cursor) : c.Reaches c.skipDecl :=
  ⟨c.tokens_skipDecl_suffix, rfl⟩

/-- A declaration that does not end at once is left behind. -/
theorem size_skipDecl_lt (hc : Token.Terminated c.tokens) (hk : c.current.kind ≠ .eof)
    (hend : c.current.kind.endsDecl 0 = false) : c.skipDecl.size < c.size := by
  have hrest := rest_ne_nil hc hk
  unfold skipDecl size
  cases hr : c.rest with
  | nil => exact absurd hr hrest
  | cons t ts =>
    rw [skipTokens, hend]
    exact Nat.lt_succ_of_le (length_skipTokens_le _ t ts)

/-- Two cursors at one level, at tokens that are alike. -/
structure Alike (behind behind' : List Token) (c c' : Cursor) : Prop where
  level : c'.level = c.level
  tokens : Token.Alike behind behind' c.tokens c'.tokens

namespace Alike

variable {behind behind' : List Token}

theorem current (h : c.Alike behind behind' c') : c'.current = c.current.erase :=
  h.tokens.head

theorem next (h : c.Alike behind behind' c') (hlen : behind.length ≤ c.next.size) :
    c.next.Alike behind behind' c'.next := by
  obtain ⟨level, t, ts⟩ := c
  obtain ⟨level', t', ts'⟩ := c'
  have hhead := h.current
  dsimp only at hhead
  subst hhead
  unfold Cursor.next at hlen ⊢
  change Alike behind behind' _ (if t.kind = .eof then _ else _)
  split at hlen
  · next heof => rwa [if_pos heof, if_pos heof]
  · next hproper =>
    rw [if_neg hproper, if_neg hproper]
    cases ts with
    | nil =>
      obtain rfl := h.tokens.eq_nil
      exact h
    | cons u us =>
      have htail := h.tokens.tail (Nat.lt_succ_of_le hlen)
      cases ts' with
      | nil => cases htail
      | cons u' us' => exact ⟨h.level, htail⟩

theorem skipDecl (h : c.Alike behind behind' c') (hlen : behind.length ≤ c.skipDecl.size) :
    c.skipDecl.Alike behind behind' c'.skipDecl :=
  ⟨h.level, h.tokens.skipTokens hlen⟩

end Alike

end Cursor

/-- Whether a cursor stands at the index `i` of the tokens `ts`. -/
structure Cursor.At (ts : List Token) (i : Nat) (c : Cursor) : Prop where
  inside : i < ts.length
  tokens : c.tokens = ts.drop i

/-- Moving forward is moving to an index that is no smaller. -/
theorem Cursor.At.reaches {ts : List Token} {i : Nat} {c c' : Cursor} (h : c.At ts i)
    (hreach : c.Reaches c') : ∃ j, i ≤ j ∧ c'.At ts j ∧ (c'.size < c.size → i < j) := by
  obtain ⟨front, hfront⟩ := hreach.suffix
  have htokens : c'.tokens = ts.drop (i + front.length) := by
    rw [← List.drop_drop, ← h.tokens, ← hfront, List.drop_left]
  refine ⟨i + front.length, Nat.le_add_right _ _, ⟨?_, htokens⟩, fun hlt => ?_⟩
  · have hlength : 0 < (ts.drop (i + front.length)).length := htokens ▸ Nat.succ_pos _
    rw [List.length_drop] at hlength
    omega
  · have hlength := congrArg List.length hfront
    simp only [Cursor.tokens, List.length_append, List.length_cons] at hlength
    unfold Cursor.size at hlt
    omega

theorem Cursor.at_ofTokens {ts : List Token} (hts : ts ≠ []) : (Cursor.ofTokens ts).At ts 0 := by
  cases ts with
  | nil => exact absurd rfl hts
  | cons t ts => exact ⟨Nat.succ_pos _, rfl⟩

/-- The cursor that a parser leaves behind, be it that it succeeds or fails. -/
def Parser.leaves {α : Type} (p : Parser α) (c : Cursor) : Cursor :=
  match p c with
  | .ok _ c' => c'
  | .error _ c' => c'

open Cursor

/-- Whether a parser that began at `c` has ended as it should. If `takes` is set, it has taken a token
unless it failed. -/
def Orderly (takes : Bool) (c : Cursor) {α : Type} : EStateM.Result ParseError Cursor α → Prop
  | .ok _ c' => c.Reaches c' ∧ (takes = true → c'.size < c.size)
  | .error _ c' => c.Reaches c'

theorem Orderly.idle {α : Type} {a : α} {c c' : Cursor} (h : c.Reaches c') :
    Orderly false c (.ok a c' : EStateM.Result ParseError Cursor α) :=
  ⟨h, fun htakes => absurd htakes Bool.false_ne_true⟩

theorem Orderly.leaves {α : Type} {p : Parser α} {takes : Bool} {c : Cursor}
    (h : Orderly takes c (p c)) :
    c.Reaches (p.leaves c) ∧
      (takes = true → (∃ a c', p c = .ok a c') → (p.leaves c).size < c.size) := by
  unfold Parser.leaves
  cases hp : p c with
  | ok a c' =>
    rw [hp] at h
    exact ⟨h.1, fun htakes _ => h.2 htakes⟩
  | error e c' =>
    rw [hp] at h
    exact ⟨h, fun _ ⟨_, _, hok⟩ => by cases hok⟩

/-- What is orderly from a cursor on that was reached is so from the start. -/
theorem Orderly.after {α : Type} {takes more : Bool} {c c' : Cursor}
    {r : EStateM.Result ParseError Cursor α} (h : Orderly more c' r) (hreach : c.Reaches c')
    (htakes : takes = true → more = true ∨ c'.size < c.size) : Orderly takes c r := by
  cases r with
  | error e c'' => exact hreach.trans h
  | ok a c'' =>
    refine ⟨hreach.trans h.1, fun ht => ?_⟩
    obtain hmore | hlt := htakes ht
    · exact Nat.lt_of_lt_of_le (h.2 hmore) hreach.size_le
    · exact Nat.lt_of_le_of_lt h.1.size_le hlt

/-- A result, and one from tokens that are alike: `f` forgets the places of what was read. Errors differ
in their places. -/
inductive Erased (behind behind' : List Token) {α β : Type} (f : α → β) :
    EStateM.Result ParseError Cursor α → EStateM.Result ParseError Cursor β → Prop
  | ok (a : α) {c c' : Cursor} (h : c.Alike behind behind' c') :
      Erased behind behind' f (.ok a c) (.ok (f a) c')
  | error (e e' : ParseError) (c c' : Cursor) : Erased behind behind' f (.error e c) (.error e' c')

/-- Wherever tokens are alike those at `c` up to where `p` stops, `r` does there what `p` does at `c`. -/
structure Parser.Blind {α β : Type} (f : α → β) (p : Parser α) (r : Parser β) (c : Cursor) : Prop where
  erased : ∀ {behind behind' : List Token} {c' : Cursor}, c.Alike behind behind' c' →
    behind.length ≤ (p.leaves c).size → Erased behind behind' f (p c) (r c')

namespace Parser.Blind

variable {α α' β β' : Type} {f : α → α'} {h : β → β'} {p k : Parser α} {r l : Parser α'}
  {c d : Cursor}

/-- A parser that goes on as `k` at a cursor that was reached. -/
theorem via (hp : p c = k d) (hreach : d.Reaches (k.leaves d)) (hk : Blind f k l d)
    (hr : ∀ {behind behind' : List Token} {c' : Cursor}, c.Alike behind behind' c' →
      behind.length ≤ d.size → ∃ d', r c' = l d' ∧ d.Alike behind behind' d') :
    Blind f p r c := by
  refine ⟨fun hc hlen => ?_⟩
  have hleaves : p.leaves c = k.leaves d := by
    unfold Parser.leaves
    rw [hp]
  rw [hleaves] at hlen
  obtain ⟨d', hd', hd⟩ := hr hc (Nat.le_trans hlen hreach.size_le)
  rw [hp, hd']
  exact hk.erased hd hlen

theorem ok {a : α} (hp : p c = .ok a d)
    (hr : ∀ {behind behind' : List Token} {c' : Cursor}, c.Alike behind behind' c' →
      behind.length ≤ d.size → ∃ d', r c' = .ok (f a) d' ∧ d.Alike behind behind' d') :
    Blind f p r c :=
  via (k := Pure.pure a) (l := Pure.pure (f a)) hp (.refl d) ⟨fun hd _ => .ok a hd⟩ hr

theorem stay {a : α} (hp : p c = .ok a c)
    (hr : ∀ {c' : Cursor}, c'.current = c.current.erase → r c' = .ok (f a) c') : Blind f p r c :=
  ok hp fun hc _ => ⟨_, hr hc.current, hc⟩

theorem next {a : α} (hp : p c = .ok a c.next)
    (hr : ∀ {c' : Cursor}, c'.current = c.current.erase → r c' = .ok (f a) c'.next) :
    Blind f p r c :=
  ok hp fun hc hlen => ⟨_, hr hc.current, hc.next hlen⟩

theorem error {e : ParseError} (hp : p c = .error e d)
    (hr : ∀ {c' : Cursor}, c'.current = c.current.erase → ∃ e' d', r c' = .error e' d') :
    Blind f p r c := by
  refine ⟨fun hc _ => ?_⟩
  obtain ⟨e', d', hd'⟩ := hr hc.current
  rw [hp, hd']
  exact .error e e' d d'

theorem bind {k : α → Parser β} {l : α' → Parser β'} (hp : Blind f p r c)
    (hk : ∀ a d, p c = .ok a d → d.Reaches ((k a).leaves d) ∧ Blind h (k a) (l (f a)) d) :
    Blind h (p >>= k) (r >>= l) c := by
  refine ⟨fun {behind behind' c'} hc hlen => ?_⟩
  change Erased behind behind' h (EStateM.bind p k c) (EStateM.bind r l c')
  have hleaves : (p >>= k).leaves c = match p c with
      | .ok a d => (k a).leaves d
      | .error _ d => d := by
    change (match EStateM.bind p k c with | .ok _ d => d | .error _ d => d) = _
    unfold EStateM.bind
    cases p c <;> rfl
  rw [hleaves] at hlen
  unfold EStateM.bind
  cases hr : p c with
  | error e d =>
    rw [hr] at hlen
    have hfirst := hp.erased hc (by rwa [Parser.leaves, hr])
    rw [hr] at hfirst
    generalize r c' = x at hfirst ⊢
    cases hfirst with
    | error e e' d d' => exact .error e e' d d'
  | ok a d =>
    rw [hr] at hlen
    obtain ⟨hreach, hrest⟩ := hk a d hr
    have hfirst := hp.erased hc (by rw [Parser.leaves, hr]; exact Nat.le_trans hlen hreach.size_le)
    rw [hr] at hfirst
    generalize r c' = x at hfirst ⊢
    cases hfirst with
    | ok a hd => exact hrest.erased hd hlen

theorem atLevel {enter : Int → Int} {leave : Int → Int → Int}
    (hp : Blind f p r { c with level := enter c.level }) :
    Blind f (Parser.atLevel enter leave p) (Parser.atLevel enter leave r) c := by
  refine ⟨fun {behind behind' c'} hc hlen => ?_⟩
  have hsize : ((Parser.atLevel enter leave p).leaves c).size =
      (p.leaves { c with level := enter c.level }).size := by
    unfold Parser.leaves Parser.atLevel
    cases p { c with level := enter c.level } <;> rfl
  have hinside : Cursor.Alike behind behind' { c with level := enter c.level }
      { c' with level := enter c'.level } := ⟨congrArg enter hc.level, hc.tokens⟩
  have hinner := hp.erased hinside (hsize ▸ hlen)
  unfold Parser.atLevel
  generalize p { c with level := enter c.level } = x at hinner ⊢
  generalize r { c' with level := enter c'.level } = x' at hinner ⊢
  cases hinner with
  | ok a hd => exact .ok a ⟨congrArg₂ leave hc.level hd.level, hd.tokens⟩
  | error e e' d d' => exact .error e e' _ _

end Parser.Blind

/-- At the token `t`, with fewer than `n` tokens behind it, `q` does what `p` does, and that is orderly;
and so does `r` on tokens that are alike. -/
def Parser.Lockstep {α β : Type} (n : Nat) (t : Token) (takes : Bool) (f : α → β) (p q : Parser α)
    (r : Parser β) : Prop :=
  ∀ c, c.current = t → Token.Terminated c.tokens → c.size < n →
    q c = p c ∧ Orderly takes c (p c) ∧ Blind f p r c

/-- At the token `t`, with fewer than `n` tokens behind it, `q` does what `p` does, and that is orderly. -/
def Parser.Agree {α : Type} (n : Nat) (t : Token) (takes : Bool) (p q : Parser α) : Prop :=
  ∀ c, c.current = t → Token.Terminated c.tokens → c.size < n → q c = p c ∧ Orderly takes c (p c)

/-- A parser that is orderly and blind by itself, though it may take nothing. -/
class Parser.Steady {α : Type} (f : outParam (α → α)) (p : Parser α) : Prop where
  step : ∀ c, Token.Terminated c.tokens → Orderly false c (p c) ∧ Blind f p p c

namespace Parser

/-- A parser that goes by the kind of the token: it takes the token, stays in front of it or fails. -/
theorem Steady.of_kind {α : Type} {f : α → α} {p : Parser α}
    (h : ∀ kind : Token.Kind,
      (∃ a : Token → α, (∀ t, f (a t) = a t.erase) ∧
        ∀ c, c.current.kind = kind → p c = .ok (a c.current) c.next) ∨
      (∃ a, f a = a ∧ ∀ c, c.current.kind = kind → p c = .ok a c) ∨
      ∀ c, c.current.kind = kind → ∃ e, p c = .error e c) : Steady f p where
  step c _ := by
    obtain ⟨a, ha, hpass⟩ | ⟨a, ha, hstay⟩ | hfail := h c.current.kind
    · rw [hpass c rfl]
      refine ⟨.idle c.reaches_next, .next (hpass c rfl) fun hc' => ?_⟩
      rw [hpass _ (hc' ▸ rfl), ha, hc']
    · rw [hstay c rfl]
      refine ⟨.idle (.refl c), .stay (hstay c rfl) fun hc' => ?_⟩
      rw [hstay _ (hc' ▸ rfl), ha]
    · obtain ⟨e, he⟩ := hfail c rfl
      rw [he]
      refine ⟨.refl c, .error he fun {c'} hc' => ?_⟩
      obtain ⟨e', he'⟩ := hfail c' (hc' ▸ rfl)
      exact ⟨e', c', he'⟩

instance : Steady Token.erase advance :=
  .of_kind fun _ => .inl ⟨id, fun _ => rfl, fun _ _ => rfl⟩

instance {kind : Token.Kind} : Steady id (eat kind) := by
  refine .of_kind fun k => ?_
  by_cases hk : k = kind
  · exact .inl ⟨fun _ => true, fun _ => rfl, fun _ hc => if_pos (hc.trans hk)⟩
  · exact .inr (.inl ⟨false, rfl, fun _ hc => if_neg (hc ▸ hk)⟩)

instance {sym : Symbol} : Steady id (eatSymbol sym) :=
  inferInstanceAs (Steady _ (eat _))

instance {kind : Token.Kind} : Steady Token.erase (expect kind) := by
  refine .of_kind fun k => ?_
  by_cases hk : k = kind
  · exact .inl ⟨id, fun _ => rfl, fun _ hc => if_pos (hc.trans hk)⟩
  · exact .inr (.inr fun _ hc => ⟨_, if_neg (hc ▸ hk)⟩)

instance {sym : Symbol} : Steady Token.erase (expectSymbol sym) :=
  inferInstanceAs (Steady _ (expect _))

instance {word : Keyword} : Steady Token.erase (expectKeyword word) :=
  inferInstanceAs (Steady _ (expect _))

end Parser

namespace Parser.Lockstep

variable {α α' β β' : Type} {n m : Nat} {t : Token} {takes more : Bool} {f : α → α'} {h : β → β'}
  {p q : Parser α} {r : Parser α'} {k k' : α → Parser β} {l : α' → Parser β'}

theorem weaken (hp : Lockstep n t more f p q r) (htakes : takes = true → more = true) :
    Lockstep n t takes f p q r := by
  intro c hc hend hn
  obtain ⟨heq, horderly, hblind⟩ := hp c hc hend hn
  exact ⟨heq, horderly.after (.refl c) fun ht => .inl (htakes ht), hblind⟩

theorem forget (hp : Lockstep n t takes f p q r) : Lockstep n t false f p q r :=
  hp.weaken fun htakes => absurd htakes Bool.false_ne_true

theorem lower (hp : Lockstep (n + 1) t takes f p q r) : Lockstep n t takes f p q r :=
  fun c hc hend hn => hp c hc hend (Nat.lt_succ_of_lt hn)

theorem steady {f : α → α} [Steady f p] : Lockstep n t false f p p p :=
  fun c _ hend _ => ⟨rfl, Steady.step c hend⟩

theorem same (hp : Lockstep n t takes f p q r) : Agree n t takes p q :=
  fun c hc hend hn => ⟨(hp c hc hend hn).1, (hp c hc hend hn).2.1⟩

theorem pure {a : α} {b : α'} (hab : f a = b) :
    Lockstep n t false f (Pure.pure a) (Pure.pure a) (Pure.pure b) :=
  fun c _ _ _ => ⟨rfl, .idle (.refl c), .stay rfl fun _ => hab ▸ rfl⟩

theorem throw {e e' : ParseError} :
    Lockstep n t takes f (throw e : Parser α) (throw e) (throw e' : Parser α') :=
  fun c _ _ _ => ⟨rfl, .refl c, .error rfl fun _ => ⟨_, _, rfl⟩⟩

theorem wanted {what : Expectation} :
    Lockstep n t takes f (Parser.wanted what) (Parser.wanted what) (Parser.wanted what) :=
  fun c _ _ _ => ⟨rfl, .refl c, .error rfl fun _ => ⟨_, _, rfl⟩⟩

/-- If the first of two steps takes a token, one token less is ahead for the second. -/
theorem andThen (hp : Lockstep n t takes f p q r)
    (hk : ∀ a u, Lockstep m u more h (k a) (k' a) (l (f a))) (hm : n ≤ m ∨ takes = true ∧ n ≤ m + 1) :
    Lockstep n t (takes || more) h (p >>= k) (q >>= k') (r >>= l) := by
  intro c hc hend hn
  obtain ⟨heq, horderly, hblind⟩ := hp c hc hend hn
  have hrest (a : α) (d : Cursor) (hr : p c = .ok a d) :
      k' a d = k a d ∧ Orderly more d (k a d) ∧ Blind h (k a) (l (f a)) d := by
    rw [hr] at horderly
    obtain ⟨hreach, htaken⟩ := horderly
    have hsize : d.size < m := by
      have hle := hreach.size_le
      obtain hm | ⟨ht, hm⟩ := hm
      · omega
      · have hlt := htaken ht
        omega
    exact hk a _ d rfl (hreach.terminated hend) hsize
  refine and_assoc.mp ⟨?_, .bind hblind fun a d hr => ?_⟩
  · change EStateM.bind q k' c = EStateM.bind p k c ∧ Orderly _ c (EStateM.bind p k c)
    simp only [EStateM.bind, heq]
    cases hr : p c with
    | error e d =>
      rw [hr] at horderly
      exact ⟨rfl, horderly⟩
    | ok a d =>
      obtain ⟨heq', horderly', -⟩ := hrest a d hr
      rw [hr] at horderly
      refine ⟨heq', horderly'.after horderly.1 fun ht => ?_⟩
      obtain ht | ht := Bool.or_eq_true_iff.1 ht
      · exact .inr (horderly.2 ht)
      · exact .inl ht
  · obtain ⟨-, horderly', hblind'⟩ := hrest a d hr
    exact ⟨horderly'.leaves.1, hblind'⟩

theorem bind (hp : Lockstep n t false f p q r)
    (hk : ∀ a u, Lockstep n u takes h (k a) (k' a) (l (f a))) :
    Lockstep n t takes h (p >>= k) (q >>= k') (r >>= l) :=
  andThen hp hk (.inl (Nat.le_refl n))

/-- What is read last is put into the result. -/
theorem last {k : α → β} {l : α' → β'} (hp : Lockstep n t takes f p q r)
    (hk : h ∘ k = l ∘ f) : Lockstep n t false h (p >>= fun a => Pure.pure (k a))
      (q >>= fun a => Pure.pure (k a)) (r >>= fun a => Pure.pure (l a)) :=
  bind hp.forget fun a _ => pure (congrFun hk a)

/-- A step that takes a token. -/
theorem first (hp : Lockstep (n + 1) t true f p q r)
    (hk : ∀ a u, Lockstep n u false h (k a) (k' a) (l (f a))) :
    Lockstep (n + 1) t takes h (p >>= k) (q >>= k') (r >>= l) :=
  (andThen hp hk (.inr ⟨rfl, Nat.le_refl _⟩)).weaken fun _ => rfl

/-- A step that is orderly by itself. -/
theorem seq {f : α → α} {l : α → Parser β'} [Steady f p]
    (hk : ∀ a u, Lockstep n u takes h (k a) (k' a) (l (f a))) :
    Lockstep n t takes h (p >>= k) (p >>= k') (p >>= l) :=
  bind steady hk

theorem map {k : α → β} {l : α' → β'} (hp : Lockstep n t takes f p q r)
    (hk : ∀ a, h (k a) = l (f a)) : Lockstep n t takes h (k <$> p) (k <$> q) (l <$> r) := by
  rw [← bind_pure_comp, ← bind_pure_comp, ← bind_pure_comp]
  have hboth := andThen (l := fun b => Pure.pure (l b)) hp (fun a _ => pure (hk a))
    (.inl (Nat.le_refl n))
  rwa [Bool.or_false] at hboth

theorem choice {c : Prop} [Decidable c] {p' q' : Parser α} {r' : Parser α'}
    (hp : c → Lockstep n t takes f p q r) (hp' : Lockstep n t takes f p' q' r') :
    Lockstep n t takes f (if c then p else p') (if c then q else q') (if c then r else r') := by
  split
  · next hc => exact hp hc
  · exact hp'

/-- A choice between two ways to read one part of a whole. -/
theorem ite {c : Prop} [Decidable c] {p' q' : Parser α} {r' : Parser α'}
    (hp : Lockstep n t false f p q r) (hp' : Lockstep n t false f p' q' r')
    (hk : ∀ a u, Lockstep n u takes h (k a) (k' a) (l (f a))) :
    Lockstep n t takes h (if c then p >>= k else p' >>= k) (if c then q >>= k' else q' >>= k')
      (if c then r >>= l else r' >>= l) :=
  choice (fun _ => bind hp hk) (bind hp' hk)

/-- A step that looks at the tokens and takes none. -/
theorem look (view : Cursor → α) {l : α → Parser β'}
    (hk : ∀ c, c.current = t → ∃ a, Lockstep n t takes h (k (view c)) (k' (view c)) (l a) ∧
      ∀ {behind behind' : List Token} {c' : Cursor}, c.Alike behind behind' c' → l (view c') = l a) :
    Lockstep n t takes h ((fun c => .ok (view c) c : Parser α) >>= k) ((fun c => .ok (view c) c) >>= k')
      ((fun c => .ok (view c) c) >>= l) := by
  intro c hc hend hn
  obtain ⟨a, hstep, hview⟩ := hk c hc
  obtain ⟨heq, horderly, hblind⟩ := hstep c hc hend hn
  exact ⟨heq, horderly, .via (k := k (view c)) (l := l a) rfl horderly.leaves.1 hblind
    fun halike _ => ⟨_, congrFun (hview halike) _, halike⟩⟩

theorem current {k k' : Token → Parser β} {l : Token → Parser β'}
    (hk : Lockstep n t takes h (k t) (k' t) (l ⟨t.kind, default⟩)) :
    Lockstep n t takes h (Parser.current >>= k) (Parser.current >>= k') (Parser.current >>= l) := by
  refine look Cursor.current fun c hc => ?_
  subst hc
  exact ⟨_, hk, fun halike => congrArg l halike.current⟩

theorem kind {k k' : Token.Kind → Parser β} {l : Token.Kind → Parser β'}
    (hk : Lockstep n t takes h (k t.kind) (k' t.kind) (l t.kind)) :
    Lockstep n t takes h (Parser.kind >>= k) (Parser.kind >>= k') (Parser.kind >>= l) := by
  refine look (·.current.kind) fun c hc => ?_
  subst hc
  exact ⟨_, hk, fun halike => congrArg (fun t => l t.kind) halike.current⟩

theorem here {k k' : Position → Parser β} {l : Position → Parser β'}
    (hk : Lockstep n t takes h (k t.start) (k' t.start) (l default)) :
    Lockstep n t takes h (Parser.here >>= k) (Parser.here >>= k') (Parser.here >>= l) := by
  refine look (·.current.start) fun c hc => ?_
  subst hc
  exact ⟨_, hk, fun halike => congrArg (fun t => l t.start) halike.current⟩

theorem level {k k' : Int → Parser β} {l : Int → Parser β'}
    (hk : ∀ level, Lockstep n t takes h (k level) (k' level) (l level)) :
    Lockstep n t takes h (Parser.level >>= k) (Parser.level >>= k') (Parser.level >>= l) :=
  look Cursor.level fun c _ => ⟨_, hk c.level, fun halike => congrArg l halike.level⟩

/-- A look at the token behind. At a semicolon it must not matter. -/
theorem secondKind {k k' : Token.Kind → Parser β} {l : Token.Kind → Parser β'}
    (hl : t.kind = .symbol .semiColon → ∀ a b, l a = l b)
    (hk : ∀ a, Lockstep n t takes h (k a) (k' a) (l a)) :
    Lockstep n t takes h (Parser.secondKind >>= k) (Parser.secondKind >>= k')
      (Parser.secondKind >>= l) := by
  refine look _ fun c hc => ⟨_, hk _, fun {behind behind' c'} halike => ?_⟩
  subst hc
  obtain ⟨level, t, ts⟩ := c
  obtain ⟨level', t', ts'⟩ := c'
  obtain ⟨-, halike⟩ := halike
  unfold Cursor.tokens at halike
  cases halike with
  | stop _ hstop =>
    obtain ⟨rfl, rfl⟩ | ⟨-, hsemi⟩ := hstop
    · rfl
    · exact hl hsemi _ _
  | cons _ hrest => cases hrest <;> rfl

theorem advance {k k' : Token → Parser β} {l : Token → Parser β'} (ht : t.kind ≠ .eof)
    (hk : ∀ u, Lockstep n u false h (k t) (k' t) (l t.erase)) :
    Lockstep (n + 1) t takes h (Parser.advance >>= k) (Parser.advance >>= k')
      (Parser.advance >>= l) := by
  rintro c rfl hend hn
  have hlt := size_next_lt hend ht
  obtain ⟨heq, horderly, hblind⟩ :=
    hk _ c.next rfl (c.reaches_next.terminated hend) (Nat.lt_of_lt_of_le hlt (Nat.le_of_lt_succ hn))
  refine ⟨heq, horderly.after c.reaches_next fun _ => .inr hlt,
    .via (k := k c.current) rfl horderly.leaves.1 hblind fun halike hlen => ?_⟩
  exact ⟨_, congrFun (congrArg l halike.current) _, halike.next hlen⟩

theorem past {k k' : Token → Parser β} {l : Token → Parser β'} {kind : Token.Kind} (ht : t.kind = kind)
    (hkind : (kind == .eof) = false) (hk : ∀ u, Lockstep n u false h (k t) (k' t) (l t.erase)) :
    Lockstep (n + 1) t takes h (Parser.advance >>= k) (Parser.advance >>= k')
      (Parser.advance >>= l) :=
  advance (ht ▸ ne_of_beq_false hkind) hk

/-- At the end mark nothing is taken. -/
theorem advance_eof {k k' : Token → Parser β} {l : Token → Parser β'} (ht : t.kind = .eof)
    (hk : Lockstep n t takes h (k t) (k' t) (l t.erase)) :
    Lockstep n t takes h (Parser.advance >>= k) (Parser.advance >>= k') (Parser.advance >>= l) := by
  rintro c rfl hend hn
  have hnext : c.next = c := if_pos ht
  obtain ⟨heq, horderly, hblind⟩ := hk c rfl hend hn
  have hfirst (s : Token → Parser β) : (Parser.advance >>= s) c = s c.current c :=
    congrArg (s c.current) hnext
  rw [hfirst, hfirst]
  refine ⟨heq, horderly, .via (hfirst k) horderly.leaves.1 hblind fun {_ _ c'} halike _ => ?_⟩
  have hnext' : c'.next = c' := if_pos (by rw [halike.current]; exact ht)
  refine ⟨c', ?_, halike⟩
  change l c'.current c'.next = l c.current.erase c'
  rw [hnext', halike.current]

theorem expect {kind : Token.Kind} (hkind : kind ≠ .eof) :
    Lockstep n t true Token.erase (Parser.expect kind) (Parser.expect kind) (Parser.expect kind) := by
  rintro c rfl hend hn
  refine ⟨rfl, ?_, (Steady.step c hend).2⟩
  unfold Parser.expect
  split
  · next hk => exact ⟨c.reaches_next, fun _ => size_next_lt hend (hk ▸ hkind)⟩
  · exact .refl c

theorem expectSymbol {sym : Symbol} : Lockstep n t true Token.erase (Parser.expectSymbol sym)
    (Parser.expectSymbol sym) (Parser.expectSymbol sym) :=
  expect (by simp)

theorem expectKeyword {word : Keyword} : Lockstep n t true Token.erase (Parser.expectKeyword word)
    (Parser.expectKeyword word) (Parser.expectKeyword word) :=
  expect (by simp)

/-- What is read behind a token, and what is read if it is not there. -/
theorem eat {kind : Token.Kind} {p' q' : Parser α} {r' : Parser α'} (hkind : kind ≠ .eof)
    (hp : ∀ u, Lockstep n u false f p q r) (hp' : Lockstep (n + 1) t takes f p' q' r') :
    Lockstep (n + 1) t takes f (do if ← Parser.eat kind then p else p')
      (do if ← Parser.eat kind then q else q') (do if ← Parser.eat kind then r else r') := by
  rintro c rfl hend hn
  by_cases hk : c.current.kind = kind
  · have hpass {γ : Type} (s s' : Parser γ) {c : Cursor} (hk : c.current.kind = kind) :
        (do if ← Parser.eat kind then s else s') c = s c.next := by
      have heat : Parser.eat kind c = .ok true c.next := if_pos hk
      change EStateM.bind _ _ c = _
      simp only [EStateM.bind, heat, if_true]
    have hlt := size_next_lt hend (hk ▸ hkind)
    obtain ⟨heq, horderly, hblind⟩ :=
      hp _ c.next rfl (c.reaches_next.terminated hend) (Nat.lt_of_lt_of_le hlt (Nat.le_of_lt_succ hn))
    rw [hpass _ _ hk, hpass _ _ hk]
    exact ⟨heq, horderly.after c.reaches_next fun _ => .inr hlt,
      .via (hpass _ _ hk) horderly.leaves.1 hblind fun halike hlen =>
        ⟨_, hpass _ _ (halike.current ▸ hk), halike.next hlen⟩⟩
  · have hmiss {γ : Type} (s s' : Parser γ) {c : Cursor} (hk : c.current.kind ≠ kind) :
        (do if ← Parser.eat kind then s else s') c = s' c := by
      have heat : Parser.eat kind c = .ok false c := if_neg hk
      change EStateM.bind _ _ c = _
      simp only [EStateM.bind, heat, Bool.false_eq_true, if_false]
    obtain ⟨heq, horderly, hblind⟩ := hp' c rfl hend hn
    rw [hmiss _ _ hk, hmiss _ _ hk]
    exact ⟨heq, horderly, .via (hmiss _ _ hk) horderly.leaves.1 hblind fun halike _ =>
      ⟨_, hmiss _ _ (halike.current ▸ hk), halike⟩⟩

theorem eatSymbol {sym : Symbol} {p' q' : Parser α} {r' : Parser α'}
    (hp : ∀ u, Lockstep n u false f p q r) (hp' : Lockstep (n + 1) t takes f p' q' r') :
    Lockstep (n + 1) t takes f (do if ← Parser.eatSymbol sym then p else p')
      (do if ← Parser.eatSymbol sym then q else q') (do if ← Parser.eatSymbol sym then r else r') :=
  eat (by simp) hp hp'

theorem atLevel {enter : Int → Int} {leave : Int → Int → Int} (hlevel : ∀ n, leave n (enter n) = n)
    (hp : Lockstep n t takes f p q r) :
    Lockstep n t takes f (Parser.atLevel enter leave p) (Parser.atLevel enter leave q)
      (Parser.atLevel enter leave r) := by
  intro c hc hend hn
  obtain ⟨heq, horderly, hblind⟩ := hp { c with level := enter c.level } hc hend hn
  refine and_assoc.mp ⟨?_, hblind.atLevel⟩
  unfold Parser.atLevel
  rw [heq]
  refine ⟨rfl, ?_⟩
  cases hr : p { c with level := enter c.level } with
  | ok a c' =>
    rw [hr] at horderly
    obtain ⟨hreach, htakes⟩ := horderly
    refine ⟨⟨hreach.suffix, ?_⟩, htakes⟩
    rw [hreach.level]
    exact hlevel c.level
  | error e c' =>
    rw [hr] at horderly
    refine ⟨horderly.suffix, ?_⟩
    rw [horderly.level]
    exact hlevel c.level

theorem bracketed (hp : Lockstep n t takes f p q r) :
    Lockstep n t takes f (Parser.bracketed p) (Parser.bracketed q) (Parser.bracketed r) :=
  atLevel (fun n => Int.add_sub_cancel n 1) hp

theorem inHeader (hp : Lockstep n t takes f p q r) :
    Lockstep n t takes f (Parser.inHeader p) (Parser.inHeader q) (Parser.inHeader r) :=
  atLevel (fun _ => rfl) hp

/-- A declaration is passed over. -/
theorem skipDecl {k k' : PUnit → Parser β} {l : PUnit → Parser β'} (ht : t.kind ≠ .eof)
    (hdecl : t.kind.endsDecl 0 = false) (hk : ∀ u, Lockstep n u false h (k ⟨⟩) (k' ⟨⟩) (l ⟨⟩)) :
    Lockstep (n + 1) t takes h (modify Cursor.skipDecl >>= k) (modify Cursor.skipDecl >>= k')
      (modify Cursor.skipDecl >>= l) := by
  rintro c rfl hend hn
  have hlt := size_skipDecl_lt hend ht hdecl
  obtain ⟨heq, horderly, hblind⟩ := hk _ c.skipDecl rfl (c.reaches_skipDecl.terminated hend)
    (Nat.lt_of_lt_of_le hlt (Nat.le_of_lt_succ hn))
  exact ⟨heq, horderly.after c.reaches_skipDecl fun _ => .inr hlt,
    .via (k := k ⟨⟩) rfl horderly.leaves.1 hblind fun halike hlen => ⟨_, rfl, halike.skipDecl hlen⟩⟩

/-- An identifier or a wildcard is no end mark, so it is taken. -/
theorem name : Lockstep (n + 1) t true Expr.erase Parser.name Parser.name Parser.name := by
  by_cases ht : t.kind = .eof
  · refine .advance_eof ht ?_
    dsimp only [Token.erase]
    rw [ht]
    exact .throw
  · refine .advance ht fun u => ?_
    dsimp only [Token.erase]
    split
    · exact .pure rfl
    · exact .pure rfl
    · exact .throw

theorem identName : Lockstep (n + 1) t true id Parser.identName Parser.identName Parser.identName := by
  by_cases ht : t.kind = .eof
  · refine .advance_eof ht ?_
    dsimp only [Token.erase]
    rw [ht]
    exact .throw
  · refine .advance ht fun u => ?_
    dsimp only [Token.erase]
    split
    · exact .pure rfl
    · exact .throw

end Parser.Lockstep

theorem Parser.Agree.steady {α : Type} {n : Nat} {t : Token} {f : α → α} {p : Parser α} [Steady f p] :
    Agree n t false p p :=
  Lockstep.steady.same

namespace Parser

variable {α : Type}

theorem Steady.of_lockstep {f : α → α} {p : Parser α} {takes : Bool}
    (h : ∀ {n t}, Lockstep (n + 1) t takes f p p p) : Steady f p where
  step c hend := (h.forget c rfl hend (Nat.lt_succ_self _)).2

instance : Steady Expr.erase name :=
  .of_lockstep .name

instance : Steady id identName :=
  .of_lockstep .identName

/-- What ends a statement: a semicolon, which is taken, or a token that closes what is around it. -/
theorem stmtEnd_cases (kind : Token.Kind) :
    (kind = .symbol .semiColon ∧ ∀ c, c.current.kind = kind → stmtEnd c = .ok () c.next) ∨
      (kind ∈ [.symbol .rBrace, .symbol .rParen, .eof, .keyword .case_, .keyword .default_] ∧
        ∀ c, c.current.kind = kind → stmtEnd c = .ok () c) ∨
      ∀ c, c.current.kind = kind → ∃ e, stmtEnd c = .error e c := by
  refine (Classical.em _).imp (fun hsemi => ⟨hsemi, ?_⟩) fun hsemi =>
    (Classical.em _).imp (fun hclose => ⟨hclose, ?_⟩) fun hclose => ?_
  all_goals
    rintro c rfl
    unfold stmtEnd
    split <;> simp_all

instance : Steady id stmtEnd := by
  refine .of_kind fun kind => ?_
  obtain ⟨-, hpass⟩ | ⟨-, hstay⟩ | hfail := stmtEnd_cases kind
  · exact .inl ⟨fun _ => (), fun _ => rfl, hpass⟩
  · exact .inr (.inl ⟨(), rfl, hstay⟩)
  · exact .inr (.inr hfail)

instance : Steady id finish := by
  refine .of_kind fun kind => ?_
  by_cases hk : kind = .eof
  · exact .inr (.inl ⟨(), rfl, fun _ hc => if_pos (hc.trans hk)⟩)
  · exact .inr (.inr fun _ hc => ⟨_, if_neg (hc ▸ hk)⟩)

end Parser

end GoSift
