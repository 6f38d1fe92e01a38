import GoSift.Proofs.Token.LongestMatch
import Mathlib.Data.List.Infix

/-!
Reading the front of a text token by token. What stands behind is part of the judgement, so parts can
be put together without a token of one running into the next.
-/
namespace GoSift.Token

/-- The front of a text is read as the given tokens with blanks between them, up to the given rest. -/
inductive Scans : List Char → List Kind → List Char → Prop
  | done (cs : List Char) : Scans cs [] cs
  | blank {cs text mid back : List Char} {kinds : List Kind}
      (next : Piece.next? cs = some (.blank, text, mid)) (behind : Scans mid kinds back) :
      Scans cs kinds back
  | token {cs text mid back : List Char} {kind : Kind} {kinds : List Kind}
      (next : Piece.next? cs = some (.token kind, text, mid)) (behind : Scans mid kinds back) :
      Scans cs (kind :: kinds) back

theorem Piece.splitWithin_succ {cs text mid unread : List Char} {piece : Piece} {bound : Nat}
    {pieces : List (Piece × List Char)} (h : next? cs = some (piece, text, mid))
    (hsplit : splitWithin bound mid = (pieces, unread)) :
    splitWithin (bound + 1) cs = ((piece, text) :: pieces, unread) := by
  rw [splitWithin, h]
  dsimp only
  rw [hsplit]

namespace Scans

variable {cs mid back : List Char} {kinds kinds' : List Kind}

theorem append (h : Scans cs kinds mid) (h' : Scans mid kinds' back) :
    Scans cs (kinds ++ kinds') back := by
  induction h with
  | done => exact h'
  | blank next _ ih => exact .blank next (ih h')
  | token next _ ih => exact .token next (ih h')

theorem single {text : List Char} {kind : Kind} (h : Piece.next? cs = some (.token kind, text, back)) :
    Scans cs [kind] back :=
  .token h (.done back)

/-- A symbol with nothing behind it that it could run into. -/
theorem symbol (s : Symbol) {rest : List Char} (hrest : ∀ d ∈ rest.head?, d ∉ s.extenders)
    (hdot : s = .dot → ∀ d ∈ rest.head?, Scanner.isDigit d = false)
    (hslash : s = .slash → ∀ d ∈ rest.head?, d ∉ ['/', '*']) :
    Scans (s.spelling.toList ++ rest) [.symbol s] rest :=
  single (Piece.next?_symbol s hrest hdot hslash)

/-- A text that is read to its end is split into pieces that hold the tokens. -/
theorem exists_splitWithin (h : Scans cs kinds back) (hback : back = []) {bound : Nat}
    (hbound : cs.length ≤ bound) :
    ∃ pieces, Piece.splitWithin bound cs = (pieces, []) ∧ pieces.filterMap (·.1.kind?) = kinds := by
  induction h generalizing bound with
  | done =>
    subst hback
    refine ⟨[], ?_, rfl⟩
    cases bound <;> rfl
  | blank next _ ih =>
    have hlt := Piece.length_rest_lt next
    cases bound with
    | zero => omega
    | succ bound =>
      obtain ⟨pieces, hsplit, hkinds⟩ := ih hback (show _ ≤ bound by omega)
      exact ⟨_, Piece.splitWithin_succ next hsplit, hkinds⟩
  | token next _ ih =>
    have hlt := Piece.length_rest_lt next
    cases bound with
    | zero => omega
    | succ bound =>
      obtain ⟨pieces, hsplit, hkinds⟩ := ih hback (show _ ≤ bound by omega)
      exact ⟨_, Piece.splitWithin_succ next hsplit, congrArg _ hkinds⟩

end Scans

theorem kinds_place (pieces : List (Piece × List Char)) (p : Position) :
    (place p pieces).map Token.kind = pieces.filterMap (·.1.kind?) := by
  induction pieces generalizing p with
  | nil => rfl
  | cons piece pieces ih =>
    rw [place, List.filterMap_cons]
    cases piece.1.kind? with
    | none => exact ih _
    | some kind => exact congrArg (kind :: ·) (ih _)

/-- What stands behind the last token of a text without line ends. -/
def IsTail (kinds : List Kind) : Prop :=
  kinds = [.symbol .semiColon, .eof] ∨ kinds = [.eof]

theorem kinds_closeLines (eof : Range) (ended : Bool) {ts : List Token}
    (hline : ∀ t ∈ ts, t.kind ≠ .newLine) :
    ∃ tail, IsTail tail ∧ (closeLines eof ended ts).map Token.kind = ts.map Token.kind ++ tail := by
  induction ts generalizing ended with
  | nil =>
    cases ended with
    | false => exact ⟨_, .inr rfl, rfl⟩
    | true => exact ⟨_, .inl rfl, rfl⟩
  | cons t ts ih =>
    obtain ⟨ht, hts⟩ := List.forall_mem_cons.mp hline
    obtain ⟨tail, htail, h⟩ := ih t.kind.endsStatement hts
    refine ⟨tail, htail, ?_⟩
    rw [closeLines, if_neg ht, List.map_cons, h]
    rfl

/-- Whether a token is there in any text, be it a pattern or not, and stays on its line. -/
def Kind.isPlain : Kind → Bool
  | .wildcard .. | .newLine | .eof => false
  | _ => true

/-- A text that is read to its end has the tokens it was read as, then the end mark. -/
theorem Scans.exists_tokenize {src : String} {kinds : List Kind} (h : Scans src.toList kinds [])
    (hplain : ∀ kind ∈ kinds, kind.isPlain) (wildcards : Bool) :
    ∃ ts tail, tokenize wildcards src = .ok ts ∧ IsTail tail ∧ ts.map Token.kind = kinds ++ tail := by
  obtain ⟨pieces, hsplit, hpieces⟩ := h.exists_splitWithin rfl (Nat.le_refl _)
  have hkinds := (kinds_place pieces .start).trans hpieces
  have htoken : ∀ t ∈ place .start pieces, t.kind.isPlain := by
    intro t ht
    refine hplain t.kind ?_
    rw [← hkinds]
    exact List.mem_map_of_mem ht
  have hline : ∀ t ∈ place .start pieces, t.kind ≠ .newLine := by
    intro t ht hk
    have hp := htoken t ht
    rw [hk] at hp
    cases hp
  have hwild : (place .start pieces).find? isWildcard = none := by
    refine List.find?_eq_none.mpr fun t ht => ?_
    have hp := htoken t ht
    unfold isWildcard
    revert hp
    cases t.kind <;> simp [Kind.isPlain]
  obtain ⟨tail, htail, hclosed⟩ := kinds_closeLines (.point _) false hline
  refine ⟨_, tail, ?_, htail, hclosed.trans (by rw [hkinds])⟩
  unfold tokenize Piece.split
  rw [hsplit]
  dsimp only
  rw [hwild]
  cases wildcards <;> rfl

/-- The tokens of a text without their places. -/
def kinds (wildcards : Bool) (src : String) : Except LexError (List Kind) :=
  (tokenize wildcards src).map (List.map Token.kind)

theorem Piece.flatMap_splitWithin (bound : Nat) (cs : List Char) :
    (splitWithin bound cs).1.flatMap (·.2) ++ (splitWithin bound cs).2 = cs := by
  induction bound generalizing cs with
  | zero => rfl
  | succ bound ih =>
    rw [splitWithin]
    split
    · rfl
    · next piece text rest h =>
      rw [List.flatMap_cons, List.append_assoc, ih rest]
      exact (cut_of_next? h).append

theorem Piece.next?_of_mem_splitWithin {bound : Nat} {cs : List Char} {p : Piece × List Char}
    (h : p ∈ (splitWithin bound cs).1) : ∃ cs' rest, next? cs' = some (p.1, p.2, rest) := by
  induction bound generalizing cs with
  | zero => cases h
  | succ bound ih =>
    rw [splitWithin] at h
    split at h
    · cases h
    · next hnext =>
      rcases List.mem_cons.mp h with rfl | h
      · exact ⟨cs, _, hnext⟩
      · exact ih h

theorem Piece.written_of_splitWithin {bound : Nat} {cs : List Char} :
    ∀ p ∈ (splitWithin bound cs).1, ∀ kind, p.1 = .token kind → kind.text.toList = p.2 := by
  intro p hp kind hk
  obtain ⟨_, _, hnext⟩ := next?_of_mem_splitWithin hp
  rw [(cut_of_next? hnext).written kind hk, String.toList_ofList]

/-- A semicolon for the line that ends in front of the tokens `rest`, if one ends there. -/
def lineClose (eof : Range) (ended : Bool) (rest : List Token) : List Token :=
  if ended && rest.head?.all (·.kind = .newLine) then
    [⟨.symbol .semiColon, (rest.head?.map range).getD eof⟩]
  else []

/-- What becomes of the first of some tokens. -/
def closeFirst (eof : Range) : List Token → List Token
  | [] => []
  | t :: rest => if t.kind = .newLine then [] else t :: lineClose eof t.kind.endsStatement rest

theorem closeLines_eq (eof : Range) (ended : Bool) (ts : List Token) :
    closeLines eof ended ts =
      lineClose eof ended ts ++ ts.tails.flatMap (closeFirst eof) ++ [⟨.eof, eof⟩] := by
  induction ts generalizing ended with
  | nil => cases ended <;> rfl
  | cons t ts ih =>
    rw [closeLines, List.tails_cons, List.flatMap_cons, closeFirst]
    by_cases ht : t.kind = .newLine
    · cases ended <;> simp [ht, ih, lineClose]
    · simp [ht, ih, lineClose]

theorem mem_closeLines {eof : Range} {ended : Bool} {ts : List Token} {t : Token}
    (h : t ∈ closeLines eof ended ts) :
    t ∈ ts ∧ t.kind ≠ .newLine ∨ t.kind = .symbol .semiColon ∨ t.kind = .eof := by
  have hclose {ended : Bool} {rest : List Token} (h : t ∈ lineClose eof ended rest) :
      t.kind = .symbol .semiColon := by
    unfold lineClose at h
    split at h
    · rw [List.mem_singleton.mp h]
    · cases h
  rw [closeLines_eq, List.mem_append, List.mem_append, List.mem_flatMap] at h
  rcases h with (h | ⟨us, hus, h⟩) | h
  · exact .inr (.inl (hclose h))
  · cases us with
    | nil => cases h
    | cons u us =>
      rw [closeFirst] at h
      split at h
      · cases h
      · next hu =>
        rcases List.mem_cons.mp h with rfl | h
        · exact .inl ⟨((List.mem_tails _ _).mp hus).subset List.mem_cons_self, hu⟩
        · exact .inr (.inl (hclose h))
  · exact .inr (.inr (List.mem_singleton.mp h ▸ rfl))

/-- A text with tokens is cut into pieces to its end, and they are its tokens once lines are closed. -/
theorem tokenize_eq_ok {wildcards : Bool} {src : String} {ts : List Token}
    (h : tokenize wildcards src = .ok ts) :
    (Piece.split src.toList).1.flatMap (·.2) = src.toList ∧ (Piece.split src.toList).2 = [] ∧
      ts = closeLines (.point (.after .start src.toList)) false
        (place .start (Piece.split src.toList).1) := by
  have happ := Piece.flatMap_splitWithin src.toList.length src.toList
  unfold tokenize at h
  dsimp only at h
  split at h
  · cases h
  · next hunread =>
    unfold Piece.split at hunread
    rw [hunread, List.append_nil] at happ
    refine ⟨happ, hunread, ?_⟩
    split at h
    · cases h
    · cases h
      rw [Piece.split, happ]
      rfl

theorem ne_nil_of_tokenize {wildcards : Bool} {src : String} {ts : List Token}
    (h : tokenize wildcards src = .ok ts) : ts ≠ [] := by
  obtain ⟨-, -, rfl⟩ := tokenize_eq_ok h
  simp [closeLines_eq]

/-- A token that is neither put in nor a line end is that of a piece. -/
theorem exists_piece_of_tokenize {wildcards : Bool} {src : String} {ts : List Token} {t : Token}
    (h : tokenize wildcards src = .ok ts) (ht : t ∈ ts)
    (hk : t.kind ∉ [.newLine, .symbol .semiColon, .eof]) :
    ∃ p ∈ (Piece.split src.toList).1, p.1 = .token t.kind := by
  simp only [List.mem_cons, List.not_mem_nil, or_false, not_or] at hk
  obtain ⟨-, -, rfl⟩ := tokenize_eq_ok h
  have ht' : t ∈ place .start (Piece.split src.toList).1 := by
    rcases mem_closeLines ht with ⟨ht, -⟩ | hsemi | heof
    · exact ht
    · exact absurd hsemi hk.2.1
    · exact absurd heof hk.2.2
  have hkind := List.mem_map_of_mem (f := Token.kind) ht'
  rw [kinds_place] at hkind
  obtain ⟨p, hp, hpk⟩ := List.mem_filterMap.mp hkind
  exact ⟨p, hp, Piece.eq_token_of_kind? hpk hk.1⟩

theorem exists_piece_of_kinds {wildcards : Bool} {src : String} {ks : List Kind} {kind : LitKind}
    {text : String} (h : kinds wildcards src = .ok ks) (hmem : .literal kind text ∈ ks) :
    ∃ p ∈ (Piece.split src.toList).1, p.1 = .token (.literal kind text) := by
  unfold kinds at h
  cases hts : tokenize wildcards src with
  | error e =>
    rw [hts] at h
    cases h
  | ok ts =>
    rw [hts] at h
    cases h
    obtain ⟨t, ht, hk⟩ := List.mem_map.mp hmem
    rw [← hk]
    exact exists_piece_of_tokenize hts ht (by simp [hk])

/-- What is a token was read as one somewhere. -/
theorem next?_of_tokenize {wildcards : Bool} {src : String} {ts : List Token} {t : Token}
    (h : tokenize wildcards src = .ok ts) (ht : t ∈ ts)
    (hk : t.kind ∉ [.newLine, .symbol .semiColon, .eof]) :
    ∃ cs text rest, Piece.next? cs = some (.token t.kind, text, rest) := by
  obtain ⟨⟨piece, text⟩, hp, hpiece⟩ := exists_piece_of_tokenize h ht hk
  obtain ⟨cs, rest, hnext⟩ := Piece.next?_of_mem_splitWithin hp
  cases hpiece
  exact ⟨cs, text, rest, hnext⟩

/-- Every identifier in the tokens of a text is a word. -/
theorem namesWord_of_tokenize {wildcards : Bool} {src : String} {ts : List Token}
    (h : tokenize wildcards src = .ok ts) : ∀ t ∈ ts, t.kind.NamesWord := by
  intro t ht
  by_cases hk : t.kind ∈ [.newLine, .symbol .semiColon, .eof]
  · simp only [List.mem_cons, List.not_mem_nil, or_false] at hk
    rcases hk with hk | hk | hk <;> rw [hk] <;> trivial
  · obtain ⟨cs, text, rest, hnext⟩ := next?_of_tokenize h ht hk
    exact (Piece.form_of_next? hnext).namesWord

/-- A literal among the tokens of its own text is the whole text. -/
theorem next?_of_kinds {wildcards : Bool} {kind : LitKind} {text : String} {ks : List Kind}
    (h : kinds wildcards text = .ok ks) (hmem : .literal kind text ∈ ks) :
    Piece.next? text.toList = some (.token (.literal kind text), text.toList, []) := by
  obtain ⟨p, hp, hkind⟩ := exists_piece_of_kinds h hmem
  have hwhole : text.toList = p.2 := Piece.written_of_splitWithin p hp _ hkind
  unfold Piece.split at hp
  cases hbound : text.toList.length with
  | zero =>
    rw [hbound] at hp
    cases hp
  | succ bound =>
    rw [hbound, Piece.splitWithin] at hp
    split at hp
    · cases hp
    · next piece front rest hnext =>
      have happ := (Piece.cut_of_next? hnext).append
      rcases List.mem_cons.mp hp with rfl | hp
      · -- the first piece is all of it
        dsimp only at hwhole hkind happ
        rw [hwhole] at happ
        rw [hnext, hkind, ← hwhole, List.append_right_eq_self.mp happ]
      · -- a later piece would be too short
        obtain ⟨before, behind, hpieces⟩ := List.append_of_mem hp
        have hrest := congrArg List.length (Piece.flatMap_splitWithin bound rest)
        have hlen := congrArg List.length hwhole
        have hlt := Piece.length_rest_lt hnext
        simp only [hpieces, List.flatMap_append, List.flatMap_cons, List.length_append] at hrest
        omega

end GoSift.Token
