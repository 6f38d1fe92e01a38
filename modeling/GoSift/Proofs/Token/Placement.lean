import GoSift.Proofs.Outcome
import GoSift.Proofs.Token.Scans
import Mathlib.Data.List.Basic
import Mathlib.Data.List.Induction
import Mathlib.Data.List.TakeWhile

/-!
Where tokens stand. A text is cut into blanks, line ends, comments and tokens, and a token has the range
of its piece. The ends of a range are found by counting: lines by the line ends in front of a place,
columns by the characters since the last of them. So the ranges of tokens follow each other.
-/
namespace GoSift

namespace Position

/-- The place behind the first `n` characters of a text. -/
def atOffset (cs : List Char) (n : Nat) : Position :=
  let front := cs.take n
  ⟨1 + front.count '\n', 1 + (front.reverse.takeWhile (· ≠ '\n')).length⟩

theorem before_iff {p q : Position} :
    p.before q = true ↔ p.line < q.line ∨ p.line = q.line ∧ p.column < q.column := by
  rw [before, order, beq_iff_eq, Ordering.then_eq_lt, Nat.compare_eq_lt, Nat.compare_eq_eq,
    Nat.compare_eq_lt]

theorem before_trans {p q r : Position} (h : p.before q = true) (h' : q.before r = true) :
    p.before r = true := by
  rw [before_iff] at *
  omega

theorem before_advance (p : Position) (c : Char) : p.before (p.advance c) = true := by
  rw [before_iff, advance]
  split <;> simp

/-- Whoever goes on in a text gets to a later place. -/
theorem before_after (p : Position) {cs : List Char} (h : cs ≠ []) : p.before (p.after cs) = true := by
  induction cs generalizing p with
  | nil => exact absurd rfl h
  | cons c cs ih =>
    rw [after_cons]
    by_cases hcs : cs = []
    · subst hcs
      exact p.before_advance c
    · exact before_trans (p.before_advance c) (ih _ hcs)

theorem not_after_before (p : Position) (cs : List Char) : (p.after cs).before p = false := by
  rw [Bool.eq_false_iff]
  intro h
  by_cases hcs : cs = []
  · subst hcs
    rw [after_nil, before_iff] at h
    omega
  · have hlater := p.before_after hcs
    rw [before_iff] at h hlater
    omega

/-- Counting gives the place that going through the text leads to. -/
theorem start_after (cs : List Char) : start.after cs = atOffset cs cs.length := by
  induction cs using List.reverseRecOn with
  | nil => rfl
  | append_singleton cs c ih =>
    rw [after_append, ih]
    simp only [atOffset, List.take_length, after_cons, after_nil, advance, List.count_append,
      List.reverse_append, List.reverse_singleton, List.singleton_append, List.takeWhile_cons]
    by_cases hc : c = '\n'
    · subst hc
      simp [Nat.add_assoc]
    · simp [hc, Nat.add_assoc]

/-- The place behind a front part of a text. -/
theorem atOffset_append (front back : List Char) :
    atOffset (front ++ back) front.length = start.after front := by
  rw [start_after, atOffset, atOffset, List.take_left, List.take_length]

end Position

/-- Whether a range ends before another one begins, or where it begins. -/
def Range.precedes (a b : Range) : Bool :=
  !b.start.before a.stop

namespace Token

namespace Piece

/-- How pieces are written. A comment that begins with `/*` goes on up to the first `*/`. -/
inductive Spelled : Piece → List Char → Prop
  | blank {text : List Char} (hne : text ≠ []) (hblank : ∀ c ∈ text, Scanner.isBlank c) :
      Spelled .blank text
  | lineEnd : Spelled .lineEnd ['\n']
  | lineComment {body : List Char} (hline : '\n' ∉ body) :
      Spelled (.comment false) (['/', '/'] ++ body)
  | blockComment {body : List Char} (hfirst : ¬ ['*', '/'] <:+: body ++ ['*']) :
      Spelled (.comment (decide ('\n' ∈ body))) (['/', '*'] ++ (body ++ ['*', '/']))
  | token {kind : Kind} {text : List Char} (hkind : kind ≠ .newLine ∧ kind ≠ .eof) (hne : text ≠ [])
      (htext : kind.text = String.ofList text) : Spelled (.token kind) text

/-- The token that a piece is. -/
def token? : Piece → Option Kind
  | token kind => some kind
  | _ => none

/-- Whether a piece ends a line. -/
def endsLine : Piece → Bool
  | lineEnd => true
  | comment multiline => multiline
  | _ => false

/-- The ranges of pieces of a text that begin at an offset. -/
def ranges (src : List Char) : Nat → List (Piece × List Char) → List (Piece × Range)
  | _, [] => []
  | n, (piece, text) :: rest =>
    (piece, ⟨.atOffset src n, .atOffset src (n + text.length)⟩) :: ranges src (n + text.length) rest

end Piece

/-- The tokens of the pieces of a text that are tokens, with their ranges. -/
def pieceTokens (src : List Char) (pieces : List (Piece × List Char)) : List Token :=
  (Piece.ranges src 0 pieces).filterMap fun (piece, range) => piece.token?.map (⟨·, range⟩)

/-- A token that no piece is: a semicolon for a piece that ends a line or for the end of the text, or the
end mark. -/
def Inserted (src : List Char) (pieces : List (Piece × List Char)) (t : Token) : Prop :=
  let eof := Range.point (.atOffset src src.length)
  t.kind = .symbol .semiColon ∧
      (t.range = eof ∨ ∃ piece, piece.endsLine ∧ (piece, t.range) ∈ Piece.ranges src 0 pieces) ∨
    t.kind = .eof ∧ t.range = eof

/-- The first tokens with others put in between. -/
inductive Filled (inserted : Token → Prop) : List Token → List Token → Prop
  | nil : Filled inserted [] []
  | keep {t : Token} {ks ts : List Token} (h : Filled inserted ks ts) :
      Filled inserted (t :: ks) (t :: ts)
  | insert {t : Token} {ks ts : List Token} (ht : inserted t) (h : Filled inserted ks ts) :
      Filled inserted ks (t :: ts)

namespace Recognizer

theorem eq_of_exactly {w cs front back : List Char} (h : exactly w cs = some (front, back)) :
    front = w := by
  unfold exactly at h
  split at h <;> cases h
  rfl

theorem not_isPrefixOf_of_exactly {w cs : List Char} (h : exactly w cs = none) : ¬ w <+: cs := by
  unfold exactly at h
  split at h
  · cases h
  · next hw => exact fun hp => hw (List.isPrefixOf_iff_prefix.mpr hp)

/-- What is recognized through some characters ends with them and has them nowhere else. -/
theorem first_of_through {w cs front back : List Char} (hw : w ≠ [])
    (h : through w cs = some (front, back)) :
    ∃ body, front = body ++ w ∧ ¬ w <:+: body ++ w.dropLast := by
  have hshort : ¬ w <:+: w.dropLast := by
    intro hinfix
    have hle := hinfix.length_le
    have hpos := List.length_pos_iff.mpr hw
    rw [List.length_dropLast] at hle
    omega
  induction cs generalizing front back with
  | nil => exact ⟨[], eq_of_exactly h, hshort⟩
  | cons c cs ih =>
    rw [through] at h
    split at h
    · next parts hhere =>
      cases h
      exact ⟨[], eq_of_exactly hhere, hshort⟩
    · next hnone =>
      obtain ⟨⟨front', back'⟩, hlater, heq⟩ := Option.map_eq_some_iff.mp h
      cases heq
      obtain ⟨body, rfl, hbody⟩ := ih hlater
      refine ⟨c :: body, rfl, ?_⟩
      rw [List.cons_append, List.infix_cons_iff]
      rintro (hhere | hlater')
      · have hcs := lossless_through _ _ _ hlater
        refine not_isPrefixOf_of_exactly hnone (hhere.trans ?_)
        rw [← hcs, List.append_assoc, List.cons_prefix_cons]
        refine ⟨rfl, (List.prefix_append_right_inj body).mpr ?_⟩
        exact (List.dropLast_prefix w).trans (List.prefix_append w _)
      · exact hbody hlater'

end Recognizer

namespace Scanner

theorem blank_spelled {cs : List Char} {r : Piece × List Char × List Char} (h : blank cs = some r)
    (hcut : Piece.Cut cs r) : r.1.Spelled r.2.1 := by
  obtain ⟨⟨text, rest⟩, hrun, h⟩ := Option.bind_eq_some_iff.mp h
  cases h
  exact .blank hcut.ne_nil (List.all_eq_true.mp (Recognizer.all_of_run1 hrun))

theorem lineEnd_spelled {cs : List Char} {r : Piece × List Char × List Char}
    (h : lineEnd cs = some r) : r.1.Spelled r.2.1 := by
  unfold lineEnd at h
  split at h <;> cases h
  exact .lineEnd

theorem lineComment_spelled {cs : List Char} {r : Piece × List Char × List Char}
    (h : lineComment cs = some r) : r.1.Spelled r.2.1 := by
  obtain ⟨_, hrec, h⟩ := Option.bind_eq_some_iff.mp h
  cases h
  obtain ⟨⟨open_, behind⟩, hopen, hrec⟩ := Option.bind_eq_some_iff.mp hrec
  cases hrec
  obtain rfl := Recognizer.eq_of_exactly hopen
  refine .lineComment fun hm => ?_
  have hne := List.mem_takeWhile_imp hm
  simp at hne

theorem blockComment_spelled {cs : List Char} {r : Piece × List Char × List Char}
    (h : blockComment cs = some r) : r.1.Spelled r.2.1 := by
  obtain ⟨_, hrec, h⟩ := Option.bind_eq_some_iff.mp h
  cases h
  obtain ⟨⟨open_, behind⟩, hopen, hrec⟩ := Option.bind_eq_some_iff.mp hrec
  obtain ⟨⟨inside, back⟩, hinside, hrec⟩ := Option.bind_eq_some_iff.mp hrec
  cases hrec
  obtain rfl := Recognizer.eq_of_exactly hopen
  obtain ⟨body, rfl, hfirst⟩ := Recognizer.first_of_through (List.cons_ne_nil _ _) hinside
  have hlines : (['/', '*'] ++ (body ++ ['*', '/'])).contains '\n' = decide ('\n' ∈ body) := by
    rw [List.contains_eq_mem]
    simp
  dsimp only
  rw [hlines]
  exact .blockComment hfirst

end Scanner

namespace Piece

theorem spelled_of_next? {cs : List Char} {r : Piece × List Char × List Char}
    (h : next? cs = some r) : r.1.Spelled r.2.1 := by
  have hcut := cut_of_next? h
  rcases Scanner.formed_or_blank h with ⟨kind, hkind, hform⟩ | h | h | h | h
  · rw [hkind]
    exact .token hform.proper hcut.ne_nil (hcut.written kind hkind)
  · exact Scanner.blank_spelled h hcut
  · exact Scanner.lineEnd_spelled h
  · exact Scanner.lineComment_spelled h
  · exact Scanner.blockComment_spelled h

theorem spelled_of_splitWithin {bound : Nat} {cs : List Char} :
    ∀ p ∈ (splitWithin bound cs).1, p.1.Spelled p.2 := by
  intro p hp
  obtain ⟨_, _, hnext⟩ := next?_of_mem_splitWithin hp
  exact spelled_of_next? hnext

end Piece

namespace Piece

/-- Pieces are where their texts are: behind those in front of them. -/
theorem mem_ranges (front : List Char) {pieces : List (Piece × List Char)} {piece : Piece}
    {range : Range} (h : (piece, range) ∈ ranges (front ++ pieces.flatMap (·.2)) front.length pieces) :
    ∃ mid text back, (piece, text) ∈ pieces ∧ pieces.flatMap (·.2) = mid ++ (text ++ back) ∧
      range = .spanning (.after .start (front ++ mid)) text := by
  induction pieces generalizing front with
  | nil => cases h
  | cons p pieces ih =>
    obtain ⟨first, text⟩ := p
    rw [List.flatMap_cons] at h ⊢
    rw [ranges, ← List.length_append] at h
    rcases List.mem_cons.mp h with h | h
    · cases h
      refine ⟨[], text, _, List.mem_cons_self, rfl, ?_⟩
      rw [Position.atOffset_append, ← List.append_assoc, Position.atOffset_append, List.append_nil,
        Range.spanning, Position.after_append]
    · rw [← List.append_assoc] at h
      obtain ⟨mid, text', back, hp, hmid, hrange⟩ := ih _ h
      refine ⟨text ++ mid, text', back, List.mem_cons_of_mem _ hp, ?_, ?_⟩
      · rw [hmid, List.append_assoc]
      · rw [hrange, List.append_assoc]

/-- Ranges of pieces follow each other, and the end of the text behind them. -/
theorem pairwise_ranges (front : List Char) (pieces : List (Piece × List Char)) :
    ((ranges (front ++ pieces.flatMap (·.2)) front.length pieces).map (·.2)).Pairwise
      fun a b => a.precedes b := by
  induction pieces generalizing front with
  | nil => exact .nil
  | cons p pieces ih =>
    obtain ⟨first, text⟩ := p
    rw [List.flatMap_cons, ranges, ← List.length_append, ← List.append_assoc, List.map_cons,
      List.pairwise_cons]
    refine ⟨?_, ih (front ++ text)⟩
    intro range hrange
    obtain ⟨⟨piece, _⟩, hmem, rfl⟩ := List.mem_map.mp hrange
    obtain ⟨mid, text', back, -, -, rfl⟩ := mem_ranges _ hmem
    rw [Range.precedes, Position.atOffset_append, Range.spanning, Position.after_append,
      Position.not_after_before]
    rfl

end Piece

/-- Tokens are placed by the ranges of their pieces. -/
theorem place_eq_ranges (front : List Char) (pieces : List (Piece × List Char)) :
    place (.after .start front) pieces =
      (Piece.ranges (front ++ pieces.flatMap (·.2)) front.length pieces).filterMap
        fun (piece, range) => piece.kind?.map (⟨·, range⟩) := by
  induction pieces generalizing front with
  | nil => rfl
  | cons p pieces ih =>
    obtain ⟨piece, text⟩ := p
    have hrest := ih (front ++ text)
    rw [Position.after_append, List.append_assoc, List.length_append] at hrest
    have hrange : Range.mk (.atOffset (front ++ (text ++ pieces.flatMap (·.2))) front.length)
        (.atOffset (front ++ (text ++ pieces.flatMap (·.2))) (front.length + text.length)) =
        .spanning (.after .start front) text := by
      rw [Position.atOffset_append, ← List.append_assoc, ← List.length_append,
        Position.atOffset_append, Position.after_append]
      rfl
    rw [place, List.flatMap_cons, Piece.ranges, List.filterMap_cons, hrange, hrest]
    dsimp only
    cases piece.kind? <;> rfl

theorem place_start (pieces : List (Piece × List Char)) :
    place .start pieces = (Piece.ranges (pieces.flatMap (·.2)) 0 pieces).filterMap
      fun (piece, range) => piece.kind?.map (⟨·, range⟩) :=
  place_eq_ranges [] pieces

/-- Closing lines keeps the tokens that are no line ends. -/
theorem filled_closeLines {inserted : Token → Prop} {eof : Range} {ts : List Token}
    (hend : inserted ⟨.eof, eof⟩) (hlast : inserted ⟨.symbol .semiColon, eof⟩)
    (hline : ∀ t ∈ ts, t.kind = .newLine → inserted ⟨.symbol .semiColon, t.range⟩) (ended : Bool) :
    Filled inserted (ts.filter (·.kind ≠ .newLine)) (closeLines eof ended ts) := by
  induction ts generalizing ended with
  | nil =>
    cases ended with
    | false => exact .insert hend .nil
    | true => exact .insert hlast (.insert hend .nil)
  | cons t ts ih =>
    obtain ⟨ht, hts⟩ := List.forall_mem_cons.mp hline
    rw [closeLines, List.filter_cons]
    by_cases hk : t.kind = .newLine
    · simp only [hk, ne_eq, not_true_eq_false, decide_false, Bool.false_eq_true, if_false, if_true]
      split
      · exact .insert (ht hk) (ih hts _)
      · exact ih hts _
    · simp only [hk, ne_eq, not_false_eq_true, decide_true, if_true, if_false]
      exact .keep (ih hts _)

/-- The ranges that are left when lines are closed. -/
theorem ranges_closeLines (eof : Range) (ended : Bool) (ts : List Token) :
    ((closeLines eof ended ts).map Token.range).Sublist (ts.map Token.range ++ [eof, eof]) := by
  induction ts generalizing ended with
  | nil => cases ended <;> simp [closeLines]
  | cons t ts ih =>
    rw [closeLines, List.map_cons, List.cons_append]
    split
    · split
      · exact (ih false).cons_cons _
      · exact (ih false).cons _
    · exact (ih _).cons_cons _

/-- The tokens that are placed, without the ends of lines, are those of the pieces that are tokens. -/
theorem filter_place {pieces : List (Piece × List Char)} (h : ∀ p ∈ pieces, p.1.Spelled p.2) :
    (place .start pieces).filter (·.kind ≠ .newLine) =
      pieceTokens (pieces.flatMap (·.2)) pieces := by
  rw [place_start, List.filter_filterMap, pieceTokens]
  refine List.filterMap_congr fun ⟨piece, range⟩ hmem => ?_
  obtain ⟨mid, text, back, hpiece, -, -⟩ := Piece.mem_ranges [] hmem
  cases h _ hpiece with
  | blank | lineEnd | lineComment => rfl
  | blockComment =>
    simp only [Piece.kind?, Piece.token?, Option.map_none]
    split <;> rfl
  | token hkind => simp [Piece.kind?, Piece.token?, hkind.1]

/-- A line is closed for a piece that ends a line. -/
theorem inserted_of_place {pieces : List (Piece × List Char)} (h : ∀ p ∈ pieces, p.1.Spelled p.2)
    {t : Token} (ht : t ∈ place .start pieces) (hk : t.kind = .newLine) :
    Inserted (pieces.flatMap (·.2)) pieces ⟨.symbol .semiColon, t.range⟩ := by
  rw [place_start] at ht
  obtain ⟨⟨piece, range⟩, hmem, ht⟩ := List.mem_filterMap.mp ht
  obtain ⟨kind, hkind, rfl⟩ := Option.map_eq_some_iff.mp ht
  refine Or.inl ⟨rfl, Or.inr ⟨piece, ?_, hmem⟩⟩
  obtain ⟨mid, text, back, hpiece, -, -⟩ := Piece.mem_ranges [] hmem
  change kind = .newLine at hk
  subst hk
  cases h _ hpiece with
  | blank | lineComment => cases hkind
  | lineEnd => rfl
  | @blockComment body =>
    simp only [Piece.kind?] at hkind
    split at hkind
    · next hbody => exact hbody
    · cases hkind
  | token hproper =>
    cases hkind
    exact absurd rfl hproper.1

theorem sublist_ranges (rows : List (Piece × Range)) :
    ((rows.filterMap fun (piece, range) => piece.kind?.map (Token.mk · range)).map Token.range).Sublist
      (rows.map (·.2)) := by
  induction rows with
  | nil => exact .slnil
  | cons row rows ih =>
    obtain ⟨piece, range⟩ := row
    rw [List.filterMap_cons, List.map_cons]
    dsimp only
    cases piece.kind? with
    | none => exact ih.cons _
    | some kind => exact ih.cons_cons _

/-- The ranges of the tokens of a text follow each other, the end mark last. -/
theorem pairwise_closeLines (pieces : List (Piece × List Char)) (ended : Bool) :
    (closeLines (.point (.after .start (pieces.flatMap (·.2)))) ended (place .start pieces)).Pairwise
      fun a b => a.range.precedes b.range := by
  have hpieces := Piece.pairwise_ranges [] pieces
  generalize heof : Range.point (.after .start (pieces.flatMap (·.2))) = eof
  have hlast : eof.precedes eof := by
    subst heof
    exact Bool.not_eq_true' _ ▸ Position.not_after_before (Position.after .start _) []
  have hbefore : ∀ row ∈ Piece.ranges (pieces.flatMap (·.2)) 0 pieces, row.2.precedes eof := by
    rintro ⟨piece, range⟩ hrow
    obtain ⟨mid, text, back, -, hsrc, rfl⟩ := Piece.mem_ranges [] hrow
    subst heof
    rw [Range.precedes, Range.point, Range.spanning, hsrc, List.nil_append, Position.after_append,
      Position.after_append, Position.not_after_before]
    rfl
  have hall : ((Piece.ranges (pieces.flatMap (·.2)) 0 pieces).map (·.2) ++ [eof, eof]).Pairwise
      fun a b => a.precedes b := by
    refine List.pairwise_append.mpr ⟨hpieces, by simpa using hlast, ?_⟩
    rintro a ha b hb
    obtain ⟨row, hrow, rfl⟩ := List.mem_map.mp ha
    obtain rfl : b = eof := by simpa using hb
    exact hbefore row hrow
  have hsub : ((place .start pieces).map Token.range).Sublist
      ((Piece.ranges (pieces.flatMap (·.2)) 0 pieces).map (·.2)) := by
    rw [place_start]
    exact sublist_ranges _
  exact List.pairwise_map.mp
    (hall.sublist ((ranges_closeLines eof ended _).trans (hsub.append_right _)))

/-- A token of a piece has a range that is not empty. -/
theorem before_of_mem_pieceTokens {pieces : List (Piece × List Char)}
    (h : ∀ p ∈ pieces, p.1.Spelled p.2) {t : Token}
    (ht : t ∈ pieceTokens (pieces.flatMap (·.2)) pieces) : t.range.start.before t.range.stop := by
  obtain ⟨⟨piece, range⟩, hrow, ht⟩ := List.mem_filterMap.mp ht
  obtain ⟨kind, hkind, rfl⟩ := Option.map_eq_some_iff.mp ht
  obtain ⟨mid, text, back, hpiece, -, rfl⟩ := Piece.mem_ranges [] hrow
  cases h _ hpiece with
  | token _ hne => exact Position.before_after _ hne
  | _ => cases hkind

/-- Lexing loses nothing and its places are exact. When a text has tokens, it is cut into pieces, each a
run of blanks, a line end, a comment or a token with the text of the piece. The tokens of the text are
those of its pieces, in their places, with semicolons and the end mark put in between; their ranges are
not empty, and no range begins before the one in front of it ends. -/
theorem tokenize_lossless {wildcards : Bool} {src : String} {tokens : List Token}
    (h : tokenize wildcards src = .ok tokens) :
    ∃ pieces : List (Piece × List Char), pieces.flatMap (·.2) = src.toList ∧
      (∀ p ∈ pieces, p.1.Spelled p.2) ∧
      Filled (Inserted src.toList pieces) (pieceTokens src.toList pieces) tokens ∧
      (tokens.Pairwise fun a b => a.range.precedes b.range) ∧
      ∀ t ∈ pieceTokens src.toList pieces, t.range.start.before t.range.stop := by
  have hspelled := @Piece.spelled_of_splitWithin src.toList.length src.toList
  have hwhole := Piece.flatMap_splitWithin src.toList.length src.toList
  unfold tokenize Piece.split at h
  generalize Piece.splitWithin src.toList.length src.toList = parts at h hspelled hwhole
  obtain ⟨pieces, unread⟩ := parts
  dsimp only at h hspelled hwhole
  cases unread with
  | cons => cases h
  | nil =>
    rw [List.append_nil] at hwhole
    dsimp only at h
    split at h
    · cases h
    · cases h
      rw [← hwhole]
      refine ⟨pieces, rfl, hspelled, ?_, pairwise_closeLines pieces false,
        fun t ht => before_of_mem_pieceTokens hspelled ht⟩
      rw [← filter_place hspelled]
      refine filled_closeLines ?_ ?_ (fun t ht hk => inserted_of_place hspelled ht hk) false
      · exact Or.inr ⟨rfl, congrArg Range.point (Position.start_after _)⟩
      · exact Or.inl ⟨rfl, Or.inl (congrArg Range.point (Position.start_after _))⟩

/-- A text with a comment and a string over several lines. -/
def longWinded : String :=
  "f(\x60é\n\x60, 'i', 0x1i) /* a\n * b */ // c\n$*x\t<<= \"\\\n\";"

theorem longWinded_lossless :
    ∃ tokens pieces, tokenize true longWinded = .ok tokens ∧
      tokens.map Token.text = ["f", "(", "\x60é\n\x60", ",", "'i'", ",", "0x1i", ")", ";", "$*x", "<<=",
        "\"\\\n\"", ";", "EOF"] ∧
      pieces.flatMap (·.2) = longWinded.toList ∧ (∀ p ∈ pieces, Piece.Spelled p.1 p.2) ∧
      Filled (Inserted longWinded.toList pieces) (pieceTokens longWinded.toList pieces) tokens ∧
      (tokens.Pairwise fun a b => a.range.precedes b.range) ∧
      ∀ t ∈ pieceTokens longWinded.toList pieces, t.range.start.before t.range.stop := by
  have htokens : (tokenize true longWinded).toOption.map (List.map Token.text) =
      some ["f", "(", "\x60é\n\x60", ",", "'i'", ",", "0x1i", ")", ";", "$*x", "<<=", "\"\\\n\"",
        ";", "EOF"] := by decide +kernel
  simp only [Option.map_eq_some_iff, except_toOption_eq_some] at htokens
  obtain ⟨tokens, htokens, htexts⟩ := htokens
  obtain ⟨pieces, hpieces⟩ := tokenize_lossless htokens
  exact ⟨tokens, pieces, htokens, htexts, hpieces⟩

end Token

end GoSift
