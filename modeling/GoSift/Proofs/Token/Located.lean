import GoSift.Proofs.Token.Placement
import GoSift.Source.Span
import GoSift.Text.Bytes

/-!
Ranges that lie in a text. The bytes in front of such a range and those in it are found again by walking
through the text to its ends. The ranges of tokens lie in the text they are read from, and so does the
place at which there is no token.
-/
namespace GoSift

namespace Range

/-- Whether a range is that of a part of a text. -/
def LiesIn (r : Range) (cs : List Char) : Prop :=
  ∃ front middle back, cs = front ++ (middle ++ back) ∧ r = .spanning (.after .start front) middle

variable {r : Range} {cs : List Char}

theorem LiesIn.start (h : r.LiesIn cs) : (point r.start).LiesIn cs := by
  obtain ⟨front, middle, back, hcs, rfl⟩ := h
  exact ⟨front, [], middle ++ back, hcs, rfl⟩

theorem liesIn_default : LiesIn default cs :=
  ⟨[], [], cs, rfl, rfl⟩

end Range

namespace Token

theorem liesIn_of_place {pieces : List (Piece × List Char)} {t : Token}
    (h : t ∈ place .start pieces) : t.range.LiesIn (pieces.flatMap (·.2)) := by
  rw [place_start] at h
  obtain ⟨⟨piece, range⟩, hrow, h⟩ := List.mem_filterMap.mp h
  obtain ⟨kind, -, rfl⟩ := Option.map_eq_some_iff.mp h
  obtain ⟨mid, text, back, -, hsrc, hrange⟩ := Piece.mem_ranges [] hrow
  exact ⟨mid, text, back, hsrc, hrange⟩

theorem liesIn_of_closeLines {pieces : List (Piece × List Char)} {ended : Bool} {t : Token}
    (h : t ∈ closeLines (.point (.after .start (pieces.flatMap (·.2)))) ended (place .start pieces)) :
    t.range.LiesIn (pieces.flatMap (·.2)) := by
  have hrange := (ranges_closeLines _ _ _).subset (List.mem_map_of_mem (f := Token.range) h)
  rcases List.mem_append.mp hrange with hplaced | heof
  · obtain ⟨u, hu, hrange⟩ := List.mem_map.mp hplaced
    exact hrange ▸ liesIn_of_place hu
  · have hpoint : t.range = .point (.after .start (pieces.flatMap (·.2))) := by simpa using heof
    exact ⟨_, [], [], (List.append_nil _).symm, hpoint⟩

/-- Every token, written or put in, has its range in the text. -/
theorem liesIn_of_tokenize {wildcards : Bool} {src : String} {ts : List Token} {t : Token}
    (h : tokenize wildcards src = .ok ts) (ht : t ∈ ts) : t.range.LiesIn src.toList := by
  obtain ⟨hsrc, -, rfl⟩ := tokenize_eq_ok h
  generalize (Piece.split src.toList).1 = pieces at hsrc ht
  rw [← hsrc] at ht ⊢
  exact liesIn_of_closeLines ht

/-- Cutting stops only where no piece begins. -/
theorem Piece.next?_unread {bound : Nat} {cs : List Char} (hbound : cs.length ≤ bound) :
    (splitWithin bound cs).2 = [] ∨ next? (splitWithin bound cs).2 = none := by
  induction bound generalizing cs with
  | zero => exact .inl (List.eq_nil_of_length_eq_zero (Nat.le_zero.mp hbound))
  | succ bound ih =>
    rw [splitWithin]
    split
    · next h => exact .inr h
    · next h =>
      have hlt := length_rest_lt h
      exact ih (by omega)

theorem Piece.ne_lineEnd_of_next? {c : Char} {rest : List Char} (h : next? (c :: rest) = none) :
    c ≠ '\n' := by
  rintro rfl
  have hnone := List.findSome?_eq_none_iff.mp h Scanner.lineEnd (by simp [Scanner.all])
  cases hnone

end Token

/-- A text without tokens has the fault that is reported in it. -/
theorem LexError.liesIn_of_tokenize {wildcards : Bool} {src : String} {e : LexError}
    (h : Token.tokenize wildcards src = .error e) : e.range.LiesIn src.toList := by
  have hsrc := Token.Piece.flatMap_splitWithin src.toList.length src.toList
  have hunread := @Token.Piece.next?_unread _ src.toList (Nat.le_refl _)
  unfold Token.tokenize Token.Piece.split at h
  generalize Token.Piece.splitWithin src.toList.length src.toList = parts at h hsrc hunread
  obtain ⟨pieces, unread⟩ := parts
  dsimp only at h hsrc hunread
  rw [← hsrc]
  split at h
  · next c rest =>
    cases h
    have hc := Token.Piece.ne_lineEnd_of_next? (hunread.resolve_left (List.cons_ne_nil _ _))
    refine ⟨_, [c], rest, rfl, ?_⟩
    simp only [range, Range.spanning, Position.after_cons, Position.after_nil, Position.advance,
      if_neg hc]
  · split at h
    · next t hfound =>
      cases h
      rw [List.append_nil]
      refine Token.liesIn_of_place (List.mem_of_find?_eq_some (p := Token.isWildcard) ?_)
      split at hfound
      · cases hfound
      · exact hfound
    · cases h

end GoSift
