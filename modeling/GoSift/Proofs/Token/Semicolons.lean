import GoSift.Proofs.Token.Placement

/-!
Where semicolons are put in. What becomes of a token depends on the one behind it only: a semicolon follows
it if it ends a statement and a line end or nothing is behind it. So the end mark is never right behind the
end of a statement, and line ends that end nothing leave no trace.
-/
namespace GoSift.Token

/-- Whether the last token is the end mark. -/
def Terminated (ts : List Token) : Prop :=
  ∃ t, ts.getLast? = some t ∧ t.kind = .eof

theorem terminated_iff {ts : List Token} : Terminated ts ↔ (ts.map kind).getLast? = some .eof := by
  simp [Terminated]

theorem Terminated.suffix {ts us : List Token} (h : Terminated ts) (hs : us <:+ ts)
    (hne : us ≠ []) : Terminated us := by
  obtain ⟨t, hlast, heof⟩ := h
  obtain ⟨front, rfl⟩ := hs
  have hu := List.getLast?_eq_some_getLast hne
  rw [List.getLast?_append, hu] at hlast
  cases hlast
  exact ⟨_, hu, heof⟩

theorem Terminated.append {ts : List Token} (front : List Token) (h : Terminated ts) :
    Terminated (front ++ ts) := by
  obtain ⟨t, hlast, heof⟩ := h
  exact ⟨t, by rw [List.getLast?_append, hlast]; rfl, heof⟩

theorem Terminated.ne_nil {ts : List Token} (h : Terminated ts) : ts ≠ [] := by
  rintro rfl
  obtain ⟨t, ht, -⟩ := h
  cases ht

/-- Tokens up to the end mark, which is last and nowhere else and not right behind the end of a statement.
`ended` says whether the token in front of them ends one. -/
inductive Closed : (ended : Bool) → List Token → Prop
  | eof (range : Range) : Closed false [⟨.eof, range⟩]
  | cons {ended : Bool} {t : Token} {ts : List Token} (ht : t.kind ≠ .eof)
      (behind : Closed t.kind.endsStatement ts) : Closed ended (t :: ts)

namespace Closed

variable {ended : Bool} {ts us : List Token} {t : Token}

theorem terminated (h : Closed ended ts) : Terminated ts := by
  induction h with
  | eof range => exact ⟨_, rfl, rfl⟩
  | cons _ _ ih => exact ih.append [_]

theorem behind_suffix (h : Closed ended ts) (hs : t :: us <:+ ts) (hne : us ≠ []) :
    Closed t.kind.endsStatement us := by
  induction h with
  | eof range => simp_all [List.suffix_cons_iff]
  | cons _ behind ih =>
    rcases List.suffix_cons_iff.mp hs with hs | hs
    · cases hs
      exact behind
    · exact ih hs

theorem forget (h : Closed ended ts) : Closed false ts := by
  cases h with
  | eof range => exact .eof range
  | cons ht behind => exact .cons ht behind

theorem suffix (h : Closed ended ts) (hs : us <:+ ts) (hne : us ≠ []) : Closed false us := by
  obtain ⟨front, rfl⟩ := hs
  rcases front.eq_nil_or_concat with rfl | ⟨front, t, rfl⟩
  · exact h.forget
  · rw [List.concat_append] at h
    exact (h.behind_suffix (List.suffix_append front _) hne).forget

end Closed

theorem closed_closeLines (eof : Range) (ended : Bool) {ts : List Token}
    (h : ∀ t ∈ ts, t.kind ≠ .eof) : Closed ended (closeLines eof ended ts) := by
  induction ts generalizing ended with
  | nil =>
    cases ended with
    | false => exact .eof eof
    | true => exact .cons (by simp) (.eof eof)
  | cons t ts ih =>
    obtain ⟨ht, hts⟩ := List.forall_mem_cons.mp h
    rw [closeLines]
    split
    · cases ended with
      | false => exact ih false hts
      | true => exact .cons (by simp) (ih false hts)
    · exact .cons ht (ih _ hts)

theorem closeLines_add_newLine (eof : Range) (ended : Bool) (before after : List Token) {t n : Token}
    (hn : n.kind = .newLine) (ht : t.kind.endsStatement = false) :
    closeLines eof ended (before ++ t :: n :: after) = closeLines eof ended (before ++ t :: after) := by
  induction before generalizing ended with
  | nil => simp [closeLines, hn, ht]
  | cons u before ih => simp only [List.cons_append, closeLines, ih]

theorem kinds_closeLines_congr (eof eof' : Range) (ended : Bool) (ts : List Token) {ts' : List Token}
    (h : ts'.map kind = ts.map kind) :
    (closeLines eof' ended ts').map kind = (closeLines eof ended ts).map kind := by
  induction ts generalizing ended ts' with
  | nil =>
    rw [List.map_nil, List.map_eq_nil_iff] at h
    subst h
    cases ended <;> rfl
  | cons t ts ih =>
    obtain ⟨t', ts', rfl, ht, hts⟩ := List.map_eq_cons_iff.mp h
    simp only [closeLines, ht]
    split <;> [split; skip] <;> simp [ih _ hts, ht]

theorem closed_of_tokenize {wildcards : Bool} {src : String} {ts : List Token}
    (h : tokenize wildcards src = .ok ts) : Closed false ts := by
  obtain ⟨-, -, rfl⟩ := tokenize_eq_ok h
  refine closed_closeLines _ false fun t ht hk => ?_
  have hkind := List.mem_map_of_mem (f := kind) ht
  rw [kinds_place, hk] at hkind
  obtain ⟨⟨piece, text⟩, hpiece, hkind⟩ := List.mem_filterMap.mp hkind
  cases Piece.spelled_of_splitWithin _ hpiece with
  | token hproper => exact hproper.2 (Option.some.inj hkind)
  | blockComment =>
    simp only [Piece.kind?] at hkind
    split at hkind <;> cases hkind
  | _ => cases hkind

/-- Semicolon insertion keeps the tokens that are no line ends, puts one semicolon behind each that ends
a statement where the line or the text ends, and adds the end mark. So no line end is left, no statement
is open at the end mark, which is at the end only, and the kinds that come out are the same with one more
line end at the front, behind another one or behind a token that ends no statement. -/
theorem insertSemicolons_closes {ts : List Token} (h : ∀ t ∈ ts, t.kind ≠ .eof) (eof : Range) :
    insertSemicolons ts eof = ts.tails.flatMap (closeFirst eof) ++ [⟨.eof, eof⟩] ∧
      (∀ t ∈ insertSemicolons ts eof, t.kind ≠ .newLine) ∧
      Closed false (insertSemicolons ts eof) ∧
      (∀ ts' eof', ts'.map kind = .newLine :: ts.map kind →
        (insertSemicolons ts' eof').map kind = (insertSemicolons ts eof).map kind) ∧
      ∀ before k after ts' eof', ts.map kind = before ++ k :: after →
        k = .newLine ∨ k.endsStatement = false → ts'.map kind = before ++ k :: .newLine :: after →
        (insertSemicolons ts' eof').map kind = (insertSemicolons ts eof).map kind := by
  refine ⟨closeLines_eq eof false ts, ?_, closed_closeLines eof false h, ?_, ?_⟩
  · intro t ht
    rcases mem_closeLines ht with ⟨-, hk⟩ | hk | hk
    · exact hk
    · simp [hk]
    · simp [hk]
  · intro ts' eof' hts'
    exact kinds_closeLines_congr eof eof' false (⟨.newLine, eof⟩ :: ts) hts'
  · intro before k after ts' eof' hts hk hts'
    obtain ⟨front, back, rfl, rfl, hback⟩ := List.map_eq_append_iff.mp hts
    obtain ⟨t, back, rfl, rfl, rfl⟩ := List.map_eq_cons_iff.mp hback
    have ht : t.kind.endsStatement = false := by
      rcases hk with hk | hk
      · rw [hk]; rfl
      · exact hk
    refine (kinds_closeLines_congr eof eof' false (front ++ t :: ⟨.newLine, eof⟩ :: back)
      (by simpa using hts')).trans ?_
    rw [closeLines_add_newLine eof false front back rfl ht]
    rfl

/-- Lines that end in front of, behind and in the middle of `a + b` in braces. -/
def brokenLines : List Token :=
  [Kind.newLine, .symbol .lBrace, .newLine, .ident "a", .symbol .plus, .newLine, .ident "b", .newLine,
    .newLine, .symbol .rBrace].map (⟨·, default⟩)

theorem brokenLines_closes :
    (∀ t ∈ brokenLines, t.kind ≠ .eof) ∧
      (insertSemicolons brokenLines default).map kind =
        [.symbol .lBrace, .ident "a", .symbol .plus, .ident "b", .symbol .semiColon, .symbol .rBrace,
          .symbol .semiColon, .eof] ∧
      Closed false (insertSemicolons brokenLines default) ∧
      ∀ ts', ts'.map kind = [.newLine, .symbol .lBrace, .newLine, .ident "a", .symbol .plus, .newLine,
          .newLine, .ident "b", .newLine, .newLine, .symbol .rBrace] →
        (insertSemicolons ts' default).map kind = (insertSemicolons brokenLines default).map kind := by
  have hproper : ∀ t ∈ brokenLines, t.kind ≠ .eof := by decide
  obtain ⟨-, -, hclosed, -, hadded⟩ := insertSemicolons_closes hproper default
  exact ⟨hproper, by decide, hclosed, fun ts' =>
    hadded [.newLine, .symbol .lBrace, .newLine, .ident "a"] (.symbol .plus)
      [.newLine, .ident "b", .newLine, .newLine, .symbol .rBrace] ts' default rfl (.inr rfl)⟩

end GoSift.Token
