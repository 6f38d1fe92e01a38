import GoSift.Proofs.Token.Placement

/-!
Words are read whole: wherever a run of the characters of words is neither in a literal nor in a comment
or wildcard, it is one token. An underscore is also a digit, and where a word should begin with one there
is a number instead.
-/
namespace GoSift.Token

open Scanner

/-- Whether a piece can be a word: it is no literal, no wildcard and no comment. -/
def Piece.isBare : Piece → Bool
  | .comment _ | .token (.literal ..) | .token (.wildcard ..) => false
  | _ => true

/-- The characters of pieces, each with whether its piece is bare. -/
def Piece.marks (pieces : List (Piece × List Char)) : List (Char × Bool) :=
  pieces.flatMap fun (piece, text) => text.map (·, piece.isBare)

/-- Whether a marked character is one that words go on with, in a bare piece. -/
def inWord (c : Char × Bool) : Bool :=
  c.2 && Text.continuesWord c.1

/-- A run of marked characters of words, as long as it can be, that begins like a word. -/
structure WordRun (marks front run back : List (Char × Bool)) : Prop where
  parts : marks = front ++ (run ++ back)
  begins : ∃ c ∈ run.head?, Text.startsWord c.1
  inside : ∀ c ∈ run, inWord c = true
  before : ∀ c ∈ front.getLast?, inWord c = false
  behind : ∀ c ∈ back.head?, inWord c = false

/-- The tokens of a text that is a word. -/
def wordTokens (w : String) : List Token :=
  let stop := Range.point (.after .start w.toList)
  ⟨wordKind w.toList, .spanning .start w.toList⟩ ::
    ((if (wordKind w.toList).endsStatement then [⟨.symbol .semiColon, stop⟩] else []) ++ [⟨.eof, stop⟩])

/-! ### One piece -/

theorem continuesWord_of_isBlank {c : Char} (h : isBlank c) : Text.continuesWord c = false := by
  simp only [isBlank, Bool.or_eq_true, beq_iff_eq] at h
  rcases h with (rfl | rfl) | rfl <;> decide +kernel

theorem Symbol.continuesWord_spelling (s : Symbol) :
    ∀ c ∈ s.spelling.toList, Text.continuesWord c = false := by
  have hall : Symbol.all.all fun s => s.spelling.toList.all fun c => !Text.continuesWord c := by
    decide +kernel
  intro c hc
  have hs := List.all_eq_true.mp (List.all_eq_true.mp hall s (GoSift.Symbol.mem_all s)) c hc
  simpa using hs

/-- A piece has no character of a word that counts, or it is a word that goes as far as it can. -/
theorem Piece.word_or_not {cs text rest : List Char} {piece : Piece}
    (h : next? cs = some (piece, text, rest)) :
    (∀ c ∈ text, inWord (c, piece.isBare) = false) ∨
      piece = .token (wordKind text) ∧ piece.isBare = true ∧ Text.isWord text ∧
        ∀ c ∈ rest.head?, Text.continuesWord c = false := by
  cases spelled_of_next? h with
  | blank _ hblank => exact .inl fun c hc => continuesWord_of_isBlank (hblank c hc)
  | lineEnd =>
    refine .inl fun c hc => ?_
    rw [List.mem_singleton.mp hc]
    decide +kernel
  | lineComment | blockComment => exact .inl fun c hc => rfl
  | token _ _ htext =>
    cases form_of_next? h with
    | literal | wildcard => exact .inl fun c hc => rfl
    | symbol s =>
      refine .inl fun c hc => Symbol.continuesWord_spelling s c ?_
      rwa [← @String.toList_ofList text, ← htext] at hc
    | @word text' hword hrest =>
      rw [wordKind_text] at htext
      obtain rfl := String.ofList_injective htext
      refine .inr ⟨rfl, ?_, hword, hrest⟩
      unfold wordKind
      split <;> rfl

/-! ### Runs -/

theorem Piece.map_marks (pieces : List (Piece × List Char)) :
    (marks pieces).map (·.1) = pieces.flatMap (·.2) := by
  simp [marks, List.map_flatMap, Function.comp_def]

variable {front run back : List (Char × Bool)}

/-- What stands behind a word goes on with no word. -/
theorem Piece.inWord_head?_marks {bound : Nat} {rest : List Char}
    (h : ∀ c ∈ rest.head?, Text.continuesWord c = false) :
    ∀ c ∈ (marks (splitWithin bound rest).1).head?, inWord c = false := by
  intro c hc
  have hhead : c.1 ∈ ((marks (splitWithin bound rest).1).map (·.1)).head? := by
    rw [List.head?_map, hc]
    rfl
  rw [map_marks] at hhead
  rw [inWord, h c.1, Bool.and_false]
  rw [← flatMap_splitWithin bound rest, List.head?_append, hhead]
  rfl

/-- A run that begins in a word is that word. -/
theorem WordRun.eq_word {text : List Char} {marks : List (Char × Bool)}
    (h : WordRun (text.map (·, true) ++ marks) front run back) (hword : Text.isWord text)
    (hmarks : ∀ c ∈ marks.head?, inWord c = false) {here : List (Char × Bool)}
    (htext : text.map (·, true) = front ++ here) : front = [] ∧ run = text.map (·, true) := by
  have hin : ∀ c ∈ text.map (·, true), inWord c = true := by
    intro c hc
    obtain ⟨d, hd, rfl⟩ := List.mem_map.mp hc
    exact Text.continuesWord_of_isWord hword d hd
  obtain rfl : front = [] := by
    by_contra hne
    have hlast := List.getLast?_eq_some_getLast hne
    have hmem : front.getLast hne ∈ text.map (·, true) :=
      htext ▸ List.mem_append_left here (List.getLast_mem hne)
    cases (h.before _ hlast).symm.trans (hin _ hmem)
  refine ⟨rfl, ?_⟩
  have hparts : text.map (·, true) ++ marks = run ++ back := h.parts
  rw [← (takeWhile_append_of_head? h.inside h.behind).1, ← hparts,
    (takeWhile_append_of_head? hin hmarks).1]

/-- A run is the text of one piece, which is a word. -/
theorem WordRun.piece {bound : Nat} {cs : List Char}
    (h : WordRun (Piece.marks (Piece.splitWithin bound cs).1) front run back) :
    ∃ before behind, front = Piece.marks before ∧ (Piece.splitWithin bound cs).1 =
      before ++ (.token (wordKind (run.map (·.1))), run.map (·.1)) :: behind := by
  obtain ⟨first, hfirst, -⟩ := h.begins
  have hne : run ≠ [] := List.ne_nil_of_mem (List.mem_of_mem_head? hfirst)
  induction bound generalizing cs front with
  | zero => simpa [Piece.splitWithin, Piece.marks, hne] using h.parts
  | succ bound ih =>
    rw [Piece.splitWithin] at h ⊢
    split at h
    · simpa [Piece.marks, hne] using h.parts
    · next piece text rest hnext =>
      change WordRun (text.map (·, piece.isBare) ++ Piece.marks (Piece.splitWithin bound rest).1)
        front run back at h
      -- a run that begins behind the piece is one of the rest
      have hlater : ∀ front', front = text.map (·, piece.isBare) ++ front' →
          Piece.marks (Piece.splitWithin bound rest).1 = front' ++ (run ++ back) →
          ∃ before behind, front = Piece.marks before ∧
            (piece, text) :: (Piece.splitWithin bound rest).1 = before ++
              (.token (wordKind (run.map (·.1))), run.map (·.1)) :: behind := by
        rintro front' rfl hparts
        have hbefore : ∀ c ∈ front'.getLast?, inWord c = false := by
          intro c hc
          refine h.before c ?_
          rw [List.getLast?_append, hc, Option.some_or]
          rfl
        obtain ⟨before, behind, rfl, hsplit⟩ :=
          ih ⟨hparts, h.begins, h.inside, hbefore, h.behind⟩
        exact ⟨(piece, text) :: before, behind, rfl, congrArg _ hsplit⟩
      rcases List.append_eq_append_iff.mp h.parts with ⟨front', hfront, hrest⟩ | ⟨here, htext, hrest⟩
      · exact hlater front' hfront hrest
      · cases here with
        | nil => exact hlater [] (by rw [List.append_nil] at htext ⊢; exact htext.symm) hrest.symm
        | cons c here =>
          -- the run begins in the piece, which is then a word
          have hmem : first ∈ text.map (·, piece.isBare) := by
            have hhead : first ∈ (run ++ back).head? := by rw [List.head?_append, hfirst]; rfl
            rw [hrest] at hhead
            cases hhead
            exact htext ▸ List.mem_append_right front List.mem_cons_self
          obtain ⟨d, hd, rfl⟩ := List.mem_map.mp hmem
          rcases Piece.word_or_not hnext with hnone | ⟨rfl, hbare, hword, hstop⟩
          · cases (hnone d hd).symm.trans (h.inside _ (List.mem_of_mem_head? hfirst))
          · rw [hbare] at h htext
            obtain ⟨rfl, rfl⟩ := h.eq_word hword (Piece.inWord_head?_marks hstop) htext
            exact ⟨[], (Piece.splitWithin bound rest).1, rfl, by simp [Function.comp_def]⟩

/-! ### Tokens -/

theorem place_append (p : Position) (before behind : List (Piece × List Char)) :
    place p (before ++ behind) = place p before ++ place (p.after (before.flatMap (·.2))) behind := by
  induction before generalizing p with
  | nil => rfl
  | cons first before ih =>
    obtain ⟨piece, text⟩ := first
    rw [List.cons_append, List.flatMap_cons, Position.after_append, place, place, ih]
    cases piece.kind? <;> rfl

theorem closeLines_append (eof : Range) (ended : Bool) (before behind : List Token) {t : Token}
    (ht : t.kind ≠ .newLine) :
    ∃ before', closeLines eof ended (before ++ t :: behind) =
      before' ++ t :: closeLines eof t.kind.endsStatement behind := by
  induction before generalizing ended with
  | nil =>
    refine ⟨[], ?_⟩
    rw [List.nil_append, closeLines, if_neg ht]
    rfl
  | cons u before ih =>
    rw [List.cons_append, closeLines]
    split
    · obtain ⟨before', hbefore⟩ := ih false
      rw [hbefore]
      split
      · exact ⟨_ :: before', rfl⟩
      · exact ⟨before', rfl⟩
    · obtain ⟨before', hbefore⟩ := ih u.kind.endsStatement
      exact ⟨u :: before', congrArg _ hbefore⟩

theorem wordKind_proper (text : List Char) :
    wordKind text ≠ .newLine ∧ ∀ range, isWildcard ⟨wordKind text, range⟩ = false := by
  unfold wordKind
  split <;> exact ⟨nofun, fun _ => rfl⟩

/-- The token of a run, with the others in front of it and behind it. -/
theorem WordRun.token {wildcards : Bool} {src : String} {tokens : List Token}
    (htokens : tokenize wildcards src = .ok tokens)
    (h : WordRun (Piece.marks (Piece.split src.toList).1) front run back) :
    ∃ before behind, tokens = before ++ ⟨wordKind (run.map (·.1)),
      .spanning (.after .start (front.map (·.1))) (run.map (·.1))⟩ :: behind := by
  obtain ⟨before, behind, rfl, hsplit⟩ := h.piece
  obtain ⟨-, -, rfl⟩ := tokenize_eq_ok htokens
  rw [Piece.split, hsplit, place_append, Piece.map_marks, place]
  obtain ⟨before', hbefore⟩ := closeLines_append (.point (.after .start src.toList)) false
    (place .start before) _ (t := ⟨wordKind (run.map (·.1)), _⟩) (wordKind_proper _).1
  exact ⟨before', _, hbefore⟩

/-- The tokens of a word that begins with a letter. -/
theorem tokenize_word (wildcards : Bool) {w : String} {c : Char} {cs : List Char}
    (hw : w.toList = c :: cs) (hc : Text.isLetter c) (hcs : cs.all Text.continuesWord) :
    tokenize wildcards w = .ok (wordTokens w) := by
  have hnext : Piece.next? (c :: cs) = some (.token (wordKind (c :: cs)), c :: cs, []) := by
    rw [← List.append_nil (c :: cs), Piece.next?_word hc hcs (by simp), List.append_nil]
  have hend : ∀ bound, Piece.splitWithin bound [] = ([], []) := fun bound => by cases bound <;> rfl
  have hsplit : Piece.split w.toList = ([(.token (wordKind w.toList), w.toList)], []) := by
    rw [Piece.split, hw, List.length_cons, Piece.splitWithin, hnext]
    simp only [hend]
  have hplain : (if wildcards then none
      else [Token.mk (wordKind w.toList) (.spanning .start w.toList)].find? isWildcard) = none := by
    rw [List.find?_cons, (wordKind_proper _).2]
    split <;> rfl
  unfold tokenize
  rw [hsplit]
  simp only [List.flatMap_cons, List.flatMap_nil, List.append_nil, place, Piece.kind?, hplain]
  rw [insertSemicolons, closeLines, if_neg (wordKind_proper _).1]
  rfl

theorem number_underscore (cs : List Char) :
    ∃ kind text front back, number ('_' :: cs) = some (.token (.literal kind text), front, back) := by
  have hdigits : digits ('_' :: cs) = some ('_' :: cs.takeWhile isDigit, cs.dropWhile isDigit) := by
    simp [digits, Recognizer.run1, Recognizer.run, isDigit]
  have hsome : (unmarked ('_' :: cs)).isSome := by
    unfold unmarked
    split
    · rfl
    · simp [decimalNumber, Recognizer.orElse, Recognizer.andThen, hdigits, Recognizer.optional]
  obtain ⟨⟨kind, text, rest⟩, hunmarked⟩ := Option.isSome_iff_exists.mp hsome
  rw [number_eq, hunmarked, Option.map_some]
  dsimp only [withMark]
  split <;> exact ⟨_, _, _, _, rfl⟩

/-- A text that begins with an underscore begins with a number. -/
theorem literal_of_underscore {wildcards : Bool} {src : String} {cs : List Char}
    (hsrc : src.toList = '_' :: cs) {tokens : List Token} (h : tokenize wildcards src = .ok tokens) :
    ∃ kind text, tokens.head?.map Token.kind = some (.literal kind text) := by
  obtain ⟨-, -, rfl⟩ := tokenize_eq_ok h
  obtain ⟨kind, text, front, back, hnumber⟩ := number_underscore cs
  refine ⟨kind, text, ?_⟩
  rw [Piece.split, hsrc, List.length_cons, Piece.splitWithin, Piece.next?_of_number hnumber]
  rfl

/-- A word is one token if it begins with a letter, and begins with a number otherwise. In every text
with tokens, a run of the characters of words outside literals, comments and wildcards that begins like a
word is one token, and the other tokens are in front of it and behind it. -/
theorem words_read_whole (wildcards : Bool) :
    (∀ w, Text.IsWord w →
      (w.toList.head? ≠ some '_' → tokenize wildcards w = .ok (wordTokens w)) ∧
        (w.toList.head? = some '_' → ∀ tokens, tokenize wildcards w = .ok tokens →
          ∃ kind text, tokens.head?.map Token.kind = some (.literal kind text))) ∧
      ∀ src tokens, tokenize wildcards src = .ok tokens →
        (Piece.marks (Piece.split src.toList).1).map (·.1) = src.toList ∧
          ∀ front run back, WordRun (Piece.marks (Piece.split src.toList).1) front run back →
            let text := run.map (·.1)
            let range := Range.spanning (.after .start (front.map (·.1))) text
            ∃ before behind, tokens = before ++ ⟨wordKind text, range⟩ :: behind ∧
              (∀ t ∈ before, t.range.precedes range) ∧ ∀ t ∈ behind, range.precedes t.range := by
  refine ⟨fun w hw => ⟨fun hletter => ?_, fun hunder tokens htokens => ?_⟩,
    fun src tokens htokens => ?_⟩
  · unfold Text.IsWord at hw
    cases hcs : w.toList with
    | nil =>
      rw [hcs] at hw
      cases hw
    | cons c cs =>
      rw [hcs, Text.isWord, Bool.and_eq_true, Text.startsWord, Bool.or_eq_true, beq_iff_eq] at hw
      refine tokenize_word wildcards hcs (hw.1.resolve_right ?_) hw.2
      rintro rfl
      exact hletter (congrArg List.head? hcs)
  · obtain ⟨cs, hcs⟩ := List.head?_eq_some_iff.mp hunder
    exact literal_of_underscore hcs htokens
  · obtain ⟨hsrc, -, hclosed⟩ := tokenize_eq_ok htokens
    refine ⟨(Piece.map_marks _).trans hsrc, fun front run back hrun => ?_⟩
    obtain ⟨before, behind, hparts⟩ := hrun.token htokens
    refine ⟨before, behind, hparts, ?_⟩
    have hpairwise := pairwise_closeLines (Piece.split src.toList).1 false
    rw [hsrc, ← hclosed, hparts, List.pairwise_append, List.pairwise_cons] at hpairwise
    obtain ⟨-, ⟨hbehind, -⟩, hbefore⟩ := hpairwise
    exact ⟨fun t ht => hbefore t ht _ List.mem_cons_self, hbehind⟩

/-- Two words, with a comment in front of the second. -/
def spacedWords : String :=
  "if /*é*/ab_1"

theorem spacedWords_whole :
    tokenize false "ab_1" = .ok (wordTokens "ab_1") ∧
      ∃ tokens before behind, tokenize false spacedWords = .ok tokens ∧
        tokens = before ++ ⟨.ident "ab_1", ⟨⟨1, 9⟩, ⟨1, 13⟩⟩⟩ :: behind := by
  obtain ⟨hwords, hruns⟩ := words_read_whole false
  refine ⟨(hwords "ab_1" (by unfold Text.IsWord; decide +kernel)).1 (by decide +kernel), ?_⟩
  have hok : (tokenize false spacedWords).toOption.isSome := by decide +kernel
  obtain ⟨tokens, htokens⟩ := Option.isSome_iff_exists.mp hok
  rw [except_toOption_eq_some] at htokens
  have hrun : WordRun (Piece.marks (Piece.split spacedWords.toList).1)
      ((Piece.marks (Piece.split spacedWords.toList).1).take 8)
      ("ab_1".toList.map (·, true)) [] := by
    constructor <;> decide +kernel
  obtain ⟨before, behind, hparts, -⟩ := (hruns _ _ htokens).2 _ _ _ hrun
  have hfront : Position.after .start (((Piece.marks (Piece.split spacedWords.toList).1).take 8).map
      (·.1)) = ⟨1, 9⟩ := by decide +kernel
  rw [hfront] at hparts
  exact ⟨tokens, before, behind, htokens, hparts⟩

/-- An underscore in front of a letter is a number. -/
theorem underscore_word_split :
    Text.IsWord "_x" ∧
      (tokenize false "_x").toOption.map (List.map Token.kind) =
        some [.literal .int "_", .ident "x", .symbol .semiColon, .eof] ∧
      tokenize false "_x" ≠ .ok (wordTokens "_x") := by
  have hkinds : (tokenize false "_x").toOption.map (List.map Token.kind) =
      some [.literal .int "_", .ident "x", .symbol .semiColon, .eof] := by decide +kernel
  refine ⟨by unfold Text.IsWord; decide +kernel, hkinds, fun htokens => ?_⟩
  rw [htokens] at hkinds
  revert hkinds
  decide +kernel

end GoSift.Token
