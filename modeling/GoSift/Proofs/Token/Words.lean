import GoSift.Token.Stream

/-! The tokens that can be read: literals, words and symbols, and wildcards, whose names are words. -/
namespace GoSift

/-- Whether characters make up a word. -/
def Text.isWord : List Char → Bool
  | [] => false
  | c :: cs => startsWord c && cs.all continuesWord

/-- A text that is a word. -/
def Text.IsWord (s : String) : Prop :=
  isWord s.toList

theorem takeWhile_append_of_head? {α : Type} {f : α → Bool} {run rest : List α}
    (hrun : ∀ a ∈ run, f a = true) (hrest : ∀ a ∈ rest.head?, f a = false) :
    (run ++ rest).takeWhile f = run ∧ (run ++ rest).dropWhile f = rest := by
  rw [List.takeWhile_append_of_pos hrun, List.dropWhile_append_of_pos hrun]
  cases rest with
  | nil => simp
  | cons a rest => simp [hrest a rfl]

theorem Text.continuesWord_of_isWord {text : List Char} (h : isWord text) :
    ∀ c ∈ text, continuesWord c = true := by
  cases text with
  | nil => cases h
  | cons d cs =>
    rw [isWord, Bool.and_eq_true, startsWord, Bool.or_eq_true] at h
    refine List.forall_mem_cons.mpr ⟨?_, List.all_eq_true.mp h.2⟩
    rcases h.1 with hd | hd <;> simp [continuesWord, hd]

namespace Token

theorem isWord_of_word {cs text rest : List Char} (h : Scanner.word cs = some (text, rest)) :
    Text.isWord text := by
  cases cs with
  | nil => cases h
  | cons c cs =>
    simp only [Scanner.word, Recognizer.andThen, Recognizer.one] at h
    split at h
    · next hc =>
      cases h
      rw [List.singleton_append, Text.isWord, hc, List.all_takeWhile]
      rfl
    · cases h

namespace Scanner

/-- A number without the mark of imaginary ones. -/
def unmarked (cs : List Char) : Option (LitKind × List Char × List Char) :=
  match radixNumber cs with
  | some (text, rest) => some (.int, text, rest)
  | none => (decimalNumber cs).map fun (text, rest) => (decimalKind text, text, rest)

/-- A number with the mark that may stand right behind it. -/
def withMark (kind : LitKind) (text : List Char) : List Char → Piece × List Char × List Char
  | 'i' :: rest => literal .imag (text ++ ['i']) rest
  | rest => literal kind text rest

theorem number_eq (cs : List Char) :
    number cs = (unmarked cs).map fun (kind, text, rest) => withMark kind text rest := by
  have hmark : ∀ kind text (rest : List Char), (match rest with
      | 'i' :: rest' => pure (literal .imag (text ++ ['i']) rest')
      | _ => pure (literal kind text rest) : Option _) = some (withMark kind text rest) := by
    intro kind text rest
    unfold withMark
    split <;> rfl
  unfold number unmarked
  cases radixNumber cs with
  | some r => exact hmark _ _ _
  | none =>
    cases decimalNumber cs with
    | some r => exact hmark _ _ _
    | none => rfl

end Scanner

/-- A token that is no line end is that of a token piece. -/
theorem Piece.eq_token_of_kind? {piece : Piece} {kind : Kind} (h : piece.kind? = some kind)
    (hk : kind ≠ .newLine) : piece = .token kind := by
  cases piece with
  | blank => cases h
  | lineEnd =>
    cases h
    exact absurd rfl hk
  | comment multiline =>
    cases multiline <;> cases h
    exact absurd rfl hk
  | token =>
    cases h
    rfl

/-- What a token reads as an identifier is a word. -/
def Kind.NamesWord : Kind → Prop
  | .ident name => Text.IsWord name
  | _ => True

/-- The kind of a token and what is behind it. A word goes as far as it can. -/
inductive Kind.Form (rest : List Char) : Kind → Prop
  | literal (kind : LitKind) (text : String) : Form rest (.literal kind text)
  | wildcard {name : String} (any : Bool) (hname : Text.IsWord name) : Form rest (.wildcard name any)
  | word {text : List Char} (htext : Text.isWord text)
      (hrest : ∀ c ∈ rest.head?, Text.continuesWord c = false) : Form rest (Scanner.wordKind text)
  | symbol (s : Symbol) : Form rest (.symbol s)

theorem Kind.Form.isWord {rest : List Char} {name : String} {any : Bool}
    (h : Form rest (.wildcard name any)) : Text.IsWord name := by
  generalize hkind : Kind.wildcard name any = kind at h
  cases h with
  | literal | symbol => cases hkind
  | wildcard any hname =>
    cases hkind
    exact hname
  | word htext =>
    unfold Scanner.wordKind at hkind
    split at hkind <;> cases hkind

theorem Kind.Form.namesWord {rest : List Char} {kind : Kind} (h : Form rest kind) :
    kind.NamesWord := by
  cases h with
  | literal | wildcard | symbol => trivial
  | word htext =>
    unfold Scanner.wordKind
    split
    · trivial
    · rw [NamesWord, Text.IsWord, String.toList_ofList]
      exact htext

theorem Kind.Form.proper {rest : List Char} {kind : Kind} (h : Form rest kind) :
    kind ≠ .newLine ∧ kind ≠ .eof := by
  cases h with
  | literal | wildcard | symbol => exact ⟨nofun, nofun⟩
  | word =>
    unfold Scanner.wordKind
    split <;> exact ⟨nofun, nofun⟩

/-- A piece that is a token has a form. -/
def Piece.Formed (r : Piece × List Char × List Char) : Prop :=
  ∃ kind, r.1 = .token kind ∧ kind.Form r.2.2

namespace Scanner

variable {cs : List Char} {r : Piece × List Char × List Char}

theorem literal_formed (kind : LitKind) (text rest : List Char) :
    Piece.Formed (literal kind text rest) :=
  ⟨_, rfl, .literal kind _⟩

theorem number_formed (h : number cs = some r) : Piece.Formed r := by
  rw [number_eq] at h
  obtain ⟨⟨kind, text, rest⟩, -, rfl⟩ := Option.map_eq_some_iff.mp h
  dsimp only [withMark]
  split <;> exact literal_formed _ _ _

theorem quoted_formed {quote : Char} {kind : LitKind} {empty : Bool}
    (h : quoted quote kind empty cs = some r) : Piece.Formed r := by
  unfold quoted at h
  split at h
  · cases h
  · split at h
    · dsimp only at h
      split at h
      · split at h
        · cases h
          exact literal_formed _ _ _
        · cases h
      · cases h
    · cases h

theorem rawString_formed (h : rawString cs = some r) : Piece.Formed r := by
  obtain ⟨_, -, h⟩ := Option.bind_eq_some_iff.mp h
  cases h
  exact literal_formed _ _ _

theorem wildcard_formed (h : wildcard cs = some r) : Piece.Formed r := by
  unfold wildcard at h
  split at h
  · obtain ⟨_, -, h⟩ := Option.bind_eq_some_iff.mp h
    obtain ⟨⟨name, rest⟩, hname, h⟩ := Option.bind_eq_some_iff.mp h
    cases h
    refine ⟨_, rfl, .wildcard _ ?_⟩
    rw [Text.IsWord, String.toList_ofList]
    exact isWord_of_word hname
  · cases h

theorem head?_of_word {text rest : List Char} (h : word cs = some (text, rest)) :
    ∀ c ∈ rest.head?, Text.continuesWord c = false := by
  cases cs with
  | nil => cases h
  | cons d cs =>
    simp only [word, Recognizer.andThen, Recognizer.one] at h
    split at h
    · cases h
      intro c hc
      have hstop := List.head?_dropWhile_not Text.continuesWord cs
      rw [hc] at hstop
      exact hstop
    · cases h

theorem wordOrKeyword_formed (h : wordOrKeyword cs = some r) : Piece.Formed r := by
  obtain ⟨⟨text, rest⟩, hword, h⟩ := Option.bind_eq_some_iff.mp h
  cases h
  exact ⟨_, rfl, .word (isWord_of_word hword) (head?_of_word hword)⟩

theorem symbol_formed (h : symbol cs = some r) : Piece.Formed r := by
  obtain ⟨sym, -, h⟩ := Option.bind_eq_some_iff.mp h
  obtain ⟨_, -, h⟩ := Option.bind_eq_some_iff.mp h
  cases h
  exact ⟨_, rfl, .symbol sym⟩

/-- A piece is blank, a line end or a comment, or a token. -/
theorem formed_or_blank (h : Piece.next? cs = some r) :
    Piece.Formed r ∨
      blank cs = some r ∨ lineEnd cs = some r ∨ lineComment cs = some r ∨ blockComment cs = some r := by
  obtain ⟨scan, hm, h⟩ := List.exists_of_findSome?_eq_some h
  simp only [all, List.mem_cons, List.not_mem_nil, or_false] at hm
  rcases hm with rfl | rfl | rfl | rfl | rfl | rfl | rfl | rfl | rfl | rfl | rfl
  · exact .inr (.inl h)
  · exact .inr (.inr (.inl h))
  · exact .inr (.inr (.inr (.inl h)))
  · exact .inr (.inr (.inr (.inr h)))
  · exact .inl (number_formed h)
  · exact .inl (quoted_formed h)
  · exact .inl (quoted_formed h)
  · exact .inl (rawString_formed h)
  · exact .inl (wildcard_formed h)
  · exact .inl (wordOrKeyword_formed h)
  · exact .inl (symbol_formed h)

end Scanner

theorem Piece.form_of_next? {cs text rest : List Char} {kind : Kind}
    (h : next? cs = some (token kind, text, rest)) : kind.Form rest := by
  rcases Scanner.formed_or_blank h with ⟨_, ⟨⟩, hform⟩ | h | h | h | h
  · exact hform
  · obtain ⟨_, -, h⟩ := Option.bind_eq_some_iff.mp h
    cases h
  · unfold Scanner.lineEnd at h
    split at h <;> cases h
  · obtain ⟨_, -, h⟩ := Option.bind_eq_some_iff.mp h
    cases h
  · obtain ⟨_, -, h⟩ := Option.bind_eq_some_iff.mp h
    cases h

end Token

end GoSift
