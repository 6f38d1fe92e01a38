import GoSift.Proofs.Token.Words

/-!
Scanning loses nothing: a piece and the rest behind it make up the text, a piece is never empty, and a
token is written as its piece. So the pieces of a text make up the text again.
-/
namespace GoSift.Token

namespace Recognizer

/-- A recognizer that never recognizes the empty text. -/
def Solid (r : Recognizer) : Prop :=
  ∀ cs front back, r cs = some (front, back) → front ≠ []

variable {r s : Recognizer} {p : Char → Bool} {w : List Char}

theorem lossless_run : Lossless (run p) := by
  rintro cs front back ⟨⟩
  exact List.takeWhile_append_dropWhile

theorem lossless_run1 : Lossless (run1 p) := by
  intro cs front back h
  unfold run1 at h
  split at h
  · cases h
  · exact lossless_run cs front back h

theorem lossless_one : Lossless (one p) := by
  intro cs front back h
  unfold one at h
  split at h
  · cases h
  · split at h <;> cases h
    rfl

theorem lossless_exactly : Lossless (exactly w) := by
  intro cs front back h
  unfold exactly at h
  split at h
  · next hw =>
    cases h
    obtain ⟨back, rfl⟩ := List.isPrefixOf_iff_prefix.mp hw
    rw [List.drop_left]
  · cases h

theorem lossless_through : Lossless (through w) := by
  intro cs
  induction cs with
  | nil => exact lossless_exactly []
  | cons c cs ih =>
    intro front back h
    rw [through] at h
    split at h
    · next hw =>
      cases h
      exact lossless_exactly _ _ _ hw
    · obtain ⟨⟨front', back'⟩, h', heq⟩ := Option.map_eq_some_iff.mp h
      cases heq
      exact congrArg (c :: ·) (ih _ _ h')

theorem Lossless.andThen (hr : Lossless r) (hs : Lossless s) : Lossless (r.andThen s) := by
  intro cs front back h
  obtain ⟨⟨front₁, back₁⟩, h₁, h⟩ := Option.bind_eq_some_iff.mp h
  obtain ⟨⟨front₂, back₂⟩, h₂, h⟩ := Option.bind_eq_some_iff.mp h
  cases h
  rw [List.append_assoc, hs _ _ _ h₂, hr _ _ _ h₁]

theorem Lossless.orElse (hr : Lossless r) (hs : Lossless s) : Lossless (r.orElse s) := by
  intro cs front back h
  unfold Recognizer.orElse at h
  split at h
  · next h' =>
    cases h
    exact hr _ _ _ h'
  · exact hs _ _ _ h

theorem Lossless.optional (hr : Lossless r) : Lossless (optional r) := by
  intro cs front back h
  unfold Recognizer.optional at h
  cases h' : r cs with
  | none =>
    rw [h'] at h
    cases h
    rfl
  | some parts =>
    rw [h'] at h
    cases h
    exact hr _ _ _ h'

theorem solid_run1 : Solid (run1 p) := by
  intro cs front back h
  unfold run1 at h
  split at h
  · cases h
  · next hne =>
    cases h
    simpa using hne

theorem solid_one : Solid (one p) := by
  intro cs front back h
  unfold one at h
  split at h
  · cases h
  · split at h <;> cases h
    exact List.cons_ne_nil _ _

theorem solid_exactly (hw : w ≠ []) : Solid (exactly w) := by
  intro cs front back h
  unfold exactly at h
  split at h <;> cases h
  exact hw

theorem Solid.andThen (hr : Solid r) : Solid (r.andThen s) := by
  intro cs front back h
  obtain ⟨⟨front₁, back₁⟩, h₁, h⟩ := Option.bind_eq_some_iff.mp h
  obtain ⟨⟨front₂, back₂⟩, h₂, h⟩ := Option.bind_eq_some_iff.mp h
  cases h
  exact List.append_ne_nil_of_left_ne_nil (hr _ _ _ h₁) _

theorem Solid.orElse (hr : Solid r) (hs : Solid s) : Solid (r.orElse s) := by
  intro cs front back h
  unfold Recognizer.orElse at h
  split at h
  · next h' =>
    cases h
    exact hr _ _ _ h'
  · exact hs _ _ _ h

theorem quotedBody_append (quote : Char) (cs : List Char) :
    (quotedBody quote cs).1 ++ (quotedBody quote cs).2 = cs := by
  fun_induction quotedBody quote cs with
  | case1 c cs front back h ih => simpa [h] using ih
  | case2 => rfl
  | case3 => rfl
  | case4 => rfl
  | case5 c cs hesc hend hne front back h ih => simpa [h] using ih

end Recognizer

namespace Scanner

open Recognizer

theorem lossless_digits : Lossless digits :=
  lossless_run1

theorem lossless_exponent : Lossless exponent :=
  lossless_one.andThen (lossless_one.optional.andThen lossless_digits)

theorem lossless_radixDigits {small capital : Char} {p : Char → Bool} :
    Lossless (radixDigits small capital p) :=
  lossless_exactly.andThen (lossless_one.andThen lossless_run1)

theorem lossless_radixNumber : Lossless radixNumber :=
  lossless_radixDigits.orElse (lossless_radixDigits.orElse lossless_radixDigits)

theorem lossless_decimalNumber : Lossless decimalNumber :=
  (lossless_digits.andThen ((lossless_exactly.andThen lossless_digits.optional).optional.andThen
    lossless_exponent.optional)).orElse
    (lossless_exactly.andThen (lossless_digits.andThen lossless_exponent.optional))

theorem solid_radixDigits {small capital : Char} {p : Char → Bool} :
    Solid (radixDigits small capital p) :=
  (solid_exactly (List.cons_ne_nil _ _)).andThen

theorem solid_radixNumber : Solid radixNumber :=
  solid_radixDigits.orElse (solid_radixDigits.orElse solid_radixDigits)

theorem solid_decimalNumber : Solid decimalNumber :=
  solid_run1.andThen.orElse (solid_exactly (List.cons_ne_nil _ _)).andThen

theorem lossless_word : Lossless word :=
  lossless_one.andThen lossless_run

theorem solid_word : Solid word :=
  solid_one.andThen

end Scanner

namespace Piece

/-- A piece cut off the front of `cs`: its text and the rest make up `cs`, the text is not empty, and a
token is written as that text. -/
structure Cut (cs : List Char) (r : Piece × List Char × List Char) : Prop where
  append : r.2.1 ++ r.2.2 = cs
  ne_nil : r.2.1 ≠ []
  written : ∀ kind, r.1 = .token kind → kind.text = String.ofList r.2.1

end Piece

namespace Scanner

open Recognizer Piece

variable {cs : List Char} {r : Piece × List Char × List Char}

theorem literal_written {kind : LitKind} {text : List Char} {k : Kind}
    (h : Piece.token (.literal kind (String.ofList text)) = .token k) :
    k.text = String.ofList text := by
  cases h
  rfl

theorem unmarked_cut {kind : LitKind} {text rest : List Char}
    (h : unmarked cs = some (kind, text, rest)) : text ++ rest = cs ∧ text ≠ [] := by
  unfold unmarked at h
  split at h
  · next h' =>
    cases h
    exact ⟨lossless_radixNumber _ _ _ h', solid_radixNumber _ _ _ h'⟩
  · obtain ⟨⟨text', rest'⟩, h', heq⟩ := Option.map_eq_some_iff.mp h
    cases heq
    exact ⟨lossless_decimalNumber _ _ _ h', solid_decimalNumber _ _ _ h'⟩

theorem number_cut (h : number cs = some r) : Cut cs r := by
  rw [number_eq] at h
  obtain ⟨⟨kind, text, rest⟩, hu, rfl⟩ := Option.map_eq_some_iff.mp h
  obtain ⟨happ, hne⟩ := unmarked_cut hu
  dsimp only
  unfold withMark
  split
  · next rest' =>
    refine ⟨?_, List.append_ne_nil_of_left_ne_nil hne _, fun _ => literal_written⟩
    rw [← happ]
    exact List.append_assoc _ _ _
  · exact ⟨happ, hne, fun _ => literal_written⟩

theorem quoted_cut {quote : Char} {kind : LitKind} {empty : Bool}
    (h : quoted quote kind empty cs = some r) : Cut cs r := by
  unfold quoted at h
  split at h
  · cases h
  · next c cs =>
    split at h
    · next hc =>
      dsimp only at h
      split at h
      · next d rest hback =>
        split at h
        · next hd =>
          cases h
          refine ⟨?_, List.cons_ne_nil _ _, fun _ => literal_written⟩
          have happ := quotedBody_append quote cs
          obtain rfl : c = quote := by simpa using hc
          obtain rfl : d = c := by simpa using (Bool.and_eq_true_iff.mp hd).1
          rw [hback] at happ
          simpa [literal] using happ
        · cases h
      · cases h
    · cases h

theorem rawString_cut (h : rawString cs = some r) : Cut cs r := by
  obtain ⟨⟨text, rest⟩, h', h⟩ := Option.bind_eq_some_iff.mp h
  cases h
  exact ⟨lossless_exactly.andThen lossless_through _ _ _ h',
    (solid_exactly (List.cons_ne_nil _ _)).andThen _ _ _ h', fun _ => literal_written⟩

theorem wildcard_cut (h : wildcard cs = some r) : Cut cs r := by
  unfold wildcard at h
  split at h
  · next cs =>
    obtain ⟨⟨star, behind⟩, hstar, h⟩ := Option.bind_eq_some_iff.mp h
    obtain ⟨⟨name, rest⟩, hname, h⟩ := Option.bind_eq_some_iff.mp h
    have happ : star ++ (name ++ rest) = cs := by
      rw [lossless_word _ _ _ hname, lossless_exactly.optional _ _ _ hstar]
    have htext : Kind.wildcardText (String.ofList name) (!star.isEmpty)
        = String.ofList ('$' :: star ++ name) := by
      unfold Recognizer.optional exactly at hstar
      split at hstar <;> cases hstar <;> simp [Kind.wildcardText, String.ext_iff]
    cases h
    refine ⟨?_, List.cons_ne_nil _ _, ?_⟩
    · rw [List.cons_append, List.cons_append, List.append_assoc, happ]
    · rintro _ ⟨⟩
      exact htext
  · cases h

theorem wordKind_text (text : List Char) : (wordKind text).text = String.ofList text := by
  unfold wordKind
  split
  · next word h =>
    have hspelled := List.find?_some h
    exact beq_iff_eq.mp hspelled
  · rfl

theorem wordOrKeyword_cut (h : wordOrKeyword cs = some r) : Cut cs r := by
  obtain ⟨⟨text, rest⟩, h', h⟩ := Option.bind_eq_some_iff.mp h
  cases h
  refine ⟨lossless_word _ _ _ h', solid_word _ _ _ h', ?_⟩
  rintro _ ⟨⟩
  exact wordKind_text text

theorem symbol_cut (h : symbol cs = some r) : Cut cs r := by
  obtain ⟨sym, -, h⟩ := Option.bind_eq_some_iff.mp h
  obtain ⟨⟨text, rest⟩, h', h⟩ := Option.bind_eq_some_iff.mp h
  have hne : sym.spelling.toList ≠ [] := by cases sym <;> decide
  have htext : text = sym.spelling.toList := by
    unfold exactly at h'
    split at h' <;> cases h'
    rfl
  cases h
  refine ⟨lossless_exactly _ _ _ h', solid_exactly hne _ _ _ h', ?_⟩
  rintro _ ⟨⟩
  rw [htext, String.ofList_toList]
  rfl

theorem lineEnd_cut (h : lineEnd cs = some r) : Cut cs r := by
  unfold lineEnd at h
  split at h <;> cases h
  exact ⟨rfl, List.cons_ne_nil _ _, nofun⟩

end Scanner

namespace Piece

open Recognizer

variable {cs : List Char}

theorem cut_of_next? {r : Piece × List Char × List Char} (h : next? cs = some r) : Cut cs r := by
  obtain ⟨scan, hm, h⟩ := List.exists_of_findSome?_eq_some h
  simp only [Scanner.all, List.mem_cons, List.not_mem_nil, or_false] at hm
  rcases hm with rfl | rfl | rfl | rfl | rfl | rfl | rfl | rfl | rfl | rfl | rfl
  · obtain ⟨_, h', h⟩ := Option.bind_eq_some_iff.mp h
    cases h
    exact ⟨lossless_run1 _ _ _ h', solid_run1 _ _ _ h', by rintro _ ⟨⟩⟩
  · exact Scanner.lineEnd_cut h
  · obtain ⟨_, h', h⟩ := Option.bind_eq_some_iff.mp h
    cases h
    exact ⟨lossless_exactly.andThen lossless_run _ _ _ h',
      (solid_exactly (List.cons_ne_nil _ _)).andThen _ _ _ h', by rintro _ ⟨⟩⟩
  · obtain ⟨_, h', h⟩ := Option.bind_eq_some_iff.mp h
    cases h
    exact ⟨lossless_exactly.andThen lossless_through _ _ _ h',
      (solid_exactly (List.cons_ne_nil _ _)).andThen _ _ _ h', by rintro _ ⟨⟩⟩
  · exact Scanner.number_cut h
  · exact Scanner.quoted_cut h
  · exact Scanner.quoted_cut h
  · exact Scanner.rawString_cut h
  · exact Scanner.wildcard_cut h
  · exact Scanner.wordOrKeyword_cut h
  · exact Scanner.symbol_cut h

theorem length_rest_lt {piece : Piece} {text rest : List Char}
    (h : next? cs = some (piece, text, rest)) : rest.length < cs.length := by
  have hcut := cut_of_next? h
  have happ : text.length + rest.length = cs.length := by
    rw [← List.length_append]
    exact congrArg List.length hcut.append
  have hpos : 0 < text.length := List.length_pos_iff.mpr hcut.ne_nil
  omega

end Piece

end GoSift.Token
