import GoSift.Proofs.Token.Lossless

/-!
A piece is read as far as it goes, and a character behind it that cannot continue it changes nothing.
So literals, words and symbols are read whole in front of the characters that may stand behind an
operand.
-/
namespace GoSift

namespace Text

theorem le_of_isLetter {c : Char} (h : isLetter c) : 0x41 ≤ c.toNat := by
  have hfirst : isLetter c = if c.toNat < 0x41 then false else isLetter c := by
    unfold isLetter letters CharSet.contains
    split <;> rfl
  by_cases hlt : c.toNat < 0x41
  · rw [hfirst, if_pos hlt] at h
    cases h
  · omega

theorem isDigit_of_isLetter {c : Char} (h : isLetter c) : c.isDigit = false := by
  have hle := le_of_isLetter h
  rw [Bool.eq_false_iff]
  intro hd
  simp only [Char.isDigit, Bool.and_eq_true, decide_eq_true_eq, UInt32.le_iff_toNat_le] at hd
  have hval : c.val.toNat = c.toNat := rfl
  have hnine : '9'.val.toNat = 57 := rfl
  omega

theorem ne_of_isLetter {c d : Char} (h : isLetter c) (hd : isLetter d = false) : c ≠ d := by
  rintro rfl
  rw [hd] at h
  cases h

end Text

namespace Token

/-- The characters that stand behind an operand. -/
def closers : List Char :=
  [' ', ',', ':', '.', '(', ')', '[', ']', '\x7b', '\x7d']

theorem closer_avoids (p : Char → Bool) (h : closers.any p = false) : ∀ d ∈ closers, p d = false := by
  simpa using h

theorem closer_ne (c : Char) (h : c ∉ closers) : ∀ d ∈ closers, d ≠ c := by
  rintro d hd rfl
  exact h hd

namespace Recognizer

/-- A recognizer that reads the same whether or not `d` and more stand behind a text. -/
def StopsAt (r : Recognizer) (d : Char) : Prop :=
  ∀ cs rest, r (cs ++ d :: rest) = (r cs).map (Prod.map id (· ++ d :: rest))

variable {r s : Recognizer} {p : Char → Bool} {w : List Char} {d : Char}

theorem takeWhile_append_cons (hd : p d = false) (cs rest : List Char) :
    (cs ++ d :: rest).takeWhile p = cs.takeWhile p := by
  induction cs with
  | nil => simp [hd]
  | cons c cs ih =>
    rw [List.cons_append, List.takeWhile_cons, List.takeWhile_cons, ih]

theorem dropWhile_append_cons (hd : p d = false) (cs rest : List Char) :
    (cs ++ d :: rest).dropWhile p = cs.dropWhile p ++ d :: rest := by
  induction cs with
  | nil => simp [hd]
  | cons c cs ih =>
    rw [List.cons_append, List.dropWhile_cons, List.dropWhile_cons, ih]
    split <;> rfl

theorem stopsAt_run (hd : p d = false) : StopsAt (run p) d := by
  intro cs rest
  rw [run, run, takeWhile_append_cons hd, dropWhile_append_cons hd]
  rfl

theorem stopsAt_run1 (hd : p d = false) : StopsAt (run1 p) d := by
  intro cs rest
  rw [run1, run1, takeWhile_append_cons hd]
  split
  · rfl
  · exact stopsAt_run hd cs rest

theorem all_of_run1 {cs front back : List Char} (h : run1 p cs = some (front, back)) :
    front.all p := by
  unfold run1 at h
  split at h <;> cases h
  exact List.all_takeWhile

theorem stopsAt_one (hd : p d = false) : StopsAt (one p) d := by
  intro cs rest
  cases cs with
  | nil => simp [one, hd]
  | cons c cs =>
    rw [List.cons_append, one, one]
    split <;> rfl

theorem isPrefixOf_append_cons (hd : d ∉ w) (cs rest : List Char) :
    w.isPrefixOf (cs ++ d :: rest) = w.isPrefixOf cs := by
  induction w generalizing cs with
  | nil => simp
  | cons a w ih =>
    have hne : a ≠ d := fun h => hd (h ▸ List.mem_cons_self)
    have hw : d ∉ w := fun h => hd (List.mem_cons_of_mem _ h)
    cases cs with
    | nil => simp [List.isPrefixOf, hne]
    | cons c cs => rw [List.cons_append, List.isPrefixOf, List.isPrefixOf, ih hw]

theorem stopsAt_exactly (hd : d ∉ w) : StopsAt (exactly w) d := by
  intro cs rest
  rw [exactly, exactly, isPrefixOf_append_cons hd]
  split
  · next hw =>
    have hle := (List.isPrefixOf_iff_prefix.mp hw).length_le
    rw [List.drop_append_of_le_length hle]
    rfl
  · rfl

/-- A single character is looked for at the front only, so it does not matter what is behind. -/
theorem exactly_append {c : Char} {cs : List Char} (hcs : cs ≠ []) (rest : List Char) :
    exactly [c] (cs ++ rest) = (exactly [c] cs).map (Prod.map id (· ++ rest)) := by
  obtain ⟨b, cs, rfl⟩ := List.exists_cons_of_ne_nil hcs
  unfold exactly
  by_cases hc : c = b <;> simp [List.isPrefixOf, hc]

/-- Where the first of two recognizers reads the same, both in turn do. -/
theorem andThen_append {cs back : List Char}
    (hr : r (cs ++ back) = (r cs).map (Prod.map id (· ++ back)))
    (hs : ∀ front mid, r cs = some (front, mid) →
      s (mid ++ back) = (s mid).map (Prod.map id (· ++ back))) :
    r.andThen s (cs ++ back) = (r.andThen s cs).map (Prod.map id (· ++ back)) := by
  unfold andThen
  rw [hr]
  cases h : r cs with
  | none => rfl
  | some parts =>
    have hmid := hs parts.1 parts.2 h
    simp only [Option.map_some, Option.bind_eq_bind, Option.bind_some, Prod.map_fst, Prod.map_snd,
      hmid]
    cases s parts.2 <;> rfl

theorem StopsAt.andThen (hr : StopsAt r d) (hs : StopsAt s d) : StopsAt (r.andThen s) d :=
  fun cs rest => andThen_append (hr cs rest) fun _ mid _ => hs mid rest

theorem orElse_append {cs back : List Char}
    (hr : r (cs ++ back) = (r cs).map (Prod.map id (· ++ back)))
    (hs : r cs = none → s (cs ++ back) = (s cs).map (Prod.map id (· ++ back))) :
    r.orElse s (cs ++ back) = (r.orElse s cs).map (Prod.map id (· ++ back)) := by
  unfold orElse
  rw [hr]
  cases h : r cs with
  | none => exact hs h
  | some parts => rfl

theorem StopsAt.orElse (hr : StopsAt r d) (hs : StopsAt s d) : StopsAt (r.orElse s) d :=
  fun cs rest => orElse_append (hr cs rest) fun _ => hs cs rest

theorem optional_append {cs back : List Char}
    (hr : r (cs ++ back) = (r cs).map (Prod.map id (· ++ back))) :
    optional r (cs ++ back) = (optional r cs).map (Prod.map id (· ++ back)) := by
  unfold optional
  rw [hr]
  cases r cs <;> rfl

theorem StopsAt.optional (hr : StopsAt r d) : StopsAt (optional r) d :=
  fun cs rest => optional_append (hr cs rest)

/-- A closing character that was found is found again with more behind it. -/
theorem through_append {c : Char} {cs front back : List Char} (rest : List Char)
    (h : through [c] cs = some (front, back)) :
    through [c] (cs ++ rest) = some (front, back ++ rest) := by
  induction cs generalizing front with
  | nil => cases h
  | cons b cs ih =>
    have hb := exactly_append (c := c) (List.cons_ne_nil b cs) rest
    rw [List.cons_append] at hb
    rw [List.cons_append, through, hb]
    rw [through] at h
    split at h
    · next hx =>
      cases h
      rw [hx]
      rfl
    · next hx =>
      obtain ⟨⟨front', back'⟩, h', heq⟩ := Option.map_eq_some_iff.mp h
      cases heq
      rw [hx, Option.map_none]
      dsimp only
      rw [ih h']
      rfl

theorem quotedBody_closed {quote : Char} (hq : quote ≠ '\\') {cs body back : List Char}
    (rest : List Char) (h : quotedBody quote cs = (body, quote :: back)) :
    quotedBody quote (cs ++ rest) = (body, quote :: back ++ rest) := by
  fun_induction quotedBody quote cs generalizing body with
  | case1 c cs front back' hrec ih =>
    cases h
    have hnext := ih hrec
    simp only [List.cons_append, quotedBody, hnext]
  | case2 =>
    cases h
    exact absurd rfl hq
  | case3 => cases h
  | case4 c cs hesc hend hstop =>
    cases h
    rw [List.cons_append, quotedBody.eq_4 _ _ _ (by rintro _ _ rfl; exact absurd rfl hq)
      (by rintro rfl; exact absurd rfl hq), if_pos hstop]
  | case5 c cs hesc hend hne front back' hrec ih =>
    cases h
    have hc : c ≠ '\\' := by
      rintro rfl
      cases cs with
      | nil => exact hend rfl rfl
      | cons b cs => exact hesc b cs rfl rfl
    rw [List.cons_append, quotedBody.eq_4 _ _ _ (fun _ _ h => absurd h hc) (fun h => absurd h hc),
      if_neg hne, ih hrec]

end Recognizer

namespace Scanner

open Recognizer

variable {c d : Char} {cs rest : List Char}

theorem isDigit_of_isLetter (h : Text.isLetter c) : isDigit c = false := by
  simp [isDigit, Text.isDigit_of_isLetter h, Text.ne_of_isLetter (d := '_') h rfl]

theorem isDigit_closer : ∀ d ∈ closers, isDigit d = false :=
  closer_avoids isDigit rfl

theorem stopsAt_exponent (hd : d ∈ closers) : StopsAt exponent d :=
  (stopsAt_one (closer_avoids _ rfl d hd)).andThen
    ((stopsAt_one (closer_avoids _ rfl d hd)).optional.andThen (stopsAt_run1 (isDigit_closer d hd)))

theorem stopsAt_radixDigits {small capital : Char} {p : Char → Bool} (hd : d ∈ closers)
    (hmark : closers.any (fun c => c == small || c == capital) = false)
    (hdigit : closers.any (fun c => p c || c == '_') = false) :
    StopsAt (radixDigits small capital p) d := by
  have hzero : d ∉ ['0'] := by simpa using closer_ne '0' (by decide) d hd
  exact (stopsAt_exactly hzero).andThen ((stopsAt_one (closer_avoids _ hmark d hd)).andThen
    (stopsAt_run1 (closer_avoids _ hdigit d hd)))

theorem stopsAt_radixNumber (hd : d ∈ closers) : StopsAt radixNumber d :=
  (stopsAt_radixDigits hd rfl rfl).orElse
    ((stopsAt_radixDigits hd rfl rfl).orElse (stopsAt_radixDigits hd rfl rfl))

/-- A decimal number reads the same in front of a closing character. Only a point behind bare digits
would go on with it. -/
theorem decimalNumber_append (hd : d ∈ closers) (hpoint : d = '.' → cs.all isDigit = false) :
    decimalNumber (cs ++ d :: rest) = (decimalNumber cs).map (Prod.map id (· ++ d :: rest)) := by
  have hdigits : StopsAt digits d := stopsAt_run1 (isDigit_closer d hd)
  have hexp := (stopsAt_exponent hd).optional
  -- a point is looked for only where something is left, unless it is not what stands behind
  have hmark : ∀ mid : List Char, (d = '.' → mid ≠ []) →
      point (mid ++ d :: rest) = (point mid).map (Prod.map id (· ++ d :: rest)) := by
    intro mid hmid
    by_cases h : d = '.'
    · exact exactly_append (hmid h) _
    · exact stopsAt_exactly (by simpa using h) mid rest
  refine orElse_append (andThen_append (hdigits cs rest) fun front mid hfront => ?_) fun _ => ?_
  · have hmid : d = '.' → mid ≠ [] := by
      rintro h rfl
      have hall := all_of_run1 hfront
      rw [← List.append_nil front, lossless_digits _ _ _ hfront, hpoint h] at hall
      cases hall
    refine andThen_append (optional_append ?_) fun _ mid _ => hexp mid rest
    exact andThen_append (hmark mid hmid) fun _ mid _ => hdigits.optional mid rest
  · have hcs : d = '.' → cs ≠ [] := by
      rintro h rfl
      cases hpoint h
    exact andThen_append (hmark cs hcs) fun _ mid _ => hdigits.andThen hexp mid rest

theorem withMark_append (hd : d ≠ 'i') (kind : LitKind) (text back : List Char) :
    withMark kind text (back ++ d :: rest)
      = Prod.map id (Prod.map id (· ++ d :: rest)) (withMark kind text back) := by
  cases back with
  | nil =>
    rw [List.nil_append, withMark, withMark]
    · rfl
    · simp
    · simpa using hd
  | cons c back =>
    by_cases hc : c = 'i'
    · subst hc
      rfl
    · rw [List.cons_append, withMark.eq_2 _ _ _ (by simpa using hc),
        withMark.eq_2 _ _ _ (by simpa using hc)]
      rfl

theorem number_append (hd : d ∈ closers) (hpoint : d = '.' → cs.all isDigit = false) :
    number (cs ++ d :: rest)
      = (number cs).map (Prod.map id (Prod.map id (· ++ d :: rest))) := by
  have hi := closer_ne 'i' (by decide) d hd
  rw [number_eq, number_eq, unmarked, unmarked, stopsAt_radixNumber hd,
    decimalNumber_append hd hpoint]
  cases radixNumber cs with
  | some parts => exact congrArg some (withMark_append hi _ _ _)
  | none =>
    cases decimalNumber cs with
    | some parts => exact congrArg some (withMark_append hi _ _ _)
    | none => rfl

theorem quoted_append {quote : Char} (hq : quote ≠ '\\') {kind : LitKind} {empty : Bool}
    {r : Piece × List Char × List Char} (rest : List Char) (h : quoted quote kind empty cs = some r) :
    quoted quote kind empty (cs ++ rest) = some (Prod.map id (Prod.map id (· ++ rest)) r) := by
  cases cs with
  | nil => cases h
  | cons c cs =>
    rw [List.cons_append]
    rw [quoted] at h ⊢
    by_cases hc : c == quote
    · rw [if_pos hc] at h ⊢
      rcases hbody : quotedBody quote cs with ⟨body, back⟩
      rw [hbody] at h
      cases back with
      | nil => cases h
      | cons d back =>
        dsimp only at h
        split at h
        · next hd =>
          cases h
          obtain rfl : d = quote := by simpa using (Bool.and_eq_true_iff.mp hd).1
          rw [quotedBody_closed hq rest hbody]
          dsimp only [List.cons_append]
          rw [if_pos hd]
          rfl
        · cases h
    · rw [if_neg hc] at h
      cases h

theorem rawString_append {r : Piece × List Char × List Char} (rest : List Char)
    (h : rawString cs = some r) :
    rawString (cs ++ rest) = some (Prod.map id (Prod.map id (· ++ rest)) r) := by
  obtain ⟨⟨text, back⟩, h', h⟩ := Option.bind_eq_some_iff.mp h
  cases h
  obtain ⟨⟨front, mid⟩, hopen, h'⟩ := Option.bind_eq_some_iff.mp h'
  obtain ⟨⟨body, back'⟩, hclose, h'⟩ := Option.bind_eq_some_iff.mp h'
  cases h'
  have hcs : cs ≠ [] := by
    rintro rfl
    cases hopen
  unfold rawString andThen
  rw [exactly_append hcs, hopen]
  simp [through_append rest hclose, literal]

/-! What a scanner refuses by the first character. -/

theorem blank_eq_none (h : isBlank c = false) : blank (c :: cs) = none := by
  simp [blank, run1, h]

theorem lineEnd_eq_none (h : c ≠ '\n') : lineEnd (c :: cs) = none := by
  rw [lineEnd]
  simpa using h

theorem lineComment_eq_none (h : c ≠ '/') : lineComment (c :: cs) = none := by
  simp [lineComment, andThen, exactly, List.isPrefixOf, h.symm]

theorem blockComment_eq_none (h : c ≠ '/') : blockComment (c :: cs) = none := by
  simp [blockComment, andThen, exactly, List.isPrefixOf, h.symm]

theorem number_eq_none (h : isDigit c = false) (hpoint : c ≠ '.') : number (c :: cs) = none := by
  have hzero : c ≠ '0' := by
    rintro rfl
    cases h
  simp [number, radixNumber, radixDigits, decimalNumber, digits, point, Recognizer.orElse, andThen,
    exactly, List.isPrefixOf, run1, h, hpoint.symm, hzero.symm]

theorem number_point_eq_none (h : ∀ d ∈ rest.head?, isDigit d = false) :
    number ('.' :: rest) = none := by
  have hdigits : digits rest = none := by
    cases rest with
    | nil => rfl
    | cons d rest => simp [digits, run1, h d rfl]
  have hfront : digits ('.' :: rest) = none := rfl
  simp [number, radixNumber, radixDigits, decimalNumber, point, Recognizer.orElse, andThen, exactly,
    List.isPrefixOf, hdigits, hfront]

theorem comment_eq_none (h : ∀ d ∈ rest.head?, d ∉ ['/', '*']) :
    lineComment ('/' :: rest) = none ∧ blockComment ('/' :: rest) = none := by
  cases rest with
  | nil => exact ⟨rfl, rfl⟩
  | cons d rest =>
    have hd := h d rfl
    simp only [List.mem_cons, List.not_mem_nil, or_false, not_or] at hd
    simp [lineComment, blockComment, andThen, exactly, List.isPrefixOf, Ne.symm hd.1, Ne.symm hd.2]

theorem quoted_eq_none {quote : Char} {kind : LitKind} {empty : Bool} (h : c ≠ quote) :
    quoted quote kind empty (c :: cs) = none := by
  simp [quoted, h]

theorem rawString_eq_none (h : c ≠ '\x60') : rawString (c :: cs) = none := by
  simp [rawString, andThen, exactly, List.isPrefixOf, h.symm]

theorem wildcard_eq_none (h : c ≠ '$') : wildcard (c :: cs) = none := by
  rw [wildcard]
  simpa using h

theorem head_of_quoted {quote : Char} {kind : LitKind} {empty : Bool}
    {r : Piece × List Char × List Char} (h : quoted quote kind empty cs = some r) :
    ∃ body, cs = quote :: body := by
  cases cs with
  | nil => cases h
  | cons c cs =>
    by_cases hc : c = quote
    · exact ⟨cs, hc ▸ rfl⟩
    · rw [quoted_eq_none hc] at h
      cases h

theorem head_of_rawString {r : Piece × List Char × List Char} (h : rawString cs = some r) :
    ∃ body, cs = '\x60' :: body := by
  cases cs with
  | nil => cases h
  | cons c cs =>
    by_cases hc : c = '\x60'
    · exact ⟨cs, hc ▸ rfl⟩
    · rw [rawString_eq_none hc] at h
      cases h

end Scanner

end Token

namespace Symbol

/-- The characters that make a longer symbol of this one when they stand behind it. -/
def extenders (s : Symbol) : List Char :=
  all.filterMap fun t =>
    if s.spelling.toList.isPrefixOf t.spelling.toList then
      t.spelling.toList[s.spelling.toList.length]?
    else none

theorem mem_all (s : Symbol) : s ∈ all := by
  cases s <;> decide

/-- No symbol stands in front of a longer one that begins with it. -/
theorem pairwise_all :
    all.Pairwise fun s t => ¬ s.spelling.toList.isPrefixOf t.spelling.toList := by
  decide

theorem find?_append (s : Symbol) {rest : List Char} (hrest : ∀ d ∈ rest.head?, d ∉ s.extenders) :
    all.find? (fun t => t.spelling.toList.isPrefixOf (s.spelling.toList ++ rest)) = some s := by
  obtain ⟨before, behind, hall⟩ := List.append_of_mem s.mem_all
  have hself : s.spelling.toList <+: s.spelling.toList ++ rest := List.prefix_append _ _
  refine List.find?_eq_some_iff_append.mpr
    ⟨List.isPrefixOf_iff_prefix.mpr hself, before, behind, hall, fun t ht => ?_⟩
  have hpair := pairwise_all
  rw [hall] at hpair
  have hnot := (List.pairwise_append.mp hpair).2.2 t ht s List.mem_cons_self
  rw [List.isPrefixOf_iff_prefix] at hnot
  rw [Bool.not_eq_true', Bool.eq_false_iff, Ne, List.isPrefixOf_iff_prefix]
  intro hpre
  rcases List.prefix_or_prefix_of_prefix hpre hself with h | ⟨more, hmore⟩
  · exact hnot h
  · -- the symbol found goes on with the first character behind `s`
    rw [← hmore, List.prefix_append_right_inj] at hpre
    cases more with
    | nil => exact hnot (by simp [← hmore])
    | cons d more =>
      obtain ⟨back, rfl⟩ := hpre
      refine hrest d rfl (List.mem_filterMap.mpr ⟨t, t.mem_all, ?_⟩)
      rw [if_pos (List.isPrefixOf_iff_prefix.mpr ⟨_, hmore⟩), ← hmore]
      simp

end Symbol

namespace Token

namespace Piece

open Scanner

variable {c d : Char} {cs rest : List Char} {r : Piece × List Char × List Char}

/-- The first piece is that of the first scanner that does not refuse. -/
theorem next?_eq_some (before : List Scanner) {scan : Scanner} {behind : List Scanner}
    (hall : Scanner.all = before ++ scan :: behind)
    (hbefore : before.all fun scan => (scan cs).isNone) (h : scan cs = some r) :
    next? cs = some r := by
  have hnone : before.findSome? (· cs) = none := by simpa using hbefore
  rw [next?, hall, List.findSome?_append, hnone, Option.none_or, List.findSome?_cons, h]

theorem next?_of_number (h : number cs = some r) : next? cs = some r := by
  refine next?_eq_some [Scanner.blank, Scanner.lineEnd, lineComment, blockComment] rfl ?_ h
  cases cs with
  | nil => cases h
  | cons c cs =>
    have hc : isDigit c ∨ c = '.' := by
      by_cases hdigit : isDigit c
      · exact .inl hdigit
      · by_cases hpoint : c = '.'
        · exact .inr hpoint
        · rw [number_eq_none (Bool.eq_false_iff.mpr hdigit) hpoint] at h
          cases h
    have hblank : isBlank c = false := by
      rw [Bool.eq_false_iff]
      intro hb
      simp only [isBlank, Bool.or_eq_true, beq_iff_eq] at hb
      rcases hb with (rfl | rfl) | rfl <;> exact absurd hc (by decide)
    have hline : c ≠ '\n' := by rintro rfl; exact absurd hc (by decide)
    have hslash : c ≠ '/' := by rintro rfl; exact absurd hc (by decide)
    simp [blank_eq_none hblank, lineEnd_eq_none hline, lineComment_eq_none hslash,
      blockComment_eq_none hslash]

/-- Only numbers and quoted texts are literals. -/
theorem scanner_of_literal {kind : LitKind} {text : String} {parts : List Char × List Char}
    (h : next? cs = some (.token (.literal kind text), parts)) :
    ∃ scan ∈ [number, quoted '\x27' .char false, quoted '\x22' .string true, rawString],
      scan cs = some (.token (.literal kind text), parts) := by
  obtain ⟨scan, hm, h⟩ := List.exists_of_findSome?_eq_some h
  refine ⟨scan, ?_, h⟩
  simp only [Scanner.all, List.mem_cons, List.not_mem_nil, or_false] at hm ⊢
  rcases hm with rfl | rfl | rfl | rfl | hm | hm | hm | hm | rfl | rfl | rfl
  · obtain ⟨_, -, h⟩ := Option.bind_eq_some_iff.mp h
    cases h
  · unfold Scanner.lineEnd at h
    split at h <;> cases h
  · obtain ⟨_, -, h⟩ := Option.bind_eq_some_iff.mp h
    cases h
  · obtain ⟨_, -, h⟩ := Option.bind_eq_some_iff.mp h
    cases h
  · exact .inl hm
  · exact .inr (.inl hm)
  · exact .inr (.inr (.inl hm))
  · exact .inr (.inr (.inr hm))
  · unfold wildcard at h
    split at h
    · obtain ⟨_, -, h⟩ := Option.bind_eq_some_iff.mp h
      obtain ⟨_, -, h⟩ := Option.bind_eq_some_iff.mp h
      cases h
    · cases h
  · obtain ⟨⟨word, rest⟩, -, h⟩ := Option.bind_eq_some_iff.mp h
    have hkind : wordKind word = .literal kind text := by
      simp only [Option.pure_def, Option.some.injEq, Prod.mk.injEq, Piece.token.injEq] at h
      exact h.1
    unfold wordKind at hkind
    split at hkind <;> cases hkind
  · obtain ⟨_, -, h⟩ := Option.bind_eq_some_iff.mp h
    obtain ⟨_, -, h⟩ := Option.bind_eq_some_iff.mp h
    cases h

/-- A literal is read whole in front of a closing character, unless it is bare digits and a point would
go on with it. -/
theorem next?_literal {kind : LitKind} {text : String}
    (h : next? cs = some (.token (.literal kind text), cs, [])) (hd : d ∈ closers)
    (hpoint : d = '.' → cs.all isDigit = false) :
    next? (cs ++ d :: rest) = some (.token (.literal kind text), cs, d :: rest) := by
  obtain ⟨scan, hm, hscan⟩ := scanner_of_literal h
  simp only [List.mem_cons, List.not_mem_nil, or_false] at hm
  rcases hm with rfl | rfl | rfl | rfl
  · apply next?_of_number
    rw [number_append hd hpoint, hscan]
    rfl
  · obtain ⟨body, rfl⟩ := head_of_quoted hscan
    exact next?_eq_some (Scanner.all.take 5) rfl rfl (quoted_append (by decide) _ hscan)
  · obtain ⟨body, rfl⟩ := head_of_quoted hscan
    exact next?_eq_some (Scanner.all.take 6) rfl rfl (quoted_append (by decide) _ hscan)
  · obtain ⟨body, rfl⟩ := head_of_rawString hscan
    exact next?_eq_some (Scanner.all.take 7) rfl rfl (rawString_append _ hscan)

/-- A word that begins with a letter is read whole in front of what cannot go on with it. -/
theorem next?_word (hc : Text.isLetter c) (hcs : cs.all Text.continuesWord)
    (hrest : ∀ d ∈ rest.head?, Text.continuesWord d = false) :
    next? (c :: cs ++ rest) = some (.token (wordKind (c :: cs)), c :: cs, rest) := by
  have hne : ∀ b, Text.isLetter b = false → c ≠ b := fun _ => Text.ne_of_isLetter hc
  have hblank : isBlank c = false := by
    simp [isBlank, hne ' ' rfl, hne '\t' rfl, hne '\r' rfl]
  have hdigit := isDigit_of_isLetter hc
  have hword : word (c :: (cs ++ rest)) = some (c :: cs, rest) := by
    have hstop := takeWhile_append_of_head? (List.all_eq_true.mp hcs) hrest
    simp [word, Recognizer.andThen, Recognizer.one, Recognizer.run, Text.startsWord, hc, hstop]
  refine next?_eq_some (Scanner.all.take 9) rfl ?_ (by simp [wordOrKeyword, hword])
  simp [Scanner.all, blank_eq_none hblank, lineEnd_eq_none (hne '\n' rfl),
    lineComment_eq_none (hne '/' rfl), blockComment_eq_none (hne '/' rfl),
    number_eq_none hdigit (hne '.' rfl), quoted_eq_none (hne '\x27' rfl),
    quoted_eq_none (hne '\x22' rfl), rawString_eq_none (hne '\x60' rfl),
    wildcard_eq_none (hne '$' rfl)]

/-- A symbol is read whole in front of what makes no longer symbol of it, no number of a point and no
comment of a slash. -/
theorem next?_symbol (s : Symbol) (hrest : ∀ d ∈ rest.head?, d ∉ s.extenders)
    (hdot : s = .dot → ∀ d ∈ rest.head?, isDigit d = false)
    (hslash : s = .slash → ∀ d ∈ rest.head?, d ∉ ['/', '*']) :
    next? (s.spelling.toList ++ rest) = some (.token (.symbol s), s.spelling.toList, rest) := by
  have hsym : symbol (s.spelling.toList ++ rest)
      = some (.token (.symbol s), s.spelling.toList, rest) := by
    simp [symbol, s.find?_append hrest, Recognizer.exactly]
  refine next?_eq_some (Scanner.all.take 10) rfl ?_ hsym
  -- only a point and a slash leave it to the characters behind what else they could begin
  by_cases hs : s = .dot
  · subst hs
    change ((number ('.' :: rest)).isNone && true) = true
    rw [number_point_eq_none (hdot rfl)]
    rfl
  · by_cases hs' : s = .slash
    · subst hs'
      obtain ⟨hline, hblock⟩ := comment_eq_none (hslash rfl)
      change ((lineComment ('/' :: rest)).isNone && ((blockComment ('/' :: rest)).isNone && true)) = true
      rw [hline, hblock]
      rfl
    · cases s <;> first | rfl | exact absurd rfl hs | exact absurd rfl hs'

end Piece

end Token

end GoSift
