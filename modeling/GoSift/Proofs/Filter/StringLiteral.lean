import GoSift.Filter.Literal
import GoSift.Proofs.Token.Placement
import Mathlib.Data.Nat.Digits.Defs
import Mathlib.Tactic.Ring

/-!
What string literals stand for. The body of an interpreted literal is made of plain characters and
escapes, and its value has one character for each of them. The value of a raw literal is its text without
carriage returns.
-/
namespace GoSift

namespace Text

/-- Digits of a radix spell a number, the highest digit first. -/
def Spells (radix : Nat) (digits : List Char) (n : Nat) : Prop :=
  ∃ ds : List Nat, digits.map (digitValue radix) = ds.map some ∧ n = Nat.ofDigits radix ds.reverse

variable {radix limit n : Nat} {c : Char} {cs : List Char}

@[simp] theorem spells_nil : Spells radix [] n ↔ n = 0 := by
  constructor
  · rintro ⟨ds, hds, rfl⟩
    rw [List.map_nil, eq_comm, List.map_eq_nil_iff] at hds
    rw [hds]
    rfl
  · rintro rfl
    exact ⟨[], rfl, rfl⟩

theorem spells_cons : Spells radix (c :: cs) n ↔
    ∃ d m, digitValue radix c = some d ∧ Spells radix cs m ∧ n = d * radix ^ cs.length + m := by
  have hvalue (d : Nat) (ds : List Nat) : Nat.ofDigits radix (d :: ds).reverse =
      d * radix ^ ds.length + Nat.ofDigits radix ds.reverse := by
    rw [List.reverse_cons, Nat.ofDigits_append, List.length_reverse, Nat.ofDigits_singleton]
    ring
  have hlength {ds : List Nat} (h : cs.map (digitValue radix) = ds.map some) :
      ds.length = cs.length := by
    simpa using (congrArg List.length h).symm
  constructor
  · rintro ⟨ds, hds, rfl⟩
    cases ds with
    | nil => cases hds
    | cons d ds =>
      obtain ⟨hd, hds⟩ := List.cons.inj hds
      exact ⟨d, _, hd, ⟨ds, hds, rfl⟩, hlength hds ▸ hvalue d ds⟩
  · rintro ⟨d, _, hd, ⟨ds, hds, rfl⟩, rfl⟩
    refine ⟨d :: ds, ?_, ?_⟩
    · rw [List.map_cons, List.map_cons, hd, hds]
    · rw [hvalue, hlength hds]

theorem lt_of_digitValue {d : Nat} (h : digitValue radix c = some d) : d < radix := by
  unfold digitValue at h
  exact of_decide_eq_true (Option.filter_eq_some_iff.mp h).2

theorem Spells.lt (h : Spells radix cs n) : n < radix ^ cs.length := by
  induction cs generalizing n with
  | nil => simp [spells_nil.mp h]
  | cons c cs ih =>
    obtain ⟨d, m, hd, hm, rfl⟩ := spells_cons.mp h
    have hlt := lt_of_digitValue hd
    calc d * radix ^ cs.length + m
        < d * radix ^ cs.length + radix ^ cs.length := Nat.add_lt_add_left (ih hm) _
      _ = (d + 1) * radix ^ cs.length := by ring
      _ ≤ radix * radix ^ cs.length := Nat.mul_le_mul_right _ hlt
      _ = radix ^ (cs.length + 1) := by ring

/-- Reading goes on behind digits of the value `acc`. -/
theorem readDigits_eq_ok {overflow : IntegerError} {acc : Nat} (hacc : acc ≤ limit) :
    readDigits radix limit overflow acc cs = .ok n ↔
      ∃ m, Spells radix cs m ∧ n = acc * radix ^ cs.length + m ∧ n ≤ limit := by
  induction cs generalizing acc with
  | nil =>
    simp only [readDigits, spells_nil, Except.ok.injEq, List.length_nil, pow_zero, Nat.mul_one,
      exists_eq_left, Nat.add_zero]
    constructor
    · rintro rfl
      exact ⟨rfl, hacc⟩
    · rintro ⟨rfl, -⟩
      rfl
  | cons c cs ih =>
    rw [readDigits]
    cases hd : digitValue radix c with
    | none => simp [spells_cons, hd]
    | some d =>
      have hstep (m : Nat) : acc * radix ^ (cs.length + 1) + (d * radix ^ cs.length + m) =
          (acc * radix + d) * radix ^ cs.length + m := by ring
      dsimp only
      split
      · next hle =>
        rw [ih hle]
        simp [spells_cons, hd, hstep]
      · next hgt =>
        -- what follows makes the number only larger
        simp only [spells_cons, hd, Option.some.injEq, List.length_cons, reduceCtorEq, false_iff]
        rintro ⟨_, ⟨_, m, rfl, hm, rfl⟩, rfl, hle⟩
        rw [hstep] at hle
        have hpos : 0 < radix ^ cs.length := Nat.pow_pos (Nat.zero_lt_of_lt (lt_of_digitValue hd))
        have hmul := Nat.le_mul_of_pos_right (acc * radix + d) hpos
        omega

/-- A number is spelled by digits, which may have a plus sign in front. -/
theorem readNat_eq_ok : readNat radix limit cs = .ok n ↔ n ≤ limit ∧
    (cs ≠ [] ∧ Spells radix cs n ∨ ∃ ds, cs = '+' :: ds ∧ ds ≠ [] ∧ Spells radix ds n) := by
  have hread {ds : List Char} : readDigits radix limit .tooLarge 0 ds = .ok n ↔
      n ≤ limit ∧ Spells radix ds n := by
    simp [readDigits_eq_ok (Nat.zero_le limit), and_comm]
  have hsign {ds : List Char} : ¬ Spells radix ('+' :: ds) n := by
    rw [spells_cons]
    rintro ⟨d, m, hd, -⟩
    have hnone : digitValue radix '+' = none := rfl
    rw [hnone] at hd
    cases hd
  unfold readNat
  split
  · simp
  · simp [hsign]
  · next ds hne =>
    have hne : ds ≠ [] := hne
    simp [hsign, hread, hne]
  · next hempty _ hplus =>
    have hne : cs ≠ [] := hempty
    have hnone : ¬ ∃ ds, cs = '+' :: ds ∧ ds ≠ [] ∧ Spells radix ds n := fun ⟨ds, hcs, _⟩ => hplus ds hcs
    rw [hread, or_iff_left hnone, and_iff_right hne]

end Text

namespace Filter

/-- The letters that stand behind a backslash for one character, and the characters. -/
def letterEscapes : List (Char × Char) :=
  [('n', '\n'), ('t', '\t'), ('r', '\r'), ('a', '\x07'), ('b', '\x08'), ('f', '\x0c'), ('v', '\x0b'),
    ('\\', '\\'), ('\x22', '\x22'), ('\x27', '\x27')]

/-- The letters in front of hexadecimal digits, and how many digits follow them. -/
def hexEscapes : List (Char × Nat) :=
  [('x', 2), ('u', 4), ('U', 8)]

/-- What stands behind the backslash of an escape, and the character it names: one letter, hexadecimal
digits of a Unicode scalar value, or three octal digits. If `signs` is set, a plus sign may take the place
of the first hexadecimal digit. -/
inductive Escape (signs : Bool) : List Char → Char → Prop
  | letter {mark c : Char} (h : (mark, c) ∈ letterEscapes) : Escape signs [mark] c
  | hex {mark : Char} {digits : List Char} {n : Nat} (hmark : (mark, digits.length) ∈ hexEscapes)
      (hn : Text.Spells 16 digits n) (hscalar : n.isValidChar) :
      Escape signs (mark :: digits) (Char.ofNat n)
  | signed {mark : Char} {digits : List Char} {n : Nat} (hsigns : signs = true)
      (hmark : (mark, digits.length + 1) ∈ hexEscapes) (hn : Text.Spells 16 digits n)
      (hscalar : n.isValidChar) : Escape signs (mark :: '+' :: digits) (Char.ofNat n)
  | octal {digits : List Char} {n : Nat} (hdigits : digits.length = 3) (hn : Text.Spells 8 digits n) :
      Escape signs digits (Char.ofNat n)

/-- The body of a literal and its value. Every backslash in the body starts an escape, for which the value
has the character it names; all other characters are kept. -/
inductive Decodes (signs : Bool) : List Char → List Char → Prop
  | nil : Decodes signs [] []
  | plain {c : Char} {body value : List Char} (hc : c ≠ '\\') (h : Decodes signs body value) :
      Decodes signs (c :: body) (c :: value)
  | escape {text body value : List Char} {c : Char} (hc : Escape signs text c)
      (h : Decodes signs body value) : Decodes signs ('\\' :: (text ++ body)) (c :: value)

variable {radix n : Nat} {c : Char} {cs rest : List Char}

theorem charOf?_eq_some : charOf? n = some c ↔ n.isValidChar ∧ c = Char.ofNat n := by
  unfold charOf?
  split
  · next h => simp [h, eq_comm]
  · next h => simp [h]

/-- The characters that digits can number are those of scalar values. -/
theorem numberedChar?_eq_some : numberedChar? radix cs = some c ↔
    ∃ n, n.isValidChar ∧ c = Char.ofNat n ∧
      (cs ≠ [] ∧ Text.Spells radix cs n ∨ ∃ ds, cs = '+' :: ds ∧ ds ≠ [] ∧ Text.Spells radix ds n) := by
  unfold numberedChar?
  simp only [Option.bind_eq_some_iff, charOf?_eq_some, except_toOption_eq_some, Text.readNat_eq_ok]
  constructor
  · rintro ⟨n, ⟨-, hn⟩, hscalar, hc⟩
    exact ⟨n, hscalar, hc, hn⟩
  · rintro ⟨n, hscalar, hc, hn⟩
    have hle : n ≤ 0xffffffff := by
      rcases hscalar with hlow | ⟨-, hhigh⟩ <;> omega
    exact ⟨n, ⟨hle, hn⟩, hscalar, hc⟩

theorem numbered_eq_some : readEscape?.numbered radix n cs = some (c, rest) ↔
    ∃ digits, cs = digits ++ rest ∧ digits.length = n ∧ numberedChar? radix digits = some c := by
  unfold readEscape?.numbered takeExactly
  simp only [Option.bind_eq_bind, Option.bind_eq_some_iff, Option.pure_def, Option.some.injEq,
    Prod.mk.injEq]
  constructor
  · rintro ⟨⟨digits, behind⟩, htake, c', hc, rfl, rfl⟩
    split at htake
    · cases htake
    · cases htake
      exact ⟨_, (List.take_append_drop n cs).symm, List.length_take_of_le (by omega), hc⟩
  · rintro ⟨digits, rfl, rfl, hc⟩
    refine ⟨(digits, rest), ?_, c, hc, rfl, rfl⟩
    simp

theorem octal_of_digitValue {d : Nat} (h : Text.digitValue 8 c = some d) : '0' ≤ c ∧ c ≤ '7' := by
  have hlt := Text.lt_of_digitValue h
  simp only [Text.digitValue, Option.filter_eq_some_iff] at h
  obtain ⟨h, -⟩ := h
  split at h
  · next hc =>
    cases h
    refine ⟨hc.1, ?_⟩
    have hle : c.toNat ≤ '7'.toNat := by
      change c.toNat - 48 < 8 at hlt
      change c.toNat ≤ 55
      omega
    exact hle
  · split at h
    · cases h
      omega
    · split at h <;> cases h
      omega

theorem readEscape?_octal (h : '0' ≤ c ∧ c ≤ '7') :
    readEscape? (c :: cs) = readEscape?.numbered 8 3 (c :: cs) := by
  unfold readEscape?
  split
  case h_14 _ _ heq =>
    cases heq
    exact if_pos h
  case h_15 _ heq => cases heq
  all_goals
    next heq =>
    cases heq
    exact absurd h (by decide)

/-- Hexadecimal digits behind their mark are read as the escape they are. -/
theorem escape_of_numbered {mark : Char} (hmark : (mark, n) ∈ hexEscapes)
    (h : readEscape?.numbered 16 n cs = some (c, rest)) :
    ∃ text, Escape true text c ∧ mark :: cs = text ++ rest := by
  obtain ⟨digits, rfl, rfl, hc⟩ := numbered_eq_some.mp h
  obtain ⟨n, hscalar, rfl, ⟨-, hn⟩ | ⟨ds, rfl, -, hn⟩⟩ := numberedChar?_eq_some.mp hc
  · exact ⟨_, .hex hmark hn hscalar, rfl⟩
  · exact ⟨_, .signed rfl hmark hn hscalar, rfl⟩

theorem numbered_of_digits {digits : List Char} {k : Nat} (hk : digits.length = k)
    (hc : numberedChar? radix digits = some c) :
    readEscape?.numbered radix k (digits ++ rest) = some (c, rest) :=
  numbered_eq_some.mpr ⟨digits, rfl, hk, hc⟩

theorem readEscape?_hex {mark : Char} (hmark : (mark, n) ∈ hexEscapes) :
    readEscape? (mark :: cs) = readEscape?.numbered 16 n cs := by
  simp only [hexEscapes, List.mem_cons, Prod.mk.injEq, List.not_mem_nil, or_false] at hmark
  rcases hmark with ⟨rfl, rfl⟩ | ⟨rfl, rfl⟩ | ⟨rfl, rfl⟩ <;> rfl

/-- An escape is read as far as it goes. -/
theorem readEscape?_eq_some :
    readEscape? cs = some (c, rest) ↔ ∃ text, Escape true text c ∧ cs = text ++ rest := by
  constructor
  · intro h
    unfold readEscape? at h
    split at h
    case h_11 | h_12 | h_13 => exact escape_of_numbered (by decide) h
    case h_14 d cs _ _ _ _ _ _ _ _ _ _ _ _ _ =>
      split at h
      · next hd =>
        obtain ⟨digits, hcs, hlength, hc⟩ := numbered_eq_some.mp h
        refine ⟨digits, ?_, hcs⟩
        obtain ⟨n, hscalar, rfl, ⟨-, hn⟩ | ⟨ds, rfl, -, -⟩⟩ := numberedChar?_eq_some.mp hc
        · exact .octal hlength hn
        · cases hcs
          exact absurd hd (by decide)
      · cases h
    case h_15 => cases h
    all_goals
      cases h
      exact ⟨[_], .letter (by decide), rfl⟩
  · rintro ⟨text, hc, rfl⟩
    cases hc with
    | letter h =>
      simp only [letterEscapes, List.mem_cons, Prod.mk.injEq, List.not_mem_nil, or_false] at h
      rcases h with ⟨rfl, rfl⟩ | ⟨rfl, rfl⟩ | ⟨rfl, rfl⟩ | ⟨rfl, rfl⟩ | ⟨rfl, rfl⟩ | ⟨rfl, rfl⟩ |
        ⟨rfl, rfl⟩ | ⟨rfl, rfl⟩ | ⟨rfl, rfl⟩ | ⟨rfl, rfl⟩ <;> rfl
    | hex hmark hn hscalar =>
      rw [List.cons_append, readEscape?_hex hmark]
      refine numbered_of_digits rfl (numberedChar?_eq_some.mpr ⟨_, hscalar, rfl, .inl ⟨?_, hn⟩⟩)
      rintro rfl
      exact absurd hmark (by simp [hexEscapes])
    | signed _ hmark hn hscalar =>
      rw [List.cons_append, readEscape?_hex hmark]
      refine numbered_of_digits rfl
        (numberedChar?_eq_some.mpr ⟨_, hscalar, rfl, .inr ⟨_, rfl, ?_, hn⟩⟩)
      rintro rfl
      exact absurd hmark (by simp [hexEscapes])
    | @octal _ n hdigits hn =>
      obtain ⟨d, ds, rfl⟩ := List.exists_cons_of_ne_nil (List.ne_nil_of_length_eq_add_one hdigits)
      obtain ⟨_, _, hd, -⟩ := Text.spells_cons.mp hn
      rw [List.cons_append, readEscape?_octal (octal_of_digitValue hd)]
      have hlt : n < 8 ^ 3 := hdigits ▸ hn.lt
      have hscalar : n.isValidChar := .inl (by omega)
      exact numbered_of_digits hdigits
        (numberedChar?_eq_some.mpr ⟨n, hscalar, rfl, .inl ⟨List.cons_ne_nil _ _, hn⟩⟩)

theorem unescape_eq_some {fuel : Nat} {value : List Char} (hfuel : cs.length ≤ fuel) :
    unescape fuel cs = some value ↔ Decodes true cs value := by
  induction fuel generalizing cs value with
  | zero =>
    obtain rfl : cs = [] := List.length_eq_zero_iff.mp (Nat.le_zero.mp hfuel)
    constructor
    · rintro ⟨⟩
      exact .nil
    · rintro ⟨⟩
      rfl
  | succ fuel ih =>
    unfold unescape
    split
    · constructor
      · rintro ⟨⟩
        exact .nil
      · rintro ⟨⟩
        rfl
    · omega
    · next cs heq =>
      cases heq
      simp only [Option.bind_eq_bind, Option.bind_eq_some_iff, Option.pure_def, Option.some.injEq,
        Prod.exists]
      constructor
      · rintro ⟨c, rest, hread, more, hmore, rfl⟩
        obtain ⟨text, hc, rfl⟩ := readEscape?_eq_some.mp hread
        refine .escape hc ((ih ?_).mp hmore)
        simp only [List.length_cons, List.length_append] at hfuel
        omega
      · intro h
        cases h with
        | plain hc => exact absurd rfl hc
        | escape hc hmore =>
          refine ⟨_, _, readEscape?_eq_some.mpr ⟨_, hc, rfl⟩, _, (ih ?_).mpr hmore, rfl⟩
          simp only [List.length_cons, List.length_append] at hfuel
          omega
    · next c cs hplain heq =>
      cases heq
      simp only [Option.bind_eq_bind, Option.bind_eq_some_iff, Option.pure_def, Option.some.injEq]
      have hc : c ≠ '\\' := hplain
      have hlength : cs.length ≤ fuel := Nat.le_of_succ_le_succ hfuel
      constructor
      · rintro ⟨more, hmore, rfl⟩
        exact .plain hc ((ih hlength).mp hmore)
      · intro h
        cases h with
        | plain _ hmore => exact ⟨_, (ih hlength).mpr hmore, rfl⟩
        | escape => exact absurd rfl hc

theorem Escape.allowSigns {text : List Char} (h : Escape false text c) : Escape true text c := by
  cases h with
  | letter h => exact .letter h
  | hex hmark hn hscalar => exact .hex hmark hn hscalar
  | signed hsigns => cases hsigns
  | octal hdigits hn => exact .octal hdigits hn

theorem Decodes.allowSigns {body value : List Char} (h : Decodes false body value) :
    Decodes true body value := by
  induction h with
  | nil => exact .nil
  | plain hc _ ih => exact .plain hc ih
  | escape hc _ ih => exact .escape hc.allowSigns ih

/-- Where no mark of hexadecimal digits is followed by a plus sign, it does not matter whether one may
stand there. -/
theorem Decodes.of_noSigns {body value : List Char} (h : Decodes true body value)
    (hsigns : ∀ mark ∈ hexEscapes.map (·.1), ¬ ['\\', mark, '+'] <:+: body) :
    Decodes false body value := by
  induction h with
  | nil => exact .nil
  | plain hc _ ih =>
    exact .plain hc (ih fun mark hm hin => hsigns mark hm (hin.trans (List.suffix_cons _ _).isInfix))
  | @escape text body value c hc _ ih =>
    have hrest := ih fun mark hm hin => hsigns mark hm <| hin.trans <|
      (List.suffix_append ('\\' :: text) body).isInfix
    refine .escape ?_ hrest
    cases hc with
    | letter h => exact .letter h
    | hex hmark hn hscalar => exact .hex hmark hn hscalar
    | octal hdigits hn => exact .octal hdigits hn
    | @signed mark digits n _ hmark _ _ =>
      refine absurd ?_ (hsigns mark (List.mem_map_of_mem hmark))
      exact (List.prefix_append ['\\', mark, '+'] (digits ++ body)).isInfix

theorem between?_marks {mark : Char} (body : List Char) :
    between? mark (mark :: (body ++ [mark])) = some body := by
  simp [between?]

theorem unquote?_interpreted {text : String} {body : List Char}
    (h : text.toList = '\x22' :: (body ++ ['\x22'])) :
    unquote? text = (unescape body.length body).map String.ofList := by
  unfold unquote?
  dsimp only
  rw [h, if_neg (by simp), between?_marks]
  rfl

theorem unquote?_raw {text : String} {raw : List Char}
    (h : text.toList = '\x60' :: (raw ++ ['\x60'])) :
    unquote? text = some (String.ofList (raw.filter (· ≠ '\r'))) := by
  unfold unquote?
  dsimp only
  rw [h, List.head?_cons, if_pos rfl, between?_marks]
  rfl

end Filter

namespace Token

open Scanner

variable {text : String} {cs : List Char} {parts : List Char × List Char}

/-- A number is no string. -/
theorem Scanner.number_ne_string : number cs ≠ some (.token (.literal .string text), parts) := by
  have hmark {kind : LitKind} (hkind : kind ≠ .string) (front back : List Char) :
      withMark kind front back ≠ (.token (.literal .string text), parts) := by
    unfold withMark
    split
    · exact nofun
    · rintro ⟨⟩
      exact hkind rfl
  have hdecimal (front : List Char) : decimalKind front ≠ .string := by
    unfold decimalKind
    split <;> exact nofun
  rw [number_eq]
  intro h
  obtain ⟨⟨kind, front, back⟩, hread, heq⟩ := Option.map_eq_some_iff.mp h
  refine hmark ?_ front back heq
  unfold unmarked at hread
  split at hread
  · cases hread
    exact nofun
  · obtain ⟨_, -, hread⟩ := Option.map_eq_some_iff.mp hread
    cases hread
    exact hdecimal _

theorem Scanner.quoted_spelled {quote : Char} {kind kind' : LitKind} {empty : Bool}
    (h : quoted quote kind empty cs = some (.token (.literal kind' text), parts)) :
    kind' = kind ∧ ∃ body, text.toList = quote :: (body ++ [quote]) := by
  unfold quoted at h
  split at h
  · cases h
  · split at h
    · dsimp only at h
      split at h
      · split at h
        · cases h
          exact ⟨rfl, _, String.toList_ofList⟩
        · cases h
      · cases h
    · cases h

theorem Scanner.rawString_spelled (h : rawString cs = some (.token (.literal .string text), parts)) :
    ∃ raw, text.toList = '\x60' :: (raw ++ ['\x60']) ∧ '\x60' ∉ raw := by
  obtain ⟨⟨front, back⟩, hread, h⟩ := Option.bind_eq_some_iff.mp h
  cases h
  obtain ⟨⟨mark, behind⟩, hmark, hread⟩ := Option.bind_eq_some_iff.mp hread
  obtain ⟨⟨inside, back'⟩, hinside, hread⟩ := Option.bind_eq_some_iff.mp hread
  cases hread
  obtain rfl := Recognizer.eq_of_exactly hmark
  obtain ⟨raw, rfl, hfirst⟩ := Recognizer.first_of_through (List.cons_ne_nil _ _) hinside
  refine ⟨raw, String.toList_ofList, fun hm => hfirst ?_⟩
  obtain ⟨before, behind, rfl⟩ := List.append_of_mem hm
  exact ⟨before, behind, by simp⟩

/-- A string literal is interpreted, or raw without a backquote inside. -/
theorem Piece.string_spelled (h : next? cs = some (.token (.literal .string text), parts)) :
    (∃ body, text.toList = '\x22' :: (body ++ ['\x22'])) ∨
      ∃ raw, text.toList = '\x60' :: (raw ++ ['\x60']) ∧ '\x60' ∉ raw := by
  obtain ⟨scan, hm, hscan⟩ := scanner_of_literal h
  simp only [List.mem_cons, List.not_mem_nil, or_false] at hm
  rcases hm with rfl | rfl | rfl | rfl
  · exact absurd hscan number_ne_string
  · cases (quoted_spelled hscan).1
  · exact .inl (quoted_spelled hscan).2
  · exact .inr (rawString_spelled hscan)

end Token

namespace Filter

/-- String literals stand for what they spell. The value of an interpreted literal has a character for
each escape in its body, and every other character of the body; there is none if a backslash starts no
escape. A plus sign is taken in place of a first hexadecimal digit, and nothing else that is no escape.
The value of a raw literal is its text without carriage returns. -/
theorem unquote?_eq_some_iff {wildcards : Bool} {src : String} {tokens : List Token}
    (h : Token.tokenize wildcards src = .ok tokens) {t : Token} (ht : t ∈ tokens) {text : String}
    (hk : t.kind = .literal .string text) :
    (∃ body, text.toList = '\x22' :: (body ++ ['\x22']) ∧
      (∀ value, unquote? text = some value ↔ Decodes true body value.toList) ∧
      ((∀ mark ∈ hexEscapes.map (·.1), ¬ ['\\', mark, '+'] <:+: body) →
        ∀ value, unquote? text = some value ↔ Decodes false body value.toList)) ∨
      ∃ raw, text.toList = '\x60' :: (raw ++ ['\x60']) ∧ '\x60' ∉ raw ∧
        unquote? text = some (String.ofList (raw.filter (· ≠ '\r'))) := by
  obtain ⟨cs, written, rest, hnext⟩ := Token.next?_of_tokenize h ht (by simp [hk])
  rw [hk] at hnext
  obtain ⟨body, hbody⟩ | ⟨raw, hraw, hinside⟩ := Token.Piece.string_spelled hnext
  · have hvalue (value : String) : unquote? text = some value ↔ Decodes true body value.toList := by
      rw [← unescape_eq_some (Nat.le_refl body.length), unquote?_interpreted hbody,
        Option.map_eq_some_iff]
      constructor
      · rintro ⟨cs, hcs, rfl⟩
        rw [String.toList_ofList]
        exact hcs
      · exact fun hcs => ⟨_, hcs, String.ofList_toList⟩
    refine .inl ⟨body, hbody, hvalue, fun hsigns value => ?_⟩
    rw [hvalue]
    exact ⟨fun h => h.of_noSigns hsigns, Decodes.allowSigns⟩
  · exact .inr ⟨raw, hraw, hinside, unquote?_raw hraw⟩

/-- A literal with an escape of each form. -/
def escapeForms : String :=
  "\"é\\x41\\u20ac\\U0001f600\\777\\t\\\\\""

theorem escapeForms_decoded :
    ∃ tokens t, Token.tokenize false escapeForms = .ok tokens ∧ t ∈ tokens ∧
      t.kind = .literal .string escapeForms ∧ unquote? escapeForms = some "éA€😀ǿ\t\\" ∧
      ((∃ body, escapeForms.toList = '\x22' :: (body ++ ['\x22']) ∧
        (∀ value, unquote? escapeForms = some value ↔ Decodes true body value.toList) ∧
        ((∀ mark ∈ hexEscapes.map (·.1), ¬ ['\\', mark, '+'] <:+: body) →
          ∀ value, unquote? escapeForms = some value ↔ Decodes false body value.toList)) ∨
        ∃ raw, escapeForms.toList = '\x60' :: (raw ++ ['\x60']) ∧ '\x60' ∉ raw ∧
          unquote? escapeForms = some (String.ofList (raw.filter (· ≠ '\r')))) := by
  have hlex : (Token.tokenize false escapeForms).toOption.map (List.map Token.kind) =
      some [.literal .string escapeForms, .symbol .semiColon, .eof] := by decide +kernel
  have hvalue : unquote? escapeForms = some "éA€😀ǿ\t\\" := by decide +kernel
  simp only [Option.map_eq_some_iff, except_toOption_eq_some] at hlex
  obtain ⟨tokens, htokens, hkinds⟩ := hlex
  have hfirst : .literal .string escapeForms ∈ tokens.map Token.kind := hkinds ▸ List.mem_cons_self
  obtain ⟨t, ht, hk⟩ := List.mem_map.mp hfirst
  exact ⟨tokens, t, htokens, ht, hk, hvalue, unquote?_eq_some_iff htokens ht hk⟩

/-- A literal with a plus sign where a digit should be. -/
def plusEscape : String :=
  "\"\\x+f\""

/-- A plus sign is no hexadecimal digit, but a literal with one in such a place has a value. -/
theorem plusEscape_has_value :
    (Token.tokenize false plusEscape).toOption.map (List.map Token.kind) =
        some [.literal .string plusEscape, .symbol .semiColon, .eof] ∧
      plusEscape.toList = '\x22' :: (['\\', 'x', '+', 'f'] ++ ['\x22']) ∧
      unquote? plusEscape = some "\x0f" ∧ ¬ ∃ value, Decodes false ['\\', 'x', '+', 'f'] value := by
  have hescape {text rest : List Char} {c : Char} (h : Escape false text c) :
      text ++ rest ≠ ['x', '+', 'f'] := by
    intro heq
    cases h with
    | letter h =>
      cases heq
      exact absurd h (by simp [letterEscapes])
    | @hex _ digits _ hmark hn =>
      cases digits with
      | nil => simp [hexEscapes] at hmark
      | cons digit digits =>
        obtain rfl := (List.cons.inj (List.cons.inj heq).2).1
        obtain ⟨d, -, hd, -⟩ := Text.spells_cons.mp hn
        cases hd
    | signed hsigns => cases hsigns
    | octal hdigits hn =>
      cases text with
      | nil => cases hdigits
      | cons digit digits =>
        obtain rfl := (List.cons.inj heq).1
        obtain ⟨d, -, hd, -⟩ := Text.spells_cons.mp hn
        cases hd
  refine ⟨by decide +kernel, by decide +kernel, by decide +kernel, ?_⟩
  rintro ⟨value, h⟩
  generalize hbody : ['\\', 'x', '+', 'f'] = body at h
  cases h with
  | nil => cases hbody
  | plain hc =>
    cases hbody
    exact hc rfl
  | escape hc => exact hescape hc (List.cons.inj hbody).2.symm

end Filter

end GoSift
