import Mathlib.Data.String.Basic
import Mathlib.Data.UInt

/-!
Texts are ordered by their characters as they are by their UTF-8 bytes.
-/
namespace GoSift.Text

/-- The bytes of a text. -/
def bytesOf (s : String) : List UInt8 :=
  s.toUTF8.data.toList

theorem bytesOf_eq (s : String) : bytesOf s = s.toList.flatMap String.utf8EncodeChar := by
  rw [bytesOf, String.toUTF8, ← String.utf8Encode_toList, List.utf8Encode]
  simp

theorem ofNat_cons_lt {m n : Nat} (hm : m < 256) (hn : n < 256) {bs bs' : List UInt8} :
    UInt8.ofNat m :: bs < UInt8.ofNat n :: bs' ↔ m < n ∨ m = n ∧ bs < bs' := by
  rw [List.cons_lt_cons_iff, UInt8.lt_iff_toNat_lt, ← UInt8.toNat_inj,
    UInt8.toNat_ofNat_of_lt' hm, UInt8.toNat_ofNat_of_lt' hn]

theorem digit_lt {m n : Nat} (h : m < n) : m / 64 < n / 64 ∨ m / 64 = n / 64 ∧ m % 64 < n % 64 := by
  omega

/-- The bytes of a smaller character are smaller, whatever follows. -/
theorem encode_append_lt {c d : Char} (h : c < d) (cs ds : List UInt8) :
    String.utf8EncodeChar c ++ cs < String.utf8EncodeChar d ++ ds := by
  have hval : c.val.toNat < d.val.toNat := h
  have hd : d.val.toNat < 0x110000 := by
    have := d.valid
    simp only [UInt32.isValidChar, Nat.isValidChar] at this
    omega
  unfold String.utf8EncodeChar
  dsimp only
  generalize c.val.toNat = m at *
  generalize d.val.toNat = n at *
  -- Both are encoded by their sizes; the first byte tells the sizes apart, and for one size the digits
  -- are compared from the highest on.
  split_ifs <;> try omega
  all_goals simp (disch := omega) only [List.cons_append, List.nil_append, ofNat_cons_lt]
  all_goals try omega
  have hm : m / 4096 = m / 64 / 64 ∧ m / 262144 = m / 64 / 64 / 64 := by omega
  have hn : n / 4096 = n / 64 / 64 ∧ n / 262144 = n / 64 / 64 / 64 := by omega
  rw [hm.1, hm.2, hn.1, hn.2]
  rcases digit_lt hval with h₁ | ⟨h₁, hlast⟩
  · rcases digit_lt h₁ with h₂ | ⟨h₂, hlast⟩
    · rcases digit_lt h₂ with h₃ | ⟨h₃, hlast⟩ <;> omega
    · omega
  · omega

theorem flatMap_encode_lt {cs ds : List Char} (h : cs < ds) :
    cs.flatMap String.utf8EncodeChar < ds.flatMap String.utf8EncodeChar := by
  induction h with
  | @nil d ds =>
    have hd := d.utf8Size_pos
    rw [List.flatMap_nil, List.flatMap_cons]
    cases he : String.utf8EncodeChar d ++ ds.flatMap String.utf8EncodeChar with
    | nil =>
      have hlen := congrArg List.length he
      simp only [List.length_append, String.length_utf8EncodeChar, List.length_nil] at hlen
      omega
    | cons b bs => exact List.nil_lt_cons b bs
  | rel h => exact encode_append_lt h _ _
  | cons h ih => exact List.append_left_lt ih

/-- Comparing bytes is comparing characters. -/
theorem bytesOf_lt_iff {s t : String} : bytesOf s < bytesOf t ↔ s < t := by
  rw [bytesOf_eq, bytesOf_eq, String.lt_iff_toList_lt]
  constructor
  · intro h
    rcases lt_trichotomy s.toList t.toList with hlt | heq | hgt
    · exact hlt
    · rw [heq] at h
      exact (List.lt_irrefl _ h).elim
    · exact (List.lt_asymm h (flatMap_encode_lt hgt)).elim
  · exact flatMap_encode_lt

end GoSift.Text
