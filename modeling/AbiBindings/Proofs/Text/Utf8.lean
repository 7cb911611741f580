import AbiBindings.Text.Utf8
import Mathlib.Data.List.Basic

/-!
# Text in UTF-8 is read back

The bytes of a character tell by the first one how many they are, and the bounds on the second one
rule out what no character is written as. So decoding takes exactly the bytes of a character from
the front (`decode_encodeChar`), whatever comes after them, and a text is read back from its bytes
(`decode?_encode`).
-/

namespace AbiBindings.Text.Utf8

/-! ### Characters by their number of bytes -/

theorem isTail_iff {b : UInt8} : isTail b = true ↔ 0x80 ≤ b.toNat ∧ b.toNat ≤ 0xBF := by
  simp [isTail, UInt8.le_iff_toNat_le]

theorem isSecond_iff {b c : UInt8} :
    isSecond b c = true ↔ 0x80 ≤ c.toNat ∧ c.toNat ≤ 0xBF ∧ (b.toNat = 0xE0 → 0xA0 ≤ c.toNat) ∧
      (b.toNat = 0xED → c.toNat ≤ 0x9F) ∧ (b.toNat = 0xF0 → 0x90 ≤ c.toNat) ∧
      (b.toNat = 0xF4 → c.toNat ≤ 0x8F) := by
  unfold isSecond secondRange
  simp only [Bool.and_eq_true, decide_eq_true_eq, ← UInt8.toNat_inj, UInt8.le_iff_toNat_le,
    UInt8.reduceToNat]
  split_ifs <;> simp only [UInt8.reduceToNat] <;> omega

section Bytes

variable {b c d e : UInt8} {n : Nat} (rest : List UInt8)

/-- A byte below 128 is a character of its own. -/
theorem decode_one (hb : b.toNat = n) (hn : n ≤ 0x7F) :
    decode (b :: rest) = some (Char.ofNat n) :: decode rest := by
  have hlt : b < 0x80 := by rw [UInt8.lt_iff_toNat_lt, hb]; exact Nat.lt_succ_of_le hn
  rw [decode.eq_def, ← hb]
  exact if_pos hlt

/-- The first of several bytes is not taken for a character, and not for unreadable. -/
theorem first_of_many (hb : 0xC2 ≤ b.toNat ∧ b.toNat ≤ 0xF4) :
    ¬ b < 0x80 ∧ (b < 0xC2 || 0xF4 < b) = false := by
  simp only [UInt8.lt_iff_toNat_lt, UInt8.reduceToNat, Bool.or_eq_false_iff,
    decide_eq_false_iff_not]
  omega

/-- Two bytes are decoded to the number that their bits make up. -/
theorem decode_two (hb : b.toNat = n / 64 % 32 + 192) (hc : c.toNat = n % 64 + 128)
    (hn : 0x7F < n ∧ n ≤ 0x7FF) : decode (b :: c :: rest) = some (Char.ofNat n) :: decode rest := by
  obtain ⟨hmany, hfirst⟩ := first_of_many (b := b) (by omega)
  have hsecond : isSecond b c = true := isSecond_iff.2 (by omega)
  have hlt : b < 0xE0 := by simp only [UInt8.lt_iff_toNat_lt, UInt8.reduceToNat]; omega
  have hextend : extend (b.toNat - 0xC0) c = n := by unfold extend; omega
  rw [decode.eq_def]
  simp [hmany, hfirst, hsecond, hlt, hextend]

/-- So are three bytes, unless the number is that of a surrogate. -/
theorem decode_three (hb : b.toNat = n / 4096 % 16 + 224) (hc : c.toNat = n / 64 % 64 + 128)
    (hd : d.toNat = n % 64 + 128) (hn : 0x7FF < n ∧ n ≤ 0xFFFF) (hvalid : n < 0xD800 ∨ 0xDFFF < n) :
    decode (b :: c :: d :: rest) = some (Char.ofNat n) :: decode rest := by
  obtain ⟨hmany, hfirst⟩ := first_of_many (b := b) (by omega)
  have hsecond : isSecond b c = true := isSecond_iff.2 (by omega)
  have htail : isTail d = true := isTail_iff.2 (by omega)
  have hge : ¬ b < 0xE0 := by simp only [UInt8.lt_iff_toNat_lt, UInt8.reduceToNat]; omega
  have hlt : b < 0xF0 := by simp only [UInt8.lt_iff_toNat_lt, UInt8.reduceToNat]; omega
  have hextend : extend (extend (b.toNat - 0xE0) c) d = n := by unfold extend; omega
  rw [decode.eq_def]
  simp [hmany, hfirst, hsecond, htail, hge, hlt, hextend]

/-- So are four bytes, up to the last character. -/
theorem decode_four (hb : b.toNat = n / 262144 % 8 + 240) (hc : c.toNat = n / 4096 % 64 + 128)
    (hd : d.toNat = n / 64 % 64 + 128) (he : e.toNat = n % 64 + 128)
    (hn : 0xFFFF < n ∧ n < 0x110000) :
    decode (b :: c :: d :: e :: rest) = some (Char.ofNat n) :: decode rest := by
  obtain ⟨hmany, hfirst⟩ := first_of_many (b := b) (by omega)
  have hsecond : isSecond b c = true := isSecond_iff.2 (by omega)
  have hthird : isTail d = true := isTail_iff.2 (by omega)
  have hfourth : isTail e = true := isTail_iff.2 (by omega)
  have hge : ¬ b < 0xE0 := by simp only [UInt8.lt_iff_toNat_lt, UInt8.reduceToNat]; omega
  have hge' : ¬ b < 0xF0 := by simp only [UInt8.lt_iff_toNat_lt, UInt8.reduceToNat]; omega
  have hextend : extend (extend (extend (b.toNat - 0xF0) c) d) e = n := by unfold extend; omega
  rw [decode.eq_def]
  simp [hmany, hfirst, hsecond, hthird, hfourth, hge, hge', hextend]

end Bytes

/-! ### Texts -/

theorem toNat_ofNat_of_lt {n : Nat} (h : n < 256) : (UInt8.ofNat n).toNat = n := by
  rw [UInt8.toNat_ofNat', Nat.mod_eq_of_lt h]

/-- Each character is decoded from the bytes that it is encoded by, whatever comes after them. -/
theorem decode_encodeChar (c : Char) (rest : List UInt8) :
    decode (String.utf8EncodeChar c ++ rest) = some c :: decode rest := by
  have hvalid : c.toNat < 0xD800 ∨ 0xDFFF < c.toNat ∧ c.toNat < 0x110000 := c.valid
  have hval : c.val.toNat = c.toNat := rfl
  have hc : Char.ofNat c.toNat = c := c.ofNat_toNat
  simp only [String.utf8EncodeChar, hval]
  generalize c.toNat = n at hvalid hc ⊢
  subst hc
  split_ifs with hone htwo hthree
  · exact decode_one rest (toNat_ofNat_of_lt (by omega)) hone
  · exact decode_two rest (toNat_ofNat_of_lt (by omega)) (toNat_ofNat_of_lt (by omega)) (by omega)
  · exact decode_three rest (toNat_ofNat_of_lt (by omega)) (toNat_ofNat_of_lt (by omega))
      (toNat_ofNat_of_lt (by omega)) (by omega) (by omega)
  · exact decode_four rest (toNat_ofNat_of_lt (by omega)) (toNat_ofNat_of_lt (by omega))
      (toNat_ofNat_of_lt (by omega)) (toNat_ofNat_of_lt (by omega)) (by omega)

/-- Every text is decoded from its bytes, with no faults. -/
theorem decode_encode (text : String) : decode (encode text) = text.toList.map some := by
  unfold encode
  induction text.toList with
  | nil => rfl
  | cons c cs ih => rw [List.flatMap_cons, decode_encodeChar, ih, List.map_cons]

/-- A text is read back from its bytes. -/
theorem decode?_encode (text : String) : decode? (encode text) = some text := by
  have hall : (text.toList.map some).mapM id = some text.toList := by
    rw [List.mapM_map]
    exact (List.mapM_pure (m := Option) (f := id)).trans (congrArg some (List.map_id _))
  rw [decode?, decode_encode, hall, Option.map_some, String.ofList_toList]

end AbiBindings.Text.Utf8
