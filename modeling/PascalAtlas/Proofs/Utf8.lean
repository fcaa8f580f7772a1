import PascalAtlas.Text.Utf8

/-!
# UTF-8 and back

Decoding undoes encoding (`decode_encode`), so a text loses nothing on its way through bytes. And
the bytes of a text keep its **ASCII** characters apart from all others: such a character is one
byte, and that byte occurs in the form of no other character (`ne_of_mem_encodeChar`). Whoever looks
for ASCII characters may therefore look at the bytes.
-/

namespace PascalAtlas.Utf8

/-! ## One character -/

theorem toNat_ofNat {n : Nat} (h : n < 256) : (UInt8.ofNat n).toNat = n := by
  rw [UInt8.toNat_ofNat', Nat.mod_eq_of_lt h]

/-- The bytes that go on with a character. -/
theorem isTail_iff (b : UInt8) : isTail b = true ↔ 128 ≤ b.toNat ∧ b.toNat ≤ 191 := by
  simp [isTail, UInt8.le_iff_toNat_le]

/-- A form of two bytes is decoded to its character. -/
theorem decodeStep_two {v : Nat} (hlo : 127 < v) (hhi : v ≤ 2047) (rest : List UInt8) :
    decodeStep (UInt8.ofNat (v / 64 % 32 + 192)) (UInt8.ofNat (v % 64 + 128) :: rest)
      = (Char.ofNat v, rest) := by
  have ha : (UInt8.ofNat (v / 64 % 32 + 192)).toNat = v / 64 % 32 + 192 := toNat_ofNat (by omega)
  have hb : (UInt8.ofNat (v % 64 + 128)).toNat = v % 64 + 128 := toNat_ofNat (by omega)
  generalize UInt8.ofNat (v / 64 % 32 + 192) = a at ha ⊢
  generalize UInt8.ofNat (v % 64 + 128) = b at hb ⊢
  have hascii : ¬ a < 0x80 := by
    simp [UInt8.lt_iff_toNat_lt, ha]
  have hlead : (0xC2 ≤ a && a ≤ 0xDF) = true := by
    simp [UInt8.le_iff_toNat_le, ha]
    omega
  have htail : isTail b = true := (isTail_iff b).2 (by omega)
  unfold decodeStep
  simp only [if_neg hascii, if_pos hlead, htail, if_true, tailBits, ha, hb]
  congr 2
  omega

/-- A form of three bytes is, unless it would be a surrogate. -/
theorem decodeStep_three {v : Nat} (hlo : 2047 < v) (hhi : v ≤ 65535)
    (hvalid : v < 0xD800 ∨ 0xDFFF < v) (rest : List UInt8) :
    decodeStep (UInt8.ofNat (v / 4096 % 16 + 224))
        (UInt8.ofNat (v / 64 % 64 + 128) :: UInt8.ofNat (v % 64 + 128) :: rest)
      = (Char.ofNat v, rest) := by
  have ha : (UInt8.ofNat (v / 4096 % 16 + 224)).toNat = v / 4096 % 16 + 224 :=
    toNat_ofNat (by omega)
  have hb : (UInt8.ofNat (v / 64 % 64 + 128)).toNat = v / 64 % 64 + 128 := toNat_ofNat (by omega)
  have hc : (UInt8.ofNat (v % 64 + 128)).toNat = v % 64 + 128 := toNat_ofNat (by omega)
  -- The bytes are known by their values only; what is left are comparisons of numbers.
  generalize UInt8.ofNat (v / 4096 % 16 + 224) = a at ha ⊢
  generalize UInt8.ofNat (v / 64 % 64 + 128) = b at hb ⊢
  generalize UInt8.ofNat (v % 64 + 128) = c at hc ⊢
  have hascii : ¬ a < 0x80 := by
    simp [UInt8.lt_iff_toNat_lt, ha]
  have htwo : ¬ (0xC2 ≤ a && a ≤ 0xDF) = true := by
    simp [UInt8.le_iff_toNat_le, ha]
  have hlead : (0xE0 ≤ a && a ≤ 0xEF) = true := by
    simp [UInt8.le_iff_toNat_le, ha]
    omega
  have hsecond : isSecond a b = true := by
    simp [isSecond, isTail, UInt8.le_iff_toNat_le, ← UInt8.toNat_inj, ha, hb]
    repeat' split
    all_goals omega
  have htail : isTail c = true := (isTail_iff c).2 (by omega)
  unfold decodeStep
  simp only [if_neg hascii, if_neg htwo, if_pos hlead, hsecond, htail, if_true,
    tailBits, ha, hb, hc]
  congr 2
  omega

/-- A form of four bytes is decoded to its character. -/
theorem decodeStep_four {v : Nat} (hlo : 65535 < v) (hhi : v < 0x110000) (rest : List UInt8) :
    decodeStep (UInt8.ofNat (v / 262144 % 8 + 240))
        (UInt8.ofNat (v / 4096 % 64 + 128) :: UInt8.ofNat (v / 64 % 64 + 128)
          :: UInt8.ofNat (v % 64 + 128) :: rest)
      = (Char.ofNat v, rest) := by
  have ha : (UInt8.ofNat (v / 262144 % 8 + 240)).toNat = v / 262144 % 8 + 240 :=
    toNat_ofNat (by omega)
  have hb : (UInt8.ofNat (v / 4096 % 64 + 128)).toNat = v / 4096 % 64 + 128 :=
    toNat_ofNat (by omega)
  have hc : (UInt8.ofNat (v / 64 % 64 + 128)).toNat = v / 64 % 64 + 128 := toNat_ofNat (by omega)
  have hd : (UInt8.ofNat (v % 64 + 128)).toNat = v % 64 + 128 := toNat_ofNat (by omega)
  -- As with three bytes, only the values matter from here on.
  generalize UInt8.ofNat (v / 262144 % 8 + 240) = a at ha ⊢
  generalize UInt8.ofNat (v / 4096 % 64 + 128) = b at hb ⊢
  generalize UInt8.ofNat (v / 64 % 64 + 128) = c at hc ⊢
  generalize UInt8.ofNat (v % 64 + 128) = d at hd ⊢
  have hascii : ¬ a < 0x80 := by
    simp [UInt8.lt_iff_toNat_lt, ha]
  have htwo : ¬ (0xC2 ≤ a && a ≤ 0xDF) = true := by
    simp [UInt8.le_iff_toNat_le, ha]
  have hthree : ¬ (0xE0 ≤ a && a ≤ 0xEF) = true := by
    simp [UInt8.le_iff_toNat_le, ha]
  have hlead : (0xF0 ≤ a && a ≤ 0xF4) = true := by
    simp [UInt8.le_iff_toNat_le, ha]
    omega
  have hsecond : isSecond a b = true := by
    simp [isSecond, isTail, UInt8.le_iff_toNat_le, ← UInt8.toNat_inj, ha, hb]
    repeat' split
    all_goals omega
  have htail : isTail c = true := (isTail_iff c).2 (by omega)
  have htail' : isTail d = true := (isTail_iff d).2 (by omega)
  unfold decodeStep
  simp only [if_neg hascii, if_neg htwo, if_neg hthree, if_pos hlead, hsecond, htail, htail',
    if_true, tailBits, ha, hb, hc, hd]
  congr 2
  omega

/-- **The bytes of a character are decoded to it**, whatever follows them. -/
theorem decode_char (c : Char) (rest : List UInt8) :
    decode (String.utf8EncodeChar c ++ rest) = c :: decode rest := by
  have hc : Char.ofNat c.val.toNat = c := Char.ofNat_toNat c
  have hvalid : c.val.toNat < 0xD800 ∨ 0xDFFF < c.val.toNat ∧ c.val.toNat < 0x110000 := c.valid
  by_cases h1 : c.val.toNat ≤ 127
  · have ha : (UInt8.ofNat c.val.toNat).toNat = c.val.toNat := toNat_ofNat (by omega)
    have hascii : UInt8.ofNat c.val.toNat < 0x80 := by
      rw [UInt8.lt_iff_toNat_lt, ha]
      exact Nat.lt_succ_of_le h1
    simp only [String.utf8EncodeChar, if_pos h1, List.cons_append, List.nil_append]
    rw [decode, decodeStep.eq_def, if_pos hascii, ha, hc]
  by_cases h2 : c.val.toNat ≤ 2047
  · simp only [String.utf8EncodeChar, if_neg h1, if_pos h2, List.cons_append, List.nil_append]
    rw [decode, decodeStep_two (by omega) h2, hc]
  by_cases h3 : c.val.toNat ≤ 65535
  · simp only [String.utf8EncodeChar, if_neg h1, if_neg h2, if_pos h3, List.cons_append,
      List.nil_append]
    rw [decode, decodeStep_three (by omega) h3 (by omega), hc]
  · simp only [String.utf8EncodeChar, if_neg h1, if_neg h2, if_neg h3, List.cons_append,
      List.nil_append]
    rw [decode, decodeStep_four (by omega) (by omega), hc]

/-- **Decoding undoes encoding.** -/
@[simp] theorem decode_encode (t : Text) : decode (encode t) = t := by
  induction t with
  | nil => rw [encode, List.flatMap_nil, decode]
  | cons c t ih => rw [encode, List.flatMap_cons, decode_char, ← encode, ih]

/-! ## ASCII characters -/

@[simp] theorem encode_nil : encode [] = [] := rfl

theorem encode_cons (c : Char) (t : Text) : encode (c :: t) = String.utf8EncodeChar c ++ encode t :=
  List.flatMap_cons

/-- Texts are encoded one after the other. -/
@[simp] theorem encode_append (a b : Text) : encode (a ++ b) = encode a ++ encode b :=
  List.flatMap_append

/-- The size of a text is the number of its **bytes**. -/
theorem length_encode (t : Text) : (encode t).length = Text.size t := by
  induction t with
  | nil => rfl
  | cons c t ih => rw [encode_cons, List.length_append, String.length_utf8EncodeChar, ih, Text.size]

/-- An **ASCII** character is one byte. -/
theorem encode_cons_ascii {c : Char} (hc : c.utf8Size = 1) (t : Text) :
    encode (c :: t) = c.toUInt8 :: encode t := by
  rw [encode_cons, String.utf8EncodeChar_eq_singleton hc]
  rfl

/-- A character of one byte is that byte. -/
theorem toNat_toUInt8 {c : Char} (hc : c.utf8Size = 1) : c.toUInt8.toNat = c.toNat := by
  have hle : c.val.toNat ≤ 127 := UInt32.le_iff_toNat_le.1 (Char.utf8Size_eq_one_iff.1 hc)
  have hmod : c.toUInt8.toNat = c.val.toNat % 256 := UInt32.toNat_toUInt8 c.val
  rw [hmod, Nat.mod_eq_of_lt (by omega)]
  rfl

/-- No two characters are the same byte. -/
theorem toUInt8_inj {c d : Char} (hc : c.utf8Size = 1) (hd : d.utf8Size = 1)
    (h : c.toUInt8 = d.toUInt8) : c = d := by
  apply Char.toNat_inj.1
  rw [← toNat_toUInt8 hc, ← toNat_toUInt8 hd, h]

/-- Every byte of a character that is not ASCII is out of the range of ASCII. -/
theorem le_of_mem_encodeChar {c : Char} (hc : c.utf8Size ≠ 1) :
    ∀ b ∈ String.utf8EncodeChar c, 128 ≤ b.toNat := by
  have hv : ¬ c.val.toNat ≤ 127 :=
    fun h => hc (Char.utf8Size_eq_one_iff.2 (UInt32.le_iff_toNat_le.2 h))
  intro b hb
  simp only [String.utf8EncodeChar, if_neg hv] at hb
  repeat' split at hb
  all_goals
    simp only [List.mem_cons, List.not_mem_nil, or_false] at hb
    rcases hb with rfl | rfl | rfl | rfl
  all_goals
    rw [toNat_ofNat (by omega)]
    omega

/-- The byte of an ASCII character occurs in **no other character**. -/
theorem ne_of_mem_encodeChar {c d : Char} (hd : d.utf8Size = 1) (hne : c ≠ d) :
    ∀ b ∈ String.utf8EncodeChar c, b ≠ d.toUInt8 := by
  intro b hb heq
  by_cases hc : c.utf8Size = 1
  · rw [String.utf8EncodeChar_eq_singleton hc] at hb
    exact hne (toUInt8_inj hc hd ((List.mem_singleton.1 hb).symm.trans heq))
  · have hle := le_of_mem_encodeChar hc b hb
    have hd' := toNat_toUInt8 hd
    have hsmall : d.val.toNat ≤ 127 := UInt32.le_iff_toNat_le.1 (Char.utf8Size_eq_one_iff.1 hd)
    have : d.toNat = d.val.toNat := rfl
    rw [heq] at hle
    omega

end PascalAtlas.Utf8
