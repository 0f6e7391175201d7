import ModelMend.Text.Utf8

/-!
# The bytes of a text

A character that is encoded as one byte is found among the bytes exactly where it is in the text: its
byte is part of no other character. Lenient reading gives a text back (`decodeLeniently_encode`).
-/

namespace ModelMend.Text

/-- The bytes of a character beyond ASCII lie above those of all ASCII characters. -/
theorem le_of_mem_utf8EncodeChar {c : Char} (hc : ¬c.val.toNat ≤ 127) {byte : UInt8}
    (h : byte ∈ String.utf8EncodeChar c) : 128 ≤ byte.toNat := by
  have hhigh {n m : Nat} (hbyte : byte = UInt8.ofNat (n + m)) (hlow : 128 ≤ m)
      (hsum : n + m < 256) : 128 ≤ byte.toNat := by
    rw [hbyte, UInt8.toNat_ofNat', Nat.mod_eq_of_lt hsum]
    omega
  unfold String.utf8EncodeChar at h
  rw [if_neg hc] at h
  split at h
  · simp only [List.mem_cons, List.not_mem_nil, or_false] at h
    rcases h with h | h <;> exact hhigh h (by decide) (by omega)
  · split at h
    · simp only [List.mem_cons, List.not_mem_nil, or_false] at h
      rcases h with h | h | h <;> exact hhigh h (by decide) (by omega)
    · simp only [List.mem_cons, List.not_mem_nil, or_false] at h
      rcases h with h | h | h | h <;> exact hhigh h (by decide) (by omega)

section

variable {letter : Char} (hletter : letter.val.toNat ≤ 127)

include hletter

theorem count_utf8EncodeChar (c : Char) :
    (String.utf8EncodeChar c).count letter.toUInt8 = [c].count letter := by
  have hbyteValue : letter.toUInt8.toNat = letter.val.toNat := by
    rw [Char.toUInt8, UInt32.toNat_toUInt8, Nat.mod_eq_of_lt (by omega)]
  have hvalue : c = letter ↔ c.val.toNat = letter.val.toNat := by
    rw [Char.ext_iff, ← UInt32.toNat_inj]
  by_cases hascii : c.val.toNat ≤ 127
  · have hbyte : UInt8.ofNat c.val.toNat = letter.toUInt8 ↔ c = letter := by
      rw [← UInt8.toNat_inj, hbyteValue, UInt8.toNat_ofNat', hvalue]
      omega
    rw [String.utf8EncodeChar, if_pos hascii]
    simp only [List.count_singleton, beq_iff_eq, hbyte]
  · have hother : c ≠ letter := by
      intro heq
      have := hvalue.1 heq
      omega
    have hnone : letter.toUInt8 ∉ String.utf8EncodeChar c := by
      intro hmem
      have := le_of_mem_utf8EncodeChar hascii hmem
      omega
    rw [List.count_eq_zero.2 hnone, List.count_singleton, if_neg (by simpa using hother)]

/-- The byte of an ASCII character stands for it as often as the character stands in the text. -/
theorem count_encode (text : List Char) :
    (encode text).count letter.toUInt8 = text.count letter := by
  induction text with
  | nil => rfl
  | cons c text ih =>
    have hsplit : encode (c :: text) = String.utf8EncodeChar c ++ encode text := rfl
    rw [hsplit, List.count_append, count_utf8EncodeChar hletter, ih, ← List.count_append,
      List.singleton_append]

theorem mem_encode_iff {text : List Char} : letter.toUInt8 ∈ encode text ↔ letter ∈ text := by
  rw [← List.count_pos_iff, count_encode hletter, List.count_pos_iff]

end

/-! ## Lenient reading of what is a text -/

section

variable {owed low high bits byte : Nat} (hbyte : low ≤ byte ∧ byte ≤ high)

include hbyte

theorem lenientStep_last :
    lenientStep (some ⟨1, low, high, bits⟩) byte =
      ([Char.ofNat (64 * bits + (byte - 0x80))], none) := by
  simp [lenientStep, hbyte]

theorem lenientStep_more (howed : 1 < owed) :
    lenientStep (some ⟨owed, low, high, bits⟩) byte =
      ([], some ⟨owed - 1, 0x80, 0xbf, 64 * bits + (byte - 0x80)⟩) := by
  simp [lenientStep, hbyte, Nat.not_le.2 howed]

end

theorem lead_two {v : Nat} (hlow : 0x80 ≤ v) (hhigh : v ≤ 0x7ff) :
    lead (v / 64 % 32 + 192) = ([], some ⟨1, 0x80, 0xbf, v / 64⟩) := by
  have hbits : v / 64 % 32 = v / 64 := Nat.mod_eq_of_lt (by omega)
  have hleast : 2 ≤ v / 64 := by omega
  have hmost : v / 64 ≤ 31 := by omega
  generalize v / 64 = bits at hbits hleast hmost
  have hnarrow : ¬bits + 192 < 0x80 := by omega
  have hrange : 0xc2 ≤ bits + 192 ∧ bits + 192 ≤ 0xdf := by omega
  simp [lead, hbits, hnarrow, hrange]

/-- The first of three bytes allows the second one. -/
theorem lead_three {v : Nat} (hlow : 0x800 ≤ v) (hhigh : v ≤ 0xffff) (hvalid : v.isValidChar) :
    ∃ low high, lead (v / 4096 % 16 + 224) = ([], some ⟨2, low, high, v / 4096⟩) ∧
      low ≤ v / 64 % 64 + 128 ∧ v / 64 % 64 + 128 ≤ high := by
  have hbits : v / 4096 % 16 = v / 4096 := Nat.mod_eq_of_lt (by omega)
  rw [hbits]
  rcases Nat.eq_zero_or_pos (v / 4096) with hzero | hpositive
  · refine ⟨0xa0, 0xbf, ?_, by omega, by omega⟩
    rw [hzero]
    decide
  by_cases hgap : v / 4096 = 0xd
  · refine ⟨0x80, 0x9f, ?_, by omega, ?_⟩
    · rw [hgap]
      decide
    · rcases hvalid with hbelow | ⟨habove, -⟩ <;> omega
  · refine ⟨0x80, 0xbf, ?_, by omega, by omega⟩
    have hrange : ∀ bits < 16, 0 < bits → bits ≠ 0xd →
        lead (bits + 224) = ([], some ⟨2, 0x80, 0xbf, bits⟩) := by
      decide
    exact hrange _ (by omega) hpositive hgap

/-- The first of four bytes allows the second one. -/
theorem lead_four {v : Nat} (hlow : 0xffff < v) (hhigh : v < 0x110000) :
    ∃ low high, lead (v / 262144 % 8 + 240) = ([], some ⟨3, low, high, v / 262144⟩) ∧
      low ≤ v / 4096 % 64 + 128 ∧ v / 4096 % 64 + 128 ≤ high := by
  have hbits : v / 262144 % 8 = v / 262144 := Nat.mod_eq_of_lt (by omega)
  rw [hbits]
  rcases Nat.eq_zero_or_pos (v / 262144) with hzero | hpositive
  · refine ⟨0x90, 0xbf, ?_, by omega, by omega⟩
    rw [hzero]
    decide
  by_cases hlast : v / 262144 = 4
  · refine ⟨0x80, 0x8f, ?_, by omega, by omega⟩
    rw [hlast]
    decide
  · refine ⟨0x80, 0xbf, ?_, by omega, by omega⟩
    have hrange : ∀ bits < 4, 0 < bits →
        lead (bits + 240) = ([], some ⟨3, 0x80, 0xbf, bits⟩) := by
      decide
    exact hrange _ (by omega) hpositive

theorem decodeFrom_cons (pending : Option Pending) {n : Nat} (hn : n < 256) (rest : Bytes) :
    decodeFrom pending (UInt8.ofNat n :: rest) =
      (lenientStep pending n).1 ++ decodeFrom (lenientStep pending n).2 rest := by
  have hbyte : (UInt8.ofNat n).toNat = n := by
    rw [UInt8.toNat_ofNat', Nat.mod_eq_of_lt hn]
  rw [decodeFrom, hbyte]

theorem decodeFrom_utf8EncodeChar (c : Char) (rest : Bytes) :
    decodeFrom none (String.utf8EncodeChar c ++ rest) = c :: decodeFrom none rest := by
  have hvalid : c.val.toNat.isValidChar := c.valid
  have hback : Char.ofNat c.val.toNat = c := Char.ofNat_toNat c
  unfold String.utf8EncodeChar
  dsimp only
  generalize c.val.toNat = v at hvalid hback
  split
  · next hone =>
    have hlead : lead v = ([c], none) := by
      rw [lead, if_pos (by omega), hback]
    rw [List.singleton_append, decodeFrom_cons none (by omega), lenientStep, hlead]
    rfl
  · split
    · next hone htwo =>
      simp only [List.cons_append, List.nil_append]
      rw [decodeFrom_cons none (by omega), lenientStep, lead_two (by omega) htwo,
        decodeFrom_cons _ (by omega), lenientStep_last (by omega)]
      have hsum : 64 * (v / 64) + (v % 64 + 128 - 128) = v := by omega
      rw [hsum, hback]
      rfl
    · split
      · next htwo hthree =>
        obtain ⟨low, high, hlead, hsecond⟩ := lead_three (by omega) hthree hvalid
        simp only [List.cons_append, List.nil_append]
        rw [decodeFrom_cons none (by omega), lenientStep, hlead, decodeFrom_cons _ (by omega),
          lenientStep_more hsecond (by omega), decodeFrom_cons _ (by omega),
          lenientStep_last (by omega)]
        have hsum : 64 * (64 * (v / 4096) + (v / 64 % 64 + 128 - 128)) + (v % 64 + 128 - 128) = v := by
          omega
        rw [hsum, hback]
        rfl
      · next hthree =>
        obtain ⟨low, high, hlead, hsecond⟩ := lead_four (v := v) (by omega) (by
          rcases hvalid with hbelow | ⟨-, hbelow⟩ <;> omega)
        simp only [List.cons_append, List.nil_append]
        rw [decodeFrom_cons none (by omega), lenientStep, hlead, decodeFrom_cons _ (by omega),
          lenientStep_more hsecond (by omega), decodeFrom_cons _ (by omega),
          lenientStep_more (by omega) (by omega), decodeFrom_cons _ (by omega),
          lenientStep_last (by omega)]
        have hsum : 64 * (64 * (64 * (v / 262144) + (v / 4096 % 64 + 128 - 128)) +
            (v / 64 % 64 + 128 - 128)) + (v % 64 + 128 - 128) = v := by
          omega
        rw [hsum, hback]
        rfl

/-- What is written as bytes is read back from them, by lenient reading too. -/
theorem decodeLeniently_encode (text : List Char) : decodeLeniently (encode text) = text := by
  unfold decodeLeniently
  induction text with
  | nil => rfl
  | cons c text ih =>
    have hsplit : encode (c :: text) = String.utf8EncodeChar c ++ encode text := rfl
    rw [hsplit, decodeFrom_utf8EncodeChar, ih]

end ModelMend.Text
