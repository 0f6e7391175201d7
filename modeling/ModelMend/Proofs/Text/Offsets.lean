import ModelMend.Proofs.Text.Bytes
import ModelMend.Text.Slice

/-!
# Places among the bytes

The bytes behind a boundary are those of the rest of the text (`getElem?_encode`). An ASCII character
stands behind a boundary, or in front of it, exactly where its byte does (`encode_head?_eq_iff`,
`encode_getLast?_eq_iff`), and in the middle of a character there are only bytes beyond ASCII.
-/

namespace ModelMend.Text

@[simp] theorem encode_nil : encode [] = [] := rfl

@[simp] theorem encode_cons (c : Char) (text : List Char) :
    encode (c :: text) = String.utf8EncodeChar c ++ encode text := rfl

@[simp] theorem encode_append (front back : List Char) :
    encode (front ++ back) = encode front ++ encode back := by
  rw [encode, List.flatMap_append]
  rfl

@[simp] theorem length_encode (text : List Char) : (encode text).length = byteLength text := by
  induction text with
  | nil => rfl
  | cons c text ih =>
    rw [encode_cons, List.length_append, String.length_utf8EncodeChar, ih, byteLength_cons]

theorem getElem?_encode (front rest : List Char) (k : Nat) :
    (encode (front ++ rest))[byteLength front + k]? = (encode rest)[k]? := by
  rw [encode_append, ← length_encode front, List.getElem?_append_right (Nat.le_add_right _ _),
    Nat.add_sub_cancel_left]

/-! ## ASCII characters -/

section

variable {c : Char}

theorem utf8EncodeChar_of_ascii (hc : c.val.toNat ≤ 127) : String.utf8EncodeChar c = [c.toUInt8] := by
  rw [String.utf8EncodeChar, if_pos hc]
  rfl

theorem utf8Size_of_ascii (hc : c.val.toNat ≤ 127) : c.utf8Size = 1 := by
  rw [← String.length_utf8EncodeChar, utf8EncodeChar_of_ascii hc, List.length_singleton]

variable {letter : Char} (hletter : letter.val.toNat ≤ 127)

include hletter

/-- The byte of an ASCII character is part of no other character. -/
theorem mem_utf8EncodeChar_iff : letter.toUInt8 ∈ String.utf8EncodeChar c ↔ c = letter := by
  rw [← List.count_pos_iff, count_utf8EncodeChar hletter, List.count_pos_iff, List.mem_singleton,
    eq_comm]

theorem utf8EncodeChar_head?_eq_iff :
    (String.utf8EncodeChar c).head? = some letter.toUInt8 ↔ c = letter := by
  constructor
  · exact fun h => (mem_utf8EncodeChar_iff hletter).1 (List.mem_of_mem_head? h)
  · rintro rfl
    rw [utf8EncodeChar_of_ascii hletter, List.head?_cons]

theorem utf8EncodeChar_getLast?_eq_iff :
    (String.utf8EncodeChar c).getLast? = some letter.toUInt8 ↔ c = letter := by
  constructor
  · exact fun h => (mem_utf8EncodeChar_iff hletter).1 (List.mem_of_getLast? h)
  · rintro rfl
    rw [utf8EncodeChar_of_ascii hletter, List.getLast?_singleton]

theorem toUInt8_beq (hc : c.val.toNat ≤ 127) : (c.toUInt8 == letter.toUInt8) = (c == letter) := by
  have hiff := @mem_utf8EncodeChar_iff c letter hletter
  rw [utf8EncodeChar_of_ascii hc, List.mem_singleton, eq_comm] at hiff
  rw [Bool.eq_iff_iff, beq_iff_eq, beq_iff_eq, hiff]

theorem encode_head?_eq_iff {text : List Char} :
    (encode text).head? = some letter.toUInt8 ↔ text.head? = some letter := by
  cases text with
  | nil => simp
  | cons c text =>
    have hfirst : (String.utf8EncodeChar c).head?.isSome := by simp
    rw [encode_cons, List.head?_append, Option.or_of_isSome hfirst,
      utf8EncodeChar_head?_eq_iff hletter, List.head?_cons, Option.some.injEq]

theorem encode_getLast?_eq_iff {text : List Char} :
    (encode text).getLast? = some letter.toUInt8 ↔ text.getLast? = some letter := by
  rcases List.eq_nil_or_concat text with rfl | ⟨front, c, rfl⟩
  · simp
  · have hlast : (String.utf8EncodeChar c).getLast?.isSome := by simp
    rw [List.concat_eq_append, encode_append, encode_cons, encode_nil, List.append_nil,
      List.getLast?_append, Option.or_of_isSome hlast, utf8EncodeChar_getLast?_eq_iff hletter,
      List.getLast?_concat, Option.some.injEq]

end

/-! ## Behind an ASCII character -/

section

variable {c : Char} (hc : c.val.toNat ≤ 127) (front rest : List Char)

include hc

/-- The byte of an ASCII character is followed by the bytes of the rest. -/
theorem getElem?_encode_behind (k : Nat) :
    (encode (front ++ c :: rest))[byteLength front + 1 + k]? = (encode rest)[k]? := by
  have hget := getElem?_encode (front ++ [c]) rest k
  rw [List.append_assoc, List.singleton_append, byteLength_append, byteLength_cons, byteLength_nil,
    utf8Size_of_ascii hc] at hget
  exact hget

theorem sliceFrom?_behind : sliceFrom? (front ++ c :: rest) (byteLength front + 1) = some rest := by
  have hslice := sliceFrom?_append (front ++ [c]) rest
  rw [List.append_assoc, List.singleton_append, byteLength_append, byteLength_cons, byteLength_nil,
    utf8Size_of_ascii hc] at hslice
  exact hslice

theorem beq_encode_behind {letter : Char} (hletter : letter.val.toNat ≤ 127) :
    ((encode (front ++ c :: rest))[byteLength front + 1]? == some letter.toUInt8) =
      (rest.head? == some letter) := by
  have hget := getElem?_encode_behind hc front rest 0
  rw [Nat.add_zero, ← List.head?_eq_getElem?] at hget
  rw [hget, Bool.eq_iff_iff, beq_iff_eq, beq_iff_eq, encode_head?_eq_iff hletter]

end

/-! ## Bytes beyond ASCII -/

theorem ne_of_not_ascii {c letter : Char} (hc : ¬c.val.toNat ≤ 127) (hletter : letter.val.toNat ≤ 127) :
    c ≠ letter := by
  rintro rfl
  exact hc hletter

/-- A character beyond ASCII has only bytes beyond ASCII. -/
theorem exists_byte_of_not_ascii {c : Char} (hc : ¬c.val.toNat ≤ 127) {k : Nat} (hk : k < c.utf8Size)
    (rest : List Char) : ∃ byte, (encode (c :: rest))[k]? = some byte ∧ 128 ≤ byte.toNat := by
  rw [← String.length_utf8EncodeChar] at hk
  refine ⟨(String.utf8EncodeChar c)[k], ?_, le_of_mem_utf8EncodeChar hc (List.getElem_mem hk)⟩
  rw [encode_cons, List.getElem?_append_left hk, List.getElem?_eq_getElem hk]

theorem beq_toUInt8_of_not_ascii {byte : UInt8} (hbyte : 128 ≤ byte.toNat) {letter : Char}
    (hletter : letter.val.toNat ≤ 127) : (byte == letter.toUInt8) = false := by
  rw [beq_eq_false_iff_ne]
  rintro rfl
  rw [Char.toUInt8, UInt32.toNat_toUInt8, Nat.mod_eq_of_lt (by omega)] at hbyte
  omega

/-! ## Offsets of places -/

@[simp] theorem byteOffset_zero (line : List Char) : byteOffset line 0 = 0 := rfl

@[simp] theorem byteOffset_cons_succ (c : Char) (rest : List Char) (n : Nat) :
    byteOffset (c :: rest) (n + 1) = c.utf8Size + byteOffset rest n := rfl

@[simp] theorem byteOffset_append (front rest : List Char) :
    byteOffset (front ++ rest) front.length = byteLength front := by
  rw [byteOffset, List.take_left]

theorem byteOffset_length (line : List Char) : byteOffset line line.length = byteLength line := by
  rw [byteOffset, List.take_length]

theorem isBoundary_byteOffset (line : List Char) (n : Nat) : IsBoundary line (byteOffset line n) :=
  ⟨line.take n, line.drop n, (List.take_append_drop n line).symm, rfl⟩

theorem byteOffset_add (line : List Char) (m n : Nat) :
    byteOffset line (m + n) = byteOffset line m + byteOffset (line.drop m) n := by
  rw [byteOffset, List.take_add, byteLength_append]
  rfl

theorem byteOffset_mono {line : List Char} {m n : Nat} (h : m ≤ n) :
    byteOffset line m ≤ byteOffset line n := by
  obtain ⟨k, rfl⟩ := Nat.exists_eq_add_of_le h
  rw [byteOffset_add]
  exact Nat.le_add_right _ _

theorem byteOffset_le (line : List Char) (n : Nat) : byteOffset line n ≤ byteLength line := by
  rcases Nat.le_total n line.length with h | h
  · rw [← byteOffset_length]
    exact byteOffset_mono h
  · exact Nat.le_of_eq (congrArg byteLength (List.take_of_length_le h))

section

variable {text : List Char} {n : Nat} {c : Char} (h : text[n]? = some c)

include h

theorem drop_eq_cons : text.drop n = c :: text.drop (n + 1) := by
  obtain ⟨hn, rfl⟩ := List.getElem?_eq_some_iff.1 h
  exact List.drop_eq_getElem_cons hn

variable (hc : c.val.toNat ≤ 127)

include hc

theorem byteOffset_succ : byteOffset text (n + 1) = byteOffset text n + 1 := by
  rw [byteOffset_add, drop_eq_cons h, byteOffset_cons_succ, byteOffset_zero, utf8Size_of_ascii hc]

/-- The byte of an ASCII character stands at the offset of its place. -/
theorem getElem?_byteOffset : (encode text)[byteOffset text n]? = some c.toUInt8 := by
  have hget := getElem?_encode (text.take n) (text.drop n) 0
  rw [List.take_append_drop, drop_eq_cons h, encode_cons, utf8EncodeChar_of_ascii hc] at hget
  exact hget

end

theorem sliceTo?_byteOffset (line : List Char) (n : Nat) :
    sliceTo? line (byteOffset line n) = some (line.take n) := by
  have hslice := sliceTo?_append (line.take n) (line.drop n)
  rwa [List.take_append_drop] at hslice

theorem sliceFrom?_byteOffset (line : List Char) (n : Nat) :
    sliceFrom? line (byteOffset line n) = some (line.drop n) := by
  have hslice := sliceFrom?_append (line.take n) (line.drop n)
  rwa [List.take_append_drop] at hslice

end ModelMend.Text
