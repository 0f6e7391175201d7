/-!
# Bytes and text

Text is stored as UTF-8. Strict reading refuses bytes that are not the encoding of any text, and is
inverse to writing (`decode?_eq_some_iff`). Lenient reading never fails: what cannot belong to a
character is replaced, the longest beginning of a character by one replacement character.
-/

namespace ModelMend.Text

abbrev Bytes := List UInt8

/-- The UTF-8 encoding of a text. -/
def encode (text : List Char) : Bytes :=
  text.flatMap String.utf8EncodeChar

def decode? (bytes : Bytes) : Option (List Char) :=
  bytes.toByteArray.utf8Decode?.map Array.toList

@[simp] theorem decode?_encode (text : List Char) : decode? (encode text) = some text := by
  have h : (encode text).toByteArray = text.utf8Encode := by
    rw [encode, List.utf8Encode]
  simp [decode?, h]

theorem encode_of_decode? {bytes : Bytes} {text : List Char} (h : decode? bytes = some text) :
    encode text = bytes := by
  obtain ⟨chars, hchars, rfl⟩ := Option.map_eq_some_iff.1 h
  have hget : bytes.toByteArray.utf8Decode?.isSome := by simp [hchars]
  have hback := ByteArray.utf8Encode_get_utf8Decode? (b := bytes.toByteArray) (h := hget)
  simp only [hchars, Option.get_some] at hback
  have : (encode chars.toList).toByteArray = bytes.toByteArray := by
    rw [← hback, encode, List.utf8Encode]
  have := congrArg ByteArray.data this
  simpa using this

/-- Reading is inverse to writing. -/
theorem decode?_eq_some_iff {bytes : Bytes} {text : List Char} :
    decode? bytes = some text ↔ bytes = encode text :=
  ⟨fun h => (encode_of_decode? h).symm, fun h => h ▸ decode?_encode text⟩

/-- A character begun: the number of bytes it still needs, the range of the next one, and the bits
so far. -/
structure Pending where
  owed : Nat
  low : Nat
  high : Nat
  bits : Nat
deriving DecidableEq, Repr

/-- What replaces bytes that belong to no character. -/
def replacement : Char := '\ufffd'

/-- A byte between two characters: what it writes, and the character it begins. -/
def lead (byte : Nat) : List Char × Option Pending :=
  if byte < 0x80 then ([Char.ofNat byte], none)
  else if 0xc2 ≤ byte && byte ≤ 0xdf then ([], some ⟨1, 0x80, 0xbf, byte - 0xc0⟩)
  else if byte == 0xe0 then ([], some ⟨2, 0xa0, 0xbf, 0⟩)
  else if byte == 0xed then ([], some ⟨2, 0x80, 0x9f, 0xd⟩)
  else if 0xe1 ≤ byte && byte ≤ 0xef then ([], some ⟨2, 0x80, 0xbf, byte - 0xe0⟩)
  else if byte == 0xf0 then ([], some ⟨3, 0x90, 0xbf, 0⟩)
  else if 0xf1 ≤ byte && byte ≤ 0xf3 then ([], some ⟨3, 0x80, 0xbf, byte - 0xf0⟩)
  else if byte == 0xf4 then ([], some ⟨3, 0x80, 0x8f, 4⟩)
  else ([replacement], none)

/-- One byte of lenient reading. -/
def lenientStep (pending : Option Pending) (byte : Nat) : List Char × Option Pending :=
  match pending with
  | none => lead byte
  | some p =>
    if p.low ≤ byte && byte ≤ p.high then
      let bits := 64 * p.bits + (byte - 0x80)
      if p.owed ≤ 1 then ([Char.ofNat bits], none) else ([], some ⟨p.owed - 1, 0x80, 0xbf, bits⟩)
    else (replacement :: (lead byte).1, (lead byte).2)

/-- Lenient reading in the middle of a text. -/
def decodeFrom (pending : Option Pending) : Bytes → List Char
  | [] => if pending.isSome then [replacement] else []
  | byte :: rest =>
    let step := lenientStep pending byte.toNat
    step.1 ++ decodeFrom step.2 rest

/-- The text of bytes, whatever they are. -/
def decodeLeniently (bytes : Bytes) : List Char :=
  decodeFrom none bytes

end ModelMend.Text
