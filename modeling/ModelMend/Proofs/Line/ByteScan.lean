import ModelMend.Line.ByteScan
import ModelMend.Proofs.Line.Indentation
import ModelMend.Proofs.Text.Offsets

/-!
# The bytes of a line and its characters

Walking over the bytes of a line comes to the report that walking over its characters comes to
(`Scanner.feedBytes?_eq`). Two cursors that stand at one place of a line, one over its characters and one
over its bytes, go on alike (`SamePlace.walk`). The one over characters passes an escape or a character
literal one character at a time and counts what is left of it, while the one over bytes is behind it at
once, or in the middle of its last character, whose other bytes it reads over (`walk?_escaped`).
-/

namespace ModelMend

open Text

/-- The report with its places in bytes. -/
def LineScan.inBytes (line : List Char) (scan : LineScan) : LineScan :=
  ⟨scan.topComma.map (byteOffset line), byteOffset line scan.codeEnd,
    scan.closedAt.map (byteOffset line)⟩

theorem comesBehind?_eq {letter : Char} (hletter : letter.val.toNat ≤ 127) (front rest : List Char) :
    comesBehind? (encode (front ++ rest)) letter.toUInt8 (byteLength front) =
      some (front.getLast? == some letter) := by
  by_cases hempty : encode front = []
  · have hlength := length_encode front
    rw [hempty, List.length_nil] at hlength
    rw [comesBehind?, if_pos hlength.symm]
    have hnone := @encode_getLast?_eq_iff letter hletter front
    simpa [hempty] using hnone
  · have hlength := List.length_pos_iff.2 hempty
    obtain ⟨last, hlast⟩ := Option.ne_none_iff_exists'.1 (mt List.getLast?_eq_none_iff.1 hempty)
    have hplace : (encode (front ++ rest))[byteLength front - 1]? = some last := by
      rw [encode_append, ← length_encode, List.getElem?_append_left (by omega),
        ← List.getLast?_eq_getElem?, hlast]
    rw [comesBehind?, if_neg (by rw [← length_encode]; omega), hplace, Option.map_some,
      Option.some.injEq, Bool.eq_iff_iff, beq_iff_eq, beq_iff_eq, ← encode_getLast?_eq_iff hletter,
      hlast, Option.some.injEq]

namespace Scanner

open Cursor

/-- The quote that ends an escape is counted with it. -/
theorem byteOffset_escape {tail : List Char} {n : Nat} (h : tail.findIdx? (· == '\'') = some n) :
    byteOffset ('\\' :: tail) (n + 2) = byteOffset tail n + 2 := by
  obtain ⟨hn, hquote, -⟩ := List.findIdx?_eq_some_iff_getElem.1 h
  have htake : tail.take (n + 1) = tail.take n ++ ['\''] := by
    rw [List.take_succ_eq_append_getElem hn, eq_of_beq hquote]
  rw [byteOffset, List.take_succ_cons, byteLength_cons, htake, byteLength_append, Nat.add_comm]
  rfl

theorem literalBytes?_eq (rest : List Char) :
    literalBytes? rest = some ((literalTail rest).map (byteOffset rest)) := by
  match rest with
  | [] => rfl
  | c :: tail =>
    have hslice : sliceFrom? (c :: tail) c.utf8Size = some tail := by
      have hone := sliceFrom?_append [c] tail
      rwa [byteLength_cons, byteLength_nil, Nat.add_zero] at hone
    rw [literalBytes?, List.head?_cons]
    dsimp only
    by_cases hc : c = '\\'
    · subst hc
      have hslice : sliceFrom? ('\\' :: tail) 1 = some tail := hslice
      rw [if_pos rfl, hslice, Option.map_some, literalTail, Option.map_map]
      exact congrArg some (Option.map_congr fun n hn => (byteOffset_escape hn).symm)
    · rw [if_neg hc, hslice, Option.map_some]
      match tail with
      | [] => simp [literalTail]
      | d :: more =>
        by_cases hd : d = '\''
        · subst hd
          simp [literalTail, byteOffset]
          rfl
        · simp [literalTail, hd]

namespace ByteCursor

variable {line : List Char} {cursor : ByteCursor} {byte : UInt8}

theorem walk?_end (h : (encode line)[cursor.place]? = none) : cursor.walk? line =
    some (⟨cursor.topComma, (encode line).length, cursor.closedAt⟩, cursor.scanner) := by
  rw [walk?]
  split
  · rfl
  · next hbyte => rw [h] at hbyte; cases hbyte

section

variable (hbyte : (encode line)[cursor.place]? = some byte)

include hbyte

/-- One step of the walk. -/
theorem walk?_step : cursor.walk? line =
    if cursor.scanner.inString then (cursor.readQuoted byte).advance.walk? line
    else if byte == '/'.toUInt8 && (encode line)[cursor.place + 1]? == some '/'.toUInt8 then
      some (⟨cursor.topComma, cursor.place, cursor.closedAt⟩, cursor.scanner)
    else (cursor.readCode? line byte).bind fun read => read.advance.walk? line := by
  rw [walk?]
  split
  · next hnone => rw [hbyte] at hnone; cases hnone
  · next hsome =>
    rw [hbyte] at hsome
    cases hsome
    congr 2
    split
    · next hread => rw [hread, Option.bind_none]
    · next hread => rw [hread, Option.bind_some]

/-- Bytes beyond ASCII are read over, in a string and in code. -/
theorem walk?_not_ascii (hhigh : 128 ≤ byte.toNat) :
    cursor.walk? line = cursor.advance.walk? line := by
  have hquoted : cursor.readQuoted byte = cursor := by
    simp (disch := decide) [readQuoted, beq_toUInt8_of_not_ascii hhigh]
  have hcode : cursor.readCode? line byte = some cursor := by
    simp (disch := decide) [readCode?, beq_toUInt8_of_not_ascii hhigh]
  rw [walk?_step hbyte, hquoted, hcode, beq_toUInt8_of_not_ascii hhigh (by decide), Option.bind_some]
  exact ite_self _

end

theorem walk?_all_not_ascii {n : Nat}
    (h : ∀ k < n, ∃ byte, (encode line)[cursor.place + k]? = some byte ∧ 128 ≤ byte.toNat) :
    cursor.walk? line = { cursor with place := cursor.place + n }.walk? line := by
  induction n generalizing cursor with
  | zero => rfl
  | succ n ih =>
    obtain ⟨byte, hbyte, hhigh⟩ := h 0 (Nat.succ_pos n)
    rw [walk?_not_ascii hbyte hhigh, @ih cursor.advance]
    · rw [place_advance, Nat.add_right_comm]
      rfl
    · intro k hk
      rw [place_advance, Nat.add_right_comm]
      exact h (k + 1) (Nat.succ_lt_succ hk)

/-- What an ASCII character of code does to a cursor over bytes. -/
theorem readCode?_of_ascii {c : Char} (hc : c.val.toNat ≤ 127) (hquote : c ≠ '\'') {afterDash : Bool}
    (hdash : comesBehind? (encode line) '-'.toUInt8 cursor.place = some afterDash) :
    cursor.readCode? line c.toUInt8 = some
      { scanner := scannerBehind cursor.scanner afterDash c
        place := cursor.place
        topComma :=
          if c = ',' ∧ cursor.scanner.depth = 0 ∧ cursor.topComma.isNone then some cursor.place
          else cursor.topComma
        closedAt :=
          if isClosing c ∧ cursor.scanner.depth = 1 ∧ cursor.closedAt.isNone then
            some (cursor.place + 1)
          else cursor.closedAt } := by
  unfold readCode? scannerBehind noteClosed enter leave isClosing
  simp (disch := first | assumption | decide) only [toUInt8_beq, hdash, Option.map_some]
  obtain ⟨⟨angles, depth, inString⟩, place, topComma, closedAt⟩ := cursor
  cases angles <;> cases afterDash <;> grind

end ByteCursor

/-! ## One place of a line -/

/-- A cursor over characters and one over bytes stand between the two parts of a line and have seen the
same. What the first is still to skip, the second has passed. -/
structure SamePlace (line front rest : List Char) (cursor : Cursor) (bytes : ByteCursor) : Prop where
  line_eq : line = front ++ rest
  place_eq : bytes.place = byteLength front + byteOffset rest cursor.skip
  position_eq : cursor.position = front.length
  scanner_eq : bytes.scanner = cursor.scanner
  previous_eq : cursor.previous = front.getLast?
  topComma_eq : bytes.topComma = cursor.topComma.map (byteOffset line)
  closedAt_eq : bytes.closedAt = cursor.closedAt.map (byteOffset line)

namespace SamePlace

variable {line front rest : List Char} {c : Char} {cursor : Cursor} {bytes : ByteCursor}

/-- A character is passed. -/
theorem next (h : SamePlace line front (c :: rest) cursor bytes) {place skip : Nat}
    (hplace : place = byteLength front + c.utf8Size + byteOffset rest skip) :
    SamePlace line (front ++ [c]) rest ({ cursor with skip }.next c) { bytes with place } := by
  refine ⟨?_, ?_, ?_, h.scanner_eq, ?_, h.topComma_eq, h.closedAt_eq⟩
  · rw [h.line_eq, List.append_assoc, List.singleton_append]
  · rw [byteLength_append]
    exact hplace
  · rw [Cursor.next, h.position_eq, List.length_append, List.length_singleton]
  · rw [Cursor.next, List.getLast?_concat]

theorem skip (h : SamePlace line front (c :: rest) cursor bytes) (hskip : cursor.skip ≠ 0) :
    SamePlace line (front ++ [c]) rest ({ cursor with skip := cursor.skip - 1 }.next c) bytes := by
  obtain ⟨n, hn⟩ := Nat.exists_eq_succ_of_ne_zero hskip
  have hplace := h.place_eq
  rw [hn, byteOffset_cons_succ, ← Nat.add_assoc] at hplace
  rw [hn]
  exact h.next hplace

section

variable (h : SamePlace line front (c :: rest) cursor bytes) (hskip : cursor.skip = 0)

include h hskip

theorem place_eq_byteLength : bytes.place = byteLength front := by
  rw [h.place_eq, hskip, byteOffset_zero, Nat.add_zero]

theorem getElem?_encode (k : Nat) :
    (encode line)[bytes.place + k]? = (encode (c :: rest))[k]? := by
  rw [h.line_eq, h.place_eq_byteLength hskip, Text.getElem?_encode]

theorem byte (hc : c.val.toNat ≤ 127) : (encode line)[bytes.place]? = some c.toUInt8 := by
  rw [← Nat.add_zero bytes.place, h.getElem?_encode hskip, encode_cons, utf8EncodeChar_of_ascii hc]
  rfl

/-- A character beyond ASCII is read over. -/
theorem readOver (hc : ¬c.val.toNat ≤ 127) :
    ∃ behind, bytes.walk? line = behind.walk? line ∧
      cursor.walk (c :: rest) = (cursor.next c).walk rest ∧
      SamePlace line (front ++ [c]) rest (cursor.next c) behind := by
  refine ⟨{ bytes with place := bytes.place + c.utf8Size }, ?_, ?_, ?_⟩
  · refine ByteCursor.walk?_all_not_ascii fun k hk => ?_
    rw [h.getElem?_encode hskip]
    exact exists_byte_of_not_ascii hc hk rest
  · simp (disch := decide) [walk, hskip, readQuoted, readCode, ne_of_not_ascii hc]
  · have hplace : bytes.place + c.utf8Size = byteLength front + c.utf8Size + byteOffset rest 0 := by
      rw [h.place_eq_byteLength hskip, byteOffset_zero, Nat.add_zero]
    have hnext := h.next hplace
    rwa [← hskip] at hnext

end

/-- A single quote. -/
theorem readQuote (h : SamePlace line front ('\'' :: rest) cursor bytes) (hskip : cursor.skip = 0) :
    ∃ read, bytes.readCode? line '\''.toUInt8 = some read ∧
      SamePlace line (front ++ ['\'']) rest ((cursor.readCode '\'' rest).next '\'') read.advance := by
  have hplace := h.place_eq_byteLength hskip
  have hslice : sliceFrom? line (bytes.place + 1) = some rest := by
    rw [h.line_eq, hplace, sliceFrom?_behind (by decide)]
  refine ⟨{ bytes with place := bytes.place + byteOffset rest ((literalTail rest).getD 0) }, ?_, ?_⟩
  · rw [ByteCursor.readCode?, if_neg (by decide), if_pos (by decide), hslice, Option.bind_some,
      literalBytes?_eq, Option.map_some]
    cases literalTail rest <;> rfl
  · refine h.next ?_
    rw [hplace, Nat.add_right_comm]
    rfl

section

variable (h : SamePlace line front (c :: rest) cursor bytes) (hskip : cursor.skip = 0)
  (hc : c.val.toNat ≤ 127)

include h hskip hc

theorem advance : SamePlace line (front ++ [c]) rest (cursor.next c) bytes.advance := by
  have hplace : bytes.place + 1 = byteLength front + c.utf8Size + byteOffset rest 0 := by
    rw [h.place_eq_byteLength hskip, utf8Size_of_ascii hc, byteOffset_zero, Nat.add_zero]
  have hnext := h.next hplace
  rwa [← hskip] at hnext

/-- Two slashes are seen among the bytes as they are among the characters. -/
theorem comment_eq :
    (c.toUInt8 == '/'.toUInt8 && (encode line)[bytes.place + 1]? == some '/'.toUInt8) =
      (c == '/' && rest.head? == some '/') := by
  have hslash : '/'.val.toNat ≤ 127 := by decide
  rw [toUInt8_beq hslash hc, h.line_eq, h.place_eq_byteLength hskip,
    beq_encode_behind hc front rest hslash]

/-- The byte behind an escape is passed with it, and so are the other bytes of its character. -/
theorem walk?_escaped :
    (ByteCursor.advance { bytes with place := bytes.place + 1 }).walk? line =
      ByteCursor.walk? line
        { bytes with place := byteLength front + c.utf8Size + byteOffset rest 1 } := by
  have hbehind := getElem?_encode_behind hc front rest
  rw [← h.line_eq, ← h.place_eq_byteLength hskip] at hbehind
  rw [← h.place_eq_byteLength hskip, utf8Size_of_ascii hc]
  match rest with
  | [] =>
    have hend : (encode line)[bytes.place + 1 + byteOffset [] 1]? = none := hbehind 0
    have hpast : (encode line)[bytes.place + 1 + 1]? = none := hbehind 1
    rw [ByteCursor.walk?_end hpast, ByteCursor.walk?_end hend]
    rfl
  | d :: more =>
    rw [byteOffset_cons_succ, byteOffset_zero, Nat.add_zero, ByteCursor.advance]
    by_cases hd : d.val.toNat ≤ 127
    · rw [utf8Size_of_ascii hd]
    · obtain ⟨n, hn⟩ := Nat.exists_eq_succ_of_ne_zero (Nat.ne_of_gt d.utf8Size_pos)
      rw [ByteCursor.walk?_all_not_ascii (n := n) fun k hk => ?_, hn, Nat.add_assoc _ 1 n,
        Nat.add_comm 1 n]
      change ∃ byte, (encode line)[bytes.place + 1 + 1 + k]? = some byte ∧ 128 ≤ byte.toNat
      rw [Nat.add_assoc _ 1 k, Nat.add_comm 1 k, hbehind]
      exact exists_byte_of_not_ascii hd (by omega) more

/-- A character of a string. An escape takes the byte behind it, which may be the first of several. -/
theorem readQuoted :
    ∃ behind, (bytes.readQuoted c.toUInt8).advance.walk? line = behind.walk? line ∧
      SamePlace line (front ++ [c]) rest ((cursor.readQuoted c).next c) behind := by
  unfold ByteCursor.readQuoted Cursor.readQuoted
  simp (disch := first | assumption | decide) only [toUInt8_beq]
  by_cases hescape : (c == '\\') = true
  · rw [if_pos hescape, if_pos hescape]
    exact ⟨_, h.walk?_escaped hskip hc, h.next rfl⟩
  rw [if_neg hescape, if_neg hescape]
  by_cases hquote : (c == '"') = true
  · rw [if_pos hquote, if_pos hquote]
    refine ⟨_, rfl, SamePlace.advance ?_ hskip hc⟩
    exact ⟨h.line_eq, h.place_eq, h.position_eq,
      congrArg (fun scanner : Scanner => { scanner with inString := false }) h.scanner_eq,
      h.previous_eq, h.topComma_eq, h.closedAt_eq⟩
  · rw [if_neg hquote, if_neg hquote]
    exact ⟨_, rfl, h.advance hskip hc⟩

/-- A character of code. -/
theorem readCode :
    ∃ read, bytes.readCode? line c.toUInt8 = some read ∧
      SamePlace line (front ++ [c]) rest ((cursor.readCode c rest).next c) read.advance := by
  by_cases hquote : c = '\''
  · subst hquote
    exact h.readQuote hskip
  have hplace := h.place_eq_byteLength hskip
  have harrow : comesBehind? (encode line) '-'.toUInt8 bytes.place =
      some (cursor.previous == some '-') := by
    rw [h.line_eq, hplace, comesBehind?_eq (by decide), h.previous_eq]
  have hskip' : (cursor.readCode c rest).skip = cursor.skip := by
    rw [skip_readCode, if_neg hquote]
  refine ⟨_, ByteCursor.readCode?_of_ascii hc hquote harrow,
    SamePlace.advance ⟨h.line_eq, ?_, ?_, ?_, ?_, ?_, ?_⟩ (hskip'.trans hskip) hc⟩
  · rw [hskip', h.place_eq]
  · rw [position_readCode, h.position_eq]
  · rw [scanner_readCode, h.scanner_eq]
  · rw [previous_readCode, h.previous_eq]
  · rw [comma_readCode, h.scanner_eq, h.topComma_eq, Option.isNone_map]
    dsimp only
    split
    · rw [Option.map_some, h.position_eq, h.line_eq, byteOffset_append, hplace]
    · rfl
  · rw [closedAt_readCode, h.scanner_eq, h.closedAt_eq, Option.isNone_map]
    dsimp only
    split
    · rw [Option.map_some, h.position_eq, h.line_eq, byteOffset_add, byteOffset_append,
        List.drop_left, byteOffset_cons_succ, utf8Size_of_ascii hc, byteOffset_zero, hplace]
    · rfl

end

/-- Where the code ends for both, they report the same. -/
theorem report_eq (h : SamePlace line front rest cursor bytes) {codeEnd : Nat}
    (hend : codeEnd = byteLength front) :
    ⟨bytes.topComma, codeEnd, bytes.closedAt⟩ =
      LineScan.inBytes line ⟨cursor.topComma, cursor.position, cursor.closedAt⟩ := by
  have hplace : byteOffset line cursor.position = codeEnd := by
    rw [h.position_eq, h.line_eq, byteOffset_append, hend]
  rw [LineScan.inBytes, hplace, h.topComma_eq, h.closedAt_eq]

/-- **The two walks go on alike** from one place of a line. -/
theorem walk (h : SamePlace line front rest cursor bytes) :
    bytes.walk? line =
      some (LineScan.inBytes line ⟨(cursor.walk rest).topComma, (cursor.walk rest).position,
        (cursor.walk rest).closedAt⟩, (cursor.walk rest).scanner) := by
  -- what is skipped is passed already, so each character but a skipped one takes both a step on
  induction rest generalizing front cursor bytes with
  | nil =>
    have hlength : byteLength front = (encode line).length := by
      rw [h.line_eq, List.append_nil, length_encode]
    have hend : (encode line)[bytes.place]? = none := by
      rw [List.getElem?_eq_none_iff, h.place_eq, ← hlength]
      exact Nat.le_add_right _ _
    rw [ByteCursor.walk?_end hend, Cursor.walk, h.report_eq hlength.symm,
      h.scanner_eq]
  | cons c rest ih =>
    by_cases hskip : (cursor.skip != 0) = true
    · rw [Cursor.walk, if_pos hskip]
      exact ih (h.skip (by simpa using hskip))
    have hzero : cursor.skip = 0 := by simpa using hskip
    by_cases hc : ¬c.val.toNat ≤ 127
    · obtain ⟨behind, hbytes, hwalk, hsame⟩ := h.readOver hzero hc
      rw [hbytes, hwalk]
      exact ih hsame
    have hascii : c.val.toNat ≤ 127 := Decidable.not_not.1 hc
    rw [ByteCursor.walk?_step (h.byte hzero hascii), h.comment_eq hzero hascii, h.scanner_eq,
      Cursor.walk, if_neg hskip]
    split
    · obtain ⟨behind, hbytes, hsame⟩ := h.readQuoted hzero hascii
      rw [hbytes]
      exact ih hsame
    · split
      · rw [h.report_eq (h.place_eq_byteLength hzero)]
      · obtain ⟨read, hread, hsame⟩ := h.readCode hzero hascii
        rw [hread, Option.bind_some]
        exact ih hsame

end SamePlace

/-- **Scanning the bytes of a line** never fails, and reports the places that are reported of its
characters. -/
theorem feedBytes?_eq (scanner : Scanner) (line : List Char) :
    scanner.feedBytes? line = some ((scanner.feed line).1.inBytes line, (scanner.feed line).2) := by
  have hstart : SamePlace line [] line (start scanner) (ByteCursor.start scanner) :=
    ⟨rfl, rfl, rfl, rfl, rfl, rfl, rfl⟩
  exact hstart.walk

/-- A backslash in front of a character of two bytes, and one at the end of the line. -/
example : (forField.feedBytes? "\"\\é\", '\\é', \"\\".toList).map Prod.fst =
    some ⟨some 5, 16, none⟩ := by
  rw [feedBytes?_eq]
  decide

theorem feedAllBytes?_eq (scanner : Scanner) (lines : List (List Char)) :
    scanner.feedAllBytes? lines =
      some (List.zipWith (fun line report => (report.1.inBytes line, report.2)) lines
        (scanner.feedAll lines)) := by
  induction lines generalizing scanner with
  | nil => rfl
  | cons line lines ih =>
    rw [feedAllBytes?, feedBytes?_eq]
    dsimp only [Option.bind_eq_bind, Option.bind_some]
    rw [ih]
    rfl

end Scanner

end ModelMend
