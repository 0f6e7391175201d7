import ModelMend.Entity.Body
import ModelMend.Proofs.Line.Places

/-!
# Slices of the lines of a body

The type of a field is cut out of its lines, and an attribute block is cut off the field that shares its
last line, at places that a scanner reports in bytes. No such slice fails, and what comes of them is what
is read from characters (`fieldTypeSlice?_eq`, `Body.readBlock?_eq`).
-/

namespace ModelMend

open Text

/-! ## The declared type of a field -/

theorem sliceTo?_byteOffset_code (scan : LineScan) (line : List Char) :
    sliceTo? line ((scan.inBytes line).topComma.getD (scan.inBytes line).codeEnd) =
      some (line.take (scan.topComma.getD scan.codeEnd)) := by
  rw [← sliceTo?_byteOffset]
  cases scan with
  | mk topComma codeEnd closedAt => cases topComma <;> rfl

theorem declarationSlices?_eq (scanner : Scanner) (lines : List (List Char)) :
    declarationSlices? scanner lines = some (declarationCode scanner lines) := by
  induction lines generalizing scanner with
  | nil => rfl
  | cons line lines ih =>
    rw [declarationSlices?, declarationCode, scanner.feedBytes?_eq]
    dsimp only [Option.bind_eq_bind, Option.bind_some]
    rw [sliceTo?_byteOffset_code, Option.bind_some, ih]
    cases (scanner.feed line).1 with
    | mk topComma codeEnd closedAt => cases topComma <;> rfl

section

variable {bytes : Bytes} {depth place : Nat}

theorem colonFrom?_not_ascii {high : Bytes} (h : ∀ byte ∈ high, 128 ≤ byte.toNat) (rest : Bytes) :
    colonFrom? bytes depth place (high ++ rest) =
      colonFrom? bytes depth (place + high.length) rest := by
  induction high generalizing place with
  | nil => rfl
  | cons byte high ih =>
    obtain ⟨hbyte, hhigh⟩ := List.forall_mem_cons.1 h
    rw [List.cons_append, colonFrom?]
    simp (disch := decide) only [beq_toUInt8_of_not_ascii hbyte, Bool.false_eq_true, ↓reduceIte,
      Bool.false_and]
    rw [ih hhigh, List.length_cons, Nat.add_right_comm, Nat.add_assoc]

end

/-- **The colon is looked for** among the bytes as among the characters. -/
theorem colonFrom?_eq (front rest : List Char) (depth : Nat) :
    (colonFrom? (encode (front ++ rest)) depth (byteLength front) (encode rest) = some none ∧
        afterFieldColon front.getLast? depth rest = none) ∨
      ∃ before behind, front ++ rest = before ++ ':' :: behind ∧
        colonFrom? (encode (front ++ rest)) depth (byteLength front) (encode rest) =
          some (some (byteLength before)) ∧
        afterFieldColon front.getLast? depth rest = some behind := by
  induction rest generalizing front depth with
  | nil => exact Or.inl ⟨rfl, rfl⟩
  | cons c rest ih =>
    have hnext (depth : Nat) := ih (front ++ [c]) depth
    simp only [List.append_assoc, List.singleton_append, byteLength_append, byteLength_cons,
      byteLength_nil, Nat.add_zero, List.getLast?_concat] at hnext
    by_cases hc : ¬c.val.toNat ≤ 127
    · have hstep : afterFieldColon front.getLast? depth (c :: rest) =
          afterFieldColon (some c) depth rest := by
        simp (disch := decide) [afterFieldColon, ne_of_not_ascii hc]
      rw [encode_cons c rest, colonFrom?_not_ascii fun _ => le_of_mem_utf8EncodeChar hc,
        String.length_utf8EncodeChar, hstep]
      exact hnext depth
    have hascii : c.val.toNat ≤ 127 := Decidable.not_not.1 hc
    have hcolon : ':'.val.toNat ≤ 127 := by decide
    have hdouble := comesBehind?_eq hcolon front (c :: rest)
    have hbehind := beq_encode_behind hascii front rest hcolon
    rw [utf8Size_of_ascii hascii] at hnext
    rw [encode_cons c rest, utf8EncodeChar_of_ascii hascii, List.singleton_append, colonFrom?,
      afterFieldColon, bne, bne, bne, hbehind, hdouble]
    simp (disch := first | assumption | decide) only [toUInt8_beq]
    by_cases hopen : (c == '(') = true
    · rw [if_pos hopen, if_pos hopen]
      exact hnext (depth + 1)
    rw [if_neg hopen, if_neg hopen]
    by_cases hclose : (c == ')') = true
    · rw [if_pos hclose, if_pos hclose]
      exact hnext (depth - 1)
    rw [if_neg hclose, if_neg hclose]
    -- a colon that stands alone, unless the character in front of it is one
    cases hsingle : c == ':' && depth == 0 && !rest.head? == some ':' with
    | false => exact hnext depth
    | true =>
      cases hlast : front.getLast? == some ':' with
      | true => exact hnext depth
      | false =>
        obtain rfl : c = ':' := by grind
        exact Or.inr ⟨front, rest, rfl, rfl, rfl⟩

/-- What stands behind the place that is found is what the characters go on with. -/
theorem colonPlace?_eq (code : List Char) :
    ∃ found, colonPlace? code = some found ∧
      (found.map fun place => sliceFrom? code (place + 1)) =
        (afterFieldColon none 0 code).map some := by
  rcases colonFrom?_eq [] code 0 with ⟨hplace, hcolon⟩ | ⟨before, behind, hcode, hplace, hcolon⟩
  · exact ⟨none, hplace, (congrArg (Option.map some) hcolon).symm⟩
  · have hslice : sliceFrom? code (byteLength before + 1) = some behind := by
      rw [List.nil_append] at hcode
      rw [hcode, sliceFrom?_behind (by decide)]
    refine ⟨_, hplace, ?_⟩
    rw [Option.map_some, hslice]
    exact (congrArg (Option.map some) hcolon).symm

theorem fieldTypeSlice?_eq (lines : List (List Char)) :
    fieldTypeSlice? lines = some (fieldType lines) := by
  obtain ⟨found, hfound, hslice⟩ := colonPlace?_eq (declarationCode .forField lines)
  rw [fieldTypeSlice?, fieldType, declarationSlices?_eq]
  dsimp only [Option.bind_eq_bind, Option.bind_some]
  rw [hfound, Option.bind_some]
  cases found with
  | none =>
    rw [Option.map_none, eq_comm, Option.map_eq_none_iff] at hslice
    rw [hslice]
    rfl
  | some place =>
    obtain ⟨text, htext, hplace⟩ := Option.map_eq_some_iff.1 hslice.symm
    dsimp only at hplace ⊢
    rw [htext, ← hplace]
    rfl

/-! ## Attribute blocks -/

namespace Body

/-- What is read as an attribute block. -/
inductive BlockRun where
  /-- The lines run out before the block is closed. -/
  | unclosed
  /-- The lines of the block and the lines that are left. -/
  | closed (block rest : List Line)
  /-- A block whose last line goes on with the first line of a field. -/
  | shared (block : List Line) (first : Line) (rest : List Line)

/-- Reads on in an attribute block, whose last line is cut at the place that is reported of it. -/
def readBlock? (opened : OpenBlock) : List Line → Option BlockRun
  | [] => some .unclosed
  | line :: lines => do
    let (scan, scanner) ← opened.scanner.feedBytes? line
    if scanner.isBalanced then
      let close := scan.closedAt.getD (encode line).length
      let behind ← sliceFrom? line close
      if LineKind.of behind = .field then
        return .shared (opened.lines ++ [← sliceTo? line close]) behind lines
      else return .closed (opened.lines ++ [line]) lines
    else readBlock? ⟨scanner, opened.lines ++ [line]⟩ lines

/-- The leading items from a block on. -/
def BlockRun.leading : BlockRun → LeadingRun
  | unclosed => ⟨[], .missing, []⟩
  | closed block rest => (readLeading none rest).cons (.block block)
  | shared block first rest => ⟨[.block block], .sharedLine first, rest⟩

theorem closingOffset_eq (scan : LineScan) (line : Line) :
    (scan.inBytes line).closedAt.getD (encode line).length =
      byteOffset line (scan.closedAt.getD line.length) := by
  cases scan with
  | mk topComma codeEnd closedAt =>
    cases closedAt with
    | none => exact (length_encode line).trans (byteOffset_length line).symm
    | some place => rfl

theorem readBlock?_eq (opened : OpenBlock) (lines : List Line) :
    ∃ run, readBlock? opened lines = some run ∧ readLeading (some opened) lines = run.leading := by
  induction lines generalizing opened with
  | nil => exact ⟨.unclosed, rfl, rfl⟩
  | cons line lines ih =>
    rw [readBlock?, readLeading, opened.scanner.feedBytes?_eq]
    dsimp only [Option.bind_eq_bind, Option.bind_some]
    rw [closingOffset_eq, sliceFrom?_byteOffset, sliceTo?_byteOffset]
    cases hclosed : (opened.scanner.feed line).2.isBalanced with
    | false => simpa [hclosed] using ih ⟨(opened.scanner.feed line).2, opened.lines ++ [line]⟩
    | true =>
      by_cases hfield :
          LineKind.of (line.drop ((opened.scanner.feed line).1.closedAt.getD line.length)) = .field
      · simp [hclosed, hfield, BlockRun.leading]
      · simp [hclosed, hfield, BlockRun.leading]

/-- **Offsets are safe to slice at**, whatever the lines hold and in whatever state a scanner comes to
them. It reads their bytes without asking for one that is not there or for a slice inside a character,
and what it reports are boundaries with the bytes that they were reported for. So a field is given its
type, a colon is found, and an attribute block is cut, as they are on characters. -/
theorem offsets_safe (scanner : Scanner) (lines : List Line) :
    (∃ reports, scanner.feedAllBytes? lines = some reports ∧
      reports = List.zipWith (fun line report => (report.1.inBytes line, report.2)) lines
        (scanner.feedAll lines) ∧
      ∀ line report, (line, report) ∈ lines.zip reports → report.1.SafeIn line) ∧
    fieldTypeSlice? lines = some (fieldType lines) ∧
    (∀ code, ∃ found, colonPlace? code = some found ∧
      (found.map fun place => sliceFrom? code (place + 1)) =
        (afterFieldColon none 0 code).map some) ∧
    ∀ taken, ∃ run, readBlock? ⟨scanner, taken⟩ lines = some run ∧
      readLeading (some ⟨scanner, taken⟩) lines = run.leading :=
  ⟨scanner.feedAllBytes?_safeIn lines, fieldTypeSlice?_eq lines, colonPlace?_eq,
    fun taken => readBlock?_eq ⟨scanner, taken⟩ lines⟩

end Body

end ModelMend
