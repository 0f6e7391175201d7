import ModelMend.Entity.FieldUnit
import ModelMend.Line.Kind
import ModelMend.Line.Scan

/-!
# The body of a model

```text
body      := segment*
segment   := unit | orphan | verbatim
unit      := leading* field
leading   := doc comment | attribute block | comment | blank line
field     := "pub" ... up to a comma at depth zero, or the end of the field
```

A field may follow an attribute block on its last line. A field without a comma at its end is over
when the next line that is neither blank nor a comment starts another unit, or when the body runs
out. Attribute blocks above a line without `pub` take that line as a loose field, but only if the
unit is dropped. When the body ends inside an attribute block or inside a field, or a unit is cut
short before its field, the lines collected for the unit are handed back as they are.

Every segment covers at least one line, so reading a body ends (`readSegment_rest_length`).
-/

namespace ModelMend

open Text

inductive Segment where
  | field (unit : FieldUnit)
  /-- A bare container outside any unit. -/
  | orphan (line : Line)
  /-- Lines that pass through unchanged, incomplete units included. -/
  | verbatim (lines : List Line)
deriving DecidableEq, Repr

namespace Body

/-- What comes after the leading items of a unit. -/
inductive LeadingEnd where
  /-- A line that starts a field. -/
  | field
  /-- The start of a field, on the last line of the last attribute block. -/
  | sharedLine (first : Line)
  /-- A line that is neither a field nor a leading item. -/
  | loose
  /-- The end of the body, perhaps inside an attribute block. -/
  | missing
deriving DecidableEq, Repr

/-- The lines of an attribute block that is still open, and the scanner after them. -/
structure OpenBlock where
  scanner : Scanner
  lines : List Line

/-- What was read in front of a field: the leading items, what comes after them, and the lines that
are left. -/
structure LeadingRun where
  items : List Leading
  ending : LeadingEnd
  rest : List Line
deriving DecidableEq, Repr

def LeadingRun.cons (item : Leading) (run : LeadingRun) : LeadingRun :=
  { run with items := item :: run.items }

/-- Reads the leading items of a unit. A block that is still open is carried along. -/
def readLeading (current : Option OpenBlock) : List Line → LeadingRun
  | [] => ⟨[], .missing, []⟩
  | line :: lines =>
    let kind := LineKind.of line
    if current.isNone && kind = .field then ⟨[], .field, line :: lines⟩
    else if current.isNone && (kind = .orphanRelation || kind = .other) then
      ⟨[], .loose, line :: lines⟩
    else if current.isNone && kind ≠ .attributeStart then (readLeading none lines).cons (.line line)
    else
      let opened := current.getD ⟨.forAttribute, []⟩
      let report := opened.scanner.feed line
      let close := report.1.closedAt.getD line.length
      if !report.2.isBalanced then readLeading (some ⟨report.2, opened.lines ++ [line]⟩) lines
      else if LineKind.of (line.drop close) = .field then
        ⟨[.block (opened.lines ++ [line.take close])], .sharedLine (line.drop close), lines⟩
      else (readLeading none lines).cons (.block (opened.lines ++ [line]))

/-- The next line that is neither blank nor a comment starts a unit, or there is none. -/
def unitStartsNext (lines : List Line) : Bool :=
  match (lines.map LineKind.of).find? fun kind => kind ≠ .blank && kind ≠ .comment with
  | some kind => kind.startsUnit
  | none => true

/-- A field is complete after the line that was just fed to the scanner. -/
def fieldComplete (report : LineScan × Scanner) (lines : List Line) : Bool :=
  report.1.topComma.isSome || (report.2.isBalanced && unitStartsNext lines)

/-- The lines of a field and the lines that are left after it. -/
structure FieldRun where
  field : List Line
  rest : List Line
deriving DecidableEq, Repr

def FieldRun.cons (line : Line) (run : FieldRun) : FieldRun :=
  { run with field := line :: run.field }

/-- Reads on in a field until it is complete. -/
def readField (scanner : Scanner) : List Line → Option FieldRun
  | [] => none
  | line :: lines =>
    let report := scanner.feed line
    if fieldComplete report lines then some ⟨[line], lines⟩
    else (readField report.2 lines).map (.cons line)

/-- Reads a field whose first line was split off an attribute block. -/
def readSharedField (first : Line) (lines : List Line) : Option FieldRun :=
  let report := Scanner.forField.feed first
  if fieldComplete report lines then some ⟨[first], lines⟩
  else (readField report.2 lines).map (.cons first)

/-- A loose field ends after these lines: at a comma at depth zero, or with all brackets closed
once the field has a type. -/
def looseComplete (report : LineScan × Scanner) (field : List Line) : Bool :=
  report.1.topComma.isSome ||
    (report.2.isBalanced &&
      (field.head?.any (LineKind.of · = .orphanRelation) || (fieldType field).isSome))

/-- A loose field: its lines, the scanner after them, and the lines that are left. -/
structure LooseRun where
  field : List Line
  scanner : Scanner
  rest : List Line
deriving DecidableEq, Repr

/-- Reads a loose field, given the lines of it so far and the scanner after them. -/
def readLoose (scanner : Scanner) (field : List Line) : List Line → LooseRun
  | [] => ⟨field, scanner, []⟩
  | line :: lines =>
    let kind := LineKind.of line
    if !field.isEmpty && scanner.isBalanced && kind ≠ .orphanRelation && kind ≠ .other then
      ⟨field, scanner, line :: lines⟩
    else
      let report := scanner.feed line
      if looseComplete report (field ++ [line]) then ⟨field ++ [line], report.2, lines⟩
      else readLoose report.2 (field ++ [line]) lines

/-- The lines of `all` in front of `rest`, which is the end of it. -/
def linesBefore (all rest : List Line) : List Line :=
  all.take (all.length - rest.length)

/-- A segment and the lines that are left after it. -/
structure SegmentRun where
  segment : Segment
  rest : List Line
deriving DecidableEq, Repr

/-- Reads the unit whose leading items have been read from `lines`. -/
def readUnit (lines : List Line) (read : LeadingRun) : SegmentRun :=
  match read.ending with
  | .missing => ⟨.verbatim lines, []⟩
  | .field =>
    match readField .forField read.rest with
    | some run => ⟨.field ⟨read.items, run.field, false⟩, run.rest⟩
    | none => ⟨.verbatim lines, []⟩
  | .sharedLine first =>
    match readSharedField first read.rest with
    | some run => ⟨.field ⟨read.items, run.field, true⟩, run.rest⟩
    | none => ⟨.verbatim lines, []⟩
  | .loose =>
    let run := readLoose .forField [] read.rest
    if run.scanner.isBalanced && FieldUnit.action ⟨read.items, run.field, false⟩ = .drop then
      ⟨.field ⟨read.items, run.field, false⟩, run.rest⟩
    else ⟨.verbatim (linesBefore lines read.rest), read.rest⟩

/-- Reads the next segment from a line and the lines after it. -/
def readSegment (line : Line) (lines : List Line) : SegmentRun :=
  let kind := LineKind.of line
  if kind.startsUnit then readUnit (line :: lines) (readLeading none (line :: lines))
  else if kind = .orphanRelation then ⟨.orphan line, lines⟩
  else ⟨.verbatim [line], lines⟩

theorem readLeading_rest_length (current : Option OpenBlock) (lines : List Line) :
    (readLeading current lines).rest.length ≤ lines.length := by
  induction lines generalizing current with
  | nil => simp [readLeading]
  | cons line lines ih =>
    unfold readLeading
    dsimp only
    split
    · simp
    · split
      · simp
      · split
        · exact Nat.le_succ_of_le (ih none)
        · split
          · exact Nat.le_succ_of_le (ih _)
          · split
            · simp
            · exact Nat.le_succ_of_le (ih none)

/-- The leading items of a unit take its first line, unless a field starts there. -/
theorem readLeading_rest_length_cons {line : Line} (lines : List Line)
    (h : (LineKind.of line).startsUnit = true) :
    (readLeading none (line :: lines)).ending = .field ∨
      (readLeading none (line :: lines)).rest.length ≤ lines.length := by
  unfold readLeading
  dsimp only
  split
  · exact Or.inl rfl
  · split
    · next hloose =>
      exfalso
      cases hk : LineKind.of line <;> simp_all [LineKind.startsUnit]
    · split
      · exact Or.inr (readLeading_rest_length none lines)
      · split
        · exact Or.inr (readLeading_rest_length _ lines)
        · split
          · exact Or.inr (Nat.le_refl _)
          · exact Or.inr (readLeading_rest_length none lines)

theorem readField_rest_length {scanner : Scanner} {lines : List Line} {run : FieldRun}
    (h : readField scanner lines = some run) : run.rest.length < lines.length := by
  induction lines generalizing scanner run with
  | nil => simp [readField] at h
  | cons line lines ih =>
    unfold readField at h
    dsimp only at h
    split at h
    · cases h
      exact Nat.lt_succ_self _
    · obtain ⟨more, hmore, rfl⟩ := Option.map_eq_some_iff.1 h
      have htail := ih hmore
      exact Nat.lt_succ_of_lt htail

theorem readSharedField_rest_length {first : Line} {lines : List Line} {run : FieldRun}
    (h : readSharedField first lines = some run) : run.rest.length ≤ lines.length := by
  unfold readSharedField at h
  dsimp only at h
  split at h
  · cases h
    exact Nat.le_refl _
  · obtain ⟨more, hmore, rfl⟩ := Option.map_eq_some_iff.1 h
    have htail := readField_rest_length hmore
    exact Nat.le_of_lt htail

theorem readLoose_rest_length (scanner : Scanner) (field lines : List Line) :
    (readLoose scanner field lines).rest.length ≤ lines.length := by
  induction lines generalizing scanner field with
  | nil => simp [readLoose]
  | cons line lines ih =>
    unfold readLoose
    dsimp only
    split
    · exact Nat.le_refl _
    · split
      · exact Nat.le_succ _
      · exact Nat.le_succ_of_le (ih _ _)

/-- A segment takes at least one line. -/
theorem readSegment_rest_length (line : Line) (lines : List Line) :
    (readSegment line lines).rest.length < (line :: lines).length := by
  unfold readSegment
  dsimp only
  split
  · next hstart =>
    have hbound := readLeading_rest_length none (line :: lines)
    have htake := readLeading_rest_length_cons lines hstart
    generalize readLeading none (line :: lines) = read at hbound htake
    unfold readUnit
    split
    · exact Nat.succ_pos _
    · split
      · next hrun => exact Nat.lt_of_lt_of_le (readField_rest_length hrun) hbound
      · exact Nat.succ_pos _
    · next hend =>
      have hrest := htake.resolve_left (by simp [hend])
      split
      · next hrun =>
        exact Nat.lt_succ_of_le (Nat.le_trans (readSharedField_rest_length hrun) hrest)
      · exact Nat.succ_pos _
    · next hend =>
      have hrest := htake.resolve_left (by simp [hend])
      dsimp only
      split
      · exact Nat.lt_succ_of_le (Nat.le_trans (readLoose_rest_length _ _ _) hrest)
      · exact Nat.lt_succ_of_le hrest
  · split <;> exact Nat.lt_succ_self _

def segments : List Line → List Segment
  | [] => []
  | line :: lines =>
    (readSegment line lines).segment :: segments (readSegment line lines).rest
termination_by lines => lines.length
decreasing_by exact readSegment_rest_length line lines

@[simp] theorem segments_nil : segments [] = [] := by
  simp [segments]

theorem segments_cons (line : Line) (lines : List Line) :
    segments (line :: lines) =
      (readSegment line lines).segment :: segments (readSegment line lines).rest := by
  rw [segments]

end Body

end ModelMend
