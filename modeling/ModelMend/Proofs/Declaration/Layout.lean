import ModelMend.Proofs.Declaration.Reading
import ModelMend.Proofs.Text.Lines

/-!
# Printed lines

The lines of a body with printed fields (`splitLines_bodyText`), and the fields that such lines
declare, some of them perhaps taken out (`declaredFields_lines`).
-/

namespace ModelMend

open Text

/-- A line with the fields of a row, the first of them perhaps behind a space. -/
structure PrintedLine where
  indented : Bool
  row : List Declaration

/-- The fields of a row, each behind a space. -/
def spaced (row : List Declaration) : List Char :=
  row.flatMap fun field => ' ' :: field.text

namespace PrintedLine

def lead (line : PrintedLine) : List Char :=
  if line.indented then [' '] else []

theorem lead_subset (line : PrintedLine) : line.lead ⊆ [' '] := by
  unfold lead
  split <;> simp

theorem lead_blank (line : PrintedLine) : ∀ c ∈ line.lead, isBlank c = true := by
  intro c hc
  rw [List.mem_singleton.1 (line.lead_subset hc)]
  decide

def text (line : PrintedLine) : Line :=
  line.lead ++ (spaced line.row).tail

/-- The rest of the opening line: its first field stands behind a space as well. -/
def opening (row : List Declaration) : PrintedLine :=
  ⟨!row.isEmpty, row⟩

/-- A line of its own. -/
def own (row : List Declaration) : PrintedLine :=
  ⟨false, row⟩

theorem text_opening (row : List Declaration) : (opening row).text = spaced row := by
  cases row with
  | nil => rfl
  | cons field row => rfl

/-- A line with a field in front: blanks, that field, and what follows it. -/
theorem text_cons {line : PrintedLine} {field : Declaration} {row : List Declaration}
    (h : line.row = field :: row) : line.text = line.lead ++ (field.text ++ spaced row) := by
  rw [text, h]
  rfl

theorem text_nil {line : PrintedLine} (h : line.row = []) : line.text = line.lead := by
  rw [text, h]
  exact List.append_nil _

end PrintedLine

/-- The lines of a body with these fields. -/
def printedLines (items : List (Gap × Declaration)) : List PrintedLine :=
  .opening ((rows items).headD []) :: (rows items).tail.map .own

theorem rows_eq (items : List (Gap × Declaration)) :
    rows items = (rows items).headD [] :: (rows items).tail := by
  cases items with
  | nil => rfl
  | cons item items =>
    obtain ⟨gap, field⟩ := item
    cases gap <;> rfl

theorem printedLines_row (items : List (Gap × Declaration)) :
    (printedLines items).map PrintedLine.row = rows items := by
  rw [printedLines, List.map_cons, List.map_map]
  have hown : PrintedLine.row ∘ PrintedLine.own = id := rfl
  rw [hown, List.map_id, PrintedLine.opening]
  exact (rows_eq items).symm

theorem rows_flatten (items : List (Gap × Declaration)) :
    (rows items).flatten = items.map Prod.snd := by
  induction items with
  | nil => rfl
  | cons item items ih =>
    obtain ⟨gap, field⟩ := item
    rw [rows_eq items] at ih
    cases gap <;> simpa [rows] using ih

/-! ## Splitting into lines -/

/-- The signs of a printed declaration. -/
def declarationSigns : List Char :=
  ['#', '\'', '<', '>', ',', ':', ' ']

/-- No printed declaration holds the character. -/
def Foreign (c : Char) : Prop :=
  isIdentContinue c = false ∧ c ∉ declarationSigns

section

variable {c : Char} (h : Foreign c)

include h in
theorem Identifier.foreign_notMem (name : Identifier) : c ∉ name.text := by
  intro hmem
  rcases Identifier.mem_text hmem with hident | rfl
  · rw [h.1] at hident
    cases hident
  · exact h.2 (by decide)

include h in
theorem TypeSyntax.foreign_notMem {part : TypePart} (type : TypeSyntax part) : c ∉ type.text := by
  have hsigns {text : List Char} (htext : text ⊆ declarationSigns) : c ∉ text :=
    fun hmem => h.2 (htext hmem)
  have hcolons : c ∉ "::".toList := hsigns (by decide)
  have hcomma : c ∉ ", ".toList := hsigns (by decide)
  have hopening : c ∉ ['<'] := hsigns (by decide)
  have hclosing : c ∉ ['>'] := hsigns (by decide)
  have hquote : c ∉ ['\''] := hsigns (by decide)
  induction type with
  | last segment ih => exact ih
  | nested segment path ihSegment ihPath =>
    exact List.not_mem_append (List.not_mem_append ihSegment hcolons) ihPath
  | keyword word =>
    intro hmem
    have hident := PathKeyword.mem_text hmem
    rw [h.1] at hident
    cases hident
  | plain name => exact name.foreign_notMem h
  | generic name arguments ih =>
    have hfront := List.not_mem_append (name.foreign_notMem h) hopening
    exact List.not_mem_append (List.not_mem_append hfront ih) hclosing
  | one argument ih => exact ih
  | more argument arguments ihArgument ihArguments =>
    exact List.not_mem_append (List.not_mem_append ihArgument hcomma) ihArguments
  | lifetime name => exact List.not_mem_append hquote (name.foreign_notMem h)
  | typed type ih => exact ih
  | relative path ih => exact ih
  | absolute path ih => exact List.not_mem_append hcolons ih

include h in
theorem Declaration.foreign_notMem (field : Declaration) : c ∉ field.text := by
  have hfixed {text : List Char} (htext : text ⊆ "pub".toList ++ declarationSigns) : c ∉ text := by
    intro hmem
    rcases List.mem_append.1 (htext hmem) with hpub | hsign
    · have hident : "pub".toList.all isIdentContinue = true := by decide
      exact absurd (List.all_eq_true.1 hident c hpub) (Bool.eq_false_iff.1 h.1)
    · exact h.2 hsign
  have hname : c ∉ "pub ".toList ++ field.name.text :=
    List.not_mem_append (hfixed (by decide)) (field.name.foreign_notMem h)
  have hcolon : c ∉ "pub ".toList ++ field.name.text ++ ": ".toList :=
    List.not_mem_append hname (hfixed (by decide))
  exact List.not_mem_append (List.not_mem_append hcolon (field.type.foreign_notMem h))
    (hfixed (by decide))

include h in
theorem PrintedLine.foreign_notMem (line : PrintedLine) : c ∉ line.text := by
  have hspace : c ≠ ' ' := by
    rintro rfl
    exact h.2 (by decide)
  have hspaced : c ∉ spaced line.row := by
    intro hmem
    obtain ⟨field, -, hfield⟩ := List.mem_flatMap.1 hmem
    rcases List.mem_cons.1 hfield with heq | hfield
    · exact hspace heq
    · exact field.foreign_notMem h hfield
  intro hmem
  rcases List.mem_append.1 hmem with hmem | hmem
  · exact hspace (List.mem_singleton.1 (line.lead_subset hmem))
  · exact hspaced (List.mem_of_mem_tail hmem)

end

theorem newline_foreign : Foreign '\n' := by
  constructor <;> decide

theorem splitLines_append_of_notMem {front : List Char} (hfront : '\n' ∉ front) {text line : List Char}
    {lines : List (List Char)} (h : splitLines text = line :: lines) :
    splitLines (front ++ text) = (front ++ line) :: lines := by
  induction front with
  | nil => exact h
  | cons c front ih =>
    have hc : c ≠ '\n' := fun e => hfront (e ▸ List.mem_cons_self)
    have hmore : '\n' ∉ front := fun hmem => hfront (List.mem_cons_of_mem c hmem)
    rw [List.cons_append, splitLines, if_neg hc, ih hmore]
    rfl

/-- **The lines of a printed body.** -/
theorem splitLines_bodyText (items : List (Gap × Declaration)) :
    splitLines (bodyText items) = (printedLines items).map PrintedLine.text := by
  have hlines (items : List (Gap × Declaration)) : (printedLines items).map PrintedLine.text =
      spaced ((rows items).headD []) :: (rows items).tail.map fun row => (spaced row).tail := by
    rw [printedLines, List.map_cons, List.map_map, PrintedLine.text_opening]
    rfl
  rw [hlines]
  induction items with
  | nil => rfl
  | cons item items ih =>
    obtain ⟨gap, field⟩ := item
    have hfield := splitLines_append_of_notMem (field.foreign_notMem newline_foreign) ih
    cases gap with
    | space =>
      have hspace := splitLines_append_of_notMem (by decide : '\n' ∉ [' ']) hfield
      exact hspace
    | lineBreak =>
      have hbreak : splitLines (bodyText ((.lineBreak, field) :: items)) =
          [] :: splitLines (field.text ++ bodyText items) := rfl
      rw [hbreak, hfield]
      rfl

/-! ## The fields of printed lines -/

theorem declaredFrom_blank {lead text : List Char} (htext : ∀ c ∈ text, isBlank c = true)
    (rest : List Char) : declaredFrom 0 lead (text ++ rest) = declaredFrom 0 (lead ++ text) rest :=
  declaredFrom_plain fun c hc hmem =>
    notMem_marks_of_isBlank (htext c hc) (List.mem_cons_of_mem ':' hmem)

/-- Blanks alone declare nothing. -/
theorem declaredFrom_nil {lead : List Char} (hlead : ∀ c ∈ lead, isBlank c = true) :
    declaredFrom 0 lead [] = [] := by
  have htrim : trimStart lead = [] := by
    rw [← List.append_nil lead, trimStart_append_of_blank hlead]
    rfl
  rw [declaredFrom, trim, htrim]
  rfl

/-- The text in front of the rest declares these fields, and leaves no more than blanks behind. -/
def Declares (text : List Char) (fields : List Declaration) : Prop :=
  ∀ lead rest, (∀ c ∈ lead, isBlank c = true) → ∃ left, (∀ c ∈ left, isBlank c = true) ∧
    declaredFrom 0 lead (text ++ rest) =
      fields.map Declaration.text ++ declaredFrom 0 left rest

namespace Declares

theorem blank {text : List Char} (htext : ∀ c ∈ text, isBlank c = true) : Declares text [] := by
  intro lead rest hlead
  refine ⟨lead ++ text, ?_, declaredFrom_blank htext rest⟩
  intro c hc
  rcases List.mem_append.1 hc with hc | hc
  · exact hlead c hc
  · exact htext c hc

theorem field (field : Declaration) : Declares field.text [field] := by
  intro lead rest hlead
  refine ⟨[], ?_, field.declaredFrom_text hlead⟩
  intro c hc
  cases hc

theorem append {front back : List Char} {first second : List Declaration}
    (hfront : Declares front first) (hback : Declares back second) :
    Declares (front ++ back) (first ++ second) := by
  intro lead rest hlead
  obtain ⟨middle, hmiddle, heq⟩ := hfront lead (back ++ rest) hlead
  obtain ⟨left, hleft, heq'⟩ := hback middle rest hmiddle
  refine ⟨left, hleft, ?_⟩
  rw [List.append_assoc, heq, heq', List.map_append, List.append_assoc]

theorem spaced (row : List Declaration) : Declares (spaced row) row := by
  have hspace : ∀ c ∈ [' '], isBlank c = true := List.all_eq_true.1 (by decide)
  induction row with
  | nil => exact blank fun c hc => by cases hc
  | cons field row ih => exact ((blank hspace).append (.field field)).append ih

theorem line (line : PrintedLine) : Declares line.text line.row := by
  cases hrow : line.row with
  | nil =>
    rw [PrintedLine.text_nil hrow]
    exact blank line.lead_blank
  | cons field row =>
    rw [PrintedLine.text_cons hrow]
    exact (blank line.lead_blank).append ((Declares.field field).append (.spaced row))

theorem lines (lines : List PrintedLine) :
    Declares (joinLines (lines.map PrintedLine.text)) (lines.flatMap PrintedLine.row) := by
  have hbreak : ∀ c ∈ ['\n'], isBlank c = true := List.all_eq_true.1 (by decide)
  induction lines with
  | nil => exact blank fun c hc => by cases hc
  | cons first lines ih =>
    cases lines with
    | nil =>
      have hfirst := Declares.line first
      rwa [← List.append_nil first.row] at hfirst
    | cons second lines => exact (Declares.line first).append ((blank hbreak).append ih)

end Declares

/-- **What printed lines declare** are their fields, in order. -/
theorem declaredFields_lines (lines : List PrintedLine) :
    declaredFields (joinLines (lines.map PrintedLine.text)) =
      (lines.flatMap PrintedLine.row).map Declaration.text := by
  obtain ⟨left, hleft, heq⟩ := Declares.lines lines [] [] fun c hc => by cases hc
  rw [declaredFrom_nil hleft, List.append_nil, List.append_nil] at heq
  exact heq

end ModelMend
