import ModelMend.Proofs.Declaration.Layout
import ModelMend.Proofs.Source.Parts

/-!
# Mending printed fields

A printed line is one segment of a body, whatever fields stand on it: it stays or goes with the first
of them (`mendBody_lines`). So the fields that are left are those of the lines with another kind
of field in front, and they are the right ones exactly if no line mixes relationship fields with
others (`mendModel_declares_iff`).
-/

namespace ModelMend

open Text

/-- The type of the field is a relationship container. -/
def Declaration.isRelation (field : Declaration) : Bool :=
  field.type.isContainer

/-- The first field of the line is a relationship field. -/
def PrintedLine.opensRelation (line : PrintedLine) : Bool :=
  line.row.head?.any Declaration.isRelation

/-! ## One line -/

namespace Body

/-- A line that starts a field and ends it is a unit of its own. -/
theorem readSegment_of_topComma {line : Line} (hkind : LineKind.of line = .field)
    (hcomma : (Scanner.forField.feed line).1.topComma.isSome = true) (lines : List Line) :
    readSegment line lines = ⟨.field ⟨[], [line], false⟩, lines⟩ := by
  have hleading : readLeading none (line :: lines) = ⟨[], .field, line :: lines⟩ := by
    simp [readLeading, hkind]
  have hfield : readField .forField (line :: lines) = some ⟨[line], lines⟩ := by
    simp [readField, fieldComplete, hcomma]
  simp only [readSegment, hkind, LineKind.startsUnit, ↓reduceIte, readUnit, hleading, hfield]

/-- A line with fields on it is a unit of its own. -/
theorem readSegment_field {line : PrintedLine} (h : line.row ≠ []) (lines : List Line) :
    readSegment line.text lines = ⟨.field ⟨[], [line.text], false⟩, lines⟩ := by
  obtain ⟨field, row, hrow⟩ := List.exists_cons_of_ne_nil h
  have hkind := @Declaration.kind_line line.lead (spaced row) field line.lead_blank
  have hcomma := @Declaration.topComma_line line.lead (spaced row) field line.lead_blank
  rw [← PrintedLine.text_cons hrow] at hkind hcomma
  exact readSegment_of_topComma hkind (by rw [hcomma]; rfl) lines

theorem readSegment_blank {line : PrintedLine} (h : line.row = []) (lines : List Line) :
    readSegment line.text lines = ⟨.verbatim [line.text], lines⟩ := by
  have hkind : LineKind.of line.text = .blank := by
    have htrim : trimStart (line.lead ++ []) = [] := trimStart_append_of_blank line.lead_blank
    rw [List.append_nil] at htrim
    rw [PrintedLine.text_nil h, LineKind.of, trim, htrim]
    rfl
  simp [readSegment, hkind, LineKind.startsUnit]

end Body

/-- Such a line is dropped if its declared type is a relationship, and kept otherwise. -/
theorem action_of_kind {line : Line} (hkind : LineKind.of line = .field) :
    FieldUnit.action ⟨[], [line], false⟩ =
      if (fieldType [line]).any isRelationType then .drop else .keep := by
  have hrelation : FieldUnit.isRelationField ⟨[], [line], false⟩ = (fieldType [line]).any isRelationType := by
    simp [FieldUnit.isRelationField, FieldUnit.declaredType, hkind]
  unfold FieldUnit.action
  rw [hrelation]
  cases (fieldType [line]).any isRelationType <;> rfl

/-- Writing such a line keeps it or leaves it out. -/
theorem write_unit_line {line : Line} (hkind : LineKind.of line = .field) (out : BodyMend) :
    (out.write (.field ⟨[], [line], false⟩)).lines =
      out.lines ++ (if (fieldType [line]).any isRelationType then [] else [line]) := by
  have haction := action_of_kind hkind
  cases hrelation : (fieldType [line]).any isRelationType <;>
    simp [BodyMend.write, haction, hrelation, FieldUnit.renderInto]

/-- Writing a printed line keeps it or leaves it out. -/
theorem write_readSegment_line (line : PrintedLine) (lines : List Line) (out : BodyMend) :
    (out.write (Body.readSegment line.text lines).segment).lines =
      out.lines ++ (if line.opensRelation then [] else [line.text]) := by
  cases hrow : line.row with
  | nil =>
    rw [Body.readSegment_blank hrow]
    simp [BodyMend.write, PrintedLine.opensRelation, hrow]
  | cons field row =>
    have hkind := @Declaration.kind_line line.lead (spaced row) field line.lead_blank
    have htype := @Declaration.fieldType_line line.lead (spaced row) field line.lead_blank
    rw [← PrintedLine.text_cons hrow] at hkind htype
    rw [Body.readSegment_field (by simp [hrow]), write_unit_line hkind, htype, Option.any_some,
      field.type.isRelationType_text]
    simp [PrintedLine.opensRelation, hrow, Declaration.isRelation]

/-! ## All lines -/

theorem readSegment_line_rest (line : PrintedLine) (lines : List Line) :
    (Body.readSegment line.text lines).rest = lines := by
  by_cases hrow : line.row = []
  · rw [Body.readSegment_blank hrow]
  · rw [Body.readSegment_field hrow]

/-- What is written of lines that are each a segment of their own, kept or left out. -/
theorem foldl_write_own_lines {α : Type} {text : α → Line} {goes : α → Bool} {items : List α}
    (hrest : ∀ item ∈ items, ∀ lines, (Body.readSegment (text item) lines).rest = lines)
    (hwrite : ∀ item ∈ items, ∀ lines (out : BodyMend),
      (out.write (Body.readSegment (text item) lines).segment).lines =
        out.lines ++ (if goes item then [] else [text item]))
    (out : BodyMend) : ((Body.segments (items.map text)).foldl BodyMend.write out).lines =
      out.lines ++ (items.filter (!goes ·)).map text := by
  induction items generalizing out with
  | nil => simp
  | cons item items ih =>
    obtain ⟨hfirst, hmore⟩ := List.forall_mem_cons.1 hrest
    obtain ⟨hfirstWrite, hmoreWrite⟩ := List.forall_mem_cons.1 hwrite
    rw [List.map_cons, Body.segments_cons, List.foldl_cons, hfirst, ih hmore hmoreWrite, hfirstWrite,
      List.append_assoc]
    cases hgoes : goes item <;> simp [hgoes]

/-- **Mending keeps the lines** with no relationship field in front, as they are. -/
theorem mendBody_lines (stats : MendStats) (lines : List PrintedLine) :
    (mendBody stats (lines.map PrintedLine.text)).lines =
      (lines.filter (!·.opensRelation)).map PrintedLine.text :=
  foldl_write_own_lines (fun line _ more => readSegment_line_rest line more)
    (fun line _ more out => write_readSegment_line line more out) _

/-! ## Fields -/

section

variable {α : Type} (p : α → Bool)

theorem filter_flatten_sublist (rows : List (List α)) (keeps : List α → Bool) :
    (rows.filter keeps).flatten.Sublist rows.flatten := by
  induction rows with
  | nil => exact List.Sublist.refl _
  | cons row rows ih =>
    rw [List.filter_cons]
    split
    · exact (List.Sublist.refl row).append ih
    · exact ih.trans (List.sublist_append_right row rows.flatten)

theorem uniform_iff (first : α) (more : List α) :
    (∀ a ∈ first :: more, ∀ b ∈ first :: more, p a = p b) ↔
      ∀ a ∈ first :: more, p a = p first := by
  constructor
  · exact fun h a ha => h a ha first List.mem_cons_self
  · intro h a ha b hb
    rw [h a ha, h b hb]

/-- Where what is kept of some rows is all that is left, nothing was left in front of them. -/
theorem filter_eq_nil_of_sublist {front kept rest : List α} (hkept : kept.Sublist rest)
    (h : kept = front.filter p ++ rest.filter p) : front.filter p = [] := by
  have hpass : ∀ a ∈ kept, p a = true := by
    intro a ha
    rw [h, ← List.filter_append] at ha
    exact (List.mem_filter.1 ha).2
  have hsublist := hkept.filter p
  rw [List.filter_eq_self.2 hpass] at hsublist
  have hle := hsublist.length_le
  have hlength := congrArg List.length h
  rw [List.length_append] at hlength
  exact List.eq_nil_of_length_eq_zero (by omega)

/-- Where a row and what is kept of the others is all that is left, the whole row was left. -/
theorem filter_eq_self_of_append {front kept rest : List α}
    (h : front ++ kept = front.filter p ++ rest.filter p) : front.filter p = front := by
  refine List.filter_eq_self.2 fun a ha => ?_
  have hmem : a ∈ front ++ kept := List.mem_append_left kept ha
  rw [h, ← List.filter_append] at hmem
  exact (List.mem_filter.1 hmem).2

/-- Rows that go with their first element leave the same elements as taking them out one by one
exactly if no row is mixed. -/
theorem flatten_filter_head_iff (rows : List (List α)) :
    (rows.filter fun row => !row.head?.any p).flatten = rows.flatten.filter (!p ·) ↔
      ∀ row ∈ rows, ∀ a ∈ row, ∀ b ∈ row, p a = p b := by
  induction rows with
  | nil => simp
  | cons row rows ih =>
    rw [List.filter_cons, List.flatten_cons, List.filter_append, List.forall_mem_cons, ← ih]
    cases row with
    | nil => simp
    | cons first more =>
      rw [uniform_iff, List.head?_cons, Option.any_some]
      cases hfirst : p first with
      | true =>
        -- the row goes: nothing of it may be left on the right
        have hrow : (first :: more).filter (!p ·) = [] ↔ ∀ a ∈ first :: more, p a = true := by
          simp [List.filter_eq_nil_iff]
        rw [Bool.not_true, if_neg Bool.false_ne_true, ← hrow]
        constructor
        · intro h
          have hnone := filter_eq_nil_of_sublist (!p ·) (filter_flatten_sublist rows _) h
          refine ⟨hnone, ?_⟩
          rwa [hnone, List.nil_append] at h
        · rintro ⟨hnone, h⟩
          rw [hnone, List.nil_append]
          exact h
      | false =>
        -- the row stays: all of it must be left on the right
        have hrow : (first :: more).filter (!p ·) = first :: more ↔
            ∀ a ∈ first :: more, p a = false := by
          simp [List.filter_eq_self]
        rw [Bool.not_false, if_pos rfl, List.flatten_cons, ← hrow]
        constructor
        · intro h
          have hpass := filter_eq_self_of_append (!p ·) h
          refine ⟨hpass, ?_⟩
          rw [hpass] at h
          exact List.append_cancel_left h
        · rintro ⟨hpass, h⟩
          rw [hpass, h]

end

/-- No line mixes relationship fields with other fields. -/
def Unmixed (rows : List (List Declaration)) : Prop :=
  ∀ row ∈ rows, ∀ field ∈ row, ∀ other ∈ row, field.isRelation = other.isRelation

instance (rows : List (List Declaration)) : Decidable (Unmixed rows) :=
  inferInstanceAs (Decidable (∀ row ∈ rows, ∀ field ∈ row, ∀ other ∈ row,
    field.isRelation = other.isRelation))

/-- Whether a field is a relationship can be read off its text. -/
theorem Declaration.isRelation_eq (field : Declaration) :
    (fieldType [field.text]).any isRelationType = field.isRelation := by
  have htype := @Declaration.fieldType_line [] [] field fun c hc => by cases hc
  rw [List.nil_append, List.append_nil] at htype
  rw [htype, Option.any_some]
  exact field.type.isRelationType_text

/-- The lines that mending keeps. -/
def keptLines (items : List (Gap × Declaration)) : List PrintedLine :=
  (printedLines items).filter (!·.opensRelation)

theorem keptLines_row (items : List (Gap × Declaration)) :
    (keptLines items).flatMap PrintedLine.row =
      ((rows items).filter fun row => !row.head?.any Declaration.isRelation).flatten := by
  rw [← printedLines_row, List.filter_map, ← List.flatMap_def]
  rfl

/-- The lines that are kept declare the right fields exactly if no line is mixed. -/
theorem declaredFields_keptLines_iff (items : List (Gap × Declaration)) :
    declaredFields (joinLines ((keptLines items).map PrintedLine.text)) =
        ((items.map Prod.snd).filter (!·.isRelation)).map Declaration.text ↔
      Unmixed (rows items) := by
  have hiff := flatten_filter_head_iff (fun text => (fieldType [text]).any isRelationType)
    ((rows items).map (·.map Declaration.text))
  have hhead : ((fun row => !row.head?.any fun text => (fieldType [text]).any isRelationType) ∘
      fun row : List Declaration => row.map Declaration.text) =
        fun row => !row.head?.any Declaration.isRelation := by
    funext row
    cases row with
    | nil => rfl
    | cons field row => exact congrArg _ field.isRelation_eq
  have hfield : ((fun text => !(fieldType [text]).any isRelationType) ∘ Declaration.text) =
      fun field => !field.isRelation := by
    funext field
    exact congrArg _ field.isRelation_eq
  rw [declaredFields_lines, keptLines_row, ← rows_flatten]
  rw [List.filter_map, ← List.map_flatten, ← List.map_flatten, List.filter_map, hhead, hfield] at hiff
  rw [hiff]
  simp only [Unmixed, List.forall_mem_map, Declaration.isRelation_eq]

theorem brace_foreign : Foreign '\x7d' := by
  constructor <;> decide

theorem isClosing_line (line : PrintedLine) : isClosing line.text = false := by
  rw [isClosing, beq_eq_false_iff_ne]
  intro h
  have hmem : '\x7d' ∈ trimEnd line.text := by
    rw [h]
    exact List.mem_cons_self
  exact line.foreign_notMem brace_foreign ((trimEnd_sublist line.text).subset hmem)

/-- The model around printed lines is found again. -/
theorem find?_withBody_lines {text : List Char} {parts : ModelParts}
    (hfind : ModelParts.find? text = some parts) (lines : List PrintedLine) :
    ∃ body, ModelParts.find? (parts.withBody (lines.map PrintedLine.text)) =
        some { parts with body := body } ∧
      joinLines body = joinLines (lines.map PrintedLine.text) := by
  have hnewline : ∀ line ∈ lines.map PrintedLine.text, '\n' ∉ line := by
    intro line hline
    obtain ⟨printed, -, rfl⟩ := List.mem_map.1 hline
    exact printed.foreign_notMem newline_foreign
  have hclosing : ∀ line ∈ lines.map PrintedLine.text, isClosing line = false := by
    intro line hline
    obtain ⟨printed, -, rfl⟩ := List.mem_map.1 hline
    exact isClosing_line printed
  cases lines with
  | nil =>
    -- a body without lines reads as one with an empty line
    have hempty : ∀ line ∈ [([] : Line)], '\n' ∉ line := by decide
    exact ⟨[[]], ModelParts.find?_withBody hfind hempty List.not_mem_nil
      (fun line hline => by cases hline), rfl⟩
  | cons first lines =>
    rw [List.map_cons] at hnewline hclosing ⊢
    exact ⟨_, ModelParts.find?_withBody hfind hnewline (first.foreign_notMem brace_foreign)
      (fun line hline => hclosing line (List.mem_cons_of_mem _ hline)), rfl⟩

/-- **Mending a model with printed fields** leaves one that declares exactly the fields that are no
relationships, each complete and in order, exactly if no line mixes the two. -/
theorem mendModel_declares_iff {text : List Char} {parts : ModelParts}
    {items : List (Gap × Declaration)} (hfind : ModelParts.find? text = some parts)
    (hbody : parts.body = splitLines (bodyText items)) (stats : MendStats) :
    ∃ body, ModelParts.find? (mendModel text stats).1 = some { parts with body := body } ∧
      (declaredFields (joinLines body) =
          ((items.map Prod.snd).filter (!·.isRelation)).map Declaration.text ↔
        Unmixed (rows items)) := by
  have hmended : (mendModel text stats).1 =
      parts.withBody ((keptLines items).map PrintedLine.text) := by
    unfold mendModel
    rw [hfind]
    dsimp only
    rw [hbody, splitLines_bodyText, mendBody_lines]
    rfl
  obtain ⟨body, hagain, hjoin⟩ := find?_withBody_lines hfind (keptLines items)
  refine ⟨body, ?_, ?_⟩
  · rw [hmended, hagain]
  · rw [hjoin]
    exact declaredFields_keptLines_iff items

/-- Two numbers with two relationships between them, on lines of their own or on two lines. -/
def fourFields (second fourth : Gap) : List (Gap × Declaration) :=
  let number : TypeSyntax .type := .relative (.last (.plain (.ofChars 'i' "32".toList (by decide))))
  let entity : TypeSyntax .argument :=
    .typed (.relative (.last (.plain (.ofChars 'E' [] (by decide)))))
  let container (name : Identifier) : TypeSyntax .type := .relative (.last (.generic name (.one entity)))
  [(.lineBreak, ⟨.ofChars 'a' [] (by decide), number⟩),
   (second, ⟨.ofChars 'b' [] (by decide), container (.ofChars 'H' "asMany".toList (by decide))⟩),
   (.lineBreak, ⟨.ofChars 'c' [] (by decide), container (.ofChars 'H' "asOne".toList (by decide))⟩),
   (fourth, ⟨.ofChars 'd' [] (by decide), number⟩)]

/-- A model with these fields. -/
def modelText (items : List (Gap × Declaration)) : List Char :=
  "pub struct Model \x7b".toList ++ bodyText items ++ "\n\x7d\n".toList

theorem mendModel_declares_fields_on_own_lines :
    ∃ parts body, ModelParts.find? (modelText (fourFields .lineBreak .lineBreak)) = some parts ∧
      parts.body = splitLines (bodyText (fourFields .lineBreak .lineBreak)) ∧
      ModelParts.find? (mendModel (modelText (fourFields .lineBreak .lineBreak)) {}).1 =
        some { parts with body := body } ∧
      declaredFields (joinLines body) = ["pub a: i32,".toList, "pub d: i32,".toList] := by
  obtain ⟨parts, hfind, hbody⟩ : ∃ parts,
      ModelParts.find? (modelText (fourFields .lineBreak .lineBreak)) = some parts ∧
        parts.body = splitLines (bodyText (fourFields .lineBreak .lineBreak)) :=
    ⟨⟨"pub struct Model \x7b".toList, splitLines (bodyText (fourFields .lineBreak .lineBreak)),
      ["\x7d".toList, []]⟩, by decide +kernel, rfl⟩
  obtain ⟨body, hagain, hiff⟩ := mendModel_declares_iff hfind hbody {}
  refine ⟨parts, body, hfind, hbody, hagain, (hiff.2 (by decide +kernel)).trans ?_⟩
  decide +kernel

/-- Two lines that mix the kinds of fields: a relationship survives, and another field is lost. -/
theorem mendModel_mixed_lines :
    ∃ parts body, ModelParts.find? (modelText (fourFields .space .space)) = some parts ∧
      parts.body = splitLines (bodyText (fourFields .space .space)) ∧
      ModelParts.find? (mendModel (modelText (fourFields .space .space)) {}).1 =
        some { parts with body := body } ∧
      declaredFields (joinLines body) = ["pub a: i32,".toList, "pub b: HasMany<E>,".toList] ∧
      (((fourFields .space .space).map Prod.snd).filter (!·.isRelation)).map Declaration.text =
        ["pub a: i32,".toList, "pub d: i32,".toList] := by
  refine ⟨⟨"pub struct Model \x7b".toList, splitLines (bodyText (fourFields .space .space)),
    ["\x7d".toList, []]⟩, [[], "pub a: i32, pub b: HasMany<E>,".toList], ?_, rfl, ?_, ?_, ?_⟩ <;>
    decide +kernel

end ModelMend
