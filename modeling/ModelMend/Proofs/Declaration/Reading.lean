import ModelMend.Line.DeclaredType
import ModelMend.Proofs.Declaration.Parsing
import ModelMend.Proofs.Line.Idle

/-!
# Reading declarations back

The fields that a text declares are its pieces between the commas outside all brackets
(`declaredFields`). A printed declaration is read back as it is, whatever follows (`declaredFrom_text`).
The scanner finds the same comma in it, and the type in front of that comma is the declared type
(`fieldType_line`).
-/

namespace ModelMend

open Text Lexeme Scanner.Cursor

/-- The number of open brackets after a character. -/
def depthAfter (depth : Nat) (c : Char) : Nat :=
  if ['<', '(', '[', '\x7b'].contains c then depth + 1
  else if ['>', ')', ']', '\x7d'].contains c then depth - 1
  else depth

/-- The fields that a text declares, given the depth and the field so far: each goes on to the first
comma outside all brackets. What is left at the end counts as well, unless it is blank. -/
def declaredFrom (depth : Nat) (current : List Char) : List Char → List (List Char)
  | [] => if (trim current).isEmpty then [] else [trim current]
  | c :: rest =>
    if c = ',' && depth = 0 then trim (current ++ [c]) :: declaredFrom 0 [] rest
    else declaredFrom (depthAfter depth c) (current ++ [c]) rest

/-- The fields that a text declares. -/
def declaredFields (text : List Char) : List (List Char) :=
  declaredFrom 0 [] text

/-! ## The characters of a declaration -/

theorem forall_notMem_of_any {text signs : List Char} (h : text.any signs.contains = false) :
    ∀ c ∈ text, c ∉ signs := by
  intro c hc hmem
  have hany : text.any signs.contains = true :=
    List.any_eq_true.2 ⟨c, hc, List.contains_iff_mem.2 hmem⟩
  rw [h] at hany
  cases hany

theorem Identifier.mem_text {name : Identifier} {c : Char} (h : c ∈ name.text) :
    isIdentContinue c = true ∨ c = '#' := by
  have hword (hmem : c ∈ name.word) : isIdentContinue c = true := by
    rcases List.mem_cons.1 hmem with rfl | hmore
    · exact isIdentContinue_of_isIdentStart name.starts
    · exact name.continues c hmore
  unfold text at h
  split at h
  · rcases List.mem_append.1 h with hmark | hmem
    · have hchars : c = 'r' ∨ c = '#' := by simpa using hmark
      rcases hchars with rfl | rfl
      · exact Or.inl (by decide)
      · exact Or.inr rfl
    · exact Or.inl (hword hmem)
  · exact Or.inl (hword h)

theorem PathKeyword.mem_text {word : PathKeyword} {c : Char} (h : c ∈ word.text) :
    isIdentContinue c = true := by
  have hall : word.text.all isIdentContinue = true := by
    cases word <;> decide
  exact List.all_eq_true.1 hall c h

theorem notMem_marks {c : Char} (h : isIdentContinue c = true ∨ c = '#') : c ∉ marks := by
  have hspecial : marks ⊆ specialChars := by decide
  rcases h with hident | rfl
  · exact fun hmem => notMem_specialChars hident (hspecial hmem)
  · decide

/-- No character literal starts at a lifetime. -/
theorem Identifier.literalTail_text (name : Identifier) {rest : List Char} (hrest : EndsWord rest) :
    Scanner.literalTail (name.text ++ rest) = none := by
  have hnone {c : Char} {text : List Char} (hc : c ≠ '\\') (htext : ∀ d, text.head? = some d → d ≠ '\'') :
      Scanner.literalTail (c :: text) = none := by
    unfold Scanner.literalTail
    split
    · next heq => cases heq
    · next heq => exact absurd (List.cons.inj heq).1 hc
    · next heq => exact absurd rfl (htext _ (by rw [(List.cons.inj heq).2]; rfl))
    · rfl
  unfold text word
  split
  · refine hnone (c := 'r') (by decide) fun d hd => ?_
    cases hd
    decide
  · exact hnone (ne_of_isIdentStart name.starts (by decide)) fun d hd =>
      (Quiet.of_continues name.continues hrest d hd).2.1

/-! ## Types -/

namespace TypeSyntax

variable {part : TypePart}

/-- A scanner passes over every part of a type. Only arguments need a bracket around them. -/
theorem passes (type : TypeSyntax part) {depth : Nat} (hdepth : part = .arguments → depth ≠ 0)
    {rest : List Char} (hrest : EndsWord rest) : Passes depth depth type.text rest := by
  have hname {depth : Nat} (name : Identifier) {rest : List Char} :
      Passes depth depth name.text rest :=
    .all_plain fun c hc => notMem_marks (Identifier.mem_text hc)
  have hcolons {depth : Nat} {rest : List Char} : Passes depth depth "::".toList rest :=
    .all_plain (forall_notMem_of_any (by decide))
  induction type generalizing depth rest with
  | last segment ih => exact ih (fun h => by cases h) hrest
  | nested segment path ihSegment ihPath =>
    have hfront := @ihSegment depth (fun h => by cases h) _
      (.cons (c := ':') (by decide) (':' :: (path.text ++ rest)))
    exact (hfront.append hcolons).append (ihPath (fun h => by cases h) hrest)
  | keyword word =>
    exact .all_plain fun c hc => notMem_marks (Or.inl (PathKeyword.mem_text hc))
  | plain name => exact hname name
  | generic name arguments ih =>
    have hinside : Passes (depth + 1) (depth + 1) arguments.text ('>' :: rest) :=
      ih (fun _ => Nat.succ_ne_zero depth) (.cons (by decide) rest)
    exact (((hname name).append .opening).append hinside).append .closing
  | one argument ih => exact ih (fun h => by cases h) hrest
  | more argument arguments ihArgument ihArguments =>
    cases depth with
    | zero => exact absurd rfl (hdepth rfl)
    | succ depth =>
      have hfront := @ihArgument (depth + 1) (fun h => by cases h) _
        (.cons (c := ',') (by decide) (' ' :: (arguments.text ++ rest)))
      have hcomma : Passes (depth + 1) (depth + 1) ([','] ++ [' ']) (arguments.text ++ rest) :=
        Passes.comma_inside.append (.plain (by decide))
      exact (hfront.append hcomma).append (ihArguments hdepth hrest)
  | lifetime name =>
    have hquote : Passes depth depth ['\''] (name.text ++ rest) :=
      .quote (name.literalTail_text hrest)
    exact hquote.append (hname name)
  | typed type ih => exact ih (fun h => by cases h) hrest
  | relative path ih => exact ih (fun h => by cases h) hrest
  | absolute path ih => exact hcolons.append (ih (fun h => by cases h) hrest)

end TypeSyntax

/-! ## Declared fields -/

section

variable {depth : Nat} {current text rest : List Char}

theorem declaredFrom_plain (htext : ∀ c ∈ text, c ∉ marks) :
    declaredFrom depth current (text ++ rest) = declaredFrom depth (current ++ text) rest := by
  induction text generalizing current with
  | nil => rw [List.nil_append, List.append_nil]
  | cons c tail ih =>
    have hc := htext c List.mem_cons_self
    simp only [marks, List.mem_cons, List.not_mem_nil, or_false, not_or] at hc
    have hstep : declaredFrom depth current (c :: (tail ++ rest)) =
        declaredFrom depth (current ++ [c]) (tail ++ rest) := by
      simp [declaredFrom, depthAfter, hc]
    rw [List.cons_append, hstep, ih fun d hd => htext d (List.mem_cons_of_mem c hd),
      List.append_assoc, List.singleton_append]

theorem declaredFrom_opening :
    declaredFrom depth current ('<' :: rest) = declaredFrom (depth + 1) (current ++ ['<']) rest := by
  simp [declaredFrom, depthAfter]

theorem declaredFrom_closing :
    declaredFrom (depth + 1) current ('>' :: rest) = declaredFrom depth (current ++ ['>']) rest := by
  simp [declaredFrom, depthAfter]

theorem declaredFrom_comma_inside :
    declaredFrom (depth + 1) current (',' :: rest) =
      declaredFrom (depth + 1) (current ++ [',']) rest := by
  simp [declaredFrom, depthAfter]

theorem declaredFrom_quote :
    declaredFrom depth current ('\'' :: rest) = declaredFrom depth (current ++ ['\'']) rest := by
  simp [declaredFrom, depthAfter]

/-- A part of a type belongs to the field that it stands in. -/
theorem TypeSyntax.declaredFrom_text {part : TypePart} (type : TypeSyntax part)
    (hdepth : part = .arguments → depth ≠ 0) :
    declaredFrom depth current (type.text ++ rest) =
      declaredFrom depth (current ++ type.text) rest := by
  have hname {depth : Nat} {current rest : List Char} (name : Identifier) :
      declaredFrom depth current (name.text ++ rest) =
        declaredFrom depth (current ++ name.text) rest :=
    declaredFrom_plain fun c hc => notMem_marks (Identifier.mem_text hc)
  have hcolons {depth : Nat} {current rest : List Char} :
      declaredFrom depth current ("::".toList ++ rest) =
        declaredFrom depth (current ++ "::".toList) rest :=
    declaredFrom_plain (forall_notMem_of_any (by decide))
  induction type generalizing depth current rest with
  | last segment ih => exact ih fun h => by cases h
  | nested segment path ihSegment ihPath =>
    rw [text, List.append_assoc, List.append_assoc, ihSegment (fun h => by cases h), hcolons,
      ihPath (fun h => by cases h)]
    simp only [List.append_assoc]
  | keyword word =>
    exact declaredFrom_plain fun c hc => notMem_marks (Or.inl (PathKeyword.mem_text hc))
  | plain name => exact hname name
  | generic name arguments ih =>
    have hinside := @ih (depth + 1) (current ++ name.text ++ ['<']) (['>'] ++ rest)
      (fun _ => Nat.succ_ne_zero depth)
    rw [text, List.append_assoc, List.append_assoc, List.append_assoc, hname, List.singleton_append,
      declaredFrom_opening, hinside, List.singleton_append, declaredFrom_closing]
    simp only [List.append_assoc]
  | one argument ih => exact ih fun h => by cases h
  | more argument arguments ihArgument ihArguments =>
    cases depth with
    | zero => exact absurd rfl (hdepth rfl)
    | succ depth =>
      have hspace {current rest : List Char} : declaredFrom (depth + 1) current (' ' :: rest) =
          declaredFrom (depth + 1) (current ++ [' ']) rest := by
        simp [declaredFrom, depthAfter]
      have hcomma : declaredFrom (depth + 1) (current ++ argument.text)
          (", ".toList ++ (arguments.text ++ rest)) =
            declaredFrom (depth + 1) (current ++ argument.text ++ ", ".toList)
              (arguments.text ++ rest) := by
        refine Eq.trans declaredFrom_comma_inside (hspace.trans ?_)
        rw [List.append_assoc (current ++ argument.text)]
        rfl
      rw [text, List.append_assoc, List.append_assoc, ihArgument (fun h => by cases h), hcomma,
        ihArguments hdepth]
      simp only [List.append_assoc]
  | lifetime name =>
    rw [text, List.cons_append, declaredFrom_quote, hname]
    simp only [List.append_assoc, List.singleton_append]
  | typed type ih => exact ih fun h => by cases h
  | relative path ih => exact ih fun h => by cases h
  | absolute path ih =>
    rw [text, List.append_assoc, hcolons, ih fun h => by cases h]
    simp only [List.append_assoc]

end

/-! ## Declarations on a line -/

namespace TypeSyntax

theorem text_cons_not_blank {part : TypePart} (type : TypeSyntax part) :
    ∃ c tail, type.text = c :: tail ∧ isBlank c = false := by
  obtain ⟨c, tail, htext, hc⟩ := type.text_cons
  refine ⟨c, tail, htext, ?_⟩
  rcases hc.cases with hstart | rfl | rfl
  · exact not_isBlank_of_isIdentContinue (isIdentContinue_of_isIdentStart hstart)
  · decide
  · decide

theorem text_concat_not_blank {part : TypePart} (type : TypeSyntax part) :
    ∃ front d, type.text = front ++ [d] ∧ isBlank d = false := by
  have hword {word : List Char} (hne : word ≠ [])
      (hall : ∀ c ∈ word, isIdentContinue c = true ∨ c = '#') :
      ∃ front d, word = front ++ [d] ∧ isBlank d = false := by
    refine ⟨word.dropLast, word.getLast hne, (List.dropLast_concat_getLast hne).symm, ?_⟩
    rcases hall _ (List.getLast_mem hne) with hident | hsign
    · exact not_isBlank_of_isIdentContinue hident
    · rw [hsign]
      decide
  have hname (name : Identifier) : ∃ front d, name.text = front ++ [d] ∧ isBlank d = false := by
    refine hword ?_ fun c hc => Identifier.mem_text hc
    unfold Identifier.text Identifier.word
    split <;> simp
  have hafter {text : List Char} (lead : List Char)
      (h : ∃ front d, text = front ++ [d] ∧ isBlank d = false) :
      ∃ front d, lead ++ text = front ++ [d] ∧ isBlank d = false := by
    obtain ⟨front, d, rfl, hd⟩ := h
    exact ⟨lead ++ front, d, (List.append_assoc _ _ _).symm, hd⟩
  induction type with
  | last segment ih => exact ih
  | nested segment path _ ih => exact hafter _ ih
  | keyword word =>
    refine hword ?_ fun c hc => Or.inl (PathKeyword.mem_text hc)
    cases word <;> decide
  | plain name => exact hname name
  | generic name arguments _ => exact ⟨_, '>', rfl, by decide⟩
  | one argument ih => exact ih
  | more argument arguments _ ih => exact hafter _ ih
  | lifetime name => exact hafter ['\''] (hname name)
  | typed type ih => exact ih
  | relative path ih => exact ih
  | absolute path ih => exact hafter _ ih

end TypeSyntax

/-- Text without round brackets and colons is no type yet. -/
theorem afterFieldColon_plain {text : List Char} (htext : ∀ c ∈ text, c ∉ ['(', ')', ':'])
    {previous : Option Char} (hprevious : previous ≠ some ':') (rest : List Char) :
    ∃ last, last ≠ some ':' ∧
      afterFieldColon previous 0 (text ++ rest) = afterFieldColon last 0 rest := by
  induction text generalizing previous with
  | nil => exact ⟨previous, hprevious, rfl⟩
  | cons c tail ih =>
    have hc := htext c List.mem_cons_self
    simp only [List.mem_cons, List.not_mem_nil, or_false, not_or] at hc
    have hstep : afterFieldColon previous 0 (c :: (tail ++ rest)) =
        afterFieldColon (some c) 0 (tail ++ rest) := by
      simp [afterFieldColon, hc]
    rw [List.cons_append, hstep]
    exact ih (fun d hd => htext d (List.mem_cons_of_mem c hd)) (by simp [hc])

/-! ## Lines with a field on them -/

/-- The start of a line with a field of this name on it, up to its type. -/
def fieldHead (lead : List Char) (name : Identifier) : List Char :=
  lead ++ ("pub ".toList ++ (name.text ++ ": ".toList))

section

variable {lead type rest : List Char} (name : Identifier) (hlead : ∀ c ∈ lead, isBlank c = true)

include hlead

theorem passes_fieldHead : Passes 0 0 (fieldHead lead name) rest := by
  have hblank : ∀ c ∈ lead, c ∉ marks := fun c hc hmem =>
    notMem_marks_of_isBlank (hlead c hc) (List.mem_cons_of_mem ':' hmem)
  have hname : ∀ c ∈ name.text, c ∉ marks := fun c hc => notMem_marks (Identifier.mem_text hc)
  have hpub : ∀ c ∈ "pub ".toList, c ∉ marks := forall_notMem_of_any (by decide)
  have hcolon : ∀ c ∈ ": ".toList, c ∉ marks := forall_notMem_of_any (by decide)
  refine .all_plain (List.forall_mem_append.2 ⟨hblank, List.forall_mem_append.2 ⟨hpub, ?_⟩⟩)
  exact List.forall_mem_append.2 ⟨hname, hcolon⟩

/-- Such a line starts a field. -/
theorem kind_fieldHead : LineKind.of (fieldHead lead name ++ (type ++ ',' :: rest)) = .field := by
  have hfield (text : List Char) : LineKind.ofTrimmed ("pub ".toList ++ text) = .field := by
    simp [LineKind.ofTrimmed, List.isPrefixOf]
  have hcomma : isBlank ',' = false := by decide
  obtain ⟨more, hmore⟩ := @trimEnd_append ("pub ".toList ++ (name.text ++ (": ".toList ++ type)))
    rest ',' hcomma
  have hline : fieldHead lead name ++ (type ++ ',' :: rest) =
      lead ++ ("pub ".toList ++ (name.text ++ (": ".toList ++ type)) ++ [','] ++ rest) := by
    simp [fieldHead]
  have hstart : trimStart ("pub ".toList ++ (name.text ++ (": ".toList ++ type)) ++ [','] ++ rest) =
      "pub ".toList ++ (name.text ++ (": ".toList ++ type)) ++ [','] ++ rest :=
    trimStart_cons_of_not_blank (by decide : isBlank 'p' = false) _
  rw [LineKind.of, trim, hline, trimStart_append_of_blank hlead, hstart, hmore, List.append_assoc,
    List.append_assoc, hfield]

/-- Its declared type stands in front of the comma that the scanner reports, if anything stands there. -/
theorem fieldType_fieldHead
    (hcomma : (Scanner.forField.feed (fieldHead lead name ++ (type ++ ',' :: rest))).1.topComma =
      some (fieldHead lead name ++ type).length) :
    fieldType [fieldHead lead name ++ (type ++ ',' :: rest)] =
      if (trim type).isEmpty then none else some (trim type) := by
  have hcode : declarationCode .forField [fieldHead lead name ++ (type ++ ',' :: rest)] =
      (lead ++ ("pub ".toList ++ name.text)) ++ (':' :: ([' '] ++ (type ++ [' ']))) := by
    unfold declarationCode
    simp only [hcomma]
    rw [← List.append_assoc, List.take_left]
    unfold fieldHead
    simp only [List.append_assoc]
    rfl
  have hfront : ∀ c ∈ lead ++ ("pub ".toList ++ name.text), c ∉ ['(', ')', ':'] := by
    have hmarks : ['(', ')', ':'] ⊆ ':' :: marks := by decide
    have hspecial : ['(', ')', ':'] ⊆ specialChars := by decide
    refine List.forall_mem_append.2 ⟨?_, List.forall_mem_append.2 ⟨?_, ?_⟩⟩
    · exact fun c hc hmem => notMem_marks_of_isBlank (hlead c hc) (hmarks hmem)
    · exact forall_notMem_of_any (by decide)
    · intro c hc hmem
      rcases Identifier.mem_text hc with hident | rfl
      · exact notMem_specialChars hident (hspecial hmem)
      · exact absurd hmem (by decide)
  have hstart : (none : Option Char) ≠ some ':' := by decide
  obtain ⟨last, hlast, hafter⟩ := afterFieldColon_plain hfront hstart
    (':' :: ([' '] ++ (type ++ [' '])))
  have hcolon : afterFieldColon last 0 (':' :: ([' '] ++ (type ++ [' ']))) =
      some ([' '] ++ (type ++ [' '])) := by
    simp [afterFieldColon, hlast]
  have hspace : ∀ c ∈ [' '], isBlank c = true := List.all_eq_true.1 (by decide)
  unfold fieldType
  rw [hcode, hafter, hcolon]
  dsimp only
  rw [trim_append_blanks hspace hspace]

end

namespace Declaration

variable {lead rest : List Char}

/-- The declaration without its comma. -/
def code (field : Declaration) : List Char :=
  "pub ".toList ++ field.name.text ++ ": ".toList ++ field.type.text

theorem text_eq (field : Declaration) : field.text = field.code ++ [','] := rfl

theorem append_code (field : Declaration) :
    lead ++ field.code = fieldHead lead field.name ++ field.type.text := by
  simp [code, fieldHead]

theorem append_text (field : Declaration) :
    lead ++ (field.text ++ rest) = fieldHead lead field.name ++ (field.type.text ++ ',' :: rest) := by
  simp [text_eq, code, fieldHead]

theorem passes_code (field : Declaration) (hlead : ∀ c ∈ lead, isBlank c = true) :
    Passes 0 0 (lead ++ field.code) (',' :: rest) := by
  rw [append_code]
  exact (passes_fieldHead field.name hlead).append
    (field.type.passes (fun h => by cases h) (.cons (by decide) rest))

/-- **The scanner ends a declaration at its comma**, whatever follows on the line. -/
theorem topComma_line (field : Declaration) (hlead : ∀ c ∈ lead, isBlank c = true) :
    (Scanner.forField.feed (lead ++ (field.text ++ rest))).1.topComma =
      some (lead ++ field.code).length := by
  have hline : lead ++ (field.text ++ rest) = lead ++ field.code ++ ',' :: rest := by
    simp [text_eq]
  rw [hline]
  exact topComma_feed (field.passes_code hlead)

/-- A declaration is read back as it is. -/
theorem declaredFrom_text (field : Declaration) (hlead : ∀ c ∈ lead, isBlank c = true) :
    declaredFrom 0 lead (field.text ++ rest) = field.text :: declaredFrom 0 [] rest := by
  have hname : ∀ c ∈ field.name.text, c ∉ marks := fun c hc => notMem_marks (Identifier.mem_text hc)
  have hcode : declaredFrom 0 lead (field.text ++ rest) =
      declaredFrom 0 (lead ++ field.code) (',' :: rest) := by
    unfold text code
    simp only [List.append_assoc]
    rw [declaredFrom_plain (forall_notMem_of_any (by decide)), declaredFrom_plain hname,
      declaredFrom_plain (forall_notMem_of_any (by decide)),
      field.type.declaredFrom_text fun h => by cases h]
    simp only [List.append_assoc]
    rfl
  have hcomma : declaredFrom 0 (lead ++ field.code) (',' :: rest) =
      trim (lead ++ field.code ++ [',']) :: declaredFrom 0 [] rest := by
    simp [declaredFrom]
  have hnone : ∀ c ∈ ([] : List Char), isBlank c = true := fun c hc => by cases hc
  have htrim := trim_append_of_blank hlead hnone (by decide : isBlank 'p' = false)
    (by decide : isBlank ',' = false) (rfl : field.text = 'p' :: _) field.text_eq
  rw [List.append_nil] at htrim
  rw [hcode, hcomma, List.append_assoc, ← field.text_eq, htrim]

/-- **The declared type of a line** is that of the first declaration on it. -/
theorem fieldType_line (field : Declaration) (hlead : ∀ c ∈ lead, isBlank c = true) :
    fieldType [lead ++ (field.text ++ rest)] = some field.type.text := by
  obtain ⟨c, tail, hcons, hc⟩ := field.type.text_cons_not_blank
  obtain ⟨front, d, hconcat, hd⟩ := field.type.text_concat_not_blank
  have hnone : ∀ c ∈ ([] : List Char), isBlank c = true := fun c hc => by cases hc
  have htrim := trim_append_of_blank hnone hnone hc hd hcons hconcat
  rw [List.append_nil, List.nil_append] at htrim
  have hcomma := @topComma_line lead rest field hlead
  rw [append_text, append_code] at hcomma
  rw [append_text, fieldType_fieldHead field.name hlead hcomma, htrim, hcons]
  rfl

/-- A line with a declaration in front starts a field. -/
theorem kind_line (field : Declaration) (hlead : ∀ c ∈ lead, isBlank c = true) :
    LineKind.of (lead ++ (field.text ++ rest)) = .field := by
  rw [append_text]
  exact kind_fieldHead field.name hlead

end Declaration

end ModelMend
