import ModelMend.Entity.RelationType
import ModelMend.Proofs.Line.Wrapping
import ModelMend.Proofs.Token.Spacing

/-!
# The declared type and white space

A field declaration may be wrapped over as many lines as its author likes. Whatever the white space
between its tokens is, the same type is declared, up to white space, and it is the type of a relationship
or it is not (`declaredType_of_words_eq`).
-/

namespace ModelMend

open Text

/-- The text is written with these lexemes and white space only: there is no comment, no string and no
character in it. -/
structure LaysOut (lexemes : List Lexeme) (text : List Char) : Prop where
  cut_eq : Lexeme.cut text.length text = some lexemes
  unquoted : ∀ leaf, Lexeme.token leaf ∈ lexemes → leaf.isQuoted = false
  noComment : ∀ place, place <:+ text → Lexeme.NoCommentFirst place

variable {lexemes : List Lexeme} {text other : List Char} {lines : List (List Char)}

theorem LaysOut.bare (h : LaysOut lexemes text) : Bare text :=
  Lexeme.bare_of_cut h.cut_eq h.unquoted h.noComment

/-! ## White space in bare texts -/

theorem Bare.of_words_eq (h : Bare text) (hwords : words text = words other) : Bare other := by
  have hspaced : Bare (' ' :: text) := (bare_cons_of_blank isBlank_space).2 h
  rw [← bare_squeezed_iff, squeezed_eq_of_words_eq hwords, bare_squeezed_iff] at hspaced
  exact (bare_cons_of_blank isBlank_space).1 hspaced

/-- **Texts made of the same words** are laid out with the same lexemes. -/
theorem LaysOut.of_words_eq (h : LaysOut lexemes text) (hwords : words text = words other) :
    LaysOut lexemes other := by
  have hother := h.bare.of_words_eq hwords
  -- the words of a text do not say whether it begins with white space, so both are made to
  have hspaced {text : List Char} (hbare : Bare text) :
      Lexeme.cut text.length text =
        Lexeme.cut (squeezed (' ' :: text)).length (squeezed (' ' :: text)) := by
    have hblank : Lexeme.isSpace ' ' = true := by decide
    have hmore : Bare (' ' :: text) := (bare_cons_of_blank isBlank_space).2 hbare
    rw [Lexeme.cut_squeezed hmore (Nat.le_refl _) (Nat.le_refl _), List.length_cons,
      Lexeme.cut_cons_of_bare hmore, if_pos hblank]
  refine ⟨?_, h.unquoted, fun place hplace => (hother.of_suffix hplace).noCommentFirst⟩
  rw [hspaced hother, ← squeezed_eq_of_words_eq hwords, ← hspaced h.bare]
  exact h.cut_eq

/-- The lines of a bare text are bare. -/
theorem Bare.of_joinLines (h : Bare (joinLines lines)) : ∀ line ∈ lines, Bare line := by
  induction lines with
  | nil => exact List.forall_mem_nil _
  | cons line lines ih =>
    cases lines with
    | nil => exact List.forall_mem_singleton.2 h
    | cons next lines =>
      have hbreak : isBlank '\n' = true := by decide
      rw [joinLines_cons line (List.cons_ne_nil next lines)] at h
      exact List.forall_mem_cons.2 ⟨h.of_append_cons hbreak, ih h.of_append_right.2⟩

/-! ## Types -/

theorem startsWithContainer_squeezed (text : List Char) :
    startsWithContainer (squeezed text) = startsWithContainer text := by
  have hsolid : ∀ container ∈ relationContainers, Solid container := solid_of_mem rfl
  have hangle : Solid ['<'] := solid_of_any rfl
  have hone (container : List Char) (hmem : container ∈ relationContainers) :
      (container.isPrefixOf (squeezed text) &&
        ['<'].isPrefixOf (trimStart ((squeezed text).drop container.length))) =
      (container.isPrefixOf text && ['<'].isPrefixOf (trimStart (text.drop container.length))) := by
    rw [isPrefixOf_squeezed (hsolid container hmem)]
    by_cases hfront : container.isPrefixOf text = true
    · rw [drop_squeezed (hsolid container hmem) hfront, ← squeezed_trimStart, isPrefixOf_squeezed hangle]
    · rw [Bool.eq_false_iff.2 hfront, Bool.false_and, Bool.false_and]
  unfold startsWithContainer
  rw [Bool.eq_iff_iff, List.any_eq_true, List.any_eq_true]
  constructor
  · rintro ⟨container, hmem, hstarts⟩
    rw [hone container hmem] at hstarts
    exact ⟨container, hmem, hstarts⟩
  · rintro ⟨container, hmem, hstarts⟩
    rw [← hone container hmem] at hstarts
    exact ⟨container, hmem, hstarts⟩

/-- White space does not matter to whether a type is that of a relationship. -/
theorem isRelationType_squeezed (h : Bare text) : isRelationType (squeezed text) = isRelationType text := by
  unfold isRelationType
  dsimp only
  rw [Token.ofText?_squeezed h, ← squeezed_trimStart, startsWithContainer_squeezed]

/-- The type that a bare text declares is bare. -/
theorem Bare.fieldType {type : List Char} (h : Bare (joinLines lines))
    (htype : ModelMend.fieldType lines = some type) : Bare type := by
  have hlines : ∀ line ∈ lines, Unquoted line := fun line hline => (h.of_joinLines line hline).unquoted
  have hcode : Bare (declarationCode .forField lines) := by
    have hbefore : Bare (codeBefore ⟨0, false⟩ (joinLines lines)) := by
      obtain ⟨rest, hrest, hcomma⟩ := codeBefore_prefix ⟨0, false⟩ (joinLines lines)
      rw [hrest] at h
      apply h.of_append_left
      intro c hc
      rw [hcomma c hc]
      decide
    rw [← bare_squeezed_iff, ← squeezed_declarationCode hlines 0] at hbefore
    exact bare_squeezed_iff.1 hbefore
  unfold ModelMend.fieldType at htype
  split at htype
  · cases htype
  · next behind hcolon =>
    dsimp only at htype
    split at htype
    · cases htype
    · cases htype
      have hbehind : Bare (squeezed behind) :=
        bare_squeezed_iff.2 (hcode.of_suffix (afterFieldColon_suffix hcolon))
      rw [← bare_squeezed_iff, squeezed_trim]
      exact hbehind.of_suffix (List.dropWhile_suffix _)

/-- **The declared type does not depend on how the declaration is wrapped.** Two declarations of the same
tokens that differ only in the white space between them declare types that differ only in white space, or
none declares one; and both types are those of a relationship, or none is. -/
theorem declaredType_of_words_eq {lines' : List (List Char)} (h : LaysOut lexemes (joinLines lines))
    (hwords : words (joinLines lines) = words (joinLines lines')) :
    (fieldType lines).map words = (fieldType lines').map words ∧
      (fieldType lines).map isRelationType = (fieldType lines').map isRelationType := by
  have hbare : Bare (joinLines lines) := h.bare
  have hbare' : Bare (joinLines lines') := hbare.of_words_eq hwords
  have hsqueezed : (fieldType lines).map squeezed = (fieldType lines').map squeezed :=
    fieldType_squeezed (fun line hline => (hbare.of_joinLines line hline).unquoted)
      (fun line hline => (hbare'.of_joinLines line hline).unquoted) hwords
  cases htype : fieldType lines with
  | none =>
    rw [htype, Option.map_none, eq_comm, Option.map_eq_none_iff] at hsqueezed
    rw [hsqueezed]
    exact ⟨rfl, rfl⟩
  | some type =>
    rw [htype, Option.map_some, eq_comm, Option.map_eq_some_iff] at hsqueezed
    obtain ⟨type', htype', hsame⟩ := hsqueezed
    rw [htype', Option.map_some, Option.map_some, Option.map_some, Option.map_some]
    constructor
    · rw [words_eq_of_squeezed_eq hsame]
    · rw [← isRelationType_squeezed (hbare.fieldType htype),
        ← isRelationType_squeezed (hbare'.fieldType htype'), hsame]

theorem declaredType_of_words_eq_cakes :
    let line := "pub(in a::b) cakes: HasMany< Cake >,".toList
    let lines := ["pub(in".toList, "\ta::b) cakes:".toList, "".toList, "  HasMany<\u00a0Cake".toList, ">,".toList]
    words (joinLines [line]) = words (joinLines lines) ∧
      (fieldType [line]).map words = (fieldType lines).map words ∧
        (fieldType [line]).map isRelationType = (fieldType lines).map isRelationType := by
  intro line lines
  have hwords : words (joinLines [line]) = words (joinLines lines) := by decide
  obtain ⟨lexemes, hcut, hnone⟩ : ∃ lexemes,
      Lexeme.cut (joinLines [line]).length (joinLines [line]) = some lexemes ∧
        (lexemes.all fun | .token leaf => !leaf.isQuoted | _ => true) = true := ⟨_, rfl, by decide⟩
  have hslash : '/' ∉ joinLines [line] := by decide
  have hlaysOut : LaysOut lexemes (joinLines [line]) := by
    refine ⟨hcut, ?_, ?_⟩
    · intro leaf hmem
      have hleaf := List.all_eq_true.1 hnone _ hmem
      simpa using hleaf
    · rintro place hplace back rfl
      exact absurd (hplace.subset List.mem_cons_self) hslash
  exact ⟨hwords, declaredType_of_words_eq hlaysOut hwords⟩

end ModelMend
