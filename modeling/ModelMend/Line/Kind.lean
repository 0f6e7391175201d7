import ModelMend.Text.Blank

/-!
# Kinds of lines

Generated entity files can be half-edited and still need mending, so the body of a model is never
handed to a full parser. Each line is classified by what it opens; white space around it does not
matter.
-/

namespace ModelMend

open Text

/-- The type names that relationship fields are declared with. -/
def relationContainers : List (List Char) :=
  ["HasMany".toList, "HasOne".toList]

/-- The text starts with a relationship container and its opening angle bracket, with or without
white space between them. -/
def startsWithContainer (text : List Char) : Bool :=
  relationContainers.any fun container =>
    container.isPrefixOf text &&
      ['<'].isPrefixOf (trimStart (text.drop container.length))

inductive LineKind where
  /-- White space only. -/
  | blank
  /-- A line comment that documents nothing. -/
  | comment
  /-- An outer documentation comment. -/
  | docComment
  /-- The start of an attribute block. -/
  | attributeStart
  /-- A declaration that starts with a visibility. -/
  | field
  /-- A bare relationship container, left over from an earlier edit. -/
  | orphanRelation
  /-- Anything else. -/
  | other
deriving DecidableEq, Repr

namespace LineKind

/-- A line of this kind begins a new field unit. -/
def startsUnit : LineKind → Bool
  | docComment | attributeStart | field => true
  | blank | comment | orphanRelation | other => false

/-- The kind of a line that has been trimmed. -/
def ofTrimmed (text : List Char) : LineKind :=
  if text.isEmpty then blank
  else if "///".toList.isPrefixOf text && !"////".toList.isPrefixOf text then docComment
  else if "//".toList.isPrefixOf text then comment
  else if "#[".toList.isPrefixOf text then attributeStart
  else if "pub ".toList.isPrefixOf text || "pub(".toList.isPrefixOf text then field
  else if startsWithContainer text then orphanRelation
  else other

def of (line : List Char) : LineKind :=
  ofTrimmed (trim line)

@[simp] theorem of_nil : of [] = blank := rfl

/-- What a trimmed text of this kind is or starts with. -/
def Shows : LineKind → List Char → Prop
  | blank, text => text = []
  | comment, text => "//".toList <+: text
  | docComment, text => "///".toList <+: text
  | attributeStart, text => "#[".toList <+: text
  | field, text => "pub ".toList <+: text ∨ "pub(".toList <+: text
  | orphanRelation, text => startsWithContainer text = true
  | other, _ => True

theorem shows_ofTrimmed (text : List Char) : (ofTrimmed text).Shows text := by
  unfold ofTrimmed
  split
  next hempty => exact List.isEmpty_iff.1 hempty
  split
  next hmark => exact List.isPrefixOf_iff_prefix.1 (Bool.and_eq_true_iff.1 hmark).1
  split
  next hmark => exact List.isPrefixOf_iff_prefix.1 hmark
  split
  next hmark => exact List.isPrefixOf_iff_prefix.1 hmark
  split
  next hmark =>
    exact (Bool.or_eq_true_iff.1 hmark).imp List.isPrefixOf_iff_prefix.1 List.isPrefixOf_iff_prefix.1
  split
  next hcontainer => exact hcontainer
  trivial

theorem shows_of_eq {line : List Char} {kind : LineKind} (h : of line = kind) :
    kind.Shows (trim line) := by
  rw [← h]
  exact shows_ofTrimmed (trim line)

end LineKind

end ModelMend
