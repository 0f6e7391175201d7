import ModelMend.Proofs.Line.Unquoted
import ModelMend.Proofs.Source.Fields

/-!
# Fields on lines of their own

A field of any type, on a line of its own, ends at the comma behind its type exactly if the brackets of the
type close (`TypedField.endsAtComma_iff`), as they do where its angles are brackets or stand in arrows
(`TypedField.endsAtComma_of_paired`). Where they do in every line of a body, each line is a unit with
the type as its declared type, and mending leaves out those with a relationship and no others
(`typedFields_read`).

A shift in the length of an array opens brackets that are never closed: the field then goes on to the end
of the body, and a relationship below it stays (`shiftedSize_swallows_cakes`).
-/

namespace ModelMend

open Text Scanner.Cursor

/-- A field of any type, with its comma, on a line of its own. -/
structure TypedField where
  lead : List Char
  name : Identifier
  type : List Char
  lead_blank : ∀ c ∈ lead, isBlank c = true
  unquoted : Unquoted type

namespace TypedField

/-- The line without its comma. -/
def code (field : TypedField) : List Char :=
  fieldHead field.lead field.name ++ field.type

def line (field : TypedField) : Line :=
  field.code ++ [',']

/-- The type of the field is a relationship container. -/
def isRelation (field : TypedField) : Bool :=
  isRelationType (trim field.type)

/-- A scanner of the line reports the comma behind the type, and finds all brackets closed there. -/
def EndsAtComma (field : TypedField) : Prop :=
  (Scanner.forField.feed field.line).1.topComma = some field.code.length ∧
    (Scanner.forField.feed field.line).2.isBalanced = true

variable (field : TypedField)

theorem line_eq : field.line = fieldHead field.lead field.name ++ (field.type ++ ',' :: []) :=
  List.append_assoc _ _ _

/-- **A field ends at its own comma** exactly if the brackets of its type close. -/
theorem endsAtComma_iff : field.EndsAtComma ↔ BracketsClose field.type := by
  have hstart : InCode (start .forField) 0 0 :=
    ⟨rfl, rfl, rfl, rfl, by simp [start], rfl, rfl⟩
  obtain ⟨cursor, hcursor, hwalk⟩ :=
    @passes_fieldHead field.lead (field.type ++ [',']) field.name field.lead_blank _ _ hstart
  have hscanner : cursor.scanner = ⟨true, 0, false⟩ := by
    rw [← hcursor.countsAngles, ← hcursor.depth_eq, ← hcursor.not_inString]
  have hdepth : AtDepth cursor 0 := ⟨hscanner, hcursor.no_skip⟩
  obtain ⟨hafter, htop⟩ := hdepth.walk_type field.unquoted fun h => absurd h hcursor.no_dash
  have hlength : cursor.position + field.type.length = field.code.length := by
    rw [hcursor.position_eq, code, List.length_append, Nat.zero_add]
  have hfeed : (start .forField).walk field.line = cursor.walk (field.type ++ [',']) := by
    rw [← hwalk, line_eq]
  have hbalanced : (Scanner.forField.feed field.line).2.isBalanced = true ↔
      depthBehind 0 (withoutArrows field.type) = 0 := by
    change ((start .forField).walk field.line).scanner.isBalanced = true ↔ _
    rw [hfeed, hafter]
    simp [Scanner.isBalanced]
  have hcomma : (Scanner.forField.feed field.line).1.topComma = some field.code.length ↔
      depthBehind 0 (withoutArrows field.type) = 0 ∧ CommasInside 0 (withoutArrows field.type) := by
    change ((start .forField).walk field.line).topComma = some field.code.length ↔ _
    rw [hfeed, ← hlength]
    exact htop hcursor.no_comma
  rw [bracketsClose_iff, EndsAtComma, hbalanced, hcomma]
  exact ⟨fun h => h.1, fun h => ⟨h, h.1⟩⟩

/-- A type in which the lexer finds no string, no character and no comment, and whose angles are brackets or
stand in arrows: a field of it ends at its own comma. -/
theorem endsAtComma_of_paired {lead type : List Char} (name : Identifier)
    (hlead : ∀ c ∈ lead, isBlank c = true) {lexemes : List Lexeme}
    (hcut : Lexeme.cut type.length type = some lexemes)
    (hleaf : ∀ leaf, Lexeme.token leaf ∈ lexemes → leaf.isQuoted = false)
    (hcomment : ∀ place, place <:+ type → Lexeme.NoCommentFirst place)
    (hpaired : Paired false (withoutArrows type)) :
    EndsAtComma ⟨lead, name, type, hlead, Lexeme.unquoted_of_cut hcut hleaf hcomment⟩ :=
  (endsAtComma_iff _).2 hpaired.bracketsClose

theorem kind_line : LineKind.of field.line = .field := by
  rw [line_eq]
  exact kind_fieldHead field.name field.lead_blank

variable {field} in
/-- Where a field ends at its comma, its declared type is what stands in front of that. -/
theorem EndsAtComma.isRelation (h : field.EndsAtComma) :
    (fieldType [field.line]).any isRelationType = field.isRelation := by
  have htop := h.1
  rw [line_eq] at htop
  rw [line_eq, fieldType_fieldHead field.name field.lead_blank htop]
  unfold TypedField.isRelation
  split
  · next hempty => rw [List.isEmpty_iff.1 hempty]; rfl
  · rfl

end TypedField

/-- **Fields on lines of their own.** The line of a field ends the field at its own comma, with all brackets
closed, exactly if the brackets of its type close. If they close in all of some lines, each line is
a unit of its own, and mending the body leaves out those whose type is a relationship container and
keeps the others as they are. -/
theorem typedFields_read (fields : List TypedField) (stats : MendStats) :
    (∀ field ∈ fields, field.EndsAtComma ↔ BracketsClose field.type) ∧
      ((∀ field ∈ fields, BracketsClose field.type) →
        Body.segments (fields.map TypedField.line) =
            fields.map (fun field => .field ⟨[], [field.line], false⟩) ∧
          (mendBody stats (fields.map TypedField.line)).lines =
            (fields.filter (!·.isRelation)).map TypedField.line) := by
  refine ⟨fun field _ => field.endsAtComma_iff, fun h => ?_⟩
  have hends : ∀ field ∈ fields, field.EndsAtComma := fun field hfield =>
    field.endsAtComma_iff.2 (h field hfield)
  have hread : ∀ field ∈ fields, ∀ lines, Body.readSegment field.line lines =
      ⟨.field ⟨[], [field.line], false⟩, lines⟩ := by
    intro field hfield lines
    have htop := (hends field hfield).1
    exact Body.readSegment_of_topComma field.kind_line (by rw [htop]; rfl) lines
  constructor
  · clear h hends
    induction fields with
    | nil => simp
    | cons field fields ih =>
      obtain ⟨hfirst, hmore⟩ := List.forall_mem_cons.1 hread
      rw [List.map_cons, Body.segments_cons, hfirst, ih hmore, List.map_cons]
  · refine foldl_write_own_lines (fun field hfield lines => ?_) (fun field hfield lines out => ?_) _
    · rw [hread field hfield]
    · rw [hread field hfield, write_unit_line field.kind_line, (hends field hfield).isRelation]

namespace TypedField

/-- A field with nothing in front of it. -/
def ofType (name : Identifier) (type : String) (h : Unquoted type.toList) : TypedField :=
  ⟨[], name, type.toList, fun _ hc => absurd hc List.not_mem_nil, h⟩

end TypedField

/-- A field of maps and lists, with commas between angles, one with an arrow, and a relationship. -/
def threeFields : List TypedField :=
  [.ofType (.ofChars 't' "ags".toList (by decide)) "HashMap<String, Vec<i32>>" (by decide +kernel),
   .ofType (.ofChars 'h' "ook".toList (by decide)) "fn(&'static str, i32) -> bool" (by decide +kernel),
   .ofType (.ofChars 'c' "akes".toList (by decide)) "HasMany<Cake>" (by decide +kernel)]

theorem typedFields_read_threeFields :
    (∀ field ∈ threeFields, BracketsClose field.type) ∧
      threeFields.map TypedField.line = ["pub tags: HashMap<String, Vec<i32>>,".toList,
        "pub hook: fn(&'static str, i32) -> bool,".toList, "pub cakes: HasMany<Cake>,".toList] ∧
      (mendBody {} (threeFields.map TypedField.line)).lines =
        ["pub tags: HashMap<String, Vec<i32>>,".toList,
          "pub hook: fn(&'static str, i32) -> bool,".toList] := by
  have hclose : ∀ field ∈ threeFields, BracketsClose field.type := by
    decide +kernel
  obtain ⟨-, hlines⟩ := (typedFields_read threeFields {}).2 hclose
  refine ⟨hclose, by decide +kernel, hlines.trans ?_⟩
  decide +kernel

/-- A field whose array has a shift in its length. -/
def shiftedSize : TypedField :=
  .ofType (.ofChars 'm' "ask".toList (by decide)) "[u8; 1 << 3]" (by decide +kernel)

/-- A relationship field. -/
def cakes : TypedField :=
  .ofType (.ofChars 'c' "akes".toList (by decide)) "HasMany<Cake>" (by decide +kernel)

/-- The type is one, and its field does not end at its comma: it takes the relationship below it along, which
then stays. -/
theorem shiftedSize_swallows_cakes :
    (Token.ofText? shiftedSize.type).any Grammar.isType = true ∧ ¬shiftedSize.EndsAtComma ∧
      cakes.isRelation = true ∧
      Body.segments [shiftedSize.line, cakes.line] = [.verbatim [shiftedSize.line, cakes.line]] ∧
      (mendBody {} [shiftedSize.line, cakes.line]).lines = [shiftedSize.line, cakes.line] := by
  refine ⟨?_, ?_, ?_, ?_, ?_⟩
  · decide +kernel
  · rw [shiftedSize.endsAtComma_iff]
    decide +kernel
  · decide +kernel
  · decide +kernel
  · decide +kernel

end ModelMend
