import ModelMend.Entity.Body
import ModelMend.Source.Stats
import ModelMend.Text.Wording

/-!
# The model of a source text

The body of a model lies between the opening of `pub struct Model` and the first line that is only
a closing brace. A model without such a line, or one with a brace on its opening line, has no body
to mend. Mending the body touches nothing outside it.
-/

namespace ModelMend

open Text

def modelHead : Wording :=
  [.chars "pub".toList, .gap, .chars "struct".toList, .gap, .chars "Model".toList, .blanks,
   .chars ['\x7b']]

/-- A source text around the body of its model. -/
structure ModelParts where
  /-- The text up to the opening brace of the model. -/
  head : List Char
  /-- The lines of the body, the rest of the opening line first. -/
  body : List Line
  /-- The lines after the body, the closing brace first. -/
  tail : List Line
deriving DecidableEq, Repr

def isClosing (line : Line) : Bool :=
  trimEnd line == ['\x7d']

/-- Splits lines in front of the first line that closes a model. -/
def splitAtClosing : List Line → Option (List Line × List Line)
  | [] => none
  | line :: lines =>
    if isClosing line then some ([], line :: lines)
    else (splitAtClosing lines).map fun (body, tail) => (line :: body, tail)

namespace ModelParts

def find? (text : List Char) : Option ModelParts :=
  match modelHead.find? text with
  | none => none
  | some found =>
    match splitLines found.after with
    | [] => none
    | opening :: lines =>
      if opening.contains '\x7d' then none
      else
        (splitAtClosing lines).map fun (body, tail) =>
          ⟨text.take (text.length - found.after.length), opening :: body, tail⟩

/-- The source text with these lines as the body of the model. -/
def withBody (parts : ModelParts) (body : List Line) : List Char :=
  parts.head ++ joinLines body ++ '\n' :: joinLines parts.tail

end ModelParts

/-- The body of a model under construction. -/
structure BodyMend where
  lines : List Line
  stats : MendStats
  notes : List MendNote
deriving DecidableEq, Repr

def BodyMend.write (out : BodyMend) : Segment → BodyMend
  | .verbatim lines => { out with lines := out.lines ++ lines }
  | .orphan line =>
    { out with
      stats := { out.stats with orphansDropped := out.stats.orphansDropped + 1 }
      notes := out.notes ++ [.droppedOrphan line] }
  | .field unit =>
    let rendered := unit.renderInto unit.action out.lines
    let stats := { out.stats with blocksReduced := out.stats.blocksReduced + rendered.2 }
    if unit.action = .drop then
      ⟨rendered.1, { stats with fieldsDropped := stats.fieldsDropped + 1 },
        out.notes ++ (unit.field.head?.map MendNote.droppedField).toList⟩
    else ⟨rendered.1, stats, out.notes⟩

/-- Mends the lines of a body, on top of what has been counted so far. -/
def mendBody (stats : MendStats) (body : List Line) : BodyMend :=
  (Body.segments body).foldl BodyMend.write ⟨[], stats, []⟩

/-- Mends the model of a source text: the text, the counts and the notes. -/
def mendModel (text : List Char) (stats : MendStats) : List Char × MendStats × List MendNote :=
  match ModelParts.find? text with
  | none => (text, stats, [.noModelBody])
  | some parts =>
    let mended := mendBody stats parts.body
    (parts.withBody mended.lines, mended.stats, mended.notes)

end ModelMend
