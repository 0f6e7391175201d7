import ModelMend.Entity.Directives
import ModelMend.Entity.RelationType
import ModelMend.Line.DeclaredType
import ModelMend.Text.Lines

/-!
# Field units

A field of a model together with everything attached to it: the attribute blocks, comments and
blank lines in front. A unit is kept, dropped as a whole, or kept with its `belongs_to` blocks
reduced to their key flags; `FieldUnit.renderInto` writes what survives.

Rendering only appends: a field is glued onto the last line written only if an attribute block of
its own unit wrote that line.
-/

namespace ModelMend

open Text

/-- Anything that can stand in front of a field inside its unit. -/
inductive Leading where
  /-- An attribute block, perhaps wrapped over several lines. -/
  | block (lines : List Line)
  /-- A comment or a blank line. -/
  | line (line : Line)
deriving DecidableEq, Repr

namespace Leading

def directives? : Leading → Option Directives
  | block lines => Directives.parse (joinLines lines)
  | line _ => none

def lines : Leading → List Line
  | block lines => lines
  | line text => [text]

def isBlock : Leading → Bool
  | block _ => true
  | line _ => false

def firstLine? (item : Leading) : Option Line :=
  item.lines.head?

end Leading

inductive FieldAction where
  | keep
  | drop
  /-- Keep the field and reduce its `belongs_to` blocks to their key flags. -/
  | stripBelongsTo
deriving DecidableEq, Repr

/-- A field declaration and what is attached to it. -/
structure FieldUnit where
  /-- What stands in front of the field. -/
  leading : List Leading
  /-- The lines of the field. -/
  field : List Line
  /-- The first line of the field continues the last line of the last attribute block. -/
  sharesLine : Bool
deriving DecidableEq, Repr

/-- What replaces an attribute block with `belongs_to`: its key flags at its own indentation, with
a carriage return if the block ended with one, or nothing. -/
def reducedBlock (lines : List Line) (directives : Directives) : Option Line :=
  match lines.head? with
  | none => none
  | some first =>
    let reduced := directives.keyFlagsAttribute (indent first)
    if lines.getLast?.any (·.getLast? == some '\r') then reduced.map (· ++ ['\r']) else reduced

namespace FieldUnit

def blocks (unit : FieldUnit) : List Leading :=
  unit.leading.filter Leading.isBlock

def declaredType (unit : FieldUnit) : Option (List Char) :=
  fieldType unit.field

/-- The field is a relationship: its type is a container, or it is a bare container left over from
an earlier edit. -/
def isRelationField (unit : FieldUnit) : Bool :=
  unit.field.head?.any (LineKind.of · = .orphanRelation) || unit.declaredType.any isRelationType

/-- The directives of the attribute blocks that have any. -/
def directives (unit : FieldUnit) : List Directives :=
  unit.leading.filterMap Leading.directives?

def action (unit : FieldUnit) : FieldAction :=
  if unit.isRelationField || unit.directives.any Directives.declaresRelation then .drop
  else if unit.directives.any Directives.belongsTo then .stripBelongsTo
  else .keep

/-- The indentation of the first line of the unit. -/
def indentation (unit : FieldUnit) : List Char :=
  match unit.leading.findSome? Leading.firstLine? with
  | some first => indent first
  | none => []

/-- The lines of an output under construction. -/
structure Rendering where
  /-- The lines written so far. -/
  lines : List Line
  /-- The number of attribute blocks that have been reduced. -/
  reduced : Nat := 0
  /-- The last line was written by the attribute block just before this place. -/
  glue : Bool := false
deriving DecidableEq, Repr

namespace Rendering

def write (action : FieldAction) (out : Rendering) (item : Leading) : Rendering :=
  match item with
  | .line line => { out with lines := out.lines ++ [line], glue := false }
  | .block lines =>
    match item.directives?.filter fun d => d.belongsTo && action = .stripBelongsTo with
    | some directives =>
      let replacement := (reducedBlock lines directives).toList
      ⟨out.lines ++ replacement, out.reduced + 1, !replacement.isEmpty⟩
    | none => ⟨out.lines ++ lines, out.reduced, !lines.isEmpty⟩

def appendToLast (lines : List Line) (tail : Line) : List Line :=
  match lines.getLast? with
  | some last => lines.dropLast ++ [last ++ tail]
  | none => [tail]

end Rendering

/-- Appends what survives of the unit to the lines of an output. The number is that of the
attribute blocks that were reduced or taken away. -/
def renderInto (unit : FieldUnit) (action : FieldAction) (out : List Line) : List Line × Nat :=
  if action = .drop then (out, 0)
  else
    let rendering := unit.leading.foldl (Rendering.write action) { lines := out }
    match unit.sharesLine, unit.field with
    | true, first :: more =>
      let lines :=
        if rendering.glue then Rendering.appendToLast rendering.lines first
        else rendering.lines ++ [unit.indentation ++ trimStart first]
      (lines ++ more, rendering.reduced)
    | _, field => (rendering.lines ++ field, rendering.reduced)

@[simp] theorem renderInto_drop (unit : FieldUnit) (out : List Line) :
    unit.renderInto .drop out = (out, 0) := by
  simp [renderInto]

end FieldUnit

end ModelMend
