import ModelMend.Text.Lines

/-!
# Model markers

A marker is the attribute `#[sea_orm::model]` alone on its line, with spaces or tabs around it. The
whole line goes, with the line feed that ends it and a carriage return before that. A last line
without a line feed counts as well, but there a carriage return is no part of the line end.
-/

namespace ModelMend

open Text

def markerText : List Char :=
  "#[sea_orm::model]".toList

def isSpaceOrTab (c : Char) : Bool :=
  c == ' ' || c == '\t'

/-- The line holds a marker and nothing but spaces and tabs besides. -/
def isMarker (line : Line) : Bool :=
  let text := line.dropWhile isSpaceOrTab
  markerText.isPrefixOf text && (text.drop markerText.length).all isSpaceOrTab

/-- The line without a carriage return at its end. -/
def withoutReturn (line : Line) : Line :=
  if line.getLast? = some '\r' then line.dropLast else line

/-- The text of the lines that are no markers, and the number of markers. -/
def dropMarkers : List Line → List Char × Nat
  | [] => ([], 0)
  | [last] => if isMarker last then ([], 1) else (last, 0)
  | line :: next :: lines =>
    let (text, count) := dropMarkers (next :: lines)
    if isMarker (withoutReturn line) then (text, count + 1) else (line ++ '\n' :: text, count)

/-- Takes the marker lines out of a text and counts them. -/
def removeMarkers (text : List Char) : List Char × Nat :=
  dropMarkers (splitLines text)

end ModelMend
