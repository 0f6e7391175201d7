import ModelMend.Batch.Report
import ModelMend.Decimal.Digits
import ModelMend.Text.Quoted

/-!
# Reports as JSON

A report is told as a JSON text over several lines, two spaces deeper for each level. Keys stand in
a fixed order.
-/

namespace ModelMend

inductive Json where
  | boolean (value : Bool)
  | number (value : Nat)
  | string (value : List Char)
  | array (items : List Json)
  | object (members : List (List Char × Json))
deriving Repr

namespace Json

def stringChar (c : Char) : List Char :=
  if c = '"' || c = '\\' then ['\\', c]
  else if c = '\x08' then ['\\', 'b']
  else if c = '\t' then ['\\', 't']
  else if c = '\n' then ['\\', 'n']
  else if c = '\x0c' then ['\\', 'f']
  else if c = '\r' then ['\\', 'r']
  else if c.toNat < 0x20 then
    let digits := Text.hexDigits c.toNat
    ['\\', 'u'] ++ List.replicate (4 - digits.length) '0' ++ digits
  else [c]

def stringText (text : List Char) : List Char :=
  '"' :: text.flatMap stringChar ++ ['"']

/-- The start of a line at a depth. -/
def newLine (depth : Nat) : List Char :=
  '\n' :: List.replicate (2 * depth) ' '

mutual

/-- The text of a value at a depth. -/
def render (depth : Nat) : Json → List Char
  | boolean value => (if value then "true" else "false").toList
  | number value => decimalDigits value
  | string value => stringText value
  | array [] => "[]".toList
  | array (item :: items) =>
    '[' :: newLine (depth + 1) ++ render (depth + 1) item ++ renderItems (depth + 1) items ++
      newLine depth ++ [']']
  | object [] => ['\x7b', '\x7d']
  | object ((key, value) :: members) =>
    '\x7b' :: newLine (depth + 1) ++ stringText key ++ ": ".toList ++ render (depth + 1) value ++
      renderMembers (depth + 1) members ++ newLine depth ++ ['\x7d']

def renderItems (depth : Nat) : List Json → List Char
  | [] => []
  | item :: items => ',' :: newLine depth ++ render depth item ++ renderItems depth items

def renderMembers (depth : Nat) : List (List Char × Json) → List Char
  | [] => []
  | (key, value) :: members =>
    ',' :: newLine depth ++ stringText key ++ ": ".toList ++ render depth value ++
      renderMembers depth members

end

def text (json : Json) : List Char :=
  json.render 0

end Json

/-- The statistics of a file with their names. -/
def MendStats.members (stats : MendStats) : List (List Char × Json) :=
  [("model_markers_removed".toList, .number stats.markersRemoved),
    ("fields_dropped".toList, .number stats.fieldsDropped),
    ("annotations_reduced".toList, .number stats.blocksReduced),
    ("orphan_lines_dropped".toList, .number stats.orphansDropped),
    ("relation_inserted".toList, .boolean stats.relationInserted)]

def Report.json (report : Report) : Json :=
  .object
    [("directory".toList, .string report.directory.text),
      ("dry_run".toList, .boolean report.dryRun),
      ("scanned".toList, .number report.scanned),
      ("changed".toList, .array (report.changed.map fun entry =>
        .object [("file".toList, .string entry.1),
          ("stats".toList, .object entry.2.members)])),
      ("failed".toList, .array (report.failed.map fun entry =>
        .object [("file".toList, .string entry.1), ("error".toList, .string entry.2)]))]

end ModelMend
