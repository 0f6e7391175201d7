import ModelMend.CommandLine.Json
import ModelMend.CommandLine.LogFilter

/-!
# The log on the error stream

Every entry of a log belongs to a component and has a level. It is told on a line with both in
brackets; further lines of a message are set in by four spaces.
-/

namespace ModelMend

open Text

/-- Statistics as the log tells them. -/
def MendStats.logText (stats : MendStats) : List Char :=
  let members := stats.members.map fun member =>
    member.1 ++ ": ".toList ++ member.2.text
  "RewriteStats \x7b ".toList ++ List.intercalate ", ".toList members ++ " \x7d".toList

/-- A note as the log tells it. -/
def MendNote.logText : MendNote → List Char
  | noModelBody => "no complete \x60pub struct Model\x60 body found".toList
  | droppedField first => "dropping relationship field: ".toList ++ trim first
  | droppedOrphan line => "dropping orphan relationship line: ".toList ++ trim line

namespace LogEntry

def component : LogEntry → List Char
  | note _ => "entity_fixer::rewrite".toList
  | brokenSettings _ => "entity_fixer::config".toList
  | _ => "entity_fixer::batch".toList

def level : LogEntry → LogLevel
  | failed _ _ => .error
  | brokenSettings _ => .warn
  | _ => .debug

def message : LogEntry → List Char
  | skipped path => "skipping excluded file ".toList ++ path.text
  | note taken => taken.logText
  | mended path stats => path.text ++ ": ".toList ++ stats.logText
  | clean file => file ++ " already clean".toList
  | failed file failure =>
    "failed to fix ".toList ++ file ++ ": ".toList ++ failure.message
  | finished changed scanned directory =>
    "fixed ".toList ++ decimalDigits changed ++ " of ".toList ++ decimalDigits scanned ++
      " entity files in ".toList ++ directory.text
  | brokenSettings path =>
    "failed to load ".toList ++ path.text ++ ", falling back to env: TOML parse error".toList

/-- The message with its further lines set in. -/
def indented (message : List Char) : List Char :=
  message.flatMap fun c => if c = '\n' then "\n    ".toList else [c]

def line (entry : LogEntry) : List Char :=
  let name := entry.level.name
  '[' :: name ++ List.replicate (5 - name.length) ' ' ++ ' ' :: entry.component ++ "] ".toList ++
    indented entry.message ++ ['\n']

end LogEntry

/-- The entries of a log that a filter tells. -/
def LogFilter.render (filter : LogFilter) (log : List LogEntry) : List Char :=
  (log.filter fun entry => filter.tells entry.component entry.level entry.message).flatMap
    LogEntry.line

end ModelMend
