import ModelMend.Batch.Failure
import ModelMend.Source.Stats

/-!
# Reports, events and the log

What a batch tells: a report at its end, events while it runs, and log entries in more detail. Files
are told by their names.
-/

namespace ModelMend

/-- The counts of one run over a directory. -/
structure Report where
  directory : Path
  dryRun : Bool
  /-- The number of files that were found. -/
  scanned : Nat
  /-- The files that were mended, or would be, with their statistics. -/
  changed : List (List Char × MendStats) := []
  /-- The files that could not be mended, with a message. -/
  failed : List (List Char × List Char) := []
deriving DecidableEq, Repr

namespace Report

def changedCount (report : Report) : Nat :=
  report.changed.length

def hasFailures (report : Report) : Bool :=
  !report.failed.isEmpty

end Report

inductive BatchEvent where
  /-- So many files were found. -/
  | discovered (count : Nat)
  | mended (file : List Char) (stats : MendStats)
  | failed (file : List Char) (failure : Failure)
deriving DecidableEq, Repr

inductive LogEntry where
  /-- An excluded file. -/
  | skipped (path : Path)
  /-- A note from mending a text. -/
  | note (note : MendNote)
  | mended (path : Path) (stats : MendStats)
  /-- A file that needs no mending. -/
  | clean (file : List Char)
  | failed (file : List Char) (failure : Failure)
  /-- The end of a batch. -/
  | finished (changed scanned : Nat) (directory : Path)
  /-- A file of settings that cannot be read as such. -/
  | brokenSettings (path : Path)
deriving DecidableEq, Repr

end ModelMend
