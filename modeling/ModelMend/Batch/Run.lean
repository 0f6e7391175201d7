import ModelMend.Batch.Discovery
import ModelMend.Batch.FileMend
import ModelMend.Batch.Report

/-!
# Running a batch

The entities of a directory are found once and mended one after the other. A file that fails is
reported, and the others are still mended. A dry run writes nothing and tells the same.
-/

namespace ModelMend

/-- A batch under way: the store, the report so far, and what has been told. -/
structure BatchRun where
  store : Store
  report : Report
  events : List BatchEvent
  log : List LogEntry
deriving DecidableEq, Repr

namespace BatchRun

/-- The files of a directory have been found, and none has been looked at. -/
def start (store : Store) (directory : Path) (found : Discovery) (dryRun : Bool) : BatchRun where
  store := store
  report := { directory := directory, dryRun := dryRun, scanned := found.entities.length }
  events := [.discovered found.entities.length]
  log := found.skipped.map .skipped

/-- The file at a path has been looked at: the outcome goes into the report, the events and the
log. -/
def record (run : BatchRun) (path : Path) (notes : List MendNote)
    (outcome : Except Failure FileOutcome) (store : Store) : BatchRun :=
  let file := Text.decodeLeniently path.name
  let log := run.log ++ notes.map LogEntry.note
  match outcome with
  | .ok .unchanged => { run with store := store, log := log ++ [.clean file] }
  | .ok (.mended stats) =>
    { store := store
      report := { run.report with changed := run.report.changed ++ [(file, stats)] }
      events := run.events ++ [.mended file stats]
      log := log ++ [.mended path stats] }
  | .error failure =>
    { store := store
      report := { run.report with failed := run.report.failed ++ [(file, failure.message)] }
      events := run.events ++ [.failed file failure]
      log := log ++ [.failed file failure] }

/-- Mends the file at a path. -/
def mendNext (run : BatchRun) (path : Path) : BatchRun :=
  let result := mendFile run.store path run.report.dryRun
  run.record path result.notes result.outcome result.store

/-- The entry at the end of the log. -/
def finish (run : BatchRun) : BatchRun :=
  { run with
    log := run.log ++
      [.finished run.report.changedCount run.report.scanned run.report.directory] }

end BatchRun

/-- Mends every entity of the directory that the settings name. -/
def runBatch (store : Store) (settings : BatchSettings) (dryRun : Bool) :
    Except Failure BatchRun :=
  let directory := Path.ofText settings.directory
  match discover store directory settings.excluded with
  | .error failure => .error failure
  | .ok found =>
    let start := BatchRun.start store directory found dryRun
    .ok (found.entities.foldl BatchRun.mendNext start).finish

end ModelMend
