import ModelMend.Batch.Run
import ModelMend.Proofs.Store.Finding
import ModelMend.Proofs.Store.Replacement

/-!
# The verdict on a file

What a batch tells of a file and what it leaves of it is decided by what the file holds, whatever
else is in the store: no text, a text that mending leaves as it is, or one that it changes.
-/

namespace ModelMend

open Text

/-- What a batch makes of a file. -/
inductive Verdict where
  | noText
  /-- Mending leaves the text as it is. -/
  | clean (mending : Mending)
  /-- Mending changes the text. -/
  | changed (mending : Mending)

/-- A file as a batch comes upon it. -/
structure EntityFile where
  name : Bytes
  contents : Bytes
  mode : Nat
deriving DecidableEq

namespace EntityFile

def verdict (file : EntityFile) : Verdict :=
  match decode? file.contents with
  | none => .noText
  | some source =>
    if (mend source).text = source then .clean (mend source) else .changed (mend source)

/-- What the file is before the batch. -/
def node (file : EntityFile) : Node :=
  .file file.contents file.mode

/-- What the file is after the batch. -/
def mended (file : EntityFile) : Node :=
  match file.verdict with
  | .changed mending => .file (encode mending.text) file.mode
  | _ => file.node

/-- What the file is after a run that may be dry. -/
def after (file : EntityFile) (dryRun : Bool) : Node :=
  if dryRun then file.node else file.mended

/-- The name by which the file is told. -/
def shown (file : EntityFile) : List Char :=
  decodeLeniently file.name

def isClean (file : EntityFile) : Bool :=
  match file.verdict with
  | .clean _ => true
  | _ => false

/-- What the report says of the file among those that were mended. -/
def changedRecord? (file : EntityFile) : Option (List Char × MendStats) :=
  match file.verdict with
  | .changed mending => some (file.shown, mending.stats)
  | _ => none

section

variable (directory : Path) (file : EntityFile)

def path : Path :=
  directory.child file.name

/-- What stops a file that holds no text. -/
def failure : Failure :=
  .access (file.path directory) .notText

/-- What the report says of the file among those that could not be mended. -/
def failedRecord? : Option (List Char × List Char) :=
  match file.verdict with
  | .noText => some (file.shown, (file.failure directory).message)
  | _ => none

/-- What is told of the file while the batch runs. -/
def event? : Option BatchEvent :=
  match file.verdict with
  | .noText => some (.failed file.shown (file.failure directory))
  | .clean _ => none
  | .changed mending => some (.mended file.shown mending.stats)

/-- What the log says of the file. -/
def logEntries : List LogEntry :=
  match file.verdict with
  | .noText => [.failed file.shown (file.failure directory)]
  | .clean mending => mending.notes.map .note ++ [.clean file.shown]
  | .changed mending => mending.notes.map .note ++ [.mended (file.path directory) mending.stats]

/-- The file is in the directory, which is at a place. -/
structure IsIn (store : Store) (place : Place) : Prop where
  isName : isName file.name = true
  find : store.find (file.path directory) = .ok (place ++ [file.name], file.node)

end

/-- A file is reported as mended, reported as failed, or clean. -/
theorem countP_verdicts (directory : Path) (files : List EntityFile) :
    (files.filterMap changedRecord?).length + (files.filterMap (failedRecord? directory)).length +
      files.countP isClean = files.length := by
  induction files with
  | nil => rfl
  | cons file files ih =>
    rw [List.filterMap_cons, List.filterMap_cons, List.countP_cons, List.length_cons]
    cases hverdict : file.verdict <;>
      simp only [changedRecord?, failedRecord?, isClean, hverdict, List.length_cons, ↓reduceIte,
        Bool.false_eq_true] <;> omega

/-! ## Mending one file -/

variable {store : Store} {directory : Path} {place : Place} {file : EntityFile}

theorem IsIn.node?_eq (h : file.IsIn directory store place) :
    store.node? (place ++ [file.name]) = some file.node :=
  (Store.find_eq_ok_iff.1 h.find).2.2.1

/-- Mending a file follows the verdict on it. -/
theorem IsIn.mendFile_eq (h : file.IsIn directory store place) (dryRun : Bool) :
    mendFile store (file.path directory) dryRun =
      match file.verdict with
      | .noText => { outcome := .error (file.failure directory), store := store }
      | .clean mending => { outcome := .ok .unchanged, store := store, notes := mending.notes }
      | .changed mending =>
        { outcome := .ok (.mended mending.stats)
          store := if dryRun then store else
            store.replaceFile (place ++ [file.name]) (encode mending.text)
          notes := mending.notes } := by
  have hchanged (source : List Char) :
      (mend source).changed = decide ((mend source).text ≠ source) := rfl
  unfold mendFile Store.readText Store.read
  rw [h.find]
  simp only [node, verdict]
  cases decode? file.contents with
  | none => rfl
  | some source =>
    by_cases hsame : (mend source).text = source
    · simp [hchanged, hsame]
    · simp [hchanged, hsame]

/-- Mending a file leaves the verdict at its place, and everything else as it was. -/
theorem IsIn.node?_mendFile (h : file.IsIn directory store place) (dryRun : Bool) (other : Place) :
    (mendFile store (file.path directory) dryRun).store.node? other =
      if other = place ++ [file.name] then some (file.after dryRun) else store.node? other := by
  have hkept (hafter : file.after dryRun = file.node) : store.node? other =
      if other = place ++ [file.name] then some (file.after dryRun) else store.node? other := by
    by_cases hother : other = place ++ [file.name]
    · rw [if_pos hother, hother, h.node?_eq, hafter]
    · rw [if_neg hother]
  rw [h.mendFile_eq]
  cases hverdict : file.verdict with
  | noText => exact hkept (by simp [after, mended, hverdict])
  | clean mending => exact hkept (by simp [after, mended, hverdict])
  | changed mending =>
    cases dryRun with
    | true => exact hkept rfl
    | false =>
      have hafter : file.after false = .file (encode mending.text) file.mode := by
        simp [after, mended, hverdict]
      rw [hafter]
      exact Store.node?_replaceFile h.node?_eq (encode mending.text) other

/-- What mending a file adds to a run. -/
theorem IsIn.mendNext_eq {run : BatchRun} (h : file.IsIn directory run.store place) :
    run.mendNext (file.path directory) =
      { store := (mendFile run.store (file.path directory) run.report.dryRun).store
        report := { run.report with
          changed := run.report.changed ++ file.changedRecord?.toList
          failed := run.report.failed ++ (file.failedRecord? directory).toList }
        events := run.events ++ (file.event? directory).toList
        log := run.log ++ file.logEntries directory } := by
  have hshown : decodeLeniently (file.path directory).name = file.shown := by
    rw [path, Path.name_child h.isName, shown]
  unfold BatchRun.mendNext
  dsimp only
  rw [h.mendFile_eq]
  cases hverdict : file.verdict <;>
    simp [BatchRun.record, hshown, changedRecord?, failedRecord?, event?, logEntries, hverdict]

end EntityFile

end ModelMend
