import ModelMend.Batch.Failure
import ModelMend.Source.Mend
import ModelMend.Store.Replacement

/-!
# Mending one file

A file is read, mended and, unless the run is dry, replaced as a whole if its text has changed. A
file that cannot be read is left alone.
-/

namespace ModelMend

open Text

inductive FileOutcome where
  | unchanged
  | mended (stats : MendStats)
deriving DecidableEq, Repr

/-- What mending one file leaves behind. -/
structure FileMend where
  outcome : Except Failure FileOutcome
  store : Store
  notes : List MendNote := []

def mendFile (store : Store) (path : Path) (dryRun : Bool) : FileMend :=
  match store.readText path with
  | .error fault => { outcome := .error (.access path fault), store := store }
  | .ok (place, source) =>
    let mending := mend source
    if mending.changed then
      { outcome := .ok (.mended mending.stats)
        store := if dryRun then store else store.replaceFile place (encode mending.text)
        notes := mending.notes }
    else { outcome := .ok .unchanged, store := store, notes := mending.notes }

end ModelMend
