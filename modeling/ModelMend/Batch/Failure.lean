import ModelMend.Settings.BatchSettings
import ModelMend.Store.Basic

/-!
# Failures

What stops a file, or the whole batch, from being mended.
-/

namespace ModelMend

/-- What stops a file or a batch. -/
inductive Failure where
  /-- The directory of the entities is not there. -/
  | missingDirectory (directory : Path)
  /-- A file cannot be reached or read. -/
  | access (path : Path) (fault : Fault)
  /-- The settings are refused. -/
  | settings (error : SettingsError)
deriving DecidableEq, Repr

namespace Failure

def message : Failure → List Char
  | missingDirectory directory => "Entity directory does not exist: ".toList ++ directory.text
  | access path fault => path.text ++ ": ".toList ++ fault.message
  | settings error => "Configuration error: ".toList ++ error.message

/-- The message of what lies behind a failure. -/
def cause? : Failure → Option (List Char)
  | missingDirectory _ => none
  | access _ fault => some fault.message
  | settings error => some error.message

end Failure

end ModelMend
