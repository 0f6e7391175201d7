import ModelMend.Settings.BatchSettings
import ModelMend.Store.Basic
import ModelMend.Toml.Document

/-!
# Loading settings

Settings come from a file, if there is one, and from the environment. A file is found under its own
path, if its extension is that of a format, or else with such an extension added to its path. A file
that is no document of its format counts as no file.

Files in TOML are read here. What files in other formats hold is left open, and so is the order in
which the formats are tried (`SettingsFormats`).
-/

namespace ModelMend

open Text

def defaultSettingsPath : Path :=
  Path.ofText "config/fix_entities.toml".toList

/-- The formats of files of settings. -/
inductive SettingsFormat where
  | toml
  | json
  | yaml
  | ini
  | ron
  | json5
deriving DecidableEq, Repr

/-- The extensions of the files in a format. -/
def SettingsFormat.extensions : SettingsFormat → List Bytes
  | toml => [encode "toml".toList]
  | json => [encode "json".toList]
  | yaml => [encode "yaml".toList, encode "yml".toList]
  | ini => [encode "ini".toList]
  | ron => [encode "ron".toList]
  | json5 => [encode "json5".toList]

/-- What is left open about the formats of files of settings. -/
class SettingsFormats where
  /-- The formats in the order in which their extensions are tried. -/
  order : List SettingsFormat
  complete : ∀ format, format ∈ order
  /-- The entries of a document in a format other than TOML, given the name of its file. -/
  parseOther? : SettingsFormat → List Char → List Char → Option (List (List Char × Setting))

/-- Here TOML is tried first, and a file in another format is no document. -/
instance (priority := low) : SettingsFormats where
  order := [.toml, .json, .yaml, .ini, .ron, .json5]
  complete format := by cases format <;> decide
  parseOther? _ _ _ := none

/-- A path with an extension added to its last name. -/
def Path.addExtension? (path : Path) (extension : Bytes) : Option Path :=
  let names := path.names
  if names.isEmpty || names.getLast? = some parentName then none
  else
    some ⟨(if path.isAbsolute then [slash] else []) ++ List.intercalate [slash] names ++
      0x2e :: extension⟩

section

variable [SettingsFormats]

/-- The files that settings are looked for in when a path is no file itself. -/
def settingsCandidates (path : Path) : List (Path × SettingsFormat) :=
  SettingsFormats.order.flatMap fun format =>
    format.extensions.filterMap fun extension =>
      (path.addExtension? extension).map fun file => (file, format)

/-- The file of settings that a path stands for, and its format. -/
def settingsFile? (store : Store) (path : Path) : Option (Path × SettingsFormat) :=
  if store.isFile path then
    (SettingsFormats.order.find? fun format =>
      format.extensions.any (hasExtension · path.name)).map fun format => (path, format)
  else (settingsCandidates path).find? fun candidate => store.isFile candidate.1

/-- The entries of a document, given its format and the name of its file. -/
def SettingsFormat.parse? (format : SettingsFormat) (name text : List Char) :
    Option (List (List Char × Setting)) :=
  match format with
  | toml => (Toml.parse? text).map (Setting.ofEntries name)
  | format => SettingsFormats.parseOther? format name text

/-- What is found where a file of settings is looked for. -/
inductive SettingsSource where
  | absent
  /-- A file that is no document of its format. -/
  | broken
  | document (entries : List (List Char × Setting))

/-- The text of bytes without a byte order mark in front. -/
def markedText (bytes : Bytes) : List Char :=
  Toml.withoutMark (decodeLeniently bytes)

/-- Reads the file of settings that a path stands for. -/
def readSettings (store : Store) (path : Path) : SettingsSource :=
  match settingsFile? store path with
  | none => .absent
  | some (file, format) =>
    match store.read file with
    | .error _ => .absent
    | .ok (_, bytes) =>
      match format.parse? file.normalized.text (markedText bytes) with
      | none => .broken
      | some entries => .document entries

structure LoadedSettings where
  settings : Except SettingsError BatchSettings
  /-- There is a file of settings, but it is no document. -/
  isBroken : Bool

/-- Loads the settings of a batch from the file that a path stands for and from the environment. -/
def loadSettings (store : Store) (path : Path) (environment : Environment) : LoadedSettings :=
  match readSettings store path with
  | .absent => ⟨BatchSettings.ofSources [] environment, false⟩
  | .broken => ⟨BatchSettings.ofSources [] environment, true⟩
  | .document entries => ⟨BatchSettings.ofSources entries environment, false⟩

end

end ModelMend
