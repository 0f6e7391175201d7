import ModelMend.Settings.Environment

/-!
# The settings of a batch

The section `entities` says which directory holds the entities and which files in it are left
alone. Either may be missing; each then has a default of its own.
-/

namespace ModelMend

/-- Which files a batch mends. -/
structure BatchSettings where
  /-- The directory of the entities. -/
  directory : List Char := "entity/src".toList
  /-- The names of the files that are left alone. -/
  excluded : List (List Char) :=
    ["lib.rs".toList, "prelude.rs".toList, "sea_orm_active_enums.rs".toList]
deriving DecidableEq, Repr

/-- Why settings are refused. -/
inductive SettingsError where
  /-- There is something else where a text has to stand. -/
  | notText (found : SettingKind) (origin : Option (List Char))
  /-- There is something else where a list has to stand. -/
  | notList (found : SettingKind)
  /-- There is something else where the section has to stand. -/
  | notSection (found : SettingKind)
deriving DecidableEq, Repr

/-- The name of the section. -/
def sectionKey : List Char :=
  "entities".toList

namespace SettingsError

/-- What is wrong with the settings. -/
def detail : SettingsError → List Char
  | notText found origin =>
    "invalid type: ".toList ++ found.words ++ ", expected a string for key \x60".toList ++
      sectionKey ++ ['\x60'] ++
      match origin with
      | some source => " in ".toList ++ source
      | none => []
  | notList found => "invalid type: ".toList ++ found.words ++ ", expected a sequence".toList
  | notSection found =>
    "invalid type: ".toList ++ found.words ++ ", expected struct FixConfig".toList

/-- The message of an error. -/
def message (error : SettingsError) : List Char :=
  "Entity configuration could not be loaded from file or environment: ".toList ++ error.detail

end SettingsError

namespace BatchSettings

/-- The text of a setting: every scalar has one. -/
def textOf : Setting → Except SettingsError (List Char)
  | .string value => .ok value
  | .boolean value => .ok (if value then "true".toList else "false".toList)
  | .integer value => .ok (integerText value)
  | .number value => .ok value.text
  | setting => .error (.notText setting.kind setting.origin?)

/-- The texts of a list. -/
def textsOf : Setting → Except SettingsError (List (List Char))
  | .list _ items => items.mapM textOf
  | setting => .error (.notList setting.kind)

/-- Reads one setting, or takes the default where there is none. -/
def read {α : Type} (readOne : Setting → Except SettingsError α) (default : α) :
    Option Setting → Except SettingsError α
  | none => .ok default
  | some setting => readOne setting

/-- The settings in two places: the directory and the exclusions. -/
def ofPlaces (directory excluded : Option Setting) : Except SettingsError BatchSettings := do
  let directory ← read textOf ({} : BatchSettings).directory directory
  let excluded ← read textsOf ({} : BatchSettings).excluded excluded
  return ⟨directory, excluded⟩

/-- The settings of the section: a table with a key for each, or a list with the directory first. -/
def ofSection : Option Setting → Except SettingsError BatchSettings
  | none => .ok {}
  | some (.table _ entries) =>
    ofPlaces (Setting.lookup? "dir".toList entries) (Setting.lookup? "exclude".toList entries)
  | some (.list _ items) => ofPlaces items[0]? items[1]?
  | some setting => .error (.notSection setting.kind)

end BatchSettings

/-- Settings of one source laid over those before it. -/
def Setting.withSource (settings : Setting) (source : List (List Char × Setting)) : Setting :=
  source.foldl (fun settings entry => Setting.put entry.2 (KeyPath.ofKey entry.1) settings) settings

/-- The settings of a batch from the entries of a file and from an environment, the environment over
the file. -/
def BatchSettings.ofSources (file : List (List Char × Setting)) (environment : Environment) :
    Except SettingsError BatchSettings :=
  let settings := (Setting.empty.withSource file).withSource environment.settings
  ofSection (settings.get? sectionKey)

end ModelMend
