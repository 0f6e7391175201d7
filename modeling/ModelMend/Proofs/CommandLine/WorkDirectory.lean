import ModelMend.Proofs.CommandLine.Presentation
import ModelMend.Proofs.Settings.Layers
import ModelMend.Proofs.Toml.Written

/-!
# The directory of a run

The directory of the entities is named by an argument, by the file of settings or by the environment
(`directory_ways`). An argument and a string of the file are taken character by character. What stands
in the environment is read as a boolean, an integer or a number first, and the directory is what that is
written as (`Environment.rewritten`): the name itself only if it is written back
(`Environment.WrittenBack`).
-/

namespace ModelMend

open Text

/-! ## Names in the environment -/

namespace Environment

/-- What a text in the environment is written as once it is read. -/
def rewritten (value : List Char) : List Char :=
  let word := value.map Char.toLower
  if word = "true".toList ∨ word = "false".toList then word
  else
    match (integerOfText? value).filter fitsSigned64 with
    | some n => integerText n
    | none =>
      match Binary64.ofText? value with
      | some x => x.text
      | none => value

theorem textOf_valueOf (value : List Char) :
    BatchSettings.textOf (valueOf directoryKey value) = .ok (rewritten value) := by
  have hne : directoryKey ≠ listKey := by decide
  unfold valueOf rewritten
  dsimp only
  by_cases htrue : value.map Char.toLower = "true".toList
  · rw [if_pos htrue, if_pos (Or.inl htrue), htrue]
    rfl
  by_cases hfalse : value.map Char.toLower = "false".toList
  · rw [if_neg htrue, if_pos hfalse, if_pos (Or.inr hfalse), hfalse]
    rfl
  rw [if_neg htrue, if_neg hfalse, if_neg (not_or.2 ⟨htrue, hfalse⟩)]
  cases (integerOfText? value).filter fitsSigned64 with
  | some n => rfl
  | none =>
    cases Binary64.ofText? value with
    | some x => rfl
    | none =>
      dsimp only
      rw [if_neg hne]
      rfl

/-- The text is what it is written as once it is read: as a text, or as a boolean, an integer or a number
in the one way in which each is written. -/
inductive WrittenBack (value : List Char) : Prop where
  | text (read : ReadsAsText value)
  | boolean (word : value = "true".toList ∨ value = "false".toList)
  | integer {n : Int} (notBoolean : value.map Char.toLower ∉ ["true".toList, "false".toList])
      (read : (integerOfText? value).filter fitsSigned64 = some n) (written : integerText n = value)
  | number {x : Binary64} (notBoolean : value.map Char.toLower ∉ ["true".toList, "false".toList])
      (notInteger : (integerOfText? value).filter fitsSigned64 = none)
      (read : Binary64.ofText? value = some x) (written : x.text = value)

theorem rewritten_eq_iff (value : List Char) : rewritten value = value ↔ WrittenBack value := by
  unfold rewritten
  dsimp only
  constructor
  · intro h
    split at h
    · next hword =>
      rw [h] at hword
      exact .boolean hword
    · next hword =>
      have hboolean : value.map Char.toLower ∉ ["true".toList, "false".toList] := by
        simpa using hword
      split at h
      · next n hinteger => exact .integer hboolean hinteger h
      · next hinteger =>
        split at h
        · next x hnumber => exact .number hboolean hinteger hnumber h
        · next hnumber => exact .text ⟨hboolean, hinteger, hnumber⟩
  · have hword (hboolean : value.map Char.toLower ∉ ["true".toList, "false".toList]) :
        ¬(value.map Char.toLower = "true".toList ∨ value.map Char.toLower = "false".toList) := by
      simpa using hboolean
    rintro (⟨hboolean, hinteger, hnumber⟩ | hboolean | ⟨hboolean, hinteger, hwritten⟩ |
      ⟨hboolean, hinteger, hnumber, hwritten⟩)
    · rw [if_neg (hword hboolean), hinteger, hnumber]
    · rcases hboolean with rfl | rfl <;> decide
    · rw [if_neg (hword hboolean), hinteger]
      exact hwritten
    · rw [if_neg (hword hboolean), hinteger, hnumber]
      exact hwritten

/-- The environment sets the directory to this text, if at all, and may set the exclusions; nothing is
set twice. -/
structure Names (environment : Environment) (directory : Option (List Char)) : Prop where
  known : ∀ entry ∈ environment.named, entry.1 = directoryKey ∨ entry.1 = listKey
  once : (environment.named.map Prod.fst).Nodup
  directory_eq : environment.named.lookup directoryKey = directory
  exclusions : ∀ value, environment.named.lookup listKey = some value → ReadsAsText value

end Environment

section

variable [SettingsFormats]

/-- The directory is the one that the environment names, as it is rewritten, else the one that the file
names, else the default. -/
theorem exists_settings_of_names {store : Store} {path : Path} {environment : Environment}
    {fileDirectory directory : Option (List Char)} {fileExcluded : Option (List (List Char))}
    (hfile : FileSets store path fileDirectory fileExcluded)
    (henvironment : environment.Names directory) :
    ∃ excluded, (loadSettings store path environment).settings = .ok
      { directory :=
          ((directory.map Environment.rewritten).or fileDirectory).getD "entity/src".toList
        excluded := excluded } := by
  obtain ⟨source, settings, hload, hsection, hdirectory, hexcluded⟩ :=
    hfile.exists_settings environment
  obtain ⟨hlayered, hdirectory', hexcluded'⟩ :=
    Environment.withSource_known henvironment.known henvironment.once hsection
  have hlist := Environment.map_valueOf_of_readsAsText Environment.listKey henvironment.exclusions
  simp only [↓reduceIte] at hlist
  have hread : ∃ excluded, BatchSettings.read BatchSettings.textsOf ({} : BatchSettings).excluded
      (((environment.named.lookup Environment.listKey).map Environment.listOf).or
        (fileExcluded.map fun names => .list (some source) (names.map .string))) = .ok excluded := by
    cases environment.named.lookup Environment.listKey with
    | some value =>
      exact ⟨_, BatchSettings.textsOf_list (some "the environment".toList) (split ',' value)⟩
    | none =>
      cases fileExcluded with
      | some names => exact ⟨_, BatchSettings.textsOf_list (some source) names⟩
      | none => exact ⟨_, rfl⟩
  have hname : BatchSettings.read BatchSettings.textOf ({} : BatchSettings).directory
      ((directory.map (Environment.valueOf directoryKey)).or (fileDirectory.map .string)) =
      .ok (((directory.map Environment.rewritten).or fileDirectory).getD "entity/src".toList) := by
    cases directory with
    | some value => exact Environment.textOf_valueOf value
    | none => exact BatchSettings.read_textOf fileDirectory _
  obtain ⟨excluded, hread⟩ := hread
  refine ⟨excluded, ?_⟩
  rw [hload, Environment.settings_eq, BatchSettings.ofSection_eq hlayered, hdirectory', hexcluded',
    hdirectory, hexcluded, hlist, henvironment.directory_eq, BatchSettings.ofPlaces, hname, hread]
  rfl

/-- The document that is written for a directory sets it. -/
theorem fileSets_documentOf {store : Store} {path file : Path} {place : Place} {directory : List Char}
    (hdirectory : directory ≠ []) (hfile : settingsFile? store path = some (file, .toml))
    (hread : store.read file = .ok (place, encode (Toml.documentOf directory))) :
    FileSets store path (some directory) none := by
  have htext : markedText (encode (Toml.documentOf directory)) = Toml.documentOf directory := by
    rw [markedText, decodeLeniently_encode]
    rfl
  have hfound : readSettings store path =
      .document (Setting.ofEntries file.normalized.text (Toml.directoryEntries directory)) := by
    rw [readSettings_of_toml hfile hread, htext, Toml.parse?_documentOf hdirectory]
  refine .document hfound ⟨?_, by simp [Toml.Entries.Distinct, Toml.directoryEntries], ?_⟩
  · intro entry hentry
    have hkey : entry.1 = "entities".toList := by rw [List.mem_singleton.1 hentry]
    rw [hkey]
    exact ⟨by decide, List.all_eq_true.1 (by decide)⟩
  · exact .something rfl (by simp [Toml.Entries.Distinct]) rfl rfl

end

/-! ## A directory among the arguments -/

namespace ArgumentReader

variable {reader after : ArgumentReader} {switch : Switch} {word : List Char}

/-- A directory that has been read is taken or pending. -/
def KeepsDirectory (reader : ArgumentReader) : Prop :=
  reader.hasDirectory = true →
    (∃ value, reader.pending = some (.directory value)) ∨ reader.arguments.directory ≠ none

theorem takeValue_directory {value : List Char} (h : reader.takeValue switch value = .ok after) :
    after.hasDirectory = reader.hasDirectory ∧
      after.arguments.directory = reader.arguments.directory := by
  unfold takeValue at h
  split at h
  · cases h
    exact ⟨rfl, rfl⟩
  · split at h
    · cases h
    · split at h
      · cases h
      · cases h
        exact ⟨rfl, rfl⟩

/-- What is taken stays taken, and a directory that is pending is taken. -/
theorem directory_of_settle (h : reader.settle = .ok after) :
    (reader.arguments.directory ≠ none → after.arguments.directory ≠ none) ∧
      ∀ value, reader.pending = some (.directory value) → after.arguments.directory = some value := by
  unfold settle at h
  split at h
  · next hpending =>
    cases h
    rw [hpending]
    exact ⟨id, nofun⟩
  · cases h
  · next hpending =>
    rw [hpending, (takeValue_directory h).2]
    exact ⟨id, nofun⟩
  · next value hpending =>
    split at h
    · cases h
    · cases h
      rw [hpending]
      refine ⟨fun _ => nofun, ?_⟩
      rintro other ⟨⟩
      rfl

theorem KeepsDirectory.settle (h : reader.KeepsDirectory) (hsettle : reader.settle = .ok after) :
    after.hasDirectory = true → after.arguments.directory ≠ none := by
  obtain ⟨-, hflag, -⟩ := pending_of_settle hsettle
  obtain ⟨hkept, hpending⟩ := directory_of_settle hsettle
  rw [hflag]
  intro hdirectory
  rcases h hdirectory with ⟨value, hvalue⟩ | htaken
  · rw [hpending value hvalue]
    exact nofun
  · exact hkept htaken

theorem KeepsDirectory.takeSwitch (h : reader.KeepsDirectory)
    (htake : reader.takeSwitch switch = .ok after) : after.KeepsDirectory := by
  obtain ⟨settled, hsettle, -, -, -, rfl⟩ := takeSwitch_eq_ok htake
  intro hdirectory
  have hsettled := h.settle hsettle hdirectory
  have hsame : (turnOn settled.arguments switch).directory = settled.arguments.directory := by
    cases switch <;> rfl
  right
  change (turnOn settled.arguments switch).directory ≠ none
  rwa [hsame]

theorem KeepsDirectory.readShort {letters : List Char} (h : reader.KeepsDirectory)
    (hread : reader.readShort letters = .ok after) : after.KeepsDirectory := by
  induction letters generalizing reader with
  | nil =>
    cases hread
    exact h
  | cons letter letters ih =>
    unfold ArgumentReader.readShort at hread
    rw [List.foldlM_cons] at hread
    split at hread
    · cases hread
    · cases htake : reader.takeSwitch _ with
      | error stop =>
        rw [htake] at hread
        cases hread
      | ok next =>
        rw [htake] at hread
        exact ih (h.takeSwitch htake) hread

theorem KeepsDirectory.readLong {text : List Char} (h : reader.KeepsDirectory)
    (hread : reader.readLong text = .ok after) : after.KeepsDirectory := by
  unfold ArgumentReader.readLong at hread
  dsimp only at hread
  split at hread
  · cases hread
  · split at hread
    · cases hsettle : reader.settle with
      | error stop =>
        rw [hsettle] at hread
        cases hread
      | ok settled =>
        rw [hsettle] at hread
        cases hread
        intro hdirectory
        have hsettled : settled.arguments.directory ≠ none := h.settle hsettle hdirectory
        exact Or.inr hsettled
    · cases hsettle : reader.settle with
      | error stop =>
        rw [hsettle] at hread
        cases hread
      | ok settled =>
        rw [hsettle] at hread
        obtain ⟨hflag, hsame⟩ := takeValue_directory hread
        intro hdirectory
        rw [hflag] at hdirectory
        rw [hsame]
        exact Or.inr (h.settle hsettle hdirectory)
    · exact h.takeSwitch hread
    · cases hread

theorem keepsDirectory_of_readDirectory (hread : reader.readDirectory word = .ok after) :
    after.KeepsDirectory := by
  unfold readDirectory at hread
  split at hread
  · cases hread
  · cases hsettle : reader.settle with
    | error stop =>
      rw [hsettle] at hread
      cases hread
    | ok settled =>
      rw [hsettle] at hread
      cases hread
      exact fun _ => Or.inl ⟨word, rfl⟩

/-- Every word that is read keeps a directory that was read before. -/
theorem KeepsDirectory.read (h : reader.KeepsDirectory) (hread : reader.read word = .ok after) :
    after.KeepsDirectory := by
  unfold ArgumentReader.read at hread
  split at hread
  · exact keepsDirectory_of_readDirectory hread
  · split at hread
    · cases hread
      exact h
    · exact h.readLong hread
    · exact h.readShort hread
    · next hpending =>
      cases hread
      intro hdirectory
      rcases h hdirectory with ⟨value, hvalue⟩ | htaken
      · rw [hpending] at hvalue
        cases hvalue
      · exact Or.inr htaken
    · exact keepsDirectory_of_readDirectory hread

theorem KeepsDirectory.readAll {words : List (List Char)} (h : reader.KeepsDirectory)
    (hread : words.foldlM ArgumentReader.read reader = .ok after) : after.KeepsDirectory := by
  induction words generalizing reader with
  | nil =>
    cases hread
    exact h
  | cons word words ih =>
    rw [List.foldlM_cons] at hread
    cases hfirst : reader.read word with
    | error stop =>
      rw [hfirst] at hread
      cases hread
    | ok next =>
      rw [hfirst] at hread
      exact ih (h.read hfirst) hread

theorem finish_eq_ok_iff {arguments : Arguments} : reader.finish = .ok arguments ↔
    ∃ settled, reader.settle = .ok settled ∧ settled.arguments = arguments ∧
      (settled.seen.filter fun switch => switch = .quiet || switch = .verbose).length < 2 := by
  unfold finish
  cases reader.settle with
  | error stop => simp
  | ok settled =>
    simp only [Except.ok.injEq, exists_eq_left']
    cases settled.seen.filter fun switch => switch = .quiet || switch = .verbose with
    | nil => simp
    | cons first rest =>
      cases rest with
      | nil => simp
      | cons second rest => simp [refuse]

/-- A value that is no switch is read as the directory, if there is none and no switch waits for it. -/
theorem read_eq_readDirectory (hswitch : ∀ switch, reader.pending ≠ some (.switch switch))
    (hword : word.head? ≠ some '-') : reader.read word = reader.readDirectory word := by
  by_cases hvalues : reader.onlyValues = true
  · unfold ArgumentReader.read
    rw [if_pos hvalues]
  · rw [read_value (Bool.eq_false_iff.2 hvalues)]
    · split
      · next switch hpending => exact absurd hpending (hswitch switch)
      · rfl
    · rintro letter letters rfl
      exact hword rfl

end ArgumentReader

theorem Arguments.parse_eq_ok_iff {words : List (List Char)} {arguments : Arguments} :
    parse words = .ok arguments ↔
      ∃ reader, words.foldlM ArgumentReader.read {} = .ok reader ∧ reader.finish = .ok arguments := by
  unfold parse
  cases words.foldlM ArgumentReader.read {} with
  | error stop => simp [Except.bind]
  | ok reader => simp [Except.bind]

/-- A directory behind arguments that name none is the directory. -/
theorem Arguments.parse_concat {words : List (List Char)} {arguments : Arguments}
    (hparse : parse words = .ok arguments) (hnone : arguments.directory = none) {directory : List Char}
    (hempty : directory ≠ []) (hhyphen : directory.head? ≠ some '-') :
    parse (words ++ [directory]) = .ok { arguments with directory := some directory } := by
  obtain ⟨reader, hwords, hfinish⟩ := parse_eq_ok_iff.1 hparse
  obtain ⟨settled, hsettle, rfl, hswitches⟩ := ArgumentReader.finish_eq_ok_iff.1 hfinish
  have hkeeps : reader.KeepsDirectory := by
    apply ArgumentReader.KeepsDirectory.readAll _ hwords
    intro hdirectory
    cases hdirectory
  have hfirst : reader.hasDirectory = false := by
    rw [Bool.eq_false_iff]
    intro hdirectory
    rw [← (ArgumentReader.pending_of_settle hsettle).2.1] at hdirectory
    exact hkeeps.settle hsettle hdirectory hnone
  have hswitch : ∀ switch, reader.pending ≠ some (.switch switch) := by
    intro switch hpending
    rw [ArgumentReader.settle, hpending] at hsettle
    cases hsettle
  have hread : reader.read directory =
      .ok { settled with pending := some (.directory directory), hasDirectory := true } := by
    rw [ArgumentReader.read_eq_readDirectory hswitch hhyphen, ArgumentReader.readDirectory, hfirst,
      if_neg Bool.false_ne_true, hsettle]
    rfl
  have htaken : ArgumentReader.settle
      { settled with pending := some (.directory directory), hasDirectory := true } =
      .ok { settled with
        arguments := { settled.arguments with directory := some directory }
        pending := none, hasDirectory := true } := by
    rw [ArgumentReader.settle]
    exact if_neg (by simpa using hempty)
  rw [parse_eq_ok_iff]
  refine ⟨_, ?_, ArgumentReader.finish_eq_ok_iff.2 ⟨_, htaken, rfl, hswitches⟩⟩
  rw [List.foldlM_append, hwords]
  change (reader.read directory >>= pure) = _
  rw [bind_pure, hread]

/-! ## The directory that a run works on -/

section

variable [SettingsFormats]

/-- A run with these words, in this environment and on this store, works on this directory. -/
def WorksOn (words : List (List Char)) (environment : Environment) (store : Store)
    (directory : List Char) : Prop :=
  ∃ arguments settings, Arguments.parse words = .ok arguments ∧
    (loadSettings store (.ofText arguments.config) environment).settings = .ok settings ∧
    (arguments.override settings).directory = directory

section

variable {words : List (List Char)} {environment : Environment} {store : Store}
  {directory other : List Char}

theorem WorksOn.unique (h : WorksOn words environment store directory)
    (hother : WorksOn words environment store other) : directory = other := by
  obtain ⟨arguments, settings, hparse, hloaded, rfl⟩ := h
  obtain ⟨arguments', settings', hparse', hloaded', rfl⟩ := hother
  rw [hparse, Except.ok.injEq] at hparse'
  subst hparse'
  rw [hloaded, Except.ok.injEq] at hloaded'
  subst hloaded'
  rfl

/-- What such a run leaves is what a batch on this directory leaves. -/
theorem WorksOn.store_runCommand (h : WorksOn words environment store directory) :
    ∃ excluded dryRun, (runCommand words environment store).store =
      match runBatch store ⟨directory, excluded⟩ dryRun with
      | .ok run => run.store
      | .error _ => store := by
  obtain ⟨arguments, settings, hparse, hloaded, rfl⟩ := h
  refine ⟨(arguments.override settings).excluded, arguments.dryRun, ?_⟩
  rw [runCommand_of_parse hparse, runWith, hloaded]
  dsimp only
  cases runBatch store (arguments.override settings) arguments.dryRun with
  | ok run => rfl
  | error failure => rfl

end

/-- **The three ways to name a directory.** As an argument and as the string in the file a directory is
itself, character by character, and a document that says so can be written for every directory. In the
environment it is what it is written as once it is read, so it is itself exactly if it is written back. -/
theorem directory_ways {directory : List Char} (hempty : directory ≠ [])
    (hhyphen : directory.head? ≠ some '-') {words : List (List Char)} {arguments : Arguments}
    (hparse : Arguments.parse words = .ok arguments) (hnone : arguments.directory = none)
    (store : Store) (environment : Environment) :
    (∀ settings, (loadSettings store (.ofText arguments.config) environment).settings = .ok settings →
      WorksOn (words ++ [directory]) environment store directory) ∧
    (∀ excluded, FileSets store (.ofText arguments.config) (some directory) excluded →
      environment.Names none → WorksOn words environment store directory) ∧
    (∀ file place, settingsFile? store (.ofText arguments.config) = some (file, .toml) →
      store.read file = .ok (place, encode (Toml.documentOf directory)) →
      environment.Names none → WorksOn words environment store directory) ∧
    ∀ fileDirectory excluded, FileSets store (.ofText arguments.config) fileDirectory excluded →
      environment.Names (some directory) →
      WorksOn words environment store (Environment.rewritten directory) ∧
        (WorksOn words environment store directory ↔ Environment.WrittenBack directory) := by
  have hworks {found : BatchSettings}
      (hloaded : (loadSettings store (.ofText arguments.config) environment).settings = .ok found) :
      WorksOn words environment store found.directory := by
    refine ⟨arguments, found, hparse, hloaded, ?_⟩
    rw [Arguments.override, hnone]
    rfl
  have hfileWorks {excluded : Option (List (List Char))}
      (hfile : FileSets store (.ofText arguments.config) (some directory) excluded)
      (henvironment : environment.Names none) : WorksOn words environment store directory := by
    obtain ⟨_, hloaded⟩ := exists_settings_of_names hfile henvironment
    exact hworks hloaded
  refine ⟨?_, ?_, ?_, ?_⟩
  · intro settings hloaded
    exact ⟨_, settings, Arguments.parse_concat hparse hnone hempty hhyphen, hloaded, rfl⟩
  · intro excluded hfile henvironment
    exact hfileWorks hfile henvironment
  · intro file place hfound hread henvironment
    exact hfileWorks (fileSets_documentOf hempty hfound hread) henvironment
  · intro fileDirectory excluded hfile henvironment
    obtain ⟨_, hloaded⟩ := exists_settings_of_names hfile henvironment
    have hrewritten : WorksOn words environment store (Environment.rewritten directory) :=
      hworks hloaded
    refine ⟨hrewritten, ?_⟩
    rw [← Environment.rewritten_eq_iff]
    constructor
    · intro hdirectory
      exact hrewritten.unique hdirectory
    · intro hsame
      rwa [hsame] at hrewritten

end

/-- An environment that names a directory, and nothing else. -/
def directoryEnvironment (directory : List Char) : Environment :=
  [("FIX_ENTITIES__ENTITIES__DIR".toList, directory)]

theorem names_directoryEnvironment (directory : List Char) :
    (directoryEnvironment directory).Names (some directory) := by
  have hkey : Environment.key? "FIX_ENTITIES__ENTITIES__DIR".toList = some directoryKey := by decide
  have hnamed : (directoryEnvironment directory).named = [(directoryKey, directory)] := by
    unfold Environment.named directoryEnvironment
    rw [List.filterMap_cons, hkey]
    rfl
  have hne : Environment.listKey ≠ directoryKey := by decide
  constructor
  · rw [hnamed, List.forall_mem_singleton]
    exact Or.inl rfl
  · rw [hnamed]
    exact List.nodup_singleton _
  · rw [hnamed, List.lookup_cons_self]
  · rw [hnamed, List.lookup_cons, beq_eq_false_iff_ne.2 hne]
    exact nofun

theorem names_nothing : Environment.Names [] none where
  known := nofun
  once := List.nodup_nil
  directory_eq := rfl
  exclusions := nofun

/-- A file of settings that is written for the directory `cake`. -/
def cakeDocument : Store where
  nodes := [([encode "s.toml".toList], .file (encode (Toml.documentOf "cake".toList)) 0o644)]
  distinct := by decide
  proper := by decide

theorem directory_ways_cake :
    WorksOn ["--config".toList, "s.toml".toList, "cake".toList] [] .empty "cake".toList ∧
      WorksOn ["--config".toList, "s.toml".toList] [] cakeDocument "cake".toList ∧
      WorksOn ["--config".toList, "s.toml".toList] (directoryEnvironment "cake".toList) .empty
        "cake".toList := by
  have hparse : Arguments.parse ["--config".toList, "s.toml".toList] =
      .ok { config := "s.toml".toList } := by
    decide
  have hways := @directory_ways _ "cake".toList (by decide) (by decide) _ _ hparse rfl
  have habsent : FileSets .empty (.ofText "s.toml".toList) none none := .absent rfl
  obtain ⟨excluded, hloaded⟩ := exists_settings_of_names habsent names_nothing
  refine ⟨(hways .empty []).1 _ hloaded, ?_, ?_⟩
  · apply (hways cakeDocument []).2.2.1 (.ofText "s.toml".toList) [encode "s.toml".toList]
    · decide +kernel
    · decide +kernel
    · exact names_nothing
  · have hback : Environment.WrittenBack "cake".toList :=
      .text ⟨by decide +kernel, by decide +kernel, rfl⟩
    have hnames := names_directoryEnvironment "cake".toList
    exact ((hways .empty _).2.2.2 none none habsent hnames).2.2 hback

theorem environment_rewrites_directory :
    WorksOn ["007".toList] [] .empty "007".toList ∧
      WorksOn [] (directoryEnvironment "007".toList) .empty "7".toList ∧
      ¬WorksOn [] (directoryEnvironment "007".toList) .empty "007".toList := by
  have habsent : FileSets .empty (.ofText ({} : Arguments).config) none none :=
    .absent rfl
  obtain ⟨excluded, hnothing⟩ := exists_settings_of_names habsent names_nothing
  obtain ⟨excluded', hloaded⟩ :=
    exists_settings_of_names habsent (names_directoryEnvironment "007".toList)
  have hrewritten : Environment.rewritten "007".toList = "7".toList := by decide +kernel
  have hseven : WorksOn [] (directoryEnvironment "007".toList) .empty "7".toList := by
    refine ⟨{}, _, rfl, hloaded, ?_⟩
    rw [← hrewritten]
    rfl
  refine ⟨⟨{ directory := some "007".toList }, _, by decide, hnothing, rfl⟩, hseven, ?_⟩
  intro hzeros
  have hsame := hseven.unique hzeros
  revert hsame
  decide

end ModelMend
