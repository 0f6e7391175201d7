import ModelMend.CommandLine.Run
import ModelMend.Proofs.Batch.Accounting
import ModelMend.Proofs.CommandLine.WorkingWords
import ModelMend.Proofs.Text.Lines

/-!
# Work and telling

What a run does and how it ends depend on the working words and on the environment without the filter
of the log (`runCommand_presentation`). What it tells, when it tells what it does, is a line for each
file that it changes, between a first line and a last one with the counts (`Report.lines`).
-/

namespace ModelMend

open Text

/-! ## The work of a run -/

namespace Environment

/-- The environment without the variable that filters the log. -/
def withoutLog (environment : Environment) : Environment :=
  environment.filter fun entry => entry.1 ≠ "RUST_LOG".toList

theorem key?_log : key? "RUST_LOG".toList = none := by
  decide

/-- The variable that filters the log is no setting. -/
theorem settings_withoutLog (environment : Environment) :
    environment.withoutLog.settings = environment.settings := by
  unfold settings withoutLog
  rw [List.filterMap_filter]
  congr 1
  funext entry
  by_cases hlog : entry.1 = "RUST_LOG".toList
  · rw [hlog, key?_log]
    rfl
  · rw [if_pos (decide_eq_true hlog)]

end Environment

section

variable [SettingsFormats]

theorem loadSettings_withoutLog (store : Store) (path : Path) (environment : Environment) :
    loadSettings store path environment.withoutLog = loadSettings store path environment := by
  unfold loadSettings BatchSettings.ofSources
  simp only [environment.settings_withoutLog]

/-- What a run leaves behind, but for what it told. -/
def Outcome.work (outcome : Outcome) : Nat × Store :=
  (outcome.exitCode, outcome.store)

theorem runWith_work (arguments : Arguments) (environment : Environment) (store : Store) :
    (runWith arguments.work environment.withoutLog store).work =
      (runWith arguments environment store).work := by
  have hloaded := loadSettings_withoutLog store (.ofText arguments.config) environment
  have hoverride (settings : BatchSettings) :
      arguments.work.override settings = arguments.override settings := rfl
  have hconfig : arguments.work.config = arguments.config := rfl
  have hdryRun : arguments.work.dryRun = arguments.dryRun := rfl
  unfold runWith
  simp only [hconfig, hloaded, hoverride, hdryRun]
  cases (loadSettings store (.ofText arguments.config) environment).settings with
  | error error => rfl
  | ok settings =>
    simp only
    cases runBatch store (arguments.override settings) arguments.dryRun <;> rfl

theorem runCommand_of_parse {words : List (List Char)} {arguments : Arguments}
    (h : Arguments.parse words = .ok arguments) (environment : Environment) (store : Store) :
    runCommand words environment store = runWith arguments environment store := by
  unfold runCommand
  rw [h]

/-! ## What a run comes upon -/

/-- The settings load, and the directory that is to be done is there, with these files in it. -/
structure Arguments.ComesUpon (arguments : Arguments) (environment : Environment) (store : Store)
    (place : Place) (files : List EntityFile) (settings : BatchSettings) (found : Discovery) :
    Prop where
  loaded : (loadSettings store (.ofText arguments.config) environment).settings = .ok settings
  directory : store.find (.ofText (arguments.override settings).directory) = .ok (place, .directory)
  discovers : Discovers store (.ofText (arguments.override settings).directory)
    (arguments.override settings).excluded place files found

/-- The settings load, the directory is there, and every file in it holds text. -/
def Arguments.Succeeds (arguments : Arguments) (environment : Environment) (store : Store) : Prop :=
  ∃ place files settings found, arguments.ComesUpon environment store place files settings found ∧
    ∀ file ∈ files, file.verdict ≠ .noText

end

/-! ## The lines of a report -/

/-- What the line of a changed file begins with. -/
def Arguments.changeMark (arguments : Arguments) : List Char :=
  (if arguments.dryRun then "Would fix: " else "Fixed: ").toList

/-- The lines that tell a report: the count of the files, the files that are changed, and the counts
of both. -/
def Arguments.reportLines (arguments : Arguments) (report : Report) : List (List Char) :=
  let changed := report.changed.map fun record => arguments.changeMark ++ record.1
  ("Found ".toList ++ decimalDigits report.scanned ++ " entity files to process".toList) ::
    changed ++
    [[], decimalDigits changed.length ++ '/' :: decimalDigits report.scanned ++ " fixed.".toList, []]

theorem newline_notMem_decimalDigits (n : Nat) : '\n' ∉ decimalDigits n := fun hmem =>
  absurd (Nat.isDigit_of_mem_toDigits (by decide) (by decide) hmem) (by decide)

theorem splitLines_flatMap {lines : List (List Char)} (h : ∀ line ∈ lines, '\n' ∉ line)
    (text : List Char) :
    splitLines (lines.flatMap (fun line => line ++ ['\n']) ++ text) = lines ++ splitLines text := by
  induction lines with
  | nil => rfl
  | cons line lines ih =>
    rw [List.flatMap_cons, List.append_assoc, List.append_assoc, List.singleton_append,
      splitLines_append_newline (h line List.mem_cons_self),
      ih fun next hmem => h next (List.mem_cons_of_mem _ hmem)]
    rfl

section

variable (arguments : Arguments) (shown : List Char)

theorem Arguments.eventText_discovered (count : Nat) : arguments.eventText (.discovered count) =
    "Found ".toList ++ decimalDigits count ++ " entity files to process\n".toList := rfl

theorem Arguments.eventText_mended (stats : MendStats) :
    arguments.eventText (.mended shown stats) = arguments.changeMark ++ shown ++ ['\n'] := rfl

theorem Arguments.eventText_failed (failure : Failure) :
    arguments.eventText (.failed shown failure) = [] := rfl

end

/-- Of the events of files only the changes are told. -/
theorem flatMap_eventText (arguments : Arguments) (directory : Path) (files : List EntityFile) :
    (files.filterMap (EntityFile.event? directory)).flatMap arguments.eventText =
      ((files.filterMap EntityFile.changedRecord?).map fun record =>
        arguments.changeMark ++ record.1).flatMap (fun line => line ++ ['\n']) := by
  induction files with
  | nil => rfl
  | cons file files ih =>
    rw [List.filterMap_cons, List.filterMap_cons]
    cases hverdict : file.verdict <;>
      simp [EntityFile.event?, EntityFile.changedRecord?, hverdict, ih, Arguments.eventText_mended,
        Arguments.eventText_failed]

theorem EntityFile.shown_of_changedRecord? {file : EntityFile} {record : List Char × MendStats}
    (h : file.changedRecord? = some record) : record.1 = file.shown := by
  unfold changedRecord? at h
  split at h
  · cases h
    rfl
  · cases h

theorem Arguments.newline_notMem_changeMark (arguments : Arguments) :
    '\n' ∉ arguments.changeMark := by
  unfold changeMark
  split <;> decide

/-- A run that is told is told in the lines of its report. -/
theorem splitLines_runText {arguments : Arguments} (hjson : arguments.json = false)
    (hquiet : arguments.quiet = false) {directory : Path} {files : List EntityFile} {run : BatchRun}
    (hevents : run.events =
      .discovered run.report.scanned :: files.filterMap (EntityFile.event? directory))
    (hchanged : run.report.changed = files.filterMap EntityFile.changedRecord?)
    (hnames : ∀ file ∈ files, '\n' ∉ file.shown) :
    splitLines (arguments.runText run) = arguments.reportLines run.report := by
  have htells : arguments.tellsEvents = true := by simp [Arguments.tellsEvents, hjson, hquiet]
  have hfirst : '\n' ∉ "Found ".toList ++ decimalDigits run.report.scanned ++
      " entity files to process".toList := by
    simp [newline_notMem_decimalDigits]
  have hlast : '\n' ∉ decimalDigits run.report.changed.length ++
      '/' :: decimalDigits run.report.scanned ++ " fixed.".toList := by
    simp [newline_notMem_decimalDigits]
  have hlines : ∀ line ∈ run.report.changed.map fun record => arguments.changeMark ++ record.1,
      '\n' ∉ line := by
    intro line hline
    obtain ⟨record, hrecord, rfl⟩ := List.mem_map.1 hline
    rw [hchanged] at hrecord
    obtain ⟨file, hfile, hrecord⟩ := List.mem_filterMap.1 hrecord
    rw [EntityFile.shown_of_changedRecord? hrecord, List.mem_append, not_or]
    exact ⟨arguments.newline_notMem_changeMark, hnames file hfile⟩
  have htext : arguments.runText run =
      ("Found ".toList ++ decimalDigits run.report.scanned ++ " entity files to process".toList) ++
        '\n' :: ((run.report.changed.map fun record => arguments.changeMark ++ record.1).flatMap
          (fun line => line ++ ['\n']) ++
        '\n' :: (decimalDigits run.report.changed.length ++
          '/' :: decimalDigits run.report.scanned ++ " fixed.".toList ++ '\n' :: [])) := by
    unfold Arguments.runText
    rw [htells, hjson, hevents, List.flatMap_cons, flatMap_eventText, ← hchanged]
    simp [Arguments.eventText_discovered, Report.changedCount]
  rw [htext, splitLines_append_newline hfirst, splitLines_flatMap hlines, splitLines, if_pos rfl,
    splitLines_append_newline hlast]
  simp [Arguments.reportLines, splitLines]

/-- What a run does with the files it comes upon, and what it tells of it. -/
structure Arguments.Does (arguments : Arguments) (store : Store) (place : Place)
    (files : List EntityFile) (report : Report) (outcome : Outcome) : Prop where
  scanned : report.scanned = files.length
  changed : report.changed = files.filterMap EntityFile.changedRecord?
  /-- Every file is as the verdict on it leaves it, whatever the verdicts on the others. -/
  processed : ∀ file ∈ files,
    outcome.store.node? (place ++ [file.name]) = some (file.after arguments.dryRun)
  kept : ∀ other, (∀ file ∈ files, other ≠ place ++ [file.name]) →
    outcome.store.node? other = store.node? other
  told : arguments.json = false → arguments.quiet = false → (∀ file ∈ files, '\n' ∉ file.shown) →
    splitLines outcome.output = arguments.reportLines report

theorem EntityFile.failedRecord?_eq_none_iff (directory : Path) (file : EntityFile) :
    file.failedRecord? directory = none ↔ file.verdict ≠ .noText := by
  unfold failedRecord?
  cases file.verdict <;> simp

section

variable [SettingsFormats]

/-- A run on files is over with their verdicts, and fails if one of them holds no text. -/
theorem Arguments.ComesUpon.exists_does {arguments : Arguments} {environment : Environment}
    {store : Store} {place : Place} {files : List EntityFile} {settings : BatchSettings}
    {found : Discovery}
    (h : arguments.ComesUpon environment store place files settings found) :
    ∃ report, arguments.Does store place files report (runWith arguments environment store) ∧
      ((runWith arguments environment store).exitCode = 0 ↔
        ∀ file ∈ files, file.verdict ≠ .noText) := by
  obtain ⟨run, hrun, hprogress, -⟩ := h.discovers.exists_run arguments.dryRun
  have hreport := hprogress.report
  have hscanned : run.report.scanned = files.length := by
    rw [hreport]
    exact (congrArg List.length h.discovers.entities_eq).trans (List.length_map _)
  have hchanged : run.report.changed = files.filterMap EntityFile.changedRecord? := by
    rw [hreport]
    exact List.nil_append _
  have hfailed : run.report.failed = files.filterMap
      (EntityFile.failedRecord? (.ofText (arguments.override settings).directory)) := by
    rw [hreport]
    exact List.nil_append _
  have hevents : run.finish.events = .discovered run.finish.report.scanned ::
      files.filterMap (EntityFile.event? (.ofText (arguments.override settings).directory)) := by
    change run.events = .discovered run.report.scanned :: _
    rw [hprogress.events, hreport]
    rfl
  have houtcome : (runWith arguments environment store).exitCode =
        (if run.report.hasFailures then 1 else 0) ∧
      (runWith arguments environment store).output = arguments.runText run.finish ∧
      (runWith arguments environment store).store = run.store := by
    simp [runWith, h.loaded, hrun, BatchRun.finish]
  obtain ⟨hexit, houtput, hstore⟩ := houtcome
  refine ⟨run.report, ⟨hscanned, hchanged, ?_, ?_, ?_⟩, ?_⟩
  · rw [hstore]
    exact hprogress.mended
  · rw [hstore]
    exact hprogress.kept
  · intro hjson hquiet hnames
    rw [houtput]
    exact splitLines_runText hjson hquiet hevents hchanged hnames
  · have hnone : run.report.hasFailures = false ↔ ∀ file ∈ files, file.verdict ≠ .noText := by
      rw [Report.hasFailures, hfailed, Bool.not_eq_false', List.isEmpty_iff,
        List.filterMap_eq_nil_iff]
      exact forall₂_congr fun file _ => file.failedRecord?_eq_none_iff _
    rw [hexit, ← hnone]
    cases run.report.hasFailures <;> decide

theorem runWith_exitCode (arguments : Arguments) (environment : Environment) (store : Store) :
    (runWith arguments environment store).exitCode = 0 ∨
      (runWith arguments environment store).exitCode = 1 := by
  unfold runWith
  dsimp only
  split
  · exact Or.inr rfl
  · split
    · exact Or.inr rfl
    · dsimp only
      split
      · exact Or.inr rfl
      · exact Or.inl rfl

/-- A run that ends well has loaded its settings and found its directory. -/
theorem Arguments.exists_directory_of_exitCode {arguments : Arguments} {environment : Environment}
    {store : Store} (h : (runWith arguments environment store).exitCode = 0) :
    ∃ settings place,
      (loadSettings store (.ofText arguments.config) environment).settings = .ok settings ∧
        store.find (.ofText (arguments.override settings).directory) = .ok (place, .directory) := by
  unfold runWith at h
  dsimp only at h
  split at h
  · cases h
  · next settings hloaded =>
    split at h
    · cases h
    · next run hrun =>
      unfold runBatch at hrun
      dsimp only at hrun
      split at hrun
      · cases hrun
      · next found hdiscover =>
        obtain ⟨place, hdirectory⟩ := find_of_discover hdiscover
        exact ⟨settings, place, hloaded, hdirectory⟩

theorem Arguments.exists_comesUpon {arguments : Arguments} {environment : Environment}
    {store : Store} {settings : BatchSettings} {place : Place}
    (hloaded : (loadSettings store (.ofText arguments.config) environment).settings = .ok settings)
    (hdirectory : store.find (.ofText (arguments.override settings).directory) =
      .ok (place, .directory)) :
    ∃ files found, arguments.ComesUpon environment store place files settings found := by
  obtain ⟨files, found, hdiscovers⟩ :=
    exists_discovers hdirectory (arguments.override settings).excluded
  exact ⟨files, found, hloaded, hdirectory, hdiscovers⟩

/-- A run ends well if and only if it succeeds. -/
theorem Arguments.exitCode_eq_zero_iff (arguments : Arguments) (environment : Environment)
    (store : Store) :
    (runWith arguments environment store).exitCode = 0 ↔ arguments.Succeeds environment store := by
  constructor
  · intro hexit
    obtain ⟨settings, place, hloaded, hdirectory⟩ := exists_directory_of_exitCode hexit
    obtain ⟨files, found, h⟩ := exists_comesUpon hloaded hdirectory
    obtain ⟨report, -, hiff⟩ := h.exists_does
    exact ⟨place, files, settings, found, h, hiff.1 hexit⟩
  · rintro ⟨place, files, settings, found, h, htexts⟩
    obtain ⟨report, -, hiff⟩ := h.exists_does
    exact hiff.2 htexts

/-- **What is told does not influence what is done.** Two command lines with the same working words
lead to the same exit code and the same store, in environments that differ in the filter of the log
alone. The exit code is 0 if the settings load, the directory is there and all its files hold text,
and else 1; in a directory that is there, each file is left as the verdict on it says, and what is
told is the lines of the report. -/
theorem runCommand_presentation {words words' : List (List Char)} {arguments arguments' : Arguments}
    (hparse : Arguments.parse words = .ok arguments)
    (hparse' : Arguments.parse words' = .ok arguments')
    (hwords : workingWords words = workingWords words') {environment environment' : Environment}
    (henvironment : environment.withoutLog = environment'.withoutLog) (store : Store) :
    ((runCommand words environment store).exitCode =
        (runCommand words' environment' store).exitCode ∧
      (runCommand words environment store).store = (runCommand words' environment' store).store) ∧
    ((runCommand words environment store).exitCode = 0 ↔ arguments.Succeeds environment store) ∧
    ((runCommand words environment store).exitCode ≠ 0 →
      (runCommand words environment store).exitCode = 1) ∧
    ∀ settings place,
      (loadSettings store (.ofText arguments.config) environment).settings = .ok settings →
      store.find (.ofText (arguments.override settings).directory) = .ok (place, .directory) →
      ∃ files found report, arguments.ComesUpon environment store place files settings found ∧
        arguments.Does store place files report (runCommand words environment store) := by
  have hwork : arguments.work = arguments'.work := by
    have hparsed := Arguments.parse_workingWords hparse
    rw [hwords, Arguments.parse_workingWords hparse', Except.ok.injEq] at hparsed
    exact hparsed.symm
  have hsame : (runWith arguments environment store).work =
      (runWith arguments' environment' store).work := by
    rw [← runWith_work, hwork, henvironment, runWith_work]
  rw [runCommand_of_parse hparse, runCommand_of_parse hparse']
  refine ⟨Prod.mk.inj hsame, arguments.exitCode_eq_zero_iff environment store, ?_, ?_⟩
  · exact fun hne => (runWith_exitCode arguments environment store).resolve_left hne
  · intro settings place hloaded hdirectory
    obtain ⟨files, found, h⟩ := Arguments.exists_comesUpon hloaded hdirectory
    obtain ⟨report, hdoes, -⟩ := h.exists_does
    exact ⟨files, found, report, h, hdoes⟩

end

/-- The words of a run that tells what it does, and of one that does the same and tells it otherwise. -/
def cakeWords : List (List Char) :=
  ["e", "--exclude", "mod.rs"].map String.toList

def cakeWordsRetold : List (List Char) :=
  ["--json", "e", "-v", "--exclude", "mod.rs"].map String.toList

theorem runCommand_presentation_cakeShop :
    (runCommand cakeWords [] cakeShop).exitCode =
        (runCommand cakeWordsRetold [("RUST_LOG".toList, "off".toList)] cakeShop).exitCode ∧
      (runCommand cakeWords [] cakeShop).exitCode = 1 ∧
      ∃ report : Report, report.scanned = 3 ∧
        splitLines (runCommand cakeWords [] cakeShop).output =
          Arguments.reportLines {} report := by
  let arguments : Arguments := { directory := some "e".toList, excluded := ["mod.rs".toList] }
  have hparse : Arguments.parse cakeWords = .ok arguments := by decide +kernel
  have hparse' : Arguments.parse cakeWordsRetold =
      .ok { arguments with json := true, verbose := true } := by decide +kernel
  have hloaded : (loadSettings cakeShop (.ofText arguments.config) []).settings = .ok {} := by
    decide +kernel
  have hfind : cakeShop.find (.ofText (arguments.override {}).directory) =
      .ok ([encode "e".toList], .directory) := by
    decide +kernel
  have hdiscover : discover cakeShop (.ofText (arguments.override {}).directory)
      (arguments.override {}).excluded = _ := discover_cakeShop
  have hone : (runCommand cakeWords [] cakeShop).exitCode = 1 := by
    rw [runCommand_of_parse hparse]
    unfold runWith runBatch
    simp only [hloaded, hdiscover]
    decide +kernel
  obtain ⟨⟨hexit, -⟩, -, -, hdoes⟩ := @runCommand_presentation _ cakeWords cakeWordsRetold _ _
    hparse hparse' (by decide +kernel) [] [("RUST_LOG".toList, "off".toList)] (by decide +kernel)
    cakeShop
  obtain ⟨files, found, report, hcomes, hdoes⟩ := hdoes {} _ hloaded hfind
  have hfound := hcomes.discovers.discover_eq
  rw [hdiscover, Except.ok.injEq] at hfound
  have hentities := hcomes.discovers.entities_eq
  rw [← hfound] at hentities
  have hnames : ∀ file ∈ files, '\n' ∉ file.shown := by
    intro file hfile
    have hpath : file.path (.ofText "e".toList) ∈ files.map (EntityFile.path (.ofText "e".toList)) :=
      List.mem_map_of_mem hfile
    have hclean : ∀ path ∈ ["e/a.rs", "e/b.rs", "e/c.rs"].map fun path => Path.ofText path.toList,
        '\n' ∉ decodeLeniently path.name := by
      decide +kernel
    have hshown := hclean _ (hentities ▸ hpath)
    rwa [EntityFile.path, Path.name_child (hcomes.discovers.isIn file hfile).isName] at hshown
  refine ⟨hexit, hone, report, ?_, hdoes.told rfl rfl hnames⟩
  rw [hdoes.scanned, ← List.length_map (EntityFile.path (.ofText "e".toList))]
  exact (congrArg List.length hentities).symm

end ModelMend
