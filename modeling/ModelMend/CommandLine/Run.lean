import ModelMend.Batch.Run
import ModelMend.CommandLine.Log
import ModelMend.CommandLine.Usage
import ModelMend.Settings.Load

/-!
# Running the command line

Arguments, environment and store lead to an exit code, two texts and a store. The directory and the
exclusions of the arguments go over those of the settings. What is told depends on the switches;
what is done does not.
-/

namespace ModelMend

structure Outcome where
  exitCode : Nat
  /-- The text on the output stream. -/
  output : List Char
  /-- The text on the error stream. -/
  errors : List Char
  store : Store
deriving DecidableEq, Repr

namespace Arguments

/-- The settings with what the arguments say instead. -/
def override (arguments : Arguments) (settings : BatchSettings) : BatchSettings :=
  { directory := arguments.directory.getD settings.directory
    excluded := if arguments.excluded.isEmpty then settings.excluded else arguments.excluded }

/-- Events are told as they happen. -/
def tellsEvents (arguments : Arguments) : Bool :=
  !arguments.json && !arguments.quiet

/-- The line that tells an event. -/
def eventText (arguments : Arguments) : BatchEvent → List Char
  | .discovered count =>
    "Found ".toList ++ decimalDigits count ++ " entity files to process\n".toList
  | .mended file _ =>
    (if arguments.dryRun then "Would fix: " else "Fixed: ").toList ++ file ++ ['\n']
  | .failed _ _ => []

/-- What a batch writes on the output stream. -/
def runText (arguments : Arguments) (run : BatchRun) : List Char :=
  let events := if arguments.tellsEvents then run.events.flatMap arguments.eventText else []
  let closing :=
    if arguments.json then run.report.json.text ++ ['\n']
    else if arguments.tellsEvents then
      '\n' :: decimalDigits run.report.changedCount ++ '/' :: decimalDigits run.report.scanned ++
        " fixed.\n".toList
    else []
  events ++ closing

def logLevel (arguments : Arguments) : LogLevel :=
  if arguments.quiet then .error else if arguments.verbose then .debug else .info

/-- The filter of the log, and complaints about a malformed one. -/
def logFilter (arguments : Arguments) (environment : Environment) : LogFilter × List Char :=
  match environment.lookup "RUST_LOG".toList with
  | some text => LogFilter.parse text
  | none => (⟨[⟨[], arguments.logLevel⟩], []⟩, [])

end Arguments

/-- What is told about a failure that ends a run: its message, and what lies behind it. -/
def Failure.text (failure : Failure) : List Char :=
  "Error: ".toList ++ failure.message ++
    (match failure.cause? with
    | none => []
    | some cause => "\n\nCaused by:\n    ".toList ++ LogEntry.indented cause) ++ ['\n']

/-- What is told about a run with files that failed. -/
def Report.failureText (report : Report) : List Char :=
  if report.hasFailures then
    "Error: ".toList ++ decimalDigits report.failed.length ++ " of ".toList ++
      decimalDigits report.scanned ++ " entity files could not be processed\n".toList
  else []

section

variable [SettingsFormats]

def runWith (arguments : Arguments) (environment : Environment) (store : Store) : Outcome :=
  let path := Path.ofText arguments.config
  let loaded := loadSettings store path environment
  let filter := arguments.logFilter environment
  let isPresent := (store.find path).toOption.isSome
  let opening := if loaded.isBroken && isPresent then [LogEntry.brokenSettings path] else []
  let logged (log : List LogEntry) : List Char := filter.2 ++ filter.1.render (opening ++ log)
  match loaded.settings with
  | .error error => ⟨1, [], logged [] ++ (Failure.settings error).text, store⟩
  | .ok settings =>
    match runBatch store (arguments.override settings) arguments.dryRun with
    | .error failure => ⟨1, [], logged [] ++ failure.text, store⟩
    | .ok run =>
      ⟨if run.report.hasFailures then 1 else 0, arguments.runText run,
        logged run.log ++ run.report.failureText, run.store⟩

def runCommand (arguments : List (List Char)) (environment : Environment) (store : Store) :
    Outcome :=
  match Arguments.parse arguments with
  | .ok arguments => runWith arguments environment store
  | .error .help => ⟨0, helpText, [], store⟩
  | .error .version => ⟨0, versionText, [], store⟩
  | .error (.misuse error) => ⟨2, [], error.text, store⟩

end

end ModelMend
