import ModelMend.CommandLine.Arguments

/-!
# Help, version and usage messages

The texts that the command line shows about itself.
-/

namespace ModelMend

def programName : List Char :=
  "fix-entities".toList

def versionText : List Char :=
  programName ++ " 0.1.0\n".toList

/-- The line that shows how the program is called. -/
def usageLine : List Char :=
  "Usage: ".toList ++ programName ++ " [OPTIONS] [DIR]\n".toList

def helpText : List Char :=
  "Repair generated SeaORM entity files in place\n\n".toList ++ usageLine ++
  ("\nArguments:\n" ++
    "  [DIR]  Directory containing the entity files (overrides the config file)\n" ++
    "\nOptions:\n" ++
    "      --config <CONFIG>  Configuration file [default: config/fix_entities.toml]\n" ++
    "      --exclude <FILE>   File name to leave untouched; replaces the configured list " ++
    "when given\n" ++
    "      --dry-run          Show which files would change without writing them\n" ++
    "      --json             Print the run report as JSON\n" ++
    "  -v, --verbose          Verbose output\n" ++
    "  -q, --quiet            Quiet output (errors only)\n" ++
    "  -h, --help             Print help\n" ++
    "  -V, --version          Print version\n").toList

def inQuotes (text : List Char) : List Char :=
  '\'' :: text ++ ['\'']

def UsageError.message : UsageError → List Char
  | unexpected argument => "unexpected argument ".toList ++ inQuotes argument ++ " found".toList
  | missingValue shown =>
    "a value is required for ".toList ++ inQuotes shown ++ " but none was supplied".toList
  | unexpectedValue value switch =>
    "unexpected value ".toList ++ inQuotes value ++ " for ".toList ++ inQuotes switch.shown ++
      " found; no more were expected".toList
  | repeated switch =>
    "the argument ".toList ++ inQuotes switch.shown ++ " cannot be used multiple times".toList
  | conflict first second =>
    "the argument ".toList ++ inQuotes first.shown ++ " cannot be used with ".toList ++
      inQuotes second.shown

/-- What is told about a mistake on the command line. -/
def UsageError.text (error : UsageError) : List Char :=
  "error: ".toList ++ error.message ++ "\n\n".toList ++ usageLine ++
    "\nFor more information, try '--help'.\n".toList

end ModelMend
