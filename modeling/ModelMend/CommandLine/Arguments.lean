import ModelMend.Text.Utf8

/-!
# Command line arguments

A directory, and switches in a long or a short form, some with a value. The arguments are read from
left to right; a value is taken when the next argument has been recognized, so that the first
mistake is the one that is told. After two hyphens alone every argument is a value.
-/

namespace ModelMend

inductive Switch where
  | config
  | exclude
  | dryRun
  | json
  | verbose
  | quiet
  | help
  | version
deriving DecidableEq, Repr

namespace Switch

def all : List Switch :=
  [config, exclude, dryRun, json, verbose, quiet, help, version]

/-- The long form of a switch, without the hyphens. -/
def long : Switch → List Char
  | config => "config".toList
  | exclude => "exclude".toList
  | dryRun => "dry-run".toList
  | json => "json".toList
  | verbose => "verbose".toList
  | quiet => "quiet".toList
  | help => "help".toList
  | version => "version".toList

/-- The letter of the short form, if there is one. -/
def short? : Switch → Option Char
  | verbose => some 'v'
  | quiet => some 'q'
  | help => some 'h'
  | version => some 'V'
  | _ => none

def valueName? : Switch → Option (List Char)
  | config => some "CONFIG".toList
  | exclude => some "FILE".toList
  | _ => none

def takesValue (switch : Switch) : Bool :=
  switch.valueName?.isSome

/-- The way a message shows a switch. -/
def shown (switch : Switch) : List Char :=
  "--".toList ++ switch.long ++
    match switch.valueName? with
    | some name => " <".toList ++ name ++ ['>']
    | none => []

def ofLong? (name : List Char) : Option Switch :=
  all.find? fun switch => switch.long = name

def ofShort? (letter : Char) : Option Switch :=
  all.find? fun switch => switch.short? = some letter

end Switch

structure Arguments where
  directory : Option (List Char) := none
  config : List Char := "config/fix_entities.toml".toList
  excluded : List (List Char) := []
  dryRun : Bool := false
  json : Bool := false
  verbose : Bool := false
  quiet : Bool := false
deriving DecidableEq, Repr

inductive UsageError where
  /-- An argument with no meaning. -/
  | unexpected (argument : List Char)
  /-- A switch or the directory, as it is shown, lacks its value. -/
  | missingValue (shown : List Char)
  /-- A value for a switch that takes none. -/
  | unexpectedValue (value : List Char) (switch : Switch)
  /-- A switch that may be given only once is given again. -/
  | repeated (switch : Switch)
  /-- Two switches that exclude each other, the one given first in front. -/
  | conflict (first second : Switch)
deriving DecidableEq, Repr

/-- Why reading the arguments does not lead to a run. -/
inductive NoRun where
  | help
  | version
  | misuse (error : UsageError)
deriving DecidableEq, Repr

/-- What has been read but not been taken yet. -/
inductive Pending where
  /-- A switch that waits for its value. -/
  | switch (switch : Switch)
  /-- A switch with its value. -/
  | value (switch : Switch) (value : List Char)
  | directory (value : List Char)
deriving DecidableEq, Repr

structure ArgumentReader where
  arguments : Arguments := {}
  /-- The switches taken so far, in order. -/
  seen : List Switch := []
  pending : Option Pending := none
  /-- A directory has been read. -/
  hasDirectory : Bool := false
  /-- Every further argument is a value. -/
  onlyValues : Bool := false
deriving DecidableEq, Repr

namespace ArgumentReader

def directoryShown : List Char :=
  "[DIR]".toList

/-- Stops because of a mistake. -/
def refuse {α : Type} (error : UsageError) : Except NoRun α :=
  .error (.misuse error)

def takeValue (reader : ArgumentReader) (switch : Switch) (value : List Char) :
    Except NoRun ArgumentReader :=
  match switch with
  | .exclude =>
    .ok { reader with
      arguments := { reader.arguments with excluded := reader.arguments.excluded ++ [value] } }
  | _ =>
    if reader.seen.contains switch then refuse (.repeated switch)
    else if value.isEmpty then refuse (.missingValue switch.shown)
    else
      .ok { reader with
        arguments := { reader.arguments with config := value }
        seen := reader.seen ++ [switch] }

/-- Takes what is pending. -/
def settle (reader : ArgumentReader) : Except NoRun ArgumentReader :=
  match reader.pending with
  | none => .ok reader
  | some (.switch switch) => refuse (.missingValue switch.shown)
  | some (.value switch value) => takeValue { reader with pending := none } switch value
  | some (.directory value) =>
    if value.isEmpty then refuse (.missingValue directoryShown)
    else
      .ok { reader with
        arguments := { reader.arguments with directory := some value }, pending := none }

/-- The arguments with a switch on. -/
def turnOn (arguments : Arguments) : Switch → Arguments
  | .dryRun => { arguments with dryRun := true }
  | .json => { arguments with json := true }
  | .verbose => { arguments with verbose := true }
  | .quiet => { arguments with quiet := true }
  | _ => arguments

def takeSwitch (reader : ArgumentReader) (switch : Switch) : Except NoRun ArgumentReader :=
  match reader.settle with
  | .error stop => .error stop
  | .ok reader =>
    match switch with
    | .help => .error .help
    | .version => .error .version
    | _ =>
      if reader.seen.contains switch then refuse (.repeated switch)
      else
        .ok { reader with
          arguments := turnOn reader.arguments switch
          seen := reader.seen ++ [switch] }

/-- Reads a switch in its long form, without the hyphens. -/
def readLong (reader : ArgumentReader) (text : List Char) : Except NoRun ArgumentReader :=
  let name := text.takeWhile (· ≠ '=')
  let rest := text.dropWhile (· ≠ '=')
  match Switch.ofLong? name with
  | none => refuse (.unexpected ("--".toList ++ name))
  | some switch =>
    match switch.takesValue, rest with
    | true, [] => reader.settle.map fun reader => { reader with pending := some (.switch switch) }
    | true, _ :: value => reader.settle.bind fun reader => reader.takeValue switch value
    | false, [] => reader.takeSwitch switch
    | false, _ :: value => refuse (.unexpectedValue value switch)

/-- Reads switches in their short forms. -/
def readShort (reader : ArgumentReader) (letters : List Char) : Except NoRun ArgumentReader :=
  letters.foldlM (fun reader letter =>
    match Switch.ofShort? letter with
    | none => refuse (.unexpected ['-', letter])
    | some switch => reader.takeSwitch switch) reader

/-- Reads an argument that is no switch and no value of one. -/
def readDirectory (reader : ArgumentReader) (value : List Char) : Except NoRun ArgumentReader :=
  if reader.hasDirectory then refuse (.unexpected value)
  else
    reader.settle.map fun reader =>
      { reader with pending := some (.directory value), hasDirectory := true }

def read (reader : ArgumentReader) (argument : List Char) : Except NoRun ArgumentReader :=
  if reader.onlyValues then reader.readDirectory argument
  else
    match argument, reader.pending with
    | ['-', '-'], _ => .ok { reader with onlyValues := true }
    | '-' :: '-' :: text, _ => reader.readLong text
    | '-' :: letter :: letters, _ => reader.readShort (letter :: letters)
    | value, some (.switch switch) => .ok { reader with pending := some (.value switch value) }
    | value, _ => reader.readDirectory value

/-- The arguments, once all of them are read. -/
def finish (reader : ArgumentReader) : Except NoRun Arguments :=
  match reader.settle with
  | .error stop => .error stop
  | .ok reader =>
    match reader.seen.filter fun switch => switch = .quiet || switch = .verbose with
    | first :: second :: _ => refuse (.conflict first second)
    | _ => .ok reader.arguments

end ArgumentReader

def Arguments.parse (arguments : List (List Char)) : Except NoRun Arguments :=
  (arguments.foldlM ArgumentReader.read {}).bind ArgumentReader.finish

end ModelMend
