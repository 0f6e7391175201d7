import ModelMend.CommandLine.Run
import ModelMend.Store.Change

/-!
# The program

Files are read into a store as far as the command line looks at them, the command runs on that
store, and what it has changed is written back. A store has modes and replaces a file by a temporary
sibling; here modes are neither read nor set, and the text of a changed file is written in its place,
so the file keeps the mode that it has.
-/

namespace ModelMend.Program

open Text

/-- Where the system lists the variables of the program, each with a zero byte behind it. -/
def environmentFile : String :=
  "/proc/self/environ"

/-- The name and the value of a variable, if both are text. -/
def entry? (bytes : Bytes) : Option (List Char × List Char) := do
  let name ← decode? (bytes.takeWhile (· ≠ 0x3d))
  let value ← decode? ((bytes.dropWhile (· ≠ 0x3d)).drop 1)
  return (name, value)

/-- The variables of the program, whatever the letter case of their names is. -/
def readEnvironment : IO Environment := do
  let listed ← IO.FS.readBinFile environmentFile
  return ((split 0 listed.toList).filter (0x3d ∈ ·)).filterMap entry?

/-- The store with the file or directory at a path, and with the files in the directory. -/
def readPath (store : Store) (path : Path) : IO Store := do
  let target := (← IO.currentDir) / String.ofList path.text
  if ← target.isDir then
    let mut filled := store.putDirectory path.place
    for entry in ← target.readDir do
      let child := path.place ++ [encode entry.fileName.toList]
      if ← entry.path.isDir then
        filled := filled.putDirectory child
      else
        filled := filled.putFile child (← IO.FS.readBinFile entry.path).toList 0o644
    return filled
  else if ← target.pathExists then
    return store.putFile path.place (← IO.FS.readBinFile target).toList 0o644
  else
    return store

/-- The store that a command line looks at. -/
def readStore (arguments : List (List Char)) (environment : Environment) : IO Store := do
  match Arguments.parse arguments with
  | .error _ => return .empty
  | .ok arguments =>
    let path := Path.ofText arguments.config
    let candidates := (settingsCandidates path).map Prod.fst
    let store ← (path :: candidates).foldlM readPath .empty
    match (loadSettings store path environment).settings with
    | .error _ => return store
    | .ok settings => readPath store (Path.ofText (arguments.override settings).directory)

/-- Writes the files that are not as they were. -/
def writeChanges (before after : Store) : IO Unit := do
  for (path, contents) in after.files do
    unless before.files.contains (path, contents) do
      IO.FS.writeBinFile (String.ofList path.text) ⟨contents.toArray⟩

/-- Runs the command line on the files that it looks at. -/
def run (words : List String) : IO UInt32 := do
  let arguments := words.map String.toList
  let environment ← readEnvironment
  let store ← readStore arguments environment
  let outcome := runCommand arguments environment store
  IO.print (String.ofList outcome.output)
  IO.eprint (String.ofList outcome.errors)
  writeChanges store outcome.store
  return outcome.exitCode.toUInt32

end ModelMend.Program

/-- The program. -/
def main (words : List String) : IO UInt32 :=
  ModelMend.Program.run words
