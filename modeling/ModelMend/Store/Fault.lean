/-!
# Faults of a store

Why a file cannot be reached or read, with the words that a message uses for it.
-/

namespace ModelMend

inductive Fault where
  /-- Nothing is there, or a directory on the way is missing. -/
  | missing
  /-- A file stands where a directory has to be. -/
  | notDirectory
  /-- A directory stands where a file has to be. -/
  | isDirectory
  /-- A name or the whole path is too long. -/
  | tooLong
  /-- The path holds a byte that no path may hold. -/
  | zeroByte
  /-- The contents are no text. -/
  | notText
deriving DecidableEq, Repr

def Fault.message : Fault → List Char
  | missing => "No such file or directory (os error 2)".toList
  | notDirectory => "Not a directory (os error 20)".toList
  | isDirectory => "Is a directory (os error 21)".toList
  | tooLong => "File name too long (os error 36)".toList
  | zeroByte => "file name contained an unexpected NUL byte".toList
  | notText => "stream did not contain valid UTF-8".toList

end ModelMend
