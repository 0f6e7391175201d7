import ModelMend.Text.Split
import ModelMend.Text.Utf8

/-!
# Paths

A path is a string of bytes with slashes between names. It is shown as text, whatever its bytes are.
-/

namespace ModelMend

open Text

structure Path where
  bytes : Bytes
deriving DecidableEq, Repr

/-- The byte between the names of a path. -/
def slash : UInt8 := 0x2f

/-- The name of the directory itself. -/
def selfName : Bytes := [0x2e]

/-- The name of the directory above. -/
def parentName : Bytes := [0x2e, 0x2e]

/-- The name can stand in a directory: it is not empty, it holds no slash, and it does not lead back. -/
def isName (name : Bytes) : Bool :=
  !name.isEmpty && !name.contains slash && name ≠ selfName && name ≠ parentName

/-- The name has something in front of a point and this extension, which holds no point. -/
def hasExtension (extension name : Bytes) : Bool :=
  (0x2e :: extension).isSuffixOf name && extension.length + 1 < name.length

namespace Path

def ofText (text : List Char) : Path :=
  ⟨encode text⟩

def text (path : Path) : List Char :=
  decodeLeniently path.bytes

def pieces (path : Path) : List Bytes :=
  split slash path.bytes

/-- The names on the way, without those that lead nowhere. -/
def names (path : Path) : List Bytes :=
  path.pieces.filter fun name => !name.isEmpty && name ≠ selfName

def isAbsolute (path : Path) : Bool :=
  path.bytes.head? = some slash

/-- The path ends in such a way that it can only lead to a directory. -/
def namesDirectory (path : Path) : Bool :=
  path.pieces.getLast?.any fun name => name.isEmpty || name = selfName

def name (path : Path) : Bytes :=
  path.names.getLast?.getD []

/-- The path of a name in the directory at a path. -/
def child (path : Path) (name : Bytes) : Path :=
  if path.bytes.isEmpty || path.bytes.getLast? = some slash then ⟨path.bytes ++ name⟩
  else ⟨path.bytes ++ slash :: name⟩

/-- The path written with single slashes and no names that lead nowhere. -/
def normalized (path : Path) : Path :=
  ⟨List.intercalate [slash] path.names⟩

end Path

end ModelMend
