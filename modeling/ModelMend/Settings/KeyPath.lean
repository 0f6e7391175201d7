import ModelMend.Decimal.Digits
import ModelMend.Settings.Setting

/-!
# Key paths

A key of a source may lead to a place inside the settings: names with points between them, and
indices into lists in brackets. A key that is no such path is one name.
-/

namespace ModelMend

inductive KeyStep where
  | name (key : List Char)
  | index (place : Int)
deriving DecidableEq, Repr

namespace KeyPath

def isNameChar (c : Char) : Bool :=
  c.isAlphanum || c == ' ' || c == '_' || c == '-'

def isPadding (c : Char) : Bool :=
  c == ' ' || c == '\t'

/-- The index between two brackets, with blanks around it. -/
def index? (text : List Char) : Option Int :=
  let inner := ((text.dropWhile isPadding).reverse.dropWhile isPadding).reverse
  if inner.head? = some '+' then none else integerOfText? inner

/-- The steps after the first name. -/
def steps? : Nat → List Char → Option (List KeyStep)
  | _, [] => some []
  | 0, _ :: _ => none
  | fuel + 1, '.' :: text =>
    let name := text.takeWhile isNameChar
    if name.isEmpty then none
    else (steps? fuel (text.dropWhile isNameChar)).map (.name name :: ·)
  | fuel + 1, '[' :: text =>
    match text.dropWhile (· ≠ ']') with
    | [] => none
    | _ :: rest =>
      (index? (text.takeWhile (· ≠ ']'))).bind fun place =>
        (steps? fuel rest).map (.index place :: ·)
  | _ + 1, _ => none

def ofKey (key : List Char) : List KeyStep :=
  let name := key.takeWhile isNameChar
  if name.isEmpty then [.name key]
  else
    match steps? key.length (key.dropWhile isNameChar) with
    | some steps => .name name :: steps
    | none => [.name key]

end KeyPath

/-- Puts a value at the end of a path. Tables and lists come to be on the way; a value at the end of
a name is laid over what was there, a value at an index replaces it. -/
def Setting.put (value : Setting) : List KeyStep → Setting → Setting
  | [], _ => value
  | [.name key], here => here.insert key (Setting.overlay (here.get? key) value)
  | .name key :: path, here =>
    here.insert key (Setting.put value path ((here.get? key).getD .missing))
  | .index place :: path, .list origin items =>
    .list origin (changeItem place (Setting.put value path) items)
  | .index place :: path, _ => .list none (changeItem place (Setting.put value path) [])

end ModelMend
