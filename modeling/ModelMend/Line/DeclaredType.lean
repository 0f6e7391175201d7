import ModelMend.Line.Scan
import ModelMend.Text.Blank

/-!
# The declared type of a field

The type of a field is the text between the colon of its declaration and the comma that ends it,
with line comments left out. A declaration may be wrapped over several lines.
-/

namespace ModelMend

open Text

/-- The code of a declaration up to the comma that ends it, lines set apart by a space. -/
def declarationCode (scanner : Scanner) : List (List Char) → List Char
  | [] => []
  | line :: lines =>
    let (scan, scanner) := scanner.feed line
    match scan.topComma with
    | some comma => line.take comma ++ [' ']
    | none => line.take scan.codeEnd ++ ' ' :: declarationCode scanner lines

/-- What follows the first single colon outside round brackets. A double colon separates the parts
of a path. -/
def afterFieldColon (previous : Option Char) (depth : Nat) : List Char → Option (List Char)
  | [] => none
  | c :: rest =>
    if c == '(' then afterFieldColon (some c) (depth + 1) rest
    else if c == ')' then afterFieldColon (some c) (depth - 1) rest
    else if c == ':' && depth == 0 && rest.head? != some ':' && previous != some ':' then some rest
    else afterFieldColon (some c) depth rest

/-- What follows the colon is an end of the text. -/
theorem afterFieldColon_suffix {previous : Option Char} {depth : Nat} {text rest : List Char}
    (h : afterFieldColon previous depth text = some rest) : rest <:+ text := by
  induction text generalizing previous depth with
  | nil => cases h
  | cons c text ih =>
    unfold afterFieldColon at h
    split at h
    · exact (ih h).trans (List.suffix_cons c text)
    · split at h
      · exact (ih h).trans (List.suffix_cons c text)
      · split at h
        · cases h
          exact List.suffix_cons c _
        · exact (ih h).trans (List.suffix_cons c text)

def fieldType (lines : List (List Char)) : Option (List Char) :=
  match afterFieldColon none 0 (declarationCode .forField lines) with
  | none => none
  | some text =>
    let type := trim text
    if type.isEmpty then none else some type

@[simp] theorem fieldType_nil : fieldType [] = none := rfl

end ModelMend
