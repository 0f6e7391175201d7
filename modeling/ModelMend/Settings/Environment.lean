import ModelMend.Settings.KeyPath
import ModelMend.Text.Split

/-!
# Settings in the environment

A variable whose name begins with the mark of the program, in any letter case, is a setting; two
underscores separate the levels of its key. Its value is a boolean, an integer or a number if it
reads as one, else a text; a text for the list of exclusions is cut at commas.
-/

namespace ModelMend

/-- The variables of an environment with their values. -/
abbrev Environment := List (List Char × List Char)

namespace Environment

/-- What the name of a setting begins with. -/
def nameMark : List Char :=
  "fix_entities__".toList

/-- The key whose text is a list with commas. -/
def listKey : List Char :=
  "entities.exclude".toList

/-- The name with a point for every two underscores. -/
def levels : List Char → List Char
  | '_' :: '_' :: rest => '.' :: levels rest
  | c :: rest => c :: levels rest
  | [] => []

/-- The key of the setting that a variable holds. -/
def key? (name : List Char) : Option (List Char) :=
  let name := lowerKey name
  if nameMark.isPrefixOf name then some (levels (name.drop nameMark.length)) else none

/-- The setting that the value of a variable denotes. -/
def valueOf (key value : List Char) : Setting :=
  let word := value.map Char.toLower
  if word = "true".toList then .boolean true
  else if word = "false".toList then .boolean false
  else
    match (integerOfText? value).filter fitsSigned64 with
    | some n => .integer n
    | none =>
      match Binary64.ofText? value with
      | some x => .number x
      | none =>
        if key = listKey then
          .list (some "the environment".toList) ((Text.split ',' value).map .string)
        else .string value

def settings (environment : Environment) : List (List Char × Setting) :=
  environment.filterMap fun entry => (key? entry.1).map fun key => (key, valueOf key entry.2)

end Environment

end ModelMend
