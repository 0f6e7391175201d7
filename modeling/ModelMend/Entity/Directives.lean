import ModelMend.Grammar.Table
import ModelMend.Token.Lexer

/-!
# Directives of an attribute

A `sea_orm` attribute carries a list of items, some of which are directives: they say whether a
field is a key, an end of a relationship or both. An attribute that is no `sea_orm` attribute with
an argument list, or that does not parse, carries no directives at all.

Directives are read as a set (`Directives.ofItems`): only the last `auto_increment` with a truth
value counts, and every other directive holds if any item names it.
-/

namespace ModelMend

open Grammar

/-- The directives that matter to the mending of a model. -/
structure Directives where
  primaryKey : Bool := false
  /-- The column is not filled by counting up: `auto_increment = false`. -/
  autoIncrementDisabled : Bool := false
  hasMany : Bool := false
  hasOne : Bool := false
  selfRef : Bool := false
  belongsTo : Bool := false
deriving DecidableEq, Repr

namespace Directives

/-- The items of an attribute list: runs of tokens with commas between them, and perhaps one comma
after the last. At most `fuel` items are read. -/
def items? : Nat → List Token → Option (List (List Token))
  | _, [] => some []
  | 0, _ :: _ => none
  | fuel + 1, tokens =>
    match after? (Phrase.phrase .metaItem) tokens with
    | none => none
    | some rest =>
      let item := tokens.take (tokens.length - rest.length)
      match rest with
      | [] => some [item]
      | .punct ',' _ :: rest => (items? fuel rest).map (item :: ·)
      | _ => none

/-- The name of an item whose path is a single word. -/
def itemName? : List Token → Option (List Char)
  | [.word name] => some name
  | .word name :: .group _ _ :: _ => some name
  | .word name :: .punct '=' _ :: _ => some name
  | _ => none

/-- The truth value that an item assigns to its name, if it assigns one. -/
def itemFlag? : List Token → Option Bool
  | [.word _, .punct '=' _, .word value] =>
    if value = "true".toList then some true
    else if value = "false".toList then some false
    else none
  | _ => none

def note (directives : Directives) (item : List Token) : Directives :=
  match itemName? item with
  | none => directives
  | some name =>
    if name = "primary_key".toList then { directives with primaryKey := true }
    else if name = "auto_increment".toList then
      match itemFlag? item with
      | some enabled => { directives with autoIncrementDisabled := !enabled }
      | none => directives
    else if name = "has_many".toList then { directives with hasMany := true }
    else if name = "has_one".toList then { directives with hasOne := true }
    else if name = "self_ref".toList then { directives with selfRef := true }
    else if name = "belongs_to".toList then { directives with belongsTo := true }
    else directives

def ofItems (items : List (List Token)) : Directives :=
  items.foldl note {}

/-- The directives of the first of the attributes, if it is a `sea_orm` attribute with a list. -/
def ofTokens? (tokens : List Token) : Option Directives :=
  match tokens with
  | .punct '#' _ :: .group .square [.word name, .group _ arguments] :: _ =>
    if name = "sea_orm".toList then (items? arguments.length arguments).map ofItems else none
  | _ => none

/-- The directives in the text of an attribute. Several attributes may stand in the text: all of
them have to parse, and the first counts. -/
def parse (text : List Char) : Option Directives :=
  match Token.ofText? text with
  | none => none
  | some tokens => if areAttributes tokens then ofTokens? tokens else none

/-- The attribute sits on the inverse side of a relationship. -/
def declaresRelation (directives : Directives) : Bool :=
  directives.hasMany || directives.hasOne || directives.selfRef

/-- The least attribute that keeps the key flags, if there are any. -/
def keyFlagsAttribute (directives : Directives) (indent : List Char) : Option (List Char) :=
  let key := "primary_key".toList
  let counting := "auto_increment = false".toList
  let flags :=
    match directives.primaryKey, directives.autoIncrementDisabled with
    | true, true => some (key ++ ", ".toList ++ counting)
    | true, false => some key
    | false, true => some counting
    | false, false => none
  flags.map fun flags => indent ++ "#[sea_orm(".toList ++ flags ++ ")]".toList

@[simp] theorem ofItems_nil : ofItems [] = {} := rfl

@[simp] theorem keyFlagsAttribute_empty (indent : List Char) :
    keyFlagsAttribute {} indent = none := rfl

end Directives

end ModelMend
