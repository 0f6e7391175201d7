import ModelMend.Decimal.Shortest
import ModelMend.Text.Quoted
import ModelMend.Toml.Tree

/-!
# Setting values

Settings come from several sources and are laid over each other key by key. A table takes in the
entries of the table laid over it; anything else is replaced. Keys are kept in lower case. A list
or a table remembers the source it was written in; a table that has taken in entries has none.
-/

namespace ModelMend

inductive Setting where
  /-- An item of a list that was never written. -/
  | missing
  | boolean (value : Bool)
  | integer (value : Int)
  | number (value : Binary64)
  | string (value : List Char)
  | list (origin : Option (List Char)) (items : List Setting)
  | table (origin : Option (List Char)) (entries : List (List Char × Setting))
deriving Repr

/-- What a setting is, as an error message names it. -/
inductive SettingKind where
  | missing
  | boolean (value : Bool)
  | integer (value : Int)
  | number (value : Binary64)
  | string (value : List Char)
  | list
  | table
deriving DecidableEq, Repr

/-- The words of a message for the kind of a setting. -/
def SettingKind.words : SettingKind → List Char
  | missing => "unit value".toList
  | boolean value => (if value then "boolean \x60true\x60" else "boolean \x60false\x60").toList
  | integer value => "integer \x60".toList ++ integerText value ++ ['\x60']
  | number value => "floating point \x60".toList ++ value.pointedText ++ ['\x60']
  | string value => "string ".toList ++ Text.quoted value
  | list => "sequence".toList
  | table => "map".toList

def lowerKey (key : List Char) : List Char :=
  key.map Char.toLower

namespace Setting

/-- The kind of a setting. -/
def kind : Setting → SettingKind
  | missing => .missing
  | boolean value => .boolean value
  | integer value => .integer value
  | number value => .number value
  | string value => .string value
  | list _ _ => .list
  | table _ _ => .table

/-- The source that a list or a table was written in. -/
def origin? : Setting → Option (List Char)
  | list origin _ => origin
  | table origin _ => origin
  | _ => none

def empty : Setting :=
  table none []

def lookup? (key : List Char) : List (List Char × Setting) → Option Setting
  | [] => none
  | entry :: rest => if entry.1 = key then some entry.2 else lookup? key rest

/-- Entries with a value for a key. -/
def store (key : List Char) (value : Setting) :
    List (List Char × Setting) → List (List Char × Setting)
  | [] => [(key, value)]
  | entry :: rest =>
    if entry.1 = key then (key, value) :: rest else entry :: store key value rest

def get? (setting : Setting) (key : List Char) : Option Setting :=
  match setting with
  | table _ entries => lookup? key entries
  | _ => none

/-- The setting with a value for a key; what is no table becomes one. -/
def insert (setting : Setting) (key : List Char) (value : Setting) : Setting :=
  match setting with
  | table origin entries => table origin (store key value entries)
  | _ => table none [(key, value)]

@[simp] theorem lookup?_store (key other : List Char) (value : Setting)
    (entries : List (List Char × Setting)) :
    lookup? other (store key value entries) =
      if other = key then some value else lookup? other entries := by
  induction entries with
  | nil => simp [store, lookup?, eq_comm]
  | cons entry rest ih =>
    unfold store
    by_cases h : entry.1 = key
    · by_cases hother : other = key
      · simp [h, hother, lookup?]
      · simp [h, hother, lookup?, Ne.symm hother]
    · by_cases hother : entry.1 = other
      · simp [lookup?, hother, hother ▸ h]
      · simp [h, lookup?, hother, ih]

@[simp] theorem get?_insert (setting : Setting) (key other : List Char) (value : Setting) :
    (setting.insert key value).get? other =
      if other = key then some value else setting.get? other := by
  cases setting with
  | table origin entries => exact lookup?_store key other value entries
  | _ => simp [insert, get?, lookup?, eq_comm]

mutual

/-- A setting laid over what was there before. -/
def overlay (old : Option Setting) : Setting → Setting
  | table _ entries => overlayEntries (old.getD empty) entries
  | value => value

/-- Entries laid over a setting, one after the other. -/
def overlayEntries (target : Setting) : List (List Char × Setting) → Setting
  | [] => target
  | (key, value) :: rest =>
    overlayEntries (target.insert key (overlay (target.get? key) value)) rest

end

/-- A list with a changed item; the list is filled up as far as the item, and an index below zero
counts from the end. -/
def changeItem (index : Int) (change : Setting → Setting) (items : List Setting) : List Setting :=
  let place := if index < 0 then index + items.length else index
  if place < 0 then items
  else
    let filled := items ++ List.replicate (place.toNat + 1 - items.length) missing
    filled.modify place.toNat change

end Setting

mutual

/-- The setting that a value of a document denotes. A date or a time is its text. -/
def Setting.ofToml (source : List Char) : Toml → Setting
  | .string value => .string value
  | .integer value => .integer value
  | .float value => .number value
  | .boolean value => .boolean value
  | .dateTime value => .string value.text
  | .array items => .list (some source) (Setting.ofItems source items)
  | .tables items => .list (some source) (Setting.ofItems source items)
  | .table _ entries => .table (some source) (Setting.ofEntries source entries)

/-- The settings that the items of a list denote. -/
def Setting.ofItems (source : List Char) : List Toml → List Setting
  | [] => []
  | item :: rest => Setting.ofToml source item :: Setting.ofItems source rest

/-- The entries of a table with their keys in lower case. -/
def Setting.ofEntries (source : List Char) : List (List Char × Toml) → List (List Char × Setting)
  | [] => []
  | (key, value) :: rest =>
    (lowerKey key, Setting.ofToml source value) :: Setting.ofEntries source rest

end

end ModelMend
