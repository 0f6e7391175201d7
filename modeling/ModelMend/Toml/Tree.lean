import ModelMend.Decimal.Binary64
import ModelMend.Toml.DateTime

/-!
# TOML trees

A TOML document denotes a tree of tables. How a table came to be decides what may still be added to
it: a table in braces is closed, a table with a header of its own may not be opened again or reached
by a dotted key, a table that a deeper header or a dotted key brought along is open to its own kind.
Nothing is ever defined twice.
-/

namespace ModelMend

/-- How a table of a document came to be. -/
inductive TableForm where
  /-- Written in braces. -/
  | braced
  /-- Opened by a header of its own. -/
  | header
  /-- Brought along by the header of a deeper table. -/
  | implied
  /-- Brought along by a dotted key. -/
  | dotted
deriving DecidableEq, Repr

inductive Toml where
  | string (value : List Char)
  | integer (value : Int)
  | float (value : Binary64)
  | boolean (value : Bool)
  | dateTime (value : Toml.DateTime)
  /-- A list of values in brackets. -/
  | array (items : List Toml)
  /-- A list of tables, each opened by a header in double brackets. -/
  | tables (items : List Toml)
  | table (form : TableForm) (entries : List (List Char × Toml))
deriving Repr

namespace Toml

/-- The keys and values of a table, in the order in which the keys came up. -/
abbrev Entries := List (List Char × Toml)

/-- Changes the value of a key, or adds it. -/
def Entries.alter? (key : List Char) (change : Option Toml → Option Toml) :
    Entries → Option Entries
  | [] => (change none).map fun value => [(key, value)]
  | entry :: rest =>
    if entry.1 = key then (change (some entry.2)).map fun value => (key, value) :: rest
    else (Entries.alter? key change rest).map (entry :: ·)

/-- A path that brings along tables of the one form may lead through tables of the other. -/
def mayPass : TableForm → TableForm → Bool
  | _, .braced => false
  | .dotted, .header => false
  | _, _ => true

/-- Changes the entries of the table at the end of a path, given its form. Tables that are missing
on the way come to be in the form `bring`. A list of tables stands for its last element. -/
def Entries.alterAt? (bring : TableForm) (act : TableForm → Entries → Option Entries) :
    List (List Char) → TableForm → Entries → Option Entries
  | [], form, entries => act form entries
  | key :: path, _, entries =>
    entries.alter? key fun
      | none => (Entries.alterAt? bring act path bring []).map (.table bring)
      | some (.table form inner) =>
        if mayPass bring form then
          (Entries.alterAt? bring act path form inner).map (.table form)
        else none
      | some (.tables items) =>
        match items.getLast? with
        | some (.table form inner) =>
          (Entries.alterAt? bring act path form inner).map fun inner =>
            .tables (items.dropLast ++ [.table form inner])
        | _ => none
      | some _ => none

/-- Defines a dotted key in a table. The table that holds the last part of the key has to be the
table itself or to have come to be by a dotted key. -/
def Entries.define? (path : List (List Char)) (key : List Char) (value : Toml)
    (entries : Entries) : Option Entries :=
  Entries.alterAt? .dotted (fun form inner =>
    if path.isEmpty || form = .dotted then
      inner.alter? key fun
        | none => some value
        | some _ => none
    else none) path .header entries

/-- Opens the table that a header names. -/
def Entries.openTable? (path : List (List Char)) (key : List Char) (entries : Entries) :
    Option Entries :=
  Entries.alterAt? .implied (fun _ inner =>
    inner.alter? key fun
      | none => some (.table .header [])
      | some (.table .implied old) => some (.table .header old)
      | some _ => none) path .header entries

/-- Opens one more element of the list of tables that a header names. -/
def Entries.openElement? (path : List (List Char)) (key : List Char) (entries : Entries) :
    Option Entries :=
  Entries.alterAt? .implied (fun _ inner =>
    inner.alter? key fun
      | none => some (.tables [.table .header []])
      | some (.tables items) => some (.tables (items ++ [.table .header []]))
      | some _ => none) path .header entries

/-- Defines a dotted key in the table that the last header opened. -/
def Entries.defineIn? (current path : List (List Char)) (key : List Char) (value : Toml)
    (entries : Entries) : Option Entries :=
  Entries.alterAt? .implied (fun _ inner => inner.define? path key value) current .header entries

end Toml

end ModelMend
