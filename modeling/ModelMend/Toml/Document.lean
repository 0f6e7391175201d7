import ModelMend.Toml.Number

/-!
# TOML documents

A document is a sequence of lines: key and value, the header of a table, a comment, or nothing. A
value may run over several lines. Reading a document gives its tree, or nothing if any part of it is
malformed or defines something twice. A byte order mark in front is left out. Keys have fewer than
eighty parts and values are nested less than eighty deep.
-/

namespace ModelMend.Toml

/-- The limit on the parts of a key and on the depth of values. -/
def depthLimit : Nat := 80

/-- A text whose lines all end in a line feed, perhaps after a carriage return, with the carriage
returns left out. -/
def unifiedLines? : List Char → Option (List Char)
  | [] => some []
  | '\r' :: '\n' :: rest => (unifiedLines? rest).map ('\n' :: ·)
  | c :: rest => if c = '\r' then none else (unifiedLines? rest).map (c :: ·)

def skipBlanks (text : List Char) : List Char :=
  text.dropWhile isBlankChar

/-- The text after a comment, up to the end of its line. -/
def skipComment? (text : List Char) : Option (List Char) :=
  if text.head? = some '#' then
    let rest := text.dropWhile isPlainChar
    if rest.isEmpty || rest.head? = some '\n' then some rest else none
  else some text

/-- The text after the end of a line, with blanks and a comment before it. -/
def lineEnd? (text : List Char) : Option (List Char) :=
  (skipComment? (skipBlanks text)).bind fun rest =>
    match rest with
    | [] => some []
    | '\n' :: rest => some rest
    | _ => none

/-- The text after blanks, line ends and comments. -/
def skipLines? : Nat → List Char → Option (List Char)
  | 0, text => some text
  | fuel + 1, text =>
    match skipBlanks text with
    | '\n' :: rest => skipLines? fuel rest
    | '#' :: rest => (skipComment? ('#' :: rest)).bind (skipLines? fuel)
    | rest => some rest

def isBareChar (c : Char) : Bool :=
  c.isAlphanum || c == '_' || c == '-'

def keyPart? : Reader (List Char) := fun text =>
  match text with
  | '"' :: _ => lineString? text
  | '\'' :: _ => lineString? text
  | _ =>
    let bare := text.takeWhile isBareChar
    if bare.isEmpty then none else some (bare, text.dropWhile isBareChar)

/-- The parts of a key, with blanks around them and points between them. -/
def keyParts? : Nat → Reader (List (List Char))
  | 0, _ => none
  | fuel + 1, text =>
    (keyPart? (skipBlanks text)).bind fun part =>
      match skipBlanks part.2 with
      | '.' :: rest =>
        (keyParts? fuel rest).map fun more => (part.1 :: more.1, more.2)
      | rest => some ([part.1], rest)

/-- The parts of a key in front of the last one, and the last one. -/
def key? : Reader (List (List Char) × List Char) := fun text =>
  (keyParts? (depthLimit - 1) text).bind fun parts =>
    parts.1.getLast?.map fun last => ((parts.1.dropLast, last), parts.2)

/-- A key, an equals sign and a value. -/
def keyValue? (value : Reader Toml) : Reader (List (List Char) × List Char × Toml) := fun text =>
  (key? text).bind fun key =>
    match key.2 with
    | '=' :: rest =>
      (value (skipBlanks rest)).map fun read => ((key.1.1, key.1.2, read.1), read.2)
    | _ => none

/-- The items of an array after its opening bracket or after a comma; the array ends with the
bracket that closes it. -/
def arrayItems? (value : Reader Toml) : Nat → Reader (List Toml)
  | 0, _ => none
  | fuel + 1, text =>
    (skipLines? text.length text).bind fun text =>
      if text.head? = some ']' then some ([], text.tail)
      else
        (value text).bind fun item =>
          (skipLines? item.2.length item.2).bind fun rest =>
            match rest with
            | ',' :: rest =>
              (arrayItems? value fuel rest).map fun more => (item.1 :: more.1, more.2)
            | ']' :: rest => some ([item.1], rest)
            | _ => none

/-- The entries of a table in braces, on top of those before; the table ends with the brace that
closes it. -/
def bracedEntries? (value : Reader Toml) : Nat → Entries → Reader Entries
  | 0, _, _ => none
  | fuel + 1, entries, text =>
    (keyValue? value text).bind fun read =>
      (entries.define? read.1.1 read.1.2.1 read.1.2.2).bind fun entries =>
        match skipBlanks read.2 with
        | ',' :: rest => bracedEntries? value fuel entries rest
        | '\x7d' :: rest => some (entries, rest)
        | _ => none

/-- A table in braces after its opening brace. -/
def bracedTable? (value : Reader Toml) : Reader Toml := fun text =>
  let inner := skipBlanks text
  if inner.head? = some '\x7d' then some (.table .braced [], inner.tail)
  else
    (bracedEntries? value text.length [] text).map fun read => (.table .braced read.1, read.2)

/-- A value with at most so many arrays and tables around its innermost parts. -/
def value? : Nat → Reader Toml
  | depth, text =>
    match text, depth with
    | '"' :: _, _ => (string? text).map fun read => (.string read.1, read.2)
    | '\'' :: _, _ => (string? text).map fun read => (.string read.1, read.2)
    | '[' :: rest, depth + 1 =>
      (arrayItems? (value? depth) text.length rest).map fun read => (.array read.1, read.2)
    | '\x7b' :: rest, depth + 1 => bracedTable? (value? depth) rest
    | text, _ =>
      match dateTime? text with
      | some read => some (.dateTime read.1, read.2)
      | none =>
        (scalar? (text.takeWhile isScalarChar)).map fun scalar =>
          (scalar, text.dropWhile isScalarChar)

/-- A document up to some place: its tree, and the path of the table that is open there. -/
structure Progress where
  entries : Entries
  current : List (List Char)

/-- A header after its opening bracket: whether it has two brackets, and its key. -/
def header? : Reader (Bool × List (List Char) × List Char) := fun text =>
  let isElement := text.head? == some '['
  (key? (if isElement then text.tail else text)).bind fun key =>
    match isElement, key.2 with
    | true, ']' :: ']' :: rest => some ((true, key.1), rest)
    | false, ']' :: rest => some ((false, key.1), rest)
    | _, _ => none

/-- The line of a header after its opening bracket. -/
def Progress.readHeader? (progress : Progress) : Reader Progress := fun text =>
  (header? text).bind fun read =>
    let path := read.1.2.1
    let key := read.1.2.2
    let opened :=
      if read.1.1 then progress.entries.openElement? path key
      else progress.entries.openTable? path key
    opened.bind fun entries =>
      (lineEnd? read.2).map fun rest => (⟨entries, path ++ [key]⟩, rest)

def Progress.readEntry? (progress : Progress) : Reader Progress := fun text =>
  (keyValue? (value? (depthLimit - 1)) text).bind fun read =>
    (progress.entries.defineIn? progress.current read.1.1 read.1.2.1 read.1.2.2).bind fun entries =>
      (lineEnd? read.2).map fun rest => ({ progress with entries := entries }, rest)

/-- The lines of a document, on top of what came before. -/
def Progress.readLines? : Nat → Progress → List Char → Option Entries
  | 0, _, _ => none
  | fuel + 1, progress, text =>
    match skipBlanks text with
    | [] => some progress.entries
    | '\n' :: rest => Progress.readLines? fuel progress rest
    | '#' :: rest => (lineEnd? ('#' :: rest)).bind (Progress.readLines? fuel progress)
    | '[' :: rest =>
      (progress.readHeader? rest).bind fun read => Progress.readLines? fuel read.1 read.2
    | text => (progress.readEntry? text).bind fun read => Progress.readLines? fuel read.1 read.2

/-- The text without a byte order mark in front. -/
def withoutMark (text : List Char) : List Char :=
  if text.head? = some '\ufeff' then text.tail else text

/-- The tree of a document: the entries of its outermost table. -/
def parse? (text : List Char) : Option Entries :=
  (unifiedLines? (withoutMark text)).bind fun text =>
    Progress.readLines? (text.length + 1) ⟨[], []⟩ text

end ModelMend.Toml
