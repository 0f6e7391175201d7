/-!
# Bracket depth along lines

A small scanner finds out where an annotation or a field ends. It counts brackets over the lines
it is fed, skips string literals, character literals and line comments, and reports for each line
where its code ends, where its first comma outside all brackets stands, and where the bracket
depth came back to zero. Only the open string and the depth are carried from one line to the next.

Positions in a report count characters of the line.
-/

namespace ModelMend

/-- What the scanner remembers between lines. -/
structure Scanner where
  /-- Angle brackets nest as well. -/
  countsAngles : Bool
  /-- The number of brackets that are open. -/
  depth : Nat := 0
  /-- The line before ended inside a string literal. -/
  inString : Bool := false
deriving DecidableEq, Repr

structure LineScan where
  /-- The position of the first comma at depth zero. -/
  topComma : Option Nat
  /-- The position where the code ends: at a line comment or at the end of the line. -/
  codeEnd : Nat
  /-- The position after the first bracket that brought the depth back to zero. -/
  closedAt : Option Nat
deriving DecidableEq, Repr

namespace Scanner

/-- A scanner for annotations, which nest round, square and curly brackets. -/
def forAttribute : Scanner :=
  ⟨false, 0, false⟩

/-- A scanner for fields, which nests angle brackets too, so that a comma between the arguments of
a type does not end the field. -/
def forField : Scanner :=
  ⟨true, 0, false⟩

/-- No bracket and no string literal is open. -/
def isBalanced (scanner : Scanner) : Bool :=
  scanner.depth == 0 && !scanner.inString

/-- A place inside a line together with everything seen before it. -/
structure Cursor where
  /-- The state of the scanner at this place. -/
  scanner : Scanner
  /-- The number of characters before this place. -/
  position : Nat
  /-- The number of characters ahead that belong to an escape or a character literal. -/
  skip : Nat
  /-- The character just before this place. -/
  previous : Option Char
  /-- The first comma at depth zero. -/
  topComma : Option Nat
  /-- The place after the first bracket that brought the depth back to zero. -/
  closedAt : Option Nat

/-- The number of characters after an opening single quote that belong to a character literal, its
closing quote included. A lifetime has none. An escape goes on to the nearest single quote. -/
def literalTail : List Char → Option Nat
  | [] => none
  | '\\' :: rest => (rest.findIdx? (· == '\'')).map (· + 2)
  | _ :: '\'' :: _ => some 2
  | _ :: _ => none

namespace Cursor

def start (scanner : Scanner) : Cursor :=
  ⟨scanner, 0, 0, none, none, none⟩

def next (cursor : Cursor) (c : Char) : Cursor :=
  { cursor with position := cursor.position + 1, previous := some c }

def enter (cursor : Cursor) : Cursor :=
  { cursor with scanner := { cursor.scanner with depth := cursor.scanner.depth + 1 } }

def leave (cursor : Cursor) : Cursor :=
  { cursor with scanner := { cursor.scanner with depth := cursor.scanner.depth - 1 } }

/-- Notes that the bracket at this place brings the depth back to zero, if it does so first. -/
def noteClosed (cursor : Cursor) : Cursor :=
  if cursor.scanner.depth == 1 && cursor.closedAt.isNone then
    { cursor with closedAt := some (cursor.position + 1) }
  else cursor

/-- Reads a character of a string literal. -/
def readQuoted (cursor : Cursor) (c : Char) : Cursor :=
  if c == '\\' then { cursor with skip := 1 }
  else if c == '"' then { cursor with scanner := { cursor.scanner with inString := false } }
  else cursor

/-- Reads a character of code, knowing what follows it. An arrow is not a closing bracket. -/
def readCode (cursor : Cursor) (c : Char) (rest : List Char) : Cursor :=
  if c == '"' then { cursor with scanner := { cursor.scanner with inString := true } }
  else if c == '\'' then { cursor with skip := (literalTail rest).getD 0 }
  else if c == '(' || c == '[' || c == '\x7b' then cursor.enter
  else if c == ')' || c == ']' || c == '\x7d' then cursor.noteClosed.leave
  else if c == '<' && cursor.scanner.countsAngles then cursor.enter
  else if c == '>' && cursor.scanner.countsAngles && cursor.previous != some '-' then cursor.leave
  else if c == ',' && cursor.scanner.depth == 0 && cursor.topComma.isNone then
    { cursor with topComma := some cursor.position }
  else cursor

/-- Walks over the rest of a line, up to a line comment or the end. -/
def walk (cursor : Cursor) : List Char → Cursor
  | [] => cursor
  | c :: rest =>
    if cursor.skip != 0 then walk ({ cursor with skip := cursor.skip - 1 }.next c) rest
    else if cursor.scanner.inString then walk ((cursor.readQuoted c).next c) rest
    else if c == '/' && rest.head? == some '/' then cursor
    else walk ((cursor.readCode c rest).next c) rest

end Cursor

/-- Feeds one line to the scanner: the report about the line and the scanner after it. -/
def feed (scanner : Scanner) (line : List Char) : LineScan × Scanner :=
  let last := (Cursor.start scanner).walk line
  (⟨last.topComma, last.position, last.closedAt⟩, last.scanner)

/-- The reports about a run of lines, each with the scanner after its line. -/
def feedAll (scanner : Scanner) : List (List Char) → List (LineScan × Scanner)
  | [] => []
  | line :: lines => scanner.feed line :: feedAll (scanner.feed line).2 lines

@[simp] theorem feedAll_nil (scanner : Scanner) : scanner.feedAll [] = [] := rfl

@[simp] theorem length_feedAll (scanner : Scanner) (lines : List (List Char)) :
    (scanner.feedAll lines).length = lines.length := by
  induction lines generalizing scanner with
  | nil => rfl
  | cons line lines ih => simp [feedAll, ih]

end Scanner

end ModelMend
