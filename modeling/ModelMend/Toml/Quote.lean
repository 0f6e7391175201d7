/-!
# TOML strings

A string stands in double quotes, where a backslash escapes, or in single quotes, where it does not,
and in three of them if it may run over several lines. Reading goes character by character through a
small machine (`StringReader`): a string in three quotes ends with the run of quotes that first
reaches three, and up to two more quotes in that run belong to the string.
-/

namespace ModelMend.Toml

structure StringKind where
  quote : Char
  /-- A backslash escapes. -/
  escapes : Bool
  /-- The string may run over several lines. -/
  multiline : Bool
deriving DecidableEq, Repr

/-- Where reading stands inside a string. -/
inductive StringState where
  | plain
  /-- After a backslash. -/
  | escape
  /-- Inside the digits of a code point: how many are left, and the value so far. -/
  | code (left value : Nat)
  /-- In blanks between a backslash and the end of the line. -/
  | lineEnd
  /-- In blanks and line ends after a backslash at the end of a line. -/
  | skipping
  /-- In a run of quotes that may end the string. -/
  | quotes (count : Nat)
  /-- After the end. -/
  | closed
deriving DecidableEq, Repr

def isBlankChar (c : Char) : Bool :=
  c == ' ' || c == '\t'

/-- The character may stand for itself: it is no control character, or it is a tab. -/
def isPlainChar (c : Char) : Bool :=
  c == '\t' || (0x20 ≤ c.toNat && c.toNat ≠ 0x7f)

/-- The character that a letter after a backslash stands for. -/
def escapedChar? (c : Char) : Option Char :=
  if c = 'b' then some '\x08'
  else if c = 't' then some '\t'
  else if c = 'n' then some '\n'
  else if c = 'f' then some '\x0c'
  else if c = 'r' then some '\r'
  else if c = '"' || c = '\\' then some c
  else none

def hexValue? (c : Char) : Option Nat :=
  if c.isDigit then some (c.toNat - '0'.toNat)
  else if 'a' ≤ c && c ≤ 'f' then some (c.toNat - 'a'.toNat + 10)
  else if 'A' ≤ c && c ≤ 'F' then some (c.toNat - 'A'.toNat + 10)
  else none

namespace StringKind

/-- A character that is not escaped: what it writes, and the state after it. -/
def stepPlain (kind : StringKind) (c : Char) : Option (List Char × StringState) :=
  if c = kind.quote then some ([], if kind.multiline then .quotes 1 else .closed)
  else if c = '\\' && kind.escapes then some ([], .escape)
  else if isPlainChar c || (c = '\n' && kind.multiline) then some ([c], .plain)
  else none

/-- A character after a backslash. -/
def stepEscape (kind : StringKind) (c : Char) : Option (List Char × StringState) :=
  match escapedChar? c with
  | some d => some ([d], .plain)
  | none =>
    if c = 'u' then some ([], .code 4 0)
    else if c = 'U' then some ([], .code 8 0)
    else if kind.multiline && c = '\n' then some ([], .skipping)
    else if kind.multiline && isBlankChar c then some ([], .lineEnd)
    else none

/-- A digit of a code point. -/
def stepCode (left value : Nat) (c : Char) : Option (List Char × StringState) :=
  (hexValue? c).bind fun digit =>
    let value := 16 * value + digit
    if 1 < left then some ([], .code (left - 1) value)
    else if value.isValidChar then some ([Char.ofNat value], .plain)
    else none

/-- One character inside a string: what it writes, and the state after it. -/
def step (kind : StringKind) (state : StringState) (c : Char) : Option (List Char × StringState) :=
  match state with
  | .plain => kind.stepPlain c
  | .escape => kind.stepEscape c
  | .code left value => stepCode left value c
  | .lineEnd =>
    if c = '\n' then some ([], .skipping)
    else if isBlankChar c then some ([], .lineEnd)
    else none
  | .skipping =>
    if c = '\n' || isBlankChar c then some ([], .skipping) else kind.stepPlain c
  | .quotes count =>
    if c = kind.quote then if count < 5 then some ([], .quotes (count + 1)) else none
    else
      (kind.stepPlain c).map fun out => (List.replicate count kind.quote ++ out.1, out.2)
  | .closed => none

/-- The string ends in this state: the quotes of the last run that belong to it. -/
def ending? (kind : StringKind) : StringState → Option (List Char)
  | .closed => some []
  | .quotes count => if 3 ≤ count then some (List.replicate (count - 3) kind.quote) else none
  | _ => none

def goesOn (kind : StringKind) (state : StringState) (c : Char) : Bool :=
  match state with
  | .closed => false
  | .quotes count => count < 3 || c = kind.quote
  | _ => true

/-- The rest of a string and what follows it. -/
def readFrom (kind : StringKind) (state : StringState) : List Char → Option (List Char × List Char)
  | [] => (kind.ending? state).map fun tail => (tail, [])
  | c :: rest =>
    if kind.goesOn state c then
      (kind.step state c).bind fun out =>
        (kind.readFrom out.2 rest).map fun read => (out.1 ++ read.1, read.2)
    else (kind.ending? state).map fun tail => (tail, c :: rest)

end StringKind

/-- The kinds of strings on one line. -/
def basicString : StringKind := ⟨'"', true, false⟩

def literalString : StringKind := ⟨'\'', false, false⟩

/-- A string in quotes on one line, and what follows it. -/
def lineString? (text : List Char) : Option (List Char × List Char) :=
  match text with
  | '"' :: rest => basicString.readFrom .plain rest
  | '\'' :: rest => literalString.readFrom .plain rest
  | _ => none

/-- A string over several lines after its opening quotes; a line end right after them is left
out. -/
def openedString? (kind : StringKind) (text : List Char) : Option (List Char × List Char) :=
  let body := if text.head? = some '\n' then text.tail else text
  { kind with multiline := true }.readFrom .plain body

/-- A string of any kind, and what follows it. -/
def string? (text : List Char) : Option (List Char × List Char) :=
  match text with
  | '"' :: '"' :: '"' :: rest => openedString? basicString rest
  | '\'' :: '\'' :: '\'' :: rest => openedString? literalString rest
  | text => lineString? text

end ModelMend.Toml
