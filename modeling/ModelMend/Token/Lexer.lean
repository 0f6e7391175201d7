import ModelMend.Text.Blank
import ModelMend.Token.Literal

/-!
# From text to tokens

A text is cut into lexemes, and the lexemes are nested into token trees. White space and comments
are dropped; a documentation comment becomes the attribute that it stands for. The text as a whole
fails if any piece of it is no lexeme or if a bracket has no partner.

The cutting loop is bounded by the length of the text: every step takes at least one character.
-/

namespace ModelMend

open Text

/-- A piece of text: a token that holds no other, or one side of a pair of brackets. -/
inductive Lexeme where
  | token (token : Token)
  | opens (delimiter : Delimiter)
  | closes (delimiter : Delimiter)

namespace Lexeme

/-- The text up to its first line end, a carriage return before the line feed not included. -/
def restOfLine : List Char → List Char
  | [] => []
  | '\r' :: '\n' :: _ => []
  | c :: rest => if c == '\n' then [] else c :: restOfLine rest

/-- What follows a block comment whose nesting depth so far is given. -/
def blockTail (depth : Nat) : List Char → Option (List Char)
  | [] => none
  | '/' :: '*' :: rest => blockTail (depth + 1) rest
  | '*' :: '/' :: rest => if depth ≤ 1 then some rest else blockTail (depth - 1) rest
  | _ :: rest => blockTail depth rest

/-- White space between tokens: that of Unicode and the two direction marks. -/
def isSpace (c : Char) : Bool :=
  isBlank c || c == '\u200e' || c == '\u200f'

/-- The text after one white space character or one comment that documents nothing. -/
def afterSpace? (text : List Char) : Option (List Char) :=
  let starts (opening : String) := opening.toList.isPrefixOf text
  if starts "//" && (!starts "///" || starts "////") && !starts "//!" then
    some (text.drop (restOfLine text).length)
  else if starts "/**/" then some (text.drop 4)
  else if starts "/*" && (!starts "/**" || starts "/***") && !starts "/*!" then blockTail 0 text
  else
    match text with
    | [] => none
    | c :: rest => if isSpace c then some rest else none

/-- Every carriage return of the text stands before a line feed. -/
def returnsPaired : List Char → Bool
  | [] => true
  | '\r' :: '\n' :: rest => returnsPaired rest
  | c :: rest => c != '\r' && returnsPaired rest

/-- The tokens that a documentation comment stands for. -/
def documents (inner : Bool) (comment : List Char) : List Lexeme :=
  [token (.punct '#' false)] ++ (if inner then [token (.punct '!' false)] else []) ++
    [opens .square, token (.word "doc".toList), token (.punct '=' false),
     token (.literal .string comment), closes .square]

/-- A documentation comment at the start of the text: whether it is an inner one, its content, and
what follows it. -/
def docComment? (text : List Char) : Option (Bool × List Char × List Char) :=
  let starts (opening : String) := opening.toList.isPrefixOf text
  let line (inner : Bool) :=
    let comment := restOfLine (text.drop 3)
    some (inner, comment, text.drop (3 + comment.length))
  let block (inner : Bool) :=
    (blockTail 0 text).map fun rest =>
      (inner, (text.drop 3).take (text.length - rest.length - 5), rest)
  if starts "//!" then line true
  else if starts "/*!" then block true
  else if starts "///" && !starts "////" then line false
  else if starts "/**" && !starts "/***" then block false
  else none

def punctuation : List Char :=
  "~!@#$%^&*-=+|;:,<.>/?'".toList

/-- The text starts with a punctuation character that does not open a comment. -/
def startsPunct : List Char → Bool
  | '/' :: '/' :: _ => false
  | '/' :: '*' :: _ => false
  | c :: _ => punctuation.contains c
  | [] => false

/-- The identifier at the start of the text, raw or not, and what follows it. The path keywords
and the underscore have no raw form. -/
def ident? (text : List Char) : Option (List Char × List Char) :=
  let raw := "r#".toList.isPrefixOf text
  match if raw then text.drop 2 else text with
  | [] => none
  | c :: rest =>
    if isIdentStart c then
      let name := c :: rest.takeWhile isIdentContinue
      let tail := rest.dropWhile isIdentContinue
      if !raw then some (name, tail)
      else if (["_", "super", "self", "Self", "crate"].map String.toList).contains name then none
      else some ("r#".toList ++ name, tail)
    else none

/-- Openings of literals that cannot be read as the start of an identifier. -/
def literalOpenings : List (List Char) :=
  ["r\"", "r#\"", "r##", "b\"", "b'", "br\"", "br#", "c\"", "cr\"", "cr#"].map String.toList

/-- A word at the start of the text, and what follows it. -/
def word? (text : List Char) : Option (List Char × List Char) :=
  if literalOpenings.any (·.isPrefixOf text) then none else ident? text

/-- A lifetime, given the text after its single quote, and what follows it. In front of a literal
that begins like a name the quote stands alone. -/
def lifetime? (text : List Char) : Option (Token × List Char) :=
  match ident? text with
  | none => none
  | some (name, rest) =>
    if ['\''].isPrefixOf rest || (['#'].isPrefixOf rest && !"r#".toList.isPrefixOf text) then none
    else if (word? text).isSome then some (.lifetime name, rest)
    else some (.punct '\'' true, text)

/-- The token at the start of the text, none that holds others, and what follows it. -/
def leaf? (text : List Char) : Option (Token × List Char) :=
  match Literal.read? text with
  | some (kind, rest) => some (.literal kind (text.take (text.length - rest.length)), rest)
  | none =>
    match text with
    | '\'' :: rest => lifetime? rest
    | _ =>
      match text, startsPunct text with
      | c :: rest, true => some (.punct c (startsPunct rest), rest)
      | _, _ => (word? text).map fun (name, rest) => (.word name, rest)

/-- The lexemes that the start of the text stands for, and what follows it. -/
def next? (text : List Char) : Option (List Lexeme × List Char) :=
  match docComment? text with
  | some (inner, comment, rest) =>
    if returnsPaired comment then some (documents inner comment, rest) else none
  | none =>
    match text with
    | '(' :: rest => some ([opens .round], rest)
    | '[' :: rest => some ([opens .square], rest)
    | '\x7b' :: rest => some ([opens .curly], rest)
    | ')' :: rest => some ([closes .round], rest)
    | ']' :: rest => some ([closes .square], rest)
    | '\x7d' :: rest => some ([closes .curly], rest)
    | _ => (leaf? text).map fun (leaf, rest) => ([token leaf], rest)

/-- Cuts a text into lexemes, in at most `fuel` steps. -/
def cut : Nat → List Char → Option (List Lexeme)
  | _, [] => some []
  | 0, _ :: _ => none
  | fuel + 1, text =>
    match afterSpace? text with
    | some rest => cut fuel rest
    | none =>
      match next? text with
      | some (found, rest) => (cut fuel rest).map (found ++ ·)
      | none => none

/-- Nests lexemes into token trees. The stack holds the open brackets, each with the tokens before
it, last first; `current` holds the tokens since the innermost of them, last first. -/
def nest (stack : List (Delimiter × List Token)) (current : List Token) :
    List Lexeme → Option (List Token)
  | [] => if stack.isEmpty then some current.reverse else none
  | token leaf :: rest => nest stack (leaf :: current) rest
  | opens delimiter :: rest => nest ((delimiter, current) :: stack) [] rest
  | closes delimiter :: rest =>
    match stack with
    | [] => none
    | (opened, outer) :: stack =>
      if opened = delimiter then nest stack (.group delimiter current.reverse :: outer) rest
      else none

end Lexeme

/-- The token trees of a text. A byte order mark at its start is dropped. -/
def Token.ofText? (text : List Char) : Option (List Token) :=
  let text := if ['\ufeff'].isPrefixOf text then text.drop 1 else text
  (Lexeme.cut text.length text).bind (Lexeme.nest [] [])

end ModelMend
