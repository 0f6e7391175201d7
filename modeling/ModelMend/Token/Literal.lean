import ModelMend.Text.Identifier
import ModelMend.Token.Basic

/-!
# Literals

Readers for the literals of a token stream: strings, byte strings and C strings with escapes, their
raw forms, characters, bytes and numbers. Each reader takes the text after the opening of the
literal and returns what follows it, or nothing if the literal is malformed. Every literal may
carry a suffix, which has the form of an identifier.

A quoted literal is read by an automaton (`QuoteState`): one state per place inside an escape.
-/

namespace ModelMend.Literal

open Text

inductive QuoteKind where
  /-- Any character. -/
  | text
  /-- ASCII only. -/
  | bytes
  /-- Any character but NUL. -/
  | terminated
deriving DecidableEq, Repr

/-- The character may stand for itself in a literal of this kind. -/
def QuoteKind.admits : QuoteKind → Char → Bool
  | text, _ => true
  | bytes, c => c.toNat < 128
  | terminated, c => c != '\x00'

/-- Where the reader of a quoted literal stands. -/
inductive QuoteState where
  /-- Outside any escape. -/
  | plain
  /-- After a carriage return, which only a line feed may follow. -/
  | afterReturn
  /-- After a backslash. -/
  | escape
  /-- Before the first of two hexadecimal digits. -/
  | hexFirst
  /-- Before the second of two hexadecimal digits. -/
  | hexSecond (first : Char)
  /-- Before the opening brace of a code point. -/
  | codeOpen
  /-- Inside the braces of a code point: its value so far and the number of its digits. -/
  | code (value digits : Nat)
  /-- After a backslash at the end of a line, skipping blanks. -/
  | lineBreak (afterReturn : Bool)
deriving DecidableEq, Repr

/-- What one character does to the reader of a quoted literal. -/
inductive QuoteStep where
  | more (state : QuoteState)
  | closed
  | broken

def hexDigit? (c : Char) : Option Nat :=
  if '0' ≤ c && c ≤ '9' then some (c.toNat - '0'.toNat)
  else if 'a' ≤ c && c ≤ 'f' then some (c.toNat - 'a'.toNat + 10)
  else if 'A' ≤ c && c ≤ 'F' then some (c.toNat - 'A'.toNat + 10)
  else none

def isScalar (n : Nat) : Bool :=
  n < 0xd800 || (0xe000 ≤ n && n < 0x110000)

def plainStep (kind : QuoteKind) (c : Char) : QuoteStep :=
  if c == '"' then .closed
  else if c == '\r' then .more .afterReturn
  else if c == '\\' then .more .escape
  else if kind.admits c then .more .plain
  else .broken

def escapeStep (kind : QuoteKind) (c : Char) : QuoteStep :=
  if c == 'x' then .more .hexFirst
  else if ['n', 'r', 't', '\\', '\'', '"'].contains c then .more .plain
  else if c == '0' && kind != .terminated then .more .plain
  else if c == 'u' && kind != .bytes then .more .codeOpen
  else if c == '\n' then .more (.lineBreak false)
  else if c == '\r' then .more (.lineBreak true)
  else .broken

/-- A character inside the braces of a code point of at most six digits. -/
def codeStep (kind : QuoteKind) (value digits : Nat) (c : Char) : QuoteStep :=
  match hexDigit? c with
  | some digit => if digits == 6 then .broken else .more (.code (16 * value + digit) (digits + 1))
  | none =>
    if c == '_' && digits != 0 then .more (.code value digits)
    else if c == '\x7d' && digits != 0 && isScalar value && !(kind == .terminated && value == 0)
    then .more .plain
    else .broken

def step (kind : QuoteKind) : QuoteState → Char → QuoteStep
  | .plain, c => plainStep kind c
  | .afterReturn, c => if c == '\n' then .more .plain else .broken
  | .escape, c => escapeStep kind c
  | .hexFirst, c =>
    if (hexDigit? c).isSome && (kind != .text || c ≤ '7') then .more (.hexSecond c) else .broken
  | .hexSecond first, c =>
    if (hexDigit? c).isSome && !(kind == .terminated && first == '0' && c == '0') then .more .plain
    else .broken
  | .codeOpen, c => if c == '\x7b' then .more (.code 0 0) else .broken
  | .code value digits, c => codeStep kind value digits c
  | .lineBreak true, c => if c == '\n' then .more (.lineBreak false) else .broken
  | .lineBreak false, c =>
    if c == ' ' || c == '\t' || c == '\n' then .more (.lineBreak false)
    else if c == '\r' then .more (.lineBreak true)
    else plainStep kind c

/-- What follows the double quote that ends the literal. -/
def quotedTail (kind : QuoteKind) : QuoteState → List Char → Option (List Char)
  | _, [] => none
  | state, c :: rest =>
    match step kind state c with
    | .more state => quotedTail kind state rest
    | .closed => some rest
    | .broken => none

/-- What follows one escape that stands for a character. -/
def escapeTail (kind : QuoteKind) : QuoteState → List Char → Option (List Char)
  | _, [] => none
  | state, c :: rest =>
    match step kind state c with
    | .more .plain => some rest
    | .more (.lineBreak _) => none
    | .more state => escapeTail kind state rest
    | .closed | .broken => none

/-- What follows a single quote at the start of the text. -/
def afterSingleQuote : List Char → Option (List Char)
  | '\'' :: rest => some rest
  | _ => none

/-- What follows the single quote that ends a character or a byte. -/
def charTail (kind : QuoteKind) : List Char → Option (List Char)
  | [] => none
  | '\\' :: rest => (escapeTail kind .escape rest).bind afterSingleQuote
  | c :: rest => if kind.admits c then afterSingleQuote rest else none

/-- What follows the end of a raw literal: a double quote and the given number signs. -/
def rawTail (kind : QuoteKind) (signs : List Char) : List Char → Option (List Char)
  | [] => none
  | '\r' :: '\n' :: rest => rawTail kind signs rest
  | c :: rest =>
    if c == '"' && signs.isPrefixOf rest then some (rest.drop signs.length)
    else if c == '\r' || !kind.admits c then none
    else rawTail kind signs rest

/-- What follows a raw literal, given the text after its letter. At most 255 number signs may
open it. -/
def rawLiteralTail (kind : QuoteKind) (text : List Char) : Option (List Char) :=
  let signs := text.takeWhile (· == '#')
  match text.dropWhile (· == '#') with
  | '"' :: rest => if signs.length ≤ 255 then rawTail kind signs rest else none
  | _ => none

/-- Drops an identifier at the start of the text, if there is one. -/
def dropSuffix : List Char → List Char
  | [] => []
  | c :: rest => if isIdentStart c then rest.dropWhile isIdentContinue else c :: rest

/-- Drops the suffix of a number; no identifier character may be left over. -/
def numberTail (text : List Char) : Option (List Char) :=
  let rest := dropSuffix text
  if rest.head?.any isIdentContinue then none else some rest

/-- What follows the digits of an exponent. A sign stands first, and a digit is required. -/
def exponentTail (sawSign sawDigit : Bool) : List Char → Option (List Char)
  | [] => if sawDigit then some [] else none
  | c :: rest =>
    if c == '+' || c == '-' then
      if sawDigit then some (c :: rest)
      else if sawSign then none
      else exponentTail true sawDigit rest
    else if c.isDigit then exponentTail sawSign true rest
    else if c == '_' then exponentTail sawSign sawDigit rest
    else if sawDigit then some (c :: rest)
    else none

/-- What follows the digits, the point and the exponent of a number with a fraction or an
exponent. A point is no part of it before another point or an identifier. -/
def floatTail (sawPoint : Bool) : List Char → Option (List Char)
  | [] => if sawPoint then some [] else none
  | c :: rest =>
    if c.isDigit || c == '_' then floatTail sawPoint rest
    else if c == '.' && !sawPoint then
      if rest.head?.any (fun d => d == '.' || isIdentStart d) then none else floatTail true rest
    else if c == 'e' || c == 'E' then
      match exponentTail false false rest with
      | some tail => some tail
      | none => if sawPoint then some (c :: rest) else none
    else if sawPoint then some (c :: rest)
    else none

/-- What follows a number with a fraction or an exponent. -/
def floatLiteralTail : List Char → Option (List Char)
  | [] => none
  | c :: rest => if c.isDigit then (floatTail false rest).bind numberTail else none

/-- What follows the digits of an integer in the given base. A decimal digit that is too large for
the base is an error; a letter that is too large starts the suffix. -/
def digitsTail (base : Nat) (sawDigit : Bool) : List Char → Option (List Char)
  | [] => if sawDigit then some [] else none
  | c :: rest =>
    match hexDigit? c with
    | some digit =>
      if digit < base then digitsTail base true rest
      else if c.isDigit then none
      else if sawDigit then some (c :: rest)
      else none
    | none =>
      if c == '_' && (sawDigit || base != 10) then digitsTail base sawDigit rest
      else if c != '_' && sawDigit then some (c :: rest)
      else none

/-- What follows an integer. -/
def integerLiteralTail (text : List Char) : Option (List Char) :=
  let digits :=
    match text with
    | '0' :: 'x' :: rest => digitsTail 16 false rest
    | '0' :: 'o' :: rest => digitsTail 8 false rest
    | '0' :: 'b' :: rest => digitsTail 2 false rest
    | _ => digitsTail 10 false text
  digits.bind numberTail

/-- The kind of the number at the start of the text, and what follows it. -/
def number? (text : List Char) : Option (LiteralKind × List Char) :=
  match floatLiteralTail text with
  | some rest => some (.float, rest)
  | none => (integerLiteralTail text).map (.integer, ·)

/-- The kind of the literal at the start of the text, and what follows it. -/
def read? : List Char → Option (LiteralKind × List Char)
  | '"' :: rest => (quotedTail .text .plain rest).map (.string, dropSuffix ·)
  | 'r' :: rest => (rawLiteralTail .text rest).map (.string, dropSuffix ·)
  | 'b' :: '"' :: rest => (quotedTail .bytes .plain rest).map (.other, dropSuffix ·)
  | 'b' :: 'r' :: rest => (rawLiteralTail .bytes rest).map (.other, dropSuffix ·)
  | 'b' :: '\'' :: rest => (charTail .bytes rest).map (.other, dropSuffix ·)
  | 'c' :: '"' :: rest => (quotedTail .terminated .plain rest).map (.other, dropSuffix ·)
  | 'c' :: 'r' :: rest => (rawLiteralTail .terminated rest).map (.other, dropSuffix ·)
  | '\'' :: rest => (charTail .text rest).map (.other, dropSuffix ·)
  | text => number? text

end ModelMend.Literal
