import ModelMend.Text.Split
import ModelMend.Toml.Quote
import ModelMend.Toml.Tree

/-!
# TOML numbers and booleans

A number or a boolean is one run of letters, digits, signs, points and underscores. Digits may be
grouped by single underscores, a decimal number has no leading zero, and an integer fits into 64 bits
with its sign.
-/

namespace ModelMend.Toml

open Text

/-- Digits of some kind, perhaps grouped by single underscores between them. -/
def isGrouped (isDigit : Char → Bool) (text : List Char) : Bool :=
  (split '_' text).all fun group => !group.isEmpty && group.all isDigit

def ungrouped (text : List Char) : List Char :=
  text.filter (· ≠ '_')

/-- Grouped decimal digits without a leading zero. -/
def isDecimal (text : List Char) : Bool :=
  isGrouped Char.isDigit text && (text.head? ≠ some '0' || text.length == 1)

def valueInBase (base : Nat) (digits : List Char) : Nat :=
  digits.foldl (fun value c => base * value + (hexValue? c).getD 0) 0

/-- An integer with a base mark in front of its digits. -/
def markedInteger? (base : Nat) (digits : List Char) : Option Int :=
  let isDigit (c : Char) : Bool := (hexValue? c).any (· < base)
  if isGrouped isDigit digits then some (valueInBase base (ungrouped digits)) else none

def integer? (text : List Char) : Option Int :=
  match text with
  | '0' :: 'x' :: digits => markedInteger? 16 digits
  | '0' :: 'o' :: digits => markedInteger? 8 digits
  | '0' :: 'b' :: digits => markedInteger? 2 digits
  | _ =>
    if isDecimal (splitSign text).2 then integerOfText? (ungrouped text) else none

/-- The exponent of a float: its mark, an optional sign and grouped digits. -/
def isExponent : List Char → Bool
  | [] => false
  | mark :: text => (mark = 'e' || mark = 'E') && isGrouped Char.isDigit (splitSign text).2

/-- What follows the whole part of a float: a fraction, an exponent, or both. -/
def isFraction (text : List Char) : Bool :=
  match text with
  | '.' :: text =>
    let isDigitOrMark (c : Char) : Bool := c.isDigit || c == '_'
    let exponent := text.dropWhile isDigitOrMark
    isGrouped Char.isDigit (text.takeWhile isDigitOrMark) &&
      (exponent.isEmpty || isExponent exponent)
  | text => isExponent text

/-- A float. A number that is too great is no float, though one that is too small is. -/
def float? (text : List Char) : Option Binary64 :=
  let unsigned := (splitSign text).2
  let isDigitOrMark (c : Char) : Bool := c.isDigit || c == '_'
  if unsigned = "inf".toList || unsigned = "nan".toList then Binary64.ofText? text
  else if isDecimal (unsigned.takeWhile isDigitOrMark)
      && isFraction (unsigned.dropWhile isDigitOrMark) then
    (Binary64.ofText? (ungrouped text)).filter (· ≠ .infinite false)
  else none

def isScalarChar (c : Char) : Bool :=
  c.isAlphanum || c == '_' || c == '+' || c == '-' || c == '.'

def scalar? (text : List Char) : Option Toml :=
  if text = "true".toList then some (.boolean true)
  else if text = "false".toList then some (.boolean false)
  else
    match integer? text with
    | some n => if fitsSigned64 n then some (.integer n) else none
    | none => (float? text).map .float

end ModelMend.Toml
