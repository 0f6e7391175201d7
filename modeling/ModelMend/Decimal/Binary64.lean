import ModelMend.Decimal.Digits

/-!
# Binary floating point numbers of 64 bits

A finite number is `± mantissa · 2 ^ exponent` with a mantissa below `2 ^ 53` and an exponent of at
least `-1074`; a mantissa below `2 ^ 52` occurs with the lowest exponent only. A decimal number is
read as the nearest such number, a tie going to the even mantissa (`Binary64.ofDecimal`), by exact
arithmetic on natural numbers.
-/

namespace ModelMend

/-- A binary floating point number of 64 bits. -/
inductive Binary64 where
  /-- The number `± mantissa · 2 ^ exponent`. -/
  | finite (negative : Bool) (mantissa : Nat) (exponent : Int)
  | infinite (negative : Bool)
  | notANumber
deriving DecidableEq, Repr

/-- The quotient of two numbers, rounded to nearest; a tie goes to the even neighbour. -/
def roundedQuotient (num den : Nat) : Nat :=
  let quotient := num / den
  let twice := 2 * (num % den)
  if twice < den || (twice == den && quotient % 2 == 0) then quotient else quotient + 1

/-- A power with an integer exponent as a quotient of two natural numbers. -/
def powerQuotient (base : Nat) (exponent : Int) : Nat × Nat :=
  (base.pow exponent.toNat, base.pow (-exponent).toNat)

namespace Binary64

/-- The least mantissa above the lowest exponent. -/
def leastMantissa : Nat := Nat.pow 2 52

def lowestExponent : Int := -1074

def highestExponent : Int := 971

/-- The number nearest to `± num / den`, both not zero. -/
def ofQuotient (negative : Bool) (num den : Nat) : Binary64 :=
  let scaled (exponent : Int) : Nat × Nat :=
    let power := powerQuotient 2 exponent
    (num * power.2, den * power.1)
  let guess := max ((num.log2 : Int) - den.log2 - 53) lowestExponent
  let exponent :=
    if (scaled guess).1 / (scaled guess).2 < 2 * leastMantissa then guess else guess + 1
  let mantissa := roundedQuotient (scaled exponent).1 (scaled exponent).2
  let carried := mantissa == 2 * leastMantissa
  let exponent := if carried then exponent + 1 else exponent
  if exponent > highestExponent then infinite negative
  else finite negative (if carried then leastMantissa else mantissa) exponent

/-- The number nearest to `± coefficient · 10 ^ exponent`. A decimal far outside the range of finite
numbers is not expanded. -/
def ofDecimal (negative : Bool) (coefficient : Nat) (exponent : Int) : Binary64 :=
  let magnitude := (decimalDigits coefficient).length + exponent
  if coefficient = 0 || magnitude < -330 then finite negative 0 lowestExponent
  else if magnitude > 310 then infinite negative
  else
    let power := powerQuotient 10 exponent
    ofQuotient negative (coefficient * power.1) power.2

/-- The exponent mark of a decimal text and the exponent after it; no text is the exponent zero. -/
def exponentOfText? : List Char → Option Int
  | [] => some 0
  | mark :: text => if mark = 'e' || mark = 'E' then integerOfText? text else none

/-- Digits with a point among, before or after them, and perhaps an exponent. -/
def ofUnsignedText? (negative : Bool) (text : List Char) : Option Binary64 :=
  let whole := text.takeWhile Char.isDigit
  let rest := text.dropWhile Char.isDigit
  let afterPoint := if rest.head? = some '.' then rest.tail else []
  let fraction := afterPoint.takeWhile Char.isDigit
  let tail := if rest.head? = some '.' then afterPoint.dropWhile Char.isDigit else rest
  if whole.isEmpty && fraction.isEmpty then none
  else
    (exponentOfText? tail).map fun exponent =>
      ofDecimal negative (digitsValue (whole ++ fraction)) (exponent - fraction.length)

/-- The number that a text denotes: a decimal, or a word for an infinite number or for none, in any
letter case, after an optional sign. -/
def ofText? (text : List Char) : Option Binary64 :=
  let signed := splitSign text
  let word := signed.2.map Char.toLower
  if word = "inf".toList || word = "infinity".toList then some (infinite signed.1)
  else if word = "nan".toList then some notANumber
  else ofUnsignedText? signed.1 signed.2

end Binary64

end ModelMend
