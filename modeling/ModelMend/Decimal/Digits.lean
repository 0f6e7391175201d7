/-!
# Decimal digits

Reading and writing natural numbers as decimal digits.
-/

namespace ModelMend

/-- The number that decimal digits denote, the most significant digit first. -/
def digitsValue (digits : List Char) : Nat :=
  digits.foldl (fun value c => 10 * value + (c.toNat - '0'.toNat)) 0

/-- The decimal digits of a number, without leading zeros. -/
def decimalDigits (n : Nat) : List Char :=
  Nat.toDigits 10 n

def integerText : Int → List Char
  | .ofNat n => decimalDigits n
  | .negSucc n => '-' :: decimalDigits (n + 1)

/-- The integer has a signed representation in 64 bits. -/
def fitsSigned64 (n : Int) : Bool :=
  -0x8000000000000000 ≤ n && n < 0x8000000000000000

/-- An optional sign in front of a text: whether it is a minus sign, and what follows. -/
def splitSign : List Char → Bool × List Char
  | '-' :: rest => (true, rest)
  | '+' :: rest => (false, rest)
  | text => (false, text)

/-- Decimal digits after an optional sign, and nothing else. -/
def integerOfText? (text : List Char) : Option Int :=
  let signed := splitSign text
  if signed.2.isEmpty || !signed.2.all Char.isDigit then none
  else
    let magnitude : Int := digitsValue signed.2
    some (if signed.1 then -magnitude else magnitude)

end ModelMend
