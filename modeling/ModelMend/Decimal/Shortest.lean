import ModelMend.Decimal.Binary64

/-!
# The shortest decimal that reads back

The text of a binary floating point number is the decimal with the fewest digits that lies in the
interval of numbers rounded to it; of two such decimals on one grid the nearer is taken, and the
greater on a tie. The text is always positional: it has no exponent, and no point if it has no
digits after the point.
-/

namespace ModelMend

namespace Binary64

/-- A decimal `digits · 10 ^ place`. -/
structure GridPoint where
  digits : Nat
  place : Int
deriving DecidableEq, Repr

/-- The decimal at this place that is nearest to `mantissa · 2 ^ exponent` among those that are
rounded to it. Everything is measured in quarters of the binary unit, so that the ends of the
interval are whole numbers. -/
def gridPoint? (mantissa : Nat) (exponent place : Int) : Option GridPoint :=
  let ten := powerQuotient 10 place
  let unit := powerQuotient 2 (exponent - 2)
  let step := ten.1 * unit.2
  let quarter := unit.1 * ten.2
  let value := 4 * mantissa * quarter
  let below := if mantissa = leastMantissa ∧ exponent > lowestExponent then 1 else 2
  let low := (4 * mantissa - below) * quarter
  let high := (4 * mantissa + 2) * quarter
  let inside (digits : Nat) : Bool :=
    let point := digits * step
    if mantissa % 2 = 0 then low ≤ point && point ≤ high else low < point && point < high
  let floor := value / step
  let floorIsNearer := value - floor * step < (floor + 1) * step - value
  if inside floor && (floorIsNearer || !inside (floor + 1)) then some ⟨floor, place⟩
  else if inside (floor + 1) then some ⟨floor + 1, place⟩
  else none

/-- The shortest decimal for `mantissa · 2 ^ exponent`: the coarsest grid with a point in the
interval. Seventeen digits always suffice; the first place is an estimate from above. -/
def shortest (mantissa : Nat) (exponent : Int) : GridPoint :=
  let top := ((mantissa.log2 : Int) + exponent + 1) * 30103 / 100000 + 1
  ((List.range 21).findSome? fun (n : Nat) => gridPoint? mantissa exponent (top - n)).getD ⟨0, 0⟩

def GridPoint.text (point : GridPoint) : List Char :=
  let digits := decimalDigits point.digits
  if 0 ≤ point.place then digits ++ List.replicate point.place.toNat '0'
  else
    let places := (-point.place).toNat
    if places < digits.length then
      digits.take (digits.length - places) ++ '.' :: digits.drop (digits.length - places)
    else "0.".toList ++ List.replicate (places - digits.length) '0' ++ digits

def withSign (negative : Bool) (text : List Char) : List Char :=
  if negative then '-' :: text else text

def text : Binary64 → List Char
  | finite negative 0 _ => withSign negative ['0']
  | finite negative mantissa exponent => withSign negative (shortest mantissa exponent).text
  | infinite negative => withSign negative "inf".toList
  | notANumber => "NaN".toList

/-- The text of a number that has a point if the number is finite. -/
def pointedText (x : Binary64) : List Char :=
  match x with
  | finite .. => if x.text.contains '.' then x.text else x.text ++ ".0".toList
  | _ => x.text

end Binary64

end ModelMend
