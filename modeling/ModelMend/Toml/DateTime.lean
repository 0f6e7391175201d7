import ModelMend.Decimal.Digits

/-!
# TOML dates and times

A date is a day that its month has, a time goes to the second and perhaps beyond it, and a date with a
time may say how far it is from universal time. A reader takes what fits from the front of a text and
leaves the rest. Of the digits behind the point of a second nine count. Every value has one text
(`DateTime.text`), however it was written.
-/

namespace ModelMend.Toml

/-- Reads something from the front of a text: what was read, and the rest of the text. -/
abbrev Reader (α : Type) := List Char → Option (α × List Char)

def isLeapYear (year : Nat) : Bool :=
  year % 4 == 0 && (year % 100 != 0 || year % 400 == 0)

def daysOfMonth (year month : Nat) : Nat :=
  if month = 2 then if isLeapYear year then 29 else 28
  else if month ∈ [4, 6, 9, 11] then 30
  else 31

/-- There is such a day, in a year of at most four digits. -/
def IsDate (year month day : Nat) : Prop :=
  year < 10000 ∧ (1 ≤ month ∧ month ≤ 12) ∧ 1 ≤ day ∧ day ≤ daysOfMonth year month

instance (year month day : Nat) : Decidable (IsDate year month day) :=
  inferInstanceAs (Decidable (_ ∧ _))

/-- There is such a time of a day; a minute may have one second more. -/
def IsTime (hour minute second nanosecond : Nat) : Prop :=
  hour < 24 ∧ minute < 60 ∧ second ≤ 60 ∧ nanosecond < 1000000000

instance (hour minute second nanosecond : Nat) :
    Decidable (IsTime hour minute second nanosecond) :=
  inferInstanceAs (Decidable (_ ∧ _))

structure Date where
  year : Nat
  month : Nat
  day : Nat
  valid : IsDate year month day
deriving DecidableEq, Repr

structure TimeOfDay where
  hour : Nat
  minute : Nat
  second : Nat
  nanosecond : Nat
  valid : IsTime hour minute second nanosecond
deriving DecidableEq, Repr

/-- How far a time is from universal time. -/
inductive Offset where
  /-- It is universal time. -/
  | universal
  /-- So many minutes, less than a day. -/
  | minutes (count : Int) (valid : count.natAbs < 24 * 60)
deriving DecidableEq, Repr

inductive DateTime where
  | date (value : Date)
  | time (value : TimeOfDay)
  | moment (day : Date) (clock : TimeOfDay) (offset : Option Offset)
deriving DecidableEq, Repr

/-! ## Reading -/

/-- Reads a number of exactly so many digits. -/
def digits? (width : Nat) : Reader Nat := fun text =>
  let digits := text.take width
  if digits.length = width ∧ digits.all Char.isDigit then
    some (digitsValue digits, text.drop width)
  else none

/-- The text after one of these characters. -/
def afterMark? (marks : List Char) : List Char → Option (List Char)
  | [] => none
  | c :: rest => if c ∈ marks then some rest else none

def date? : Reader Date := fun text => do
  let (year, text) ← digits? 4 text
  let text ← afterMark? ['-'] text
  let (month, text) ← digits? 2 text
  let text ← afterMark? ['-'] text
  let (day, text) ← digits? 2 text
  if h : IsDate year month day then some (⟨year, month, day, h⟩, text) else none

/-- The billionths that the digits behind the point of a second denote; those after the ninth do not
count. -/
def billionths (digits : List Char) : Nat :=
  digitsValue ((digits ++ List.replicate 9 '0').take 9)

/-- Reads the point of a second and the digits behind it, if they are there. -/
def readFraction : List Char → Nat × List Char
  | '.' :: text =>
    let digits := text.takeWhile Char.isDigit
    if digits.isEmpty then (0, '.' :: text) else (billionths digits, text.dropWhile Char.isDigit)
  | text => (0, text)

def time? : Reader TimeOfDay := fun text => do
  let (hour, text) ← digits? 2 text
  let text ← afterMark? [':'] text
  let (minute, text) ← digits? 2 text
  let text ← afterMark? [':'] text
  let (second, text) ← digits? 2 text
  let (nanosecond, text) := readFraction text
  if h : IsTime hour minute second nanosecond then
    some (⟨hour, minute, second, nanosecond, h⟩, text)
  else none

/-- Reads the hours and minutes of an offset after its sign. -/
def shift? (isBehind : Bool) : Reader Offset := fun text => do
  let (hours, text) ← digits? 2 text
  let text ← afterMark? [':'] text
  let (minutes, text) ← digits? 2 text
  let count : Int := 60 * hours + minutes
  let signed := if isBehind then -count else count
  if h : signed.natAbs < 24 * 60 then
    if minutes < 60 then some (.minutes signed h, text) else none
  else none

def offset? : Reader Offset
  | [] => none
  | c :: rest =>
    if c = 'Z' ∨ c = 'z' then some (.universal, rest)
    else if c = '+' then shift? false rest
    else if c = '-' then shift? true rest
    else none

/-- Reads a date, a time, or both. What stands between the two belongs to neither if no time follows
it. -/
def dateTime? : Reader DateTime := fun text =>
  match date? text with
  | none => (time? text).map fun read => (.time read.1, read.2)
  | some (day, text) =>
    match (afterMark? ['T', 't', ' '] text).bind time? with
    | none => some (.date day, text)
    | some (clock, text) =>
      match offset? text with
      | none => some (.moment day clock none, text)
      | some (offset, text) => some (.moment day clock (some offset), text)

/-! ## Writing -/

/-- The last so many digits of a number, with zeros in front where it has fewer. -/
def fixedDigits : Nat → Nat → List Char
  | 0, _ => []
  | width + 1, n => fixedDigits width (n / 10) ++ [Nat.digitChar (n % 10)]

def Date.text (date : Date) : List Char :=
  fixedDigits 4 date.year ++ '-' :: (fixedDigits 2 date.month ++ '-' :: fixedDigits 2 date.day)

/-- The digits behind the point of a second, without zeros at their end. -/
def fractionDigits (nanosecond : Nat) : List Char :=
  ((fixedDigits 9 nanosecond).reverse.dropWhile (· == '0')).reverse

def fractionText (nanosecond : Nat) : List Char :=
  if nanosecond = 0 then [] else '.' :: fractionDigits nanosecond

/-- Hours and minutes. -/
def clockText (hour minute : Nat) : List Char :=
  fixedDigits 2 hour ++ ':' :: fixedDigits 2 minute

def TimeOfDay.text (time : TimeOfDay) : List Char :=
  clockText time.hour time.minute ++ ':' :: (fixedDigits 2 time.second ++
    fractionText time.nanosecond)

def Offset.text : Offset → List Char
  | universal => ['Z']
  | minutes count _ =>
    (if count < 0 then '-' else '+') :: clockText (count.natAbs / 60) (count.natAbs % 60)

def DateTime.text : DateTime → List Char
  | .date value => value.text
  | .time value => value.text
  | .moment day clock offset => day.text ++ 'T' :: (clock.text ++ (offset.map Offset.text).getD [])

end ModelMend.Toml
