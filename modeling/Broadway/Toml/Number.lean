import Broadway.Power
import Broadway.Toml.Quoted
import Broadway.Toml.Value

/-!
# Numbers and moments

Integers are decimal with an optional sign, or hexadecimal, octal or binary without one, and fit
sixty-four bits with a sign. Digits may be grouped by single underscores. A float that is too great
for double precision is refused, though not one that is too far below zero. Dates and times of day
are checked against the calendar and the clock, which admits a leap second.
-/

namespace Broadway.Toml.Number

open Reader

def signs : List Char := ['+', '-']

def isDigitOf (base : Nat) (c : Char) : Bool := (Quoted.hexValue? c).any (· < base)

/-- Digits in groups that are divided by single underscores. -/
def grouped (base : Nat) : Reader (List Char) := do
  let digit := next (isDigitOf base)
  let first ← digit
  return first :: (← many (digit <|> (do char '_'; digit)))

/-- The digits of a decimal number, of which the first is not zero unless it is the only one. -/
def leading : Reader (List Char) := do
  if ← ahead ['0'] then
    char '0'
    return ['0']
  else grouped 10

/-- A sign that says whether a number is negative. -/
def sign : Reader Bool := do
  return (← next signs.contains) = '-'

def optionalSign : Reader Bool := do
  return (← attempt sign).getD false

/-- An integer, if it fits sixty-four bits. -/
def inRange (n : Int) : Reader Value :=
  if -(2 ^ 63) ≤ n ∧ n < 2 ^ 63 then return .integer n else failure

/-- An integer whose base is announced. -/
def based (announcement : String) (base : Nat) : Reader Value := do
  text announcement
  let digits ← grouped base
  inRange (Quoted.numberOfDigits base digits)

/-- The least number that is too great for double precision: half a unit of the last place above
the greatest finite number, from where rounding goes to infinity. -/
def overflow : Nat := 2 ^ 1024 - 2 ^ 970

/-- Whether `mantissa`, of `digits` digits, times a power of ten is too great for double precision.
The number of digits decides all but a few magnitudes. -/
def overflows (mantissa digits : Nat) (exponent : Int) : Bool :=
  let magnitude := digits + exponent
  if mantissa = 0 || magnitude < 300 then false
  else if 320 + digits < magnitude then true
  else if 0 ≤ exponent then overflow ≤ mantissa * 10 ^ exponent.toNat
  else overflow * 10 ^ (-exponent).toNat ≤ mantissa

/-- An exponent. -/
def scale : Reader Int := do
  discard (next fun c => c = 'e' || c = 'E')
  let negative ← optionalSign
  let n : Int := Quoted.numberOfDigits 10 (← grouped 10)
  return if negative then -n else n

def fraction : Reader (List Char) := do
  char '.'
  grouped 10

def decimal : Reader Value := do
  let negative ← optionalSign
  let whole ← leading
  let parts ← attempt fraction
  let exponent ← attempt scale
  if parts.isNone ∧ exponent.isNone then
    let n : Int := Quoted.numberOfDigits 10 whole
    inRange (if negative then -n else n)
  else
    let behind := parts.getD []
    let digits := whole ++ behind
    let power := exponent.getD 0 - behind.length
    if !negative && overflows (Quoted.numberOfDigits 10 digits) digits.length power then failure
    else return .float

/-- The numbers that have names. -/
def named : Reader Value := do
  discard optionalSign
  text "inf" <|> text "nan"
  return .float

def number : Reader Value :=
  based "0x" 16 <|> based "0o" 8 <|> based "0b" 2 <|> named <|> decimal

/-! ## Moments -/

/-- A number of exactly so many digits, between two bounds. -/
def fixed (digits least greatest : Nat) : Reader Nat := do
  let n := Quoted.numberOfDigits 10 (← (List.replicate digits ()).mapM fun _ => next Char.isDigit)
  if least ≤ n ∧ n ≤ greatest then return n else failure

def isLeapYear (year : Nat) : Bool :=
  year % 4 = 0 && (year % 100 ≠ 0 || year % 400 = 0)

def daysOfMonth (year month : Nat) : Nat :=
  if month = 2 then if isLeapYear year then 29 else 28
  else if month = 4 ∨ month = 6 ∨ month = 9 ∨ month = 11 then 30
  else 31

def date : Reader Unit := do
  let year ← fixed 4 0 9999
  char '-'
  let month ← fixed 2 1 12
  char '-'
  discard (fixed 2 1 (daysOfMonth year month))

def hoursAndMinutes : Reader Unit := do
  discard (fixed 2 0 23)
  char ':'
  discard (fixed 2 0 59)

def time : Reader Unit := do
  hoursAndMinutes
  char ':'
  discard (fixed 2 0 60)
  discard <| attempt do
    char '.'
    discard (next Char.isDigit)
    row Char.isDigit

def offset : Reader Unit :=
  discard (next fun c => c = 'Z' || c = 'z') <|> do
    discard sign
    hoursAndMinutes

/-- A date, a time of day or both. -/
def moment : Reader Value := do
  (do
    date
    discard <| attempt do
      discard (next fun c => c = 'T' || c = 't' || c = ' ')
      time
      attempt offset) <|> time
  return .moment

end Broadway.Toml.Number
