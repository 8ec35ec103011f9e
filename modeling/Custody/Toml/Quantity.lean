import Custody.Toml.Text

/-!
# Numbers, dates and times

No setting is a number or a date, but a settings text may hold some, and a wrong one makes the text
unreadable. These scans accept the written forms and their bounds, and keep no value.
-/

namespace Custody.Toml

open Scan

/-! ### Numbers -/

/-- The number that digits of a base spell. -/
def digitsValue (base : Nat) (digits : List Char) : Nat :=
  digits.foldl (fun n c ↦ base * n + hexValue c) 0

/-- Further digits, with single underscores before some of them. -/
def moreDigits (isDigit : Char → Bool) : Scan (List Char) :=
  many (satisfy isDigit <|> char '_' *> satisfy isDigit)

/-- One or more digits, between which single underscores may stand. -/
def digits (isDigit : Char → Bool) : Scan (List Char) := do
  let first ← satisfy isDigit
  return first :: (← moreDigits isDigit)

/-- A sign; whether it is a minus. -/
def sign : Scan Bool := (char '-' *> pure true) <|> (char '+' *> pure false) <|> pure false

/-- A decimal whole number without superfluous zeros: whether it is negative, and its digits. -/
def wholeNumber : Scan (Bool × List Char) := do
  let negative ← sign
  let first ← satisfy Char.isDigit
  if first == '0' then return (negative, [first])
  else return (negative, first :: (← moreDigits Char.isDigit))

/-- A whole number in a base other than ten, below `2 ^ 63`. -/
def basedInteger (mark : String) (base : Nat) (isDigit : Char → Bool) : Scan Unit := do
  word mark
  if digitsValue base (← digits isDigit) < Nat.pow 2 63 then return else failure

/-- A decimal whole number of 64 bits. -/
def decimalInteger : Scan Unit := do
  let (negative, ds) ← wholeNumber
  if digitsValue 10 ds < Nat.pow 2 63 + (if negative then 1 else 0) then return else failure

/-- A whole number. -/
def integer : Scan Unit :=
  basedInteger "0x" 16 isHexDigit <|> basedInteger "0o" 8 (fun c ↦ '0' ≤ c && c ≤ '7') <|>
    basedInteger "0b" 2 (fun c ↦ c == '0' || c == '1') <|> decimalInteger

/-- The digits after a point. -/
def fraction : Scan (List Char) := char '.' *> digits Char.isDigit

/-- A power of ten: whether it is negative, and its digits. -/
def exponent : Scan (Bool × List Char) := do
  discard (satisfy fun c ↦ c == 'e' || c == 'E')
  return (← sign, ← digits Char.isDigit)

/-- Whether `mantissa * 10 ^ power` is too large for a number of double precision: it lies above the
middle between the largest one and the next power of two, or on it. -/
def overflows (mantissa : Nat) (power : Int) : Bool :=
  let size : Int := (Nat.toDigits 10 mantissa).length + power
  let limit := Nat.pow 2 1024 - Nat.pow 2 970
  if mantissa = 0 || size < 0 then false
  else if 310 < size then true
  else if 0 ≤ power then limit ≤ mantissa * Nat.pow 10 power.toNat
  else limit * Nat.pow 10 (-power).toNat ≤ mantissa

/-- A decimal number with a fraction or a power of ten, not too large. -/
def decimalNumber : Scan Unit := do
  let (negative, whole) ← wholeNumber
  let (places, power) ←
    (do return ([], some (← exponent))) <|> (do return (← fraction, ← optional exponent))
  let shift : Int := match power with
    | none => 0
    | some (true, ds) => -(digitsValue 10 ds : Int)
    | some (false, ds) => digitsValue 10 ds
  if !negative && overflows (digitsValue 10 (whole ++ places)) (shift - places.length) then failure

/-- Infinity, or no number at all. -/
def specialNumber : Scan Unit := do
  discard sign
  word "inf" <|> word "nan"

/-! ### Dates and times -/

/-- A number of exactly `n` digits within bounds. -/
def fixedNumber (n least most : Nat) : Scan Nat := do
  let value := digitsValue 10 (← exactly n Char.isDigit)
  if least ≤ value && value ≤ most then return value else failure

/-- How many days a month has. -/
def daysIn (year month : Nat) : Nat :=
  if month = 2 then
    if year % 4 = 0 && (year % 100 != 0 || year % 400 = 0) then 29 else 28
  else if month = 4 ∨ month = 6 ∨ month = 9 ∨ month = 11 then 30
  else 31

/-- A day of the calendar. -/
def date : Scan Unit := do
  let year ← fixedNumber 4 0 9999
  char '-'
  let month ← fixedNumber 2 1 12
  char '-'
  discard (fixedNumber 2 1 (daysIn year month))

/-- Hours and minutes. -/
def hourMinute : Scan Unit := do
  discard (fixedNumber 2 0 23)
  char ':'
  discard (fixedNumber 2 0 59)

/-- A time of day; the sixtieth second may occur. -/
def time : Scan Unit := do
  hourMinute
  char ':'
  discard (fixedNumber 2 0 60)
  discard (optional (do char '.'; discard (satisfy Char.isDigit); span Char.isDigit))

/-- The distance from universal time. -/
def offset : Scan Unit :=
  discard (satisfy fun c ↦ c == 'Z' || c == 'z') <|>
    (do discard (satisfy fun c ↦ c == '+' || c == '-'); hourMinute)

/-- A date, a time, or both. -/
def moment : Scan Unit :=
  (do
    date
    discard (optional do
      discard (satisfy fun c ↦ c == 'T' || c == 't' || c == ' ')
      time
      optional offset)) <|> time

/-- A date, a time or a number. -/
def quantity : Scan Unit := moment <|> decimalNumber <|> specialNumber <|> integer

end Custody.Toml
