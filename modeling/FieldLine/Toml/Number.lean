import FieldLine.Text.Decimal
import FieldLine.Text.Hex
import FieldLine.Toml.Text

/-!
TOML numbers and dates.  Integers keep their value; of floating-point numbers and dates only the
kind is kept, but they have to be well formed and in range.
-/

namespace FieldLine
namespace Toml

/-! ## Digits -/

/-- Reads digits that may be separated by single underscores, after some digits (latest first). -/
def readDigitsAfter (isDigit : Char → Bool) (done : List Char) :
    List Char → Option (List Char × List Char)
  | [] => some (done.reverse, [])
  | '_' :: d :: rest =>
      if isDigit d then readDigitsAfter isDigit (d :: done) rest else none
  | ['_'] => none
  | c :: rest =>
      if isDigit c then readDigitsAfter isDigit (c :: done) rest
      else some (done.reverse, c :: rest)

def readDigits (isDigit : Char → Bool) : List Char → Option (List Char × List Char)
  | [] => none
  | c :: rest => if isDigit c then readDigitsAfter isDigit [c] rest else none

/-- Reads the digits of a decimal integer, which has no zeros before it. -/
def readWhole : List Char → Option (List Char × List Char)
  | '0' :: rest => some (['0'], rest)
  | text => readDigits Decimal.isDigit text

def readSign : List Char → Bool × List Char
  | '-' :: rest => (true, rest)
  | '+' :: rest => (false, rest)
  | text => (false, text)

/-! ## Numbers -/

/-- An integer or, without its value, a floating-point number. -/
inductive Number where
  | integer (value : Int)
  | float
deriving DecidableEq, Repr

/-- An integer that fits in 64 bits with its sign. -/
def integer? (negative : Bool) (magnitude : Nat) : Option Number :=
  if negative then
    if magnitude ≤ 9223372036854775808 then some <| .integer (-magnitude) else none
  else
    if magnitude < 9223372036854775808 then some <| .integer magnitude else none

def valueIn (base : Nat) (digits : List Char) : Nat :=
  digits.foldl (fun total c => base * total + (Hex.value? c).getD 0) 0

/-- Reads the digits of an integer in a base other than ten. -/
def readBased (base : Nat) (text : List Char) : Option (Number × List Char) := do
  let (digits, rest) ← readDigits (fun c => (Hex.value? c).any (· < base)) text
  return (← integer? false (valueIn base digits), rest)

/-- Whether digits times a power of ten round to infinity. -/
def isTooLarge (digits : List Char) (exponent : Int) : Bool :=
  let value := Decimal.value digits
  let length : Int := (digits.dropWhile (· = '0')).length
  if value = 0 ∨ length + exponent < 300 then false
  else if 320 < length + exponent then true
  else
    let bound := Nat.pow 2 1024 - Nat.pow 2 970
    if 0 ≤ exponent then bound ≤ value * Nat.pow 10 exponent.natAbs
    else bound * Nat.pow 10 exponent.natAbs ≤ value

def readExponent (text : List Char) : Option (Int × List Char) := do
  let (negative, text) := readSign text
  let (digits, rest) ← readDigits Decimal.isDigit text
  let magnitude : Int := Decimal.value digits
  return (if negative then -magnitude else magnitude, rest)

def atExponent : List Char → Bool
  | 'e' :: _ => true
  | 'E' :: _ => true
  | _ => false

/-- A floating-point number that does not round to positive infinity. -/
def float? (negative : Bool) (digits : List Char) (exponent : Int) : Option Number :=
  if !negative && isTooLarge digits exponent then none else some .float

/-- Reads what follows the digits before the point of a decimal number. -/
def readDecimal (negative : Bool) (whole : List Char) (text : List Char) :
    Option (Number × List Char) :=
  match text with
  | '.' :: text => do
      let (places, rest) ← readDigits Decimal.isDigit text
      let scale : Int := -(places.length : Int)
      if atExponent rest then
        let (exponent, rest) ← readExponent rest.tail
        return (← float? negative (whole ++ places) (exponent + scale), rest)
      else
        return (← float? negative (whole ++ places) scale, rest)
  | text =>
      if atExponent text then do
        let (exponent, rest) ← readExponent text.tail
        return (← float? negative whole exponent, rest)
      else
        (integer? negative (Decimal.value whole)).map (·, text)

def readNumber : List Char → Option (Number × List Char)
  | '0' :: 'x' :: rest => readBased 16 rest
  | '0' :: 'o' :: rest => readBased 8 rest
  | '0' :: 'b' :: rest => readBased 2 rest
  | text =>
      let (negative, text) := readSign text
      match text with
      | 'i' :: 'n' :: 'f' :: rest => some (.float, rest)
      | 'n' :: 'a' :: 'n' :: rest => some (.float, rest)
      | text => do
          let (whole, rest) ← readWhole text
          readDecimal negative whole rest

/-! ## Dates and times -/

/-- Reads a number of exactly `count` digits. -/
def readField (count : Nat) (text : List Char) : Option (Nat × List Char) :=
  let digits := text.take count
  if digits.length = count && digits.all Decimal.isDigit then
    some (Decimal.value digits, text.drop count)
  else
    none

/-- Reads a number of two digits up to a bound. -/
def readUpTo (bound : Nat) (text : List Char) : Option (Nat × List Char) := do
  let (value, rest) ← readField 2 text
  if value ≤ bound then some (value, rest) else none

def skipChar (c : Char) : List Char → Option (List Char)
  | [] => none
  | a :: rest => if a = c then some rest else none

def daysIn (year month : Nat) : Nat :=
  if month = 2 then
    if year % 4 = 0 ∧ (year % 100 ≠ 0 ∨ year % 400 = 0) then 29 else 28
  else if month = 4 ∨ month = 6 ∨ month = 9 ∨ month = 11 then 30
  else 31

def skipMonthDay (year : Nat) (text : List Char) : Option (List Char) := do
  let (month, text) ← readUpTo 12 text
  let text ← skipChar '-' text
  let (day, text) ← readUpTo 31 text
  if 1 ≤ month ∧ 1 ≤ day ∧ day ≤ daysIn year month then some text else none

def skipHour (text : List Char) : Option (List Char) := do
  let (_, text) ← readUpTo 23 text
  skipChar ':' text

/-- Moves over minutes, seconds and parts of a second. -/
def skipMinutes (text : List Char) : Option (List Char) := do
  let (_, text) ← readUpTo 59 text
  let text ← skipChar ':' text
  let (_, text) ← readUpTo 60 text
  match text with
  | '.' :: text =>
      if text.head?.any Decimal.isDigit then some (text.dropWhile Decimal.isDigit) else none
  | text => some text

/-- Moves over a distance from universal time, if there is one. -/
def skipOffset : List Char → Option (List Char)
  | 'Z' :: rest => some rest
  | 'z' :: rest => some rest
  | c :: rest =>
      if c = '+' ∨ c = '-' then do
        let rest ← skipHour rest
        let (_, rest) ← readUpTo 59 rest
        some rest
      else
        some (c :: rest)
  | [] => some []

/-- Moves over the time after a date, if there is one. -/
def skipTimeOfDay (text : List Char) : Option (List Char) :=
  match text with
  | c :: rest =>
      if c = 'T' ∨ c = 't' ∨ c = ' ' then
        match skipHour rest with
        | none => some text
        | some rest => do
            let rest ← skipMinutes rest
            skipOffset rest
      else
        some text
  | [] => some []

/-- Moves over a date or time.  The outer result is none if the text does not start like one. -/
def skipDate? (text : List Char) : Option (Option (List Char)) :=
  match readField 4 text with
  | some (year, '-' :: rest) => some <| do
      let rest ← skipMonthDay year rest
      skipTimeOfDay rest
  | _ => (skipHour text).map skipMinutes

end Toml
end FieldLine
