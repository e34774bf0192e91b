/-!
The shortest decimal text of a floating-point number: the fewest digits that read back as the
same number and, of those, the ones nearest to it.
-/

namespace FieldLine
namespace Shortest

/-- The numbers that round to a floating-point number: the number itself and the ends of the
interval, over one denominator.  The ends count if `closed` is set. -/
structure Interval where
  low : Nat
  mid : Nat
  high : Nat
  den : Nat
  closed : Bool

/-- The interval of the number `mantissa * 2 ^ exponent`.  Below a power of two the numbers lie
twice as close. -/
def interval (mantissa : Nat) (exponent : Int) (power : Bool) : Interval :=
  let low := 4 * mantissa - if power then 1 else 2
  let mid := 4 * mantissa
  let high := 4 * mantissa + 2
  let shift := Nat.pow 2 (exponent - 2).natAbs
  if 2 ≤ exponent then
    ⟨low * shift, mid * shift, high * shift, 1, mantissa % 2 = 0⟩
  else
    ⟨low, mid, high, shift, mantissa % 2 = 0⟩

/-- Whether `digits * 10 ^ exponent` lies in an interval. -/
def Interval.holds (interval : Interval) (digits : Nat) (exponent : Int) : Bool :=
  let scale := Nat.pow 10 exponent.natAbs
  let value := if 0 ≤ exponent then digits * scale * interval.den else digits * interval.den
  let unit := if 0 ≤ exponent then 1 else scale
  if interval.closed then
    interval.low * unit ≤ value && value ≤ interval.high * unit
  else
    interval.low * unit < value && value < interval.high * unit

/-- The decimal exponent of the first digit of a fraction, searched upwards from `least`. -/
def leadingExponent (num den : Nat) : (fuel : Nat) → (least : Int) → Int
  | 0, least => least
  | fuel + 1, least =>
      let above := least + 1
      let scale := Nat.pow 10 above.natAbs
      if if 0 ≤ above then den * scale ≤ num else den ≤ num * scale then
        leadingExponent num den fuel above
      else
        least

/-- The decimal of at most `count` digits nearest to the middle of an interval, if one of its two
neighbours on that grid lies in the interval. -/
def onGrid? (interval : Interval) (leading : Int) (count : Nat) : Option (Nat × Int) :=
  let exponent := leading - (count : Int) + 1
  let scale := Nat.pow 10 exponent.natAbs
  let num := if 0 ≤ exponent then interval.mid else interval.mid * scale
  let den := if 0 ≤ exponent then interval.den * scale else interval.den
  let below := num / den
  let rest := num % den
  let nearer := if den < 2 * rest ∨ (den = 2 * rest ∧ below % 2 = 1) then below + 1 else below
  let other := if nearer = below then below + 1 else below
  if interval.holds nearer exponent then some (nearer, exponent)
  else if interval.holds other exponent then some (other, exponent)
  else none

/-- Drops the zeros at the end of a decimal. -/
def trim : (fuel : Nat) → Nat → Int → Nat × Int
  | 0, digits, exponent => (digits, exponent)
  | fuel + 1, digits, exponent =>
      if digits ≠ 0 ∧ digits % 10 = 0 then trim fuel (digits / 10) (exponent + 1)
      else (digits, exponent)

/-- The shortest decimal of a positive number that is given by its bits. -/
def decimal (bits : Nat) : Nat × Int :=
  let fraction := bits % Nat.pow 2 52
  let biased := bits / Nat.pow 2 52
  let mantissa := if biased = 0 then fraction else Nat.pow 2 52 + fraction
  let exponent : Int := (max biased 1 : Nat) - 1075
  let interval := interval mantissa exponent (decide (fraction = 0 ∧ 1 < biased))
  let leading := leadingExponent interval.mid interval.den 700 (-330)
  match (List.range 17).findSome? fun count => onGrid? interval leading (count + 1) with
  | some (digits, exponent) => trim 20 digits exponent
  | none => (0, 0)

/-- A decimal as text.  A number whose first digit has an exponent from -5 to 15 is written with
a point and at least one digit on both sides, others with an exponent of at least two digits. -/
def render (digits : Nat) (exponent : Int) : String :=
  let text := Nat.toDigits 10 digits
  let first : Int := exponent + (text.length : Int) - 1
  if -5 ≤ first ∧ first < 0 then
    .ofList (['0', '.'] ++ List.replicate (first.natAbs - 1) '0' ++ text)
  else if 0 ≤ first ∧ first < 16 then
    let whole := first.toNat + 1
    let padded := text ++ List.replicate (whole - text.length) '0'
    let places := padded.drop whole
    .ofList (padded.take whole ++ ['.'] ++ if places = [] then ['0'] else places)
  else
    let places := text.drop 1
    let power := Nat.toDigits 10 first.natAbs
    .ofList (text.take 1 ++ (if places = [] then [] else '.' :: places) ++
      ['e', if first < 0 then '-' else '+'] ++
      (if power.length < 2 then '0' :: power else power))

/-- The shortest text of a finite floating-point number. -/
def ofFloat (value : Float) : String :=
  let bits := value.toBits.toNat
  let sign := if Nat.pow 2 63 ≤ bits then "-" else ""
  let magnitude := bits % Nat.pow 2 63
  if magnitude = 0 then
    sign ++ "0.0"
  else
    let (digits, exponent) := decimal magnitude
    sign ++ render digits exponent

end Shortest
end FieldLine
