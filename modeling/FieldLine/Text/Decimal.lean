/-!
Decimal digits and the 64-bit numbers written with them.
-/

namespace FieldLine

/-- The first number that no longer fits in 64 bits. -/
def wordBound : Nat := 18446744073709551616

namespace Decimal

def isDigit (c : Char) : Bool :=
  '0' ≤ c && c ≤ '9'

/-- The value of a digit; other characters have no use for it. -/
def digitValue (c : Char) : Nat :=
  c.toNat - '0'.toNat

/-- The number that a run of digits denotes, leading zeros allowed. -/
def value (digits : List Char) : Nat :=
  digits.foldl (fun total c => 10 * total + digitValue c) 0

/-- Reads a non-empty run of ASCII digits whose value fits in 64 bits. -/
def word? (digits : List Char) : Option Nat :=
  if digits ≠ [] ∧ digits.all isDigit ∧ value digits < wordBound then
    some (value digits)
  else
    none

end Decimal
end FieldLine
