import FieldLine.Json.Cursor
import FieldLine.Text.Decimal
import FieldLine.Text.Shortest

/-!
JSON numbers.  An integer that fits in 64 bits keeps its value; any other number becomes a
floating-point number, computed from the digits that fit and a power of ten.
-/

namespace FieldLine
namespace Json

/-- A number: an integer, a negative one by its magnitude, or a floating-point number by its
shortest text. -/
inductive Number where
  | natural (value : Nat)
  | negative (magnitude : Nat)
  | decimal (text : String)
deriving DecidableEq, Repr

def Number.found : Number → Found
  | natural value => .natural value
  | negative magnitude => .negative magnitude
  | decimal text => .decimal text

namespace Number

/-! ## Floating-point numbers -/

def powerOfTen (exponent : Nat) : Float :=
  Float.ofScientific 1 false exponent

def maxPower : Nat := 308

/-- A number divided by a power of ten, in steps that are powers of ten themselves. -/
def divide (value : Float) (exponent : Nat) : Float :=
  if maxPower < exponent then
    if value == 0.0 then value
    else divide (value / powerOfTen maxPower) (exponent - maxPower)
  else
    value / powerOfTen exponent
  termination_by exponent
  decreasing_by simp_all [maxPower]; omega

/-- Digits times a power of ten, unless that is out of range. -/
def scale? (digits : Nat) (exponent : Int) : Option Float :=
  let value := digits.toUInt64.toFloat
  if exponent < 0 then
    some <| divide value exponent.natAbs
  else if maxPower < exponent.natAbs then
    if digits = 0 then some value else none
  else
    let value := value * powerOfTen exponent.natAbs
    if value.isInf then none else some value

/-- The number with these digits, exponent and sign, read up to the cursor. -/
def ofParts (cursor : Cursor) (positive : Bool) (digits : Nat) (exponent : Int) :
    Except Fault (Number × Cursor) :=
  match scale? digits exponent with
  | none => cursor.fault .numberOutOfRange
  | some value =>
      .ok (.decimal <| Shortest.ofFloat <| if positive then value else -value, cursor)

/-! ## Digits -/

def digitValue (b : UInt8) : Nat :=
  b.toNat - 48

/-- Appends digits to a number for as long as it stays below a bound.  Gives the number and how
many digits it took. -/
def accumulate (bound : Nat) : List UInt8 → (value taken : Nat) → Nat × Nat
  | [], value, taken => (value, taken)
  | b :: rest, value, taken =>
      if 10 * value + digitValue b < bound then
        accumulate bound rest (10 * value + digitValue b) (taken + 1)
      else
        (value, taken)

def digits (cursor : Cursor) : List UInt8 :=
  cursor.rest.takeWhile isDigit

def atExponent (cursor : Cursor) : Bool :=
  cursor.rest.head? = some (byte 'e') || cursor.rest.head? = some (byte 'E')

def exponentBound : Nat := 2147483648

/-- Reads an exponent that changes the one before it.  An exponent that is too large makes a number
zero or puts it out of range. -/
def readExponent (cursor : Cursor) (positive : Bool) (value : Nat) (before : Int) :
    Except Fault (Number × Cursor) :=
  let marked := cursor.next
  let signed := marked.rest.head? = some (byte '+') || marked.rest.head? = some (byte '-')
  let negative := marked.rest.head? = some (byte '-')
  let cursor := if signed then marked.next else marked
  match cursor.rest with
  | [] => cursor.fault .endsInValue
  | b :: _ =>
      if !isDigit b then
        cursor.faultAtNext .numberInvalid
      else
        let found := digits cursor
        let (exponent, taken) := accumulate exponentBound found 0 0
        if taken < found.length then
          if value ≠ 0 ∧ !negative then
            (cursor.skip (taken + 1)).fault .numberOutOfRange
          else
            .ok (.decimal <| if positive then "0.0" else "-0.0", cursor.skip found.length)
        else
          let exponent : Int := if negative then before - exponent else before + exponent
          ofParts (cursor.skip found.length) positive value exponent

/-- Reads the places after the point at the cursor, and an exponent.  Places that would make the
digits too large are passed over. -/
def readPlaces (cursor : Cursor) (positive : Bool) (value : Nat) (before : Int) :
    Except Fault (Number × Cursor) :=
  let cursor := cursor.next
  let found := digits cursor
  if found = [] then
    if cursor.rest = [] then cursor.fault .endsInValue else cursor.faultAtNext .numberInvalid
  else
    let (value, taken) := accumulate wordBound found value 0
    let next := cursor.skip found.length
    let exponent : Int := before - taken
    if atExponent next then readExponent next positive value exponent
    else ofParts next positive value exponent

def read (cursor : Cursor) (positive : Bool) : Except Fault (Number × Cursor) :=
  match cursor.rest with
  | [] => cursor.fault .endsInValue
  | b :: rest =>
      if !isDigit b then
        cursor.faultAtNext .numberInvalid
      else if b = byte '0' && (rest.head?.any isDigit) then
        cursor.next.faultAtNext .numberInvalid
      else
        let found := digits cursor
        let (value, taken) := accumulate wordBound found 0 0
        let extra := found.length - taken
        let next := cursor.skip found.length
        if next.rest.head? = some (byte '.') then readPlaces next positive value extra
        else if atExponent next then readExponent next positive value extra
        else if extra ≠ 0 then ofParts next positive value extra
        else if positive then .ok (.natural value, next)
        else if value = 0 || 9223372036854775808 < value then ofParts next false value 0
        else .ok (.negative value, next)

/-! ## Passing over -/

def skipExponent (cursor : Cursor) : Except Fault Cursor :=
  let marked := cursor.next
  let signed := marked.rest.head? = some (byte '+') || marked.rest.head? = some (byte '-')
  let cursor := if signed then marked.next else marked
  if cursor.rest.head?.any isDigit then .ok <| cursor.skip (digits cursor).length
  else cursor.faultAtNext .numberInvalid

def skip (cursor : Cursor) : Except Fault Cursor :=
  match cursor.rest with
  | [] => cursor.fault .numberInvalid
  | b :: rest =>
      if !isDigit b then
        cursor.faultAtNext .numberInvalid
      else if b = byte '0' && (rest.head?.any isDigit) then
        cursor.next.faultAtNext .numberInvalid
      else
        let next := cursor.skip (digits cursor).length
        if next.rest.head? = some (byte '.') then
          let places := next.next
          if digits places = [] then
            places.faultAtNext .numberInvalid
          else
            let next := places.skip (digits places).length
            if atExponent next then skipExponent next else .ok next
        else if atExponent next then
          skipExponent next
        else
          .ok next

end Number
end Json
end FieldLine
