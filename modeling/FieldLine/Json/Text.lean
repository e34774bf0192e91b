import FieldLine.Json.Cursor
import FieldLine.Text.Utf8

/-!
JSON strings: how they are read, passed over and written.
-/

namespace FieldLine
namespace Json
namespace Text

/-! ## Escapes -/

def hexValue? (b : UInt8) : Option Nat :=
  if byte '0' ≤ b && b ≤ byte '9' then some (b.toNat - 48)
  else if byte 'a' ≤ b && b ≤ byte 'f' then some (b.toNat - 87)
  else if byte 'A' ≤ b && b ≤ byte 'F' then some (b.toNat - 55)
  else none

def escape? (b : UInt8) : Option Char :=
  if b = byte '"' then some '"'
  else if b = byte '\\' then some '\\'
  else if b = byte '/' then some '/'
  else if b = byte 'b' then some '\x08'
  else if b = byte 'f' then some '\x0c'
  else if b = byte 'n' then some '\n'
  else if b = byte 'r' then some '\x0d'
  else if b = byte 't' then some '\t'
  else none

/-- Four hexadecimal digits, of which some have been read.  All four are taken before they are
looked at; the value is lost when one of them is no digit. -/
structure CodeUnit where
  missing : Nat := 4
  value : Option Nat := some 0

def CodeUnit.add (unit : CodeUnit) (b : UInt8) : CodeUnit :=
  ⟨unit.missing - 1, do return 16 * (← unit.value) + (← hexValue? b)⟩

/-- The first unit of a pair that encodes one character. -/
def isLeading (unit : Nat) : Bool :=
  0xD800 ≤ unit && unit ≤ 0xDBFF

/-- The second unit of such a pair. -/
def isTrailing (unit : Nat) : Bool :=
  0xDC00 ≤ unit && unit ≤ 0xDFFF

/-! ## Reading -/

/-- Which part of a string is being read: bytes as they are, an escape, the digits of a unit, or
the escape that has to follow the first unit of a pair. -/
inductive Part where
  | plain
  | escape
  | unit (leading : Option Nat) (unit : CodeUnit)
  | pair (leading : Nat)
  | pairEscape (leading : Nat)

/-- Adds bytes (latest first) to a text (latest character first).  They end before `place`. -/
def addBytes (place : Place) (bytes : List UInt8) (text : List Char) :
    Except Fault (List Char) :=
  match Utf8.decode bytes.reverse with
  | .ok more => .ok (more.reverseAux text)
  | .error fault =>
      .error ⟨place.line, place.column - bytes.length + fault.validUpTo + 1, .notUnicode⟩

/-- Reads on up to the closing quote, with the text so far and the bytes after it. -/
def readFrom : List UInt8 → Place → Part → List Char → List UInt8 →
    Except Fault (String × Cursor)
  | [], place, _, _, _ => place.fault .endsInString
  | b :: rest, place, .plain, text, bytes =>
      if b = byte '"' then do
        let text ← addBytes place bytes text
        return (.ofList text.reverse, ⟨place.after b, rest⟩)
      else if b = byte '\\' then do
        let text ← addBytes place bytes text
        readFrom rest (place.after b) .escape text []
      else if b < 0x20 then
        (place.after b).fault .controlCharacter
      else
        readFrom rest (place.after b) .plain text (b :: bytes)
  | b :: rest, place, .escape, text, bytes =>
      if b = byte 'u' then
        readFrom rest (place.after b) (.unit none {}) text bytes
      else
        match escape? b with
        | some c => readFrom rest (place.after b) .plain (c :: text) bytes
        | none => (place.after b).fault .escapeInvalid
  | b :: rest, place, .unit leading unit, text, bytes =>
      let unit := unit.add b
      let place := place.after b
      if unit.missing ≠ 0 then
        readFrom rest place (.unit leading unit) text bytes
      else
        match unit.value, leading with
        | none, _ => place.fault .escapeInvalid
        | some value, none =>
            if isTrailing value then
              place.fault .surrogateLone
            else if isLeading value then
              readFrom rest place (.pair value) text bytes
            else
              readFrom rest place .plain (Char.ofNat value :: text) bytes
        | some value, some leading =>
            if isTrailing value then
              let code := (leading - 0xD800) * 1024 + (value - 0xDC00) + 0x10000
              readFrom rest place .plain (Char.ofNat code :: text) bytes
            else
              place.fault .surrogateLone
  | b :: rest, place, .pair leading, text, bytes =>
      if b = byte '\\' then
        readFrom rest (place.after b) (.pairEscape leading) text bytes
      else
        (place.after b).fault .surrogateUnfinished
  | b :: rest, place, .pairEscape leading, text, bytes =>
      if b = byte 'u' then
        readFrom rest (place.after b) (.unit (some leading) {}) text bytes
      else
        (place.after b).fault .surrogateUnfinished

def read (cursor : Cursor) : Except Fault (String × Cursor) :=
  readFrom cursor.rest cursor.toPlace .plain [] []

/-! ## Passing over -/

/-- Which part of a string is being passed over; the digits of a unit count down. -/
inductive SkippedPart where
  | plain
  | escape
  | unit (unit : CodeUnit)

/-- Moves on to after the closing quote.  Escapes have to be well formed, but neither pairs nor
bytes are checked. -/
def skipFrom : List UInt8 → Place → SkippedPart → Except Fault Cursor
  | [], place, _ => place.fault .endsInString
  | b :: rest, place, .plain =>
      if b = byte '"' then .ok ⟨place.after b, rest⟩
      else if b = byte '\\' then skipFrom rest (place.after b) .escape
      else if b < 0x20 then place.fault .controlCharacter
      else skipFrom rest (place.after b) .plain
  | b :: rest, place, .escape =>
      if b = byte 'u' then skipFrom rest (place.after b) (.unit {})
      else if (escape? b).isSome then skipFrom rest (place.after b) .plain
      else (place.after b).fault .escapeInvalid
  | b :: rest, place, .unit unit =>
      let unit := unit.add b
      let place := place.after b
      if unit.missing ≠ 0 then skipFrom rest place (.unit unit)
      else if unit.value.isSome then skipFrom rest place .plain
      else place.fault .escapeInvalid

def skip (cursor : Cursor) : Except Fault Cursor :=
  skipFrom cursor.rest cursor.toPlace .plain

/-! ## Writing -/

def hexDigit (n : Nat) : Char :=
  if n < 10 then Char.ofNat (48 + n) else Char.ofNat (87 + n)

/-- A character inside a string.  Quotes, backslashes and control characters are escaped. -/
def quoteChar (c : Char) : List Char :=
  if c = '"' then ['\\', '"']
  else if c = '\\' then ['\\', '\\']
  else if c = '\x08' then ['\\', 'b']
  else if c = '\t' then ['\\', 't']
  else if c = '\n' then ['\\', 'n']
  else if c = '\x0c' then ['\\', 'f']
  else if c = '\x0d' then ['\\', 'r']
  else if c.toNat < 0x20 then
    ['\\', 'u', '0', '0', hexDigit (c.toNat / 16), hexDigit (c.toNat % 16)]
  else [c]

def quote (text : String) : String :=
  .ofList ('"' :: text.toList.flatMap quoteChar ++ ['"'])

end Text
end Json
end FieldLine
