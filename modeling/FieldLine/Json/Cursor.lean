import FieldLine.Json.Fault

/-!
A cursor in bytes, and the parts of JSON that need no value: white space, words and the
punctuation of lists and objects.
-/

namespace FieldLine
namespace Json

def byte (c : Char) : UInt8 :=
  c.toNat.toUInt8

def isSpace (b : UInt8) : Bool :=
  b = byte ' ' || b = byte '\n' || b = byte '\t' || b = byte '\r'

def isDigit (b : UInt8) : Bool :=
  byte '0' ≤ b && b ≤ byte '9'

/-- A place in bytes: a line, counted from one, and the number of bytes before it on that
line. -/
structure Place where
  line : Nat := 1
  column : Nat := 0
deriving DecidableEq, Repr

def Place.after (place : Place) (b : UInt8) : Place :=
  if b = byte '\n' then ⟨place.line + 1, 0⟩ else ⟨place.line, place.column + 1⟩

def Place.fault {α : Type} (place : Place) (cause : Cause) : Except Fault α :=
  .error ⟨place.line, place.column, cause⟩

/-- A place together with the bytes from it on. -/
structure Cursor extends Place where
  rest : List UInt8
deriving DecidableEq, Repr

namespace Cursor

def start (bytes : List UInt8) : Cursor :=
  { rest := bytes }

def next (cursor : Cursor) : Cursor :=
  match cursor.rest with
  | [] => cursor
  | b :: rest => ⟨cursor.toPlace.after b, rest⟩

/-- Moves over bytes that hold no line break. -/
def skip (cursor : Cursor) (count : Nat) : Cursor :=
  { cursor with column := cursor.column + count, rest := cursor.rest.drop count }

/-- A fault noticed before the next byte is read. -/
def fault {α : Type} (cursor : Cursor) (cause : Cause) : Except Fault α :=
  cursor.toPlace.fault cause

/-- A fault that the next byte shows, if there is one. -/
def faultAtNext {α : Type} (cursor : Cursor) (cause : Cause) : Except Fault α :=
  cursor.next.fault cause

def skipSpaceFrom : List UInt8 → Place → Cursor
  | [], place => ⟨place, []⟩
  | b :: rest, place =>
      if isSpace b then skipSpaceFrom rest (place.after b) else ⟨place, b :: rest⟩

def skipSpace (cursor : Cursor) : Cursor :=
  skipSpaceFrom cursor.rest cursor.toPlace

def skipWord (cursor : Cursor) : List Char → Except Fault Cursor
  | [] => .ok cursor
  | c :: word =>
      match cursor.rest with
      | [] => cursor.fault .endsInValue
      | b :: _ =>
          if b = byte c then cursor.next.skipWord word else cursor.next.fault .identifierInvalid

def skipColon (cursor : Cursor) : Except Fault Cursor :=
  let cursor := cursor.skipSpace
  match cursor.rest with
  | [] => cursor.fault .endsInObject
  | b :: _ =>
      if b = byte ':' then .ok cursor.next else cursor.faultAtNext .colonMissing

/-- Moves to the next element of a list, over the comma before it unless it is the first.  At the
end of the list gives the cursor at the closing bracket. -/
def nextElement (cursor : Cursor) (first : Bool) : Except Fault (Cursor × Bool) :=
  let cursor := cursor.skipSpace
  match cursor.rest with
  | [] => cursor.fault .endsInList
  | b :: _ =>
      if b = byte ']' then .ok (cursor, false)
      else if first then .ok (cursor, true)
      else if b = byte ',' then
        let cursor := cursor.next.skipSpace
        match cursor.rest with
        | [] => cursor.fault .endsInValue
        | b :: _ =>
            if b = byte ']' then cursor.faultAtNext .trailingComma else .ok (cursor, true)
      else
        cursor.faultAtNext .listSeparatorMissing

/-- Moves to the next member of an object, over the comma before it unless it is the first.  Gives
the cursor after the opening quote of its key or, at the end of the object, at the brace. -/
def nextMember (cursor : Cursor) (first : Bool) : Except Fault (Cursor × Bool) :=
  let cursor := cursor.skipSpace
  match cursor.rest with
  | [] => cursor.fault .endsInObject
  | b :: _ =>
      if b = byte '\x7d' then .ok (cursor, false)
      else if first then
        if b = byte '"' then .ok (cursor.next, true) else cursor.faultAtNext .keyNotString
      else if b = byte ',' then
        let cursor := cursor.next.skipSpace
        match cursor.rest with
        | [] => cursor.fault .endsInValue
        | b :: _ =>
            if b = byte '"' then .ok (cursor.next, true)
            else if b = byte '\x7d' then cursor.faultAtNext .trailingComma
            else cursor.faultAtNext .keyNotString
      else
        cursor.faultAtNext .objectSeparatorMissing

/-- Moves over the bracket that closes a list of which enough has been read. -/
def closeList (cursor : Cursor) : Except Fault Cursor :=
  let cursor := cursor.skipSpace
  match cursor.rest with
  | [] => cursor.fault .endsInList
  | b :: _ =>
      if b = byte ']' then .ok cursor.next
      else if b = byte ',' then
        let cursor := cursor.next.skipSpace
        if cursor.rest.head? = some (byte ']') then cursor.faultAtNext .trailingComma
        else cursor.faultAtNext .trailingCharacters
      else
        cursor.faultAtNext .trailingCharacters

end Cursor
end Json
end FieldLine
