import FieldLine.Json.Number
import FieldLine.Json.Text

/-!
Passing over JSON values whose content does not matter.  They still have to be well formed.
-/

namespace FieldLine
namespace Json

/-- A collection that is being passed over. -/
inductive Frame where
  | list
  | object
deriving DecidableEq, Repr

namespace Cursor

/-- Moves over a value other than a collection. -/
def skipScalar (cursor : Cursor) (b : UInt8) : Except Fault Cursor :=
  if b = byte 'n' then cursor.next.skipWord ['u', 'l', 'l']
  else if b = byte 't' then cursor.next.skipWord ['r', 'u', 'e']
  else if b = byte 'f' then cursor.next.skipWord ['a', 'l', 's', 'e']
  else if b = byte '-' then Number.skip cursor.next
  else if isDigit b then Number.skip cursor
  else if b = byte '"' then Text.skip cursor.next
  else cursor.faultAtNext .valueMissing

def skipKey (cursor : Cursor) : Except Fault Cursor :=
  let cursor := cursor.skipSpace
  match cursor.rest with
  | [] => cursor.fault .endsInObject
  | b :: _ =>
      if b = byte '"' then do
        let cursor ← Text.skip cursor.next
        cursor.skipColon
      else
        cursor.faultAtNext .keyNotString

mutual

/-- Moves over a value inside some collections, and to the end of the outermost of them.  `fuel`
bounds the number of bytes. -/
def skipValueIn : (fuel : Nat) → List Frame → Cursor → Except Fault Cursor
  | 0, _, cursor => cursor.fault .endsInValue
  | fuel + 1, frames, cursor =>
      let cursor := cursor.skipSpace
      match cursor.rest with
      | [] => cursor.fault .endsInValue
      | b :: _ =>
          if b = byte '[' then
            let inner := cursor.next.skipSpace
            match inner.rest with
            | [] => inner.fault .endsInList
            | c :: _ =>
                if c = byte ']' then skipRest fuel frames inner.next
                else skipValueIn fuel (.list :: frames) inner
          else if b = byte '\x7b' then
            let inner := cursor.next.skipSpace
            match inner.rest with
            | [] => inner.fault .endsInObject
            | c :: _ =>
                if c = byte '\x7d' then
                  skipRest fuel frames inner.next
                else do
                  let inner ← inner.skipKey
                  skipValueIn fuel (.object :: frames) inner
          else do
            let cursor ← cursor.skipScalar b
            skipRest fuel frames cursor

/-- Moves from after a value inside some collections to the end of the outermost of them. -/
def skipRest : (fuel : Nat) → List Frame → Cursor → Except Fault Cursor
  | _, [], cursor => .ok cursor
  | 0, _, cursor => cursor.fault .endsInValue
  | fuel + 1, .list :: outer, cursor =>
      let cursor := cursor.skipSpace
      match cursor.rest with
      | [] => cursor.fault .endsInList
      | b :: _ =>
          if b = byte ',' then skipValueIn fuel (.list :: outer) cursor.next
          else if b = byte ']' then skipRest fuel outer cursor.next
          else cursor.faultAtNext .listSeparatorMissing
  | fuel + 1, .object :: outer, cursor =>
      let cursor := cursor.skipSpace
      match cursor.rest with
      | [] => cursor.fault .endsInObject
      | b :: _ =>
          if b = byte ',' then do
            let cursor ← cursor.next.skipKey
            skipValueIn fuel (.object :: outer) cursor
          else if b = byte '\x7d' then
            skipRest fuel outer cursor.next
          else
            cursor.faultAtNext .objectSeparatorMissing

end

def skipValue (fuel : Nat) (cursor : Cursor) : Except Fault Cursor :=
  skipValueIn fuel [] cursor

end Cursor
end Json
end FieldLine
