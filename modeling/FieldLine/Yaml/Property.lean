import FieldLine.Text.Hex
import FieldLine.Yaml.Cursor

/-!
Anchors, aliases and tags: the properties that may stand before a node.  A tag only has to
be well formed; of its text no more than the handle is kept.
-/

namespace FieldLine
namespace Yaml

/-! ## Names of anchors -/

/-- A character of an anchor's name.  The byte order mark is not one. -/
def isAnchorChar (c : Char) : Bool :=
  !isSpace c && !isFlow c && c ≠ '\ufeff'

def readAnchor (cursor : Cursor) : Except Fault (String × Cursor) :=
  let name := cursor.rest.tail.takeWhile isAnchorChar
  if name = [] then
    cursor.fault .anchorNameMissing
  else
    .ok (.ofList name, cursor.solid (name.length + 1))

namespace Tag

/-! ## Tag addresses -/

def isUriChar (c : Char) : Bool :=
  isNameChar c || "#;/?:@&=+$,.!~*'()[]%".contains c

def isTagChar (c : Char) : Bool :=
  isUriChar c && !isFlow c && c ≠ '!'

/-- An escaped character of which some octets have been read: the number of octets still to
come, and the value of those before them. -/
structure Octets where
  missing : Nat
  value : Nat

/-- The first octet of a character says how many there are. -/
def Octets.first (octet : Nat) : Except Cause Octets :=
  if octet < 0x80 then .ok ⟨0, octet⟩
  else if 0xC0 ≤ octet && octet < 0xE0 then .ok ⟨1, octet⟩
  else if 0xE0 ≤ octet && octet < 0xF0 then .ok ⟨2, octet⟩
  else if 0xF0 ≤ octet && octet < 0xF8 then .ok ⟨3, octet⟩
  else .error .tagOctetLeading

/-- A later octet is appended as a whole. -/
def Octets.next (octets : Octets) (octet : Nat) : Except Cause Octets :=
  if 0x80 ≤ octet && octet < 0xC0 then
    .ok ⟨octets.missing - 1, octets.value * 256 + octet⟩
  else
    .error .tagOctetTrailing

/-- Counts the characters of an address.  A percent sign starts an octet in two hexadecimal
digits, and the octets of one character follow each other. -/
def measureFrom (p : Char → Bool) : List Char → Option Octets → Nat → Except Cause Nat
  | '%' :: a :: b :: rest, octets, count =>
      match Hex.value? a, Hex.value? b with
      | some high, some low => do
          let octet := 16 * high + low
          let read ← match octets with
            | none => Octets.first octet
            | some octets => octets.next octet
          if read.missing ≠ 0 then
            measureFrom p rest (some read) (count + 3)
          else if read.value.isValidChar then
            measureFrom p rest none (count + 3)
          else
            .error .tagOctetNotCharacter
      | _, _ => .error .tagOctetMissing
  | c :: rest, none, count =>
      if c = '%' then .error .tagOctetMissing
      else if p c then measureFrom p rest none (count + 1)
      else .ok count
  | [], none, count => .ok count
  | _, some _, _ => .error .tagOctetMissing

def measure (p : Char → Bool) (text : List Char) : Except Cause Nat :=
  measureFrom p text none 0

/-! ## Tags -/

/-- Reads a tag: an address in angle brackets, or a handle and a suffix.  Gives the handle if
there is one between two exclamation marks. -/
def read (cursor : Cursor) (inFlow : Bool) : Except Fault (Option String × Cursor) := do
  let refuse {α : Type} (result : Except Cause α) : Except Fault α :=
    result.mapError fun cause => ⟨cursor.mark, cause⟩
  let opened := cursor.solid 1
  let (handle, next) ←
    if nextIs (· = '<') opened.rest then do
      let address := opened.solid 1
      let closed := address.solid (← refuse <| measure isUriChar address.rest)
      if nextIs (· = '>') closed.rest then
        pure (none, closed.solid 1)
      else
        cursor.fault .tagUnterminated
    else do
      let name := opened.rest.takeWhile isNameChar
      let named := opened.skipRun isNameChar
      if nextIs (· = '!') named.rest then
        let suffix := named.solid 1
        let length ← refuse <| measure isTagChar suffix.rest
        if length = 0 then
          cursor.fault .tagSuffixMissing
        else
          pure (some <| .ofList ('!' :: name ++ ['!']), suffix.solid length)
      else
        pure (none, named.solid (← refuse <| measure isTagChar named.rest))
  if atGap next.rest || (inFlow && nextIs isFlow next.rest) then
    return (handle, next)
  else
    cursor.fault .tagTrailing

end Tag
end Yaml
end FieldLine
