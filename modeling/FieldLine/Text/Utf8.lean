/-!
Reading UTF-8.  A text that is not UTF-8 is refused with the number of bytes before the first
bad sequence and the number of bytes in that sequence, or none if the text ends inside it.
-/

namespace FieldLine
namespace Utf8

/-- Where a byte sequence stops being UTF-8. -/
structure Fault where
  validUpTo : Nat
  badLength : Option Nat
deriving DecidableEq, Repr

def Fault.message (fault : Fault) : String :=
  match fault.badLength with
  | some length =>
      "invalid utf-8 sequence of " ++ toString length ++ " bytes from index " ++
        toString fault.validUpTo
  | none => "incomplete utf-8 byte sequence from index " ++ toString fault.validUpTo

/-- A byte that continues a sequence: `10xxxxxx`. -/
def isContinuation (b : UInt8) : Bool :=
  0x80 ≤ b && b ≤ 0xBF

/-- The number of bytes in a sequence that starts with this byte, if one can. -/
def width? (b : UInt8) : Option Nat :=
  if b ≤ 0x7F then some 1
  else if 0xC2 ≤ b && b ≤ 0xDF then some 2
  else if 0xE0 ≤ b && b ≤ 0xEF then some 3
  else if 0xF0 ≤ b && b ≤ 0xF4 then some 4
  else none

/-- The second byte of a sequence is restricted by the first one where it could otherwise
encode a surrogate, a number beyond the last character, or one with a shorter form. -/
def isSecond (first second : UInt8) : Bool :=
  isContinuation second &&
    (first ≠ 0xE0 || 0xA0 ≤ second) &&
    (first ≠ 0xED || second ≤ 0x9F) &&
    (first ≠ 0xF0 || 0x90 ≤ second) &&
    (first ≠ 0xF4 || second ≤ 0x8F)

def payload (b : UInt8) : Nat :=
  b.toNat % 64

/-- Decodes from byte `position` on, after the characters `done` (latest first). -/
def decodeFrom (position : Nat) (done : List Char) : List UInt8 → Except Fault (List Char)
  | [] => .ok done.reverse
  | a :: rest =>
      match width? a, rest with
      | some 1, rest => decodeFrom (position + 1) (Char.ofNat a.toNat :: done) rest
      | some 2, b :: rest =>
          if isSecond a b then
            decodeFrom (position + 2) (Char.ofNat (a.toNat % 32 * 64 + payload b) :: done) rest
          else
            .error ⟨position, some 1⟩
      | some 3, [b] =>
          .error ⟨position, if isSecond a b then none else some 1⟩
      | some 3, b :: c :: rest =>
          if !isSecond a b then
            .error ⟨position, some 1⟩
          else if !isContinuation c then
            .error ⟨position, some 2⟩
          else
            decodeFrom (position + 3)
              (Char.ofNat ((a.toNat % 16 * 64 + payload b) * 64 + payload c) :: done) rest
      | some 4, [b] =>
          .error ⟨position, if isSecond a b then none else some 1⟩
      | some 4, [b, c] =>
          .error ⟨position,
            if !isSecond a b then some 1 else if isContinuation c then none else some 2⟩
      | some 4, b :: c :: d :: rest =>
          if !isSecond a b then
            .error ⟨position, some 1⟩
          else if !isContinuation c then
            .error ⟨position, some 2⟩
          else if !isContinuation d then
            .error ⟨position, some 3⟩
          else
            decodeFrom (position + 4)
              (Char.ofNat (((a.toNat % 8 * 64 + payload b) * 64 + payload c) * 64 + payload d) ::
                done) rest
      | some _, _ => .error ⟨position, none⟩
      | none, _ => .error ⟨position, some 1⟩

/-- The characters that a byte sequence encodes. -/
def decode (bytes : List UInt8) : Except Fault (List Char) :=
  decodeFrom 0 [] bytes

def encode (text : String) : List UInt8 :=
  text.toList.flatMap String.utf8EncodeChar

end Utf8
end FieldLine
