import FieldLine.Gzip.Crc
import FieldLine.Gzip.Deflate

/-!
Gzip members: a header, a deflate stream, and the checksum and size of its content.  Only the
first member of a file counts.
-/

namespace FieldLine
namespace Gzip

inductive Fault where
  | headerInvalid
  | headerTooLong
  | ends
  | deflate (fault : DeflateFault)
  | checksum
deriving DecidableEq, Repr

def Fault.message : Fault → String
  | headerInvalid => "invalid gzip header"
  | headerTooLong => "gzip header field too long"
  | ends => "unexpected end of file"
  | deflate .incomplete => "incomplete deflate stream"
  | deflate .corrupt => "corrupt deflate stream"
  | checksum => "corrupt gzip stream does not have a matching checksum"

/-- A number of some bytes, the lowest first. -/
def littleEndian : List UInt8 → Nat
  | [] => 0
  | b :: rest => b.toNat + 256 * littleEndian rest

def hasFlag (flags : UInt8) (bit : UInt8) : Bool :=
  flags &&& bit ≠ 0

def takeExactly (count : Nat) (bytes : List UInt8) :
    Except Fault (List UInt8 × List UInt8) :=
  let taken := bytes.take count
  if taken.length < count then .error .ends else .ok (taken, bytes.drop count)

def maxText : Nat := 65535

/-- Moves over a text that ends in a zero byte. -/
def skipText (bytes : List UInt8) : Except Fault (List UInt8) :=
  let text := bytes.takeWhile (· ≠ 0)
  if maxText < text.length then .error .headerTooLong
  else
    match bytes.drop text.length with
    | [] => .error .ends
    | _ :: rest => .ok rest

def skipExtra (bytes : List UInt8) : Except Fault (List UInt8) := do
  let (length, bytes) ← takeExactly 2 bytes
  let (_, bytes) ← takeExactly (littleEndian length) bytes
  return bytes

def magic : List UInt8 := [0x1F, 0x8B]

def skipHeader (bytes : List UInt8) : Except Fault (List UInt8) := do
  let (fixed, rest) ← takeExactly 10 bytes
  let method := fixed.getD 2 0
  let flags := fixed.getD 3 0
  if fixed.take 2 ≠ magic ∨ method ≠ 8 ∨ hasFlag flags 0xE0 then
    .error .headerInvalid
  else
    let rest ← if hasFlag flags 4 then skipExtra rest else pure rest
    let rest ← if hasFlag flags 8 then skipText rest else pure rest
    let rest ← if hasFlag flags 16 then skipText rest else pure rest
    if hasFlag flags 2 then
      let sum := Crc.sum <| bytes.take (bytes.length - rest.length)
      let (stored, rest) ← takeExactly 2 rest
      if littleEndian stored = sum.toNat % 65536 then return rest else .error .checksum
    else
      return rest

/-- Decompresses the first member. -/
def decompress (bytes : List UInt8) : Except Fault (List UInt8) := do
  let stream ← skipHeader bytes
  let (content, rest) ← (Deflate.decompress stream).mapError .deflate
  let (trailer, _) ← takeExactly 8 rest
  if littleEndian (trailer.take 4) = (Crc.sum content).toNat ∧
      littleEndian (trailer.drop 4) = content.length % 4294967296 then
    return content
  else
    .error .checksum

end Gzip
end FieldLine
