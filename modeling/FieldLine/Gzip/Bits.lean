/-!
Reading bits from bytes, the lowest bit of each byte first.
-/

namespace FieldLine
namespace Gzip

/-- Bytes of which some bits have been read: the `count` bits that are left of the byte before
`rest`, as a number. -/
structure Bits where
  rest : List UInt8
  pending : Nat := 0
  count : Nat := 0

namespace Bits

def bit? (bits : Bits) : Option (Nat × Bits) :=
  match bits.count, bits.rest with
  | 0, [] => none
  | 0, b :: rest => some (b.toNat % 2, ⟨rest, b.toNat / 2, 7⟩)
  | count + 1, rest => some (bits.pending % 2, ⟨rest, bits.pending / 2, count⟩)

/-- Reads a number of some bits, the lowest first. -/
def number? (bits : Bits) : (width : Nat) → Option (Nat × Bits)
  | 0 => some (0, bits)
  | width + 1 => do
      let (low, bits) ← bits.bit?
      let (high, bits) ← bits.number? width
      return (low + 2 * high, bits)

def align (bits : Bits) : Bits :=
  { rest := bits.rest }

end Bits
end Gzip
end FieldLine
