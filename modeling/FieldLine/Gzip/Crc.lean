/-!
The cyclic redundancy check of 32 bits.
-/

namespace FieldLine
namespace Gzip
namespace Crc

/-- The generator polynomial, lowest bit first. -/
def polynomial : UInt32 := 0xEDB88320

/-- Divides one more bit. -/
def step (register : UInt32) : UInt32 :=
  if register &&& 1 = 1 then (register >>> 1) ^^^ polynomial else register >>> 1

def add (register : UInt32) (b : UInt8) : UInt32 :=
  step <| step <| step <| step <| step <| step <| step <| step <| register ^^^ b.toUInt32

def sum (bytes : List UInt8) : UInt32 :=
  bytes.foldl add 0xFFFFFFFF ^^^ 0xFFFFFFFF

end Crc
end Gzip
end FieldLine
