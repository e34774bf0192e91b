import FieldLine.Gzip.Huffman

/-!
Decompression of deflate streams: blocks of stored bytes, or of literals and references to
earlier output that are written in prefix codes.
-/

namespace FieldLine
namespace Gzip

inductive DeflateFault where
  | incomplete
  | corrupt
deriving DecidableEq, Repr

namespace Deflate

/-- A value or, if the bits have ended, a fault. -/
def orIncomplete {α : Type} : Option α → Except DeflateFault α
  | some a => .ok a
  | none => .error .incomplete

def symbol (code : Huffman) (bits : Bits) : Except DeflateFault (Nat × Bits) :=
  match code.read bits with
  | .ends => .error .incomplete
  | .unknown => .error .corrupt
  | .found symbol bits => .ok (symbol, bits)

/-- The two codes of a block: one for literals and lengths, one for distances. -/
structure Codes where
  literals : Huffman
  distances : Huffman

/-- The lengths, or distances, that share a symbol: the least of them, and the number of bits
that tell them apart. -/
abbrev Band := Nat × Nat

def lengthBands : Array Band :=
  #[(3, 0), (4, 0), (5, 0), (6, 0), (7, 0), (8, 0), (9, 0), (10, 0), (11, 1), (13, 1), (15, 1),
    (17, 1), (19, 2), (23, 2), (27, 2), (31, 2), (35, 3), (43, 3), (51, 3), (59, 3), (67, 4),
    (83, 4), (99, 4), (115, 4), (131, 5), (163, 5), (195, 5), (227, 5), (258, 0)]

def distanceBands : Array Band :=
  #[(1, 0), (2, 0), (3, 0), (4, 0), (5, 1), (7, 1), (9, 2), (13, 2), (17, 3), (25, 3), (33, 4),
    (49, 4), (65, 5), (97, 5), (129, 6), (193, 6), (257, 7), (385, 7), (513, 8), (769, 8),
    (1025, 9), (1537, 9), (2049, 10), (3073, 10), (4097, 11), (6145, 11), (8193, 12),
    (12289, 12), (16385, 13), (24577, 13)]

def fromBand (bands : Array Band) (index : Nat) (bits : Bits) :
    Except DeflateFault (Nat × Bits) :=
  match bands[index]? with
  | none => .error .corrupt
  | some (least, width) => do
      let (extra, bits) ← orIncomplete <| bits.number? width
      return (least + extra, bits)

/-- Repeats output from some distance back.  Before the start of the output there are zeros. -/
def copy (distance : Nat) : (length : Nat) → Array UInt8 → Array UInt8
  | 0, output => output
  | length + 1, output =>
      let b := if distance ≤ output.size then output.getD (output.size - distance) 0 else 0
      copy distance length (output.push b)

/-- Reads literals and references up to the end of a block.  `fuel` bounds the number of bits. -/
def readCoded (codes : Codes) : (fuel : Nat) → Array UInt8 → Bits →
    Except DeflateFault (Array UInt8 × Bits)
  | 0, _, _ => .error .incomplete
  | fuel + 1, output, bits => do
      let (literal, bits) ← symbol codes.literals bits
      if literal < 256 then
        readCoded codes fuel (output.push literal.toUInt8) bits
      else if literal = 256 then
        return (output, bits)
      else
        let (length, bits) ← fromBand lengthBands (literal - 257) bits
        let (index, bits) ← symbol codes.distances bits
        let (distance, bits) ← fromBand distanceBands index bits
        readCoded codes fuel (copy distance length output) bits

def readStored (output : Array UInt8) (bits : Bits) :
    Except DeflateFault (Array UInt8 × Bits) := do
  let bits := bits.align
  let (length, bits) ← orIncomplete <| bits.number? 16
  let (complement, bits) ← orIncomplete <| bits.number? 16
  if length + complement ≠ 65535 then
    .error .corrupt
  else
    let stored := bits.rest.take length
    if stored.length < length then
      .error .incomplete
    else
      return (output ++ stored, { rest := bits.rest.drop length })

/-- The codes of a block that does not bring its own. -/
def fixedCodes : Codes :=
  { literals := .ofLengths <| List.replicate 144 8 ++ List.replicate 112 9 ++
      List.replicate 24 7 ++ List.replicate 8 8
    distances := .ofLengths <| List.replicate 32 5 }

/-- The symbols for lengths of words, in the order in which their own lengths are written. -/
def lengthOrder : List Nat :=
  [16, 17, 18, 0, 8, 7, 9, 6, 10, 5, 11, 4, 12, 3, 13, 2, 14, 1, 15]

def readShortLengths (bits : Bits) : (count : Nat) → Except DeflateFault (List Nat × Bits)
  | 0 => .ok ([], bits)
  | count + 1 => do
      let (length, bits) ← orIncomplete <| bits.number? 3
      let (later, bits) ← readShortLengths bits count
      return (length :: later, bits)

/-- Reads lengths of words, latest first, until there are `total`.  Three of the symbols repeat
the length before or zero. -/
def readLengths (code : Huffman) (total : Nat) : (fuel : Nat) → List Nat → Bits →
    Except DeflateFault (List Nat × Bits)
  | 0, _, _ => .error .incomplete
  | fuel + 1, done, bits =>
      if total < done.length then
        .error .corrupt
      else if done.length = total then
        .ok (done.reverse, bits)
      else do
        let (length, bits) ← symbol code bits
        if length < 16 then
          readLengths code total fuel (length :: done) bits
        else if length = 16 then
          match done with
          | [] => .error .corrupt
          | last :: _ =>
              let (extra, bits) ← orIncomplete <| bits.number? 2
              readLengths code total fuel (List.replicate (3 + extra) last ++ done) bits
        else if length = 17 then
          let (extra, bits) ← orIncomplete <| bits.number? 3
          readLengths code total fuel (List.replicate (3 + extra) 0 ++ done) bits
        else
          let (extra, bits) ← orIncomplete <| bits.number? 7
          readLengths code total fuel (List.replicate (11 + extra) 0 ++ done) bits

def readCodes (bits : Bits) : Except DeflateFault (Codes × Bits) := do
  let (literals, bits) ← orIncomplete <| bits.number? 5
  let (distances, bits) ← orIncomplete <| bits.number? 5
  let (short, bits) ← orIncomplete <| bits.number? 4
  let literals := literals + 257
  let distances := distances + 1
  let (lengths, bits) ← readShortLengths bits (short + 4)
  if 286 < literals ∨ 30 < distances then
    .error .corrupt
  else
    let pairs := lengthOrder.zip lengths
    let code := Huffman.ofLengths <| (List.range 19).map fun symbol =>
      (pairs.lookup symbol).getD 0
    if !code.isComplete then
      .error .corrupt
    else
      let total := literals + distances
      let (lengths, bits) ← readLengths code total (total + 1) [] bits
      let codes : Codes :=
        ⟨.ofLengths (lengths.take literals), .ofLengths (lengths.drop literals)⟩
      if codes.literals.isUsable && codes.distances.isUsable then
        return (codes, bits)
      else
        .error .corrupt

def readBlocks : (fuel : Nat) → Array UInt8 → Bits → Except DeflateFault (Array UInt8 × Bits)
  | 0, _, _ => .error .incomplete
  | fuel + 1, output, bits => do
      let (last, bits) ← orIncomplete <| bits.number? 1
      let (kind, bits) ← orIncomplete <| bits.number? 2
      let (output, bits) ←
        match kind with
        | 0 => readStored output bits
        | 1 => readCoded fixedCodes fuel output bits
        | 2 => do
            let (codes, bits) ← readCodes bits
            readCoded codes fuel output bits
        | _ => .error .corrupt
      if last = 1 then
        return (output, bits)
      else
        readBlocks fuel output bits

/-- Decompresses a stream.  Gives its content and the bytes after it. -/
def decompress (bytes : List UInt8) : Except DeflateFault (List UInt8 × List UInt8) := do
  let (output, bits) ← readBlocks (8 * bytes.length + 1) #[] { rest := bytes }
  return (output.toList, bits.rest)

end Deflate
end Gzip
end FieldLine
