import FieldLine.Gzip.Bits

/-!
Canonical prefix codes.  A code is given by the length of each symbol's word; words of one
length are consecutive numbers in the order of the symbols.
-/

namespace FieldLine
namespace Gzip

/-- A prefix code: for each length from one on, how many words have it, and the symbols in the
order of their words. -/
structure Huffman where
  counts : List Nat
  symbols : Array Nat

namespace Huffman

def maxLength : Nat := 15

/-- The code in which each symbol, counted from zero, has a word of the given length or, if that is
zero, none. -/
def ofLengths (lengths : List Nat) : Huffman :=
  let all := (List.range maxLength).map (· + 1)
  { counts := all.map fun length => lengths.count length
    symbols := (all.flatMap fun length =>
      (lengths.zipIdx.filter fun entry => entry.1 = length).map (·.2)).toArray }

/-- How many of all words of the greatest length a code uses up. -/
def weight (code : Huffman) : Nat :=
  code.counts.zipIdx.foldl
    (fun used (count, index) => used + count * Nat.pow 2 (maxLength - 1 - index)) 0

/-- Whether every sequence of bits starts with a word of the code. -/
def isComplete (code : Huffman) : Bool :=
  code.weight = Nat.pow 2 maxLength

/-- Whether a code may be used: it is complete or has a single word at most. -/
def isUsable (code : Huffman) : Bool :=
  code.isComplete || code.symbols.size ≤ 1

/-- What reading a symbol can give: none if the bits end, or if no word starts like them. -/
inductive Symbol where
  | ends
  | unknown
  | found (symbol : Nat) (bits : Bits)

/-- Reads a symbol whose word so far has the value `word`, where `first` is the first word of its
length and `index` the number of shorter words. -/
def readFrom (code : Huffman) : (counts : List Nat) → (word first index : Nat) → Bits → Symbol
  | [], _, _, _, _ => .unknown
  | count :: later, word, first, index, bits =>
      match bits.bit? with
      | none => .ends
      | some (bit, bits) =>
          let word := 2 * word + bit
          let first := 2 * first
          if word < first + count then
            match code.symbols[index + (word - first)]? with
            | some symbol => .found symbol bits
            | none => .unknown
          else
            code.readFrom later word (first + count) (index + count) bits

def read (code : Huffman) (bits : Bits) : Symbol :=
  code.readFrom code.counts 0 0 0 bits

end Huffman
end Gzip
end FieldLine
