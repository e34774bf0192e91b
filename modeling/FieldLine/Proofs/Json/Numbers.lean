import FieldLine.Json.Number
import FieldLine.Proofs.Json.Strings
import FieldLine.Proofs.Text.Digits
import Mathlib.Data.List.TakeWhile

/-!
# Reading back written numbers

A written natural number is read as itself if it fits in 64 bits, unless what follows could belong
to it.  Any other natural number that is read fits in 64 bits too.
-/

namespace FieldLine
namespace Json
namespace Number

/-! ## Digits as bytes -/

theorem byte_of_isDigit {c : Char} (digit : Decimal.isDigit c = true) :
    isDigit (byte c) = true ∧ digitValue (byte c) = Decimal.digitValue c ∧ c.toNat < 128 := by
  simp only [Decimal.isDigit, Bool.and_eq_true, decide_eq_true_eq, Char.le_def,
    UInt32.le_iff_toNat_le] at digit
  have bounds : 48 ≤ c.toNat ∧ c.toNat ≤ 57 := digit
  have number : (byte c).toNat = c.toNat := Utf8.toNat_byte (by omega)
  refine ⟨?_, ?_, by omega⟩
  · simp only [isDigit, Bool.and_eq_true, decide_eq_true_eq, UInt8.le_iff_toNat_le, number]
    exact bounds
  · rw [digitValue, number, Decimal.digitValue]
    rfl

/-- The bytes of a written number. -/
def written (n : Nat) : List UInt8 :=
  (Nat.toDigits 10 n).map byte

theorem encode_toString (n : Nat) : Utf8.encode (toString n) = written n := by
  rw [Nat.toString_eq_ofList_toDigits, Utf8.encode_ofList, written]
  exact Text.flatMap_encodeChar_ascii fun c member =>
    (byte_of_isDigit (Decimal.isDigit_of_mem_toDigits member)).2.2

theorem isDigit_of_mem_written {n : Nat} : ∀ b ∈ written n, isDigit b = true := by
  intro b member
  obtain ⟨c, charMember, rfl⟩ := List.mem_map.mp member
  exact (byte_of_isDigit (Decimal.isDigit_of_mem_toDigits charMember)).1

theorem written_ne_nil (n : Nat) : written n ≠ [] := by
  rw [written, ne_eq, List.map_eq_nil_iff]
  exact Nat.toDigits_ne_nil

/-- What may follow a number: nothing that could belong to it. -/
def EndsNumber (rest : List UInt8) : Prop :=
  ∀ b ∈ rest.head?, isDigit b = false ∧ b ≠ byte '.' ∧ b ≠ byte 'e' ∧ b ≠ byte 'E'

theorem head?_any_isDigit {rest : List UInt8} (ends : EndsNumber rest) :
    rest.head?.any isDigit = false := by
  cases rest with
  | nil => rfl
  | cons b later => exact (ends b rfl).1

section

variable {run rest : List UInt8}

theorem digits_append (allDigits : ∀ b ∈ run, isDigit b = true)
    (ends : rest.head?.any isDigit = false) (place : Place) :
    digits ⟨place, run ++ rest⟩ = run := by
  rw [digits, List.takeWhile_append_of_pos allDigits]
  cases rest with
  | nil => rw [List.takeWhile_nil, List.append_nil]
  | cons b later =>
      rw [List.takeWhile_cons_of_neg (by simpa using ends), List.append_nil]

theorem skip_append (run rest : List UInt8) (place : Place) :
    (⟨place, run ++ rest⟩ : Cursor).skip run.length =
      ⟨⟨place.line, place.column + run.length⟩, rest⟩ := by
  rw [Cursor.skip, List.drop_left]

end

/-- More than one digit, if the first is no zero. -/
theorem no_leading_zero {c : Char} {others : List Char} {after : List UInt8}
    (digit : Decimal.isDigit c = true) (alone : c = '0' → others = [])
    (ends : after.head?.any isDigit = false) :
    (byte c = byte '0' && (others.map byte ++ after).head?.any isDigit) = false := by
  by_cases isZero : c = '0'
  · rw [alone isZero, List.map_nil, List.nil_append, ends, Bool.and_false]
  · have notZero : byte c ≠ byte '0' := by
      intro same
      have number := (byte_of_isDigit digit).2.2
      have sameNumber : c.toNat = 48 := by
        rw [← Utf8.toNat_byte (n := c.toNat) (by omega)]
        exact congrArg UInt8.toNat same
      exact isZero (Char.toNat_inj.mp sameNumber)
    rw [decide_eq_false notZero, Bool.false_and]

/-! ## Values -/

theorem le_foldl (digits : List Char) (value : Nat) :
    value ≤ digits.foldl (fun total c => 10 * total + Decimal.digitValue c) value := by
  induction digits generalizing value with
  | nil => exact Nat.le_refl value
  | cons c later inductionHypothesis =>
      have bound := inductionHypothesis (10 * value + Decimal.digitValue c)
      rw [List.foldl_cons]
      omega

theorem accumulate_eq {digits : List Char} (allDigits : ∀ c ∈ digits, Decimal.isDigit c = true)
    {bound value : Nat}
    (small : digits.foldl (fun total c => 10 * total + Decimal.digitValue c) value < bound)
    (taken : Nat) :
    accumulate bound (digits.map byte) value taken =
      (digits.foldl (fun total c => 10 * total + Decimal.digitValue c) value,
        taken + digits.length) := by
  induction digits generalizing value taken with
  | nil => rfl
  | cons c later inductionHypothesis =>
      rw [List.forall_mem_cons] at allDigits
      rw [List.foldl_cons] at small
      have fits := Nat.lt_of_le_of_lt (le_foldl later _) small
      rw [List.map_cons, accumulate, (byte_of_isDigit allDigits.1).2.1, if_pos fits,
        inductionHypothesis allDigits.2 small, List.foldl_cons, List.length_cons]
      congr 1
      omega

theorem accumulate_written {n : Nat} (small : n < wordBound) :
    accumulate wordBound (written n) 0 0 = (n, (written n).length) := by
  have value := Decimal.value_toDigits n
  rw [Decimal.value] at value
  rw [written, accumulate_eq (fun c => Decimal.isDigit_of_mem_toDigits) (value.trans_lt small),
    value, Nat.zero_add, List.length_map]

/-! ## Reading -/

section

variable {n : Nat} {b : UInt8} {later rest : List UInt8}

theorem isDigit_of_begins (begins : written n ++ rest = b :: later) : isDigit b = true := by
  rcases digits : written n with _ | ⟨first, others⟩
  · exact absurd digits (written_ne_nil n)
  · rw [digits, List.cons_append] at begins
    obtain ⟨rfl, -⟩ := List.cons.inj begins
    exact isDigit_of_mem_written first (digits ▸ List.mem_cons_self)

theorem no_zero_of_begins (ends : EndsNumber rest) (begins : written n ++ rest = b :: later) :
    (b = byte '0' && later.head?.any isDigit) = false := by
  rcases digits : Nat.toDigits 10 n with _ | ⟨c, others⟩
  · exact absurd digits Nat.toDigits_ne_nil
  rw [written, digits, List.map_cons, List.cons_append] at begins
  obtain ⟨rfl, rfl⟩ := List.cons.inj begins
  refine no_leading_zero (Decimal.isDigit_of_mem_toDigits (digits ▸ List.mem_cons_self)) ?_
    (head?_any_isDigit ends)
  rintro rfl
  have isNothing : n = 0 := Decimal.eq_zero_of_head?_toDigits (by rw [digits, List.head?_cons])
  rw [isNothing, Nat.toDigits_zero] at digits
  exact (List.cons.inj digits).2.symm

theorem digits_of_begins (ends : EndsNumber rest) (begins : written n ++ rest = b :: later)
    (place : Place) : digits ⟨place, b :: later⟩ = written n := by
  rw [← begins, digits_append isDigit_of_mem_written (head?_any_isDigit ends)]

theorem skip_of_begins (begins : written n ++ rest = b :: later) (place : Place) :
    (⟨place, b :: later⟩ : Cursor).skip (written n).length =
      ⟨⟨place.line, place.column + (written n).length⟩, rest⟩ := by
  rw [← begins, skip_append]

theorem not_atExponent (ends : EndsNumber rest) (place : Place) :
    atExponent ⟨place, rest⟩ = false := by
  cases rest with
  | nil => rfl
  | cons c more =>
      obtain ⟨-, -, notSmall, notLarge⟩ := ends c rfl
      simp [atExponent, notSmall, notLarge]

theorem not_atPoint (ends : EndsNumber rest) : rest.head? ≠ some (byte '.') := by
  intro point
  exact (ends _ point).2.1 rfl

end

theorem read_written {n : Nat} (small : n < wordBound) {rest : List UInt8}
    (ends : EndsNumber rest) (place : Place) :
    ∃ next, read ⟨place, written n ++ rest⟩ true = .ok (.natural n, ⟨next, rest⟩) := by
  rcases begins : written n ++ rest with _ | ⟨b, later⟩
  · exact absurd (List.append_eq_nil_iff.mp begins).1 (written_ne_nil n)
  refine ⟨⟨place.line, place.column + (written n).length⟩, ?_⟩
  simp only [read, isDigit_of_begins begins, no_zero_of_begins ends begins,
    digits_of_begins ends begins, accumulate_written small, skip_of_begins begins,
    not_atExponent ends, if_neg (not_atPoint ends), Nat.sub_self, Bool.not_true,
    Bool.false_eq_true, ne_eq, not_true_eq_false, if_false, if_true]

/-! ## Numbers in range -/

theorem accumulate_lt {bound value : Nat} (small : value < bound) (bytes : List UInt8)
    (taken : Nat) : (accumulate bound bytes value taken).1 < bound := by
  induction bytes generalizing value taken with
  | nil => exact small
  | cons b rest inductionHypothesis =>
      rw [accumulate]
      split
      · exact inductionHypothesis ‹_› _
      · exact small

theorem taken_accumulate_le (bound : Nat) (bytes : List UInt8) (value taken : Nat) :
    (accumulate bound bytes value taken).2 ≤ taken + bytes.length := by
  induction bytes generalizing value taken with
  | nil => exact Nat.le_refl taken
  | cons b rest inductionHypothesis =>
      rw [accumulate, List.length_cons]
      split
      · have atMost := inductionHypothesis (10 * value + digitValue b) (taken + 1)
        omega
      · exact Nat.le_add_right taken _

def IsDecimal : Number → Prop
  | natural _ => False
  | negative _ => False
  | decimal _ => True

variable {cursor next : Cursor} {number : Number} {positive : Bool} {value : Nat}
  {exponent : Int}

theorem isDecimal_ofParts (reads : ofParts cursor positive value exponent = .ok (number, next)) :
    number.IsDecimal := by
  rw [ofParts] at reads
  split at reads <;> cases reads
  exact trivial

theorem isDecimal_readExponent
    (reads : readExponent cursor positive value exponent = .ok (number, next)) :
    number.IsDecimal := by
  unfold readExponent at reads
  extract_lets marked signed negative start at reads
  generalize start = start at reads
  split at reads
  · cases reads
  split at reads
  · cases reads
  dsimp only at reads
  split at reads
  · split at reads
    · cases reads
    · cases reads
      exact trivial
  · exact isDecimal_ofParts reads

theorem isDecimal_readPlaces
    (reads : readPlaces cursor positive value exponent = .ok (number, next)) :
    number.IsDecimal := by
  simp only [readPlaces] at reads
  split_ifs at reads
  · cases reads
  · cases reads
  · exact isDecimal_readExponent reads
  · exact isDecimal_ofParts reads

/-- A natural number is read from digits alone, all of which fit. -/
theorem of_read_natural (reads : read cursor positive = .ok (.natural value, next)) :
    positive = true ∧ next = cursor.skip (digits cursor).length ∧
      accumulate wordBound (digits cursor) 0 0 = (value, (digits cursor).length) ∧
      next.rest.head? ≠ some (byte '.') ∧ atExponent next = false := by
  simp only [read] at reads
  split at reads
  · cases reads
  split_ifs at reads with _ _ point exponent extra isPositive
  · cases reads
  · cases reads
  · exact (isDecimal_readPlaces reads).elim
  · exact (isDecimal_readExponent reads).elim
  · exact (isDecimal_ofParts reads).elim
  · cases reads
    refine ⟨isPositive, rfl, Prod.ext rfl ?_, point, eq_false_of_ne_true exponent⟩
    have atMost := taken_accumulate_le wordBound (digits cursor) 0 0
    simp only [not_not] at extra
    omega
  · exact (isDecimal_ofParts reads).elim
  · cases reads

theorem lt_of_read_natural (reads : read cursor positive = .ok (.natural value, next)) :
    value < wordBound := by
  obtain ⟨-, -, accumulates, -, -⟩ := of_read_natural reads
  have small := accumulate_lt (show 0 < wordBound by decide) (digits cursor) 0
  rwa [accumulates] at small

end Number
end Json
end FieldLine
