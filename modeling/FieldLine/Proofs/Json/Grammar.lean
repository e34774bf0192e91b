import FieldLine.Proofs.Json.Collections
import FieldLine.Proofs.Json.Spellings

/-!
# Bytes of JSON values

The grammar of JSON as a predicate on bytes, with white space wherever it may stand and strings in
every spelling.
-/

namespace FieldLine

/-! ## White space -/

def JsonSyntax.Padding.bytes (padding : JsonSyntax.Padding) : List UInt8 :=
  padding.chars.map Json.byte

namespace Json

open JsonSyntax (Digits Exponent Literal Padded Padding)
open Yaml.Lexer (Brackets)

theorem isBlank_bytes (padding : Padding) : IsBlank padding.bytes := by
  intro b member
  obtain ⟨c, charMember, rfl⟩ := List.mem_map.mp member
  rcases padding.blank c charMember with rfl | rfl | rfl | rfl <;> rfl

/-! ## Values -/

/-- A member of an object: a name, a colon and a value. -/
structure Entry where
  name : Padded (List UInt8)
  value : Padded (List UInt8)

/-- A member as it stands between commas. -/
def Entry.item (entry : Entry) : Padded (List UInt8) where
  before := entry.name.before
  inner := entry.name.inner ++ (entry.name.after.bytes ++
    byte ':' :: (entry.value.before.bytes ++ entry.value.inner))
  after := entry.value.after

/-- Elements or members up to the closing bracket, with commas between them.  White space may stand
before the first of them, and also if there are none. -/
def listed (brackets : Brackets) :
    (first : Bool) → (before : Padding) → List (Padded (List UInt8)) → List UInt8
  | _, before, [] => before.bytes ++ [byte brackets.right]
  | first, before, item :: later =>
      before.bytes ++ (Cursor.lead item.before.bytes first ++
        (item.inner ++ listed brackets false item.after later))

def enclosed (brackets : Brackets) (inside : Padding) (items : List (Padded (List UInt8))) :
    List UInt8 :=
  byte brackets.left :: listed brackets true inside items

def listBytes (inside : Padding) (elements : List (Padded (List UInt8))) : List UInt8 :=
  enclosed .square inside elements

def objectBytes (inside : Padding) (entries : List Entry) : List UInt8 :=
  enclosed .curly inside (entries.map Entry.item)

/-- The bytes of a value.  Strings do not have to spell a text. -/
inductive IsValue : List UInt8 → Prop where
  | literal (word : Literal) : IsValue (word.chars.map byte)
  | number (numeral : JsonSyntax.Number) : IsValue (numeral.chars.map byte)
  | string {written : List UInt8} (isString : IsString written) : IsValue written
  | list (inside : Padding) {elements : List (Padded (List UInt8))}
      (values : ∀ element ∈ elements, IsValue element.inner) :
      IsValue (listBytes inside elements)
  | object (inside : Padding) {entries : List Entry}
      (names : ∀ entry ∈ entries, IsString entry.name.inner)
      (values : ∀ entry ∈ entries, IsValue entry.value.inner) :
      IsValue (objectBytes inside entries)

theorem isValue_written (n : Nat) : IsValue (Number.written n) := by
  have digits : ∀ c ∈ Nat.toDigits 10 n, c.isDigit = true := fun c member =>
    Nat.isDigit_of_mem_toDigits (by decide) (by decide) member
  have noLeadingZero (zero : (Nat.toDigits 10 n).head? = some '0') :
      Nat.toDigits 10 n = ['0'] := by
    rw [Decimal.eq_zero_of_head?_toDigits zero]
    rfl
  have isNumber := IsValue.number
    ⟨false, ⟨Nat.toDigits 10 n, Nat.toDigits_ne_nil, digits⟩, noLeadingZero, none, none⟩
  simpa [JsonSyntax.Number.chars, JsonSyntax.Number.fractionChars,
    JsonSyntax.Number.exponentChars, Number.written] using isNumber

/-! ## Beginnings -/

/-- A byte that values can begin with: no white space and no closing bracket. -/
def IsSolid (b : UInt8) : Prop :=
  isSpace b = false ∧ b ≠ byte ']' ∧ b ≠ byte '\x7d'

theorem isDigit_byte {c : Char} (digit : c.isDigit = true) : isDigit (byte c) = true :=
  (Number.byte_of_isDigit (Decimal.isDigit_of_isDigit digit)).1

theorem isSolid_of_isDigit {b : UInt8} (digit : isDigit b = true) : IsSolid b :=
  ⟨not_isSpace_of_isDigit digit, ne_of_isDigit digit rfl, ne_of_isDigit digit rfl⟩

theorem exists_number_cons (numeral : JsonSyntax.Number) :
    ∃ b later, numeral.chars.map byte = b :: later ∧
      (b = byte '-' ∨ isDigit b = true) := by
  obtain ⟨negative, ⟨whole, someDigit, digits⟩, noLeadingZero, fraction, exponent⟩ := numeral
  obtain ⟨c, later, rfl⟩ := List.exists_cons_of_ne_nil someDigit
  cases negative with
  | true => exact ⟨byte '-', _, rfl, .inl rfl⟩
  | false => exact ⟨byte c, _, rfl, .inr (isDigit_byte (digits c List.mem_cons_self))⟩

theorem IsValue.exists_cons {value : List UInt8} (isValue : IsValue value) :
    ∃ b later, value = b :: later ∧ IsSolid b := by
  cases isValue with
  | literal word =>
      rcases word with (_ | _) | _
      · exact ⟨byte 'f', _, rfl, rfl, by decide, by decide⟩
      · exact ⟨byte 't', _, rfl, rfl, by decide, by decide⟩
      · exact ⟨byte 'n', _, rfl, rfl, by decide, by decide⟩
  | number numeral =>
      obtain ⟨b, later, begins, rfl | digit⟩ := exists_number_cons numeral
      · exact ⟨_, _, begins, rfl, by decide, by decide⟩
      · exact ⟨_, _, begins, isSolid_of_isDigit digit⟩
  | string isString =>
      obtain ⟨body, rfl⟩ := isString.exists_cons
      exact ⟨_, _, rfl, rfl, by decide, by decide⟩
  | list inside values => exact ⟨_, _, rfl, rfl, by decide, by decide⟩
  | object inside names values => exact ⟨_, _, rfl, rfl, by decide, by decide⟩

/-- Only strings begin with a quote. -/
theorem IsValue.isString {later : List UInt8} (isValue : IsValue (byte '"' :: later)) :
    IsString (byte '"' :: later) := by
  generalize isWritten : byte '"' :: later = written at isValue ⊢
  cases isValue with
  | literal word => rcases word with (_ | _) | _ <;> cases isWritten
  | number numeral =>
      obtain ⟨b, others, begins, isMinus | digit⟩ := exists_number_cons numeral
      · rw [begins, isMinus] at isWritten
        cases isWritten
      · rw [begins] at isWritten
        exact absurd (List.cons.inj isWritten).1.symm (ne_of_isDigit digit rfl)
  | string isString => exact isString
  | list inside values => cases isWritten
  | object inside names values => cases isWritten

/-- After a value in a collection comes nothing that could belong to a number. -/
theorem endsNumber_listed (brackets : Brackets) (before : Padding)
    (items : List (Padded (List UInt8))) (rest : List UInt8) :
    Number.EndsNumber (listed brackets false before items ++ rest) := by
  rcases blank : before.bytes with _ | ⟨space, others⟩
  · cases items with
    | nil =>
        rw [listed, blank]
        rintro b ⟨⟩
        cases brackets <;> decide
    | cons item later =>
        rw [listed, blank]
        rintro b ⟨⟩
        decide
  · have isSpace : isSpace space = true := isBlank_bytes before space (blank ▸ List.mem_cons_self)
    cases items with
    | nil =>
        rw [listed, blank]
        exact endsNumber_of_isSpace isSpace
    | cons item later =>
        rw [listed, blank]
        exact endsNumber_of_isSpace isSpace

end Json
end FieldLine
