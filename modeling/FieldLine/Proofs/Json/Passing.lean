import FieldLine.Proofs.Json.Entering

/-!
# Passing over values

Whatever a value is and however deep its arrays and objects are nested, it is passed over up to its
end.
-/

namespace FieldLine
namespace Json

open JsonSyntax (Digits Exponent Literal Padded Padding)
open Yaml.Lexer (Brackets)

/-! ## Numbers -/

namespace Number

section

variable {run rest : List UInt8}

theorem isDigit_of_mem_digits (digits : Digits) :
    ∀ b ∈ digits.chars.map byte, isDigit b = true := by
  intro b member
  obtain ⟨c, charMember, rfl⟩ := List.mem_map.mp member
  exact isDigit_byte (digits.digits c charMember)

/-- Digits begin with a digit. -/
theorem exists_digit_cons (digits : Digits) (rest : List UInt8) :
    ∃ b later, digits.chars.map byte ++ rest = b :: later ∧ isDigit b = true := by
  obtain ⟨chars, someDigit, isDigits⟩ := digits
  obtain ⟨c, later, rfl⟩ := List.exists_cons_of_ne_nil someDigit
  exact ⟨byte c, _, rfl, isDigit_byte (isDigits c List.mem_cons_self)⟩

theorem skipExponent_written (exponent : Exponent) (ends : rest.head?.any isDigit = false)
    (place : Place) :
    ∃ next, skipExponent ⟨place, exponent.chars.map byte ++ rest⟩ = .ok ⟨next, rest⟩ := by
  obtain ⟨capital, negative, digits⟩ := exponent
  obtain ⟨b, later, begins, digit⟩ := exists_digit_cons digits rest
  have notPlus : b ≠ byte '+' := ne_of_isDigit digit rfl
  have notMinus : b ≠ byte '-' := ne_of_isDigit digit rfl
  have run (place : Place) : Number.digits ⟨place, b :: later⟩ = digits.chars.map byte := by
    rw [← begins, digits_append (isDigit_of_mem_digits digits) ends]
  have skips (place : Place) :
      (⟨place, b :: later⟩ : Cursor).skip digits.chars.length =
        ⟨⟨place.line, place.column + digits.chars.length⟩, rest⟩ := by
    rw [← begins, ← digits.chars.length_map byte, skip_append]
  rcases negative with _ | _ | _ <;>
    simp [Exponent.chars, begins, skipExponent, Cursor.next, notPlus, notMinus, digit, run, skips]

/-- After the digits of a number there may be an exponent. -/
theorem skipExponent_if_written (numeral : JsonSyntax.Number) (ends : EndsNumber rest)
    {place : Place} {cursor : Cursor}
    (atTail : cursor = ⟨place, numeral.exponentChars.map byte ++ rest⟩) :
    ∃ next, (if atExponent cursor then skipExponent cursor else .ok cursor) =
      .ok ⟨next, rest⟩ := by
  rw [atTail, JsonSyntax.Number.exponentChars]
  rcases numeral.exponent with _ | exponent
  · refine ⟨place, ?_⟩
    rw [List.map_nil, List.nil_append, not_atExponent ends, if_neg Bool.false_ne_true]
  · have isExponent : atExponent ⟨place, exponent.chars.map byte ++ rest⟩ = true := by
      obtain ⟨capital, negative, digits⟩ := exponent
      cases capital <;> simp [Exponent.chars, atExponent]
    rw [isExponent, if_pos rfl]
    exact skipExponent_written exponent (head?_any_isDigit ends) place

/-- What follows the whole part of a number is no digit, and a point only before a fraction. -/
theorem head?_exponentChars (numeral : JsonSyntax.Number) (ends : EndsNumber rest) :
    (numeral.exponentChars.map byte ++ rest).head?.any isDigit = false ∧
      (numeral.exponentChars.map byte ++ rest).head? ≠ some (byte '.') := by
  rw [JsonSyntax.Number.exponentChars]
  rcases numeral.exponent with _ | ⟨_ | _, negative, digits⟩
  · exact ⟨head?_any_isDigit ends, not_atPoint ends⟩
  · exact ⟨rfl, by simp [Exponent.chars]; decide⟩
  · exact ⟨rfl, by simp [Exponent.chars]; decide⟩

theorem no_zero_before_digit (numeral : JsonSyntax.Number) {b : UInt8} {later after : List UInt8}
    (begins : numeral.whole.chars.map byte ++ after = b :: later)
    (ends : after.head?.any isDigit = false) :
    (b = byte '0' && later.head?.any isDigit) = false := by
  obtain ⟨negative, ⟨whole, someDigit, digits⟩, noLeadingZero, fraction, exponent⟩ := numeral
  obtain ⟨c, others, rfl⟩ := List.exists_cons_of_ne_nil someDigit
  rw [List.map_cons, List.cons_append] at begins
  obtain ⟨rfl, rfl⟩ := List.cons.inj begins
  refine no_leading_zero (Decimal.isDigit_of_isDigit (digits c List.mem_cons_self)) ?_ ends
  rintro rfl
  exact (List.cons.inj (noLeadingZero rfl)).2

/-- The bytes of a number without its sign. -/
def unsigned (numeral : JsonSyntax.Number) : List UInt8 :=
  numeral.whole.chars.map byte ++
    (numeral.fractionChars.map byte ++ numeral.exponentChars.map byte)

theorem map_byte_chars (numeral : JsonSyntax.Number) :
    numeral.chars.map byte =
      (if numeral.negative then ['-'] else []).map byte ++ unsigned numeral := by
  rw [JsonSyntax.Number.chars, unsigned]
  simp only [List.map_append]

theorem exists_unsigned_cons (numeral : JsonSyntax.Number) (rest : List UInt8) :
    ∃ b later, unsigned numeral ++ rest = b :: later ∧ isDigit b = true := by
  rw [unsigned, List.append_assoc]
  exact exists_digit_cons numeral.whole _

theorem skip_unsigned (numeral : JsonSyntax.Number) (ends : EndsNumber rest) (place : Place) :
    ∃ next, skip ⟨place, unsigned numeral ++ rest⟩ = .ok ⟨next, rest⟩ := by
  obtain ⟨noDigit, noPoint⟩ := head?_exponentChars numeral ends
  generalize isAfter : numeral.fractionChars.map byte ++
    (numeral.exponentChars.map byte ++ rest) = after
  have shape : unsigned numeral ++ rest = numeral.whole.chars.map byte ++ after := by
    rw [unsigned, ← isAfter, List.append_assoc, List.append_assoc]
  have endsWhole : after.head?.any isDigit = false := by
    rw [← isAfter, JsonSyntax.Number.fractionChars]
    rcases numeral.fraction with _ | places
    · exact noDigit
    · rfl
  obtain ⟨b, later, begins, digit⟩ := exists_digit_cons numeral.whole after
  have run : digits ⟨place, b :: later⟩ = numeral.whole.chars.map byte := by
    rw [← begins, digits_append (isDigit_of_mem_digits numeral.whole) endsWhole]
  have skips : (⟨place, b :: later⟩ : Cursor).skip (numeral.whole.chars.map byte).length =
      ⟨⟨place.line, place.column + (numeral.whole.chars.map byte).length⟩, after⟩ := by
    rw [← begins, skip_append]
  rw [shape, begins, skip]
  simp only [digit, no_zero_before_digit numeral begins endsWhole, run, skips, Bool.not_true,
    Bool.false_eq_true, if_false]
  rcases found : numeral.fraction with _ | places
  · have noFraction : numeral.fractionChars = [] := by rw [JsonSyntax.Number.fractionChars, found]
    rw [noFraction, List.map_nil, List.nil_append] at isAfter
    rw [← isAfter, if_neg noPoint]
    exact skipExponent_if_written numeral ends rfl
  · have fraction : numeral.fractionChars = '.' :: places.chars := by
      rw [JsonSyntax.Number.fractionChars, found]
    have atPoint : after = byte '.' :: (places.chars.map byte ++
        (numeral.exponentChars.map byte ++ rest)) := by
      rw [← isAfter, fraction, List.map_cons, List.cons_append]
    have runPlaces (place : Place) : digits ⟨place, places.chars.map byte ++
        (numeral.exponentChars.map byte ++ rest)⟩ = places.chars.map byte :=
      digits_append (isDigit_of_mem_digits places) noDigit place
    have somePlace : places.chars.map byte ≠ [] := by
      rw [ne_eq, List.map_eq_nil_iff]
      exact places.someDigit
    rw [atPoint]
    simp only [List.head?_cons, Cursor.next, runPlaces, somePlace, skip_append, if_true, if_false]
    exact skipExponent_if_written numeral ends rfl

end

end Number

def bracketsOf : Frame → Brackets
  | .list => .square
  | .object => .curly

/-! ## Scalars -/

section

variable {blank rest : List UInt8}

namespace Cursor

theorem skipScalar_literal (word : Literal) (rest : List UInt8) :
    ∃ b later, word.chars.map byte ++ rest = b :: later ∧ b ≠ byte '[' ∧ b ≠ byte '\x7b' ∧
      ∀ place, ∃ next, (⟨place, b :: later⟩ : Cursor).skipScalar b = .ok ⟨next, rest⟩ := by
  rcases word with (_ | _) | _
  · refine ⟨byte 'f', _, rfl, by decide, by decide, fun place => ?_⟩
    exact skipWord_encoded (place.after (byte 'f')) rest ['a', 'l', 's', 'e']
  · refine ⟨byte 't', _, rfl, by decide, by decide, fun place => ?_⟩
    exact skipWord_encoded (place.after (byte 't')) rest ['r', 'u', 'e']
  · refine ⟨byte 'n', _, rfl, by decide, by decide, fun place => ?_⟩
    exact skipWord_encoded (place.after (byte 'n')) rest ['u', 'l', 'l']

theorem skipScalar_numeral (numeral : JsonSyntax.Number) (ends : Number.EndsNumber rest) :
    ∃ b later, numeral.chars.map byte ++ rest = b :: later ∧ b ≠ byte '[' ∧ b ≠ byte '\x7b' ∧
      ∀ place, ∃ next, (⟨place, b :: later⟩ : Cursor).skipScalar b = .ok ⟨next, rest⟩ := by
  rw [Number.map_byte_chars, List.append_assoc]
  cases numeral.negative with
  | true =>
      refine ⟨byte '-', _, rfl, by decide, by decide, fun place => ?_⟩
      exact Number.skip_unsigned numeral ends (place.after (byte '-'))
  | false =>
      obtain ⟨b, later, begins, digit⟩ := Number.exists_unsigned_cons numeral rest
      refine ⟨b, later, begins, ne_of_isDigit digit rfl, ne_of_isDigit digit rfl, fun place => ?_⟩
      rw [skipScalar, if_neg (ne_of_isDigit digit rfl), if_neg (ne_of_isDigit digit rfl),
        if_neg (ne_of_isDigit digit rfl), if_neg (ne_of_isDigit digit rfl), if_pos digit, ← begins]
      exact Number.skip_unsigned numeral ends place

theorem skipScalar_string {written : List UInt8} (isString : IsString written)
    (rest : List UInt8) :
    ∃ b later, written ++ rest = b :: later ∧ b ≠ byte '[' ∧ b ≠ byte '\x7b' ∧
      ∀ place, ∃ next, (⟨place, b :: later⟩ : Cursor).skipScalar b = .ok ⟨next, rest⟩ := by
  obtain ⟨body, rfl⟩ := isString.exists_cons
  refine ⟨byte '"', body ++ rest, rfl, by decide, by decide, fun place => ?_⟩
  exact skip_of_isString isString (place.after (byte '"')) rest

/-! ## Punctuation -/

theorem skipKey_written {name afterName : List UInt8} (isString : IsString name)
    (isBlank : IsBlank blank) (isBlankAfter : IsBlank afterName) (rest : List UInt8)
    (place : Place) :
    ∃ next, (⟨place, blank ++ (name ++ (afterName ++ byte ':' :: rest))⟩ : Cursor).skipKey =
      .ok ⟨next, rest⟩ := by
  obtain ⟨body, rfl⟩ := isString.exists_cons
  obtain ⟨atName, skips⟩ := skipSpace_solid (b := byte '"') rfl isBlank
    (body ++ (afterName ++ byte ':' :: rest)) place
  obtain ⟨between, skipsName⟩ :=
    skip_of_isString isString (atName.after (byte '"')) (afterName ++ byte ':' :: rest)
  obtain ⟨next, skipsColon⟩ := skipColon_padded isBlankAfter rest between
  refine ⟨next, ?_⟩
  rw [skipKey, List.cons_append, skips]
  simp only [if_true, Cursor.next, skipsName, bind, Except.bind, skipsColon]

/-! ## Values in collections -/

/-- Moves to the value of an element or member, over its name if it has one. -/
def enter : Frame → Cursor → Except Fault Cursor
  | .list, cursor => .ok cursor
  | .object, cursor => cursor.skipKey

theorem skipRest_blank (isBlank : IsBlank blank) (text : List UInt8) (frame : Frame)
    (outer : List Frame) (fuel : Nat) (place : Place) :
    ∃ next, skipRest (fuel + 1) (frame :: outer) ⟨place, blank ++ text⟩ =
      skipRest (fuel + 1) (frame :: outer) ⟨next, text⟩ := by
  obtain ⟨next, skips⟩ := skipSpace_blank isBlank text place
  refine ⟨next, ?_⟩
  cases frame <;> rw [skipRest, skipRest, skips]

theorem skipRest_close (frame : Frame) (outer : List Frame) (fuel : Nat) (place : Place)
    (rest : List UInt8) :
    ∃ next, skipRest (fuel + 1) (frame :: outer)
        ⟨place, byte (bracketsOf frame).right :: rest⟩ =
      skipRest fuel outer ⟨next, rest⟩ := by
  refine ⟨place.after (byte (bracketsOf frame).right), ?_⟩
  cases frame with
  | list =>
      rw [bracketsOf, Brackets.right, skipRest, skipSpace_at (by decide)]
      simp only [if_neg (show ¬byte ']' = byte ',' by decide), if_true, Cursor.next]
  | object =>
      rw [bracketsOf, Brackets.right, skipRest, skipSpace_at (by decide)]
      simp only [if_neg (show ¬byte '\x7d' = byte ',' by decide), if_true, Cursor.next]

theorem skipRest_comma (frame : Frame) (outer : List Frame) (fuel : Nat) (place : Place)
    (rest : List UInt8) :
    ∃ next, skipRest (fuel + 1) (frame :: outer) ⟨place, byte ',' :: rest⟩ =
      enter frame ⟨next, rest⟩ >>= skipValueIn fuel (frame :: outer) := by
  refine ⟨place.after (byte ','), ?_⟩
  cases frame with
  | list =>
      rw [skipRest, skipSpace_at (by decide)]
      simp only [if_true, Cursor.next]
      rfl
  | object =>
      rw [skipRest, skipSpace_at (by decide)]
      simp only [if_true, Cursor.next]
      rfl

/-- An opening bracket is followed by the closing one or by an element or member. -/
theorem skipValueIn_close (frame : Frame) (outer : List Frame) (isBlank : IsBlank blank)
    {inside : List UInt8} (isBlankInside : IsBlank inside) (fuel : Nat) (place : Place)
    (rest : List UInt8) :
    ∃ next, skipValueIn (fuel + 1) outer ⟨place, blank ++ byte (bracketsOf frame).left ::
        (inside ++ byte (bracketsOf frame).right :: rest)⟩ =
      skipRest fuel outer ⟨next, rest⟩ := by
  cases frame with
  | list =>
      obtain ⟨atLeft, skips⟩ := skipSpace_solid (b := byte '[') rfl isBlank
        (inside ++ byte ']' :: rest) place
      obtain ⟨atRight, skipsInside⟩ := skipSpace_solid (b := byte ']') rfl isBlankInside rest
        (atLeft.after (byte '['))
      refine ⟨atRight.after (byte ']'), ?_⟩
      rw [bracketsOf, Brackets.left, Brackets.right, skipValueIn, skips]
      simp only [if_true, Cursor.next, skipsInside]
  | object =>
      obtain ⟨atLeft, skips⟩ := skipSpace_solid (b := byte '\x7b') rfl isBlank
        (inside ++ byte '\x7d' :: rest) place
      obtain ⟨atRight, skipsInside⟩ := skipSpace_solid (b := byte '\x7d') rfl isBlankInside rest
        (atLeft.after (byte '\x7b'))
      refine ⟨atRight.after (byte '\x7d'), ?_⟩
      rw [bracketsOf, Brackets.left, Brackets.right, skipValueIn, skips]
      simp only [if_true, Cursor.next, skipsInside, if_neg (show ¬byte '\x7b' = byte '[' by decide)]

theorem skipValueIn_open (frame : Frame) (outer : List Frame) (isBlank : IsBlank blank)
    {inside : List UInt8} (isBlankInside : IsBlank inside) {b : UInt8} (solid : IsSolid b)
    (fuel : Nat) (place : Place) (rest : List UInt8) :
    ∃ next, skipValueIn (fuel + 1) outer
        ⟨place, blank ++ byte (bracketsOf frame).left :: (inside ++ b :: rest)⟩ =
      enter frame ⟨next, b :: rest⟩ >>= skipValueIn fuel (frame :: outer) := by
  obtain ⟨notSpace, notSquare, notCurly⟩ := solid
  cases frame with
  | list =>
      obtain ⟨atLeft, skips⟩ := skipSpace_solid (b := byte '[') rfl isBlank
        (inside ++ b :: rest) place
      obtain ⟨atFirst, skipsInside⟩ := skipSpace_solid notSpace isBlankInside rest
        (atLeft.after (byte '['))
      refine ⟨atFirst, ?_⟩
      rw [bracketsOf, Brackets.left, skipValueIn, skips]
      simp only [if_true, Cursor.next, skipsInside, if_neg notSquare]
      rfl
  | object =>
      obtain ⟨atLeft, skips⟩ := skipSpace_solid (b := byte '\x7b') rfl isBlank
        (inside ++ b :: rest) place
      obtain ⟨atFirst, skipsInside⟩ := skipSpace_solid notSpace isBlankInside rest
        (atLeft.after (byte '\x7b'))
      refine ⟨atFirst, ?_⟩
      rw [bracketsOf, Brackets.left, skipValueIn, skips]
      simp only [if_true, Cursor.next, skipsInside, if_neg notCurly,
        if_neg (show ¬byte '\x7b' = byte '[' by decide)]
      rfl

end Cursor

end

/-- Inside any collections, the value is passed over if there is fuel for it and what follows. -/
def PassesOver (value : List UInt8) : Prop :=
  ∀ (rest blank : List UInt8), Number.EndsNumber rest → IsBlank blank →
    ∀ (outer : List Frame) (fuel : Nat) (place : Place), (value ++ rest).length ≤ fuel →
      ∃ (spare : Nat) (next : Place), rest.length ≤ spare ∧
        Cursor.skipValueIn fuel outer ⟨place, blank ++ (value ++ rest)⟩ =
          Cursor.skipRest spare outer ⟨next, rest⟩

/-- The same of an element or member of a collection. -/
def PassesOverItem (frame : Frame) (inner : List UInt8) : Prop :=
  ∀ (rest blank : List UInt8), Number.EndsNumber rest → IsBlank blank →
    ∀ (outer : List Frame) (fuel : Nat) (place : Place), (inner ++ rest).length ≤ fuel →
      ∃ (spare : Nat) (next : Place), rest.length ≤ spare ∧
        Cursor.enter frame ⟨place, blank ++ (inner ++ rest)⟩ >>= Cursor.skipValueIn fuel outer =
          Cursor.skipRest spare outer ⟨next, rest⟩

theorem passesOver_of_skipScalar {value : List UInt8}
    (skips : ∀ rest, Number.EndsNumber rest → ∃ b later,
      value ++ rest = b :: later ∧ b ≠ byte '[' ∧ b ≠ byte '\x7b' ∧
        ∀ place, ∃ next, (⟨place, b :: later⟩ : Cursor).skipScalar b = .ok ⟨next, rest⟩)
    (solid : ∃ b later, value = b :: later ∧ IsSolid b) : PassesOver value := by
  intro rest blank ends isBlank outer fuel place enough
  obtain ⟨b, later, begins, notList, notObject, skipsScalar⟩ := skips rest ends
  obtain ⟨first, others, rfl, notSpace, -⟩ := solid
  rw [List.cons_append] at begins enough
  obtain ⟨rfl, rfl⟩ := List.cons.inj begins
  rw [List.length_cons, List.length_append] at enough
  obtain ⟨spare, rfl⟩ : ∃ spare, fuel = spare + 1 := ⟨fuel - 1, by omega⟩
  obtain ⟨between, skipsSpace⟩ := Cursor.skipSpace_solid notSpace isBlank (others ++ rest) place
  obtain ⟨next, skipsValue⟩ := skipsScalar between
  refine ⟨spare, next, by omega, ?_⟩
  rw [List.cons_append, Cursor.skipValueIn, skipsSpace]
  simp only [if_neg notList, if_neg notObject, skipsValue, bind, Except.bind]

theorem passesOver_element {value : List UInt8} (passes : PassesOver value) :
    PassesOverItem .list value :=
  passes

theorem passesOver_entry {entry : Entry} (isName : IsString entry.name.inner)
    (passes : PassesOver entry.value.inner) : PassesOverItem .object entry.item.inner := by
  intro rest blank ends isBlank outer fuel place enough
  obtain ⟨⟨beforeName, name, afterName⟩, ⟨before, value, afterValue⟩⟩ := entry
  simp only [Entry.item, List.length_append, List.length_cons] at enough
  obtain ⟨atValue, skipsKey⟩ := Cursor.skipKey_written isName isBlank (isBlank_bytes afterName)
    (before.bytes ++ (value ++ rest)) place
  obtain ⟨spare, next, enoughRest, passesValue⟩ :=
    passes rest before.bytes ends (isBlank_bytes before) outer fuel atValue
      (by simp only [List.length_append]; omega)
  refine ⟨spare, next, enoughRest, ?_⟩
  simp only [Entry.item, List.append_assoc, List.cons_append, Cursor.enter]
  rw [skipsKey]
  exact passesValue

/-- The rest of a collection is passed over from item to item. -/
theorem skipRest_listed {frame : Frame} {items : List (Padded (List UInt8))}
    (pass : ∀ item ∈ items, PassesOverItem frame item.inner) (rest : List UInt8)
    (before : Padding) (outer : List Frame) {fuel : Nat} (place : Place)
    (enough : (listed (bracketsOf frame) false before items ++ rest).length ≤ fuel) :
    ∃ (spare : Nat) (next : Place), rest.length ≤ spare ∧
      Cursor.skipRest fuel (frame :: outer)
          ⟨place, listed (bracketsOf frame) false before items ++ rest⟩ =
        Cursor.skipRest spare outer ⟨next, rest⟩ := by
  induction items generalizing before fuel place with
  | nil =>
      simp only [listed, List.length_append, List.length_cons, List.length_nil] at enough
      obtain ⟨spare, rfl⟩ : ∃ spare, fuel = spare + 1 := ⟨fuel - 1, by omega⟩
      obtain ⟨atEnd, skips⟩ := Cursor.skipRest_blank (isBlank_bytes before)
        (byte (bracketsOf frame).right :: rest) frame outer spare place
      obtain ⟨next, closes⟩ := Cursor.skipRest_close frame outer spare atEnd rest
      refine ⟨spare, next, by omega, ?_⟩
      rw [listed, List.append_assoc, List.singleton_append, skips, closes]
  | cons item later inductionHypothesis =>
      rw [List.forall_mem_cons] at pass
      simp only [listed, Cursor.lead, List.length_append, List.length_cons] at enough
      obtain ⟨spare, rfl⟩ : ∃ spare, fuel = spare + 1 := ⟨fuel - 1, by omega⟩
      -- All that an item needs to know of what follows is that it ends a number.
      generalize isLater : listed (bracketsOf frame) false item.after later ++ rest = others
      have ends := endsNumber_listed (bracketsOf frame) item.after later rest
      rw [isLater] at ends
      obtain ⟨atComma, skips⟩ := Cursor.skipRest_blank (isBlank_bytes before)
        (byte ',' :: (item.before.bytes ++ (item.inner ++ others))) frame outer spare place
      obtain ⟨atItem, enters⟩ := Cursor.skipRest_comma frame outer spare atComma
        (item.before.bytes ++ (item.inner ++ others))
      obtain ⟨between, atLater, enoughLater, passes⟩ :=
        pass.1 others item.before.bytes ends (isBlank_bytes item.before) (frame :: outer) spare
          atItem (by simp only [← isLater, List.length_append]; omega)
      rw [← isLater] at enoughLater
      obtain ⟨last, next, enoughRest, passesLater⟩ :=
        inductionHypothesis pass.2 item.after atLater enoughLater
      refine ⟨last, next, enoughRest, ?_⟩
      simp only [listed, Cursor.lead, List.append_assoc, List.cons_append, isLater]
      rw [skips, enters, passes, ← isLater, passesLater]

/-- A collection is passed over if its elements or members are. -/
theorem passesOver_enclosed (frame : Frame) {items : List (Padded (List UInt8))}
    (solid : ∀ item ∈ items, ∃ b later, item.inner = b :: later ∧ IsSolid b)
    (pass : ∀ item ∈ items, PassesOverItem frame item.inner) (inside : Padding) :
    PassesOver (enclosed (bracketsOf frame) inside items) := by
  intro rest blank ends isBlank outer fuel place enough
  cases items with
  | nil =>
      simp only [enclosed, listed, List.length_append, List.length_cons,
        List.length_nil] at enough
      obtain ⟨spare, rfl⟩ : ∃ spare, fuel = spare + 1 := ⟨fuel - 1, by omega⟩
      obtain ⟨next, closes⟩ := Cursor.skipValueIn_close frame outer isBlank (isBlank_bytes inside)
        spare place rest
      refine ⟨spare, next, by omega, ?_⟩
      simp only [enclosed, listed, List.cons_append, List.append_assoc, List.nil_append]
      exact closes
  | cons item later =>
      rw [List.forall_mem_cons] at solid pass
      simp only [enclosed, listed, Cursor.lead, List.length_append, List.length_cons] at enough
      obtain ⟨spare, rfl⟩ : ∃ spare, fuel = spare + 1 := ⟨fuel - 1, by omega⟩
      generalize isLater : listed (bracketsOf frame) false item.after later ++ rest = others
      have endsItem := endsNumber_listed (bracketsOf frame) item.after later rest
      rw [isLater] at endsItem
      obtain ⟨b, tail, begins, isSolid⟩ := solid.1
      have isBlankBefore : IsBlank (inside.bytes ++ item.before.bytes) :=
        List.forall_mem_append.mpr ⟨isBlank_bytes inside, isBlank_bytes item.before⟩
      obtain ⟨atItem, opens⟩ := Cursor.skipValueIn_open frame outer isBlank isBlankBefore isSolid
        spare place (tail ++ others)
      obtain ⟨between, atLater, enoughLater, passes⟩ :=
        pass.1 others [] endsItem isBlank_nil (frame :: outer) spare atItem
          (by simp only [← isLater, List.length_append]; omega)
      rw [← isLater] at enoughLater
      obtain ⟨last, next, enoughRest, passesLater⟩ :=
        skipRest_listed pass.2 rest item.after outer atLater enoughLater
      rw [List.nil_append, begins, List.cons_append] at passes
      refine ⟨last, next, enoughRest, ?_⟩
      simp only [enclosed, listed, Cursor.lead, begins, List.append_assoc, List.cons_append,
        isLater] at opens ⊢
      rw [opens, passes, ← isLater, passesLater]

/-- Every value is passed over, however deep it is. -/
theorem IsValue.passesOver {value : List UInt8} (isValue : IsValue value) : PassesOver value := by
  induction isValue with
  | literal word =>
      exact passesOver_of_skipScalar (fun rest _ => Cursor.skipScalar_literal word rest)
        (IsValue.literal word).exists_cons
  | number numeral =>
      exact passesOver_of_skipScalar (fun rest ends => Cursor.skipScalar_numeral numeral ends)
        (IsValue.number numeral).exists_cons
  | string isString =>
      exact passesOver_of_skipScalar (fun rest _ => Cursor.skipScalar_string isString rest)
        (IsValue.string isString).exists_cons
  | list inside values inductionHypothesis =>
      exact passesOver_enclosed .list
        (fun element member => (values element member).exists_cons)
        (fun element member => passesOver_element (inductionHypothesis element member)) inside
  | object inside names values inductionHypothesis =>
      refine passesOver_enclosed .object ?_ ?_ inside
      · intro item member
        obtain ⟨entry, isEntry, rfl⟩ := List.mem_map.mp member
        obtain ⟨body, isName⟩ := (names entry isEntry).exists_cons
        rw [Entry.item, isName]
        exact ⟨_, _, rfl, rfl, by decide, by decide⟩
      · intro item member
        obtain ⟨entry, isEntry, rfl⟩ := List.mem_map.mp member
        exact passesOver_entry (names entry isEntry) (inductionHypothesis entry isEntry)

theorem skipValue_of_isValue {value rest blank : List UInt8} (isValue : IsValue value)
    (ends : Number.EndsNumber rest) (isBlank : IsBlank blank) {fuel : Nat}
    (enough : (value ++ rest).length ≤ fuel) (place : Place) :
    ∃ next, (⟨place, blank ++ (value ++ rest)⟩ : Cursor).skipValue fuel = .ok ⟨next, rest⟩ := by
  obtain ⟨spare, next, -, passes⟩ :=
    isValue.passesOver rest blank ends isBlank [] fuel place enough
  refine ⟨next, ?_⟩
  rw [Cursor.skipValue, passes]
  cases spare <;> rfl

end Json
end FieldLine
