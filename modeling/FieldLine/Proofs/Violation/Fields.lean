import FieldLine.Proofs.Json.Passing
import FieldLine.Proofs.Results
import FieldLine.Violation.Reading

/-!
# Fields of violation records

What a field says is a text or a line.  It is read from the bytes that it can be written with, and
from no other value.
-/

namespace FieldLine

namespace Json.Number

/-! ## Natural numbers -/

/-- If all digits are taken, they make up their value. -/
theorem value_of_accumulate {digits : List Char}
    (allDigits : ∀ c ∈ digits, Decimal.isDigit c = true) {bound value taken last : Nat}
    (accumulates : accumulate bound (digits.map byte) value taken =
      (last, taken + digits.length)) :
    last = digits.foldl (fun total c => 10 * total + Decimal.digitValue c) value := by
  induction digits generalizing value taken with
  | nil =>
      cases accumulates
      rfl
  | cons c later inductionHypothesis =>
      rw [List.forall_mem_cons] at allDigits
      rw [List.map_cons, accumulate, (byte_of_isDigit allDigits.1).2.1] at accumulates
      split at accumulates
      · apply inductionHypothesis allDigits.2
        rw [accumulates, List.length_cons, Nat.add_right_comm, Nat.add_assoc]
      · have none : taken = taken + (c :: later).length := congrArg Prod.snd accumulates
        rw [List.length_cons] at none
        omega

theorem toDigits_whole (numeral : JsonSyntax.Number) :
    Nat.toDigits 10 (Decimal.value numeral.whole.chars) = numeral.whole.chars := by
  have digits := numeral.whole.digits
  have noLeadingZero := numeral.noLeadingZero
  obtain ⟨c, later, begins⟩ := List.exists_cons_of_ne_nil numeral.whole.someDigit
  by_cases isZero : c = '0'
  · rw [begins, isZero] at noLeadingZero
    rw [begins, isZero, noLeadingZero rfl]
    rfl
  · rw [begins] at digits ⊢
    exact Decimal.toDigits_value isZero fun d member =>
      Decimal.isDigit_of_isDigit (digits d member)

/-- Of all numbers, only those that are written as a natural number are read as one. -/
theorem unsigned_of_read {numeral : JsonSyntax.Number} {rest : List UInt8}
    (ends : EndsNumber rest) {place : Place} {value : Nat} {next : Cursor}
    (reads : read ⟨place, unsigned numeral ++ rest⟩ true = .ok (.natural value, next)) :
    unsigned numeral = written value ∧ next.rest = rest := by
  obtain ⟨noDigit, -⟩ := head?_exponentChars numeral ends
  obtain ⟨-, isNext, accumulates, noPoint, noExponent⟩ := of_read_natural reads
  generalize isAfter : numeral.fractionChars.map byte ++
    (numeral.exponentChars.map byte ++ rest) = after
  have shape : unsigned numeral ++ rest = numeral.whole.chars.map byte ++ after := by
    rw [unsigned, ← isAfter, List.append_assoc, List.append_assoc]
  have endsWhole : after.head?.any isDigit = false := by
    rw [← isAfter, JsonSyntax.Number.fractionChars]
    rcases numeral.fraction with _ | places
    · exact noDigit
    · rfl
  rw [shape, digits_append (isDigit_of_mem_digits numeral.whole) endsWhole] at isNext accumulates
  rw [skip_append] at isNext
  subst isNext
  have noFraction : numeral.fractionChars = [] := by
    rcases found : numeral.fraction with _ | places
    · rw [JsonSyntax.Number.fractionChars, found]
    · rw [← isAfter, JsonSyntax.Number.fractionChars, found] at noPoint
      exact absurd rfl noPoint
  have noPower : numeral.exponentChars = [] := by
    rw [← isAfter, noFraction] at noExponent
    rcases found : numeral.exponent with _ | ⟨capital, negative, digits⟩
    · rw [JsonSyntax.Number.exponentChars, found]
    · rw [JsonSyntax.Number.exponentChars, found] at noExponent
      cases capital <;> cases noExponent
  rw [noFraction, noPower] at isAfter
  rw [List.length_map, ← Nat.zero_add numeral.whole.chars.length] at accumulates
  have isValue := value_of_accumulate
    (fun c member => Decimal.isDigit_of_isDigit (numeral.whole.digits c member)) accumulates
  refine ⟨?_, isAfter.symm⟩
  rw [unsigned, noFraction, noPower, List.map_nil, List.append_nil, List.append_nil, written,
    isValue, ← Decimal.value, toDigits_whole]

end Json.Number

namespace Violation

open Json (Cursor IsBlank IsString IsValue Spells byte)
open Json.Number (EndsNumber)

/-! ## What fields say -/

inductive Datum where
  | text (content : String)
  | line (number : Option Nat)

/-- The bytes that a datum can be written with. -/
def Datum.IsWritten : Datum → List UInt8 → Prop
  | .text content, written => Spells content written
  | .line none, written => written = ['n', 'u', 'l', 'l'].map byte
  | .line (some number), written => number < wordBound ∧ written = Json.Number.written number

/-- What a field says if it is missing. -/
def Field.default? : Field → Option Datum
  | rule => none
  | file => none
  | path => none
  | line => some (.line none)
  | severity => some (.text "")
  | category => some (.text "")

def datum (violation : Violation) : Field → Datum
  | .rule => .text violation.rule
  | .file => .text violation.file
  | .path => .text violation.path
  | .line => .line violation.line
  | .severity => .text violation.severity
  | .category => .text violation.category

theorem Datum.isValue {datum : Datum} {written : List UInt8} (isWritten : datum.IsWritten written) :
    IsValue written := by
  rcases datum with content | _ | number
  · exact .string isWritten.isString
  · cases isWritten
    exact .literal .null
  · obtain ⟨-, rfl⟩ := isWritten
    exact Json.isValue_written number

namespace Draft

def datum? (draft : Draft) : Field → Option Datum
  | .rule => draft.rule.map .text
  | .file => draft.file.map .text
  | .path => draft.path.map .text
  | .line => draft.line.map .line
  | .severity => draft.severity.map .text
  | .category => draft.category.map .text

theorem datum?_empty (field : Field) : ({} : Draft).datum? field = none := by
  cases field <;> rfl

theorem has_eq (draft : Draft) (field : Field) :
    draft.has field = (draft.datum? field).isSome := by
  cases field <;> exact (Option.isSome_map ..).symm

/-- A draft in which one field has been set. -/
def Sets (draft : Draft) (field : Field) (datum : Datum) (changed : Draft) : Prop :=
  changed.datum? field = some datum ∧
    ∀ other, other ≠ field → changed.datum? other = draft.datum? other

/-- A draft gives a record if every field says the same in both, by default or not. -/
theorem finish_eq_ok_iff {draft : Draft} {violation : Violation} :
    draft.finish = .ok violation ↔
      ∀ field, (draft.datum? field).or field.default? = some (violation.datum field) := by
  obtain ⟨rule, file, path, line, severity, category⟩ := draft
  constructor
  · intro finishes
    rcases rule with _ | rule
    · cases finishes
    rcases file with _ | file
    · cases finishes
    rcases path with _ | path
    · cases finishes
    cases finishes
    intro field
    cases field
    · rfl
    · rfl
    · rfl
    · cases line <;> rfl
    · cases severity <;> rfl
    · cases category <;> rfl
  · intro same
    have ruleSame := same .rule
    have fileSame := same .file
    have pathSame := same .path
    have lineSame := same .line
    have severitySame := same .severity
    have categorySame := same .category
    rcases rule with _ | rule
    · cases ruleSame
    rcases file with _ | file
    · cases fileSame
    rcases path with _ | path
    · cases pathSame
    obtain ⟨rule', file', path', line', severity', category'⟩ := violation
    cases ruleSame
    cases fileSame
    cases pathSame
    cases line <;> cases lineSame <;> cases severity <;> cases severitySame <;>
      cases category <;> cases categorySame <;> rfl

end Draft

/-! ## Texts -/

section

variable {blank written rest : List UInt8} {place : Json.Place} {next : Cursor}

theorem refuse_ne_ok {α : Type} (cursor : Cursor) (b : UInt8) (expected : String) (read : α) :
    refuse cursor b expected ≠ .ok read := by
  intro accepts
  rw [refuse] at accepts
  repeat' split at accepts
  all_goals
    obtain ⟨⟨found, last⟩, -, fault⟩ := exists_of_bind_eq_ok accepts
    cases fault

theorem readText_written {text : String} (spells : Spells text written) (isBlank : IsBlank blank)
    (rest : List UInt8) (place : Json.Place) :
    ∃ next, readText ⟨place, blank ++ (written ++ rest)⟩ = .ok (text, ⟨next, rest⟩) := by
  obtain ⟨body, rfl⟩ := spells.isString.exists_cons
  obtain ⟨between, skips⟩ :=
    Json.Cursor.skipSpace_solid (b := byte '"') rfl isBlank (body ++ rest) place
  obtain ⟨next, reads⟩ := Json.read_of_spells spells (between.after (byte '"')) rest
  refine ⟨next, ?_⟩
  rw [readText, List.cons_append, skips]
  simp only [if_true]
  exact reads

theorem spells_of_readText {text : String} (isValue : IsValue written) (isBlank : IsBlank blank)
    (reads : readText ⟨place, blank ++ (written ++ rest)⟩ = .ok (text, next)) :
    Spells text written ∧ next.rest = rest := by
  obtain ⟨b, later, rfl, solid⟩ := isValue.exists_cons
  obtain ⟨between, skips⟩ :=
    Json.Cursor.skipSpace_solid solid.1 isBlank (later ++ rest) place
  rw [readText, List.cons_append, skips] at reads
  dsimp only at reads
  split at reads
  · rename_i isQuote
    subst isQuote
    exact Json.spells_of_read isValue.isString reads
  · exact absurd reads (refuse_ne_ok _ _ _ _)

/-! ## Lines -/

theorem readLine_null (isBlank : IsBlank blank) (rest : List UInt8) (place : Json.Place) :
    ∃ next, readLine ⟨place, blank ++ (['n', 'u', 'l', 'l'].map byte ++ rest)⟩ =
      .ok (none, ⟨next, rest⟩) := by
  obtain ⟨between, skips⟩ :=
    Json.Cursor.skipSpace_solid (b := byte 'n') rfl isBlank (['u', 'l', 'l'].map byte ++ rest) place
  obtain ⟨next, skipsWord⟩ :=
    Json.Cursor.skipWord_encoded (between.after (byte 'n')) rest ['u', 'l', 'l']
  refine ⟨next, ?_⟩
  rw [readLine, List.map_cons, List.cons_append, skips]
  simp only [if_true, Json.Cursor.next, skipsWord]
  rfl

theorem readLine_digit {b : UInt8} (digit : Json.isDigit b = true) (isBlank : IsBlank blank)
    (later : List UInt8) (place : Json.Place) :
    ∃ between, readLine ⟨place, blank ++ b :: later⟩ =
      Json.Number.read ⟨between, b :: later⟩ true >>= fun (number, next) =>
        lineOfNumber number next := by
  obtain ⟨between, skips⟩ :=
    Json.Cursor.skipSpace_solid (Json.not_isSpace_of_isDigit digit) isBlank later place
  have notNull : b ≠ byte 'n' := Json.ne_of_isDigit digit rfl
  have notNegative : b ≠ byte '-' := Json.ne_of_isDigit digit rfl
  refine ⟨between, ?_⟩
  rw [readLine, skips]
  simp only [if_neg notNull, if_neg notNegative, digit, if_true]

theorem readLine_number {line : Nat} (small : line < wordBound) (ends : EndsNumber rest)
    (isBlank : IsBlank blank) (place : Json.Place) :
    ∃ next, readLine ⟨place, blank ++ (Json.Number.written line ++ rest)⟩ =
      .ok (some line, ⟨next, rest⟩) := by
  rcases begins : Json.Number.written line ++ rest with _ | ⟨b, later⟩
  · exact absurd (List.append_eq_nil_iff.mp begins).1 (Json.Number.written_ne_nil line)
  obtain ⟨between, readsLine⟩ :=
    readLine_digit (Json.Number.isDigit_of_begins begins) isBlank later place
  obtain ⟨next, reads⟩ := Json.Number.read_written small ends between
  refine ⟨next, ?_⟩
  rw [readsLine, ← begins, reads]
  rfl

theorem readLine_written {line : Option Nat} (isWritten : (Datum.line line).IsWritten written)
    (ends : EndsNumber rest) (isBlank : IsBlank blank) (place : Json.Place) :
    ∃ next, readLine ⟨place, blank ++ (written ++ rest)⟩ = .ok (line, ⟨next, rest⟩) := by
  cases line with
  | none =>
      cases isWritten
      exact readLine_null isBlank rest place
  | some number =>
      obtain ⟨small, rfl⟩ := isWritten
      exact readLine_number small ends isBlank place

theorem readLine_other {b : UInt8} (solid : Json.isSpace b = false) (notNull : b ≠ byte 'n')
    (notNegative : b ≠ byte '-') (noDigit : Json.isDigit b = false) (isBlank : IsBlank blank)
    (later : List UInt8) (place : Json.Place) (read : Option Nat × Cursor) :
    readLine ⟨place, blank ++ b :: later⟩ ≠ .ok read := by
  obtain ⟨between, skips⟩ := Json.Cursor.skipSpace_solid solid isBlank later place
  rw [readLine, skips]
  simp only [if_neg notNull, if_neg notNegative, noDigit]
  exact refuse_ne_ok _ _ _ _

theorem isWritten_of_readLine_numeral {line : Option Nat} (numeral : JsonSyntax.Number)
    (ends : EndsNumber rest) (isBlank : IsBlank blank)
    (reads : readLine ⟨place, blank ++ (numeral.chars.map byte ++ rest)⟩ = .ok (line, next)) :
    (Datum.line line).IsWritten (numeral.chars.map byte) ∧ next.rest = rest := by
  rw [Json.Number.map_byte_chars, List.append_assoc] at reads
  rw [Json.Number.map_byte_chars]
  generalize numeral.negative = negative at reads ⊢
  cases negative with
  | true =>
      -- A number with a minus sign is no line, not even zero.
      obtain ⟨between, skips⟩ := Json.Cursor.skipSpace_solid (b := byte '-') rfl isBlank
        (Json.Number.unsigned numeral ++ rest) place
      have readsMinus : readLine ⟨place, blank ++ byte '-' ::
          (Json.Number.unsigned numeral ++ rest)⟩ = .ok (line, next) := reads
      rw [readLine, skips] at readsMinus
      obtain ⟨⟨number, last⟩, readsNumber, isLine⟩ := exists_of_bind_eq_ok readsMinus
      cases number with
      | natural value => cases (Json.Number.of_read_natural readsNumber).1
      | negative magnitude => cases isLine
      | decimal text => cases isLine
  | false =>
      obtain ⟨b, later, begins, digit⟩ := Json.Number.exists_unsigned_cons numeral rest
      obtain ⟨between, readsLine⟩ := readLine_digit digit isBlank later place
      rw [if_neg Bool.false_ne_true, List.map_nil, List.nil_append] at reads ⊢
      rw [begins, readsLine, ← begins] at reads
      obtain ⟨⟨number, last⟩, readsNumber, isLine⟩ := exists_of_bind_eq_ok reads
      cases number with
      | natural value =>
          cases isLine
          obtain ⟨isWritten, atRest⟩ := Json.Number.unsigned_of_read ends readsNumber
          exact ⟨⟨Json.Number.lt_of_read_natural readsNumber, isWritten⟩, atRest⟩
      | negative magnitude => cases isLine
      | decimal text => cases isLine

theorem isWritten_of_readLine {line : Option Nat} (isValue : IsValue written)
    (ends : EndsNumber rest) (isBlank : IsBlank blank)
    (reads : readLine ⟨place, blank ++ (written ++ rest)⟩ = .ok (line, next)) :
    (Datum.line line).IsWritten written ∧ next.rest = rest := by
  cases isValue with
  | literal word =>
      rcases word with (_ | _) | _
      · exact absurd reads (readLine_other rfl (by decide) (by decide) rfl isBlank _ _ _)
      · exact absurd reads (readLine_other rfl (by decide) (by decide) rfl isBlank _ _ _)
      · obtain ⟨last, readsNull⟩ := readLine_null isBlank rest place
        rw [JsonSyntax.Literal.chars, readsNull] at reads
        cases reads
        exact ⟨rfl, rfl⟩
  | number numeral => exact isWritten_of_readLine_numeral numeral ends isBlank reads
  | string isString =>
      obtain ⟨body, rfl⟩ := isString.exists_cons
      exact absurd reads (readLine_other rfl (by decide) (by decide) rfl isBlank _ _ _)
  | list inside values =>
      exact absurd reads (readLine_other rfl (by decide) (by decide) rfl isBlank _ _ _)
  | object inside names values =>
      exact absurd reads (readLine_other rfl (by decide) (by decide) rfl isBlank _ _ _)

/-! ## Fields -/

theorem readField_written {violation : Violation} {field : Field}
    (isWritten : (violation.datum field).IsWritten written) (ends : EndsNumber rest)
    (isBlank : IsBlank blank) (draft : Draft) (place : Json.Place) :
    ∃ changed next,
      readField draft ⟨place, blank ++ (written ++ rest)⟩ field = .ok (changed, ⟨next, rest⟩) ∧
        draft.Sets field (violation.datum field) changed := by
  cases field with
  | line =>
      obtain ⟨next, reads⟩ := readLine_written isWritten ends isBlank place
      refine ⟨_, next, by rw [readField, reads]; rfl, rfl, ?_⟩
      intro other notLine
      cases other <;> trivial
  | _ =>
      obtain ⟨next, reads⟩ := readText_written isWritten isBlank rest place
      refine ⟨_, next, by rw [readField, reads]; rfl, rfl, ?_⟩
      intro other notField
      cases other <;> trivial

theorem isWritten_of_readField {draft changed : Draft} {field : Field} (isValue : IsValue written)
    (ends : EndsNumber rest) (isBlank : IsBlank blank)
    (reads : readField draft ⟨place, blank ++ (written ++ rest)⟩ field = .ok (changed, next)) :
    ∃ datum : Datum,
      datum.IsWritten written ∧ draft.Sets field datum changed ∧ next.rest = rest := by
  cases field with
  | line =>
      obtain ⟨⟨line, last⟩, readsLine, same⟩ := exists_of_map_eq_ok reads
      cases same
      obtain ⟨isWritten, atRest⟩ := isWritten_of_readLine isValue ends isBlank readsLine
      refine ⟨.line line, isWritten, ⟨rfl, ?_⟩, atRest⟩
      intro other notLine
      cases other <;> trivial
  | _ =>
      obtain ⟨⟨text, last⟩, readsText, same⟩ := exists_of_map_eq_ok reads
      cases same
      obtain ⟨spells, atRest⟩ := spells_of_readText isValue isBlank readsText
      refine ⟨.text text, spells, ⟨rfl, ?_⟩, atRest⟩
      intro other notField
      cases other <;> trivial

end

end Violation
end FieldLine
