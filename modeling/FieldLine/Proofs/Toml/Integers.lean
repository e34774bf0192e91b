import FieldLine.Proofs.Text.Digits
import FieldLine.Toml.Value
import Mathlib.Data.List.TakeWhile

/-!
# Integers in every spelling

An integer may have a sign, a base and underscores between its digits.  At the end of a line it is
read as its value, unless that takes more than 64 bits.
-/

namespace FieldLine
namespace Toml

/-! ## Digits -/

theorem ne_of_isDigit {c other : Char} (digit : Decimal.isDigit c = true)
    (noDigit : Decimal.isDigit other = false) : c ≠ other := by
  rintro rfl
  rw [digit] at noDigit
  cases noDigit

/-- Digits, each of them but the first with an underscore before it or without one. -/
structure Digits (isDigit : Char → Bool) where
  first : Char
  more : List (Bool × Char)
  isFirst : isDigit first = true
  areMore : ∀ digit ∈ more, isDigit digit.2 = true

namespace Digits

variable {isDigit : Char → Bool}

def spread (more : List (Bool × Char)) : List Char :=
  more.flatMap fun (apart, c) => if apart then ['_', c] else [c]

def chars (digits : Digits isDigit) : List Char :=
  digits.first :: spread digits.more

/-- The digits without underscores. -/
def values (digits : Digits isDigit) : List Char :=
  digits.first :: digits.more.map Prod.snd

theorem mem_chars (digits : Digits isDigit) {c : Char} (member : c ∈ digits.chars) :
    isDigit c = true ∨ c = '_' := by
  rcases List.mem_cons.mp member with rfl | memberMore
  · exact .inl digits.isFirst
  · obtain ⟨⟨apart, d⟩, digitMember, memberDigit⟩ := List.mem_flatMap.mp memberMore
    have digit := digits.areMore _ digitMember
    cases apart with
    | true =>
        rcases List.mem_cons.mp memberDigit with rfl | same
        · exact .inr rfl
        · exact .inl (List.mem_singleton.mp same ▸ digit)
    | false => exact .inl (List.mem_singleton.mp memberDigit ▸ digit)

section

variable (noMark : isDigit '_' = false) (noBreak : isDigit '\n' = false)
include noMark noBreak

theorem readDigitsAfter_spread {more : List (Bool × Char)}
    (areDigits : ∀ digit ∈ more, isDigit digit.2 = true) (done rest : List Char) :
    readDigitsAfter isDigit done (spread more ++ '\n' :: rest) =
      some (done.reverse ++ more.map Prod.snd, '\n' :: rest) := by
  induction more generalizing done with
  | nil =>
      rw [spread, List.flatMap_nil, List.nil_append, readDigitsAfter,
        if_neg (Bool.eq_false_iff.mp noBreak), List.map_nil, List.append_nil]
      · exact fun _ _ isMark _ => absurd isMark (by decide)
      · exact fun isMark _ => absurd isMark (by decide)
  | cons digit later inductionHypothesis =>
      obtain ⟨apart, c⟩ := digit
      rw [List.forall_mem_cons] at areDigits
      have next := inductionHypothesis areDigits.2 (c :: done)
      rw [List.reverse_cons, List.append_assoc, List.singleton_append] at next
      rw [List.map_cons, ← next, spread, List.flatMap_cons]
      cases apart with
      | true =>
          exact if_pos areDigits.1
      | false =>
          have notMark : c ≠ '_' := by
            rintro rfl
            exact absurd areDigits.1 (Bool.eq_false_iff.mp noMark)
          dsimp only
          rw [if_neg Bool.false_ne_true, List.singleton_append, List.cons_append, readDigitsAfter,
            if_pos areDigits.1]
          · rfl
          · exact fun _ _ isMark _ => notMark isMark
          · exact fun isMark _ => notMark isMark

theorem readDigits_chars (digits : Digits isDigit) (rest : List Char) :
    readDigits isDigit (digits.chars ++ '\n' :: rest) = some (digits.values, '\n' :: rest) := by
  rw [chars, List.cons_append, readDigits, if_pos digits.isFirst,
    readDigitsAfter_spread noMark noBreak digits.areMore]
  rfl

end

end Digits

/-! ## Integers -/

/-- A base other than ten. -/
inductive Base where
  | hexadecimal
  | octal
  | binary

namespace Base

def letter : Base → Char
  | hexadecimal => 'x'
  | octal => 'o'
  | binary => 'b'

def number : Base → Nat
  | hexadecimal => 16
  | octal => 8
  | binary => 2

def isDigit (base : Base) (c : Char) : Bool :=
  (Hex.value? c).any (· < base.number)

end Base

/-- An integer as it is written.  A decimal one begins with a zero only if it is zero. -/
inductive Integer where
  | decimal (sign : Option Bool) (digits : Digits Decimal.isDigit)
      (noLeadingZero : digits.first = '0' → digits.more = [])
  | based (base : Base) (digits : Digits base.isDigit)

namespace Integer

def chars : Integer → List Char
  | decimal sign digits _ =>
      (sign.map fun negative => if negative then '-' else '+').toList ++ digits.chars
  | based base digits => '0' :: base.letter :: digits.chars

def negative : Integer → Bool
  | decimal sign _ _ => sign.getD false
  | based _ _ => false

def magnitude : Integer → Nat
  | decimal _ digits _ => Decimal.value digits.values
  | based base digits => valueIn base.number digits.values

def value (integer : Integer) : Int :=
  if integer.negative then -integer.magnitude else integer.magnitude

/-- Whether the value takes no more than 64 bits. -/
def Fits (integer : Integer) : Prop :=
  -9223372036854775808 ≤ integer.value ∧ integer.value ≤ 9223372036854775807

instance (integer : Integer) : Decidable integer.Fits :=
  inferInstanceAs (Decidable (_ ∧ _))

theorem integer?_of_fits {integer : Integer} (fits : integer.Fits) :
    integer? integer.negative integer.magnitude = some (.integer integer.value) := by
  obtain ⟨atLeast, atMost⟩ := fits
  unfold value at *
  rw [integer?]
  split
  · rename_i isNegative
    rw [if_pos isNegative] at atLeast
    exact if_pos (by omega)
  · rename_i notNegative
    rw [if_neg notNegative] at atMost
    exact if_pos (by omega)

end Integer

theorem readSign_of_isDigit {c : Char} (digit : Decimal.isDigit c = true) (later : List Char) :
    readSign (c :: later) = (false, c :: later) := by
  rw [readSign]
  · exact fun _ isMinus => ne_of_isDigit digit rfl (List.cons.inj isMinus).1
  · exact fun _ isPlus => ne_of_isDigit digit rfl (List.cons.inj isPlus).1

theorem readWhole_chars {digits : Digits Decimal.isDigit}
    (noLeadingZero : digits.first = '0' → digits.more = []) (rest : List Char) :
    readWhole (digits.chars ++ '\n' :: rest) = some (digits.values, '\n' :: rest) := by
  by_cases isZero : digits.first = '0'
  · rw [Digits.chars, Digits.values, noLeadingZero isZero, isZero]
    rfl
  · rw [← Digits.readDigits_chars (by decide) (by decide) digits rest, Digits.chars,
      List.cons_append, readWhole]
    exact fun _ same => isZero (List.cons.inj same).1

/-- A digit is not followed by a letter. -/
theorem chars_ne_base (digits : Digits Decimal.isDigit) (base : Base) (rest later : List Char) :
    digits.chars ++ '\n' :: rest ≠ '0' :: base.letter :: later := by
  intro same
  rw [Digits.chars, List.cons_append] at same
  have second := (List.cons.inj same).2
  rcases spread : Digits.spread digits.more with _ | ⟨c, others⟩
  · rw [spread] at second
    have isBreak : '\n' = base.letter := (List.cons.inj second).1
    cases base <;> exact absurd isBreak (by decide)
  · rw [spread] at second
    have isLetter : c = base.letter := (List.cons.inj second).1
    have digitOrMark := digits.mem_chars
      (List.mem_cons_of_mem _ (spread ▸ List.mem_cons_self : c ∈ Digits.spread digits.more))
    rw [isLetter] at digitOrMark
    cases base <;> exact absurd digitOrMark (by decide)

/-- What follows a sign, if there is one. -/
theorem readNumber_decimal {digits : Digits Decimal.isDigit}
    (noLeadingZero : digits.first = '0' → digits.more = []) {text rest : List Char}
    {negative : Bool} (sign : readSign text = (negative, digits.chars ++ '\n' :: rest))
    (noBase : ∀ (base : Base) (later : List Char), text ≠ '0' :: base.letter :: later) :
    readNumber text =
      (integer? negative (Decimal.value digits.values)).map (·, '\n' :: rest) := by
  rw [readNumber, sign]
  · dsimp only
    rw [Digits.chars, List.cons_append]
    split
    · rename_i isWord
      exact absurd (List.cons.inj isWord).1 (ne_of_isDigit digits.isFirst rfl)
    · rename_i isWord
      exact absurd (List.cons.inj isWord).1 (ne_of_isDigit digits.isFirst rfl)
    · rw [← List.cons_append, ← Digits.chars, readWhole_chars noLeadingZero]
      rfl
  · exact noBase .hexadecimal
  · exact noBase .octal
  · exact noBase .binary

theorem readNumber_chars (integer : Integer) (rest : List Char) :
    readNumber (integer.chars ++ '\n' :: rest) =
      (integer? integer.negative integer.magnitude).map (·, '\n' :: rest) := by
  cases integer with
  | decimal sign digits noLeadingZero =>
      rcases sign with _ | _ | _
      · refine readNumber_decimal noLeadingZero ?_ fun base later => chars_ne_base digits base _ _
        rw [Integer.chars, Digits.chars]
        exact readSign_of_isDigit digits.isFirst _
      · refine readNumber_decimal noLeadingZero rfl fun base later same => ?_
        exact absurd (List.cons.inj same).1 (by decide)
      · refine readNumber_decimal noLeadingZero rfl fun base later same => ?_
        exact absurd (List.cons.inj same).1 (by decide)
  | based base digits =>
      have reads := Digits.readDigits_chars (by cases base <;> decide) (by cases base <;> decide)
        digits rest
      have isBased : readNumber ((Integer.based base digits).chars ++ '\n' :: rest) =
          readBased base.number (digits.chars ++ '\n' :: rest) := by
        cases base <;> rfl
      rw [isBased, readBased]
      change (readDigits base.isDigit _).bind _ = _
      rw [reads, Option.bind_some, Integer.negative, Integer.magnitude]
      change (integer? false (valueIn base.number digits.values)).bind _ = _
      rcases integer? false (valueIn base.number digits.values) with _ | number <;> rfl

/-! ## Dates -/

/-- What follows some digits at the end of a line is among them or the line break. -/
theorem head?_of_readField {chars rest : List Char} {count value : Nat} {later : List Char}
    (reads : readField count (chars ++ '\n' :: rest) = some (value, later)) :
    ∃ c others, later = c :: others ∧ (c ∈ chars.drop count ∨ c = '\n') := by
  simp only [readField] at reads
  split at reads
  · rename_i taken
    rw [Bool.and_eq_true, List.all_eq_true] at taken
    cases reads
    have within : count ≤ chars.length := by
      by_contra beyond
      have someMore : count - chars.length = count - chars.length - 1 + 1 := by omega
      have lineBreak : '\n' ∈ (chars ++ '\n' :: rest).take count := by
        rw [List.take_append, someMore, List.take_succ_cons]
        exact List.mem_append_right _ List.mem_cons_self
      exact absurd (taken.2 _ lineBreak) (by decide)
    rw [List.drop_append_of_le_length within]
    rcases left : chars.drop count with _ | ⟨c, others⟩
    · exact ⟨'\n', rest, rfl, .inr rfl⟩
    · exact ⟨c, _, rfl, .inl List.mem_cons_self⟩
  · cases reads

theorem skipHour_eq_none {chars : List Char} (noColon : ':' ∉ chars) (rest : List Char) :
    skipHour (chars ++ '\n' :: rest) = none := by
  rw [skipHour, readUpTo]
  rcases reads : readField 2 (chars ++ '\n' :: rest) with _ | ⟨value, later⟩
  · rfl
  · obtain ⟨c, others, rfl, memberOrBreak⟩ := head?_of_readField reads
    have notColon : c ≠ ':' := by
      rintro rfl
      rcases memberOrBreak with member | isBreak
      · exact noColon (List.mem_of_mem_drop member)
      · exact absurd isBreak (by decide)
    simp only [bind, Option.bind]
    split
    · rfl
    · rename_i inRange
      split at inRange
      · cases inRange
        exact if_neg notColon
      · cases inRange

/-- A number at the end of a line is not taken for the start of a date. -/
theorem skipDate?_eq_none {chars : List Char} (noMinus : '-' ∉ chars.tail) (noColon : ':' ∉ chars)
    (rest : List Char) : skipDate? (chars ++ '\n' :: rest) = none := by
  rw [skipDate?]
  split
  · rename_i reads
    obtain ⟨c, others, same, memberOrBreak⟩ := head?_of_readField reads
    obtain ⟨rfl, -⟩ := List.cons.inj same
    rcases memberOrBreak with member | isBreak
    · rw [← List.drop_one] at noMinus
      rw [← List.drop_drop (i := 3) (j := 1)] at member
      exact absurd (List.mem_of_mem_drop member) noMinus
    · exact absurd isBreak (by decide)
  · rw [skipHour_eq_none noColon]
    rfl

/-! ## Values -/

theorem readValue_eq_readPlain {c : Char} (notArray : c ≠ '[') (notTable : c ≠ '\x7b')
    (depth : Nat) (later : List Char) : readValue depth (c :: later) = readPlain (c :: later) := by
  cases depth with
  | zero => rfl
  | succ depth =>
      rw [readValue]
      dsimp only
      split
      · rename_i isArray
        exact absurd (List.cons.inj isArray).1 notArray
      · rename_i isTable
        exact absurd (List.cons.inj isTable).1 notTable
      · rfl

namespace Integer

/-- An integer begins with a sign or a digit. -/
theorem exists_cons (integer : Integer) :
    ∃ c later, integer.chars = c :: later ∧ (c = '-' ∨ c = '+' ∨ Decimal.isDigit c = true) := by
  cases integer with
  | decimal sign digits _ =>
      rcases sign with _ | _ | _
      · exact ⟨digits.first, _, rfl, .inr (.inr digits.isFirst)⟩
      · exact ⟨'+', _, rfl, .inr (.inl rfl)⟩
      · exact ⟨'-', _, rfl, .inl rfl⟩
  | based base digits => exact ⟨'0', _, rfl, .inr (.inr (by decide))⟩

theorem ne_of_mem_digits {isDigit : Char → Bool} {digits : Digits isDigit} {c other : Char}
    (member : c ∈ digits.chars) (noDigit : isDigit other = false) (notMark : other ≠ '_') :
    c ≠ other := by
  rintro rfl
  rcases digits.mem_chars member with digit | isMark
  · rw [noDigit] at digit
    cases digit
  · exact notMark isMark

/-- Only the sign of an integer can be taken for a part of a date. -/
theorem no_date_of_mem_tail (integer : Integer) {c : Char} (member : c ∈ integer.chars.tail) :
    c ≠ '-' ∧ c ≠ ':' := by
  cases integer with
  | decimal sign digits _ =>
      have memberDigits : c ∈ digits.chars := by
        rcases sign with _ | _ | _
        · exact List.mem_of_mem_tail member
        · exact member
        · exact member
      exact ⟨ne_of_mem_digits memberDigits (by decide) (by decide),
        ne_of_mem_digits memberDigits (by decide) (by decide)⟩
  | based base digits =>
      rcases List.mem_cons.mp member with rfl | memberDigits
      · cases base <;> decide
      · exact ⟨ne_of_mem_digits memberDigits (by cases base <;> decide) (by decide),
          ne_of_mem_digits memberDigits (by cases base <;> decide) (by decide)⟩

end Integer

/-- A natural number is written as its digits. -/
theorem exists_integer (n : Nat) :
    ∃ integer : Integer, integer.chars = Nat.toDigits 10 n ∧ integer.value = n := by
  rcases digits : Nat.toDigits 10 n with _ | ⟨c, later⟩
  · exact absurd digits Nat.toDigits_ne_nil
  have areDigits : ∀ d ∈ c :: later, Decimal.isDigit d = true := fun d member =>
    Decimal.isDigit_of_mem_toDigits (digits ▸ member)
  obtain ⟨isFirst, areMore⟩ := List.forall_mem_cons.mp areDigits
  let written : Digits Decimal.isDigit := {
    first := c
    more := later.map (false, ·)
    isFirst := isFirst
    areMore := by
      intro digit member
      obtain ⟨d, memberLater, rfl⟩ := List.mem_map.mp member
      exact areMore d memberLater }
  have chars : written.chars = c :: later := by
    simp [written, Digits.chars, Digits.spread, List.flatMap_map]
  have values : written.values = c :: later := by
    simp [written, Digits.values, Function.comp_def]
  have noLeadingZero : written.first = '0' → written.more = [] := by
    intro isZero
    have nothing : n = 0 := by
      apply Decimal.eq_zero_of_head?_toDigits
      rw [digits, List.head?_cons]
      exact congrArg some isZero
    rw [nothing, Nat.toDigits_zero] at digits
    exact congrArg (List.map _) (List.cons.inj digits).2.symm
  refine ⟨.decimal none written noLeadingZero, chars, ?_⟩
  change (Decimal.value written.values : Int) = n
  rw [values, ← digits, Decimal.value_toDigits]

/-- An integer at the end of a line is a value if and only if it fits in 64 bits. -/
theorem readValue_integer (integer : Integer) (depth : Nat) (rest : List Char) :
    readValue depth (integer.chars ++ '\n' :: rest) =
      (integer? integer.negative integer.magnitude).map fun number =>
        (.number number, '\n' :: rest) := by
  obtain ⟨c, later, begins, signOrDigit⟩ := integer.exists_cons
  have noMinus : '-' ∉ integer.chars.tail := fun member =>
    (integer.no_date_of_mem_tail member).1 rfl
  have noColon : ':' ∉ integer.chars := by
    intro member
    rw [begins] at member
    rcases List.mem_cons.mp member with rfl | memberLater
    · exact absurd signOrDigit (by decide)
    · exact (integer.no_date_of_mem_tail (begins ▸ memberLater)).2 rfl
  have noDate := skipDate?_eq_none noMinus noColon rest
  have number := readNumber_chars integer rest
  have differs {other : Char} (notSign : other ≠ '-' ∧ other ≠ '+')
      (noDigit : Decimal.isDigit other = false) : c ≠ other := by
    rcases signOrDigit with rfl | rfl | digit
    · exact notSign.1.symm
    · exact notSign.2.symm
    · exact ne_of_isDigit digit noDigit
  rw [begins, List.cons_append] at noDate number ⊢
  rw [readValue_eq_readPlain (differs (by decide) rfl) (differs (by decide) rfl), readPlain, noDate,
    number]
  · rcases integer? integer.negative integer.magnitude with _ | found <;> rfl
  all_goals exact fun _ same => differs (by decide) rfl (List.cons.inj same).1

end Toml
end FieldLine
