import FieldLine.Text.Decimal

/-!
# Decimal digits of numbers

The digits that a number is written with denote it, and begin with a zero only for zero.  Digits
that denote a number and do not begin with a zero are those that it is written with.
-/

namespace FieldLine
namespace Decimal

theorem isDigit_of_isDigit {c : Char} (digit : c.isDigit = true) : isDigit c = true := by
  simpa [isDigit, Char.isDigit, Char.le_def] using digit

theorem isDigit_of_mem_toDigits {n : Nat} {c : Char} (member : c ∈ Nat.toDigits 10 n) :
    isDigit c = true :=
  isDigit_of_isDigit (Nat.isDigit_of_mem_toDigits (by decide) (by decide) member)

theorem value_toDigits (n : Nat) : value (Nat.toDigits 10 n) = n :=
  Nat.ofDigitChars_ten_toDigits

/-- Only zero is written with a zero before other digits. -/
theorem eq_zero_of_head?_toDigits {n : Nat} (zero : (Nat.toDigits 10 n).head? = some '0') :
    n = 0 := by
  induction n using Nat.base_induction 10 (by decide) with
  | single n small =>
      rw [Nat.toDigits_of_lt_base small] at zero
      revert n
      decide
  | digit n k kSmall positive inductionHypothesis =>
      rw [← Nat.toDigits_append_toDigits (by decide) positive kSmall, List.head?_append,
        List.head?_eq_some_head Nat.toDigits_ne_nil, Option.some_or,
        ← List.head?_eq_some_head Nat.toDigits_ne_nil] at zero
      exact absurd (inductionHypothesis zero) (Nat.ne_of_gt positive)

theorem value_zero_cons (digits : List Char) : value ('0' :: digits) = value digits :=
  rfl

theorem digitValue_lt {c : Char} (digit : isDigit c = true) : digitValue c < 10 := by
  simp only [isDigit, Bool.and_eq_true, decide_eq_true_eq] at digit
  have atMost : c.toNat ≤ '9'.toNat := digit.2
  have zero : '0'.toNat = 48 := rfl
  have nine : '9'.toNat = 57 := rfl
  rw [digitValue]
  omega

theorem digitChar_digitValue {c : Char} (digit : isDigit c = true) :
    Nat.digitChar (digitValue c) = c := by
  have small := digitValue_lt digit
  simp only [isDigit, Bool.and_eq_true, decide_eq_true_eq] at digit
  have atLeast : '0'.toNat ≤ c.toNat := digit.1
  have zero : '0'.toNat = 48 := rfl
  apply Char.toNat_inj.mp
  rw [Nat.toNat_digitChar_of_lt_ten small, digitValue]
  omega

theorem toDigits_digitValue {c : Char} (digit : isDigit c = true) :
    Nat.toDigits 10 (digitValue c) = [c] := by
  rw [Nat.toDigits_of_lt_base (digitValue_lt digit), digitChar_digitValue digit]

/-- Digits after a number other than zero are the last digits of the number that they continue. -/
theorem toDigits_append_digits {n : Nat} {digits : List Char} (positive : 0 < n)
    (allDigits : ∀ c ∈ digits, isDigit c = true) :
    Nat.toDigits 10 n ++ digits =
      Nat.toDigits 10 (digits.foldl (fun total c => 10 * total + digitValue c) n) := by
  induction digits generalizing n with
  | nil => rw [List.append_nil, List.foldl_nil]
  | cons c rest inductionHypothesis =>
      obtain ⟨digit, others⟩ := List.forall_mem_cons.mp allDigits
      have longer : 0 < 10 * n + digitValue c := by omega
      have next : Nat.toDigits 10 n ++ [c] = Nat.toDigits 10 (10 * n + digitValue c) := by
        rw [← toDigits_digitValue digit]
        exact Nat.toDigits_append_toDigits (by decide) positive (digitValue_lt digit)
      rw [List.foldl_cons, ← inductionHypothesis longer others, ← next, List.append_assoc]
      rfl

/-- Digits that do not begin with a zero are those that their value is written with. -/
theorem toDigits_value {c : Char} {rest : List Char} (notZero : c ≠ '0')
    (allDigits : ∀ d ∈ c :: rest, isDigit d = true) :
    Nat.toDigits 10 (value (c :: rest)) = c :: rest := by
  obtain ⟨digit, others⟩ := List.forall_mem_cons.mp allDigits
  have positive : 0 < digitValue c := by
    apply Nat.pos_of_ne_zero
    intro zero
    have same := digitChar_digitValue digit
    rw [zero] at same
    exact notZero same.symm
  have first : value (c :: rest) =
      rest.foldl (fun total c => 10 * total + digitValue c) (digitValue c) := by
    rw [value, List.foldl_cons, Nat.mul_zero, Nat.zero_add]
  rw [first, ← toDigits_append_digits positive others, toDigits_digitValue digit]
  rfl

end Decimal
end FieldLine
