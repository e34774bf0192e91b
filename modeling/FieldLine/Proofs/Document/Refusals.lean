import FieldLine.Proofs.Document.LineEndings

/-!
# Sources that are refused before they are parsed

A source without bytes and one that is not UTF-8 are refused before they are parsed.  Normalizing
line endings makes no difference to that.  A bad sequence keeps its length, and it begins earlier by
the carriage returns that are dropped before it.
-/

namespace FieldLine

open String (utf8EncodeChar)
open LineEnding (normalize pairCount carriageReturn lineFeed)

/-! ## Bad sequences in normalized bytes -/

namespace Utf8

variable {bytes begun : List UInt8} {length : Option Nat} {fault : Fault}

theorem le_of_width?_ne {b : UInt8} (notOne : width? b ≠ some 1) : 128 ≤ b.toNat := by
  have beyond := mt width?_eq_one_iff.mpr notOne
  omega

theorem le_of_width? {b : UInt8} {width : Nat} (isWidth : width? b = some width)
    (several : 2 ≤ width) : 128 ≤ b.toNat := by
  apply le_of_width?_ne
  rw [isWidth, ne_eq, Option.some.injEq]
  omega

theorem Begun.forall_mem_le (isBegun : Begun begun) : ∀ b ∈ begun, 128 ≤ b.toNat := by
  cases isBegun with
  | one isWidth several => simpa using le_of_width? isWidth several
  | two isWidth several second =>
      have isHigh := (isSecond_iff.mp second).1.1
      simpa using ⟨le_of_width? isWidth (Nat.le_of_succ_le several), isHigh⟩
  | three isWidth second third =>
      have isHigh := (isSecond_iff.mp second).1.1
      simpa using ⟨le_of_width? isWidth (by decide), isHigh, (isContinuation_iff.mp third).1⟩

theorem Begun.exists_cons (isBegun : Begun begun) :
    ∃ (first : UInt8) (rest : List UInt8), begun = first :: rest ∧ 128 ≤ first.toNat := by
  cases begun with
  | nil => cases isBegun
  | cons first rest => exact ⟨first, rest, rfl, isBegun.forall_mem_le first List.mem_cons_self⟩

theorem BeginsBadly.exists_cons (isBad : BeginsBadly bytes length) :
    ∃ (first : UInt8) (rest : List UInt8), bytes = first :: rest ∧ 128 ≤ first.toNat := by
  cases isBad with
  | noStart noWidth => exact ⟨_, _, rfl, le_of_width?_ne (noWidth ▸ nofun)⟩
  | notContinued isBegun =>
      obtain ⟨first, others, rfl, isHigh⟩ := isBegun.exists_cons
      exact ⟨first, _, rfl, isHigh⟩
  | ends isBegun => exact isBegun.exists_cons

theorem BeginsBadly.head?_ne (isBad : BeginsBadly bytes length) :
    bytes.head? ≠ some lineFeed := by
  obtain ⟨first, rest, rfl, isHigh⟩ := isBad.exists_cons
  rw [List.head?_cons, ne_eq, Option.some.injEq]
  rintro rfl
  exact absurd isHigh (by decide)

theorem continues_lineFeed (begun : List UInt8) : continues begun lineFeed = false := by
  rw [continues.eq_def]
  split
  · rw [isSecond]
    rfl
  · rfl

/-- The byte after a bad sequence may change, but not into one that belongs to it. -/
theorem BeginsBadly.normalize (isBad : BeginsBadly bytes length) :
    BeginsBadly (normalize bytes) length := by
  cases isBad with
  | @noStart first rest noWidth =>
      have wide : ∀ b ∈ [first], 128 ≤ b.toNat :=
        List.forall_mem_singleton.mpr (le_of_width?_ne (noWidth ▸ nofun))
      have kept := LineEnding.normalize_append_of_le wide rest
      rw [List.singleton_append] at kept
      rw [kept]
      exact .noStart noWidth
  | @notContinued begun rest next isBegun refuses =>
      obtain ⟨head, later, same, isNext | isFeed⟩ := LineEnding.exists_normalize_cons next rest
      · rw [LineEnding.normalize_append_of_le isBegun.forall_mem_le, same, isNext]
        exact .notContinued isBegun refuses
      · rw [LineEnding.normalize_append_of_le isBegun.forall_mem_le, same, isFeed]
        exact .notContinued isBegun (continues_lineFeed begun)
  | ends isBegun =>
      have kept := LineEnding.normalize_append_of_le isBegun.forall_mem_le []
      rw [List.append_nil, LineEnding.normalize_nil, List.append_nil] at kept
      rw [kept]
      exact .ends isBegun

theorem decode_normalize_of_error (refused : decode bytes = .error fault) :
    ∃ moved : Fault,
      decode (normalize bytes) = .error moved ∧ moved.badLength = fault.badLength ∧
        moved.validUpTo + pairCount (bytes.take fault.validUpTo) = fault.validUpTo := by
  obtain ⟨text, bad, rfl, sameLength, isBad⟩ := decode_eq_error_iff.mp refused
  have parts :
      normalize (text.flatMap utf8EncodeChar ++ bad) =
        (withoutReturns text).flatMap utf8EncodeChar ++ normalize bad := by
    rw [LineEnding.normalize_append (.inr isBad.head?_ne), LineEnding.normalize_encode]
  refine
    ⟨⟨((withoutReturns text).flatMap utf8EncodeChar).length, fault.badLength⟩,
      decode_eq_error_iff.mpr ⟨withoutReturns text, normalize bad, parts, rfl, isBad.normalize⟩,
      rfl, ?_⟩
  rw [List.take_left' sameLength, ← LineEnding.normalize_encode, LineEnding.length_normalize,
    sameLength]

end Utf8

/-! ## Refused sources -/

namespace Document

variable {bytes : List UInt8}

theorem exists_malformed_of_ofText {text : List Char} {fault : DocumentFault}
    (refused : ofText text = .error fault) :
    ∃ cause : Yaml.Fault, fault = .malformed cause := by
  rw [ofText] at refused
  split at refused
  · cases refused
  · cases refused
    exact ⟨_, rfl⟩

theorem ofBytes_eq_empty_iff : ofBytes bytes = .error .empty ↔ bytes = [] := by
  constructor
  · intro refused
    by_contra someByte
    rw [ofBytes, if_neg someByte] at refused
    split at refused
    · obtain ⟨cause, same⟩ := exists_malformed_of_ofText refused
      cases same
    · cases refused
  · rintro rfl
    rfl

theorem ofBytes_eq_encoding_iff {fault : Utf8.Fault} :
    ofBytes bytes = .error (.encoding fault) ↔ Utf8.decode bytes = .error fault := by
  by_cases noByte : bytes = []
  · subst noByte
    exact ⟨nofun, nofun⟩
  · rw [ofBytes, if_neg noByte]
    cases decodes : Utf8.decode bytes with
    | error other => simp
    | ok text =>
        simp only [reduceCtorEq, iff_false]
        intro refused
        obtain ⟨cause, same⟩ := exists_malformed_of_ofText refused
        cases same

/-- Normalized bytes are refused as empty or as not UTF-8 exactly if the bytes are.  In bytes that
are not UTF-8 the bad sequence keeps its length, or the bytes still end inside a character, and it
begins earlier by the number of pairs of a carriage return and a line feed before it. -/
theorem ofBytes_normalize_refused (bytes : List UInt8) :
    (ofBytes (normalize bytes) = .error .empty ↔ ofBytes bytes = .error .empty) ∧
      ((∃ fault : Utf8.Fault, ofBytes (normalize bytes) = .error (.encoding fault)) ↔
        ∃ fault : Utf8.Fault, ofBytes bytes = .error (.encoding fault)) ∧
      ∀ fault : Utf8.Fault,
        ofBytes bytes = .error (.encoding fault) →
          ∃ moved : Utf8.Fault,
            ofBytes (normalize bytes) = .error (.encoding moved) ∧
              moved.badLength = fault.badLength ∧
                moved.validUpTo + pairCount (bytes.take fault.validUpTo) = fault.validUpTo := by
  refine ⟨?_, ?_, ?_⟩
  · rw [ofBytes_eq_empty_iff, ofBytes_eq_empty_iff, LineEnding.normalize_eq_nil_iff]
  · simp only [ofBytes_eq_encoding_iff]
    constructor
    · intro isRefused
      obtain ⟨moved, refused⟩ := isRefused
      cases decodes : Utf8.decode bytes with
      | error fault => exact ⟨fault, rfl⟩
      | ok text =>
          rw [Utf8.decode_normalize_of_ok decodes] at refused
          cases refused
    · intro isRefused
      obtain ⟨fault, refused⟩ := isRefused
      obtain ⟨moved, movedRefused, -⟩ := Utf8.decode_normalize_of_error refused
      exact ⟨moved, movedRefused⟩
  · intro fault refused
    simp only [ofBytes_eq_encoding_iff] at refused ⊢
    exact Utf8.decode_normalize_of_error refused

/-- One pair stands before the bad sequence, which begins one byte earlier without its carriage
return.  The pair after it is normalized too, but its line feed does not continue the sequence. -/
theorem ofBytes_normalize_refused_cut_character :
    let bytes : List UInt8 := [97, 13, 10, 13, 0xE2, 0x82, 13, 10]
    ofBytes bytes = .error (.encoding ⟨4, some 2⟩) ∧
      normalize bytes = [97, 10, 13, 0xE2, 0x82, 10] ∧
        ofBytes (normalize bytes) = .error (.encoding ⟨3, some 2⟩) := by
  intro bytes
  have refused : ofBytes bytes = .error (.encoding ⟨4, some 2⟩) := rfl
  have onePair : pairCount (bytes.take 4) = 1 := by decide
  obtain ⟨⟨validUpTo, badLength⟩, movedRefused, sameLength, moves⟩ :=
    (ofBytes_normalize_refused bytes).2.2 _ refused
  rw [onePair] at moves
  obtain rfl : validUpTo = 3 := Nat.add_right_cancel moves
  obtain rfl : badLength = some 2 := sameLength
  exact ⟨refused, by decide, movedRefused⟩

end Document
end FieldLine
