import FieldLine.Text.Utf8
import Mathlib.Logic.Basic
import Mathlib.Tactic.SplitIfs

/-!
# Encoding and decoding of text

A byte sequence is UTF-8 exactly if it is the encoding of some characters, and these are the ones
it is decoded to.  All others are some encoded characters and a bad sequence after them, which is a
byte that begins no character, or the beginning of a character that is not continued, either by a
byte that cannot follow or because the bytes end.
-/

namespace FieldLine
namespace Utf8

/-! ## Bytes as numbers -/

theorem isContinuation_iff {b : UInt8} :
    isContinuation b = true ↔ 128 ≤ b.toNat ∧ b.toNat ≤ 191 := by
  simp [isContinuation, UInt8.le_iff_toNat_le]

theorem isSecond_iff {first second : UInt8} :
    isSecond first second = true ↔
      (128 ≤ second.toNat ∧ second.toNat ≤ 191) ∧
        (first.toNat = 224 → 160 ≤ second.toNat) ∧ (first.toNat = 237 → second.toNat ≤ 159) ∧
        (first.toNat = 240 → 144 ≤ second.toNat) ∧ (first.toNat = 244 → second.toNat ≤ 143) := by
  simp only [isSecond, Bool.and_eq_true, Bool.or_eq_true, decide_eq_true_eq, ne_eq,
    isContinuation_iff, UInt8.le_iff_toNat_le, ← UInt8.toNat_inj, ← imp_iff_not_or, and_assoc]
  rfl

theorem width?_eq_one_iff {b : UInt8} : width? b = some 1 ↔ b.toNat ≤ 127 := by
  simp only [width?, UInt8.le_iff_toNat_le, Bool.and_eq_true, decide_eq_true_eq]
  split_ifs <;> simp_all

theorem width?_eq_two_iff {b : UInt8} : width? b = some 2 ↔ 194 ≤ b.toNat ∧ b.toNat ≤ 223 := by
  simp only [width?, UInt8.le_iff_toNat_le, Bool.and_eq_true, decide_eq_true_eq]
  split_ifs <;> simp_all
  omega

theorem width?_eq_three_iff {b : UInt8} :
    width? b = some 3 ↔ 224 ≤ b.toNat ∧ b.toNat ≤ 239 := by
  simp only [width?, UInt8.le_iff_toNat_le, Bool.and_eq_true, decide_eq_true_eq]
  split_ifs <;> simp_all <;> omega

theorem width?_eq_four_iff {b : UInt8} :
    width? b = some 4 ↔ 240 ≤ b.toNat ∧ b.toNat ≤ 244 := by
  simp only [width?, UInt8.le_iff_toNat_le, Bool.and_eq_true, decide_eq_true_eq]
  split_ifs <;> simp_all <;> omega

theorem toNat_byte {n : Nat} (small : n < 256) : (UInt8.ofNat n).toNat = n := by
  rw [UInt8.toNat_ofNat']
  omega

theorem byte_eq {n : Nat} {b : UInt8} (same : n = b.toNat) : UInt8.ofNat n = b := by
  rw [same, UInt8.ofNat_toNat]

theorem toNat_ofNat {n : Nat} (valid : n.isValidChar) : (Char.ofNat n).toNat = n := by
  rw [Char.ofNat, dif_pos valid]
  rfl

/-! ## Sequences for one character -/

open String (utf8EncodeChar)

variable {a b c d next : UInt8} {bytes begun : List UInt8} {length : Option Nat}

theorem encodeChar_one (width : width? a = some 1) :
    utf8EncodeChar (.ofNat a.toNat) = [a] := by
  rw [width?_eq_one_iff] at width
  have valid : a.toNat.isValidChar := .inl (by omega)
  have number : (Char.ofNat a.toNat).val.toNat = a.toNat := toNat_ofNat valid
  simp only [utf8EncodeChar, number, if_pos width, UInt8.ofNat_toNat]

theorem encodeChar_two (width : width? a = some 2) (second : isSecond a b = true) :
    utf8EncodeChar (.ofNat (a.toNat % 32 * 64 + payload b)) = [a, b] := by
  rw [width?_eq_two_iff] at width
  rw [isSecond_iff] at second
  generalize code : a.toNat % 32 * 64 + payload b = n
  rw [payload] at code
  have number : (Char.ofNat n).val.toNat = n := toNat_ofNat (.inl (by omega))
  simp only [utf8EncodeChar, number]
  rw [if_neg (by omega), if_pos (by omega), byte_eq (b := a) (by omega),
    byte_eq (b := b) (by omega)]

theorem encodeChar_three (width : width? a = some 3) (second : isSecond a b = true)
    (third : isContinuation c = true) :
    utf8EncodeChar (.ofNat ((a.toNat % 16 * 64 + payload b) * 64 + payload c)) = [a, b, c] := by
  rw [width?_eq_three_iff] at width
  rw [isSecond_iff] at second
  rw [isContinuation_iff] at third
  generalize code : (a.toNat % 16 * 64 + payload b) * 64 + payload c = n
  rw [payload, payload] at code
  have number : (Char.ofNat n).val.toNat = n := toNat_ofNat (by
    simp only [Nat.isValidChar]
    omega)
  simp only [utf8EncodeChar, number]
  rw [if_neg (by omega), if_neg (by omega), if_pos (by omega), byte_eq (b := a) (by omega),
    byte_eq (b := b) (by omega), byte_eq (b := c) (by omega)]

theorem encodeChar_four (width : width? a = some 4) (second : isSecond a b = true)
    (third : isContinuation c = true) (fourth : isContinuation d = true) :
    utf8EncodeChar
        (.ofNat (((a.toNat % 8 * 64 + payload b) * 64 + payload c) * 64 + payload d)) =
      [a, b, c, d] := by
  rw [width?_eq_four_iff] at width
  rw [isSecond_iff] at second
  rw [isContinuation_iff] at third fourth
  generalize code : ((a.toNat % 8 * 64 + payload b) * 64 + payload c) * 64 + payload d = n
  rw [payload, payload, payload] at code
  have number : (Char.ofNat n).val.toNat = n := toNat_ofNat (by
    simp only [Nat.isValidChar]
    omega)
  simp only [utf8EncodeChar, number]
  rw [if_neg (by omega), if_neg (by omega), if_neg (by omega), byte_eq (b := a) (by omega),
    byte_eq (b := b) (by omega), byte_eq (b := c) (by omega), byte_eq (b := d) (by omega)]

/-! ## Decoding gives what was encoded -/

theorem decodeFrom_one (width : width? a = some 1) (position : Nat) (done : List Char)
    (rest : List UInt8) :
    decodeFrom position done (a :: rest) =
      decodeFrom (position + 1) (.ofNat a.toNat :: done) rest := by
  simp only [decodeFrom, width]

theorem decodeFrom_two (width : width? a = some 2) (second : isSecond a b = true)
    (position : Nat) (done : List Char) (rest : List UInt8) :
    decodeFrom position done (a :: b :: rest) =
      decodeFrom (position + 2) (.ofNat (a.toNat % 32 * 64 + payload b) :: done) rest := by
  simp only [decodeFrom, width, if_pos second]

theorem decodeFrom_three (width : width? a = some 3) (second : isSecond a b = true)
    (third : isContinuation c = true) (position : Nat) (done : List Char) (rest : List UInt8) :
    decodeFrom position done (a :: b :: c :: rest) =
      decodeFrom (position + 3)
        (.ofNat ((a.toNat % 16 * 64 + payload b) * 64 + payload c) :: done) rest := by
  simp only [decodeFrom, width, second, third, Bool.not_true, Bool.false_eq_true, if_false]

theorem decodeFrom_four (width : width? a = some 4) (second : isSecond a b = true)
    (third : isContinuation c = true) (fourth : isContinuation d = true) (position : Nat)
    (done : List Char) (rest : List UInt8) :
    decodeFrom position done (a :: b :: c :: d :: rest) =
      decodeFrom (position + 4)
        (.ofNat (((a.toNat % 8 * 64 + payload b) * 64 + payload c) * 64 + payload d) :: done)
        rest := by
  simp only [decodeFrom, width, second, third, fourth, Bool.not_true, Bool.false_eq_true,
    if_false]

theorem decodeFrom_encodeChar (c : Char) (position : Nat) (done : List Char)
    (rest : List UInt8) :
    decodeFrom position done (utf8EncodeChar c ++ rest) =
      decodeFrom (position + (utf8EncodeChar c).length) (c :: done) rest := by
  have valid : c.toNat < 55296 ∨ 57343 < c.toNat ∧ c.toNat < 1114112 := c.valid
  have back : Char.ofNat c.toNat = c := Char.ofNat_toNat c
  have number : c.val.toNat = c.toNat := rfl
  simp only [utf8EncodeChar, number]
  generalize c.toNat = n at *
  subst back
  split_ifs with isOne isTwo isThree
  · have first := toNat_byte (n := n) (by omega)
    rw [List.singleton_append, decodeFrom_one (width?_eq_one_iff.mpr (by omega)), first]
    rfl
  · have first := toNat_byte (n := n / 64 % 32 + 192) (by omega)
    have second := toNat_byte (n := n % 64 + 128) (by omega)
    rw [List.cons_append, List.singleton_append,
      decodeFrom_two (width?_eq_two_iff.mpr (by omega)) (isSecond_iff.mpr (by omega)),
      payload, first, second]
    have code : (n / 64 % 32 + 192) % 32 * 64 + (n % 64 + 128) % 64 = n := by omega
    rw [code]
    rfl
  · have first := toNat_byte (n := n / 4096 % 16 + 224) (by omega)
    have second := toNat_byte (n := n / 64 % 64 + 128) (by omega)
    have third := toNat_byte (n := n % 64 + 128) (by omega)
    rw [List.cons_append, List.cons_append, List.singleton_append,
      decodeFrom_three (width?_eq_three_iff.mpr (by omega)) (isSecond_iff.mpr (by omega))
        (isContinuation_iff.mpr (by omega)),
      payload, payload, first, second, third]
    have code : ((n / 4096 % 16 + 224) % 16 * 64 + (n / 64 % 64 + 128) % 64) * 64 +
        (n % 64 + 128) % 64 = n := by omega
    rw [code]
    rfl
  · have first := toNat_byte (n := n / 262144 % 8 + 240) (by omega)
    have second := toNat_byte (n := n / 4096 % 64 + 128) (by omega)
    have third := toNat_byte (n := n / 64 % 64 + 128) (by omega)
    have fourth := toNat_byte (n := n % 64 + 128) (by omega)
    rw [List.cons_append, List.cons_append, List.cons_append, List.singleton_append,
      decodeFrom_four (width?_eq_four_iff.mpr (by omega)) (isSecond_iff.mpr (by omega))
        (isContinuation_iff.mpr (by omega)) (isContinuation_iff.mpr (by omega)),
      payload, payload, payload, first, second, third, fourth]
    have code : (((n / 262144 % 8 + 240) % 8 * 64 + (n / 4096 % 64 + 128) % 64) * 64 +
        (n / 64 % 64 + 128) % 64) * 64 + (n % 64 + 128) % 64 = n := by omega
    rw [code]
    rfl

theorem decodeFrom_encode (text : List Char) (position : Nat) (done : List Char)
    (rest : List UInt8) :
    decodeFrom position done (text.flatMap utf8EncodeChar ++ rest) =
      decodeFrom (position + (text.flatMap utf8EncodeChar).length) (text.reverse ++ done) rest := by
  induction text generalizing position done with
  | nil => rfl
  | cons c later inductionHypothesis =>
      rw [List.flatMap_cons, List.append_assoc, decodeFrom_encodeChar, inductionHypothesis,
        List.length_append, Nat.add_assoc, List.reverse_cons, List.append_assoc,
        List.singleton_append]

theorem decode_append (text : List Char) (rest : List UInt8) :
    decode (text.flatMap utf8EncodeChar ++ rest) =
      decodeFrom (text.flatMap utf8EncodeChar).length text.reverse rest := by
  rw [decode, decodeFrom_encode, Nat.zero_add, List.append_nil]

/-! ## Bad sequences -/

/-- The first bytes of a character of which at least one byte is missing. -/
inductive Begun : List UInt8 → Prop where
  | one {a : UInt8} {width : Nat} : width? a = some width → 2 ≤ width → Begun [a]
  | two {a b : UInt8} {width : Nat} :
      width? a = some width → 3 ≤ width → isSecond a b = true → Begun [a, b]
  | three {a b c : UInt8} :
      width? a = some 4 → isSecond a b = true → isContinuation c = true → Begun [a, b, c]

/-- A byte can follow the first bytes of a character. -/
def continues : List UInt8 → UInt8 → Bool
  | [first], next => isSecond first next
  | _, next => isContinuation next

/-- Bytes begin with a bad sequence of some length, or they end inside a character. -/
inductive BeginsBadly : List UInt8 → Option Nat → Prop where
  | noStart {first : UInt8} {rest : List UInt8} :
      width? first = none → BeginsBadly (first :: rest) (some 1)
  | notContinued {begun rest : List UInt8} {next : UInt8} :
      Begun begun → continues begun next = false →
      BeginsBadly (begun ++ next :: rest) (some begun.length)
  | ends {begun : List UInt8} : Begun begun → BeginsBadly begun none

theorem width_cases {width : Nat} (isWidth : width? a = some width) :
    width = 1 ∨ width = 2 ∨ width = 3 ∨ width = 4 := by
  rw [width?] at isWidth
  split_ifs at isWidth <;> cases isWidth <;> decide

/-! ## Every byte sequence is good up to a bad sequence -/

/-- A byte that can follow leads on to the next byte of the character, or completes it. -/
theorem Begun.concat (isBegun : Begun begun) (follows : continues begun next = true) :
    Begun (begun ++ [next]) ∨ ∃ c : Char, begun ++ [next] = utf8EncodeChar c := by
  cases isBegun with
  | one isWidth several =>
      rcases width_cases isWidth with rfl | rfl | rfl | rfl
      · omega
      · exact .inr ⟨_, (encodeChar_two isWidth follows).symm⟩
      · exact .inl (.two isWidth (by decide) follows)
      · exact .inl (.two isWidth (by decide) follows)
  | two isWidth several second =>
      rcases width_cases isWidth with rfl | rfl | rfl | rfl
      · omega
      · omega
      · exact .inr ⟨_, (encodeChar_three isWidth second follows).symm⟩
      · exact .inl (.three isWidth second follows)
  | three isWidth second third =>
      exact .inr ⟨_, (encodeChar_four isWidth second third follows).symm⟩

theorem Begun.char_or_beginsBadly (isBegun : Begun begun) (rest : List UInt8) :
    (∃ (c : Char) (later : List UInt8), begun ++ rest = utf8EncodeChar c ++ later) ∨
      ∃ length : Option Nat, BeginsBadly (begun ++ rest) length := by
  induction rest generalizing begun with
  | nil =>
      rw [List.append_nil]
      exact .inr ⟨none, .ends isBegun⟩
  | cons next later inductionHypothesis =>
      cases follows : continues begun next with
      | false => exact .inr ⟨_, .notContinued isBegun follows⟩
      | true =>
          rcases isBegun.concat follows with longer | ⟨c, encodes⟩
          · have onward := inductionHypothesis longer
            rw [List.append_assoc, List.singleton_append] at onward
            exact onward
          · refine .inl ⟨c, later, ?_⟩
            rw [← encodes, List.append_assoc, List.singleton_append]

theorem char_or_beginsBadly (first : UInt8) (rest : List UInt8) :
    (∃ (c : Char) (later : List UInt8), first :: rest = utf8EncodeChar c ++ later) ∨
      ∃ length : Option Nat, BeginsBadly (first :: rest) length := by
  cases isWidth : width? first with
  | none => exact .inr ⟨_, .noStart isWidth⟩
  | some width =>
      by_cases single : width = 1
      · rw [single] at isWidth
        exact .inl ⟨_, rest, by rw [encodeChar_one isWidth, List.singleton_append]⟩
      · have several : 2 ≤ width := by
          have known := width_cases isWidth
          omega
        exact Begun.char_or_beginsBadly (.one isWidth several) rest

/-- Bytes are the encoding of some characters and then nothing more, or a bad sequence. -/
theorem exists_encoded_append (bytes : List UInt8) :
    ∃ (text : List Char) (bad : List UInt8),
      bytes = text.flatMap utf8EncodeChar ++ bad ∧
        (bad = [] ∨ ∃ length : Option Nat, BeginsBadly bad length) := by
  -- A character takes at least one byte away, so the number of bytes carries the induction.
  induction size : bytes.length using Nat.strongRecOn generalizing bytes with
  | ind bound inductionHypothesis =>
      cases bytes with
      | nil => exact ⟨[], [], rfl, .inl rfl⟩
      | cons first rest =>
          rcases char_or_beginsBadly first rest with ⟨c, later, whole⟩ | isBad
          · have someByte : 0 < (utf8EncodeChar c).length :=
              List.length_pos_iff.mpr String.utf8EncodeChar_ne_nil
            have shorter : later.length < bound := by
              rw [← size, whole, List.length_append]
              omega
            obtain ⟨text, bad, rfl, isBad⟩ := inductionHypothesis later.length shorter later rfl
            refine ⟨c :: text, bad, ?_, isBad⟩
            rw [whole, List.flatMap_cons, List.append_assoc]
          · exact ⟨[], first :: rest, rfl, .inr isBad⟩

/-! ## Decoding a bad sequence -/

theorem decodeFrom_of_ends (isBegun : Begun begun) (position : Nat) (done : List Char) :
    decodeFrom position done begun = .error ⟨position, none⟩ := by
  cases isBegun with
  | one isWidth several =>
      rcases width_cases isWidth with rfl | rfl | rfl | rfl
      · omega
      · simp [decodeFrom, isWidth]
      · simp [decodeFrom, isWidth]
      · simp [decodeFrom, isWidth]
  | two isWidth several second =>
      rcases width_cases isWidth with rfl | rfl | rfl | rfl
      · omega
      · omega
      · simp [decodeFrom, isWidth, second]
      · simp [decodeFrom, isWidth, second]
  | three isWidth second third => simp [decodeFrom, isWidth, second, third]

theorem decodeFrom_of_notContinued (isBegun : Begun begun) (refuses : continues begun next = false)
    (position : Nat) (done : List Char) (rest : List UInt8) :
    decodeFrom position done (begun ++ next :: rest) = .error ⟨position, some begun.length⟩ := by
  cases isBegun with
  | one isWidth several =>
      have notSecond : isSecond _ next = false := refuses
      rcases width_cases isWidth with rfl | rfl | rfl | rfl
      · omega
      · simp [decodeFrom, isWidth, notSecond]
      · cases rest <;> simp [decodeFrom, isWidth, notSecond]
      · rcases rest with _ | ⟨c, _ | ⟨d, later⟩⟩ <;> simp [decodeFrom, isWidth, notSecond]
  | two isWidth several second =>
      have notThird : isContinuation next = false := refuses
      rcases width_cases isWidth with rfl | rfl | rfl | rfl
      · omega
      · omega
      · simp [decodeFrom, isWidth, second, notThird]
      · cases rest <;> simp [decodeFrom, isWidth, second, notThird]
  | three isWidth second third =>
      have notFourth : isContinuation next = false := refuses
      simp [decodeFrom, isWidth, second, third, notFourth]

theorem decodeFrom_of_beginsBadly (bad : BeginsBadly bytes length) (position : Nat)
    (done : List Char) : decodeFrom position done bytes = .error ⟨position, length⟩ := by
  cases bad with
  | noStart noWidth => simp [decodeFrom, noWidth]
  | notContinued isBegun refuses => exact decodeFrom_of_notContinued isBegun refuses position done _
  | ends isBegun => exact decodeFrom_of_ends isBegun position done

/-! ## What is decoded and what is refused -/

/-- Bytes are decoded exactly if they are the encoding of some characters, and to these. -/
theorem decode_eq_ok_iff {text : List Char} :
    decode bytes = .ok text ↔ bytes = text.flatMap utf8EncodeChar := by
  have decodes (encoded : List Char) : decode (encoded.flatMap utf8EncodeChar) = .ok encoded := by
    have whole := decode_append encoded []
    rw [List.append_nil, decodeFrom, List.reverse_reverse] at whole
    exact whole
  constructor
  · intro result
    obtain ⟨encoded, bad, rfl, isEmpty | ⟨length, isBad⟩⟩ := exists_encoded_append bytes
    · rw [isEmpty, List.append_nil, decodes] at result
      cases result
      rw [isEmpty, List.append_nil]
    · rw [decode_append, decodeFrom_of_beginsBadly isBad] at result
      cases result
  · rintro rfl
    exact decodes text

/-- Bytes are refused exactly where a bad sequence follows some encoded characters. -/
theorem decode_eq_error_iff {fault : Fault} :
    decode bytes = .error fault ↔
      ∃ (text : List Char) (bad : List UInt8),
        bytes = text.flatMap utf8EncodeChar ++ bad ∧
          (text.flatMap utf8EncodeChar).length = fault.validUpTo ∧
            BeginsBadly bad fault.badLength := by
  constructor
  · intro refused
    obtain ⟨text, bad, rfl, isEmpty | ⟨length, isBad⟩⟩ := exists_encoded_append bytes
    · rw [isEmpty, List.append_nil, decode_eq_ok_iff.mpr rfl] at refused
      cases refused
    · rw [decode_append, decodeFrom_of_beginsBadly isBad] at refused
      cases refused
      exact ⟨text, bad, rfl, rfl, isBad⟩
  · rintro ⟨text, bad, rfl, sameLength, isBad⟩
    rw [decode_append, decodeFrom_of_beginsBadly isBad, sameLength]

theorem decode_encode (text : String) : decode (encode text) = .ok text.toList :=
  decode_eq_ok_iff.mpr rfl

/-! ## Bytes of an encoding -/

theorem encodeChar_ascii {c : Char} (ascii : c.toNat < 128) :
    utf8EncodeChar c = [c.toNat.toUInt8] := by
  have small : c.val.toNat ≤ 127 := Nat.le_of_lt_succ ascii
  simp only [utf8EncodeChar, if_pos small]
  rfl

/-- A character beyond ASCII has no byte in common with ASCII. -/
theorem le_of_mem_encodeChar {c : Char} (wide : 128 ≤ c.toNat) {b : UInt8}
    (member : b ∈ utf8EncodeChar c) : 128 ≤ b.toNat := by
  have valid : c.toNat < 55296 ∨ 57343 < c.toNat ∧ c.toNat < 1114112 := c.valid
  have number : c.val.toNat = c.toNat := rfl
  simp only [utf8EncodeChar, number] at member
  split_ifs at member <;>
    simp only [List.mem_cons, List.not_mem_nil, or_false] at member <;>
    rcases member with rfl | rfl | rfl | rfl <;>
    rw [toNat_byte (by omega)] <;>
    omega

theorem encode_ofList (text : List Char) : encode (.ofList text) = text.flatMap utf8EncodeChar := by
  rw [encode, String.toList_ofList]

theorem encode_append (first second : String) :
    encode (first ++ second) = encode first ++ encode second := by
  rw [encode, String.toList_append, List.flatMap_append]
  rfl

end Utf8
end FieldLine
