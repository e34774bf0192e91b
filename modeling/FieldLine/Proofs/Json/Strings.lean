import FieldLine.Json.Text
import FieldLine.Proofs.Text.Encoding

/-!
# Parts of quoted strings

Bytes that stand for themselves, escapes and code units are read and passed over one by one,
whatever follows them.
-/

namespace FieldLine
namespace Json
namespace Text

open String (utf8EncodeChar)

/-! ## Bytes that stand for themselves -/

def IsPlain (b : UInt8) : Prop :=
  b ≠ byte '"' ∧ b ≠ byte '\\' ∧ ¬b < 0x20

theorem isPlain_of_mem_encodeChar {c : Char} (notQuote : c ≠ '"') (notBackslash : c ≠ '\\')
    (notControl : ¬c.toNat < 0x20) : ∀ b ∈ utf8EncodeChar c, IsPlain b := by
  intro b member
  by_cases ascii : c.toNat < 128
  · rw [Utf8.encodeChar_ascii ascii, List.mem_singleton] at member
    have number : b.toNat = c.toNat := by
      rw [member]
      exact Utf8.toNat_byte (by omega)
    have differs {other : Char} (distinct : c ≠ other) : c.toNat ≠ other.toNat :=
      fun same => distinct (Char.toNat_inj.mp same)
    refine ⟨?_, ?_, ?_⟩
    · rintro rfl
      exact differs notQuote number.symm
    · rintro rfl
      exact differs notBackslash number.symm
    · rw [UInt8.lt_iff_toNat_lt, number]
      exact notControl
  · have wide := Utf8.le_of_mem_encodeChar (Nat.le_of_not_lt ascii) member
    refine ⟨?_, ?_, ?_⟩
    · rintro rfl
      exact absurd wide (by decide)
    · rintro rfl
      exact absurd wide (by decide)
    · rw [UInt8.lt_iff_toNat_lt]
      change ¬b.toNat < 32
      omega

theorem readFrom_plain {run : List UInt8} (plain : ∀ b ∈ run, IsPlain b) (rest : List UInt8)
    (place : Place) (text : List Char) (bytes : List UInt8) :
    ∃ next, readFrom (run ++ rest) place .plain text bytes =
      readFrom rest next .plain text (run.reverse ++ bytes) := by
  induction run generalizing place bytes with
  | nil => exact ⟨place, rfl⟩
  | cons b run inductionHypothesis =>
      obtain ⟨⟨notQuote, notBackslash, notControl⟩, plainLater⟩ := List.forall_mem_cons.mp plain
      obtain ⟨next, reads⟩ := inductionHypothesis plainLater (place.after b) (b :: bytes)
      refine ⟨next, ?_⟩
      rw [List.cons_append, readFrom, if_neg notQuote, if_neg notBackslash, if_neg notControl,
        reads, List.reverse_cons, List.append_assoc, List.singleton_append]

theorem skipFrom_plain {run : List UInt8} (plain : ∀ b ∈ run, IsPlain b) (rest : List UInt8)
    (place : Place) :
    ∃ next, skipFrom (run ++ rest) place .plain = skipFrom rest next .plain := by
  induction run generalizing place with
  | nil => exact ⟨place, rfl⟩
  | cons b run inductionHypothesis =>
      obtain ⟨⟨notQuote, notBackslash, notControl⟩, plainLater⟩ := List.forall_mem_cons.mp plain
      obtain ⟨next, skips⟩ := inductionHypothesis plainLater (place.after b)
      refine ⟨next, ?_⟩
      rw [List.cons_append, skipFrom, if_neg notQuote, if_neg notBackslash, if_neg notControl,
        skips]

/-! ## Escapes -/

theorem addBytes_encoded (place : Place) (pending text : List Char) :
    addBytes place (pending.flatMap utf8EncodeChar).reverse text =
      .ok (pending.reverseAux text) := by
  rw [addBytes, List.reverse_reverse, Utf8.decode_eq_ok_iff.mpr rfl]

theorem readFrom_escape {letter : UInt8} {c : Char} (notUnit : letter ≠ byte 'u')
    (known : escape? letter = some c) (rest : List UInt8) (place : Place)
    (text pending : List Char) :
    ∃ next, readFrom (byte '\\' :: letter :: rest) place .plain text
        (pending.flatMap utf8EncodeChar).reverse =
      readFrom rest next .plain (c :: pending.reverseAux text) [] := by
  refine ⟨(place.after (byte '\\')).after letter, ?_⟩
  rw [readFrom, if_neg (by decide), if_pos rfl, addBytes_encoded]
  simp only [bind, Except.bind]
  rw [readFrom, if_neg notUnit, known]

theorem skipFrom_escape {letter : UInt8} {c : Char} (notUnit : letter ≠ byte 'u')
    (known : escape? letter = some c) (rest : List UInt8) (place : Place) :
    ∃ next, skipFrom (byte '\\' :: letter :: rest) place .plain = skipFrom rest next .plain := by
  refine ⟨(place.after (byte '\\')).after letter, ?_⟩
  rw [skipFrom, if_neg (by decide), if_pos rfl, skipFrom, if_neg notUnit, known,
    if_pos Option.isSome_some]

/-- What becomes of a code unit depends on whether it belongs to a pair. -/
theorem readFrom_unit {a b c d : UInt8} {w x y z : Nat} (first : hexValue? a = some w)
    (second : hexValue? b = some x) (third : hexValue? c = some y) (fourth : hexValue? d = some z)
    {value : Nat} (number : 16 * (16 * (16 * w + x) + y) + z = value) (rest : List UInt8)
    (place : Place) (text pending : List Char) :
    ∃ next, readFrom (byte '\\' :: byte 'u' :: a :: b :: c :: d :: rest) place .plain text
        (pending.flatMap utf8EncodeChar).reverse =
      if isTrailing value then next.fault .surrogateLone
      else if isLeading value then readFrom rest next (.pair value) (pending.reverseAux text) []
      else readFrom rest next .plain (Char.ofNat value :: pending.reverseAux text) [] := by
  refine ⟨(((((place.after (byte '\\')).after (byte 'u')).after a).after b).after c).after d, ?_⟩
  rw [readFrom, if_neg (by decide), if_pos rfl, addBytes_encoded]
  simp only [bind, Except.bind]
  rw [readFrom, if_pos rfl]
  simp [readFrom, CodeUnit.add, first, second, third, fourth, number]

theorem skipFrom_unit {a b c d : UInt8} {w x y z : Nat} (first : hexValue? a = some w)
    (second : hexValue? b = some x) (third : hexValue? c = some y) (fourth : hexValue? d = some z)
    (rest : List UInt8) (place : Place) :
    ∃ next, skipFrom (byte '\\' :: byte 'u' :: a :: b :: c :: d :: rest) place .plain =
      skipFrom rest next .plain := by
  refine ⟨(((((place.after (byte '\\')).after (byte 'u')).after a).after b).after c).after d, ?_⟩
  rw [skipFrom, if_neg (by decide), if_pos rfl, skipFrom, if_pos rfl]
  simp [skipFrom, CodeUnit.add, first, second, third, fourth]

/-! ## Characters of one byte -/

theorem flatMap_encodeChar_ascii {chars : List Char} (ascii : ∀ c ∈ chars, c.toNat < 128) :
    chars.flatMap utf8EncodeChar = chars.map byte := by
  induction chars with
  | nil => rfl
  | cons c rest inductionHypothesis =>
      rw [List.forall_mem_cons] at ascii
      rw [List.flatMap_cons, Utf8.encodeChar_ascii ascii.1, inductionHypothesis ascii.2]
      rfl

theorem ascii_escape {letter : Char} (ascii : letter.toNat < 128) :
    ∀ c ∈ ['\\', letter], c.toNat < 128 :=
  List.forall_mem_cons.mpr ⟨by decide, List.forall_mem_singleton.mpr ascii⟩

end Text
end Json
end FieldLine
