import FieldLine.Proofs.Document.LineEndings
import FieldLine.Proofs.JsonDocument.Syntax
import FieldLine.Proofs.Yaml.FlowScalars
import Mathlib.Data.List.TakeWhile

/-!
# How JSON is spelled

Literals and numbers are bare words, and strings are quoted texts with their escapes, as flow
collections may have them.  A text stays the same when its line breaks are unified, but for its
white space.
-/

namespace FieldLine
namespace JsonSyntax

open Yaml

/-! ## Bare words -/

theorem isBareWord_literal (word : Literal) : IsBareWord word.chars := by
  cases word with
  | truth value => cases value <;> exact .plain rfl (List.all_eq_true.mp rfl)
  | null => exact .plain rfl (List.all_eq_true.mp rfl)

theorem isAlphanum_of_isDigit {c : Char} (isDigit : c.isDigit = true) : c.isAlphanum = true := by
  rw [Char.isAlphanum, isDigit, Bool.or_true]

theorem Digits.isBare (digits : Digits) : ∀ c ∈ digits.chars, Yaml.isBare c = true :=
  fun c member => isBare_of_isAlphanum (isAlphanum_of_isDigit (digits.digits c member))

theorem Exponent.isBare (exponent : Exponent) : ∀ c ∈ exponent.chars, Yaml.isBare c = true := by
  obtain ⟨capital, negative, digits⟩ := exponent
  rw [chars, List.forall_mem_cons, List.forall_mem_append]
  refine ⟨by cases capital <;> rfl, ?_, digits.isBare⟩
  rcases negative with _ | _ | _
  · exact List.forall_mem_nil _
  · exact List.forall_mem_singleton.mpr rfl
  · exact List.forall_mem_singleton.mpr rfl

theorem isBareWord_number (numeral : Number) : IsBareWord numeral.chars := by
  obtain ⟨negative, ⟨whole, someDigit, digits⟩, noLeadingZero, fraction, exponent⟩ := numeral
  have fractionBare : ∀ c ∈ Number.fractionChars ⟨negative, ⟨whole, someDigit, digits⟩,
      noLeadingZero, fraction, exponent⟩, Yaml.isBare c = true := by
    rcases fraction with _ | digits
    · exact List.forall_mem_nil _
    · exact List.forall_mem_cons.mpr ⟨rfl, digits.isBare⟩
  have exponentBare : ∀ c ∈ Number.exponentChars ⟨negative, ⟨whole, someDigit, digits⟩,
      noLeadingZero, fraction, exponent⟩, Yaml.isBare c = true := by
    rcases exponent with _ | exponent
    · exact List.forall_mem_nil _
    · exact exponent.isBare
  obtain ⟨c, later, rfl⟩ := List.exists_cons_of_ne_nil someDigit
  have wholeDigits := List.forall_mem_cons.mp digits
  have alphanumeric := isAlphanum_of_isDigit wholeDigits.1
  have laterBare : ∀ other ∈ later, Yaml.isBare other = true :=
    fun other member => isBare_of_isAlphanum (isAlphanum_of_isDigit (wholeDigits.2 other member))
  have othersBare : ∀ other ∈ later ++ (Number.fractionChars _ ++ Number.exponentChars _),
      Yaml.isBare other = true :=
    List.forall_mem_append.mpr
      ⟨laterBare, List.forall_mem_append.mpr ⟨fractionBare, exponentBare⟩⟩
  cases negative with
  | true => exact .negative alphanumeric othersBare
  | false => exact .plain alphanumeric othersBare

/-! ## Strings -/

theorem HexDigit.value?_char (digit : HexDigit) : Hex.value? digit.char = some digit.value.val := by
  obtain ⟨value, capital⟩ := digit
  revert value
  cases capital <;> decide

theorem ShortEscape.escape?_letter (escape : ShortEscape) :
    Quoted.escape? escape.letter = some (.char escape.char) := by
  cases escape <;> rfl

/-- A character that is not a pair of code units is written as a quoted text may have it. -/
theorem Glyph.isWritten {glyph : Glyph} (single : ¬glyph.IsPair) :
    Quoted.IsWritten glyph.char glyph.chars := by
  cases glyph with
  | plain c allowed =>
      obtain ⟨notControl, notQuote, notBackslash⟩ := allowed
      refine .self ?_ ?_ notQuote notBackslash
      · rintro rfl
        exact absurd notControl (by decide)
      · rintro rfl
        exact absurd notControl (by decide)
  | escape short => exact .escape (by cases short <;> decide) short.escape?_letter
  | code unit isChar =>
      have number :
          16 * (16 * (16 * unit.first.value.val + unit.second.value.val) +
            unit.third.value.val) + unit.fourth.value.val = unit.number := by
        rw [CodeUnit.number]
        omega
      have isChar? : Hex.char? unit.number = some (.ofNat unit.number) := by
        rw [Hex.char?, if_pos isChar]
      exact .code unit.first.value?_char unit.second.value?_char unit.third.value?_char
        unit.fourth.value?_char (by rw [number, isChar?]; rfl)
  | pair => exact absurd .pair single

/-! ## Solid characters -/

/-- A character that is neither part of a line break nor a null. -/
def IsSolid (c : Char) : Prop :=
  c ≠ '\n' ∧ c ≠ '\r' ∧ c ≠ '\x00'

instance : DecidablePred IsSolid :=
  fun _ => inferInstanceAs (Decidable (_ ∧ _))

theorem isSolid_of_isBare {c : Char} (bare : Yaml.isBare c = true) : IsSolid c :=
  ⟨ne_of_isBare bare '\n' rfl, ne_of_isBare bare '\r' rfl, ne_of_isBare bare '\x00' rfl⟩

theorem HexDigit.isSolid_char (digit : HexDigit) : IsSolid digit.char := by
  obtain ⟨value, capital⟩ := digit
  revert value
  cases capital <;> decide

theorem CodeUnit.isSolid (unit : CodeUnit) : ∀ c ∈ unit.chars, IsSolid c := by
  simp only [chars, List.forall_mem_cons]
  exact ⟨by decide, by decide, unit.first.isSolid_char, unit.second.isSolid_char,
    unit.third.isSolid_char, unit.fourth.isSolid_char, List.forall_mem_nil _⟩

theorem Glyph.isSolid (glyph : Glyph) : ∀ c ∈ glyph.chars, IsSolid c := by
  cases glyph with
  | plain c allowed =>
      obtain ⟨notControl, -, -⟩ := allowed
      refine List.forall_mem_singleton.mpr ⟨?_, ?_, ?_⟩ <;>
        · rintro rfl
          exact absurd notControl (by decide)
  | escape short =>
      refine List.forall_mem_cons.mpr ⟨by decide, List.forall_mem_singleton.mpr ?_⟩
      cases short <;> decide
  | code unit => exact unit.isSolid
  | pair high low => exact List.forall_mem_append.mpr ⟨high.isSolid, low.isSolid⟩

theorem isSolid_quoted (glyphs : List Glyph) : ∀ c ∈ quoted glyphs, IsSolid c := by
  rw [quoted, List.forall_mem_cons, List.forall_mem_append, List.forall_mem_singleton]
  refine ⟨by decide, ?_, by decide⟩
  intro c member
  obtain ⟨glyph, -, charMember⟩ := List.mem_flatMap.mp member
  exact glyph.isSolid c charMember

theorem isSolid_bareWord {word : List Char} (bareWord : IsBareWord word) :
    ∀ c ∈ word, IsSolid c :=
  fun c member => isSolid_of_isBare (Plain.isBare_of_isBareWord bareWord c member)

/-! ## Line breaks -/

namespace Padding

theorem isSpace_unified (padding : Padding) : ∀ c ∈ padding.unified, isSpace c = true := by
  intro c member
  rw [unified, Document.mem_unifyBreaks_iff, List.mem_map] at member
  obtain ⟨d, dMember, rfl⟩ := member
  rcases padding.blank d dMember with rfl | rfl | rfl | rfl <;> rfl

theorem ne_null (padding : Padding) : ∀ c ∈ padding.chars, c ≠ '\x00' := by
  intro c member
  rcases padding.blank c member with rfl | rfl | rfl | rfl <;> decide

/-- Only tabs are unified to tabs. -/
theorem isTabs_of_unified {padding : Padding} (someChar : padding.unified ≠ [])
    (tabs : ∀ c ∈ padding.unified, c = '\t') : padding.IsTabs := by
  constructor
  · intro isEmpty
    rw [unified, isEmpty] at someChar
    exact someChar rfl
  · intro c member
    have shown : (if c = '\r' then '\n' else c) ∈ padding.unified := by
      rw [unified, Document.mem_unifyBreaks_iff]
      exact List.mem_map.mpr ⟨c, member, rfl⟩
    have isTab := tabs _ shown
    split at isTab
    · cases isTab
    · exact isTab

end Padding

theorem unifyBreaks_solid {run : List Char} (solid : ∀ c ∈ run, IsSolid c) (rest : List Char) :
    Document.unifyBreaks (run ++ rest) = run ++ Document.unifyBreaks rest := by
  rw [Document.unifyBreaks_append fun isLast =>
      absurd rfl (solid '\r' (List.mem_of_getLast? isLast)).2.1,
    Document.unifyBreaks_eq_self fun c member => (solid c member).2.1]

theorem unifyBreaks_solid_cons {c : Char} (solid : IsSolid c) (rest : List Char) :
    Document.unifyBreaks (c :: rest) = c :: Document.unifyBreaks rest :=
  unifyBreaks_solid (List.forall_mem_singleton.mpr solid) rest

theorem unifyBreaks_padding (padding : Padding) {rest : List Char} (begins : BeginsToken rest) :
    Document.unifyBreaks (padding.chars ++ rest) =
      padding.unified ++ Document.unifyBreaks rest := by
  refine Document.unifyBreaks_append fun _ isFeed => ?_
  obtain ⟨later, rfl⟩ := List.head?_eq_some_iff.mp isFeed
  exact absurd begins.1 (by decide)

namespace Value

variable {render : Padding → List Char} {rest : List Char}

theorem beginsToken_bareWord {word : List Char} (bareWord : IsBareWord word) (rest : List Char) :
    BeginsToken (word ++ rest) := by
  cases bareWord with
  | plain alphanumeric => exact beginsToken_of_isAlphanum alphanumeric _
  | negative => exact ⟨rfl, by decide⟩

theorem beginsToken_text (value : Value) (render : Padding → List Char) (rest : List Char) :
    BeginsToken (value.text render ++ rest) := by
  cases value with
  | literal word => exact beginsToken_bareWord (isBareWord_literal word) rest
  | number numeral => exact beginsToken_bareWord (isBareWord_number numeral) rest
  | string glyphs => exact ⟨rfl, by decide⟩
  | hollow brackets inside => exact brackets.beginsToken_left _
  | array elements => exact ⟨rfl, by decide⟩
  | object members => exact ⟨rfl, by decide⟩

theorem isSolid_comma {α : Type} (later : List α) : ∀ c ∈ comma later, IsSolid c := by
  unfold comma
  split
  · exact List.forall_mem_nil _
  · exact List.forall_mem_singleton.mpr (by decide)

/-- After an element there is a comma or the end of the array. -/
theorem endsValue_elementText (later : List (Padded Value)) (rest : List Char) :
    EndsValue (comma later ++ (elementText render later ++ rest)) := by
  cases later with
  | nil => exact .square rest
  | cons => exact .comma _

theorem endsValue_memberText (later : List (Member Value)) (rest : List Char) :
    EndsValue (comma later ++ (memberText render later ++ rest)) := by
  cases later with
  | nil => exact .curly rest
  | cons => exact .comma _

theorem unifyBreaks_elementText {elements : List (Padded Value)}
    (each : ∀ element ∈ elements, ∀ rest : List Char,
      Document.unifyBreaks (element.inner.text Padding.chars ++ rest) =
        element.inner.text Padding.unified ++ Document.unifyBreaks rest)
    (rest : List Char) :
    Document.unifyBreaks (elementText Padding.chars elements ++ rest) =
      elementText Padding.unified elements ++ Document.unifyBreaks rest := by
  induction elements with
  | nil => exact unifyBreaks_solid (List.forall_mem_singleton.mpr (by decide)) rest
  | cons element later inductionHypothesis =>
      obtain ⟨before, value, after⟩ := element
      rw [List.forall_mem_cons] at each
      rw [elementText, elementText]
      simp only [List.append_assoc]
      rw [unifyBreaks_padding before (beginsToken_text value _ _), each.1,
        unifyBreaks_padding after (endsValue_elementText later rest).beginsToken,
        unifyBreaks_solid (isSolid_comma later), inductionHypothesis each.2]

theorem unifyBreaks_memberText {members : List (Member Value)}
    (each : ∀ member ∈ members, ∀ rest : List Char,
      Document.unifyBreaks (member.value.inner.text Padding.chars ++ rest) =
        member.value.inner.text Padding.unified ++ Document.unifyBreaks rest)
    (rest : List Char) :
    Document.unifyBreaks (memberText Padding.chars members ++ rest) =
      memberText Padding.unified members ++ Document.unifyBreaks rest := by
  induction members with
  | nil => exact unifyBreaks_solid (List.forall_mem_singleton.mpr (by decide)) rest
  | cons member later inductionHypothesis =>
      obtain ⟨⟨beforeKey, key, afterKey⟩, ⟨before, value, after⟩⟩ := member
      rw [List.forall_mem_cons] at each
      have solidColon : IsSolid ':' := by decide
      have keyBegins (text : List Char) : BeginsToken (quoted key ++ text) := ⟨rfl, by decide⟩
      have colonBegins (text : List Char) : BeginsToken (':' :: text) := ⟨rfl, by decide⟩
      rw [memberText, memberText]
      simp only [List.append_assoc, List.cons_append]
      rw [unifyBreaks_padding beforeKey (keyBegins _), unifyBreaks_solid (isSolid_quoted key),
        unifyBreaks_padding afterKey (colonBegins _), unifyBreaks_solid_cons solidColon,
        unifyBreaks_padding before (beginsToken_text value _ _), each.1,
        unifyBreaks_padding after (endsValue_memberText later rest).beginsToken,
        unifyBreaks_solid (isSolid_comma later), inductionHypothesis each.2]

/-- Unifying line breaks changes nothing but white space. -/
theorem unifyBreaks_text (value : Value) (rest : List Char) :
    Document.unifyBreaks (value.text Padding.chars ++ rest) =
      value.text Padding.unified ++ Document.unifyBreaks rest := by
  induction value generalizing rest with
  | literal word => exact unifyBreaks_solid (isSolid_bareWord (isBareWord_literal word)) rest
  | number numeral => exact unifyBreaks_solid (isSolid_bareWord (isBareWord_number numeral)) rest
  | string glyphs => exact unifyBreaks_solid (isSolid_quoted glyphs) rest
  | hollow brackets inside =>
      have solidLeft : IsSolid brackets.left := by cases brackets <;> decide
      have solidRight : IsSolid brackets.right := by cases brackets <;> decide
      rw [text, text]
      simp only [List.append_assoc, List.cons_append, List.nil_append]
      rw [unifyBreaks_solid_cons solidLeft,
        unifyBreaks_padding inside (brackets.beginsToken_right rest),
        unifyBreaks_solid_cons solidRight]
  | array elements inductionHypothesis =>
      rw [text, text, List.cons_append, List.cons_append, unifyBreaks_solid_cons (by decide),
        unifyBreaks_elementText inductionHypothesis]
  | object members inductionHypothesis =>
      rw [text, text, List.cons_append, List.cons_append, unifyBreaks_solid_cons (by decide),
        unifyBreaks_memberText inductionHypothesis]

/-! ## Null characters -/

theorem ne_null_of_mem_elementText {elements : List (Padded Value)}
    (each : ∀ element ∈ elements, ∀ c ∈ element.inner.text Padding.chars, c ≠ '\x00') :
    ∀ c ∈ elementText Padding.chars elements, c ≠ '\x00' := by
  induction elements with
  | nil => exact List.forall_mem_singleton.mpr (by decide)
  | cons element later inductionHypothesis =>
      obtain ⟨before, value, after⟩ := element
      rw [List.forall_mem_cons] at each
      simp only [elementText, List.forall_mem_append]
      exact ⟨before.ne_null, each.1, after.ne_null,
        fun c member => (isSolid_comma later c member).2.2, inductionHypothesis each.2⟩

theorem ne_null_of_mem_memberText {members : List (Member Value)}
    (each : ∀ member ∈ members, ∀ c ∈ member.value.inner.text Padding.chars, c ≠ '\x00') :
    ∀ c ∈ memberText Padding.chars members, c ≠ '\x00' := by
  induction members with
  | nil => exact List.forall_mem_singleton.mpr (by decide)
  | cons member later inductionHypothesis =>
      obtain ⟨⟨beforeKey, key, afterKey⟩, ⟨before, value, after⟩⟩ := member
      rw [List.forall_mem_cons] at each
      simp only [memberText, List.forall_mem_append, List.forall_mem_cons]
      exact ⟨beforeKey.ne_null, fun c member => (isSolid_quoted key c member).2.2,
        afterKey.ne_null, by decide, before.ne_null, each.1, after.ne_null,
        fun c member => (isSolid_comma later c member).2.2, inductionHypothesis each.2⟩

theorem ne_null_of_mem_text (value : Value) : ∀ c ∈ value.text Padding.chars, c ≠ '\x00' := by
  induction value with
  | literal word =>
      exact fun c member => (isSolid_bareWord (isBareWord_literal word) c member).2.2
  | number numeral =>
      exact fun c member => (isSolid_bareWord (isBareWord_number numeral) c member).2.2
  | string glyphs => exact fun c member => (isSolid_quoted glyphs c member).2.2
  | hollow brackets inside =>
      simp only [text, List.forall_mem_cons, List.forall_mem_append]
      refine ⟨?_, inside.ne_null, ?_, List.forall_mem_nil _⟩ <;> cases brackets <;> decide
  | array elements inductionHypothesis =>
      exact List.forall_mem_cons.mpr ⟨by decide, ne_null_of_mem_elementText inductionHypothesis⟩
  | object members inductionHypothesis =>
      exact List.forall_mem_cons.mpr ⟨by decide, ne_null_of_mem_memberText inductionHypothesis⟩

end Value
end JsonSyntax

namespace JsonText

open JsonSyntax

/-- The whole text is the body of its document. -/
theorem body_text (document : JsonText) :
    Document.body (document.text Padding.chars) = document.text Padding.unified := by
  have noNull : ∀ c ∈ document.text Padding.chars, c ≠ '\x00' := by
    simp only [text, List.forall_mem_append]
    exact ⟨document.before.ne_null, document.inner.ne_null_of_mem_text, document.after.ne_null⟩
  have whole :
      (document.text Padding.chars).takeWhile (· ≠ '\x00') = document.text Padding.chars :=
    List.takeWhile_eq_self_iff.mpr fun c member => decide_eq_true (noNull c member)
  rw [Document.body, whole, text, text,
    unifyBreaks_padding document.before (document.inner.beginsToken_text _ _),
    document.inner.unifyBreaks_text]
  rfl

end JsonText
end FieldLine
