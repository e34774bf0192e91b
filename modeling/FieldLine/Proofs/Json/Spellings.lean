import FieldLine.Proofs.Json.Strings
import FieldLine.Proofs.JsonDocument.Syntax

/-!
# Strings in every spelling

The characters of a string stand for themselves or are escaped.  However a text is spelled, it is
read, and nothing else is.  A string with a code unit that belongs to no character spells no text,
but can be passed over like any other.
-/

namespace FieldLine
namespace Json

open String (utf8EncodeChar)
open JsonSyntax (CodeUnit Glyph HexDigit ShortEscape)
open Text (readFrom skipFrom)

/-! ## Written strings -/

/-- A part of a string as it is written.  Code units are taken one by one, whether or not they
belong to a character. -/
inductive Mark where
  | plain (c : Char) (allowed : 0x20 ≤ c.toNat ∧ c ≠ '"' ∧ c ≠ '\\')
  | escape (short : ShortEscape)
  | code (unit : CodeUnit)

def Mark.bytes : Mark → List UInt8
  | plain c _ => utf8EncodeChar c
  | escape short => [byte '\\', byte short.letter]
  | code unit => unit.chars.map byte

def quoted (marks : List Mark) : List UInt8 :=
  byte '"' :: (marks.flatMap Mark.bytes ++ [byte '"'])

inductive IsString : List UInt8 → Prop where
  | quoted (marks : List Mark) : IsString (quoted marks)

/-- The bytes spell a text, in one of the ways to write its characters. -/
def Spells (text : String) (written : List UInt8) : Prop :=
  ∃ glyphs : List Glyph,
    JsonSyntax.decoded glyphs = text ∧ written = Utf8.encode (.ofList (JsonSyntax.quoted glyphs))

def marksOf : Glyph → List Mark
  | .plain c allowed => [.plain c allowed]
  | .escape short => [.escape short]
  | .code unit _ => [.code unit]
  | .pair high low _ _ => [.code high, .code low]

theorem ascii_hexDigit (digit : HexDigit) : digit.char.toNat < 128 := by
  obtain ⟨value, capital⟩ := digit
  revert value
  cases capital <;> decide

theorem ascii_letter (short : ShortEscape) : short.letter.toNat < 128 := by
  cases short <;> decide

theorem encode_codeUnit (unit : CodeUnit) :
    unit.chars.flatMap utf8EncodeChar = (Mark.code unit).bytes := by
  rw [Mark.bytes, Text.flatMap_encodeChar_ascii]
  simp only [CodeUnit.chars, List.forall_mem_cons]
  exact ⟨by decide, by decide, ascii_hexDigit _, ascii_hexDigit _, ascii_hexDigit _,
    ascii_hexDigit _, by simp⟩

theorem encode_glyph (glyph : Glyph) :
    glyph.chars.flatMap utf8EncodeChar = (marksOf glyph).flatMap Mark.bytes := by
  cases glyph with
  | plain c allowed =>
      rw [Glyph.chars, marksOf, List.flatMap_singleton, List.flatMap_singleton, Mark.bytes]
  | escape short =>
      rw [Glyph.chars, Text.flatMap_encodeChar_ascii (Text.ascii_escape (ascii_letter short)),
        marksOf, List.flatMap_singleton]
      rfl
  | code unit isChar =>
      rw [Glyph.chars, encode_codeUnit, marksOf, List.flatMap_singleton]
  | pair high low isHigh isLow =>
      rw [Glyph.chars, List.flatMap_append, encode_codeUnit, encode_codeUnit, marksOf,
        List.flatMap_cons, List.flatMap_singleton]

theorem encode_quoted (glyphs : List Glyph) :
    Utf8.encode (.ofList (JsonSyntax.quoted glyphs)) = quoted (glyphs.flatMap marksOf) := by
  have content : (glyphs.flatMap Glyph.chars).flatMap utf8EncodeChar =
      (glyphs.flatMap marksOf).flatMap Mark.bytes := by
    rw [List.flatMap_assoc, List.flatMap_assoc]
    exact congrArg (glyphs.flatMap ·) (funext encode_glyph)
  rw [Utf8.encode_ofList, JsonSyntax.quoted, List.flatMap_cons, List.flatMap_append, content]
  rfl

theorem Spells.isString {text : String} {written : List UInt8} (spells : Spells text written) :
    IsString written := by
  obtain ⟨glyphs, -, rfl⟩ := spells
  rw [encode_quoted]
  exact .quoted _

theorem IsString.exists_cons {written : List UInt8} (isString : IsString written) :
    ∃ body, written = byte '"' :: body := by
  obtain ⟨marks⟩ := isString
  exact ⟨_, rfl⟩

/-! ## Reading and passing over parts -/

theorem hexValue?_char (digit : HexDigit) :
    Text.hexValue? (byte digit.char) = some digit.value.val := by
  obtain ⟨value, capital⟩ := digit
  revert value
  cases capital <;> decide

theorem escape?_letter (short : ShortEscape) :
    Text.escape? (byte short.letter) = some short.char ∧ byte short.letter ≠ byte 'u' := by
  cases short <;> decide

theorem number_eq (unit : CodeUnit) :
    16 * (16 * (16 * unit.first.value.val + unit.second.value.val) + unit.third.value.val) +
      unit.fourth.value.val = unit.number := by
  rw [CodeUnit.number]
  omega

theorem isPlain_of_allowed {c : Char} (allowed : 0x20 ≤ c.toNat ∧ c ≠ '"' ∧ c ≠ '\\') :
    ∀ b ∈ utf8EncodeChar c, Text.IsPlain b :=
  Text.isPlain_of_mem_encodeChar allowed.2.1 allowed.2.2 (Nat.not_lt.mpr allowed.1)

section

variable (rest : List UInt8) (place : Place) (text pending : List Char)

theorem readFrom_plainMark {c : Char} (allowed : 0x20 ≤ c.toNat ∧ c ≠ '"' ∧ c ≠ '\\') :
    ∃ next, readFrom ((Mark.plain c allowed).bytes ++ rest) place .plain text
        (pending.flatMap utf8EncodeChar).reverse =
      readFrom rest next .plain text ((pending ++ [c]).flatMap utf8EncodeChar).reverse := by
  obtain ⟨next, reads⟩ := Text.readFrom_plain (isPlain_of_allowed allowed) rest place text
    (pending.flatMap utf8EncodeChar).reverse
  refine ⟨next, ?_⟩
  rw [Mark.bytes, reads, List.flatMap_append, List.flatMap_singleton, List.reverse_append]

theorem readFrom_escapeMark (short : ShortEscape) :
    ∃ next, readFrom ((Mark.escape short).bytes ++ rest) place .plain text
        (pending.flatMap utf8EncodeChar).reverse =
      readFrom rest next .plain (short.char :: pending.reverseAux text) [] := by
  rw [Mark.bytes]
  exact Text.readFrom_escape (escape?_letter short).2 (escape?_letter short).1 rest place text
    pending

theorem readFrom_codeMark (unit : CodeUnit) :
    ∃ next, readFrom ((Mark.code unit).bytes ++ rest) place .plain text
        (pending.flatMap utf8EncodeChar).reverse =
      if Text.isTrailing unit.number then next.fault .surrogateLone
      else if Text.isLeading unit.number then
        readFrom rest next (.pair unit.number) (pending.reverseAux text) []
      else readFrom rest next .plain (Char.ofNat unit.number :: pending.reverseAux text) [] := by
  rw [Mark.bytes, CodeUnit.chars]
  exact Text.readFrom_unit (hexValue?_char _) (hexValue?_char _) (hexValue?_char _)
    (hexValue?_char _) (number_eq unit) rest place text pending

/-- The second unit of a pair. -/
theorem readFrom_secondMark (unit : CodeUnit) (leading : Nat) :
    ∃ next, readFrom ((Mark.code unit).bytes ++ rest) place (.pair leading) text [] =
      if Text.isTrailing unit.number then
        readFrom rest next .plain
          (Char.ofNat ((leading - 0xD800) * 1024 + (unit.number - 0xDC00) + 0x10000) :: text) []
      else next.fault .surrogateLone := by
  obtain ⟨a, b, c, d, digits, first, second, third, fourth⟩ :
      ∃ a b c d : UInt8, (Mark.code unit).bytes = [byte '\\', byte 'u', a, b, c, d] ∧
        Text.hexValue? a = some unit.first.value.val ∧
        Text.hexValue? b = some unit.second.value.val ∧
        Text.hexValue? c = some unit.third.value.val ∧
        Text.hexValue? d = some unit.fourth.value.val :=
    ⟨_, _, _, _, rfl, hexValue?_char _, hexValue?_char _, hexValue?_char _, hexValue?_char _⟩
  refine ⟨(((((place.after (byte '\\')).after (byte 'u')).after a).after b).after c).after d, ?_⟩
  rw [digits]
  simp only [List.cons_append, List.nil_append]
  rw [readFrom, if_pos rfl, readFrom, if_pos rfl]
  simp [readFrom, Text.CodeUnit.add, first, second, third, fourth, number_eq]

theorem readFrom_end :
    ∃ next, readFrom (byte '"' :: rest) place .plain text
        (pending.flatMap utf8EncodeChar).reverse =
      .ok (.ofList (text.reverse ++ pending), ⟨next, rest⟩) := by
  refine ⟨place.after (byte '"'), ?_⟩
  rw [readFrom, if_pos rfl, Text.addBytes_encoded]
  simp [bind, Except.bind, pure, Except.pure]

theorem skipFrom_mark (mark : Mark) :
    ∃ next, skipFrom (mark.bytes ++ rest) place .plain = skipFrom rest next .plain := by
  cases mark with
  | plain c allowed => exact Text.skipFrom_plain (isPlain_of_allowed allowed) rest place
  | escape short =>
      exact Text.skipFrom_escape (escape?_letter short).2 (escape?_letter short).1 rest place
  | code unit =>
      exact Text.skipFrom_unit (hexValue?_char _) (hexValue?_char _) (hexValue?_char _)
        (hexValue?_char _) rest place

end

/-! ## Code units -/

theorem not_surrogate_of_isValidChar {value : Nat} (valid : value.isValidChar) :
    Text.isTrailing value = false ∧ Text.isLeading value = false := by
  simp only [Nat.isValidChar] at valid
  simp only [Text.isTrailing, Text.isLeading, Bool.and_eq_false_iff, decide_eq_false_iff_not]
  omega

theorem isTrailing_iff {value : Nat} :
    Text.isTrailing value = true ↔ 0xDC00 ≤ value ∧ value ≤ 0xDFFF := by
  rw [Text.isTrailing, Bool.and_eq_true, decide_eq_true_eq, decide_eq_true_eq]

theorem isLeading_iff {value : Nat} :
    Text.isLeading value = true ↔ 0xD800 ≤ value ∧ value ≤ 0xDBFF := by
  rw [Text.isLeading, Bool.and_eq_true, decide_eq_true_eq, decide_eq_true_eq]

theorem isTrailing_of_isLeading {value : Nat} (leading : Text.isLeading value = true) :
    Text.isTrailing value = false := by
  rw [isLeading_iff] at leading
  rw [← Bool.not_eq_true, isTrailing_iff]
  omega

theorem number_lt (unit : CodeUnit) : unit.number < 0x10000 := by
  have first := unit.first.value.isLt
  have second := unit.second.value.isLt
  have third := unit.third.value.isLt
  have fourth := unit.fourth.value.isLt
  rw [CodeUnit.number]
  omega

/-- A unit that is not half of a pair is a character. -/
theorem isValidChar_of_alone {unit : CodeUnit} (notTrailing : ¬Text.isTrailing unit.number = true)
    (notLeading : ¬Text.isLeading unit.number = true) : unit.number.isValidChar := by
  have small := number_lt unit
  rw [isTrailing_iff] at notTrailing
  rw [isLeading_iff] at notLeading
  rw [Nat.isValidChar]
  omega

/-- The character of a pair, as it is computed while reading. -/
theorem char_pair (high low : CodeUnit) (isHigh : 0xD800 ≤ high.number ∧ high.number ≤ 0xDBFF)
    (isLow : 0xDC00 ≤ low.number ∧ low.number ≤ 0xDFFF) :
    (Glyph.pair high low isHigh isLow).char =
      .ofNat ((high.number - 0xD800) * 1024 + (low.number - 0xDC00) + 0x10000) := by
  have code : 0x10000 + (high.number - 0xD800) * 0x400 + (low.number - 0xDC00) =
      (high.number - 0xD800) * 1024 + (low.number - 0xDC00) + 0x10000 := by omega
  rw [Glyph.char, code]

/-! ## Strings that spell texts -/

/-- A character is read from its spelling.  It ends up with the pending ones, or after them. -/
theorem readFrom_glyph (glyph : Glyph) (rest : List UInt8) (place : Place)
    (text pending : List Char) :
    ∃ next text' pending',
      readFrom ((marksOf glyph).flatMap Mark.bytes ++ rest) place .plain text
          (pending.flatMap utf8EncodeChar).reverse =
        readFrom rest next .plain text' (pending'.flatMap utf8EncodeChar).reverse ∧
      text'.reverse ++ pending' = text.reverse ++ pending ++ [glyph.char] := by
  cases glyph with
  | plain c allowed =>
      obtain ⟨next, reads⟩ := readFrom_plainMark rest place text pending allowed
      refine ⟨next, text, pending ++ [c], ?_, (List.append_assoc ..).symm⟩
      rw [marksOf, List.flatMap_singleton, reads]
  | escape short =>
      obtain ⟨next, reads⟩ := readFrom_escapeMark rest place text pending short
      refine ⟨next, short.char :: pending.reverseAux text, [], ?_, by simp [Glyph.char]⟩
      rw [marksOf, List.flatMap_singleton, reads]
      rfl
  | code unit isChar =>
      obtain ⟨notTrailing, notLeading⟩ := not_surrogate_of_isValidChar isChar
      obtain ⟨next, reads⟩ := readFrom_codeMark rest place text pending unit
      refine ⟨next, .ofNat unit.number :: pending.reverseAux text, [], ?_, by simp [Glyph.char]⟩
      rw [marksOf, List.flatMap_singleton, reads, notTrailing, notLeading]
      rfl
  | pair high low isHigh isLow =>
      have leading := isLeading_iff.mpr isHigh
      obtain ⟨between, readsHigh⟩ :=
        readFrom_codeMark ((Mark.code low).bytes ++ rest) place text pending high
      rw [isTrailing_of_isLeading leading, leading, if_neg Bool.false_ne_true, if_pos rfl]
        at readsHigh
      obtain ⟨next, readsLow⟩ :=
        readFrom_secondMark rest between (pending.reverseAux text) low high.number
      rw [if_pos (isTrailing_iff.mpr isLow)] at readsLow
      refine ⟨next, .ofNat ((high.number - 0xD800) * 1024 + (low.number - 0xDC00) + 0x10000) ::
        pending.reverseAux text, [], ?_, ?_⟩
      · rw [marksOf, List.flatMap_cons, List.flatMap_singleton, List.append_assoc, readsHigh,
          readsLow]
        rfl
      · simp [char_pair]

theorem readFrom_glyphs (glyphs : List Glyph) (rest : List UInt8) (place : Place)
    (text pending : List Char) :
    ∃ next, readFrom ((glyphs.flatMap marksOf).flatMap Mark.bytes ++ byte '"' :: rest) place
        .plain text (pending.flatMap utf8EncodeChar).reverse =
      .ok (.ofList (text.reverse ++ pending ++ glyphs.map Glyph.char), ⟨next, rest⟩) := by
  induction glyphs generalizing place text pending with
  | nil =>
      rw [List.map_nil, List.append_nil]
      exact readFrom_end rest place text pending
  | cons glyph later inductionHypothesis =>
      obtain ⟨between, text', pending', reads, same⟩ :=
        readFrom_glyph glyph
          ((later.flatMap marksOf).flatMap Mark.bytes ++ byte '"' :: rest) place text pending
      obtain ⟨next, readsLater⟩ := inductionHypothesis between text' pending'
      refine ⟨next, ?_⟩
      rw [List.flatMap_cons, List.flatMap_append, List.append_assoc, reads, readsLater, same,
        List.map_cons, List.append_assoc, List.singleton_append]

/-- After the first unit of a pair a string goes on with the second, or is not read. -/
theorem exists_second_of_readFrom {marks : List Mark} {rest : List UInt8} {place : Place}
    {leading : Nat} {text : List Char} {read : String × Cursor}
    (reads : readFrom (marks.flatMap Mark.bytes ++ byte '"' :: rest) place (.pair leading) text [] =
      .ok read) :
    ∃ (second : CodeUnit) (more : List Mark) (next : Place), marks = .code second :: more ∧
      Text.isTrailing second.number = true ∧
      readFrom (more.flatMap Mark.bytes ++ byte '"' :: rest) next .plain
        (Char.ofNat ((leading - 0xD800) * 1024 + (second.number - 0xDC00) + 0x10000) :: text) [] =
      .ok read := by
  have refused {b : UInt8} (notBackslash : b ≠ byte '\\') (others : List UInt8) :
      readFrom (b :: others) place (.pair leading) text [] ≠ .ok read := by
    rw [readFrom, if_neg notBackslash]
    rintro ⟨⟩
  rcases marks with _ | ⟨⟨c, allowed⟩ | short | second, more⟩
  · exact absurd reads (refused (by decide) rest)
  · rcases encoded : utf8EncodeChar c with _ | ⟨b, others⟩
    · exact absurd encoded (String.utf8EncodeChar_ne_nil)
    · have plain := isPlain_of_allowed allowed b (encoded ▸ List.mem_cons_self)
      rw [List.flatMap_cons, Mark.bytes, encoded] at reads
      exact absurd reads (refused plain.2.1 _)
  · rw [List.flatMap_cons, Mark.bytes, List.append_assoc, List.cons_append, List.cons_append,
      readFrom, if_pos rfl, readFrom, if_neg (escape?_letter short).2] at reads
    cases reads
  · obtain ⟨next, readsSecond⟩ := readFrom_secondMark
      (more.flatMap Mark.bytes ++ byte '"' :: rest) place text second leading
    rw [List.flatMap_cons, List.append_assoc, readsSecond] at reads
    split at reads
    · exact ⟨second, more, next, rfl, ‹_›, reads⟩
    · cases reads

/-- If a string is read, its parts spell characters.  A pair takes two parts, so the induction is on
the number of parts. -/
theorem exists_glyphs_of_readFrom {marks : List Mark} {rest : List UInt8} {place : Place}
    {text pending : List Char} {read : String} {next : Cursor}
    (reads : readFrom (marks.flatMap Mark.bytes ++ byte '"' :: rest) place .plain text
      (pending.flatMap utf8EncodeChar).reverse = .ok (read, next)) :
    ∃ glyphs : List Glyph, glyphs.flatMap marksOf = marks ∧
      read = .ofList (text.reverse ++ pending ++ glyphs.map Glyph.char) ∧ next.rest = rest := by
  induction count : marks.length using Nat.strongRecOn
    generalizing marks place text pending with
  | ind count inductionHypothesis =>
  subst count
  rcases marks with _ | ⟨⟨c, allowed⟩ | short | unit, later⟩
  · obtain ⟨last, ends⟩ := readFrom_end rest place text pending
    rw [List.flatMap_nil, List.nil_append, ends] at reads
    cases reads
    exact ⟨[], rfl, by rw [List.map_nil, List.append_nil], rfl⟩
  · obtain ⟨between, readsMark⟩ := readFrom_plainMark
      (later.flatMap Mark.bytes ++ byte '"' :: rest) place text pending allowed
    rw [List.flatMap_cons, List.append_assoc, readsMark] at reads
    obtain ⟨glyphs, rfl, rfl, atRest⟩ :=
      inductionHypothesis later.length (Nat.lt_succ_self _) reads rfl
    exact ⟨.plain c allowed :: glyphs, rfl, by simp [Glyph.char], atRest⟩
  · obtain ⟨between, readsMark⟩ := readFrom_escapeMark
      (later.flatMap Mark.bytes ++ byte '"' :: rest) place text pending short
    rw [List.flatMap_cons, List.append_assoc, readsMark] at reads
    obtain ⟨glyphs, rfl, rfl, atRest⟩ :=
      @inductionHypothesis later.length (Nat.lt_succ_self _) later _ _ [] reads rfl
    exact ⟨.escape short :: glyphs, rfl, by simp [Glyph.char], atRest⟩
  · obtain ⟨between, readsMark⟩ := readFrom_codeMark
      (later.flatMap Mark.bytes ++ byte '"' :: rest) place text pending unit
    rw [List.flatMap_cons, List.append_assoc, readsMark] at reads
    split at reads
    · cases reads
    rename_i notTrailing
    split at reads
    · rename_i leading
      -- Nothing is added for the first unit, so the reading is taken up behind the second one.
      obtain ⟨second, more, after, rfl, trailing, readsMore⟩ := exists_second_of_readFrom reads
      obtain ⟨glyphs, rfl, rfl, atRest⟩ :=
        @inductionHypothesis more.length (Nat.lt_succ_of_lt (Nat.lt_succ_self _)) more _ _ []
          readsMore rfl
      exact ⟨.pair unit second (isLeading_iff.mp leading) (isTrailing_iff.mp trailing) :: glyphs,
        rfl, by simp [char_pair], atRest⟩
    · rename_i notLeading
      obtain ⟨glyphs, rfl, rfl, atRest⟩ :=
        @inductionHypothesis later.length (Nat.lt_succ_self _) later _ _ [] reads rfl
      exact ⟨.code unit (isValidChar_of_alone notTrailing notLeading) :: glyphs, rfl,
        by simp [Glyph.char], atRest⟩

/-! ## Cursors -/

section

variable {body : List UInt8} {text : String}

/-- A string that spells a text is read as this text. -/
theorem read_of_spells (spells : Spells text (byte '"' :: body)) (place : Place)
    (rest : List UInt8) : ∃ next, Text.read ⟨place, body ++ rest⟩ = .ok (text, ⟨next, rest⟩) := by
  obtain ⟨glyphs, rfl, written⟩ := spells
  rw [encode_quoted, quoted, List.cons.injEq] at written
  obtain ⟨next, reads⟩ := readFrom_glyphs glyphs rest place [] []
  refine ⟨next, ?_⟩
  rw [written.2, List.append_assoc, List.singleton_append]
  exact reads

/-- What is read from a string is the text that it spells. -/
theorem spells_of_read (isString : IsString (byte '"' :: body)) {place : Place}
    {rest : List UInt8} {next : Cursor}
    (reads : Text.read ⟨place, body ++ rest⟩ = .ok (text, next)) :
    Spells text (byte '"' :: body) ∧ next.rest = rest := by
  generalize isWritten : byte '"' :: body = written at isString
  obtain ⟨marks⟩ := isString
  rw [quoted, List.cons.injEq] at isWritten
  rw [isWritten.2, List.append_assoc, List.singleton_append] at reads
  obtain ⟨glyphs, rfl, isRead, atRest⟩ :=
    @exists_glyphs_of_readFrom marks rest (place) [] [] text next reads
  exact ⟨⟨glyphs, isRead.symm, (encode_quoted glyphs).symm⟩, atRest⟩

/-- A string spells no other text. -/
theorem Spells.unique {written : List UInt8} {first second : String} (spells : Spells first written)
    (spellsToo : Spells second written) : first = second := by
  obtain ⟨body, rfl⟩ := spells.isString.exists_cons
  obtain ⟨next, reads⟩ := read_of_spells spells ⟨1, 0⟩ []
  obtain ⟨last, readsToo⟩ := read_of_spells spellsToo ⟨1, 0⟩ []
  rw [reads] at readsToo
  exact congrArg Prod.fst (Except.ok.inj readsToo)

theorem skipFrom_marks (marks : List Mark) (place : Place) (rest : List UInt8) :
    ∃ next, skipFrom (marks.flatMap Mark.bytes ++ byte '"' :: rest) place .plain =
      .ok ⟨next, rest⟩ := by
  induction marks generalizing place with
  | nil =>
      refine ⟨place.after (byte '"'), ?_⟩
      rw [List.flatMap_nil, List.nil_append, skipFrom, if_pos rfl]
  | cons mark later inductionHypothesis =>
      obtain ⟨between, skips⟩ :=
        skipFrom_mark (later.flatMap Mark.bytes ++ byte '"' :: rest) place mark
      obtain ⟨next, skipsLater⟩ := inductionHypothesis between
      refine ⟨next, ?_⟩
      rw [List.flatMap_cons, List.append_assoc, skips, skipsLater]

theorem skip_of_isString (isString : IsString (byte '"' :: body)) (place : Place)
    (rest : List UInt8) : ∃ next, Text.skip ⟨place, body ++ rest⟩ = .ok ⟨next, rest⟩ := by
  generalize isWritten : byte '"' :: body = written at isString
  obtain ⟨marks⟩ := isString
  rw [quoted, List.cons.injEq] at isWritten
  rw [isWritten.2, List.append_assoc, List.singleton_append, Text.skip]
  exact skipFrom_marks marks place rest

end

/-! ## Quoted texts -/

theorem char_hexDigit (value : Fin 16) :
    (HexDigit.mk value false).char = Text.hexDigit value.val := by
  revert value
  decide

/-- Any character can be written, and is written in one of the ways that it can be read from. -/
theorem exists_glyph (c : Char) :
    ∃ glyph : Glyph, glyph.char = c ∧ glyph.chars = Text.quoteChar c := by
  fun_cases Text.quoteChar c with
  | case1 same => exact ⟨.escape .quote, same.symm, rfl⟩
  | case2 _ same => exact ⟨.escape .backslash, same.symm, rfl⟩
  | case3 _ _ same => exact ⟨.escape .backspace, same.symm, rfl⟩
  | case4 _ _ _ same => exact ⟨.escape .tab, same.symm, rfl⟩
  | case5 _ _ _ _ same => exact ⟨.escape .lineFeed, same.symm, rfl⟩
  | case6 _ _ _ _ _ same => exact ⟨.escape .formFeed, same.symm, rfl⟩
  | case7 _ _ _ _ _ _ same => exact ⟨.escape .carriageReturn, same.symm, rfl⟩
  | case8 =>
      have high : c.toNat / 16 < 16 := by omega
      have low : c.toNat % 16 < 16 := by omega
      let unit : CodeUnit := ⟨⟨0, false⟩, ⟨0, false⟩, ⟨⟨c.toNat / 16, high⟩, false⟩,
        ⟨⟨c.toNat % 16, low⟩, false⟩⟩
      have number : unit.number = c.toNat := by
        change ((0 * 16 + 0) * 16 + c.toNat / 16) * 16 + c.toNat % 16 = c.toNat
        omega
      refine ⟨.code unit (number ▸ c.valid), ?_, ?_⟩
      · rw [Glyph.char, number, Char.ofNat_toNat]
      · rw [Glyph.chars, CodeUnit.chars, char_hexDigit, char_hexDigit, char_hexDigit]
        rfl
  | case9 notQuote notBackslash _ _ _ _ _ notControl =>
      exact ⟨.plain c ⟨Nat.not_lt.mp notControl, notQuote, notBackslash⟩, rfl, rfl⟩

theorem exists_glyphs (chars : List Char) :
    ∃ glyphs : List Glyph, glyphs.map Glyph.char = chars ∧
      glyphs.flatMap Glyph.chars = chars.flatMap Text.quoteChar := by
  induction chars with
  | nil => exact ⟨[], rfl, rfl⟩
  | cons c later inductionHypothesis =>
      obtain ⟨glyph, isChar, written⟩ := exists_glyph c
      obtain ⟨glyphs, areChars, writtenLater⟩ := inductionHypothesis
      refine ⟨glyph :: glyphs, ?_, ?_⟩
      · rw [List.map_cons, isChar, areChars]
      · rw [List.flatMap_cons, List.flatMap_cons, written, writtenLater]

theorem spells_quote (text : String) : Spells text (Utf8.encode (Text.quote text)) := by
  obtain ⟨glyphs, areChars, written⟩ := exists_glyphs text.toList
  refine ⟨glyphs, ?_, ?_⟩
  · rw [JsonSyntax.decoded, areChars, String.ofList_toList]
  · rw [JsonSyntax.quoted, written]
    rfl

end Json
end FieldLine
