import FieldLine.Proofs.Yaml.BlockTokens

/-!
# Reading scalars in flow collections

A bare word, such as a number, is read up to the comma or bracket after it, whatever white space
stands between the two.  A text in double quotes on one line is read as what its escapes stand for.
-/

namespace FieldLine
namespace Yaml

/-! ## Marks -/

/-- The mark after some text. -/
def Mark.past (mark : Mark) : List Char → Mark
  | [] => mark
  | c :: rest => Mark.past (if c = '\n' then ⟨mark.line + 1, 0⟩ else mark.right 1) rest

namespace Mark

theorem past_append (mark : Mark) (first second : List Char) :
    mark.past (first ++ second) = (mark.past first).past second := by
  induction first generalizing mark with
  | nil => rfl
  | cons c rest inductionHypothesis => exact inductionHypothesis _

theorem past_cons {c : Char} (notBreak : c ≠ '\n') (mark : Mark) (rest : List Char) :
    mark.past (c :: rest) = (mark.right 1).past rest := by
  rw [past, if_neg notBreak]

theorem past_line (mark : Mark) (text : List Char) :
    (mark.past text).line = mark.line + text.count '\n' := by
  induction text generalizing mark with
  | nil => rfl
  | cons c rest inductionHypothesis =>
      rw [past, inductionHypothesis, List.count_cons]
      by_cases isBreak : c = '\n'
      · subst isBreak
        simp only [beq_self_eq_true, if_true]
        omega
      · simp [isBreak, right]

theorem past_eq_right {text : List Char} (oneLine : ∀ c ∈ text, c ≠ '\n') (mark : Mark) :
    mark.past text = mark.right text.length := by
  induction text generalizing mark with
  | nil => rfl
  | cons c rest inductionHypothesis =>
      rw [List.forall_mem_cons] at oneLine
      rw [past, if_neg oneLine.1, inductionHypothesis oneLine.2, right, right, List.length_cons]
      congr 1
      change mark.column + 1 + rest.length = _
      omega

end Mark

/-! ## Bare words -/

/-- A word that starts with a letter or a digit, perhaps after a hyphen. -/
inductive IsBareWord : List Char → Prop where
  | plain {c : Char} {word : List Char} : c.isAlphanum = true →
      (∀ other ∈ word, isBare other = true) → IsBareWord (c :: word)
  | negative {c : Char} {word : List Char} : c.isAlphanum = true →
      (∀ other ∈ word, isBare other = true) → IsBareWord ('-' :: c :: word)

/-- What follows a value in a flow collection, or the end of the text. -/
inductive EndsValue : List Char → Prop where
  | textEnd : EndsValue []
  | comma (rest : List Char) : EndsValue (',' :: rest)
  | square (rest : List Char) : EndsValue (']' :: rest)
  | curly (rest : List Char) : EndsValue ('\x7d' :: rest)

theorem EndsValue.beginsToken {next : List Char} (ends : EndsValue next) : BeginsToken next := by
  cases ends with
  | textEnd => trivial
  | comma => exact ⟨rfl, by decide⟩
  | square => exact ⟨rfl, by decide⟩
  | curly => exact ⟨rfl, by decide⟩

namespace Plain

variable {setting : Setting} {pad next word : List Char}

theorem readFrom_end (inFlow : setting.inFlow = true) (ends : EndsValue next) (place : Place)
    (gap : Gap) (text : List Char) (sighted : Nat) :
    readFrom setting next place .gap gap text sighted = .ok ⟨text, ⟨place, next⟩, sighted⟩ := by
  cases ends with
  | textEnd =>
      rw [readFrom]
      intros
      contradiction
  | _ =>
      rw [readFrom]
      simp [isTabIndent, isBlank, continues, isFlow, inFlow, atDocumentIndicator, atTriple_of_ne]

/-- White space after a scalar is passed over, up to what follows. -/
theorem readFrom_padding (inFlow : setting.inFlow = true) (shallow : setting.indent ≤ 0)
    (blank : ∀ c ∈ pad, isSpace c = true) (ends : EndsValue next) (mark : Mark) (fresh : Bool)
    (gap : Gap) (text : List Char) (sighted : Nat) :
    ∃ fresh' : Bool,
      readFrom setting (pad ++ next) ⟨mark.line, mark.column, (pad ++ next).length, fresh⟩ .gap gap
          text sighted =
        .ok ⟨text, ⟨⟨(mark.past pad).line, (mark.past pad).column, next.length, fresh'⟩, next⟩,
          sighted⟩ := by
  induction pad generalizing mark fresh gap with
  | nil => exact ⟨fresh, readFrom_end inFlow ends _ _ _ _⟩
  | cons c rest inductionHypothesis =>
      rw [List.forall_mem_cons] at blank
      have noIndent (place : Place) : isTabIndent setting place c = false := by
        have notShallow : ¬(place.column : Int) < setting.indent := by omega
        simp [isTabIndent, notShallow]
      have isSpaceHere := blank.1
      rw [isSpace, Bool.or_eq_true, decide_eq_true_eq] at isSpaceHere
      rw [List.cons_append, readFrom, noIndent, Bool.false_and, if_neg Bool.false_ne_true]
      rcases isSpaceHere with isBlankHere | isBreak
      · have notBreak : c ≠ '\n' := by
          rintro rfl
          cases isBlankHere
        rw [if_pos isBlankHere, Mark.past, if_neg notBreak]
        split <;> exact inductionHypothesis blank.2 (mark.right 1) _ _
      · subst isBreak
        rw [if_neg (by decide), if_pos rfl, Mark.past, if_pos rfl]
        split <;> exact inductionHypothesis blank.2 ⟨mark.line + 1, 0⟩ _ _

/-- A word ends with the white space after it or, if there is none, with what follows. -/
theorem readFrom_after_word (inFlow : setting.inFlow = true) (shallow : setting.indent ≤ 0)
    (blank : ∀ c ∈ pad, isSpace c = true) (ends : EndsValue next) (mark : Mark) (ahead : Nat)
    (text : List Char) (sighted : Nat) :
    ∃ (fresh : Bool) (sighted' : Nat),
      readFrom setting (pad ++ next) ⟨mark.line, mark.column, (pad ++ next).length, false⟩
          (.word ahead) {} text sighted =
        .ok ⟨text, ⟨⟨(mark.past pad).line, (mark.past pad).column, next.length, fresh⟩, next⟩,
          sighted'⟩ := by
  cases pad with
  | nil =>
      refine ⟨false, next.length - ahead, ?_⟩
      rw [List.nil_append]
      cases ends with
      | textEnd => rfl
      | _ =>
          rw [readFrom]
          simp [isBlank, continues, isFlow, inFlow, Mark.past]
  | cons c rest =>
      rw [List.forall_mem_cons] at blank
      have isSpaceHere := blank.1
      rw [isSpace, Bool.or_eq_true, decide_eq_true_eq] at isSpaceHere
      rw [List.cons_append, readFrom]
      rcases isSpaceHere with isBlankHere | isBreak
      · have notBreak : c ≠ '\n' := by
          rintro rfl
          cases isBlankHere
        obtain ⟨fresh, reads⟩ :=
          readFrom_padding inFlow shallow blank.2 ends (mark.right 1) false { blanks := [c] } text
            ((c :: rest ++ next).length - ahead)
        refine ⟨fresh, (c :: rest ++ next).length - ahead, ?_⟩
        rw [if_pos isBlankHere, Mark.past, if_neg notBreak]
        exact reads
      · subst isBreak
        obtain ⟨fresh, reads⟩ :=
          readFrom_padding inFlow shallow blank.2 ends ⟨mark.line + 1, 0⟩ true { broken := true }
            text (('\n' :: rest ++ next).length - ahead)
        refine ⟨fresh, ('\n' :: rest ++ next).length - ahead, ?_⟩
        rw [if_neg (by decide), if_pos rfl, Mark.past, if_pos rfl]
        exact reads

theorem mayStart_of_isBareWord (bareWord : IsBareWord word) (rest : List Char) :
    MayStart (word ++ rest) := by
  cases bareWord with
  | plain alphanumeric bare => exact mayStart_of_isAlphanum alphanumeric _
  | @negative c word alphanumeric bare =>
      have notDash := ne_of_isAlphanum alphanumeric '-' rfl
      constructor
      · have notStart : atTriple '-' ('-' :: c :: (word ++ rest)) = false := by
          rcases word ++ rest with _ | ⟨third, others⟩ <;> simp [atTriple, notDash]
        have notEnd : atTriple '.' ('-' :: c :: (word ++ rest)) = false :=
          atTriple_of_ne (by decide) _
        change (atTriple '-' ('-' :: c :: (word ++ rest)) || atTriple '.' _) = false
        rw [notStart, Bool.false_or]
        exact notEnd
      · intro
        have continuesWord := continues_of_isBare (isBare_of_isAlphanum alphanumeric) true []
        rw [continues, if_neg (ne_of_isAlphanum alphanumeric ':' rfl)] at continuesWord
        change isFlow c = false
        simpa using continuesWord

theorem isBare_of_isBareWord (bareWord : IsBareWord word) : ∀ c ∈ word, isBare c = true := by
  cases bareWord with
  | plain alphanumeric bare =>
      exact List.forall_mem_cons.mpr ⟨isBare_of_isAlphanum alphanumeric, bare⟩
  | negative alphanumeric bare =>
      exact List.forall_mem_cons.mpr
        ⟨rfl, List.forall_mem_cons.mpr ⟨isBare_of_isAlphanum alphanumeric, bare⟩⟩

theorem ne_nil_of_isBareWord (bareWord : IsBareWord word) : word ≠ [] := by
  cases bareWord <;> exact List.cons_ne_nil _ _

/-- A bare word and the white space after it, up to what follows. -/
theorem read_bare (bareWord : IsBareWord word) (blank : ∀ c ∈ pad, isSpace c = true)
    (ends : EndsValue next) (mark : Mark) (fresh : Bool) :
    ∃ (fresh' : Bool) (sighted : Nat),
      read ⟨⟨mark.line, mark.column, (word ++ (pad ++ next)).length, fresh⟩, word ++ (pad ++ next)⟩
          0 true =
        .ok ⟨word,
          ⟨⟨(mark.past (word ++ pad)).line, (mark.past (word ++ pad)).column, next.length, fresh'⟩,
            next⟩, sighted⟩ := by
  let setting : Setting := ⟨mark, 0, true⟩
  have someChar := ne_nil_of_isBareWord bareWord
  have bare := isBare_of_isBareWord bareWord
  have oneLine : ∀ c ∈ word, c ≠ '\n' := fun c member => ne_of_isBare (bare c member) '\n' rfl
  obtain ⟨ahead, afterWord⟩ :
      ∃ ahead : Nat,
        readFrom setting (word ++ (pad ++ next))
            ⟨mark.line, mark.column, word.length + (pad ++ next).length, fresh⟩ .start {} []
            (word.length + (pad ++ next).length) = _ :=
    readFrom_start someChar bare (mayStart_of_isBareWord bareWord _) _ _ _ _ _
  obtain ⟨fresh', sighted, afterPad⟩ :
      ∃ (fresh' : Bool) (sighted : Nat),
        readFrom setting (pad ++ next)
            ⟨mark.line, (mark.right word.length).column, (pad ++ next).length, false⟩ (.word ahead)
            {} word.reverse (word.length + (pad ++ next).length) = .ok _ :=
    readFrom_after_word rfl (Int.le_refl 0) blank ends (mark.right word.length) ahead word.reverse _
  refine ⟨fresh', sighted, ?_⟩
  rw [Mark.past_append, Mark.past_eq_right oneLine, List.length_append]
  change (readFrom setting _ _ .start {} [] _ >>= _) = _
  have reads := afterWord.trans afterPad
  rw [reads]
  simp [bind, Except.bind, pure, Except.pure, someChar]

end Plain

/-! ## Double quotes -/

namespace Quoted

/-- The ways in which a character stands between double quotes. -/
inductive IsWritten : Char → List Char → Prop where
  | self {c : Char} : c ≠ '\t' → c ≠ '\n' → c ≠ '"' → c ≠ '\\' → IsWritten c [c]
  | escape {c letter : Char} : letter ≠ '\n' → escape? letter = some (.char c) →
      IsWritten c ['\\', letter]
  | code {c first second third fourth : Char} {a b d e : Nat} :
      Hex.value? first = some a → Hex.value? second = some b → Hex.value? third = some d →
      Hex.value? fourth = some e → Hex.char? (16 * (16 * (16 * a + b) + d) + e) = some c →
      IsWritten c ['\\', 'u', first, second, third, fourth]

/-- The text so far, with the blanks after it, while a scalar is read on its first line. -/
inductive Holds (done : List Char) : Part → List Char → Prop where
  | text : Holds done .text done
  | gap {blanks text : List Char} : done = blanks ++ text →
      Holds done (.gap { blanks := blanks }) text

variable {setting : Setting} {done text chars rest : List Char} {part : Part} {c : Char}

section

variable {line column left : Nat} {fresh : Bool}

theorem readFrom_blank (holds : Holds done part text) :
    ∃ part' : Part, Holds (' ' :: done) part' text ∧
      readFrom setting (' ' :: rest) ⟨line, column, left + 1, fresh⟩ part text =
        readFrom setting rest ⟨line, column + 1, left, fresh⟩ part' text := by
  cases holds with
  | text =>
      refine ⟨.gap { blanks := [' '] }, .gap rfl, ?_⟩
      rw [readFrom]
      · simp [isBlank, Place.blank]
      all_goals
        intros
        contradiction
  | @gap blanks _ shown =>
      refine ⟨.gap { blanks := ' ' :: blanks }, .gap (by rw [shown, List.cons_append]), ?_⟩
      rw [readFrom]
      simp [isBlank, Place.blank]

variable (double : setting.single = false) (notFirst : 0 < column)
  (deep : setting.indent ≤ (column : Int))
include double notFirst deep

theorem readFrom_solid (holds : Holds done part text) (notBlank : isBlank c = false)
    (notBreak : c ≠ '\n') (notQuote : c ≠ '"') (notBackslash : c ≠ '\\') :
    readFrom setting (c :: rest) ⟨line, column, left + 1, fresh⟩ part text =
      readFrom setting rest ⟨line, column + 1, left, false⟩ .text (c :: done) := by
  have notShallow : ¬(column : Int) < setting.indent := Int.not_lt.mpr deep
  have notZero : column ≠ 0 := Nat.ne_of_gt notFirst
  cases holds with
  | text =>
      rw [readFrom]
      · simp [notBlank, notBreak, notQuote, notBackslash, double, Place.solid, Gap.addTo]
      all_goals
        intros
        contradiction
  | gap shown =>
      rw [readFrom]
      simp [notBlank, notBreak, notQuote, notBackslash, double, notZero, notShallow,
        Place.solid, Gap.addTo, shown]

theorem readFrom_escape (holds : Holds done part text) {letter : Char} (notBreak : letter ≠ '\n')
    (escapes : escape? letter = some (.char c)) :
    readFrom setting ('\\' :: letter :: rest) ⟨line, column, left + 2, fresh⟩ part text =
      readFrom setting rest ⟨line, column + 2, left, false⟩ .text (c :: done) := by
  have notShallow : ¬(column : Int) < setting.indent := Int.not_lt.mpr deep
  have notZero : column ≠ 0 := Nat.ne_of_gt notFirst
  cases holds with
  | text =>
      rw [readFrom]
      · simp [isBlank, double, Place.solid, Gap.addTo, escapes]
      all_goals
        intros
        contradiction
  | gap shown =>
      rw [readFrom]
      simp [isBlank, double, notZero, notShallow, Place.solid, Gap.addTo, shown, escapes]

theorem readFrom_code (holds : Holds done part text) {first second third fourth : Char}
    {a b d e : Nat} (isFirst : Hex.value? first = some a) (isSecond : Hex.value? second = some b)
    (isThird : Hex.value? third = some d) (isFourth : Hex.value? fourth = some e)
    (isChar : Hex.char? (16 * (16 * (16 * a + b) + d) + e) = some c) :
    readFrom setting ('\\' :: 'u' :: first :: second :: third :: fourth :: rest)
        ⟨line, column, left + 6, fresh⟩ part text =
      readFrom setting rest ⟨line, column + 6, left, false⟩ .text (c :: done) := by
  have notShallow : ¬(column : Int) < setting.indent := Int.not_lt.mpr deep
  have notZero : column ≠ 0 := Nat.ne_of_gt notFirst
  have known : escape? 'u' = some (.code 4) := rfl
  have digits :
      readFrom setting (first :: second :: third :: fourth :: rest)
          ⟨line, column + 2, left + 4, false⟩ (.code 4 0) done =
        readFrom setting rest ⟨line, column + 6, left, false⟩ .text (c :: done) := by
    simp [readFrom, isFirst, isSecond, isThird, isFourth, isChar, Place.solid]
  cases holds with
  | text =>
      rw [readFrom]
      · simpa [isBlank, double, Place.solid, Gap.addTo, known] using digits
      all_goals
        intros
        contradiction
  | gap shown =>
      rw [readFrom]
      simpa [isBlank, double, notZero, notShallow, Place.solid, Gap.addTo, shown, known] using
        digits

/-- One character, after which the text so far holds it. -/
theorem readFrom_written (holds : Holds done part text) (written : IsWritten c chars)
    (rest : List Char) (line left : Nat) (fresh : Bool) :
    ∃ (fresh' : Bool) (part' : Part) (text' : List Char), Holds (c :: done) part' text' ∧
      readFrom setting (chars ++ rest) ⟨line, column, chars.length + left, fresh⟩ part text =
        readFrom setting rest ⟨line, column + chars.length, left, fresh'⟩ part' text' := by
  rw [Nat.add_comm chars.length left]
  cases written with
  | self notTab notBreak notQuote notBackslash =>
      by_cases isSpace : c = ' '
      · subst isSpace
        obtain ⟨part', later, reads⟩ := readFrom_blank holds
        exact ⟨fresh, part', text, later, reads⟩
      · have notBlank : isBlank c = false := by simp [isBlank, isSpace, notTab]
        exact ⟨false, .text, c :: done, .text,
          readFrom_solid double notFirst deep holds notBlank notBreak notQuote notBackslash⟩
  | escape notBreak escapes =>
      exact ⟨false, .text, c :: done, .text,
        readFrom_escape double notFirst deep holds notBreak escapes⟩
  | code first second third fourth isChar =>
      exact ⟨false, .text, c :: done, .text,
        readFrom_code double notFirst deep holds first second third fourth isChar⟩

theorem readFrom_quote (holds : Holds done part text) :
    readFrom setting ('"' :: rest) ⟨line, column, left + 1, fresh⟩ part text =
      .ok (done.reverse, ⟨⟨line, column + 1, left, false⟩, rest⟩) := by
  have notShallow : ¬(column : Int) < setting.indent := Int.not_lt.mpr deep
  have notZero : column ≠ 0 := Nat.ne_of_gt notFirst
  cases holds with
  | text =>
      rw [readFrom]
      · simp [isBlank, double, Place.solid, Gap.addTo]
      all_goals
        intros
        contradiction
  | gap shown =>
      rw [readFrom]
      simp [isBlank, double, notZero, notShallow, Place.solid, Gap.addTo, shown]

end

/-- Characters up to the closing quotation mark. -/
theorem readFrom_glyphs {α : Type} (char : α → Char) (spell : α → List Char) {glyphs : List α}
    (written : ∀ glyph ∈ glyphs, IsWritten (char glyph) (spell glyph))
    (double : setting.single = false) (shallow : setting.indent ≤ 0) (holds : Holds done part text)
    {line column left : Nat} {fresh : Bool} (notFirst : 0 < column) (rest : List Char) :
    readFrom setting (glyphs.flatMap spell ++ '"' :: rest)
        ⟨line, column, (glyphs.flatMap spell).length + (left + 1), fresh⟩ part text =
      .ok (done.reverse ++ glyphs.map char,
        ⟨⟨line, column + (glyphs.flatMap spell).length + 1, left, false⟩, rest⟩) := by
  induction glyphs generalizing done part text column fresh with
  | nil =>
      have deep : setting.indent ≤ (column : Int) := by omega
      rw [List.flatMap_nil, List.nil_append, List.length_nil, Nat.zero_add,
        readFrom_quote double notFirst deep holds, List.map_nil, List.append_nil]
  | cons glyph later inductionHypothesis =>
      rw [List.forall_mem_cons] at written
      have deep : setting.indent ≤ (column : Int) := by omega
      obtain ⟨fresh', part', text', holdsLater, reads⟩ :=
        readFrom_written double notFirst deep holds written.1 (later.flatMap spell ++ '"' :: rest)
          line ((later.flatMap spell).length + (left + 1)) fresh
      have further : 0 < column + (spell glyph).length := by omega
      rw [List.flatMap_cons, List.append_assoc, List.length_append, Nat.add_assoc, reads,
        inductionHypothesis written.2 holdsLater further]
      simp [Nat.add_assoc]

/-- A text in double quotes is read as the characters that are written in it. -/
theorem read_quoted {α : Type} (char : α → Char) (spell : α → List Char) {glyphs : List α}
    (written : ∀ glyph ∈ glyphs, IsWritten (char glyph) (spell glyph)) {indent : Int}
    (shallow : indent ≤ 0) (mark : Mark) (fresh : Bool) (rest : List Char) :
    read
        ⟨⟨mark.line, mark.column, ('"' :: (glyphs.flatMap spell ++ '"' :: rest)).length, fresh⟩,
          '"' :: (glyphs.flatMap spell ++ '"' :: rest)⟩ indent false =
      .ok (glyphs.map char,
        ⟨⟨mark.line, mark.column + ((glyphs.flatMap spell).length + 2), rest.length, false⟩,
          rest⟩) := by
  let setting : Setting := ⟨mark, indent, false⟩
  have reads :
      readFrom setting (glyphs.flatMap spell ++ '"' :: rest)
        ⟨mark.line, mark.column + 1, (glyphs.flatMap spell).length + (rest.length + 1), false⟩
        .text [] = _ :=
    readFrom_glyphs char spell written rfl shallow .text (Nat.succ_pos _) rest
  have left :
      (glyphs.flatMap spell ++ '"' :: rest).length =
        (glyphs.flatMap spell).length + (rest.length + 1) := by
    rw [List.length_append, List.length_cons]
  have columns :
      mark.column + 1 + (glyphs.flatMap spell).length + 1 =
        mark.column + ((glyphs.flatMap spell).length + 2) := by
    omega
  rw [← left, columns] at reads
  exact reads

end Quoted
end Yaml
end FieldLine
