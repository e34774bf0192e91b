import FieldLine.Yaml.Scalar.Plain

/-!
# Reading plain words

A word of letters and digits has no meaning of its own in YAML.  As a plain scalar it is read as
it stands, up to the colon after it or to the first token below the end of its line.
-/

namespace FieldLine
namespace Yaml

/-! ## Characters -/

theorem ne_of_isAlphanum {c : Char} (alphanumeric : c.isAlphanum = true) (other : Char)
    (special : other.isAlphanum = false) : c ≠ other := by
  rintro rfl
  rw [special] at alphanumeric
  exact Bool.false_ne_true alphanumeric

theorem ne_of_not_isBlank {c : Char} (notBlank : isBlank c = false) : c ≠ ' ' ∧ c ≠ '\t' := by
  simpa [isBlank] using notBlank

theorem ne_of_not_isSpace {c : Char} (notSpace : isSpace c = false) :
    c ≠ ' ' ∧ c ≠ '\t' ∧ c ≠ '\n' := by
  rw [isSpace, Bool.or_eq_false_iff] at notSpace
  obtain ⟨blank, tab⟩ := ne_of_not_isBlank notSpace.1
  exact ⟨blank, tab, of_decide_eq_false notSpace.2⟩

theorem atTriple_of_ne {c other : Char} (different : c ≠ other) (rest : List Char) :
    atTriple other (c :: rest) = false := by
  unfold atTriple
  split
  · rename_i shape
    cases shape
    simp [different]
  · rfl

/-- Nothing is skipped before a token: the text is at its end, or at a character that is neither
white space nor the start of a comment. -/
def BeginsToken : List Char → Prop
  | [] => True
  | c :: _ => isSpace c = false ∧ c ≠ '#'

theorem beginsToken_of_isAlphanum {c : Char} (alphanumeric : c.isAlphanum = true)
    (rest : List Char) : BeginsToken (c :: rest) := by
  have notSpace := ne_of_isAlphanum alphanumeric ' ' rfl
  have notTab := ne_of_isAlphanum alphanumeric '\t' rfl
  have notBreak := ne_of_isAlphanum alphanumeric '\n' rfl
  have notComment := ne_of_isAlphanum alphanumeric '#' rfl
  simp [BeginsToken, isSpace, isBlank, notSpace, notTab, notBreak, notComment]

/-- A character that a bare word, such as a number, may have. -/
def isBare (c : Char) : Bool :=
  c.isAlphanum || c = '+' || c = '-' || c = '.'

theorem isBare_of_isAlphanum {c : Char} (alphanumeric : c.isAlphanum = true) :
    isBare c = true := by
  rw [isBare, alphanumeric, Bool.true_or, Bool.true_or, Bool.true_or]

theorem ne_of_isBare {c : Char} (bare : isBare c = true) (other : Char)
    (special : isBare other = false) : c ≠ other := by
  rintro rfl
  rw [special] at bare
  exact Bool.false_ne_true bare

namespace Plain

variable {setting : Setting}

theorem continues_of_isBare {c : Char} (bare : isBare c = true) (inFlow : Bool)
    (rest : List Char) : continues inFlow c rest = true := by
  have notColon := ne_of_isBare bare ':' rfl
  have notComma := ne_of_isBare bare ',' rfl
  have notSquare := ne_of_isBare bare '[' rfl
  have notSquareEnd := ne_of_isBare bare ']' rfl
  have notCurly := ne_of_isBare bare '\x7b' rfl
  have notCurlyEnd := ne_of_isBare bare '\x7d' rfl
  simp [continues, isFlow, notColon, notComma, notSquare, notSquareEnd, notCurly, notCurlyEnd]

/-! ## Parts of a scalar -/

theorem readFrom_wordChar {c : Char} (bare : isBare c = true) (rest : List Char)
    (line column left ahead : Nat) (fresh : Bool) (text : List Char) (sighted : Nat) :
    readFrom setting (c :: rest) ⟨line, column, left + 1, fresh⟩ (.word ahead) {} text sighted =
      readFrom setting rest ⟨line, column + 1, left, false⟩
        (.word (if ahead = 2 then stretch else ahead - 1)) {} (c :: text) sighted := by
  have notSpace := ne_of_isBare bare ' ' rfl
  have notTab := ne_of_isBare bare '\t' rfl
  have notBreak := ne_of_isBare bare '\n' rfl
  rw [readFrom]
  simp [isBlank, continues_of_isBare bare, notSpace, notTab, notBreak, Place.solid]

/-- Whether a plain scalar may start with a text: it does not bound a document, and a hyphen is not
followed by a bracket or comma. -/
def MayStart (text : List Char) : Prop :=
  atDocumentIndicator text = false ∧ (text.head? = some '-' → nextIs isFlow text.tail = false)

theorem mayStart_of_isAlphanum {c : Char} (alphanumeric : c.isAlphanum = true)
    (rest : List Char) : MayStart (c :: rest) := by
  have notDash := ne_of_isAlphanum alphanumeric '-' rfl
  have notPoint := ne_of_isAlphanum alphanumeric '.' rfl
  refine ⟨?_, fun isDash => absurd (Option.some.inj isDash) notDash⟩
  rw [atDocumentIndicator, atTriple_of_ne notDash, atTriple_of_ne notPoint, Bool.or_false]

theorem readFrom_startChar {c : Char} (bare : isBare c = true) {rest : List Char}
    (mayStart : MayStart (c :: rest)) (line column left : Nat) (fresh : Bool) (sighted : Nat) :
    readFrom setting (c :: rest) ⟨line, column, left + 1, fresh⟩ .start {} [] sighted =
      readFrom setting rest ⟨line, column + 1, left, false⟩ (.word stretch) {} [c] sighted := by
  have notSpace := ne_of_isBare bare ' ' rfl
  have notTab := ne_of_isBare bare '\t' rfl
  have notBreak := ne_of_isBare bare '\n' rfl
  have notComment := ne_of_isBare bare '#' rfl
  have notBound : atDocumentIndicator (c :: rest) = false := mayStart.1
  have notDash : (decide (c = '-') && nextIs isFlow rest) = false := by
    by_cases isDash : c = '-'
    · subst isDash
      exact mayStart.2 rfl
    · rw [decide_eq_false isDash, Bool.false_and]
  rw [readFrom]
  · simp [isTabIndent, isBlank, continues_of_isBare bare, notSpace, notTab, notBreak, notComment,
      notBound, Place.solid, Gap.addTo]
    simp_all
  all_goals nofun

theorem readFrom_word {word : List Char} (bare : ∀ c ∈ word, isBare c = true) (rest : List Char)
    (line column left ahead : Nat) (text : List Char) (sighted : Nat) :
    ∃ ahead' : Nat,
      readFrom setting (word ++ rest) ⟨line, column, word.length + left, false⟩ (.word ahead)
          {} text sighted =
        readFrom setting rest ⟨line, column + word.length, left, false⟩ (.word ahead') {}
          (word.reverse ++ text) sighted := by
  induction word generalizing column ahead text with
  | nil => exact ⟨ahead, by simp⟩
  | cons c word inductionHypothesis =>
      rw [List.forall_mem_cons] at bare
      obtain ⟨ahead', later⟩ :=
        inductionHypothesis bare.2 (column + 1) (if ahead = 2 then stretch else ahead - 1)
          (c :: text)
      refine ⟨ahead', ?_⟩
      have length : (c :: word).length + left = word.length + left + 1 := by
        rw [List.length_cons]
        omega
      have columns : column + (c :: word).length = column + 1 + word.length := by
        rw [List.length_cons]
        omega
      rw [List.cons_append, length, readFrom_wordChar bare.1, later, columns]
      simp

theorem readFrom_spaces (count : Nat) (rest : List Char) (line column left : Nat) (gap : Gap)
    (text : List Char) (sighted : Nat) :
    readFrom setting (List.replicate count ' ' ++ rest) ⟨line, column, count + left, true⟩ .gap
        gap text sighted =
      readFrom setting rest ⟨line, column + count, left, true⟩ .gap gap text sighted := by
  induction count generalizing column with
  | zero => simp
  | succ count inductionHypothesis =>
      have length : count + 1 + left - 1 = count + left := by omega
      have columns : column + (count + 1) = column + 1 + count := by omega
      rw [List.replicate_succ, List.cons_append, readFrom]
      simp only [isTabIndent, isBlank, Place.blank]
      simp [length, inductionHypothesis, columns]

theorem readFrom_shallow (block : setting.inFlow = false) {rest : List Char}
    (begins : BeginsToken rest) {line column : Nat} (shallow : (column : Int) < setting.indent)
    (left : Nat) (gap : Gap) (text : List Char) (sighted : Nat) :
    readFrom setting rest ⟨line, column, left, true⟩ .gap gap text sighted =
      .ok ⟨text, ⟨⟨line, column, left, true⟩, rest⟩, sighted⟩ := by
  cases rest with
  | nil =>
      rw [readFrom]
      nofun
  | cons c rest =>
      obtain ⟨notSpace, notComment⟩ := begins
      obtain ⟨notBlank, notTab, notBreak⟩ := ne_of_not_isSpace notSpace
      rw [readFrom]
      simp [isTabIndent, isBlank, block, notBlank, notTab, notBreak, shallow]

/-! ## Whole scalars -/

variable {word rest : List Char} {indent : Int}

/-- A word from its first character to what comes after it. -/
theorem readFrom_start (someChar : word ≠ []) (bare : ∀ c ∈ word, isBare c = true)
    (mayStart : MayStart (word ++ rest)) (line column left : Nat) (fresh : Bool) (sighted : Nat) :
    ∃ ahead : Nat,
      readFrom setting (word ++ rest) ⟨line, column, word.length + left, fresh⟩ .start {} []
          sighted =
        readFrom setting rest ⟨line, column + word.length, left, false⟩ (.word ahead) {}
          word.reverse sighted := by
  cases word with
  | nil => exact absurd rfl someChar
  | cons c word =>
      rw [List.forall_mem_cons] at bare
      rw [List.cons_append] at mayStart
      obtain ⟨ahead, later⟩ :=
        readFrom_word bare.2 rest line (column + 1) left stretch [c] sighted
      refine ⟨ahead, ?_⟩
      have length : (c :: word).length + left = word.length + left + 1 := by
        rw [List.length_cons]
        omega
      have columns : column + (c :: word).length = column + 1 + word.length := by
        rw [List.length_cons]
        omega
      rw [List.cons_append, length, readFrom_startChar bare.1 mayStart, later, columns]
      simp

theorem readFrom_start_of_isAlphanum (someChar : word ≠ [])
    (alphanumeric : ∀ c ∈ word, c.isAlphanum = true) (line column left : Nat) (fresh : Bool)
    (sighted : Nat) :
    ∃ ahead : Nat,
      readFrom setting (word ++ rest) ⟨line, column, word.length + left, fresh⟩ .start {} []
          sighted =
        readFrom setting rest ⟨line, column + word.length, left, false⟩ (.word ahead) {}
          word.reverse sighted := by
  have bare : ∀ c ∈ word, isBare c = true :=
    fun c member => isBare_of_isAlphanum (alphanumeric c member)
  have mayStart : MayStart (word ++ rest) := by
    obtain ⟨c, others, rfl⟩ := List.exists_cons_of_ne_nil someChar
    exact mayStart_of_isAlphanum (alphanumeric c List.mem_cons_self) _
  exact readFrom_start someChar bare mayStart line column left fresh sighted

/-- A word before a colon that starts a value. -/
theorem read_before_colon (someChar : word ≠ [])
    (alphanumeric : ∀ c ∈ word, c.isAlphanum = true) (gap : atGap rest = true)
    (line column left : Nat) (fresh : Bool) :
    ∃ sighted : Nat,
      read ⟨⟨line, column, word.length + left, fresh⟩, word ++ ':' :: rest⟩ indent false =
        .ok ⟨word, ⟨⟨line, column + word.length, left, false⟩, ':' :: rest⟩, sighted⟩ := by
  let setting : Setting := ⟨⟨line, column⟩, indent, false⟩
  obtain ⟨ahead, afterWord⟩ :
      ∃ ahead : Nat,
        readFrom setting (word ++ ':' :: rest) ⟨line, column, word.length + left, fresh⟩ .start
            {} [] (word.length + left) = _ :=
    readFrom_start_of_isAlphanum someChar alphanumeric line column _ fresh _
  have stops :
      readFrom setting (':' :: rest) ⟨line, column + word.length, left, false⟩ (.word ahead) {}
          word.reverse (word.length + left) =
        .ok ⟨word.reverse, ⟨⟨line, column + word.length, left, false⟩, ':' :: rest⟩,
          left - ahead⟩ := by
    rw [readFrom]
    simp [isBlank, continues, gap]
  refine ⟨left - ahead, ?_⟩
  change (readFrom setting _ _ .start {} [] _ >>= _) = _
  rw [afterWord, stops]
  simp [bind, Except.bind, pure, Except.pure, someChar]

/-- A word at the end of its line, when the next token is indented less than the scalar. -/
theorem read_before_line (someChar : word ≠ [])
    (alphanumeric : ∀ c ∈ word, c.isAlphanum = true) (begins : BeginsToken rest)
    {shallow : Nat} (isShallow : (shallow : Int) < indent)
    (line column left : Nat) (fresh : Bool) :
    ∃ sighted : Nat,
      read
          ⟨⟨line, column, word.length + (1 + (shallow + left)), fresh⟩,
            word ++ '\n' :: (List.replicate shallow ' ' ++ rest)⟩ indent false =
        .ok ⟨word, ⟨⟨line + 1, shallow, left, true⟩, rest⟩, sighted⟩ := by
  let setting : Setting := ⟨⟨line, column⟩, indent, false⟩
  obtain ⟨ahead, afterWord⟩ :
      ∃ ahead : Nat,
        readFrom setting (word ++ '\n' :: (List.replicate shallow ' ' ++ rest))
            ⟨line, column, word.length + (1 + (shallow + left)), fresh⟩ .start
            {} [] (word.length + (1 + (shallow + left))) = _ :=
    readFrom_start_of_isAlphanum someChar alphanumeric line column _ fresh _
  have nextLine :
      readFrom setting ('\n' :: (List.replicate shallow ' ' ++ rest))
          ⟨line, column + word.length, 1 + (shallow + left), false⟩ (.word ahead) {}
          word.reverse (word.length + (1 + (shallow + left))) =
        .ok ⟨word.reverse, ⟨⟨line + 1, shallow, left, true⟩, rest⟩,
          1 + (shallow + left) - ahead⟩ := by
    have block : setting.inFlow = false := rfl
    have shallowHere : (shallow : Int) < setting.indent := isShallow
    have lefts : 1 + (shallow + left) - 1 = shallow + left := by omega
    rw [readFrom]
    simp only [isBlank, Place.newline, lefts]
    simp [readFrom_spaces, readFrom_shallow block begins shallowHere]
  refine ⟨1 + (shallow + left) - ahead, ?_⟩
  change (readFrom setting _ _ .start {} [] _ >>= _) = _
  rw [afterWord, nextLine]
  simp [bind, Except.bind, pure, Except.pure, someChar]

end Plain
end Yaml
end FieldLine
