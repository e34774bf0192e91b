import FieldLine.Toml.Text
import FieldLine.Proofs.Text.Encoding

/-!
# Reading back written TOML strings

Whichever form a text is written in, it is read as itself, as long as no quote follows it.
-/

namespace FieldLine
namespace Toml
namespace Text

/-! ## Written characters -/

/-- The ways in which a character stands in a basic string, other than a quote that stands for
itself.  Between tripled quotes a line break stands for itself as well. -/
inductive IsWritten (tripled : Bool) : Char → List Char → Prop where
  | self {c : Char} (notQuote : c ≠ '"') (notBackslash : c ≠ '\\') (notReturn : c ≠ '\r')
      (allowed : isText c = true ∨ tripled = true ∧ c = '\n') : IsWritten tripled c [c]
  | escape {c letter : Char} (known : escape? letter = some (.char c))
      (notBlank : isBlank letter = false) (notBreak : letter ≠ '\n' ∧ letter ≠ '\r') :
      IsWritten tripled c ['\\', letter]
  | code {c : Char} (narrow : c.toNat < 128) :
      IsWritten tripled c ['\\', 'u', '0', '0', hexDigit (c.toNat / 16), hexDigit (c.toNat % 16)]

theorem isWritten_quote (tripled : Bool) : IsWritten tripled '"' ['\\', '"'] :=
  .escape rfl rfl (by decide)

theorem isText_of_not_isControl {c : Char} (notControl : isControl c = false)
    (notBreak : c ≠ '\n') : isText c = true := by
  simp only [isControl, Bool.or_eq_false_iff, Bool.and_eq_false_iff, decide_eq_false_iff_not,
    not_not] at notControl
  simp only [isText, Bool.or_eq_true, Bool.and_eq_true, decide_eq_true_eq]
  rcases notControl with ⟨(notBelow | isTab) | isBreak, notDelete⟩
  · exact .inr ⟨Char.not_lt.mp notBelow, notDelete⟩
  · exact .inl isTab
  · exact absurd isBreak notBreak

theorem lt_of_isControl {c : Char} (control : isControl c = true) : c.toNat < 128 := by
  simp only [isControl, Bool.or_eq_true, Bool.and_eq_true, decide_eq_true_eq] at control
  rcases control with ⟨⟨below, -⟩, -⟩ | rfl
  · exact Nat.lt_trans (Char.lt_def.mp below) (by decide)
  · decide

theorem isWritten_escapeChar (tripled : Bool) {c : Char} (notQuote : c ≠ '"') :
    IsWritten tripled c (escapeChar tripled c) := by
  unfold escapeChar
  split_ifs with backspace tab newline isTripled newPage carriageReturn backslash control
  · subst backspace
    exact .escape rfl rfl (by decide)
  · subst tab
    exact .escape rfl rfl (by decide)
  · subst newline
    exact .self notQuote (by decide) (by decide) (.inr ⟨isTripled, rfl⟩)
  · subst newline
    exact .escape rfl rfl (by decide)
  · subst newPage
    exact .escape rfl rfl (by decide)
  · subst carriageReturn
    exact .escape rfl rfl (by decide)
  · subst backslash
    exact .escape rfl rfl (by decide)
  · exact .code (lt_of_isControl control)
  · exact .self notQuote backslash carriageReturn
      (.inl (isText_of_not_isControl (eq_false_of_ne_true control) newline))

theorem value?_hexDigit {n : Nat} (small : n < 16) : Hex.value? (hexDigit n) = some n := by
  revert n
  decide

/-! ## Basic strings -/

theorem char?_of_narrow {code : Nat} (narrow : code < 128) :
    Hex.char? code = some (Char.ofNat code) :=
  if_pos (.inl (by omega))

theorem readBasicFrom_written {c : Char} {chars : List Char} (written : IsWritten false c chars)
    (rest text : List Char) :
    readBasicFrom (chars ++ rest) .text text = readBasicFrom rest .text (c :: text) := by
  cases written with
  | self notQuote notBackslash notReturn allowed =>
      have isAllowed : (isText c && decide (c ≠ '\\')) = true := by
        rcases allowed with isText | ⟨noTripled, -⟩
        · rw [isText, decide_eq_true notBackslash, Bool.and_self]
        · cases noTripled
      rw [List.singleton_append, readBasicFrom, if_pos isAllowed]
      · exact notQuote
      · exact fun _ _ isBackslash _ => notBackslash isBackslash
      · rintro _ _ ⟨⟩
  | escape known notBlank notBreak =>
      rw [List.cons_append, List.singleton_append, readBasicFrom, known]
      rintro _ _ ⟨⟩
  | code narrow =>
      have high := value?_hexDigit (show c.toNat / 16 < 16 by omega)
      have low := value?_hexDigit (show c.toNat % 16 < 16 by omega)
      have value : 16 * (c.toNat / 16) + c.toNat % 16 = c.toNat := by omega
      have zero : Hex.value? '0' = some 0 := rfl
      simp [readBasicFrom, escape?, high, low, zero, value, char?_of_narrow narrow]

theorem readBasicFrom_quote (rest text : List Char) :
    readBasicFrom ('"' :: rest) .text text = some (.ofList text.reverse, rest) := by
  rw [readBasicFrom]
  rintro _ _ ⟨⟩

theorem readBasicFrom_escapeFrom (chars rest text : List Char) (row : Nat) :
    readBasicFrom (escapeFrom false 0 row chars ++ '"' :: rest) .text text =
      some (.ofList (text.reverse ++ chars), rest) := by
  induction chars generalizing text row with
  | nil => rw [escapeFrom, List.nil_append, readBasicFrom_quote, List.append_nil]
  | cons c later inductionHypothesis =>
      rw [escapeFrom]
      split
      · rename_i isQuote
        subst isQuote
        rw [if_neg (Nat.not_lt_zero row)]
        have reads := readBasicFrom_written (isWritten_quote false)
          (escapeFrom false 0 0 later ++ '"' :: rest) text
        rw [List.cons_append, List.cons_append]
        rw [List.cons_append, List.singleton_append] at reads
        rw [reads, inductionHypothesis]
        simp
      · rename_i notQuote
        rw [List.append_assoc, readBasicFrom_written (isWritten_escapeChar false notQuote),
          inductionHypothesis]
        simp

/-! ## Literal strings -/

theorem readLiteralFrom_chars {chars : List Char}
    (allowed : ∀ c ∈ chars, c ≠ '\'' ∧ isText c = true) (rest text : List Char) :
    readLiteralFrom (chars ++ '\'' :: rest) text =
      some (.ofList (text.reverse ++ chars), rest) := by
  induction chars generalizing text with
  | nil => rw [List.nil_append, readLiteralFrom, if_pos rfl, List.append_nil]
  | cons c later inductionHypothesis =>
      rw [List.forall_mem_cons] at allowed
      rw [List.cons_append, readLiteralFrom, if_neg allowed.1.1, if_pos allowed.1.2,
        inductionHypothesis allowed.2]
      simp

/-! ## Tripled basic strings -/

theorem endsLine_of_letter {letter : Char} (notBlank : isBlank letter = false)
    (notBreak : letter ≠ '\n' ∧ letter ≠ '\r') (rest : List Char) :
    endsLine (letter :: rest) = false := by
  rw [endsLine, List.dropWhile_cons_of_neg (by simp [notBlank]), skipNewline]
  · rfl
  · exact fun _ isBreak => notBreak.1 (List.cons.inj isBreak).1
  · exact fun _ isReturn => notBreak.2 (List.cons.inj isReturn).1

theorem readTripledBasicFrom_written {c : Char} {chars : List Char}
    (written : IsWritten true c chars) (rest text : List Char) :
    readTripledBasicFrom (chars ++ rest) .text text =
      readTripledBasicFrom rest .text (c :: text) := by
  cases written with
  | self notQuote notBackslash notReturn allowed =>
      have isAllowed : ((isText c && decide (c ≠ '\\')) || decide (c = '\n')) = true := by
        rcases allowed with isText | ⟨-, isBreak⟩
        · rw [isText, decide_eq_true notBackslash, Bool.and_self, Bool.true_or]
        · rw [decide_eq_true isBreak, Bool.or_true]
      rw [List.singleton_append, readTripledBasicFrom, if_neg (by simp), if_pos isAllowed]
      · exact fun _ isReturn _ => notReturn isReturn
      · exact fun _ isQuote _ => notQuote isQuote
      · exact fun _ _ isBackslash _ => notBackslash isBackslash
      · rintro _ _ ⟨⟩
      · rintro _ ⟨⟩
      · rintro ⟨⟩
  | escape known notBlank notBreak =>
      rw [List.cons_append, List.singleton_append, readTripledBasicFrom,
        endsLine_of_letter notBlank notBreak, known]
      · rfl
      · rintro _ _ ⟨⟩
  | code narrow =>
      have high := value?_hexDigit (show c.toNat / 16 < 16 by omega)
      have low := value?_hexDigit (show c.toNat % 16 < 16 by omega)
      have value : 16 * (c.toNat / 16) + c.toNat % 16 = c.toNat := by omega
      have zero : Hex.value? '0' = some 0 := rfl
      simp [readTripledBasicFrom, endsLine_of_letter, isBlank, escape?, high, low, zero, value,
        char?_of_narrow narrow]

/-- A quote stands for itself where it is not the first of three. -/
theorem readTripledBasicFrom_quote {rest : List Char}
    (notTriple : ∀ later, rest ≠ '"' :: '"' :: later) (text : List Char) :
    readTripledBasicFrom ('"' :: rest) .text text =
      readTripledBasicFrom rest .text ('"' :: text) := by
  rw [readTripledBasicFrom, if_neg (by simp), if_pos (by decide)]
  · exact fun _ isReturn _ => absurd isReturn (by decide)
  · exact fun later _ triple => notTriple later triple
  · exact fun _ _ isBackslash _ => absurd isBackslash (by decide)
  · rintro _ _ ⟨⟩
  · rintro _ ⟨⟩
  · rintro ⟨⟩

theorem readTripledBasicFrom_close (rest text : List Char) :
    readTripledBasicFrom ('"' :: '"' :: '"' :: rest) .text text =
      some (closeTripled '"' text rest) := by
  rw [readTripledBasicFrom]
  rintro _ _ ⟨⟩

theorem IsWritten.exists_cons {tripled : Bool} {c : Char} {chars : List Char}
    (written : IsWritten tripled c chars) :
    ∃ first later, chars = first :: later ∧ first ≠ '"' ∧ first ≠ '\r' ∧
      (c ≠ '\n' → first ≠ '\n') := by
  cases written with
  | self notQuote _ notReturn _ => exact ⟨c, [], rfl, notQuote, notReturn, id⟩
  | escape _ _ _ => exact ⟨'\\', _, rfl, by decide, by decide, fun _ => by decide⟩
  | code _ => exact ⟨'\\', _, rfl, by decide, by decide, fun _ => by decide⟩

/-! ## Ends of tripled strings -/

/-- The one or two quotes before the last three belong to the text. -/
theorem closeTripled_replicate {quote : Char} {after : List Char}
    (noQuote : after.head? ≠ some quote) {count : Nat} (few : count ≤ 2) (text : List Char) :
    closeTripled quote text (List.replicate count quote ++ after) =
      (.ofList (text.reverse ++ List.replicate count quote), after) := by
  have notFirst {first : Char} {later : List Char} (begins : after = first :: later) :
      first ≠ quote := by
    rintro rfl
    exact noQuote (by rw [begins, List.head?_cons])
  rcases count with _ | _ | _ | more
  · rcases after with _ | ⟨first, _ | ⟨second, later⟩⟩
    · simp [closeTripled]
    · simp [closeTripled, notFirst rfl]
    · simp [closeTripled, notFirst rfl]
  · rcases after with _ | ⟨first, later⟩
    · simp [closeTripled]
    · simp [closeTripled, notFirst rfl]
  · simp [closeTripled, List.replicate]
  · omega

/-- What is written begins with a free quote only if there is room for it. -/
theorem escapeFrom_ne_quote (tripled : Bool) {free row : Nat} {c : Char}
    (noRoom : c = '"' → free ≤ row) (later rest : List Char) :
    ∃ first others, escapeFrom tripled free row (c :: later) ++ rest = first :: others ∧
      first ≠ '"' := by
  rw [escapeFrom]
  split
  · rename_i isQuote
    rw [if_neg (Nat.not_lt.mpr (noRoom isQuote))]
    exact ⟨'\\', _, rfl, by decide⟩
  · rename_i notQuote
    obtain ⟨first, others, begins, notFirst, -⟩ :=
      (isWritten_escapeChar tripled notQuote).exists_cons
    rw [begins]
    exact ⟨first, _, rfl, notFirst⟩

/-- A free quote is the first of three only if nothing but free quotes follows it in the text. -/
theorem all_quotes_or_not_triple {row : Nat} (room : row < 2) (later after : List Char) :
    (∃ count, row + 1 + count ≤ 2 ∧ later = List.replicate count '"' ∧
        escapeFrom true 2 (row + 1) later = List.replicate count '"') ∨
      ∀ others, escapeFrom true 2 (row + 1) later ++ '"' :: '"' :: '"' :: after ≠
        '"' :: '"' :: others := by
  rcases later with _ | ⟨c, more⟩
  · exact .inl ⟨0, room, rfl, rfl⟩
  by_cases full : c = '"' → 2 ≤ row + 1
  · obtain ⟨first, others, begins, notQuote⟩ :=
      escapeFrom_ne_quote true full more ('"' :: '"' :: '"' :: after)
    refine .inr fun others isQuotes => notQuote ?_
    rw [begins] at isQuotes
    exact (List.cons.inj isQuotes).1
  · obtain ⟨rfl, roomAfter⟩ := Classical.not_imp.mp full
    have free : escapeFrom true 2 (row + 1) ('"' :: more) = '"' :: escapeFrom true 2 2 more := by
      rw [escapeFrom, if_pos rfl, if_pos (by omega), show row = 0 by omega]
    rw [free]
    rcases more with _ | ⟨d, later⟩
    · exact .inl ⟨1, by omega, rfl, rfl⟩
    · obtain ⟨first, others, begins, notQuote⟩ :=
        escapeFrom_ne_quote true (c := d) (fun _ => Nat.le_refl 2) later
          ('"' :: '"' :: '"' :: after)
      refine .inr fun others isQuotes => notQuote ?_
      rw [List.cons_append, begins] at isQuotes
      exact (List.cons.inj (List.cons.inj isQuotes).2).1

theorem readTripledBasicFrom_escapeFrom {after : List Char} (noQuote : after.head? ≠ some '"')
    (chars text : List Char) (row : Nat) :
    readTripledBasicFrom (escapeFrom true 2 row chars ++ '"' :: '"' :: '"' :: after) .text text =
      some (.ofList (text.reverse ++ chars), after) := by
  induction chars generalizing text row with
  | nil =>
      rw [escapeFrom, List.nil_append, readTripledBasicFrom_close]
      exact congrArg some (closeTripled_replicate noQuote (Nat.zero_le 2) text)
  | cons c later inductionHypothesis =>
      rw [escapeFrom]
      split
      · rename_i isQuote
        subst isQuote
        split
        · rename_i room
          rw [List.cons_append]
          rcases all_quotes_or_not_triple room later after with
            ⟨count, few, isQuotes, written⟩ | notTriple
          · have triple : '"' :: (escapeFrom true 2 (row + 1) later ++ '"' :: '"' :: '"' :: after) =
                '"' :: '"' :: '"' :: (List.replicate (count + 1) '"' ++ after) := by
              rw [written]
              obtain rfl | rfl : count = 0 ∨ count = 1 := by omega
              · rfl
              · rfl
            rw [triple, readTripledBasicFrom_close,
              closeTripled_replicate noQuote (by omega), isQuotes]
            rfl
          · rw [readTripledBasicFrom_quote notTriple, inductionHypothesis]
            simp
        · have reads := readTripledBasicFrom_written (isWritten_quote true)
            (escapeFrom true 2 0 later ++ '"' :: '"' :: '"' :: after) text
          rw [List.cons_append, List.singleton_append] at reads
          rw [List.cons_append, List.cons_append, reads, inductionHypothesis]
          simp
      · rename_i notQuote
        rw [List.append_assoc, readTripledBasicFrom_written (isWritten_escapeChar true notQuote),
          inductionHypothesis]
        simp

/-! ## Tripled literal strings -/

theorem readTripledLiteralFrom_push {c : Char} {rest : List Char}
    (allowed : isText c = true ∨ c = '\n')
    (notTriple : ∀ later, c :: rest ≠ '\'' :: '\'' :: '\'' :: later) (text : List Char) :
    readTripledLiteralFrom (c :: rest) text = readTripledLiteralFrom rest (c :: text) := by
  have isAllowed : (isText c || decide (c = '\n')) = true := by
    simpa using allowed
  rw [readTripledLiteralFrom, if_pos isAllowed]
  · rintro _ rfl _
    exact absurd allowed (by decide)
  · rintro others rfl rfl
    exact notTriple others rfl

/-- In a text without three quotes in a row, a quote before the closing ones is the first of three
only if nothing but one more quote follows it. -/
theorem quotes_or_not_triple {quote c : Char} {later : List Char}
    (noTriple : hasTriple quote (c :: later) = false) (after : List Char) :
    (∃ count, count ≤ 2 ∧ c :: later = List.replicate count quote) ∨
      ∀ others, c :: (later ++ quote :: quote :: quote :: after) ≠
        quote :: quote :: quote :: others := by
  by_cases first : c = quote
  · subst first
    rcases later with _ | ⟨d, more⟩
    · exact .inl ⟨1, by decide, rfl⟩
    by_cases second : d = c
    · subst second
      rcases more with _ | ⟨e, rest⟩
      · exact .inl ⟨2, by decide, rfl⟩
      · refine .inr fun others isQuotes => ?_
        obtain rfl : e = d := by
          simp only [List.cons_append, List.cons.injEq, true_and] at isQuotes
          exact isQuotes.1
        simp [hasTriple, strip?] at noTriple
    · refine .inr fun others isQuotes => second ?_
      simp only [List.cons_append, List.cons.injEq, true_and] at isQuotes
      exact isQuotes.1
  · exact .inr fun others isQuotes => first (List.cons.inj isQuotes).1

theorem readTripledLiteralFrom_close (rest text : List Char) :
    readTripledLiteralFrom ('\'' :: '\'' :: '\'' :: rest) text =
      some (closeTripled '\'' text rest) := by
  rw [readTripledLiteralFrom]

theorem readTripledLiteralFrom_chars {chars after : List Char} (noQuote : after.head? ≠ some '\'')
    (allowed : ∀ c ∈ chars, isText c = true ∨ c = '\n') (noTriple : hasTriple '\'' chars = false)
    (text : List Char) :
    readTripledLiteralFrom (chars ++ '\'' :: '\'' :: '\'' :: after) text =
      some (.ofList (text.reverse ++ chars), after) := by
  induction chars generalizing text with
  | nil =>
      rw [List.nil_append, readTripledLiteralFrom_close]
      exact congrArg some (closeTripled_replicate noQuote (Nat.zero_le 2) text)
  | cons c later inductionHypothesis =>
      rw [List.forall_mem_cons] at allowed
      have noTripleLater : hasTriple '\'' later = false := by
        rw [hasTriple, Bool.or_eq_false_iff] at noTriple
        exact noTriple.2
      rcases quotes_or_not_triple noTriple after with ⟨count, few, isQuotes⟩ | notTriple
      · have triple : c :: later ++ '\'' :: '\'' :: '\'' :: after =
            '\'' :: '\'' :: '\'' :: (List.replicate count '\'' ++ after) := by
          rw [isQuotes]
          obtain rfl | rfl | rfl : count = 0 ∨ count = 1 ∨ count = 2 := by omega
          · rfl
          · rfl
          · rfl
        rw [triple, readTripledLiteralFrom_close, closeTripled_replicate noQuote few, isQuotes]
      · rw [List.cons_append, readTripledLiteralFrom_push allowed.1 notTriple,
          inductionHypothesis allowed.2 noTripleLater]
        simp

/-! ## Forms -/

theorem isText_of_not_any {chars : List Char} (noControl : chars.any isControl = false) :
    ∀ c ∈ chars, isText c = true ∨ c = '\n' := by
  intro c member
  by_cases isBreak : c = '\n'
  · exact .inr isBreak
  · have notControl : isControl c = false := by
      simpa using List.any_eq_false.mp noControl c member
    exact .inl (isText_of_not_isControl notControl isBreak)

theorem allowed_of_literal {chars : List Char} (isLiteral : form chars = .literal) :
    chars ≠ [] ∧ ∀ c ∈ chars, c ≠ '\'' ∧ isText c = true := by
  refine ⟨?_, ?_⟩
  · rintro rfl
    cases isLiteral
  · simp only [form] at isLiteral
    split_ifs at isLiteral with basic literal
    simp only [Bool.and_eq_true, Bool.not_eq_true', List.any_eq_false, Bool.or_eq_true,
      decide_eq_true_eq, not_or] at literal
    intro c member
    obtain ⟨noControl, noQuote⟩ := literal
    refine ⟨(noQuote c member).1, ?_⟩
    exact isText_of_not_isControl (eq_false_of_ne_true (noControl c member)) (noQuote c member).2

theorem allowed_of_tripledLiteral {chars : List Char} (isTripled : form chars = .tripledLiteral) :
    (∀ c ∈ chars, isText c = true ∨ c = '\n') ∧ hasTriple '\'' chars = false := by
  simp only [form] at isTripled
  split_ifs at isTripled with basic literal tripledBasic tripledLiteral
  simp only [Bool.and_eq_true, Bool.not_eq_true'] at tripledLiteral
  exact ⟨isText_of_not_any tripledLiteral.1, tripledLiteral.2⟩

/-! ## Quoted strings -/

theorem skipFirstNewline_eq {c : Char} (notBreak : c ≠ '\n' ∧ c ≠ '\r') (later : List Char) :
    skipFirstNewline (c :: later) = c :: later := by
  rw [skipFirstNewline, skipNewline]
  · rfl
  · exact fun _ isBreak => notBreak.1 (List.cons.inj isBreak).1
  · exact fun _ isReturn => notBreak.2 (List.cons.inj isReturn).1

theorem read_basic {rest : List Char} (notTriple : ∀ later, rest ≠ '"' :: '"' :: later) :
    read ('"' :: rest) = readBasicFrom rest .text [] := by
  rw [read]
  · rfl
  · exact fun later triple => notTriple later (List.cons.inj triple).2
  · exact fun later triple => absurd (List.cons.inj triple).1 (by decide)

theorem read_literal {rest : List Char} (notTriple : ∀ later, rest ≠ '\'' :: '\'' :: later) :
    read ('\'' :: rest) = readLiteralFrom rest [] := by
  rw [read]
  · rfl
  · exact fun later triple => absurd (List.cons.inj triple).1 (by decide)
  · exact fun later triple => notTriple later (List.cons.inj triple).2

/-- The line break that a text with line breaks starts after is passed over, and nothing else. -/
theorem skipFirstNewline_first {chars body : List Char}
    (begins : '\n' ∉ chars → ∃ c later, body = c :: later ∧ c ≠ '\n' ∧ c ≠ '\r') :
    skipFirstNewline ((if chars.contains '\n' then ['\n'] else []) ++ body) = body := by
  split
  · rfl
  · rename_i noBreak
    obtain ⟨c, later, rfl, notBreak⟩ := begins (by simpa using noBreak)
    exact skipFirstNewline_eq notBreak later

theorem begins_escapeFrom {chars : List Char} (noBreak : '\n' ∉ chars) (after : List Char) :
    ∃ c later, escapeFrom true 2 0 chars ++ '"' :: '"' :: '"' :: after = c :: later ∧
      c ≠ '\n' ∧ c ≠ '\r' := by
  rcases chars with _ | ⟨c, others⟩
  · exact ⟨'"', _, rfl, by decide, by decide⟩
  · rw [escapeFrom]
    split
    · exact ⟨'"', _, rfl, by decide, by decide⟩
    · rename_i notQuote
      obtain ⟨first, later, begins, -, notReturn, notBreak⟩ :=
        (isWritten_escapeChar true notQuote).exists_cons
      rw [begins]
      exact ⟨first, _, rfl, notBreak (List.ne_of_not_mem_cons noBreak).symm, notReturn⟩

theorem begins_chars {chars : List Char} (allowed : ∀ c ∈ chars, isText c = true ∨ c = '\n')
    (noBreak : '\n' ∉ chars) (after : List Char) :
    ∃ c later, chars ++ '\'' :: '\'' :: '\'' :: after = c :: later ∧ c ≠ '\n' ∧ c ≠ '\r' := by
  rcases chars with _ | ⟨c, others⟩
  · exact ⟨'\'', _, rfl, by decide, by decide⟩
  · refine ⟨c, _, rfl, (List.ne_of_not_mem_cons noBreak).symm, ?_⟩
    rintro rfl
    exact absurd (allowed _ List.mem_cons_self) (by decide)

theorem not_triple_of_basic (chars : List Char) {after : List Char}
    (noQuote : after.head? ≠ some '"') :
    ∀ later, escapeFrom false 0 0 chars ++ '"' :: after ≠ '"' :: '"' :: later := by
  rcases chars with _ | ⟨c, others⟩
  · intro later triple
    rw [escapeFrom, List.nil_append] at triple
    rw [(List.cons.inj triple).2] at noQuote
    exact noQuote rfl
  · obtain ⟨first, rest, begins, notQuote⟩ :=
      escapeFrom_ne_quote false (c := c) (fun _ => Nat.le_refl 0) others ('"' :: after)
    intro later triple
    rw [begins] at triple
    exact notQuote (List.cons.inj triple).1

/-- A written string is read as its text, whatever follows it other than a quote. -/
theorem read_renderChars (chars : List Char) {after : List Char} (noQuote : after.head? ≠ some '"')
    (noApostrophe : after.head? ≠ some '\'') :
    read (renderChars chars ++ after) = some (.ofList chars, after) := by
  unfold renderChars
  cases shape : form chars with
  | basic =>
      simp only [List.cons_append, List.append_assoc, List.nil_append]
      rw [read_basic (not_triple_of_basic chars noQuote)]
      exact readBasicFrom_escapeFrom chars after [] 0
  | literal =>
      obtain ⟨someChar, allowed⟩ := allowed_of_literal shape
      obtain ⟨c, later, rfl⟩ := List.exists_cons_of_ne_nil someChar
      simp only [List.cons_append, List.append_assoc, List.nil_append]
      rw [read_literal]
      · exact readLiteralFrom_chars allowed after []
      · exact fun others triple =>
          (allowed c List.mem_cons_self).1 (List.cons.inj triple).1
  | tripledBasic =>
      simp only [List.cons_append, List.append_assoc, List.nil_append]
      rw [read, skipFirstNewline_first fun noBreak => begins_escapeFrom noBreak after]
      exact readTripledBasicFrom_escapeFrom noQuote chars [] 0
  | tripledLiteral =>
      obtain ⟨allowed, noTriple⟩ := allowed_of_tripledLiteral shape
      simp only [List.cons_append, List.append_assoc, List.nil_append]
      rw [read, skipFirstNewline_first fun noBreak => begins_chars allowed noBreak after]
      exact readTripledLiteralFrom_chars noApostrophe allowed noTriple []

end Text
end Toml
end FieldLine
