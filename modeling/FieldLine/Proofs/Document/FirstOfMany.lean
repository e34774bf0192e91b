import FieldLine.Proofs.Continuation.FirstDocument
import FieldLine.Proofs.Document.LineEndings

/-!
# The first of many documents

A document that consists of whole lines and has a collection as its content stays the same, with the
lines of all its nodes, if a line `---` and any other text follow it.  There are two exceptions.  If
the content is followed by more that is no part of it, then the fault that stops reading the longer
text may come earlier.  And a block scalar without content at the very end holds other line breaks,
depending on what follows.
-/

namespace FieldLine

open String (utf8EncodeChar)

namespace Document

variable {text more : List Char} {bytes : List UInt8}

/-! ## Whole lines -/

theorem unifyBreaks_ne_nil (someChar : text ≠ []) : unifyBreaks text ≠ [] := by
  obtain ⟨c, rest, rfl⟩ := List.exists_cons_of_ne_nil someChar
  exact List.ne_nil_of_mem (mem_unifyBreaks_iff.mpr (List.mem_cons_self ..))

theorem isLines_unifyBreaks (lines : Yaml.IsLines text) : Yaml.IsLines (unifyBreaks text) := by
  induction text using List.twoStepInduction with
  | nil => trivial
  | singleton c =>
      obtain rfl := lines.1 rfl
      exact lines
  | cons_cons c d rest afterBoth afterFirst =>
      by_cases isPair : c = '\r' ∧ d = '\n'
      · obtain ⟨rfl, rfl⟩ := isPair
        rw [unifyBreaks_pair]
        exact ⟨fun _ => rfl, afterBoth lines.2.2⟩
      · have notPair : c = '\r' → (d :: rest).head? ≠ some '\n' :=
          fun isReturn isFeed => isPair ⟨isReturn, Option.some.inj isFeed⟩
        rw [unifyBreaks_cons c _ notPair]
        exact ⟨fun isEmpty => absurd isEmpty (unifyBreaks_ne_nil (List.cons_ne_nil d rest)),
          afterFirst d lines.2⟩

theorem isLines_of_getLast? (lastBreak : text.getLast? = some '\n') : Yaml.IsLines text := by
  obtain ⟨front, rfl⟩ := List.getLast?_eq_some_iff.mp lastBreak
  exact Yaml.isLines_append_break front

/-- The last byte is that of a line feed only if the last character is one. -/
theorem getLast?_of_encode
    (lastByte : (text.flatMap utf8EncodeChar).getLast? = some LineEnding.lineFeed) :
    text.getLast? = some '\n' := by
  rcases List.eq_nil_or_concat text with rfl | ⟨front, c, rfl⟩
  · cases lastByte
  have someByte : utf8EncodeChar c ≠ [] := String.utf8EncodeChar_ne_nil
  rw [List.concat_eq_append, List.flatMap_append, List.flatMap_singleton, List.getLast?_append,
    List.getLast?_eq_some_getLast someByte, Option.some_or, Option.some_inj] at lastByte
  have isLast : LineEnding.lineFeed ∈ utf8EncodeChar c := lastByte ▸ List.getLast_mem someByte
  rw [List.concat_eq_append, List.getLast?_concat, Option.some_inj]
  by_cases ascii : c.toNat < 128
  · rw [Utf8.encodeChar_ascii ascii, List.mem_singleton] at isLast
    exact (LineEnding.toUInt8_eq_iff ascii '\n' (by decide)).mp isLast.symm
  · exact absurd (Utf8.le_of_mem_encodeChar (Nat.le_of_not_lt ascii) isLast) (by decide)

/-! ## Bodies -/

/-- A text after which more comes has the same body, or more comes after the body. -/
theorem body_append (lastBreak : text.getLast? = some '\n') (more : List Char) :
    body (text ++ more) = body text ∨
      Yaml.IsLines (body text) ∧ body (text ++ more) = body text ++ body more := by
  by_cases noNull : ∀ c ∈ text, c ≠ '\x00'
  · right
    have whole : text.takeWhile (· ≠ '\x00') = text := by
      rw [List.takeWhile_eq_self_iff]
      simpa using noNull
    have apart : text.getLast? = some '\r' → (more.takeWhile (· ≠ '\x00')).head? ≠ some '\n' := by
      rw [lastBreak]
      nofun
    have longer : (text ++ more).takeWhile (· ≠ '\x00') =
        text ++ more.takeWhile (· ≠ '\x00') := by
      rw [List.takeWhile_append_of_pos]
      simpa using noNull
    rw [body, body, body, longer, whole, unifyBreaks_append apart]
    exact ⟨isLines_unifyBreaks (isLines_of_getLast? lastBreak), rfl⟩
  · left
    have shorter : (text.takeWhile (· ≠ '\x00')).length ≠ text.length := by
      intro sameLength
      refine noNull fun c member => ?_
      rw [← (List.takeWhile_prefix _).eq_of_length sameLength] at member
      simpa using List.mem_takeWhile_imp member
    rw [body, body, List.takeWhile_append, if_neg shorter]

theorem atTriple_body (later : List Char) :
    Yaml.atTriple '-' (body ("---\n".toList ++ later)) = true := by
  have line : "---\n".toList = ['-', '-', '-', '\n'] := rfl
  have longer : (['-', '-', '-', '\n'] ++ later).takeWhile (· ≠ '\x00') =
      ['-', '-', '-', '\n'] ++ later.takeWhile (· ≠ '\x00') :=
    List.takeWhile_append_of_pos (by simp)
  have apart : ['-', '-', '-', '\n'].getLast? = some '\r' →
      (later.takeWhile (· ≠ '\x00')).head? ≠ some '\n' := nofun
  rw [line, body, longer, unifyBreaks_append apart]
  rfl

/-! ## Documents -/

/-- Whether the first document of a text is over where the text ends. -/
def endsCleanly (bytes : List UInt8) : Bool :=
  match Utf8.decode bytes with
  | .ok text => Yaml.endsCleanly (body text)
  | .error _ => false

/-- Where nothing but scalars has been read, there is no collection. -/
theorem hasStart_of_collection {events : List Event} {content : Node}
    (isContent : (Assembly.ofEvents events).content? = some content)
    (isCollection : content.kind = .mapping ∨ content.kind = .sequence) :
    Yaml.hasStart events = true := by
  by_contra notStarted
  have bare := Assembly.bare_of_hasStart_eq_false (Bool.eq_false_iff.mpr notStarted)
  rw [bare.root content isContent] at isCollection
  simp at isCollection

theorem ofText_append {root content : Node} (accepted : ofText text = .ok root)
    (isContent : root.content? = some content)
    (isCollection : content.kind = .mapping ∨ content.kind = .sequence)
    (lastBreak : text.getLast? = some '\n')
    (clean : Yaml.endsCleanly (body text) = true) (later : List Char) :
    ofText (text ++ ("---\n".toList ++ later)) = .ok root := by
  rw [ofText] at accepted
  rcases reads : Yaml.events (body text) with fault | events
  · rw [reads] at accepted
    cases accepted
  rw [reads] at accepted
  cases accepted
  have started := hasStart_of_collection isContent isCollection
  rcases body_append lastBreak ("---\n".toList ++ later) with same | ⟨lines, longer⟩
  · rw [ofText, same, reads]
  · rw [ofText, longer, Yaml.events_append lines (atTriple_body later) clean reads started]

theorem ofBytes_eq_ofText (someChar : text ≠ []) :
    ofBytes (text.flatMap utf8EncodeChar) = ofText text := by
  have someByte : text.flatMap utf8EncodeChar ≠ [] := by
    obtain ⟨c, rest, rfl⟩ := List.exists_cons_of_ne_nil someChar
    rw [List.flatMap_cons, ne_eq, List.append_eq_nil_iff, not_and]
    exact fun noByte => absurd noByte String.utf8EncodeChar_ne_nil
  rw [ofBytes, if_neg someByte, Utf8.decode_eq_ok_iff.mpr rfl]

theorem ofBytes_append {root content : Node} (accepted : ofBytes bytes = .ok root)
    (isContent : root.content? = some content)
    (isCollection : content.kind = .mapping ∨ content.kind = .sequence)
    (lastBreak : bytes.getLast? = some LineEnding.lineFeed) (clean : endsCleanly bytes = true)
    (later : String) : ofBytes (bytes ++ Utf8.encode ("---\n" ++ later)) = .ok root := by
  obtain ⟨text, decodes⟩ := exists_decode_of_ofBytes accepted
  rw [endsCleanly, decodes] at clean
  obtain rfl := Utf8.decode_eq_ok_iff.mp decodes
  have lastChar := getLast?_of_encode lastBreak
  have someChar : text ≠ [] := by
    rintro rfl
    cases lastChar
  rw [ofBytes_eq_ofText someChar] at accepted
  rw [Utf8.encode, String.toList_append, ← List.flatMap_append,
    ofBytes_eq_ofText (List.append_ne_nil_of_left_ne_nil someChar _)]
  exact ofText_append accepted isContent isCollection lastChar clean later.toList

end Document

/-- Later documents, well formed or not, change neither the first one nor where any path leads. -/
theorem first_of_many {bytes : List UInt8} {root content : Node}
    (accepted : Document.ofBytes bytes = .ok root) (isContent : root.content? = some content)
    (isCollection : content.kind = .mapping ∨ content.kind = .sequence)
    (lastBreak : bytes.getLast? = some LineEnding.lineFeed)
    (clean : Document.endsCleanly bytes = true) (later : String) :
    Document.ofBytes (bytes ++ Utf8.encode ("---\n" ++ later)) = Document.ofBytes bytes ∧
      ∀ (path : String) (start : Nat),
        resolve (bytes ++ Utf8.encode ("---\n" ++ later)) path start =
          resolve bytes path start := by
  have same := Document.ofBytes_append accepted isContent isCollection lastBreak clean later
  rw [← accepted] at same
  refine ⟨same, fun path start => ?_⟩
  simp only [resolve, Query.ofPath, Query.walk]
  rcases Path.parse path with fault | steps
  · rfl
  · simp only [Except.map, same]

/-- Blocks that are open at the end are closed by the end of the text or by the line `---`, and a
block scalar with content does not depend on which of them it is. -/
theorem first_of_many_malformed :
    Document.ofBytes (Utf8.encode "a:\n  - {b: [1]}\nc: |+\n  text\n\n" ++ Utf8.encode "---\n@") =
      Document.ofBytes (Utf8.encode "a:\n  - {b: [1]}\nc: |+\n  text\n\n") := by
  have found : ((Document.ofBytes (Utf8.encode "a:\n  - {b: [1]}\nc: |+\n  text\n\n")).toOption.bind
      Node.content?).map Node.kind = some .mapping := by
    decide +kernel
  rcases accepted : Document.ofBytes (Utf8.encode "a:\n  - {b: [1]}\nc: |+\n  text\n\n") with
    _ | root
  · rw [accepted] at found
    cases found
  rw [accepted] at found
  obtain ⟨content, isContent, isMapping⟩ := Option.map_eq_some_iff.mp found
  rw [← accepted]
  exact (first_of_many accepted isContent (.inl isMapping) (by decide +kernel) (by decide +kernel)
    "@").1

/-- What is open when the longer text is at fault, or a block scalar without content at the end, may
be read differently there. -/
theorem first_of_many_open_ends :
    ((Document.ofBytes (Utf8.encode "[a] [b\n")).toOption.bind Node.content?).map Node.kind =
        some .sequence ∧
      (Document.ofBytes (Utf8.encode "[a] [b\n" ++ Utf8.encode "---\n@")).isOk = false ∧
      (((Document.ofBytes (Utf8.encode "a: |\n")).toOption.bind Node.content?).bind
        (Node.pair? "a")).bind (·.2.text?) = some "\n" ∧
      (((Document.ofBytes (Utf8.encode "a: |\n" ++ Utf8.encode "---\n")).toOption.bind
        Node.content?).bind (Node.pair? "a")).bind (·.2.text?) = some "" := by
  decide +kernel

end FieldLine
