import FieldLine.Proofs.Text.Encoding
import FieldLine.Proofs.Text.LineEndings
import FieldLine.Resolve
import Mathlib.Data.List.Induction

/-!
# Normalized line endings

A carriage return that is dropped before a line feed belongs to the same line break as the line
feed, so that lines stay where they are.  There is one exception.  In front of the two there may be
another carriage return, a line break of its own, and this one forms a pair with the line feed as
soon as the carriage return between them is gone.
-/

namespace FieldLine

open String (utf8EncodeChar)

/-! ## Unified line breaks -/

namespace Document

theorem unifyBreaks_eq_self {text : List Char} (noReturn : ∀ c ∈ text, c ≠ '\r') :
    unifyBreaks text = text := by
  induction text with
  | nil => rfl
  | cons c rest inductionHypothesis =>
      rw [List.forall_mem_cons] at noReturn
      rw [unifyBreaks_cons c rest fun isReturn => absurd isReturn noReturn.1,
        if_neg noReturn.1, inductionHypothesis noReturn.2]

/-- Line breaks are unified on both sides of a place that does not part a pair. -/
theorem unifyBreaks_append {first second : List Char}
    (apart : first.getLast? = some '\r' → second.head? ≠ some '\n') :
    unifyBreaks (first ++ second) = unifyBreaks first ++ unifyBreaks second := by
  induction first using List.twoStepInduction with
  | nil => rfl
  | singleton c =>
      have alone : unifyBreaks [c] = [if c = '\r' then '\n' else c] :=
        unifyBreaks_cons c [] fun _ => nofun
      have notPair : c = '\r' → second.head? ≠ some '\n' := by
        rintro rfl
        exact apart rfl
      rw [List.singleton_append, unifyBreaks_cons c second notPair, alone, List.singleton_append]
  | cons_cons c d rest afterBoth afterFirst =>
      by_cases isPair : c = '\r' ∧ d = '\n'
      · obtain ⟨rfl, rfl⟩ := isPair
        have apartLater : rest.getLast? = some '\r' → second.head? ≠ some '\n' := by
          intro isLast
          rcases rest with _ | ⟨next, later⟩
          · cases isLast
          · exact apart isLast
        rw [List.cons_append, List.cons_append, unifyBreaks_pair, unifyBreaks_pair,
          afterBoth apartLater, List.cons_append]
      · have notPair (later : List Char) : c = '\r' → (d :: later).head? ≠ some '\n' :=
          fun isReturn isFeed => isPair ⟨isReturn, Option.some.inj isFeed⟩
        rw [List.cons_append, List.cons_append, unifyBreaks_cons c _ (notPair _),
          unifyBreaks_cons c _ (notPair _), List.cons_append, ← List.cons_append,
          afterFirst d apart]

/-- A character is in the text with unified line breaks if one is in the text that becomes it. -/
theorem mem_unifyBreaks_iff {text : List Char} {c : Char} :
    c ∈ unifyBreaks text ↔ c ∈ text.map fun d => if d = '\r' then '\n' else d := by
  induction text using List.twoStepInduction with
  | nil => rfl
  | singleton d =>
      rw [unifyBreaks_cons d [] fun _ => nofun]
      rfl
  | cons_cons d e rest afterBoth afterFirst =>
      by_cases isPair : d = '\r' ∧ e = '\n'
      · obtain ⟨rfl, rfl⟩ := isPair
        rw [unifyBreaks_pair, List.mem_cons, afterBoth]
        simp
      · have notPair : d = '\r' → (e :: rest).head? ≠ some '\n' :=
          fun isReturn isFeed => isPair ⟨isReturn, Option.some.inj isFeed⟩
        rw [unifyBreaks_cons d _ notPair, List.mem_cons, afterFirst]
        exact List.mem_cons.symm

end Document

/-! ## Normalizing characters -/

/-- The characters without the carriage returns that have a line feed after them. -/
def withoutReturns : List Char → List Char
  | [] => []
  | c :: rest =>
      if c = '\r' ∧ rest.head? = some '\n' then withoutReturns rest else c :: withoutReturns rest

namespace LineEnding

theorem toUInt8_eq_iff {c : Char} (ascii : c.toNat < 128) (b : Char) (small : b.toNat < 128) :
    c.toNat.toUInt8 = b.toNat.toUInt8 ↔ c = b := by
  rw [← UInt8.toNat_inj, ← Char.toNat_inj]
  simp only [Nat.toUInt8_eq, UInt8.toNat_ofNat']
  omega

theorem normalize_append_of_le {bytes : List UInt8} (wide : ∀ b ∈ bytes, 128 ≤ b.toNat)
    (rest : List UInt8) : normalize (bytes ++ rest) = bytes ++ normalize rest := by
  induction bytes with
  | nil => rfl
  | cons b later inductionHypothesis =>
      rw [List.forall_mem_cons] at wide
      have notReturn : b ≠ carriageReturn := by
        rintro rfl
        exact absurd wide.1 (by decide)
      rw [List.cons_append, normalize_cons_of_ne notReturn, inductionHypothesis wide.2,
        List.cons_append]

theorem head?_encode_eq_lineFeed_iff {text : List Char} :
    (text.flatMap utf8EncodeChar).head? = some lineFeed ↔ text.head? = some '\n' := by
  rcases text with _ | ⟨c, rest⟩
  · simp
  rw [List.flatMap_cons, List.head?_cons, Option.some.injEq]
  by_cases ascii : c.toNat < 128
  · rw [Utf8.encodeChar_ascii ascii, List.singleton_append, List.head?_cons, Option.some.injEq]
    exact toUInt8_eq_iff ascii '\n' (by decide)
  · have wide : ∀ b ∈ utf8EncodeChar c, 128 ≤ b.toNat :=
      fun b => Utf8.le_of_mem_encodeChar (Nat.not_lt.mp ascii)
    have different : c ≠ '\n' := by
      rintro rfl
      exact ascii (by decide)
    rcases encoded : utf8EncodeChar c with _ | ⟨b, later⟩
    · exact absurd encoded String.utf8EncodeChar_ne_nil
    · rw [encoded, List.forall_mem_cons] at wide
      rw [List.cons_append, List.head?_cons, Option.some.injEq, iff_false_right different]
      rintro rfl
      exact absurd wide.1 (by decide)

/-- Normalizing bytes drops the carriage returns from the characters that they encode. -/
theorem normalize_encode (text : List Char) :
    normalize (text.flatMap utf8EncodeChar) = (withoutReturns text).flatMap utf8EncodeChar := by
  induction text with
  | nil => rfl
  | cons c rest inductionHypothesis =>
      rw [List.flatMap_cons, withoutReturns]
      by_cases ascii : c.toNat < 128
      · have isReturn : c.toNat.toUInt8 = carriageReturn ↔ c = '\r' :=
          toUInt8_eq_iff ascii '\r' (by decide)
        rw [Utf8.encodeChar_ascii ascii, List.singleton_append, normalize_cons]
        simp only [isReturn, head?_encode_eq_lineFeed_iff]
        split
        · exact inductionHypothesis
        · rw [inductionHypothesis, List.flatMap_cons, Utf8.encodeChar_ascii ascii,
            List.singleton_append]
      · have different : c ≠ '\r' := by
          rintro rfl
          exact ascii (by decide)
        rw [normalize_append_of_le (fun b => Utf8.le_of_mem_encodeChar (Nat.not_lt.mp ascii)),
          inductionHypothesis, if_neg fun isPair => different isPair.1, List.flatMap_cons]

end LineEnding

theorem Utf8.decode_normalize_of_ok {bytes : List UInt8} {text : List Char}
    (decodes : Utf8.decode bytes = .ok text) :
    Utf8.decode (LineEnding.normalize bytes) = .ok (withoutReturns text) := by
  rw [Utf8.decode_eq_ok_iff] at decodes ⊢
  rw [decodes, LineEnding.normalize_encode]

/-! ## Line breaks -/

section

variable {text : List Char}

theorem head?_of_head?_withoutReturns (first : (withoutReturns text).head? = some '\n') :
    text.head? = some '\n' ∨ ['\r', '\n'] <+: text := by
  rcases text with _ | ⟨c, rest⟩
  · cases first
  rw [withoutReturns] at first
  split at first
  · rename_i isPair
    obtain ⟨rfl, feed⟩ := isPair
    obtain ⟨later, rfl⟩ := List.head?_eq_some_iff.mp feed
    exact .inr ⟨later, rfl⟩
  · exact .inl first

namespace Document

theorem unifyBreaks_withoutReturns (clean : ¬['\r', '\r', '\n'] <:+: text) :
    unifyBreaks (withoutReturns text) = unifyBreaks text := by
  induction text with
  | nil => rfl
  | cons c rest inductionHypothesis =>
      rw [List.infix_cons_iff, not_or] at clean
      have same := inductionHypothesis clean.2
      rw [withoutReturns]
      split
      · rename_i isPair
        obtain ⟨rfl, feed⟩ := isPair
        obtain ⟨later, rfl⟩ := List.head?_eq_some_iff.mp feed
        rw [same, unifyBreaks_pair, unifyBreaks_cons '\n' later (by simp)]
        rfl
      · rename_i notPair
        have notPairLater : c = '\r' → (withoutReturns rest).head? ≠ some '\n' := by
          rintro rfl feed
          rcases head?_of_head?_withoutReturns feed with first | isPrefix
          · exact notPair ⟨rfl, first⟩
          · exact clean.1 ((List.prefix_cons_inj '\r').mpr isPrefix)
        rw [unifyBreaks_cons c _ notPairLater, same,
          unifyBreaks_cons c rest fun isReturn feed => notPair ⟨isReturn, feed⟩]

theorem takeWhile_withoutReturns (text : List Char) :
    (withoutReturns text).takeWhile (· ≠ '\x00') =
      withoutReturns (text.takeWhile (· ≠ '\x00')) := by
  induction text with
  | nil => rfl
  | cons c rest inductionHypothesis =>
      have sameFeed : (rest.takeWhile (· ≠ '\x00')).head? = some '\n' ↔ rest.head? = some '\n' := by
        rcases rest with _ | ⟨d, later⟩
        · rfl
        · by_cases isNull : d = '\x00' <;> simp [isNull]
      by_cases isNull : c = '\x00'
      · subst isNull
        rw [withoutReturns, if_neg (by simp)]
        simp [withoutReturns]
      · rw [List.takeWhile_cons_of_pos (by simpa using isNull), withoutReturns, withoutReturns]
        simp only [sameFeed]
        split
        · exact inductionHypothesis
        · rw [List.takeWhile_cons_of_pos (by simpa using isNull), inductionHypothesis]

theorem body_withoutReturns (clean : ¬['\r', '\r', '\n'] <:+: text) :
    body (withoutReturns text) = body text := by
  rw [body, takeWhile_withoutReturns, unifyBreaks_withoutReturns, body]
  exact fun found => clean (found.trans (List.takeWhile_prefix _).isInfix)

/-- A text that is normalized is read as before, or it is malformed at the same place. -/
theorem ofBytes_normalize {bytes : List UInt8} (decodes : Utf8.decode bytes = .ok text)
    (clean : ¬[LineEnding.carriageReturn, LineEnding.carriageReturn, LineEnding.lineFeed] <:+:
      bytes) : ofBytes (LineEnding.normalize bytes) = ofBytes bytes := by
  have cleanText : ¬['\r', '\r', '\n'] <:+: text := by
    rintro ⟨front, later, rfl⟩
    rw [Utf8.decode_eq_ok_iff.mp decodes, List.flatMap_append, List.flatMap_append] at clean
    exact clean ⟨_, _, rfl⟩
  by_cases isEmpty : bytes = []
  · rw [isEmpty, LineEnding.normalize_nil]
  · have leftOver : LineEnding.normalize bytes ≠ [] := mt LineEnding.normalize_eq_nil_iff.mp isEmpty
    rw [ofBytes, ofBytes, if_neg leftOver, if_neg isEmpty, decodes,
      Utf8.decode_normalize_of_ok decodes]
    simp only [ofText, body_withoutReturns cleanText]

theorem exists_decode_of_ofBytes {bytes : List UInt8} {root : Node}
    (accepted : ofBytes bytes = .ok root) : ∃ text, Utf8.decode bytes = .ok text := by
  rw [ofBytes] at accepted
  split at accepted
  · cases accepted
  · rcases decodes : Utf8.decode bytes with fault | text
    · rw [decodes] at accepted
      cases accepted
    · exact ⟨text, rfl⟩

end Document

end

/-- Normalizing line endings keeps the line to which each path leads in a document that is
accepted, except where a carriage return stands before a carriage return and a line feed. -/
theorem resolve_normalize {bytes : List UInt8} {root : Node}
    (accepted : Document.ofBytes bytes = .ok root)
    (clean : ¬[LineEnding.carriageReturn, LineEnding.carriageReturn, LineEnding.lineFeed] <:+:
      bytes)
    (path : String) (start : Nat) :
    resolve (LineEnding.normalize bytes) path start = resolve bytes path start := by
  obtain ⟨text, decodes⟩ := Document.exists_decode_of_ofBytes accepted
  have same := Document.ofBytes_normalize decodes clean
  simp only [resolve, Query.ofPath, Query.walk]
  rcases Path.parse path with fault | steps
  · rfl
  · simp only [Except.map, same]

/-- Pairs at two ends of lines are normalized, a lone carriage return between them is kept, and the
last key is found on the fourth line as before. -/
theorem resolve_normalize_mixed :
    resolve (LineEnding.normalize (Utf8.encode "a: 1\r\nb: 2\rc: 3\r\nd: 4")) "d" 7 =
      resolve (Utf8.encode "a: 1\r\nb: 2\rc: 3\r\nd: 4") "d" 7 := by
  have isOk : (Document.ofBytes (Utf8.encode "a: 1\r\nb: 2\rc: 3\r\nd: 4")).isOk = true := by
    decide +kernel
  rcases accepted : Document.ofBytes (Utf8.encode "a: 1\r\nb: 2\rc: 3\r\nd: 4") with _ | root
  · rw [accepted] at isOk
    cases isOk
  · exact resolve_normalize accepted (by decide +kernel) "d" 7

/-- Where a carriage return stands before the pair, two line breaks become one. -/
theorem resolve_normalize_doubled_return :
    (Document.ofBytes (Utf8.encode "a: 1\r\r\nb: 2")).isOk = true ∧
      (resolve (Utf8.encode "a: 1\r\r\nb: 2") "b" 7).toOption = some (⟨3, .resolved⟩, []) ∧
        (resolve (LineEnding.normalize (Utf8.encode "a: 1\r\r\nb: 2")) "b" 7).toOption =
          some (⟨2, .resolved⟩, []) := by
  decide +kernel

end FieldLine
