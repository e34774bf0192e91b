import FieldLine.Proofs.Path.Spelling

/-!
# What is wrong with a path

A path that cannot be read is at fault in its first segment that spells no step.  The fault says
what is wrong with this segment and, if its name is missing, where in the path it begins.  Segments
after it do not matter.
-/

namespace FieldLine
namespace Path

/-- What is wrong with a segment that begins at some byte of a path and spells no step.  Only where
its name is missing, the path itself is part of the fault. -/
inductive Explains (position : Nat) : List Char → (String → Fault) → Prop where
  | noName {segment : List Char} :
      segment = [] ∨ segment.head? = some '[' →
      Explains position segment (fun path => .emptySegment path position)
  | notClosed {segment : List Char} :
      segment ≠ [] → segment.head? ≠ some '[' → segment.getLast? ≠ some ']' →
      Explains position segment (fun _ => .unterminatedIndex (.ofList segment))
  | noNumber {name text : List Char} :
      name ≠ [] → '[' ∉ name →
      Explains position (name ++ '[' :: (text ++ [']']))
        (fun _ => .invalidIndex (.ofList (name ++ '[' :: (text ++ [']']))) (.ofList text))

/-- The part of a path before the segment that follows some others. -/
def textBefore (earlier : List (List Char)) : String :=
  .ofList (earlier.flatMap fun piece => piece ++ ['.'])

/-! ## One segment -/

variable {segment suffix text : List Char} {path : String} {position : Nat}

theorem index_of_not_closed (notClosed : suffix.getLast? ≠ some ']') :
    index segment suffix = .error (.unterminatedIndex (.ofList segment)) := by
  rw [index, if_neg notClosed]

theorem index_of_no_number
    (noNumber :
      ¬ (text ≠ [] ∧ text.all Decimal.isDigit ∧ Decimal.value text < wordBound)) :
    index segment (text ++ [']']) =
      .error (.invalidIndex (.ofList segment) (.ofList text)) := by
  have unread : Decimal.word? text = none := by
    rw [Decimal.word?, if_neg noNumber]
  rw [index, List.getLast?_concat, if_pos rfl, List.dropLast_concat, unread]

theorem getLast?_append_bracket (name suffix : List Char) :
    (name ++ '[' :: suffix).getLast? = some ']' ↔ suffix.getLast? = some ']' := by
  rw [List.getLast?_append, List.getLast?_cons, Option.some_or, Option.some_inj]
  cases suffix.getLast? with
  | none => simp
  | some last => simp

/-- A segment that spells no step is refused, with what is wrong with it, whatever path it is in. -/
theorem exists_step_eq_error (noDot : '.' ∉ segment)
    (malformed : ∀ spelled : Step, ¬ SpellsStep segment spelled) (position : Nat) :
    ∃ fault : String → Fault,
      Explains position segment fault ∧
        ∀ path : String, step path position segment = .error (fault path) := by
  rcases segment_cases segment with
    unnamed | ⟨someChar, notOpened, noBracket | ⟨name, suffix, rfl, named, noBracket⟩⟩
  · exact ⟨_, .noName unnamed, fun path => step_of_unnamed unnamed path position⟩
  · exact absurd (.key someChar noDot noBracket) (malformed (.key (.ofList segment)))
  · by_cases closed : suffix.getLast? = some ']'
    · obtain ⟨text, rfl⟩ := List.getLast?_eq_some_iff.mp closed
      have nameNoDot : '.' ∉ name := fun member => noDot (List.mem_append_left _ member)
      refine ⟨_, .noNumber named noBracket, fun path => ?_⟩
      rw [step_append named noBracket, index_of_no_number]
      · rfl
      · rintro ⟨someDigit, allDigits, bounded⟩
        exact
          malformed _
            (.element named nameNoDot noBracket someDigit (List.all_eq_true.mp allDigits) bounded)
    · have stillOpen : (name ++ '[' :: suffix).getLast? ≠ some ']' :=
        mt (getLast?_append_bracket name suffix).mp closed
      refine ⟨_, .notClosed someChar notOpened stillOpen, fun path => ?_⟩
      rw [step_append named noBracket, index_of_not_closed closed]
      rfl

/-! ## Segments in turn -/

theorem foldl_utf8Size (text : List Char) (length : Nat) :
    text.foldl (fun length c => length + c.utf8Size) length =
      length + (String.ofList text).utf8ByteSize := by
  induction text generalizing length with
  | nil => rfl
  | cons c rest inductionHypothesis =>
      have single : (String.ofList [c]).utf8ByteSize = c.utf8Size := by
        rw [← String.singleton_eq_ofList, String.utf8ByteSize_singleton]
      have split : String.ofList (c :: rest) = String.ofList [c] ++ String.ofList rest := by
        rw [← String.ofList_append]
        rfl
      rw [List.foldl_cons, inductionHypothesis, split, String.utf8ByteSize_append, single,
        Nat.add_assoc]

theorem byteLength_eq (text : List Char) : byteLength text = (String.ofList text).utf8ByteSize := by
  rw [byteLength, foldl_utf8Size, Nat.zero_add]

theorem textBefore_cons (piece : List Char) (others : List (List Char)) :
    (textBefore (piece :: others)).utf8ByteSize =
      byteLength piece + 1 + (textBefore others).utf8ByteSize := by
  have dot : (String.ofList ['.']).utf8ByteSize = 1 := rfl
  rw [textBefore, List.flatMap_cons, String.ofList_append, String.ofList_append,
    String.utf8ByteSize_append, String.utf8ByteSize_append, dot, byteLength_eq]
  rfl

/-- Segments are read after those before them, from the byte after these and their dots on. -/
theorem steps_append (path : String) (position : Nat) (earlier later : List (List Char)) :
    steps path position (earlier ++ later) = (do
      let first ← steps path position earlier
      let second ← steps path (position + (textBefore earlier).utf8ByteSize) later
      return first ++ second) := by
  induction earlier generalizing position with
  | nil =>
      have same : position + (textBefore []).utf8ByteSize = position := rfl
      rw [List.nil_append, same]
      cases steps path position later with
      | error fault => rfl
      | ok second => rfl
  | cons piece others inductionHypothesis =>
      rw [List.cons_append, steps, steps, inductionHypothesis, textBefore_cons, ← Nat.add_assoc,
        ← Nat.add_assoc]
      cases step path position piece with
      | error fault => rfl
      | ok head =>
          cases steps path (position + byteLength piece + 1) others with
          | error fault => rfl
          | ok tail =>
              generalize position + byteLength piece + 1 + (textBefore others).utf8ByteSize = after
              cases steps path after later with
              | error fault => rfl
              | ok second => rfl

/-- Reading comes to the first segment that spells no step, and counts the bytes before it. -/
theorem steps_of_first_fault {earlier later : List (List Char)} {fault : Fault}
    (spelled : ∀ piece ∈ earlier, ∃ step : Step, SpellsStep piece step)
    (refused :
      step path (position + (textBefore earlier).utf8ByteSize) segment = .error fault) :
    steps path position (earlier ++ segment :: later) = .error fault := by
  obtain ⟨read, spells⟩ := exists_forall₂_spellsStep spelled
  rw [steps_append, steps_of_forall₂ spells, steps, refused]
  rfl

theorem exists_first_malformed {pieces : List (List Char)}
    (malformed : ∃ piece ∈ pieces, ∀ step : Step, ¬ SpellsStep piece step) :
    ∃ (earlier later : List (List Char)) (segment : List Char),
      pieces = earlier ++ segment :: later ∧
        (∀ piece ∈ earlier, ∃ step : Step, SpellsStep piece step) ∧
        ∀ step : Step, ¬ SpellsStep segment step := by
  induction pieces with
  | nil =>
      obtain ⟨piece, member, -⟩ := malformed
      cases member
  | cons piece others inductionHypothesis =>
      by_cases spelled : ∃ step : Step, SpellsStep piece step
      · obtain ⟨other, member, isMalformed⟩ := malformed
        rcases List.mem_cons.mp member with rfl | laterMember
        · obtain ⟨step, spells⟩ := spelled
          exact absurd spells (isMalformed step)
        · obtain ⟨earlier, later, segment, rfl, spelledEarlier, isMalformed⟩ :=
            inductionHypothesis ⟨other, laterMember, isMalformed⟩
          exact
            ⟨piece :: earlier, later, segment, rfl,
              List.forall_mem_cons.mpr ⟨spelled, spelledEarlier⟩, isMalformed⟩
      · exact ⟨[], others, piece, rfl, List.forall_mem_nil _, not_exists.mp spelled⟩

/-! ## Where the segment begins -/

theorem intercalate_dot_cons (segment : List Char) (later : List (List Char)) :
    ['.'].intercalate (segment :: later) = segment ++ later.flatMap ('.' :: ·) := by
  induction later generalizing segment with
  | nil => simp
  | cons next others inductionHypothesis =>
      rw [List.intercalate_cons_cons, inductionHypothesis, List.flatMap_cons, List.append_assoc]
      rfl

theorem intercalate_dot_append (earlier : List (List Char)) (segment : List Char)
    (later : List (List Char)) :
    ['.'].intercalate (earlier ++ segment :: later) =
      (earlier.flatMap fun piece => piece ++ ['.']) ++
        (segment ++ later.flatMap ('.' :: ·)) := by
  induction earlier with
  | nil => exact intercalate_dot_cons segment later
  | cons piece others inductionHypothesis =>
      have more : others ++ segment :: later ≠ [] := by simp
      rw [List.cons_append, List.intercalate_cons_of_ne_nil more, inductionHypothesis,
        List.flatMap_cons, List.append_assoc (piece ++ ['.'])]

theorem eq_textBefore_append {earlier later : List (List Char)}
    (cut : path.toList.splitOn '.' = earlier ++ segment :: later) :
    path =
      textBefore earlier ++ (.ofList segment ++ .ofList (later.flatMap ('.' :: ·))) := by
  have whole := intercalate_dot_append earlier segment later
  rw [← cut, List.intercalate_splitOn] at whole
  rw [textBefore, ← String.ofList_append, ← String.ofList_append, ← whole, String.ofList_toList]

theorem textBefore_eq_or (earlier : List (List Char)) :
    textBefore earlier = "" ∨ ∃ start : String, textBefore earlier = start ++ "." := by
  rcases List.eq_nil_or_concat earlier with rfl | ⟨others, last, rfl⟩
  · exact .inl rfl
  · refine .inr ⟨.ofList ((others.flatMap fun piece => piece ++ ['.']) ++ last), ?_⟩
    have dot : "." = String.ofList ['.'] := rfl
    rw [textBefore, dot, ← String.ofList_append, List.concat_eq_append, List.flatMap_append,
      List.flatMap_singleton, List.append_assoc]

theorem parse_of_first_fault {earlier later : List (List Char)} {fault : Fault}
    (notEmpty : path ≠ "") (cut : path.toList.splitOn '.' = earlier ++ segment :: later)
    (spelled : ∀ piece ∈ earlier, ∃ step : Step, SpellsStep piece step)
    (refused : step path (textBefore earlier).utf8ByteSize segment = .error fault) :
    parse path = .error fault := by
  rw [parse_of_ne notEmpty, segments_eq_splitOn, cut]
  apply steps_of_first_fault spelled
  rw [Nat.zero_add]
  exact refused

theorem exists_parse_eq_error {earlier later : List (List Char)}
    (cut : path.toList.splitOn '.' = earlier ++ segment :: later)
    (spelled : ∀ piece ∈ earlier, ∃ step : Step, SpellsStep piece step)
    (malformed : ∀ step : Step, ¬ SpellsStep segment step) :
    ∃ fault : String → Fault,
      Explains (textBefore earlier).utf8ByteSize segment fault ∧
        ∀ (other : String) (rest : List (List Char)),
          other ≠ "" → other.toList.splitOn '.' = earlier ++ segment :: rest →
            parse other = .error (fault other) := by
  have noDot : '.' ∉ segment := by
    apply not_mem_dot_of_mem_segments path.toList
    rw [segments_eq_splitOn, cut]
    exact List.mem_append_right earlier List.mem_cons_self
  obtain ⟨fault, explains, refused⟩ :=
    exists_step_eq_error noDot malformed (textBefore earlier).utf8ByteSize
  refine ⟨fault, explains, ?_⟩
  intro other rest notEmpty otherCut
  exact parse_of_first_fault notEmpty otherCut spelled (refused other)

theorem Explains.ne_empty {fault : String → Fault} (explains : Explains position segment fault) :
    fault path ≠ .empty := by
  cases explains <;> exact nofun

theorem parse_eq_error_empty_iff (path : String) : parse path = .error .empty ↔ path = "" := by
  constructor
  · intro result
    by_contra notEmpty
    by_cases malformed :
      ∃ piece ∈ path.toList.splitOn '.', ∀ step : Step, ¬ SpellsStep piece step
    · obtain ⟨earlier, later, segment, cut, spelled, isMalformed⟩ :=
        exists_first_malformed malformed
      obtain ⟨fault, explains, faulty⟩ := exists_parse_eq_error cut spelled isMalformed
      rw [faulty path later notEmpty cut] at result
      exact explains.ne_empty (Except.error.inj result)
    · push Not at malformed
      obtain ⟨read, spells⟩ := exists_forall₂_spellsStep malformed
      rw [(parse_eq_ok_iff path read).mpr ⟨notEmpty, spells⟩] at result
      cases result
  · rintro rfl
    rfl

/-- A path that is not empty and cannot be read is at fault in the first of its segments between
dots that spells no step.  The fault is the same in all paths that begin with the same segments up
to this one, but for the path itself where it is part of the fault.  The segment begins at the byte
that the fault gives, which is the first byte of a character or the end of the path, and directly
after a dot unless it is the first byte.  Only the empty path has the fault that it is empty. -/
theorem parse_fault_of_first_malformed :
    (∀ path : String, parse path = .error .empty ↔ path = "") ∧
      ∀ path : String,
        path ≠ "" →
        (∃ piece ∈ path.toList.splitOn '.', ∀ step : Step, ¬ SpellsStep piece step) →
          ∃ (earlier later : List (List Char)) (segment : List Char) (before after : String)
            (fault : String → Fault),
            path.toList.splitOn '.' = earlier ++ segment :: later ∧
              (∀ piece ∈ earlier, ∃ step : Step, SpellsStep piece step) ∧
              (∀ step : Step, ¬ SpellsStep segment step) ∧
              path = before ++ (.ofList segment ++ after) ∧
              before.toList = earlier.flatMap (fun piece => piece ++ ['.']) ∧
              (before.utf8ByteSize = 0 ∨ ∃ start : String, before = start ++ ".") ∧
              String.Pos.Raw.IsValid path ⟨before.utf8ByteSize⟩ ∧
              before.utf8ByteSize ≤ path.utf8ByteSize ∧
              Explains before.utf8ByteSize segment fault ∧
              parse path = .error (fault path) ∧
              ∀ (other : String) (rest : List (List Char)),
                other ≠ "" → other.toList.splitOn '.' = earlier ++ segment :: rest →
                  parse other = .error (fault other) := by
  refine ⟨parse_eq_error_empty_iff, ?_⟩
  intro path notEmpty malformed
  obtain ⟨earlier, later, segment, cut, spelled, isMalformed⟩ := exists_first_malformed malformed
  obtain ⟨fault, explains, faulty⟩ := exists_parse_eq_error cut spelled isMalformed
  have whole := eq_textBefore_append cut
  have isBoundary : String.Pos.Raw.IsValid path ⟨(textBefore earlier).utf8ByteSize⟩ :=
    String.Pos.Raw.isValid_iff_exists_append.mpr ⟨_, _, whole, rfl⟩
  have preceded : (textBefore earlier).utf8ByteSize = 0 ∨
      ∃ start : String, textBefore earlier = start ++ "." := by
    rcases textBefore_eq_or earlier with first | dotted
    · rw [first]
      exact .inl rfl
    · exact .inr dotted
  exact
    ⟨earlier, later, segment, _, _, fault, cut, spelled, isMalformed, whole,
      String.toList_ofList, preceded, isBoundary, isBoundary.le_rawEndPos, explains,
      faulty path later notEmpty cut, faulty⟩

/-- The nameless segment between two dots begins at byte 11, as two letters before it have two bytes
each. -/
theorem parse_fault_of_first_malformed_dots :
    let path := "größe[1]..image"
    (∃ piece ∈ path.toList.splitOn '.', ∀ step : Step, ¬ SpellsStep piece step) ∧
      (∃ (segment : List Char) (before after : String) (fault : String → Fault),
        path = before ++ (.ofList segment ++ after) ∧
          String.Pos.Raw.IsValid path ⟨before.utf8ByteSize⟩ ∧
          Explains before.utf8ByteSize segment fault ∧ parse path = .error (fault path)) ∧
      parse path = .error (.emptySegment path 11) := by
  intro path
  have nameless : ∃ piece ∈ path.toList.splitOn '.', ∀ step : Step, ¬ SpellsStep piece step := by
    refine ⟨[], ?_, fun step spells => spells.ne_nil rfl⟩
    rw [← segments_eq_splitOn]
    decide
  obtain ⟨-, -, segment, before, after, fault, -, -, -, whole, -, -, isBoundary, -, explains,
    faulty, -⟩ := parse_fault_of_first_malformed.2 path (by decide) nameless
  exact
    ⟨nameless, ⟨segment, before, after, fault, whole, isBoundary, explains, faulty⟩, by decide⟩

end Path
end FieldLine
