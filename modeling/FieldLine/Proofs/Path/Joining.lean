import FieldLine.Proofs.Path.Faults

/-!
# Joined paths

Two paths with a dot between them are read as one path, which has the steps of the first and then
those of the second.  If one of the two has a fault, the whole has the fault of the first that does,
counted from the beginning of the whole.
-/

namespace FieldLine
namespace Path

/-- The fault of a path as a fault of a longer path in which it begins at some byte.  Only the fault
of a segment without a name tells where in which path it is. -/
def Fault.within (whole : String) (start : Nat) : Fault → Fault
  | empty => empty
  | emptySegment _ position => emptySegment whole (start + position)
  | unterminatedIndex segment => unterminatedIndex segment
  | invalidIndex segment index => invalidIndex segment index

/-! ## Segments in a longer path -/

theorem index_mapError_within (whole : String) (start : Nat) (segment suffix : List Char) :
    (index segment suffix).mapError (.within whole start) = index segment suffix := by
  rw [index]
  split
  · split
    · rfl
    · rfl
  · rfl

theorem step_within (path whole : String) (start position : Nat) (segment : List Char) :
    step whole (start + position) segment =
      (step path position segment).mapError (.within whole start) := by
  rcases segment_cases segment with
    unnamed | ⟨someChar, -, noBracket | ⟨name, suffix, rfl, named, noBracket⟩⟩
  · rw [step_of_unnamed unnamed, step_of_unnamed unnamed]
    rfl
  · rw [step_of_not_mem someChar noBracket, step_of_not_mem someChar noBracket]
    rfl
  · rw [step_append named noBracket, step_append named noBracket, mapError_map,
      index_mapError_within]

theorem steps_within (path whole : String) (start position : Nat) (pieces : List (List Char)) :
    steps whole (start + position) pieces =
      (steps path position pieces).mapError (.within whole start) := by
  induction pieces generalizing position with
  | nil => rfl
  | cons piece later inductionHypothesis =>
      rw [steps, steps, step_within path, Nat.add_assoc, Nat.add_assoc, inductionHypothesis,
        ← Nat.add_assoc]
      cases step path position piece with
      | error fault => rfl
      | ok first =>
          cases steps path (position + byteLength piece + 1) later with
          | error fault => rfl
          | ok rest => rfl

/-! ## Both paths -/

theorem textBefore_segments (path : String) :
    textBefore (segments path.toList) = path ++ "." := by
  have cut : (path ++ ".").toList.splitOn '.' = segments path.toList ++ [] :: [] := by
    rw [String.toList_append, ← segments_eq_splitOn]
    exact segments_append path.toList []
  have whole := eq_textBefore_append cut
  simpa using whole.symm

theorem parse_joined {first second : String} (firstNotEmpty : first ≠ "")
    (secondNotEmpty : second ≠ "") :
    parse (first ++ "." ++ second) = (do
      let earlier ← (parse first).mapError (.within (first ++ "." ++ second) 0)
      let later ←
        (parse second).mapError (.within (first ++ "." ++ second) (first.utf8ByteSize + 1))
      return earlier ++ later) := by
  generalize joined : first ++ "." ++ second = whole
  have wholeNotEmpty : whole ≠ "" := by
    rw [← joined]
    simp
  have pieces : segments whole.toList = segments first.toList ++ segments second.toList := by
    rw [← joined, String.toList_append, String.toList_append, List.append_assoc]
    exact segments_append first.toList second.toList
  have size : (textBefore (segments first.toList)).utf8ByteSize = first.utf8ByteSize + 1 := by
    rw [textBefore_segments, String.utf8ByteSize_append]
    rfl
  rw [parse_of_ne wholeNotEmpty, parse_of_ne firstNotEmpty, parse_of_ne secondNotEmpty, pieces,
    steps_append, size, Nat.zero_add, ← steps_within first, ← steps_within second]

theorem parse_joined_eq_ok_iff {first second : String} (firstNotEmpty : first ≠ "")
    (secondNotEmpty : second ≠ "") (read : List Step) :
    parse (first ++ "." ++ second) = .ok read ↔
      ∃ earlier later : List Step,
        read = earlier ++ later ∧ parse first = .ok earlier ∧ parse second = .ok later := by
  rw [parse_joined firstNotEmpty secondNotEmpty]
  constructor
  · intro result
    obtain ⟨earlier, isFirst, result⟩ := exists_of_bind_eq_ok result
    obtain ⟨later, isSecond, result⟩ := exists_of_bind_eq_ok result
    exact
      ⟨earlier, later, (Except.ok.inj result).symm, eq_ok_of_mapError_eq_ok isFirst,
        eq_ok_of_mapError_eq_ok isSecond⟩
  · rintro ⟨earlier, later, rfl, isFirst, isSecond⟩
    rw [isFirst, isSecond]
    rfl

theorem length_of_parse {path : String} {read : List Step} (result : parse path = .ok read) :
    read.length = (path.toList.splitOn '.').length :=
  ((parse_eq_ok_iff path read).mp result).2.length_eq.symm

/-- Two paths with a dot between them are read as the steps of the first followed by those of the
second, and the whole is read only if both are.  As many steps are from the first path as it has
segments.  A fault of the first path is the fault of the whole, and so is a fault of the second if
the first has none, but with the whole path in it and the position counted in the whole. -/
theorem parse_append_dot {first second : String} (firstNotEmpty : first ≠ "")
    (secondNotEmpty : second ≠ "") :
    (∀ read : List Step,
        parse (first ++ "." ++ second) = .ok read ↔
          ∃ earlier later : List Step,
            read = earlier ++ later ∧ parse first = .ok earlier ∧ parse second = .ok later) ∧
      (∀ earlier later : List Step,
        earlier.length = (first.toList.splitOn '.').length →
          (parse (first ++ "." ++ second) = .ok (earlier ++ later) ↔
            parse first = .ok earlier ∧ parse second = .ok later)) ∧
      (∀ fault : Fault,
        parse first = .error fault →
          parse (first ++ "." ++ second) =
            .error (fault.within (first ++ "." ++ second) 0)) ∧
      ∀ (earlier : List Step) (fault : Fault),
        parse first = .ok earlier → parse second = .error fault →
          parse (first ++ "." ++ second) =
            .error (fault.within (first ++ "." ++ second) (first.utf8ByteSize + 1)) := by
  have whole := parse_joined firstNotEmpty secondNotEmpty
  have readsBoth := parse_joined_eq_ok_iff firstNotEmpty secondNotEmpty
  refine ⟨readsBoth, ?_, ?_, ?_⟩
  · intro earlier later long
    rw [readsBoth]
    constructor
    · intro bothRead
      obtain ⟨ofFirst, ofSecond, same, isFirst, isSecond⟩ := bothRead
      have sameLength : earlier.length = ofFirst.length := by
        rw [long, length_of_parse isFirst]
      obtain ⟨rfl, rfl⟩ := List.append_inj same sameLength
      exact ⟨isFirst, isSecond⟩
    · intro bothRead
      exact ⟨earlier, later, rfl, bothRead⟩
  · intro fault isFirst
    rw [whole, isFirst]
    rfl
  · intro earlier fault isFirst isSecond
    rw [whole, isFirst, isSecond]
    rfl

/-- The segment without a name in the second path begins two bytes after the eleven of the first
path and the dot, as two letters of the first path have two bytes each. -/
theorem parse_append_dot_nameless_segment :
    let first := "größe[1]"
    let second := "a..b"
    parse first = .ok [.element "größe" 1] ∧
      parse second = .error (.emptySegment second 2) ∧
        parse (first ++ "." ++ second) = .error (.emptySegment "größe[1].a..b" 13) ∧
          parse (second ++ "." ++ first) = .error (.emptySegment "a..b.größe[1]" 2) ∧
            parse (first ++ "." ++ first) = .ok [.element "größe" 1, .element "größe" 1] := by
  intro first second
  have isRead : parse first = .ok [.element "größe" 1] := by decide
  have isFault : parse second = .error (.emptySegment second 2) := by decide
  refine ⟨isRead, isFault, ?_, ?_, ?_⟩
  · exact (parse_append_dot (by decide) (by decide)).2.2.2 _ _ isRead isFault
  · exact (parse_append_dot (by decide) (by decide)).2.2.1 _ isFault
  · exact
      ((parse_append_dot (by decide) (by decide)).2.1 [.element "größe" 1] _ (by decide)).mpr
        ⟨isRead, isRead⟩

end Path
end FieldLine
