import FieldLine.Json.Skip
import FieldLine.Proofs.Json.Numbers

/-!
# Moving through written collections

The elements of a list and the members of an object are written with blanks before each of them,
and with commas between them.  A reader gets from each one to the next, whatever the blanks are.
-/

namespace FieldLine
namespace Json

/-! ## Blanks -/

def IsBlank (bytes : List UInt8) : Prop :=
  ∀ b ∈ bytes, isSpace b = true

theorem isBlank_nil : IsBlank [] :=
  fun _ member => absurd member List.not_mem_nil

namespace Cursor

variable {blank rest : List UInt8} {b : UInt8} {first : Bool}

theorem skipSpace_blank (isBlank : IsBlank blank) (text : List UInt8) (place : Place) :
    ∃ next, (⟨place, blank ++ text⟩ : Cursor).skipSpace = (⟨next, text⟩ : Cursor).skipSpace := by
  induction blank generalizing place with
  | nil => exact ⟨place, rfl⟩
  | cons space later inductionHypothesis =>
      rw [IsBlank, List.forall_mem_cons] at isBlank
      obtain ⟨next, skips⟩ := inductionHypothesis isBlank.2 (place.after space)
      refine ⟨next, ?_⟩
      rw [← skips, skipSpace, List.cons_append, skipSpaceFrom, if_pos isBlank.1]
      rfl

theorem skipSpace_at (solid : isSpace b = false) (place : Place) :
    (⟨place, b :: rest⟩ : Cursor).skipSpace = ⟨place, b :: rest⟩ := by
  simp [skipSpace, skipSpaceFrom, solid]

theorem skipSpace_solid (solid : isSpace b = false) (isBlank : IsBlank blank)
    (rest : List UInt8) (place : Place) :
    ∃ next, (⟨place, blank ++ b :: rest⟩ : Cursor).skipSpace = ⟨next, b :: rest⟩ := by
  obtain ⟨next, skips⟩ := skipSpace_blank isBlank (b :: rest) place
  exact ⟨next, skips.trans (skipSpace_at solid next)⟩

theorem skipSpace_end (isBlank : IsBlank blank) (place : Place) :
    ∃ next, (⟨place, blank⟩ : Cursor).skipSpace = ⟨next, []⟩ := by
  obtain ⟨next, skips⟩ := skipSpace_blank isBlank [] place
  rw [List.append_nil] at skips
  exact ⟨next, skips⟩

/-! ## Elements and members -/

/-- What stands before an element or member: blanks, with a comma before them unless it is the
first one. -/
def lead (blank : List UInt8) : (first : Bool) → List UInt8
  | true => blank
  | false => byte ',' :: blank

theorem nextElement_lead (isBlank : IsBlank blank) (solid : isSpace b = false)
    (notEnd : b ≠ byte ']') (rest : List UInt8) (first : Bool) (place : Place) :
    ∃ next, (⟨place, lead blank first ++ b :: rest⟩ : Cursor).nextElement first =
      .ok (⟨next, b :: rest⟩, true) := by
  cases first with
  | true =>
      obtain ⟨next, skips⟩ := skipSpace_solid solid isBlank rest place
      refine ⟨next, ?_⟩
      rw [nextElement, lead, skips]
      simp only [if_neg notEnd, if_true]
  | false =>
      obtain ⟨next, skips⟩ :=
        skipSpace_solid solid isBlank rest (place.after (byte ','))
      refine ⟨next, ?_⟩
      rw [nextElement, lead, List.cons_append, skipSpace_at (by decide)]
      simp only [if_neg (show ¬byte ',' = byte ']' by decide), Bool.false_eq_true, if_false,
        if_true, Cursor.next, skips, if_neg notEnd]

theorem nextElement_end (isBlank : IsBlank blank) (rest : List UInt8) (first : Bool)
    (place : Place) :
    ∃ next, (⟨place, blank ++ byte ']' :: rest⟩ : Cursor).nextElement first =
      .ok (⟨next, byte ']' :: rest⟩, false) := by
  obtain ⟨next, skips⟩ := skipSpace_solid (b := byte ']') rfl isBlank rest place
  refine ⟨next, ?_⟩
  rw [nextElement, skips]
  simp only [if_true]

theorem nextMember_lead (isBlank : IsBlank blank) (rest : List UInt8) (first : Bool)
    (place : Place) :
    ∃ next, (⟨place, lead blank first ++ byte '"' :: rest⟩ : Cursor).nextMember first =
      .ok (⟨next, rest⟩, true) := by
  cases first with
  | true =>
      obtain ⟨next, skips⟩ := skipSpace_solid (b := byte '"') rfl isBlank rest place
      refine ⟨next.after (byte '"'), ?_⟩
      rw [nextMember, lead, skips]
      simp only [if_neg (show ¬byte '"' = byte '\x7d' by decide), if_true, Cursor.next]
  | false =>
      obtain ⟨next, skips⟩ :=
        skipSpace_solid (b := byte '"') rfl isBlank rest (place.after (byte ','))
      refine ⟨next.after (byte '"'), ?_⟩
      rw [nextMember, lead, List.cons_append, skipSpace_at (by decide)]
      simp only [if_neg (show ¬byte ',' = byte '\x7d' by decide), Bool.false_eq_true, if_false,
        if_true, Cursor.next, skips]

theorem nextMember_end (isBlank : IsBlank blank) (rest : List UInt8) (first : Bool)
    (place : Place) :
    ∃ next, (⟨place, blank ++ byte '\x7d' :: rest⟩ : Cursor).nextMember first =
      .ok (⟨next, byte '\x7d' :: rest⟩, false) := by
  obtain ⟨next, skips⟩ := skipSpace_solid (b := byte '\x7d') rfl isBlank rest place
  refine ⟨next, ?_⟩
  rw [nextMember, skips]
  simp only [if_true]

end Cursor

/-! ## Bytes of scalars -/

theorem ne_of_isDigit {b other : UInt8} (digit : isDigit b = true)
    (noDigit : isDigit other = false) : b ≠ other := by
  rintro rfl
  rw [digit] at noDigit
  cases noDigit

theorem not_isSpace_of_isDigit {b : UInt8} (digit : isDigit b = true) : isSpace b = false := by
  simp only [isSpace, Bool.or_eq_false_iff, decide_eq_false_iff_not]
  exact ⟨⟨⟨ne_of_isDigit digit rfl, ne_of_isDigit digit rfl⟩, ne_of_isDigit digit rfl⟩,
    ne_of_isDigit digit rfl⟩

namespace Cursor

theorem skipWord_encoded (place : Place) (rest : List UInt8) (word : List Char) :
    ∃ next, (⟨place, word.map byte ++ rest⟩ : Cursor).skipWord word = .ok ⟨next, rest⟩ := by
  induction word generalizing place with
  | nil => exact ⟨place, rfl⟩
  | cons c later inductionHypothesis =>
      obtain ⟨next, skips⟩ := inductionHypothesis (place.after (byte c))
      refine ⟨next, ?_⟩
      rw [List.map_cons, List.cons_append, skipWord]
      simp only [if_true]
      exact skips

end Cursor

theorem endsNumber_of_isSpace {rest : List UInt8} {b : UInt8} (space : isSpace b = true) :
    Number.EndsNumber (b :: rest) := by
  rintro other ⟨⟩
  simp only [isSpace, Bool.or_eq_true, decide_eq_true_eq] at space
  rcases space with ((rfl | rfl) | rfl) | rfl <;> decide

end Json
end FieldLine
