import FieldLine.Proofs.Continuation.Settled

/-!
# Where the text ends and the longer text goes on

At the end of a text of whole lines all blocks are closed, and then comes the end of the input.  In
the longer text, the line `---` closes the same blocks and then starts a document at the same place.
-/

namespace FieldLine
namespace Yaml

variable {more : List Char}

namespace Lexer

variable {lexer next : Lexer} {sighted : Nat}

/-! ## Ends of blocks -/

/-- Where levels are closed, the ends of blocks are added. -/
theorem closeTo_tokens (lexer : Lexer) (column : Int) :
    ∃ ends : List Token, (lexer.closeTo column).tokens = ends ++ lexer.tokens ∧
      ∀ token ∈ ends, token.kind = .blockEnd := by
  rw [closeTo]
  split
  · exact ⟨[], rfl, List.forall_mem_nil _⟩
  · exact ⟨_, rfl, fun _ => kind_of_mem_closeLevels⟩

theorem settle_tokens (settles : lexer.settle = .ok next) :
    ∃ ends : List Token, next.tokens = ends ++ lexer.tokens ∧
      ∀ token ∈ ends, token.kind = .blockEnd := by
  obtain ⟨skipped, skips, goesOn⟩ := exists_of_bind_eq_ok settles
  obtain ⟨kept, expires, closes⟩ := exists_of_bind_eq_ok goesOn
  obtain ⟨_, -, isSkipped⟩ := exists_of_bind_eq_ok skips
  obtain ⟨ends, same, areEnds⟩ := closeTo_tokens kept kept.cursor.column
  cases closes
  cases isSkipped
  rw [(expire_kept expires).2.1] at same
  exact ⟨ends, same, areEnds⟩

theorem settle_cursor (atEnd : lexer.cursor.rest = []) (settles : lexer.settle = .ok next) :
    next.cursor = lexer.cursor := by
  obtain ⟨skipped, skips, goesOn⟩ := exists_of_bind_eq_ok settles
  obtain ⟨kept, expires, closes⟩ := exists_of_bind_eq_ok goesOn
  obtain ⟨found, moves, isSkipped⟩ := exists_of_bind_eq_ok skips
  have stays : found.1 = lexer.cursor := by
    rw [atEnd, skipFrom] at moves
    cases moves
    rw [← atEnd]
  cases closes
  cases isSkipped
  rw [closeTo_cursor, (expire_kept expires).1]
  exact stays

theorem inFlow_of_length (sameLength : next.candidates.length = lexer.candidates.length) :
    next.inFlow = lexer.inFlow := by
  rw [Bool.eq_iff_iff, inFlow_iff, inFlow_iff]
  simp only [ledger, List.length_map, sameLength]

theorem settle_inFlow (settles : lexer.settle = .ok next) : next.inFlow = lexer.inFlow := by
  obtain ⟨skipped, skips, goesOn⟩ := exists_of_bind_eq_ok settles
  obtain ⟨kept, expires, closes⟩ := exists_of_bind_eq_ok goesOn
  obtain ⟨_, -, isSkipped⟩ := exists_of_bind_eq_ok skips
  obtain ⟨-, -, -, sameLength⟩ := expire_kept expires
  cases closes
  cases isSkipped
  refine inFlow_of_length ?_
  rw [closeTo_candidates]
  exact sameLength

/-! ## The end of the text -/

theorem not_round_of_atEnd (atEnd : lexer.cursor.rest = []) : ¬ Round lexer next := by
  rintro ⟨read, advances, expires, notEnd, -⟩
  rw [advance_eq] at advances
  obtain ⟨settled, settles, reads⟩ := exists_of_bind_eq_ok advances
  have someChar := ne_nil_of_readNext reads ((isAtEnd_expire expires).symm.trans notEnd)
  rw [settle_cursor atEnd settles] at someChar
  exact someChar atEnd

/-- At the very end nothing more is read, or ends of blocks and the end of the text. -/
theorem list_ofLexer_of_atEnd (ordered : lexer.ledger.Ordered) (atEnd : lexer.cursor.rest = []) :
    ∃ ends : List Token, (Tokens.ofLexer lexer).list <+: lexer.ledger.list ++ ends ∧
      ∀ token ∈ ends, token.kind.isBound = false := by
  rcases ofLexer_of_last fun next => not_round_of_atEnd atEnd with
    ⟨fault, same⟩ | ⟨settled, read, -, settles, reads, -, -, same⟩
  · refine ⟨[], ?_, nofun⟩
    rw [same, settled_reverse ordered, List.append_nil]
    exact List.take_prefix _ _
  have ends : settled.atEnd = .ok read := by
    rwa [readNext, settle_cursor atEnd settles, atEnd] at reads
  obtain ⟨first, firstTokens, areEnds⟩ := settle_tokens settles
  obtain ⟨second, secondTokens, areEndsToo⟩ := closeTo_tokens settled.finishing (-1)
  have tokens : read.tokens =
      (⟨settled.finishing.cursor.mark, .streamEnd⟩ :: (second ++ first)) ++ lexer.tokens := by
    rw [eq_of_atEnd ends, List.cons_append, List.append_assoc, ← firstTokens]
    exact congrArg (_ :: ·) secondTokens
  refine ⟨(⟨settled.finishing.cursor.mark, .streamEnd⟩ :: (second ++ first)).reverse, ?_, ?_⟩
  · rw [same, tokens, List.reverse_append]
    exact List.prefix_rfl
  · intro token member
    rw [List.mem_reverse, List.mem_cons, List.mem_append] at member
    rcases member with rfl | inSecond | inFirst
    · rfl
    · rw [areEndsToo token inSecond]
      rfl
    · rw [areEnds token inFirst]
      rfl

/-! ## The start of a document in its place -/

theorem forget_kept (forgets : lexer.forget = .ok next) :
    next.cursor = lexer.cursor ∧ next.tokens = lexer.tokens ∧
      next.candidates.length = lexer.candidates.length := by
  unfold forget at forgets
  split at forgets
  · rename_i candidate outer candidates
    split at forgets
    · cases forgets
    · cases forgets
      exact ⟨rfl, rfl, by rw [candidates]; rfl⟩
  · cases forgets
    exact ⟨rfl, rfl, rfl⟩

theorem exists_forget (notRequired : (lexer.candidates.any fun candidate =>
    candidate.any (·.required)) = false) : ∃ next : Lexer, lexer.forget = .ok next := by
  unfold forget
  split
  · rename_i candidate outer candidates
    rw [candidates, List.any_cons, Bool.or_eq_false_iff] at notRequired
    refine ⟨_, if_neg ?_⟩
    exact Bool.eq_false_iff.mp notRequired.1
  · exact ⟨_, rfl⟩

theorem not_required_of_atEnd (ends : lexer.atEnd = .ok next) :
    (lexer.candidates.any fun candidate => candidate.any (·.required)) = false := by
  unfold atEnd at ends
  dsimp only at ends
  split at ends
  · cases ends
  · exact Bool.eq_false_iff.mpr ‹_›

theorem expire_of_isClear (clear : lexer.ledger.IsClear) : lexer.expire = .ok lexer := by
  unfold expire
  split
  · rename_i candidate candidates
    have isNone := clear (some candidate.number) (by simp [ledger, candidates])
    cases isNone
  · rfl

theorem extend_ledger (more : List Char) (sighted : Nat) (lexer : Lexer) :
    (lexer.extend more sighted).ledger = lexer.ledger := by
  have sameNumber (candidate : Option Candidate) :
      (candidate.map (Candidate.extend more)).map Candidate.number =
        candidate.map Candidate.number := by
    cases candidate <;> rfl
  simp only [ledger, extend, List.map_map, Function.comp_def, sameNumber]

/-- Giving up all candidates does not matter for the blocks that are closed. -/
theorem closeTo_forgotten (candidates : List (Option Candidate))
    (sameLength : candidates.length = lexer.candidates.length) (column : Int) :
    { lexer with candidates := candidates }.closeTo column =
      { lexer.closeTo column with candidates := candidates } := by
  have sameFlow : inFlow { lexer with candidates := candidates } = lexer.inFlow :=
    inFlow_of_length sameLength
  rw [closeTo, closeTo, sameFlow]
  split <;> rfl

/-- What the end of a text of whole lines comes to. -/
theorem tokens_of_atEnd (atStart : lexer.cursor.column = 0) (ends : lexer.atEnd = .ok next) :
    next.tokens = ⟨lexer.cursor.mark, .streamEnd⟩ :: (lexer.closeTo (-1)).tokens := by
  have sameCursor : lexer.finishing.cursor = lexer.cursor := if_pos atStart
  have sameTokens : (lexer.finishing.closeTo (-1)).tokens = (lexer.closeTo (-1)).tokens := by
    have finished : lexer.finishing =
        { lexer with candidates := lexer.candidates.map fun _ => none } := by
      rw [← sameCursor]
      rfl
    rw [finished, closeTo_forgotten _ (List.length_map ..)]
  rw [eq_of_atEnd ends, sameCursor, ← sameTokens]
  rfl

/-- Where the end of the text may come, all blocks can be closed. -/
theorem exists_closeAll (ends : lexer.atEnd = .ok next) :
    ∃ closed : Lexer, lexer.closeAll = .ok closed ∧ closed.cursor = lexer.cursor ∧
      closed.tokens = (lexer.closeTo (-1)).tokens ∧
      closed.candidates.length = (lexer.closeTo (-1)).candidates.length ∧
      Ledger.Steps (lexer.closeTo (-1)).ledger closed.ledger ∧ closed.ledger.IsClear := by
  have notRequired : ((lexer.closeTo (-1)).candidates.any fun candidate =>
      candidate.any (·.required)) = false := by
    rw [closeTo_candidates]
    exact not_required_of_atEnd ends
  obtain ⟨kept, forgets⟩ := exists_forget notRequired
  obtain ⟨sameCursor, sameTokens, sameLength⟩ := forget_kept forgets
  obtain ⟨steps, clear⟩ := forget_steps forgets
  rw [closeTo_cursor] at sameCursor
  refine ⟨{ kept with keyAllowed := false }, ?_, sameCursor, sameTokens, sameLength, steps, clear⟩
  rw [closeAll, forgets]
  rfl

/-- The state after the line `---`, before which all blocks have been closed. -/
def started (closed : Lexer) : Lexer :=
  (closed.push closed.cursor.mark .documentStart).solid 3

theorem started_ledger (closed : Lexer) (more : List Char) (sighted : Nat) :
    (closed.extend more sighted).started.ledger =
      closed.ledger.push ⟨closed.cursor.mark, .documentStart⟩ :=
  congrArg (Ledger.push · _) (extend_ledger more sighted closed)

theorem readNext_eq_started (bound : atTriple '-' more = true) (sighted : Nat)
    (atStart : lexer.cursor.column = 0) (atEnd : lexer.cursor.rest = []) {closed : Lexer}
    (closes : lexer.closeAll = .ok closed) :
    (lexer.extend more sighted).readNext = .ok (closed.extend more sighted).started := by
  obtain ⟨_, closesToo, -, rfl⟩ := closeAll_carried more sighted closed closes
  obtain ⟨later, text⟩ := exists_of_atTriple bound
  have sameRest : (lexer.extend more sighted).cursor.rest = '-' :: later := by
    rw [extend_cursor, Cursor.extend_rest, atEnd, text]
    rfl
  have starts : (lexer.extend more sighted).readNext =
      (lexer.extend more sighted).atDocumentStart := by
    rw [text] at bound
    rw [readNext, sameRest]
    simp [bound, atStart]
  rw [starts, atDocumentStart, closesToo]
  rfl

theorem started_left_lt {closed : Lexer} (sameCursor : closed.cursor = lexer.cursor)
    (someMore : more ≠ []) (sighted : Nat) :
    (closed.extend more sighted).started.cursor.left < (lexer.extend more sighted).cursor.left := by
  have someLeft : 0 < (lexer.cursor.extend more).left := by
    rw [Cursor.extend_left]
    exact Nat.add_pos_right _ (List.length_pos_iff.mpr someMore)
  change ((closed.cursor.extend more).solid 3).left < (lexer.cursor.extend more).left
  rw [sameCursor]
  simp only [Cursor.solid, Place.solid]
  omega

/-- Where the text ends, the longer text has the start of a document, after the same tokens. -/
theorem atEnd_carried (bound : atTriple '-' more = true) (sighted : Nat)
    (onLines : lexer.cursor.OnLines) (atEnd : lexer.cursor.rest = [])
    (ends : lexer.atEnd = .ok next) :
    ∃ image : Lexer, (lexer.extend more sighted).readNext = .ok image ∧
      image.cursor.left < (lexer.extend more sighted).cursor.left ∧
      image.tokens = ⟨lexer.cursor.mark, .documentStart⟩ :: (lexer.closeTo (-1)).tokens ∧
      Ledger.Steps (lexer.closeTo (-1)).ledger image.ledger ∧ image.ledger.IsClear ∧
      image.ledger.numbers.length = (lexer.closeTo (-1)).ledger.numbers.length := by
  obtain ⟨closed, closes, sameCursor, sameTokens, sameLength, steps, clear⟩ := exists_closeAll ends
  have reads := readNext_eq_started bound sighted (onLines.start atEnd).1 atEnd closes
  have shorter := started_left_lt sameCursor (ne_nil_of_atTriple bound) sighted
  refine ⟨_, reads, shorter, ?_, ?_, ?_, ?_⟩
  · rw [← sameTokens, ← sameCursor]
    rfl
  · rw [started_ledger]
    exact steps.tail (.bound clear rfl)
  · rw [started_ledger]
    exact clear
  · rw [started_ledger]
    simpa [ledger, Ledger.push] using sameLength

end Lexer
end Yaml
end FieldLine
