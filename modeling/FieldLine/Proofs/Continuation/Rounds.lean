import FieldLine.Proofs.Continuation.Tokens
import FieldLine.Proofs.Yaml.Rounds

/-!
# Rounds in a text that goes on

The tokens of a text of whole lines are read in the same rounds if a line `---` follows.  The last
round is the exception: at its end the text has the end of the input, and the longer text the
start of a document, at the same place.  A block scalar at the very end may be the exception too.
-/

namespace FieldLine
namespace Yaml

variable {c : Char} {rest more : List Char}

def Token.isBlockScalar (token : Token) : Bool :=
  match token.kind with
  | .scalar _ .literal => true
  | .scalar _ .folded => true
  | _ => false

namespace Lexer

variable {lexer next : Lexer} {sighted : Nat}

/-- The text ends with a block scalar that more text may change: one that holds nothing but line
breaks, or one outside all blocks. -/
structure EndsOpen (lexer next : Lexer) : Prop where
  atEnd : next.cursor.rest = []
  scalar : ∃ token : Token, next.tokens = token :: lexer.tokens ∧ token.isBlockScalar = true ∧
    (next.levels = [] ∨ token.isHollow = true)

/-- What is read in the text is read in the longer one too, or it is a block scalar that is the end
of the text and that more text may change. -/
def ReadsOn (more : List Char) (lexer : Lexer) (result image : Except Fault Lexer) : Prop :=
  ∀ next, result = .ok next →
    (∃ last, image = .ok last ∧ Beside more next last) ∨ EndsOpen lexer next

theorem ReadsOn.of_carries {result image : Except Fault Lexer}
    (carries : Carries (Beside more) result image) : ReadsOn more lexer result image :=
  fun next reads => .inl (carries next reads)

/-! ## Single tokens -/

theorem suggest_tokens (lexer : Lexer) : lexer.suggest.tokens = lexer.tokens := by
  unfold suggest
  split <;> rfl

theorem indent_nonneg (someLevel : lexer.levels ≠ []) : 0 ≤ lexer.indent := by
  unfold indent
  split
  · contradiction
  · exact Int.natCast_nonneg _

theorem blockScalar_carried (bound : atTriple '-' more = true) (sighted : Nat)
    (inside : lexer.cursor.Inside) (sign : lexer.cursor.rest.head? ≠ some '\n') (folded : Bool) :
    ReadsOn more lexer (lexer.atBlockScalar folded)
      ((lexer.extend more sighted).atBlockScalar folded) := by
  intro next reads
  by_cases ends : next.cursor.rest = [] →
      0 ≤ next.indent ∧ ∀ token ∈ next.tokens.head?, token.isHollow = false
  · obtain ⟨onLines, same⟩ := atBlockScalar_carried bound sighted inside sign folded reads ends
    exact .inl ⟨_, same, onLines, sighted, rfl⟩
  · obtain ⟨atEnd, fails⟩ := Classical.not_imp.mp ends
    rw [atBlockScalar_eq] at reads
    rcases found : Block.read lexer.beginBlock.cursor lexer.beginBlock.indent folded
        lexer.beginBlock.sighted with fault | reading
    · rw [found] at reads
      cases reads
    rw [found] at reads
    cases reads
    refine .inr ⟨atEnd, _, congrArg (_ :: ·) (suggest_tokens lexer), ?_, ?_⟩
    · cases folded <;> rfl
    · refine or_iff_not_imp_left.mpr fun someLevel => ?_
      by_contra isSolid
      refine fails ⟨indent_nonneg someLevel, ?_⟩
      intro token isHead
      cases isHead
      exact Bool.eq_false_iff.mpr isSolid

/-- Where a value may come without a gap, in the text and in the longer one. -/
theorem adjacentValue_extend (lexer : Lexer) (more : List Char) (sighted : Nat) :
    ((lexer.extend more sighted).adjacentValue = some (lexer.extend more sighted).cursor.left) =
      (lexer.adjacentValue = some lexer.cursor.left) := by
  change (lexer.adjacentValue.map (· + more.length) = some (lexer.cursor.left + more.length)) = _
  rcases lexer.adjacentValue with _ | left <;> simp

theorem readToken_carried (bound : atTriple '-' more = true) (sighted : Nat)
    (inside : lexer.cursor.Inside) (text : lexer.cursor.rest = c :: rest) (notBreak : c ≠ '\n') :
    ReadsOn more lexer (lexer.readToken c rest)
      ((lexer.extend more sighted).readToken c (rest ++ more)) := by
  have sign : lexer.cursor.rest.head? ≠ some '\n' := by
    rw [text]
    exact fun isBreak => notBreak (Option.some.inj isBreak)
  have someChar : rest ≠ [] := by
    have lines := inside.lines
    rw [text] at lines
    exact lines.ne_nil notBreak
  have plain : ReadsOn more lexer lexer.atPlain (lexer.extend more sighted).atPlain :=
    .of_carries (atPlain_carried bound sighted inside)
  unfold readToken
  simp only [atGap_append someChar, nextIs_append someChar, extend_inFlow, adjacentValue_extend]
  split
  · exact .of_carries (atFlowStart_carried sighted inside sign _)
  · exact .of_carries (atFlowStart_carried sighted inside sign _)
  · exact .of_carries (atFlowEnd_carried sighted inside sign _)
  · exact .of_carries (atFlowEnd_carried sighted inside sign _)
  · exact .of_carries (atFlowEntry_carried sighted inside sign)
  · exact .of_carries (atAlias_carried sighted inside sign)
  · exact .of_carries (atAnchor_carried sighted inside sign)
  · exact .of_carries (atTag_carried sighted inside sign)
  · exact .of_carries (atQuoted_carried bound sighted inside sign true)
  · exact .of_carries (atQuoted_carried bound sighted inside sign false)
  · exact .of_carries (.error _ _)
  · exact .of_carries (.error _ _)
  · exact .of_carries (.error _ _)
  · exact related_ite (fun _ => .of_carries (atBlockEntry_carried sighted inside sign))
      fun _ => plain
  · exact related_ite (fun _ => .of_carries (atKey_carried bound sighted inside sign))
      fun _ => plain
  · exact related_ite (fun _ => .of_carries (atValue_carried sighted inside sign))
      fun _ => plain
  · exact related_ite (fun _ => plain)
      fun _ => blockScalar_carried bound sighted inside sign false
  · exact related_ite (fun _ => plain)
      fun _ => blockScalar_carried bound sighted inside sign true
  · exact plain

/-! ## Rounds -/

/-- Moves to the next token and closes the blocks that end there. -/
def settle (lexer : Lexer) : Except Fault Lexer := do
  let lexer ← lexer.skipToToken
  let lexer ← lexer.expire
  return lexer.closeTo lexer.cursor.column

/-- Reads the token at the cursor, which may bound documents. -/
def readNext (lexer : Lexer) : Except Fault Lexer :=
  match lexer.cursor.rest with
  | [] => lexer.atEnd
  | c :: rest =>
      if lexer.cursor.column = 0 && c = '%' then
        lexer.atDirective
      else if lexer.cursor.column = 0 && atTriple '-' (c :: rest) then
        lexer.atDocumentStart
      else if lexer.cursor.column = 0 && atTriple '.' (c :: rest) then
        lexer.atDocumentEnd
      else if (lexer.cursor.column : Int) < lexer.indent then
        lexer.cursor.fault .indentShallow
      else
        lexer.readToken c rest

theorem advance_eq (lexer : Lexer) : lexer.advance = lexer.settle >>= readNext := by
  simp only [advance, settle, bind_assoc, pure_bind]
  rfl

/-- Between tokens there is no line break. -/
theorem skipFrom_ne_break {indented : Option Int} {inFlow inComment keyAllowed : Bool}
    {text : List Char} {place : Place} {found : Cursor × Bool}
    (skips : skipFrom indented inFlow text place inComment keyAllowed = .ok found) :
    found.1.rest.head? ≠ some '\n' := by
  fun_induction skipFrom indented inFlow text place inComment keyAllowed with
  | case1 =>
      cases skips
      nofun
  | case2 _ _ _ _ inductionHypothesis => exact inductionHypothesis skips
  | case3 _ _ _ _ _ _ _ inductionHypothesis => exact inductionHypothesis skips
  | case4 => cases skips
  | case5 =>
    rename_i inductionHypothesis
    exact inductionHypothesis skips
  | case6 =>
    rename_i inductionHypothesis
    exact inductionHypothesis skips
  | case7 c rest place inComment keyAllowed notBreak =>
      cases skips
      exact fun isBreak => notBreak (Option.some.inj isBreak)

theorem settle_ne_break (settles : lexer.settle = .ok next) :
    next.cursor.rest.head? ≠ some '\n' := by
  obtain ⟨skipped, skips, goesOn⟩ := exists_of_bind_eq_ok settles
  obtain ⟨kept, expires, closes⟩ := exists_of_bind_eq_ok goesOn
  obtain ⟨found, moves, skippedIs⟩ := exists_of_bind_eq_ok skips
  cases skippedIs
  cases closes
  obtain ⟨image, -, sameCursor, -⟩ := expire_carried [] 0 _ expires
  rw [closeTo_cursor, sameCursor]
  exact skipFrom_ne_break moves

theorem settle_carried (bound : atTriple '-' more = true) (sighted : Nat)
    (onLines : lexer.cursor.OnLines) :
    Carries (fun next image => next.cursor.OnLines ∧ image = next.extend more sighted)
      lexer.settle (lexer.extend more sighted).settle := by
  refine (skipToToken_carried bound sighted onLines).bind ?_
  rintro skipped _ ⟨staysSkipped, rfl, -⟩
  refine (expire_carried more sighted).bind ?_
  rintro kept _ ⟨sameCursor, rfl⟩
  rw [← sameCursor] at staysSkipped
  refine .ok ⟨?_, closeTo_extend _⟩
  rw [closeTo_cursor]
  exact staysSkipped

theorem readNext_carried (bound : atTriple '-' more = true) (sighted : Nat)
    (inside : lexer.cursor.Inside) (sign : lexer.cursor.rest.head? ≠ some '\n') :
    ReadsOn more lexer lexer.readNext (lexer.extend more sighted).readNext := by
  obtain ⟨c, rest, text⟩ := List.exists_cons_of_ne_nil inside.someChar
  have notBreak : c ≠ '\n' := by
    rintro rfl
    rw [text] at sign
    exact sign rfl
  have marks (d : Char) (notBreakToo : d ≠ '\n') :
      atTriple d (c :: (rest ++ more)) = atTriple d (c :: rest) := by
    have lines := inside.lines
    rw [text] at lines
    exact atTriple_append lines (List.cons_ne_nil c rest) notBreakToo more
  unfold readNext
  dsimp only [extend_cursor, Cursor.extend_rest, Cursor.extend_column, extend_indent]
  rw [text]
  simp only [List.cons_append, marks '-' (by decide), marks '.' (by decide)]
  refine related_ite (fun _ => .of_carries (atDirective_carried sighted inside sign)) fun _ => ?_
  refine related_ite (fun starts => ?_) fun _ => related_ite (fun ends => ?_) fun _ => ?_
  · rw [Bool.and_eq_true, ← text] at starts
    exact .of_carries (atDocumentStart_carried sighted inside starts.2)
  · rw [Bool.and_eq_true, ← text] at ends
    exact .of_carries (atDocumentEnd_carried sighted inside ends.2)
  · exact related_ite (fun _ => .of_carries (.error _ _)) fun _ =>
      readToken_carried bound sighted inside text notBreak

/-- A round of reading a token, apart from what comes of it. -/
theorem advance_carried (bound : atTriple '-' more = true) (sighted : Nat)
    (onLines : lexer.cursor.OnLines) {settled : Lexer} (settles : lexer.settle = .ok settled)
    (someChar : settled.cursor.rest ≠ []) (reads : settled.readNext = .ok next) :
    (∃ image, (lexer.extend more sighted).advance = .ok image ∧ Beside more next image) ∨
      EndsOpen settled next := by
  obtain ⟨_, sameSettle, stays, rfl⟩ := settle_carried bound sighted onLines settled settles
  rw [advance_eq, sameSettle]
  exact readNext_carried bound sighted (stays.inside someChar) (settle_ne_break settles) next reads

theorem isAtEnd_of_atEnd (ends : lexer.atEnd = .ok next) : next.isAtEnd = true := by
  unfold atEnd at ends
  dsimp only at ends
  split at ends
  · cases ends
  · obtain ⟨_, -, isNext⟩ := exists_of_bind_eq_ok ends
    cases isNext
    rfl

theorem expire_kept (expires : lexer.expire = .ok next) :
    next.cursor = lexer.cursor ∧ next.tokens = lexer.tokens ∧ next.levels = lexer.levels ∧
      next.candidates.length = lexer.candidates.length := by
  unfold expire at expires
  split at expires
  · rename_i candidate candidates
    split at expires
    · cases expires
      exact ⟨rfl, rfl, rfl, rfl⟩
    split at expires
    · cases expires
    · cases expires
      exact ⟨rfl, rfl, rfl, by rw [candidates]; rfl⟩
  · cases expires
    exact ⟨rfl, rfl, rfl, rfl⟩

theorem EndsOpen.expire (ends : EndsOpen lexer next) {last : Lexer}
    (expires : next.expire = .ok last) : EndsOpen lexer last := by
  obtain ⟨sameCursor, sameTokens, sameLevels, -⟩ := expire_kept expires
  refine ⟨?_, ?_⟩
  · rw [sameCursor]
    exact ends.atEnd
  · rw [sameTokens, sameLevels]
    exact ends.scalar

theorem isAtEnd_expire (expires : lexer.expire = .ok next) : next.isAtEnd = lexer.isAtEnd := by
  rw [isAtEnd, isAtEnd, (expire_kept expires).2.1]

/-- The cursor of a round that reads a token stands before one. -/
theorem ne_nil_of_readNext (reads : lexer.readNext = .ok next) (notEnd : next.isAtEnd = false) :
    lexer.cursor.rest ≠ [] := by
  intro isEmpty
  rw [readNext, isEmpty] at reads
  rw [isAtEnd_of_atEnd reads] at notEnd
  cases notEnd

/-- One round more, unless a block scalar ends the text. -/
theorem Round.carried (bound : atTriple '-' more = true) (sighted : Nat)
    (onLines : lexer.cursor.OnLines) (round : Round lexer next) :
    (next.cursor.OnLines ∧ ∃ sightedToo : Nat,
      Round (lexer.extend more sighted) (next.extend more sightedToo)) ∨
    ∃ settled : Lexer, lexer.settle = .ok settled ∧ EndsOpen settled next := by
  obtain ⟨read, advances, expires, notEnd, shorter⟩ := round
  rw [advance_eq] at advances
  obtain ⟨settled, settles, reads⟩ := exists_of_bind_eq_ok advances
  have someChar := ne_nil_of_readNext reads ((isAtEnd_expire expires).symm.trans notEnd)
  rcases advance_carried bound sighted onLines settles someChar reads with
    ⟨_, sameAdvance, stays, sightedToo, rfl⟩ | ends
  · left
    obtain ⟨_, sameExpire, sameCursor, rfl⟩ := expire_carried more sightedToo next expires
    rw [← sameCursor] at stays
    refine ⟨stays, sightedToo, _, sameAdvance, sameExpire, notEnd, ?_⟩
    rw [extend_cursor, extend_cursor, Cursor.extend_left, Cursor.extend_left]
    omega
  · exact .inr ⟨settled, settles, ends.expire expires⟩

/-- Rounds in the text are rounds in the longer text, apart from one that ends in a block
scalar. -/
theorem rounds_carried (bound : atTriple '-' more = true) (sighted : Nat)
    (onLines : lexer.cursor.OnLines) (rounds : Relation.ReflTransGen Round lexer next) :
    (next.cursor.OnLines ∧ ∃ sightedToo : Nat, Relation.ReflTransGen Round
      (lexer.extend more sighted) (next.extend more sightedToo)) ∨
    ∃ last settled final : Lexer, Relation.ReflTransGen Round lexer last ∧
      last.settle = .ok settled ∧ EndsOpen settled final ∧ Round last final ∧
      Relation.ReflTransGen Round final next ∧
      ∃ sightedToo : Nat, Relation.ReflTransGen Round
        (lexer.extend more sighted) (last.extend more sightedToo) := by
  induction rounds with
  | refl => exact .inl ⟨onLines, sighted, .refl⟩
  | @tail before after toBefore round inductionHypothesis =>
      rcases inductionHypothesis with ⟨onLinesBefore, sightedToo, same⟩ |
        ⟨last, settled, final, toLast, settles, ends, isFinal, later, same⟩
      · rcases round.carried bound sightedToo onLinesBefore with
          ⟨onLinesAfter, sightedAfter, another⟩ | ⟨settled, settles, ends⟩
        · exact .inl ⟨onLinesAfter, sightedAfter, same.tail another⟩
        · exact .inr ⟨before, settled, after, toBefore, settles, ends, round, .refl, sightedToo,
            same⟩
      · exact .inr ⟨last, settled, final, toLast, settles, ends, isFinal, later.tail round, same⟩

end Lexer
end Yaml
end FieldLine
