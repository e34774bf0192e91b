import FieldLine.Proofs.Continuation.Scalars
import FieldLine.Yaml.Lexer.Tokens

/-!
# Tokens of a text that goes on

A state of reading a text of whole lines has its like for the longer text: all places have more
characters left.  Reading a token leads from such a pair of states to another one.
-/

namespace FieldLine
namespace Yaml

variable {c : Char} {text rest more : List Char} {place : Place} {cursor : Cursor}

def Candidate.extend (more : List Char) (candidate : Candidate) : Candidate :=
  { candidate with place := candidate.place.extend more }

/-- Whether a token is a block scalar that holds nothing but line breaks. -/
def Token.isHollow (token : Token) : Bool :=
  match token.kind with
  | .scalar text .literal => text.toList.all (· = '\n')
  | .scalar text .folded => text.toList.all (· = '\n')
  | _ => false

namespace Lexer

/-- The state of reading the longer text, in which something else may have been sighted. -/
def extend (more : List Char) (sighted : Nat) (lexer : Lexer) : Lexer :=
  { lexer with
    cursor := lexer.cursor.extend more
    candidates := lexer.candidates.map (Option.map (Candidate.extend more))
    adjacentValue := lexer.adjacentValue.map (· + more.length)
    sighted := sighted }

/-- A state in a text of whole lines and a state for the longer text. -/
def Beside (more : List Char) (lexer image : Lexer) : Prop :=
  lexer.cursor.OnLines ∧ ∃ sighted : Nat, image = lexer.extend more sighted

variable {lexer next : Lexer} {sighted : Nat} {mark : Mark} {kind : TokenKind}

/-! ## Levels, candidates and tokens -/

@[simp]
theorem extend_cursor : (lexer.extend more sighted).cursor = lexer.cursor.extend more :=
  rfl

@[simp]
theorem extend_inFlow : (lexer.extend more sighted).inFlow = lexer.inFlow := by
  unfold inFlow extend
  rcases lexer.candidates with _ | ⟨first, _ | ⟨second, others⟩⟩ <;> rfl

@[simp]
theorem extend_indent : (lexer.extend more sighted).indent = lexer.indent :=
  rfl

theorem closeTo_extend (column : Int) :
    (lexer.extend more sighted).closeTo column = (lexer.closeTo column).extend more sighted := by
  rw [closeTo, closeTo, extend_inFlow]
  split <;> rfl

theorem openBlock_extend (column number : Nat) :
    (lexer.extend more sighted).openBlock column number mark kind =
      (lexer.openBlock column number mark kind).extend more sighted := by
  rw [openBlock, openBlock, extend_inFlow]
  split
  · rfl
  · dsimp only
    rw [apply_ite (extend more sighted)]
    rfl

theorem deepen_extend :
    (lexer.extend more sighted).deepen = lexer.deepen.extend more sighted := by
  unfold deepen
  rw [extend_inFlow]
  have sameLevels : (lexer.extend more sighted).levels = lexer.levels := rfl
  rw [sameLevels]
  split
  · rw [apply_ite (extend more sighted)]
    rfl
  · rfl

theorem suggest_extend :
    (lexer.extend more sighted).suggest = lexer.suggest.extend more sighted := by
  unfold suggest
  rw [extend_inFlow]
  change (if lexer.keyAllowed = true then _ else _) = _
  split
  · simp only [extend, List.map_cons, List.map_tail]
    rfl
  · rfl

theorem closePair_extend (more : List Char) (lexer : Lexer) (sighted : Nat) (mark : Mark) :
    (lexer.extend more sighted).closePair mark = (lexer.closePair mark).extend more sighted := by
  unfold closePair
  change (if lexer.pairOpen = true then _ else _) = _
  split <;> rfl

theorem leaveFlow_extend :
    (lexer.extend more sighted).leaveFlow = lexer.leaveFlow.extend more sighted := by
  rcases candidates : lexer.candidates with _ | ⟨first, _ | ⟨second, others⟩⟩ <;>
    simp [leaveFlow, extend, candidates]

theorem forget_carried (more : List Char) (sighted : Nat) :
    Carries (fun next image => next.cursor = lexer.cursor ∧ image = next.extend more sighted)
      lexer.forget (lexer.extend more sighted).forget := by
  rcases candidates : lexer.candidates with _ | ⟨_ | candidate, outer⟩
  · simp only [forget, extend, candidates, List.map_nil]
    exact .ok ⟨rfl, by simp [candidates]⟩
  · simp only [forget, extend, candidates, List.map_cons, Option.map_none]
    exact .ok ⟨rfl, by simp [candidates]⟩
  · simp only [forget, extend, candidates, List.map_cons, Option.map_some]
    exact .ite (fun _ => .error _ _) fun _ => .ok ⟨rfl, by simp⟩

theorem expire_carried (more : List Char) (sighted : Nat) :
    Carries (fun next image => next.cursor = lexer.cursor ∧ image = next.extend more sighted)
      lexer.expire (lexer.extend more sighted).expire := by
  have sameStale (candidate : Candidate) :
      (lexer.extend more sighted).isStale (candidate.extend more) = lexer.isStale candidate := by
    have lefts :
        (lexer.extend more sighted).cursor.left + 1024 < (candidate.extend more).place.left ↔
          lexer.cursor.left + 1024 < candidate.place.left := by
      change lexer.cursor.left + more.length + 1024 < candidate.place.left + more.length ↔ _
      omega
    rw [isStale, isStale, decide_eq_decide.mpr lefts]
    rfl
  unfold expire
  have sameCandidates :
      (lexer.extend more sighted).candidates =
        lexer.candidates.map (Option.map (Candidate.extend more)) := rfl
  rw [sameCandidates]
  rcases candidates : lexer.candidates with _ | ⟨_ | candidate, _ | ⟨outer, others⟩⟩
  · exact .ok ⟨rfl, rfl⟩
  · exact .ok ⟨rfl, rfl⟩
  · exact .ok ⟨rfl, rfl⟩
  · simp only [List.map_cons, List.map_nil, Option.map_some, sameStale]
    exact .ite (fun _ => .ok ⟨rfl, rfl⟩) fun _ =>
      .ite (fun _ => .error _ _) fun _ => .ok ⟨rfl, rfl⟩
  · exact .ok ⟨rfl, rfl⟩

/-! ## Moving between tokens -/

theorem skipFrom_bound (bound : atTriple '-' more = true) (indented : Option Int)
    (inFlow keyAllowed : Bool) (place : Place) :
    skipFrom indented inFlow more place false keyAllowed = .ok (⟨place, more⟩, keyAllowed) := by
  obtain ⟨later, rfl⟩ := exists_of_atTriple bound
  simp [skipFrom]

theorem skipFrom_carried (bound : atTriple '-' more = true) (indented : Option Int)
    (inFlow inComment keyAllowed : Bool) (onLines : Cursor.OnLines ⟨place, text⟩)
    (atLineStart : text = [] → inComment = false) :
    Carries (fun found image => found.1.OnLines ∧ image = (found.1.extend more, found.2))
      (skipFrom indented inFlow text place inComment keyAllowed)
      (skipFrom indented inFlow (text ++ more) (place.extend more) inComment keyAllowed) := by
  induction text generalizing place inComment keyAllowed with
  | nil =>
      rw [atLineStart rfl, List.nil_append, skipFrom_bound bound]
      exact .ok ⟨onLines, rfl⟩
  | cons c rest inductionHypothesis =>
      have inside := onLines.inside (List.cons_ne_nil c rest)
      simp only [List.cons_append, skipFrom]
      refine .ite (fun _ => ?_) fun notBreak => ?_
      · rw [Cursor.newline_extend inside.left]
        exact inductionHypothesis _ _ inside.newline fun _ => rfl
      have next := inside.blank notBreak
      have onward (inComment keyAllowed : Bool) :
          Carries (fun found image => found.1.OnLines ∧ image = (found.1.extend more, found.2))
            (skipFrom indented inFlow rest place.blank inComment keyAllowed)
            (skipFrom indented inFlow (rest ++ more) (place.extend more).blank inComment
              keyAllowed) := by
        rw [Cursor.blank_extend inside.left]
        exact inductionHypothesis _ _ next.onLines fun isEmpty => absurd isEmpty next.someChar
      obtain ⟨lines, remains⟩ := IsLines.dropWhile (p := isBlank) next.lines next.someChar rfl
      refine .ite (fun _ => onward _ _) fun _ => .ite (fun _ => ?_) fun _ =>
        .ite (fun _ => onward _ _) fun _ => .ok ⟨onLines, rfl⟩
      rw [dropWhile_append remains, atLineEnd_append remains, nextIs_append remains]
      exact .ite (fun _ => .error _ _) fun _ => onward _ _

theorem skipToToken_carried (bound : atTriple '-' more = true) (sighted : Nat)
    (onLines : lexer.cursor.OnLines) :
    Carries
      (fun next image => next.cursor.OnLines ∧ image = next.extend more sighted ∧
        next = { lexer with cursor := next.cursor, keyAllowed := next.keyAllowed })
      lexer.skipToToken (lexer.extend more sighted).skipToToken := by
  simp only [skipToToken, extend_inFlow, extend_indent]
  refine (skipFrom_carried bound _ _ _ _ onLines fun _ => rfl).bind ?_
  rintro ⟨cursor, keyAllowed⟩ _ ⟨stays, rfl⟩
  exact .ok ⟨stays, rfl, rfl⟩

theorem skipGapFrom_carried (bound : atTriple '-' more = true) (inFlow inComment keyAllowed : Bool)
    (found : Bool) (onLines : Cursor.OnLines ⟨place, text⟩)
    (atLineStart : text = [] → inComment = false) :
    (skipGapFrom inFlow text place inComment keyAllowed found).1.OnLines ∧
      skipGapFrom inFlow (text ++ more) (place.extend more) inComment keyAllowed found =
        ((skipGapFrom inFlow text place inComment keyAllowed found).1.extend more,
          (skipGapFrom inFlow text place inComment keyAllowed found).2) := by
  induction text generalizing place inComment keyAllowed found with
  | nil =>
      obtain ⟨later, rfl⟩ := exists_of_atTriple bound
      rw [atLineStart rfl]
      refine ⟨onLines, ?_⟩
      simp [skipGapFrom, Cursor.extend]
  | cons c rest inductionHypothesis =>
      have inside := onLines.inside (List.cons_ne_nil c rest)
      simp only [List.cons_append, skipGapFrom]
      split
      · rw [Cursor.newline_extend inside.left]
        exact inductionHypothesis _ _ _ inside.newline fun _ => rfl
      rename_i notBreak
      have next := inside.blank notBreak
      have onward (inComment keyAllowed found : Bool) :=
        inductionHypothesis inComment keyAllowed found next.onLines
          fun isEmpty => absurd isEmpty next.someChar
      rw [Cursor.blank_extend inside.left]
      split
      · exact onward _ _ _
      split
      · exact onward _ _ _
      split
      · exact onward _ _ _
      · exact ⟨onLines, rfl⟩

theorem skipGap_carried (bound : atTriple '-' more = true) (inFlow keyAllowed : Bool)
    (onLines : cursor.OnLines) :
    (skipGapFrom inFlow cursor.rest cursor.toPlace false keyAllowed false).1.OnLines ∧
      skipGapFrom inFlow (cursor.extend more).rest (cursor.extend more).toPlace false keyAllowed
          false =
        ((skipGapFrom inFlow cursor.rest cursor.toPlace false keyAllowed false).1.extend more,
          (skipGapFrom inFlow cursor.rest cursor.toPlace false keyAllowed false).2) :=
  skipGapFrom_carried bound inFlow false keyAllowed false onLines fun _ => rfl

/-- What is found by moving over blanks, in the text and in the longer one. -/
theorem skipBlanks_carried (more : List Char) (sighted : Nat) (inside : lexer.cursor.Inside)
    (tabs : Bool) :
    Carries
      (fun found image => found.1.cursor.Inside ∧
        image = (found.1.extend more sighted, found.2) ∧
        found.1 = { lexer with cursor := found.1.cursor })
      (lexer.skipBlanks tabs) ((lexer.extend more sighted).skipBlanks tabs) := by
  simp only [skipBlanks]
  refine (Cursor.skipBlanks_carried more inside tabs).bind ?_
  rintro ⟨cursor, blanks⟩ _ ⟨stays, rfl⟩
  exact .ok ⟨stays, rfl, rfl⟩

theorem solid_carried (more : List Char) (sighted : Nat) (inside : lexer.cursor.Inside)
    {count : Nat} (passed : ∀ d ∈ lexer.cursor.rest.take count, d ≠ '\n') :
    (lexer.solid count).cursor.Inside ∧
      (lexer.extend more sighted).solid count = (lexer.solid count).extend more sighted := by
  obtain ⟨stays, same, -⟩ := Cursor.solid_carried more inside count passed
  refine ⟨stays, ?_⟩
  simp only [solid, extend_cursor, same]
  rfl

/-! ## Bounds of documents -/

theorem closeTo_cursor (lexer : Lexer) (column : Int) :
    (lexer.closeTo column).cursor = lexer.cursor := by
  rw [closeTo]
  split <;> rfl

theorem closeAll_carried (more : List Char) (sighted : Nat) :
    Carries (fun next image => next.cursor = lexer.cursor ∧ image = next.extend more sighted)
      lexer.closeAll (lexer.extend more sighted).closeAll := by
  simp only [closeAll, closeTo_extend]
  refine (forget_carried more sighted).bind ?_
  rintro next _ ⟨same, rfl⟩
  exact .ok ⟨same.trans (closeTo_cursor lexer (-1)), rfl⟩

theorem atDirective_carried (sighted : Nat) (inside : lexer.cursor.Inside)
    (sign : lexer.cursor.rest.head? ≠ some '\n') :
    Carries (Beside more) lexer.atDirective (lexer.extend more sighted).atDirective := by
  simp only [atDirective]
  refine (closeAll_carried more sighted).bind ?_
  rintro next _ ⟨same, rfl⟩
  rw [← same] at inside sign
  refine (Directive.read_carried inside sign).bind ?_
  rintro ⟨directive, cursor⟩ _ ⟨stays, rfl⟩
  exact .ok ⟨stays, sighted, rfl⟩

theorem ne_break_of_atTriple (marks : atTriple c text = true) (notBreak : c ≠ '\n') :
    ∀ d ∈ text.take 3, d ≠ '\n' := by
  rcases text with _ | ⟨c₁, _ | ⟨c₂, _ | ⟨c₃, rest⟩⟩⟩
  · cases marks
  · cases marks
  · cases marks
  · simp only [atTriple, Bool.and_eq_true, decide_eq_true_eq] at marks
    obtain ⟨⟨⟨rfl, rfl⟩, rfl⟩, -⟩ := marks
    simpa using notBreak

theorem atDocumentStart_carried (sighted : Nat) (inside : lexer.cursor.Inside)
    (marks : atTriple '-' lexer.cursor.rest = true) :
    Carries (Beside more) lexer.atDocumentStart (lexer.extend more sighted).atDocumentStart := by
  simp only [atDocumentStart]
  refine (closeAll_carried more sighted).bind ?_
  rintro next _ ⟨same, rfl⟩
  rw [← same] at inside marks
  have passed := ne_break_of_atTriple marks (by decide)
  have insideStart : (next.push next.cursor.mark .documentStart).cursor.Inside := inside
  obtain ⟨stays, sameSolid⟩ := solid_carried more sighted insideStart passed
  exact .ok ⟨stays.onLines, sighted, sameSolid⟩

theorem atDocumentEnd_carried (sighted : Nat) (inside : lexer.cursor.Inside)
    (marks : atTriple '.' lexer.cursor.rest = true) :
    Carries (Beside more) lexer.atDocumentEnd (lexer.extend more sighted).atDocumentEnd := by
  simp only [atDocumentEnd]
  refine (closeAll_carried more sighted).bind ?_
  rintro next _ ⟨same, rfl⟩
  rw [← same] at inside marks
  have passed := ne_break_of_atTriple marks (by decide)
  have insideEnd : (next.push next.cursor.mark .documentEnd).cursor.Inside := inside
  obtain ⟨stays, sameSolid⟩ := solid_carried more sighted insideEnd passed
  have samePush :
      ((next.extend more sighted).push (next.extend more sighted).cursor.mark
          .documentEnd).solid 3 =
        ((next.push next.cursor.mark .documentEnd).solid 3).extend more sighted := sameSolid
  rw [samePush]
  refine (skipBlanks_carried more sighted stays true).bind ?_
  rintro ⟨last, blanks⟩ _ ⟨staysLast, rfl, -⟩
  simp only [extend_cursor, Cursor.extend_rest, atLineEnd_append staysLast.someChar]
  exact .ite (fun _ => .ok ⟨staysLast.onLines, sighted, rfl⟩) fun _ => .error _ _

/-! ## Collections -/

theorem deepen_cursor (lexer : Lexer) : lexer.deepen.cursor = lexer.cursor := by
  unfold deepen
  split
  · split <;> rfl
  · rfl

theorem suggest_cursor (lexer : Lexer) : lexer.suggest.cursor = lexer.cursor := by
  rw [suggest]
  split <;> rfl

theorem openBlock_cursor (lexer : Lexer) (column number : Nat) :
    (lexer.openBlock column number mark kind).cursor = lexer.cursor := by
  rw [openBlock]
  split
  · rfl
  · dsimp only
    rw [apply_ite cursor]
    exact ite_self lexer.cursor

theorem closePair_cursor (lexer : Lexer) : (lexer.closePair mark).cursor = lexer.cursor := by
  rw [closePair]
  split <;> rfl

theorem leaveFlow_cursor (lexer : Lexer) : lexer.leaveFlow.cursor = lexer.cursor := by
  rw [leaveFlow]
  split <;> rfl

theorem solid_one_carried (more : List Char) (sighted : Nat) (inside : lexer.cursor.Inside)
    (sign : lexer.cursor.rest.head? ≠ some '\n') :
    (lexer.solid 1).cursor.Inside ∧
      (lexer.extend more sighted).solid 1 = (lexer.solid 1).extend more sighted := by
  obtain ⟨stays, same, -⟩ := Cursor.solid_one_carried more inside sign
  refine ⟨stays, ?_⟩
  simp only [solid, extend_cursor, same]
  rfl

/-- Blanks after one character of a token. -/
theorem skipAfter_carried (more : List Char) (sighted : Nat) (inside : lexer.cursor.Inside)
    (sign : lexer.cursor.rest.head? ≠ some '\n') :
    Carries
      (fun found image => found.1.cursor.Inside ∧ image = (found.1.extend more sighted, found.2))
      ((lexer.solid 1).skipBlanks true)
      (((lexer.extend more sighted).solid 1).skipBlanks true) := by
  obtain ⟨stays, same⟩ := solid_one_carried more sighted inside sign
  rw [same]
  exact (skipBlanks_carried more sighted stays true).mono fun _ _ holds => ⟨holds.1, holds.2.1⟩

/-- The state at the first token in a flow collection. -/
def enterFlow (kind : TokenKind) (lexer : Lexer) : Lexer :=
  let lexer := { lexer with candidates := none :: lexer.candidates, keyAllowed := true }
  if kind = .flowMappingStart then { lexer with pairsExplicit := true } else lexer

theorem atFlowStart_eq (lexer : Lexer) (kind : TokenKind) :
    lexer.atFlowStart kind =
      if maxFlowDepth < lexer.suggest.deepen.candidates.length then
        lexer.suggest.deepen.cursor.fault .nestingTooDeep
      else do
        let (next, _) ← ((lexer.suggest.deepen.enterFlow kind).solid 1).skipBlanks true
        return next.push lexer.cursor.mark kind :=
  rfl

theorem enterFlow_cursor (lexer : Lexer) : (lexer.enterFlow kind).cursor = lexer.cursor := by
  unfold enterFlow
  split <;> rfl

theorem enterFlow_extend :
    (lexer.extend more sighted).enterFlow kind = (lexer.enterFlow kind).extend more sighted := by
  unfold enterFlow
  split <;> rfl

theorem atFlowStart_carried (sighted : Nat) (inside : lexer.cursor.Inside)
    (sign : lexer.cursor.rest.head? ≠ some '\n') (kind : TokenKind) :
    Carries (Beside more) (lexer.atFlowStart kind)
      ((lexer.extend more sighted).atFlowStart kind) := by
  have sameDepth :
      (lexer.suggest.deepen.extend more sighted).candidates.length =
        lexer.suggest.deepen.candidates.length := List.length_map _
  have sameCursor : (lexer.suggest.deepen.enterFlow kind).cursor = lexer.cursor :=
    (enterFlow_cursor _).trans ((deepen_cursor _).trans (suggest_cursor _))
  rw [atFlowStart_eq, atFlowStart_eq, suggest_extend, deepen_extend, sameDepth, enterFlow_extend]
  refine .ite (fun _ => .error _ _) fun _ => ?_
  rw [← sameCursor] at inside sign
  refine (skipAfter_carried more sighted inside sign).bind ?_
  rintro ⟨next, blanks⟩ _ ⟨stays, rfl⟩
  exact .ok ⟨stays.onLines, sighted, rfl⟩

/-- The state around a flow collection after its end. -/
def exitFlow (mark : Mark) (kind : TokenKind) (lexer : Lexer) : Lexer :=
  let lexer := { lexer.leaveFlow with keyAllowed := false }
  if kind = .flowSequenceEnd then lexer.closePair mark else lexer

theorem atFlowEnd_eq (lexer : Lexer) (kind : TokenKind) :
    lexer.atFlowEnd kind = (do
      let next ← lexer.forget
      let (next, _) ← ((next.exitFlow lexer.cursor.mark kind).solid 1).skipBlanks true
      let next := if next.inFlow then { next with adjacentValue := some next.cursor.left } else next
      return next.push lexer.cursor.mark kind) :=
  rfl

theorem exitFlow_cursor (lexer : Lexer) : (lexer.exitFlow mark kind).cursor = lexer.cursor := by
  unfold exitFlow
  split
  · exact (closePair_cursor _).trans (leaveFlow_cursor lexer)
  · exact leaveFlow_cursor lexer

theorem exitFlow_extend :
    (lexer.extend more sighted).exitFlow mark kind =
      (lexer.exitFlow mark kind).extend more sighted := by
  unfold exitFlow
  rw [leaveFlow_extend]
  split
  · exact closePair_extend more { lexer.leaveFlow with keyAllowed := false } sighted mark
  · rfl

theorem atFlowEnd_carried (sighted : Nat) (inside : lexer.cursor.Inside)
    (sign : lexer.cursor.rest.head? ≠ some '\n') (kind : TokenKind) :
    Carries (Beside more) (lexer.atFlowEnd kind)
      ((lexer.extend more sighted).atFlowEnd kind) := by
  rw [atFlowEnd_eq, atFlowEnd_eq]
  refine (forget_carried more sighted).bind ?_
  rintro next _ ⟨same, rfl⟩
  have sameCursor : (next.exitFlow lexer.cursor.mark kind).cursor = lexer.cursor :=
    (exitFlow_cursor _).trans same
  rw [← sameCursor] at inside sign
  rw [extend_cursor, Cursor.extend_mark, exitFlow_extend]
  refine (skipAfter_carried more sighted inside sign).bind ?_
  rintro ⟨last, blanks⟩ _ ⟨stays, rfl⟩
  simp only [extend_inFlow]
  by_cases inFlow : last.inFlow = true
  · simp only [inFlow, if_true]
    exact .ok ⟨stays.onLines, sighted, rfl⟩
  · simp only [inFlow]
    exact .ok ⟨stays.onLines, sighted, rfl⟩

theorem atFlowEntry_carried (sighted : Nat) (inside : lexer.cursor.Inside)
    (sign : lexer.cursor.rest.head? ≠ some '\n') :
    Carries (Beside more) lexer.atFlowEntry (lexer.extend more sighted).atFlowEntry := by
  simp only [atFlowEntry]
  refine (forget_carried more sighted).bind ?_
  rintro next _ ⟨same, rfl⟩
  have sameCursor : ({ next with keyAllowed := true }.closePair lexer.cursor.mark).cursor =
      lexer.cursor :=
    (closePair_cursor _).trans same
  have sameClosed :=
    closePair_extend more { next with keyAllowed := true } sighted lexer.cursor.mark
  rw [← sameCursor] at inside sign
  have skipped := skipAfter_carried more sighted inside sign
  rw [← sameClosed] at skipped
  refine skipped.bind ?_
  rintro ⟨last, blanks⟩ _ ⟨stays, rfl⟩
  exact .ok ⟨stays.onLines, sighted, rfl⟩

theorem hyphenAndGap_append (lines : IsLines text) (someChar : text ≠ []) (more : List Char) :
    (nextIs (· = '-') (text ++ more) && atGap (text ++ more).tail) =
      (nextIs (· = '-') text && atGap text.tail) := by
  rcases text with _ | ⟨d, others⟩
  · exact absurd rfl someChar
  · by_cases isHyphen : d = '-'
    · subst isHyphen
      rw [List.cons_append, List.tail_cons, List.tail_cons,
        atGap_append (lines.ne_nil (by decide))]
      rfl
    · simp [nextIs, isHyphen]

theorem atBlockEntry_carried (sighted : Nat) (inside : lexer.cursor.Inside)
    (sign : lexer.cursor.rest.head? ≠ some '\n') :
    Carries (Beside more) lexer.atBlockEntry (lexer.extend more sighted).atBlockEntry := by
  obtain ⟨stays, same⟩ := solid_one_carried more sighted inside sign
  simp only [atBlockEntry, extend_inFlow, same, openBlock_extend]
  refine .ite (fun _ => .error _ _) fun _ => .ite (fun _ => .error _ _) fun _ => ?_
  have staysOpen : ((lexer.solid 1).openBlock lexer.cursor.mark.column lexer.count
      lexer.cursor.mark .blockSequenceStart).cursor.Inside := by
    rwa [openBlock_cursor]
  refine (skipBlanks_carried more sighted staysOpen true).bind ?_
  rintro ⟨next, blanks⟩ _ ⟨staysNext, rfl, -⟩
  simp only [extend_cursor, Cursor.extend_rest, Bool.and_assoc,
    hyphenAndGap_append staysNext.lines staysNext.someChar]
  refine .ite (fun _ => .error _ _) fun _ => ?_
  refine (skipBlanks_carried more sighted staysNext false).bind ?_
  rintro ⟨last, moreBlanks⟩ _ ⟨staysLast, rfl, -⟩
  simp only [extend_cursor, Cursor.extend_rest, nextIs_append staysLast.someChar, deepen_extend]
  rw [← apply_ite (extend more sighted)]
  refine (forget_carried more sighted).bind ?_
  rintro final _ ⟨sameFinal, rfl⟩
  have staysFinal : final.cursor.Inside := by
    rw [sameFinal]
    split
    · rw [deepen_cursor]
      exact staysLast
    · exact staysLast
  exact .ok ⟨staysFinal.onLines, sighted, rfl⟩

/-- The state in which a key that a question mark announces may follow. -/
def openPair (lexer : Lexer) : Lexer :=
  if lexer.inFlow then { lexer with pairsExplicit := true }
  else lexer.openBlock lexer.cursor.mark.column lexer.count lexer.cursor.mark .blockMappingStart

theorem atKey_eq (lexer : Lexer) :
    lexer.atKey =
      if !lexer.inFlow && !lexer.keyAllowed then
        lexer.cursor.fault .keyMisplaced
      else do
        let next ← lexer.openPair.forget
        let after := (next.solid 1).cursor
        let (cursor, keyAllowed, found) :=
          skipGapFrom next.inFlow after.rest after.toPlace false (!next.inFlow) false
        if !found then
          cursor.fault .keyNotSeparated
        else if nextIs (· = '\t') cursor.rest then
          cursor.fault .keySeparatedByTab
        else
          return { next with cursor := cursor, keyAllowed := keyAllowed }.push lexer.cursor.mark
            .key :=
  rfl

theorem openPair_cursor (lexer : Lexer) : lexer.openPair.cursor = lexer.cursor := by
  rw [openPair]
  split
  · rfl
  · exact openBlock_cursor _ _ _

theorem openPair_extend :
    (lexer.extend more sighted).openPair = lexer.openPair.extend more sighted := by
  rw [openPair, openPair, extend_inFlow]
  split
  · rfl
  · exact openBlock_extend _ _

theorem atKey_carried (bound : atTriple '-' more = true) (sighted : Nat)
    (inside : lexer.cursor.Inside) (sign : lexer.cursor.rest.head? ≠ some '\n') :
    Carries (Beside more) lexer.atKey (lexer.extend more sighted).atKey := by
  rw [atKey_eq, atKey_eq, extend_inFlow, openPair_extend]
  refine .ite (fun _ => .error _ _) fun _ => ?_
  refine (forget_carried more sighted).bind ?_
  rintro next _ ⟨same, rfl⟩
  rw [← (same.trans (openPair_cursor lexer))] at inside sign
  obtain ⟨stays, sameSolid⟩ := solid_one_carried more sighted inside sign
  obtain ⟨onLines, sameGap⟩ := skipGap_carried bound next.inFlow (!next.inFlow) stays.onLines
  dsimp only
  rw [extend_inFlow, sameSolid, extend_cursor, sameGap]
  generalize skipGapFrom next.inFlow (next.solid 1).cursor.rest (next.solid 1).cursor.toPlace
    false (!next.inFlow) false = gap at onLines ⊢
  obtain ⟨cursor, keyAllowed, found⟩ := gap
  have sameTab :
      nextIs (· = '\t') (cursor.extend more).rest = nextIs (· = '\t') cursor.rest :=
    nextIs_append_of_atTriple bound (by decide) cursor.rest
  simp only [sameTab]
  exact .ite (fun _ => .error _ _) fun _ => .ite (fun _ => .error _ _) fun _ =>
    .ok ⟨onLines, sighted, rfl⟩

/-! ## Values -/

/-- The tokens that announce a pair whose key was a candidate. -/
def announcePair (candidate : Candidate) (lexer : Lexer) : Lexer :=
  let lexer := lexer.insert candidate.number candidate.place.mark .key
  if lexer.pairOpen then lexer.insert candidate.number lexer.cursor.mark .flowMappingStart
  else lexer

/-- The state after a candidate that was a key. -/
def pastKey (candidate : Candidate) (mark : Mark) (lexer : Lexer) : Lexer :=
  let lexer :=
    ((lexer.announcePair candidate).openBlock candidate.place.column candidate.number mark
      .blockMappingStart).deepen
  { lexer with candidates := none :: lexer.candidates.tail, keyAllowed := false }

theorem acceptKey_eq (lexer : Lexer) (candidate : Candidate) (mark : Mark) :
    lexer.acceptKey candidate mark =
      if lexer.pairOpen && candidate.place.line < mark.line then .error ⟨mark, .valueOnLaterLine⟩
      else .ok (lexer.pastKey candidate mark) :=
  rfl

theorem announcePair_cursor (lexer : Lexer) (candidate : Candidate) :
    (lexer.announcePair candidate).cursor = lexer.cursor := by
  unfold announcePair
  dsimp only
  split <;> rfl

theorem announcePair_extend (candidate : Candidate) :
    (lexer.extend more sighted).announcePair (candidate.extend more) =
      (lexer.announcePair candidate).extend more sighted := by
  unfold announcePair
  dsimp only
  rw [apply_ite (extend more sighted)]
  rfl

theorem acceptKey_carried (sighted : Nat) (candidate : Candidate) (mark : Mark) :
    Carries (fun next image => next.cursor = lexer.cursor ∧ image = next.extend more sighted)
      (lexer.acceptKey candidate mark)
      ((lexer.extend more sighted).acceptKey (candidate.extend more) mark) := by
  have sameKey :
      (lexer.extend more sighted).pastKey (candidate.extend more) mark =
        (lexer.pastKey candidate mark).extend more sighted := by
    have sameColumn : (candidate.extend more).place.column = candidate.place.column := rfl
    have sameNumber : (candidate.extend more).number = candidate.number := rfl
    rw [pastKey, pastKey, announcePair_extend, sameColumn, sameNumber, openBlock_extend,
      deepen_extend]
    simp [extend]
  have sameCursor : (lexer.pastKey candidate mark).cursor = lexer.cursor :=
    (deepen_cursor _).trans ((openBlock_cursor _ _ _).trans (announcePair_cursor lexer candidate))
  rw [acceptKey_eq, acceptKey_eq, sameKey]
  exact .ite (fun _ => .error _ _) fun _ => .ok ⟨sameCursor, rfl⟩

/-- The token that starts a pair whose key is missing. -/
def startPair (lexer : Lexer) : Lexer :=
  if lexer.pairOpen then lexer.push lexer.cursor.mark .flowMappingStart else lexer

theorem acceptValue_eq (lexer : Lexer) (mark : Mark) :
    lexer.acceptValue mark =
      if lexer.startPair.inFlow then
        .ok { lexer.startPair with keyAllowed := false }
      else if !lexer.startPair.keyAllowed then
        .error ⟨mark, .valueMisplaced⟩
      else
        .ok { (lexer.startPair.openBlock mark.column lexer.startPair.count mark
          .blockMappingStart).deepen with keyAllowed := true } :=
  rfl

theorem startPair_cursor (lexer : Lexer) : lexer.startPair.cursor = lexer.cursor := by
  unfold startPair
  split <;> rfl

theorem startPair_extend :
    (lexer.extend more sighted).startPair = lexer.startPair.extend more sighted := by
  unfold startPair
  rw [apply_ite (extend more sighted)]
  rfl

theorem acceptValue_carried (sighted : Nat) (mark : Mark) :
    Carries (fun next image => next.cursor = lexer.cursor ∧ image = next.extend more sighted)
      (lexer.acceptValue mark) ((lexer.extend more sighted).acceptValue mark) := by
  have sameCount : (lexer.startPair.extend more sighted).count = lexer.startPair.count := rfl
  rw [acceptValue_eq, acceptValue_eq, startPair_extend, extend_inFlow, sameCount,
    openBlock_extend, deepen_extend]
  refine .ite (fun _ => .ok ⟨startPair_cursor lexer, rfl⟩) fun _ =>
    .ite (fun _ => .error _ _) fun _ => .ok ⟨?_, rfl⟩
  exact (deepen_cursor _).trans ((openBlock_cursor _ _ _).trans (startPair_cursor lexer))

/-- Moves over a colon, and over tabs and blanks after it if a tab comes first. -/
def skipColon (lexer : Lexer) : Except Fault (Lexer × Bool) :=
  let next := { lexer.solid 1 with pairOpen := lexer.inFlow && !lexer.pairsExplicit }
  if nextIs (· = '\t') next.cursor.rest then
    (next.skipBlanks true).map fun (next, blanks) => (next, !blanks.spaces)
  else
    .ok (next, false)

/-- Takes note of the value that a colon at `mark` starts. -/
def startValue (mark : Mark) (lexer : Lexer) : Except Fault Lexer :=
  match lexer.candidates with
  | some candidate :: _ => lexer.acceptKey candidate mark
  | _ => lexer.acceptValue mark

theorem atValue_eq (lexer : Lexer) :
    lexer.atValue = (do
      let (next, tabbed) ← lexer.skipColon
      if tabbed && nextIs (fun c => c = '-' || isNameChar c) next.cursor.rest then
        next.cursor.fault .valueSeparatedByTab
      else do
        let next ← next.startValue lexer.cursor.mark
        return next.push lexer.cursor.mark .value) := by
  have goOn (next : Lexer) :
      (match next.candidates with
        | some candidate :: _ => do
            let last ← next.acceptKey candidate lexer.cursor.mark
            return last.push lexer.cursor.mark .value
        | _ => do
            let last ← next.acceptValue lexer.cursor.mark
            return last.push lexer.cursor.mark .value) =
        (do
          let last ← next.startValue lexer.cursor.mark
          return last.push lexer.cursor.mark .value) := by
    rw [startValue]
    split <;> rfl
  unfold atValue skipColon
  simp only [← goOn]
  split <;> rfl

theorem startValue_carried (sighted : Nat) (mark : Mark) :
    Carries (fun next image => next.cursor = lexer.cursor ∧ image = next.extend more sighted)
      (lexer.startValue mark) ((lexer.extend more sighted).startValue mark) := by
  have sameCandidates :
      (lexer.extend more sighted).candidates =
        lexer.candidates.map (Option.map (Candidate.extend more)) := rfl
  rw [startValue, startValue, sameCandidates]
  rcases lexer.candidates with _ | ⟨_ | candidate, others⟩
  · exact acceptValue_carried sighted mark
  · exact acceptValue_carried sighted mark
  · exact acceptKey_carried sighted candidate mark

theorem skipColon_carried (sighted : Nat) (inside : lexer.cursor.Inside)
    (sign : lexer.cursor.rest.head? ≠ some '\n') :
    Carries
      (fun found image => found.1.cursor.Inside ∧ image = (found.1.extend more sighted, found.2))
      lexer.skipColon (lexer.extend more sighted).skipColon := by
  obtain ⟨stays, same⟩ := solid_one_carried more sighted inside sign
  simp only [skipColon, extend_inFlow, same, extend_cursor, Cursor.extend_rest,
    nextIs_append stays.someChar]
  refine .ite (fun _ => ?_) fun _ => .ok ⟨stays, rfl⟩
  have staysInPair : ({ lexer.solid 1 with
      pairOpen := lexer.inFlow && !lexer.pairsExplicit } : Lexer).cursor.Inside := stays
  refine (skipBlanks_carried more sighted staysInPair true).map ?_
  rintro ⟨next, blanks⟩ _ ⟨staysNext, rfl, -⟩
  exact ⟨staysNext, rfl⟩

theorem atValue_carried (sighted : Nat) (inside : lexer.cursor.Inside)
    (sign : lexer.cursor.rest.head? ≠ some '\n') :
    Carries (Beside more) lexer.atValue (lexer.extend more sighted).atValue := by
  rw [atValue_eq, atValue_eq]
  refine (skipColon_carried sighted inside sign).bind ?_
  rintro ⟨next, tabbed⟩ _ ⟨stays, rfl⟩
  simp only [extend_cursor, Cursor.extend_rest, nextIs_append stays.someChar]
  refine .ite (fun _ => .error _ _) fun _ => ?_
  refine (startValue_carried sighted lexer.cursor.mark).bind ?_
  rintro last _ ⟨sameCursor, rfl⟩
  rw [← sameCursor] at stays
  exact .ok ⟨stays.onLines, sighted, rfl⟩

/-! ## Nodes and their properties -/

theorem beginNode_cursor (lexer : Lexer) : lexer.beginNode.cursor = lexer.cursor :=
  suggest_cursor lexer

theorem beginNode_extend :
    (lexer.extend more sighted).beginNode = lexer.beginNode.extend more sighted := by
  rw [beginNode, beginNode, suggest_extend]
  rfl

theorem atAlias_carried (sighted : Nat) (inside : lexer.cursor.Inside)
    (sign : lexer.cursor.rest.head? ≠ some '\n') :
    Carries (Beside more) lexer.atAlias (lexer.extend more sighted).atAlias := by
  simp only [atAlias, beginNode_extend]
  refine (readAnchor_carried inside sign).bind ?_
  rintro ⟨name, cursor⟩ _ ⟨stays, rfl⟩
  exact .ok ⟨stays.onLines, sighted, rfl⟩

theorem atAnchor_carried (sighted : Nat) (inside : lexer.cursor.Inside)
    (sign : lexer.cursor.rest.head? ≠ some '\n') :
    Carries (Beside more) lexer.atAnchor (lexer.extend more sighted).atAnchor := by
  simp only [atAnchor, beginNode_extend]
  refine (readAnchor_carried inside sign).bind ?_
  rintro ⟨name, cursor⟩ _ ⟨stays, rfl⟩
  exact .ok ⟨stays.onLines, sighted, rfl⟩

theorem atTag_carried (sighted : Nat) (inside : lexer.cursor.Inside)
    (sign : lexer.cursor.rest.head? ≠ some '\n') :
    Carries (Beside more) lexer.atTag (lexer.extend more sighted).atTag := by
  simp only [atTag, beginNode_extend, extend_inFlow]
  refine (Tag.read_carried inside sign lexer.inFlow).bind ?_
  rintro ⟨handle, cursor⟩ _ ⟨stays, rfl⟩
  exact .ok ⟨stays.onLines, sighted, rfl⟩

theorem mayFollowQuoted_extend (inside : cursor.Inside) (inFlow : Bool) (line : Nat) :
    mayFollowQuoted inFlow line (cursor.extend more) = mayFollowQuoted inFlow line cursor := by
  obtain ⟨place, _ | ⟨c, rest⟩⟩ := cursor
  · exact absurd rfl inside.someChar
  · rfl

theorem atQuoted_carried (bound : atTriple '-' more = true) (sighted : Nat)
    (inside : lexer.cursor.Inside) (sign : lexer.cursor.rest.head? ≠ some '\n') (single : Bool) :
    Carries (Beside more) (lexer.atQuoted single)
      ((lexer.extend more sighted).atQuoted single) := by
  rw [← beginNode_cursor lexer] at inside sign
  simp only [atQuoted, beginNode_extend, extend_indent, extend_inFlow]
  refine (Quoted.read_carried inside sign _ _).bind ?_
  rintro ⟨text, cursor⟩ _ ⟨stays, rfl⟩
  refine (Cursor.skipBlanks_carried more stays true).bind ?_
  rintro ⟨next, blanks⟩ _ ⟨staysNext, rfl⟩
  simp only [mayFollowQuoted_extend staysNext]
  refine .ite (fun _ => ?_) fun _ => .error _ _
  have onLinesNext : ({ lexer.beginNode with cursor := next } : Lexer).cursor.OnLines :=
    staysNext.onLines
  refine (skipToToken_carried bound sighted onLinesNext).bind ?_
  rintro last _ ⟨onLines, rfl, -⟩
  exact .ok ⟨onLines, sighted, rfl⟩

theorem dropInner_extend :
    (lexer.extend more sighted).dropInner = lexer.dropInner.extend more sighted :=
  rfl

theorem atPlain_carried (bound : atTriple '-' more = true) (sighted : Nat)
    (inside : lexer.cursor.Inside) :
    Carries (Beside more) lexer.atPlain (lexer.extend more sighted).atPlain := by
  rw [← beginNode_cursor lexer] at inside
  simp only [atPlain, beginNode_extend, dropInner_extend, extend_indent, extend_inFlow]
  refine .ite (fun _ => .error _ _) fun _ => ?_
  refine (Plain.read_carried bound inside _ _).bind ?_
  rintro found image ⟨onLines, sameText, sameCursor⟩
  refine .ok ⟨onLines, image.sighted, ?_⟩
  rw [sameText, sameCursor]
  rfl

theorem exists_of_isHollow_eq_false {mark : Mark} {text : List Char} {folded : Bool}
    (solid : Token.isHollow
      ⟨mark, .scalar (.ofList text) (if folded then .folded else .literal)⟩ = false) :
    ∃ d ∈ text, d ≠ '\n' := by
  cases folded <;> simpa [Token.isHollow] using solid

/-- The state in which a block scalar is read. -/
def beginBlock (lexer : Lexer) : Lexer :=
  { lexer.suggest.dropInner with keyAllowed := true }

/-- The state after a block scalar. -/
def afterBlock (folded : Bool) (reading : Block.Reading) (lexer : Lexer) : Lexer :=
  { lexer.push reading.mark
      (.scalar (.ofList reading.text) (if folded then .folded else .literal)) with
    cursor := reading.cursor }

theorem atBlockScalar_eq (lexer : Lexer) (folded : Bool) :
    lexer.atBlockScalar folded =
      (Block.read lexer.beginBlock.cursor lexer.beginBlock.indent folded
          lexer.beginBlock.sighted).map
        fun reading => lexer.beginBlock.afterBlock folded reading := by
  unfold atBlockScalar
  dsimp only
  change (Block.read lexer.beginBlock.cursor lexer.beginBlock.indent folded
    lexer.beginBlock.sighted >>= _) = _
  rcases Block.read lexer.beginBlock.cursor lexer.beginBlock.indent folded
    lexer.beginBlock.sighted with fault | reading <;> rfl

theorem beginBlock_extend :
    (lexer.extend more sighted).beginBlock = lexer.beginBlock.extend more sighted := by
  rw [beginBlock, suggest_extend, dropInner_extend]
  rfl

/-- A block scalar that has content if it reaches the end of the text, and stands in a block
then. -/
theorem atBlockScalar_carried (bound : atTriple '-' more = true) (sighted : Nat)
    (inside : lexer.cursor.Inside) (sign : lexer.cursor.rest.head? ≠ some '\n') (folded : Bool)
    (reads : lexer.atBlockScalar folded = .ok next)
    (ends : next.cursor.rest = [] →
      0 ≤ next.indent ∧ ∀ token ∈ next.tokens.head?, token.isHollow = false) :
    next.cursor.OnLines ∧
      (lexer.extend more sighted).atBlockScalar folded = .ok (next.extend more sighted) := by
  have sameCursor : lexer.beginBlock.cursor = lexer.cursor := suggest_cursor lexer
  rw [← sameCursor] at inside sign
  rw [atBlockScalar_eq] at reads
  rcases found : Block.read lexer.beginBlock.cursor lexer.beginBlock.indent folded
      lexer.beginBlock.sighted with fault | reading
  · rw [found] at reads
    cases reads
  rw [found] at reads
  cases reads
  obtain ⟨onLines, same⟩ :=
    Block.read_carried bound inside sign _ folded _ sighted reading found fun atEnd =>
      ⟨exists_of_isHollow_eq_false ((ends atEnd).2 _ rfl), (ends atEnd).1⟩
  refine ⟨onLines, ?_⟩
  rw [atBlockScalar_eq, beginBlock_extend, extend_cursor, extend_indent]
  exact congrArg (Except.map _) same

end Lexer
end Yaml
end FieldLine
