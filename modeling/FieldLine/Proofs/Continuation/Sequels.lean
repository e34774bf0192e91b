import FieldLine.Proofs.Continuation.Ends
import FieldLine.Proofs.Continuation.Nesting

/-!
# Tokens of a text that goes on with a line `---`

The longer text has the tokens of a text of whole lines, with the start of a document for the end of
the text, unless more text may belong to what the text ends with: a flow collection that is still
open, or a block scalar.  Also then it has those that are settled before.
-/

namespace FieldLine
namespace Yaml

namespace Lexer

variable {lexer next : Lexer}

/-! ## Where reading stops -/

/-- The state in which reading stops, before the end of the text or a fault. -/
def last (lexer : Lexer) : Lexer :=
  match lexer.advance >>= expire with
  | .error _ => lexer
  | .ok next =>
      if next.isAtEnd then lexer
      else if next.cursor.left < lexer.cursor.left then next.last
      else next
  termination_by lexer.cursor.left

/-- Whether the latest token is a block scalar that more text may change: one that holds nothing but
line breaks, or one outside all blocks. -/
def scalarOpen (lexer : Lexer) : Bool :=
  lexer.tokens.head?.any fun token =>
    token.isBlockScalar && (lexer.levels.isEmpty || token.isHollow)

/-- Whether the text ends in a flow collection, or with a block scalar that more text may change. -/
def endsOpen (lexer : Lexer) : Bool :=
  lexer.last.scalarOpen || (lexer.last.inFlow && (Tokens.ofLexer lexer).fault.isNone)

theorem last_of_round (round : Round lexer next) : lexer.last = next.last := by
  obtain ⟨read, advances, expires, notEnd, shorter⟩ := round
  rw [last, advances]
  change (match read.expire with | .error _ => lexer | .ok next => _) = _
  rw [expires]
  simp only [notEnd, Bool.false_eq_true, ↓reduceIte, shorter]

theorem endsOpen_of_rounds (rounds : Relation.ReflTransGen Round lexer next) :
    lexer.endsOpen = next.endsOpen := by
  have sameLast : lexer.last = next.last := by
    induction rounds with
    | refl => rfl
    | tail _ round inductionHypothesis => exact inductionHypothesis.trans (last_of_round round)
  rw [endsOpen, endsOpen, sameLast, ofLexer_of_rounds rounds]

/-- Before the end of the text reading stops. -/
theorem last_eq_self
    (ends : ∀ settled : Lexer, lexer.settle = .ok settled → settled.cursor.rest = []) :
    lexer.last = lexer := by
  rw [last]
  split
  · rfl
  rename_i next reads
  obtain ⟨read, advances, expires⟩ := exists_of_bind_eq_ok reads
  rw [advance_eq] at advances
  obtain ⟨settled, settles, readsEnd⟩ := exists_of_bind_eq_ok advances
  rw [readNext, ends settled settles] at readsEnd
  rw [if_pos ((isAtEnd_expire expires).trans (isAtEnd_of_atEnd readsEnd))]

theorem last_of_stops {read : Lexer} (advances : lexer.advance = .ok read)
    (expires : read.expire = .ok next) (notEnd : next.isAtEnd = false)
    (stops : lexer.cursor.left ≤ next.cursor.left) : lexer.last = next := by
  rw [last, advances]
  change (match read.expire with | .error _ => lexer | .ok next => _) = _
  rw [expires]
  simp only [notEnd, Bool.false_eq_true, ↓reduceIte, stops.not_gt]

theorem isBound_of_isBlockScalar {token : Token} (isScalar : token.isBlockScalar = true) :
    token.kind.isBound = false := by
  obtain ⟨mark, kind⟩ := token
  cases kind <;> first | rfl | cases isScalar

theorem isAtEnd_of_endsOpen {settled : Lexer} (ends : EndsOpen settled next) :
    next.isAtEnd = false := by
  obtain ⟨⟨mark, kind⟩, tokens, isScalar, -⟩ := ends.scalar
  rw [isAtEnd, tokens]
  cases kind <;> first | rfl | cases isScalar

theorem scalarOpen_of_endsOpen {settled : Lexer} (ends : EndsOpen settled next) :
    next.scalarOpen = true := by
  obtain ⟨scalar, tokens, isScalar, isOpen⟩ := ends.scalar
  rw [scalarOpen, tokens]
  simp [isScalar, isOpen]

end Lexer

/-! ## Sequels -/

namespace Ledger

/-- What is known of a state that reading a text comes to. -/
structure Reached (ledger : Ledger) : Prop where
  ordered : ledger.Ordered
  holds : ledger.Good ∨ ledger.Spoiled

theorem reached_of_steps {text : List Char} {ledger : Ledger}
    (steps : Steps (Lexer.start text).ledger ledger) : ledger.Reached where
  ordered := ((Lexer.ordered_start text).steps steps).1
  holds := (good_or_spoiled_of_steps (Lexer.good_start text) (Lexer.ordered_start text)
    (Lexer.begun_start text) steps).2

end Ledger

/-- What the tokens of a text of whole lines have to do with those of a longer text in which a
line `---` follows. -/
inductive Sequel (lexer : Lexer) (image : Tokens) : Prop where
  | carried (list : (Tokens.ofLexer lexer).list <+: image.list)
  /-- What comes after the settled tokens bounds no documents. -/
  | endsOpen {ledger : Ledger} (others : List Token) (reached : ledger.Reached)
      (front : ledger.front <+: image.list)
      (list : (Tokens.ofLexer lexer).list <+: ledger.list ++ others)
      (noBound : ∀ token ∈ others, token.kind.isBound = false) (isOpen : lexer.endsOpen = true)
  /-- The longer text has the start of a document for the end of the text. -/
  | ended {ledger : Ledger} (mark : Mark) (reached : ledger.Reached)
      (list : (Tokens.ofLexer lexer).list = ledger.list ++ [⟨mark, .streamEnd⟩])
      (starts : ledger.list ++ [⟨mark, .documentStart⟩] <+: image.list)

namespace Lexer

variable {text more : List Char} {lexer settled read next : Lexer}

/-- The tokens up to a block scalar at the end, some of which close blocks. -/
theorem list_of_endsOpen (settles : lexer.settle = .ok settled) (ends : EndsOpen settled read) :
    ∃ others : List Token, read.ledger.list = lexer.ledger.list ++ others ∧
      ∀ token ∈ others, token.kind.isBound = false := by
  obtain ⟨scalar, tokens, isScalar, -⟩ := ends.scalar
  obtain ⟨closed, closedTokens, areClosed⟩ := settle_tokens settles
  refine ⟨(scalar :: closed).reverse, ?_, ?_⟩
  · rw [Ledger.list, ledger, tokens, closedTokens, ← List.cons_append, List.reverse_append]
    rfl
  · intro token member
    rw [List.mem_reverse, List.mem_cons] at member
    rcases member with rfl | isClosed
    · exact isBound_of_isBlockScalar isScalar
    · rw [areClosed token isClosed]
      rfl

/-- Settled tokens of the text come first in the longer text. -/
theorem front_prefix_extend (ordered : lexer.ledger.Ordered) (more : List Char) (sighted : Nat) :
    lexer.ledger.front <+: (Tokens.ofLexer (lexer.extend more sighted)).list := by
  rw [← extend_ledger more sighted] at ordered ⊢
  exact front_prefix_ofLexer ordered

/-- A block scalar that more text may change ends the text. -/
theorem sequel_of_scalar {origin : Lexer} {image : Tokens} (reached : lexer.ledger.Reached)
    (front : lexer.ledger.front <+: image.list) (settles : lexer.settle = .ok settled)
    (ends : EndsOpen settled read) (later : List Token)
    (list : (Tokens.ofLexer origin).list <+: read.ledger.list ++ later)
    (noBound : ∀ token ∈ later, token.kind.isBound = false) (isOpen : origin.endsOpen = true) :
    Sequel origin image := by
  obtain ⟨others, sameList, noBoundBefore⟩ := list_of_endsOpen settles ends
  rw [sameList, List.append_assoc] at list
  exact .endsOpen (others ++ later) reached front list
    (List.forall_mem_append.mpr ⟨noBoundBefore, noBound⟩) isOpen

/-- After a block scalar at the end there is nothing more. -/
theorem sequel_of_endsOpen (reached : lexer.ledger.Reached) (settles : lexer.settle = .ok settled)
    (ends : EndsOpen settled read) (ordered : read.ledger.Ordered) (more : List Char)
    (sighted : Nat) : Sequel read (Tokens.ofLexer (lexer.extend more sighted)) := by
  obtain ⟨later, list, noBound⟩ := list_ofLexer_of_atEnd ordered ends.atEnd
  have isOpen : read.endsOpen = true := by
    have same : read.last = read := last_eq_self fun next settlesNext =>
      (congrArg Cursor.rest (settle_cursor ends.atEnd settlesNext)).trans ends.atEnd
    rw [Lexer.endsOpen, same, scalarOpen_of_endsOpen ends, Bool.true_or]
  have front := front_prefix_extend reached.ordered more sighted
  exact sequel_of_scalar reached front settles ends later list noBound isOpen

/-- At the end of the text, the longer text has the start of a document. -/
theorem sequel_of_atEnd (bound : atTriple '-' more = true) (sighted : Nat)
    (toLexer : Ledger.Steps (start text).ledger lexer.ledger) (onLines : lexer.cursor.OnLines)
    (settles : lexer.settle = .ok settled) (atEnd : settled.cursor.rest = [])
    (ends : settled.atEnd = .ok read)
    (tokens : Tokens.ofLexer lexer = ⟨read.tokens.reverse, none⟩) :
    Sequel lexer (Tokens.ofLexer (lexer.extend more sighted)) := by
  obtain ⟨_, settlesToo, staysSettled, rfl⟩ := settle_carried bound sighted onLines settled settles
  obtain ⟨image, reads, shorter, imageTokens, toImage, clear, sameLength⟩ :=
    atEnd_carried bound sighted staysSettled atEnd ends
  have toClosed : Ledger.Steps (start text).ledger (settled.closeTo (-1)).ledger :=
    (toLexer.trans (settle_steps settles)).trans (closeTo_steps (-1))
  have reached := Ledger.reached_of_steps toClosed
  have round : Round (lexer.extend more sighted) image := by
    refine ⟨image, ?_, expire_of_isClear clear, ?_, ?_⟩
    · rw [advance_eq, settlesToo]
      exact reads
    · rw [isAtEnd, imageTokens]
    · refine shorter.trans_le ?_
      rw [extend_cursor, extend_cursor, Cursor.extend_left, Cursor.extend_left, staysSettled.left,
        atEnd]
      exact Nat.add_le_add_right (Nat.zero_le _) _
  obtain ⟨orderedImage, frontImage⟩ := reached.ordered.steps toImage
  have front := front_prefix_ofLexer orderedImage
  rw [← ofLexer_of_round round] at front
  have list : (Tokens.ofLexer lexer).list =
      (settled.closeTo (-1)).ledger.list ++ [⟨settled.cursor.mark, .streamEnd⟩] := by
    rw [tokens, tokens_of_atEnd (staysSettled.start atEnd).1 ends, Ledger.list, ledger]
    exact List.reverse_cons
  by_cases inFlow : lexer.inFlow = true
  · refine .endsOpen _ reached (frontImage.trans front) ⟨[], (List.append_nil _).trans list⟩ ?_ ?_
    · rw [List.forall_mem_singleton]
      rfl
    · have isLast : ∀ next : Lexer, lexer.settle = .ok next → next.cursor.rest = [] := by
        intro next settlesNext
        cases settles.symm.trans settlesNext
        exact atEnd
      rw [endsOpen, last_eq_self isLast, inFlow, tokens]
      exact Bool.or_true _
  · refine .ended settled.cursor.mark reached list ?_
    have notInFlow : image.ledger.numbers.length ≤ 1 := by
      have sameFlow : (settled.closeTo (-1)).inFlow = lexer.inFlow :=
        (inFlow_of_length (congrArg List.length (closeTo_candidates (-1)))).trans
          (settle_inFlow settles)
      rwa [sameLength, ← not_lt, ← inFlow_iff, sameFlow]
    rw [Ledger.front_of_clear orderedImage.count clear notInFlow] at front
    have sameList : image.ledger.list =
        (settled.closeTo (-1)).ledger.list ++ [⟨settled.cursor.mark, .documentStart⟩] := by
      rw [Ledger.list, ledger, imageTokens]
      exact List.reverse_cons
    rwa [sameList] at front

theorem ofLexer_of_stops (advances : lexer.advance = .ok read) (expires : read.expire = .ok next)
    (stops : next.isAtEnd = true ∨ lexer.cursor.left ≤ next.cursor.left) :
    Tokens.ofLexer lexer = ⟨next.tokens.reverse, none⟩ := by
  rw [Tokens.ofLexer.eq_def]
  simp only [advances, expires]
  refine if_neg ?_
  rcases stops with isEnd | noShorter
  · simp [isEnd]
  · simp [noShorter.not_gt]

theorem sequel_of_last (bound : atTriple '-' more = true) (sighted : Nat)
    (toLexer : Ledger.Steps (start text).ledger lexer.ledger) (onLines : lexer.cursor.OnLines)
    (isLast : ∀ next : Lexer, ¬ Round lexer next) :
    Sequel lexer (Tokens.ofLexer (lexer.extend more sighted)) := by
  have reached := Ledger.reached_of_steps toLexer
  have front := front_prefix_extend reached.ordered more sighted
  rcases ofLexer_of_last isLast with ⟨fault, same⟩ |
    ⟨settled, read, next, settles, reads, expires, stops, same⟩
  · refine .carried ?_
    rw [same, settled_reverse reached.ordered]
    exact front
  by_cases atEnd : settled.cursor.rest = []
  · have ends : settled.atEnd = .ok read := by
      rwa [readNext, atEnd] at reads
    exact sequel_of_atEnd bound sighted toLexer onLines settles atEnd ends same
  obtain ⟨sameCursor, sameTokens, -⟩ := expire_kept expires
  rcases advance_carried bound sighted onLines settles atEnd reads with
    ⟨_, advances, -, sightedToo, rfl⟩ | ends
  · obtain ⟨_, expiresToo, -, rfl⟩ := expire_carried more sightedToo next expires
    have stopsToo : (next.extend more sightedToo).isAtEnd = true ∨
        (lexer.extend more sighted).cursor.left ≤ (next.extend more sightedToo).cursor.left := by
      refine stops.imp (isAtEnd_expire expires).trans fun noShorter => ?_
      rw [extend_cursor, extend_cursor, Cursor.extend_left, Cursor.extend_left, sameCursor]
      exact Nat.add_le_add_right noShorter _
    refine .carried ?_
    rw [same, ofLexer_of_stops advances expiresToo stopsToo, ← sameTokens]
    exact List.prefix_rfl
  · refine sequel_of_scalar reached front settles ends [] ?_ (List.forall_mem_nil _) ?_
    · rw [same, List.append_nil]
      exact List.prefix_rfl
    · have endsToo := ends.expire expires
      have notEnd := isAtEnd_of_endsOpen endsToo
      have noShorter : lexer.cursor.left ≤ next.cursor.left := by
        rw [sameCursor]
        refine stops.resolve_left ?_
        rw [← isAtEnd_expire expires, notEnd]
        exact Bool.false_ne_true
      have advances : lexer.advance = .ok read := by
        rw [advance_eq, settles]
        exact reads
      rw [endsOpen, last_of_stops advances expires notEnd noShorter, scalarOpen_of_endsOpen endsToo,
        Bool.true_or]

theorem sequel_of_rounds {image : Tokens} (rounds : Relation.ReflTransGen Round lexer next)
    (sequel : Sequel next image) : Sequel lexer image := by
  have same := ofLexer_of_rounds rounds
  have sameOpen := endsOpen_of_rounds rounds
  cases sequel with
  | carried list => exact .carried (same ▸ list)
  | endsOpen others reached front list noBound isOpen =>
      exact .endsOpen others reached front (same ▸ list) noBound (sameOpen ▸ isOpen)
  | ended mark reached list starts => exact .ended mark reached (same ▸ list) starts

/-- Each text of whole lines has its like in the longer text. -/
theorem sequel_start (lines : IsLines text) (bound : atTriple '-' more = true) :
    Sequel (start text) (Tokens.ofText (text ++ more)) := by
  have sameStart : (start text).extend more (text ++ more).length = start (text ++ more) := by
    simp [start, extend, Cursor.start, Cursor.extend, Place.extend]
  have onLines : (start text).cursor.OnLines := ⟨rfl, lines, fun _ => ⟨rfl, rfl⟩⟩
  obtain ⟨last, rounds, isLast⟩ := exists_last (start text)
  rw [Tokens.ofText, ← sameStart]
  rcases rounds_carried bound (text ++ more).length onLines rounds with
    ⟨staysLast, sighted, imageRounds⟩ |
    ⟨before, settled, final, toBefore, settles, ends, round, -, sighted, imageRounds⟩
  · rw [ofLexer_of_rounds imageRounds]
    exact sequel_of_rounds rounds
      (sequel_of_last bound sighted (rounds_steps rounds) staysLast isLast)
  · have steps := rounds_steps toBefore
    have ordered := (Ledger.reached_of_steps (steps.trans round.steps)).ordered
    rw [ofLexer_of_rounds imageRounds]
    exact sequel_of_rounds (toBefore.tail round)
      (sequel_of_endsOpen (Ledger.reached_of_steps steps) settles ends ordered more sighted)

end Lexer
end Yaml
end FieldLine
