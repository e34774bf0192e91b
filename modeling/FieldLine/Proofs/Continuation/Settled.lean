import FieldLine.Proofs.Continuation.Ledger
import Mathlib.Data.List.Infix

/-!
# Settled tokens

The tokens before the first candidate are settled: they come first in all that is read later, be
it to the end of the text or to a fault.
-/

namespace FieldLine
namespace Yaml
namespace Ledger

variable {ledger next : Ledger} {number bound larger : Nat} {numbers : List (Option Nat)}
  {token : Token}

/-! ## The first candidate -/

/-- The number of the outermost candidate, or else a bound. -/
def firstFrom (bound : Nat) : List (Option Nat) → Nat
  | [] => bound
  | number :: outer => firstFrom (number.getD bound) outer

/-- The numbers of candidates do not grow from the inside out. -/
def InOrder (bound : Nat) : List (Option Nat) → Prop
  | [] => True
  | number :: outer => number.getD bound ≤ bound ∧ InOrder (number.getD bound) outer

theorem getD_le_getD (le : bound ≤ larger) (number : Option Nat) :
    number.getD bound ≤ number.getD larger := by
  cases number with
  | none => exact le
  | some number => exact Nat.le_refl number

theorem firstFrom_le_firstFrom (le : bound ≤ larger) :
    firstFrom bound numbers ≤ firstFrom larger numbers := by
  induction numbers generalizing bound larger with
  | nil => exact le
  | cons number outer inductionHypothesis => exact inductionHypothesis (getD_le_getD le number)

theorem InOrder.mono (inOrder : InOrder bound numbers) (le : bound ≤ larger) :
    InOrder larger numbers := by
  induction numbers generalizing bound larger with
  | nil => trivial
  | cons number outer inductionHypothesis =>
      refine ⟨?_, inductionHypothesis inOrder.2 (getD_le_getD le number)⟩
      cases number with
      | none => exact Nat.le_refl larger
      | some number => exact inOrder.1.trans le

theorem InOrder.firstFrom_le (inOrder : InOrder bound numbers) :
    firstFrom bound numbers ≤ bound := by
  induction numbers generalizing bound with
  | nil => exact Nat.le_refl bound
  | cons number outer inductionHypothesis =>
      exact (inductionHypothesis inOrder.2).trans inOrder.1

theorem InOrder.le_of_mem (inOrder : InOrder bound numbers) (member : some number ∈ numbers) :
    number ≤ bound := by
  induction numbers generalizing bound with
  | nil => cases member
  | cons head outer inductionHypothesis =>
      rcases List.mem_cons.mp member with rfl | later
      · exact inOrder.1
      · exact (inductionHypothesis inOrder.2 later).trans inOrder.1

theorem InOrder.tail (inOrder : InOrder bound numbers) : InOrder bound numbers.tail := by
  cases numbers with
  | nil => trivial
  | cons number outer => exact inOrder.2.mono inOrder.1

/-- Without the innermost candidate the first one is not earlier. -/
theorem InOrder.firstFrom_tail (inOrder : InOrder bound numbers) :
    firstFrom bound numbers ≤ firstFrom bound numbers.tail := by
  cases numbers with
  | nil => exact Nat.le_refl bound
  | cons number outer => exact firstFrom_le_firstFrom inOrder.1

theorem outside_eq_tail_or (numbers : List (Option Nat)) :
    outside numbers = numbers.tail ∨ outside numbers = numbers := by
  rcases numbers with _ | ⟨_, _ | ⟨_, _⟩⟩
  · exact .inr rfl
  · exact .inr rfl
  · exact .inl rfl

/-! ## Tokens in the order of the text -/

def list (ledger : Ledger) : List Token :=
  ledger.tokens.reverse

def first (ledger : Ledger) : Nat :=
  firstFrom ledger.count ledger.numbers

/-- The tokens before the first candidate. -/
def front (ledger : Ledger) : List Token :=
  ledger.list.take ledger.first

/-- The tokens are counted, and the candidates stand among them in order. -/
structure Ordered (ledger : Ledger) : Prop where
  count : ledger.count = ledger.list.length
  inOrder : InOrder ledger.count ledger.numbers

theorem list_push (ledger : Ledger) (token : Token) :
    (ledger.push token).list = ledger.list ++ [token] :=
  List.reverse_cons

theorem list_leave (ledger : Ledger) (token : Token) :
    (ledger.leave token).list = ledger.list ++ [token] :=
  list_push ledger token

theorem list_insert (count : ledger.count = ledger.list.length) (le : number ≤ ledger.count)
    (token : Token) :
    (ledger.insert number token).list =
      ledger.list.take number ++ token :: ledger.list.drop number := by
  have length : ledger.tokens.length = ledger.count := by
    rw [count, list, List.length_reverse]
  have later : ledger.count - (ledger.count - number) = number := by omega
  simp only [list, Ledger.insert, List.reverse_append, List.reverse_cons, List.append_assoc,
    List.singleton_append, List.take_reverse, List.drop_reverse, length]

/-- All candidates stand before a place for a token. -/
theorem Ordered.isPlace (ordered : ledger.Ordered) (place : ledger.IsPlace number) :
    number ≤ ledger.count ∧ InOrder number ledger.numbers ∧ ledger.first ≤ number := by
  obtain ⟨-, inOrder⟩ := ordered
  rcases place with rfl | isHead
  · exact ⟨Nat.le_refl _, inOrder, inOrder.firstFrom_le⟩
  · obtain ⟨outer, numbers⟩ := List.head?_eq_some_iff.mp isHead
    rw [first, numbers]
    rw [numbers] at inOrder
    exact ⟨inOrder.1, ⟨Nat.le_refl number, inOrder.2⟩, inOrder.2.firstFrom_le⟩

theorem Ordered.insert (ordered : ledger.Ordered) (le : number ≤ ledger.count) (token : Token) :
    (ledger.insert number token).Ordered := by
  refine ⟨?_, ordered.inOrder.mono (Nat.le_succ _)⟩
  rw [list_insert ordered.count le]
  have count := ordered.count
  have same : (ledger.insert number token).count = ledger.count + 1 := rfl
  simp only [List.length_append, List.length_cons, List.length_take, List.length_drop, same]
  omega

theorem Ordered.push (ordered : ledger.Ordered) (token : Token) : (ledger.push token).Ordered := by
  rw [← insert_count]
  exact ordered.insert (Nat.le_refl _) token

theorem Ordered.step (ordered : ledger.Ordered) (step : Change ledger next) : next.Ordered := by
  cases step with
  | insert place plain => exact ordered.insert (ordered.isPlace place).1 _
  | propose =>
      exact ⟨ordered.count, Nat.le_refl _, ordered.inOrder.tail⟩
  | forget => exact ⟨ordered.count, Nat.le_refl _, ordered.inOrder.tail⟩
  | bound clear bounds => exact ordered.push _
  | announce => exact ⟨ordered.count, ordered.inOrder⟩
  | noPair => exact ⟨ordered.count, ordered.inOrder⟩
  | openPair mark place inFlow notAnnounced =>
      obtain ⟨count, inOrder⟩ :=
        ordered.insert (ordered.isPlace place).1 ⟨mark, .flowMappingStart⟩
      exact ⟨count, inOrder⟩
  | closePair mark isOpen =>
      obtain ⟨count, inOrder⟩ := ordered.push ⟨mark, .flowMappingEnd⟩
      exact ⟨count, inOrder⟩
  | enterSequence mark =>
      obtain ⟨count, inOrder⟩ := ordered.push ⟨mark, .flowSequenceStart⟩
      exact ⟨count, Nat.le_refl _, inOrder⟩
  | enterMapping mark =>
      obtain ⟨count, inOrder⟩ := ordered.push ⟨mark, .flowMappingStart⟩
      exact ⟨count, Nat.le_refl _, inOrder⟩
  | leave clear ends closed =>
      obtain ⟨count, inOrder⟩ := ordered.push _
      refine ⟨count, ?_⟩
      change InOrder (ledger.count + 1) (outside ledger.numbers)
      rcases outside_eq_tail_or ledger.numbers with same | same
      · rw [same]
        exact inOrder.tail
      · rw [same]
        exact inOrder

/-! ## Settled tokens stay -/

/-- The settled tokens of a ledger come first in another one, where more may be settled. -/
structure Settles (ledger next : Ledger) : Prop where
  first : ledger.first ≤ next.first
  same : next.list.take ledger.first = ledger.front

theorem Ordered.first_le (ordered : ledger.Ordered) : ledger.first ≤ ledger.list.length := by
  rw [← ordered.count]
  exact ordered.inOrder.firstFrom_le

theorem Ordered.settles_of_append (ordered : ledger.Ordered) {later : List Token}
    (lists : next.list = ledger.list ++ later) (first : ledger.first ≤ next.first) :
    Settles ledger next := by
  refine ⟨first, ?_⟩
  rw [lists, List.take_append_of_le_length ordered.first_le]
  rfl

theorem Ordered.settles_insert (ordered : ledger.Ordered) (place : ledger.IsPlace number)
    (token : Token) : Settles ledger (ledger.insert number token) := by
  obtain ⟨le, -, first⟩ := ordered.isPlace place
  refine ⟨firstFrom_le_firstFrom (Nat.le_succ _), ?_⟩
  have shorter : ledger.first ≤ (ledger.list.take number).length := by
    rw [List.length_take, ← ordered.count]
    omega
  rw [list_insert ordered.count le, List.take_append_of_le_length shorter, List.take_take,
    Nat.min_eq_left first]
  rfl

theorem Ordered.settles (ordered : ledger.Ordered) (step : Change ledger next) :
    Settles ledger next := by
  have more : ledger.first ≤ firstFrom (ledger.count + 1) ledger.numbers :=
    firstFrom_le_firstFrom (Nat.le_succ _)
  have outer := ordered.inOrder.firstFrom_tail
  cases step with
  | insert place plain => exact ordered.settles_insert place _
  | propose => exact ordered.settles_of_append (List.append_nil _).symm outer
  | forget => exact ordered.settles_of_append (List.append_nil _).symm outer
  | bound clear bounds => exact ordered.settles_of_append (list_push ledger _) more
  | announce => exact ordered.settles_of_append (List.append_nil _).symm (Nat.le_refl _)
  | noPair => exact ordered.settles_of_append (List.append_nil _).symm (Nat.le_refl _)
  | openPair mark place inFlow notAnnounced =>
      obtain ⟨first, same⟩ := ordered.settles_insert place ⟨mark, .flowMappingStart⟩
      exact ⟨first, same⟩
  | closePair mark isOpen => exact ordered.settles_of_append (list_push ledger _) more
  | enterSequence mark => exact ordered.settles_of_append (list_push ledger _) more
  | enterMapping mark => exact ordered.settles_of_append (list_push ledger _) more
  | leave clear ends closed =>
      refine ordered.settles_of_append (list_leave ledger _) (more.trans ?_)
      have inOrder := ordered.inOrder.mono (Nat.le_succ ledger.count)
      change _ ≤ firstFrom (ledger.count + 1) (outside ledger.numbers)
      rcases outside_eq_tail_or ledger.numbers with same | same
      · rw [same]
        exact inOrder.firstFrom_tail
      · rw [same]

theorem Settles.front (settles : Settles ledger next) : ledger.front <+: next.front := by
  rw [← settles.same]
  exact List.take_prefix_take_left settles.first

theorem Ordered.steps (ordered : ledger.Ordered) (steps : Steps ledger next) :
    next.Ordered ∧ ledger.front <+: next.front := by
  induction steps with
  | refl => exact ⟨ordered, List.prefix_rfl⟩
  | tail _ step inductionHypothesis =>
      obtain ⟨orderedBefore, front⟩ := inductionHypothesis
      exact ⟨orderedBefore.step step, front.trans (orderedBefore.settles step).front⟩

end Ledger

/-! ## Rounds -/

namespace Lexer

variable {lexer next : Lexer}

theorem ordered_start (text : List Char) : (start text).ledger.Ordered :=
  ⟨rfl, Nat.le_refl _, trivial⟩

theorem firstFrom_candidates (bound : Nat) (candidates : List (Option Candidate)) :
    Ledger.firstFrom bound (candidates.map (Option.map Candidate.number)) =
      (candidates.filterMap id).getLast?.elim bound Candidate.number := by
  induction candidates generalizing bound with
  | nil => rfl
  | cons candidate outer inductionHypothesis =>
      cases candidate with
      | none => exact inductionHypothesis bound
      | some candidate =>
          refine (inductionHypothesis candidate.number).trans ?_
          have found : (some candidate :: outer).filterMap id = candidate :: outer.filterMap id :=
            rfl
          rw [found, List.getLast?_cons, Option.elim_some]
          cases (outer.filterMap id).getLast? <;> rfl

theorem settled_reverse (ordered : lexer.ledger.Ordered) :
    lexer.settled.reverse = lexer.ledger.front := by
  have count : lexer.count = lexer.tokens.length :=
    ordered.count.trans List.length_reverse
  have first :
      lexer.ledger.first =
        (lexer.candidates.filterMap id).getLast?.elim lexer.count Candidate.number :=
    firstFrom_candidates lexer.count lexer.candidates
  rw [Ledger.front, Ledger.list, first]
  unfold settled
  rcases (lexer.candidates.filterMap id).getLast? with _ | candidate
  · exact (List.take_of_length_le (by rw [List.length_reverse]; exact count.ge)).symm
  · simp only [Option.elim_some, List.take_reverse, count]
    rfl

/-! ## The end of the text -/

/-- The state at the end of the text, where no candidate can be a key any more. -/
def finishing (lexer : Lexer) : Lexer :=
  { lexer with
    cursor :=
      if lexer.cursor.column = 0 then lexer.cursor
      else { lexer.cursor with line := lexer.cursor.line + 1, column := 0 }
    candidates := lexer.candidates.map fun _ => none }

theorem forget_of_none (clear : ∀ candidate ∈ lexer.candidates, candidate = none) :
    lexer.forget = .ok lexer := by
  unfold forget
  split
  · rename_i candidate outer candidates
    rw [candidates] at clear
    cases clear _ (List.mem_cons_self ..)
  · rfl

theorem closeTo_candidates (column : Int) :
    (lexer.closeTo column).candidates = lexer.candidates := by
  rw [closeTo]
  split <;> rfl

/-- What the end of the text comes to. -/
theorem eq_of_atEnd (ends : lexer.atEnd = .ok next) :
    next = { lexer.finishing.closeTo (-1) with keyAllowed := false }.push
      lexer.finishing.cursor.mark .streamEnd := by
  unfold atEnd at ends
  dsimp only at ends
  split at ends
  · cases ends
  obtain ⟨last, closes, isNext⟩ := exists_of_bind_eq_ok ends
  obtain ⟨final, forgets, isLast⟩ := exists_of_bind_eq_ok closes
  have clear : ∀ candidate ∈ (lexer.finishing.closeTo (-1)).candidates, candidate = none := by
    rw [closeTo_candidates]
    simp [finishing]
  have isFinal : .ok final = Except.ok (lexer.finishing.closeTo (-1)) :=
    forgets.symm.trans (forget_of_none clear)
  cases isFinal
  cases isLast
  cases isNext
  rfl

theorem tokens_suffix_closeTo (lexer : Lexer) (column : Int) :
    lexer.tokens <:+ (lexer.closeTo column).tokens := by
  rw [closeTo]
  split
  · exact List.suffix_rfl
  · exact List.suffix_append _ _

theorem list_prefix_of_atEnd (ends : lexer.atEnd = .ok next) :
    lexer.ledger.list <+: next.ledger.list := by
  rw [eq_of_atEnd ends]
  exact List.reverse_prefix.mpr
    ((tokens_suffix_closeTo lexer.finishing (-1)).trans (List.suffix_cons _ _))

/-- Rounds go on until no round is left. -/
theorem exists_last (lexer : Lexer) :
    ∃ last : Lexer, Relation.ReflTransGen Round lexer last ∧ ∀ next : Lexer, ¬ Round last next := by
  induction left : lexer.cursor.left using Nat.strong_induction_on generalizing lexer with
  | _ count inductionHypothesis =>
      subst left
      by_cases more : ∃ next : Lexer, Round lexer next
      · obtain ⟨next, round⟩ := more
        obtain ⟨-, -, -, -, shorter⟩ := id round
        obtain ⟨last, rounds, isLast⟩ := inductionHypothesis _ shorter next rfl
        exact ⟨last, rounds.head round, isLast⟩
      · exact ⟨lexer, .refl, not_exists.mp more⟩

/-- Where no round is left, there is a fault or nothing more to read. -/
theorem ofLexer_of_last (isLast : ∀ next : Lexer, ¬ Round lexer next) :
    (∃ fault, Tokens.ofLexer lexer = ⟨lexer.settled.reverse, some fault⟩) ∨
      ∃ settled read next : Lexer,
        lexer.settle = .ok settled ∧ settled.readNext = .ok read ∧ read.expire = .ok next ∧
          (read.isAtEnd = true ∨ lexer.cursor.left ≤ read.cursor.left) ∧
          Tokens.ofLexer lexer = ⟨read.tokens.reverse, none⟩ := by
  rw [Tokens.ofLexer.eq_def]
  rcases advances : lexer.advance with fault | read
  · exact .inl ⟨fault, rfl⟩
  rcases expires : read.expire with fault | next
  · simp only [expires]
    exact .inl ⟨fault, rfl⟩
  obtain ⟨sameCursor, sameTokens, -⟩ := expire_kept expires
  have sameEnd := isAtEnd_expire expires
  have stops : ¬(!next.isAtEnd && decide (next.cursor.left < lexer.cursor.left)) = true := by
    simp only [Bool.and_eq_true, Bool.not_eq_true', decide_eq_true_eq]
    rintro ⟨notEnd, shorter⟩
    exact isLast next ⟨read, advances, expires, notEnd, shorter⟩
  have isEnd : read.isAtEnd = true ∨ lexer.cursor.left ≤ read.cursor.left := by
    rw [sameEnd, sameCursor] at stops
    simp only [Bool.and_eq_true, Bool.not_eq_true', decide_eq_true_eq, not_and_or, not_lt,
      Bool.not_eq_false] at stops
    exact stops
  rw [advance_eq] at advances
  obtain ⟨settled, settles, reads⟩ := exists_of_bind_eq_ok advances
  refine .inr ⟨settled, read, next, settles, reads, expires, isEnd, ?_⟩
  simp only [expires, if_neg stops, sameTokens]

/-- Settled tokens come first among all tokens. -/
theorem front_prefix_ofLexer (ordered : lexer.ledger.Ordered) :
    lexer.ledger.front <+: (Tokens.ofLexer lexer).list := by
  obtain ⟨last, rounds, isLast⟩ := exists_last lexer
  obtain ⟨orderedLast, front⟩ := ordered.steps (rounds_steps rounds)
  rw [ofLexer_of_rounds rounds]
  refine front.trans ?_
  rcases ofLexer_of_last isLast with ⟨fault, same⟩ | ⟨settled, read, _, settles, reads, -, -, same⟩
  · rw [same, settled_reverse orderedLast]
  obtain ⟨orderedSettled, frontSettled⟩ := orderedLast.steps (settle_steps settles)
  rw [same]
  refine frontSettled.trans ?_
  by_cases atEnd : settled.cursor.rest = []
  · have ends : settled.atEnd = .ok read := by
      rwa [readNext, atEnd] at reads
    exact (List.take_prefix _ _).trans (list_prefix_of_atEnd ends)
  · obtain ⟨-, frontRead⟩ := orderedSettled.steps (readNext_steps atEnd reads)
    exact frontRead.trans (List.take_prefix _ _)

end Lexer
end Yaml
end FieldLine
