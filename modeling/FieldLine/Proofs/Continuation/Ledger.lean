import FieldLine.Proofs.Continuation.Rounds

/-!
# The ledger of reading

Reading a token changes what has been read in small steps.  Of a state they only concern its
ledger: the tokens, the places of the candidates among them, and what is known of pairs.  Each step
adds at most one token, and none of them puts a token before the first candidate.
-/

namespace FieldLine
namespace Yaml

namespace TokenKind

/-- Whether a token starts or ends neither a flow collection nor a document. -/
def isPlain : TokenKind → Bool
  | .streamEnd => false
  | .documentStart => false
  | .documentEnd => false
  | .flowSequenceStart => false
  | .flowSequenceEnd => false
  | .flowMappingStart => false
  | .flowMappingEnd => false
  | _ => true

/-- A line that bounds documents. -/
def isBound (kind : TokenKind) : Bool :=
  kind = .documentStart || kind = .documentEnd

def startsFlow (kind : TokenKind) : Bool :=
  kind = .flowSequenceStart || kind = .flowMappingStart

def endsFlow (kind : TokenKind) : Bool :=
  kind = .flowSequenceEnd || kind = .flowMappingEnd

end TokenKind

/-- What has been read: the tokens, latest first, and their number; for the block and each flow
collection around, innermost first, how many tokens stand before the candidate; and whether a pair
is open and whether pairs have been announced. -/
structure Ledger where
  tokens : List Token
  count : Nat
  numbers : List (Option Nat)
  pairOpen : Bool
  pairsExplicit : Bool

namespace Ledger

variable {ledger next : Ledger} {number : Nat}

/-! ## Steps -/

def push (ledger : Ledger) (token : Token) : Ledger :=
  { ledger with tokens := token :: ledger.tokens, count := ledger.count + 1 }

def insert (ledger : Ledger) (number : Nat) (token : Token) : Ledger :=
  let later := ledger.count - number
  { ledger with
    tokens := ledger.tokens.take later ++ token :: ledger.tokens.drop later
    count := ledger.count + 1 }

/-- Nothing in the innermost collection is a candidate. -/
def IsClear (ledger : Ledger) : Prop :=
  ∀ number ∈ ledger.numbers.head?, number = none

/-- Where a token may be put: at the end or before the innermost candidate. -/
def IsPlace (ledger : Ledger) (number : Nat) : Prop :=
  number = ledger.count ∨ ledger.numbers.head? = some (some number)

/-- The numbers once a flow collection, if there is one, has been left. -/
def outside : List (Option Nat) → List (Option Nat)
  | _ :: outer :: others => outer :: others
  | numbers => numbers

/-- The ledger after the end of a flow collection. -/
def leave (ledger : Ledger) (token : Token) : Ledger :=
  { ledger.push token with numbers := outside ledger.numbers }

/-- What happens to the ledger at once. -/
inductive Change (ledger : Ledger) : Ledger → Prop where
  | insert {number : Nat} {token : Token} (place : ledger.IsPlace number)
      (plain : token.kind.isPlain = true) : Change ledger (ledger.insert number token)
  | propose : Change ledger { ledger with numbers := some ledger.count :: ledger.numbers.tail }
  | forget : Change ledger { ledger with numbers := none :: ledger.numbers.tail }
  | bound {token : Token} (clear : ledger.IsClear) (bounds : token.kind.isBound = true) :
      Change ledger (ledger.push token)
  | announce : Change ledger { ledger with pairsExplicit := true }
  | noPair : Change ledger { ledger with pairOpen := false }
  | openPair {number : Nat} (mark : Mark) (place : ledger.IsPlace number)
      (inFlow : 1 < ledger.numbers.length) (notAnnounced : ledger.pairsExplicit = false) :
      Change ledger { ledger.insert number ⟨mark, .flowMappingStart⟩ with pairOpen := true }
  | closePair (mark : Mark) (isOpen : ledger.pairOpen = true) :
      Change ledger
        { ledger.push ⟨mark, .flowMappingEnd⟩ with pairOpen := false, pairsExplicit := false }
  | enterSequence (mark : Mark) :
      Change ledger
        { ledger.push ⟨mark, .flowSequenceStart⟩ with numbers := none :: ledger.numbers }
  | enterMapping (mark : Mark) :
      Change ledger
        { ledger.push ⟨mark, .flowMappingStart⟩ with
          numbers := none :: ledger.numbers
          pairsExplicit := true }
  | leave {token : Token} (clear : ledger.IsClear) (ends : token.kind.endsFlow = true)
      (closed : token.kind = .flowSequenceEnd → ledger.pairOpen = false) :
      Change ledger (ledger.leave token)

abbrev Steps : Ledger → Ledger → Prop :=
  Relation.ReflTransGen Change

theorem insert_count (ledger : Ledger) (token : Token) :
    ledger.insert ledger.count token = ledger.push token := by
  simp [insert, push]

theorem Change.push {token : Token} (plain : token.kind.isPlain = true) :
    Change ledger (ledger.push token) := by
  rw [← insert_count]
  exact .insert (.inl rfl) plain

theorem steps_append {ends : List Token} (plain : ∀ token ∈ ends, token.kind.isPlain = true) :
    Steps ledger
      { ledger with tokens := ends ++ ledger.tokens, count := ledger.count + ends.length } := by
  induction ends with
  | nil => exact .refl
  | cons token later inductionHypothesis =>
      rw [List.forall_mem_cons] at plain
      exact (inductionHypothesis plain.2).tail (Change.push plain.1)

end Ledger

namespace Lexer

open Ledger (Steps Change)

variable {lexer next : Lexer} {mark : Mark} {kind : TokenKind}

def ledger (lexer : Lexer) : Ledger where
  tokens := lexer.tokens
  count := lexer.count
  numbers := lexer.candidates.map (Option.map Candidate.number)
  pairOpen := lexer.pairOpen
  pairsExplicit := lexer.pairsExplicit

theorem inFlow_iff : lexer.inFlow = true ↔ 1 < lexer.ledger.numbers.length := by
  unfold inFlow ledger
  rcases lexer.candidates with _ | ⟨_, _ | ⟨_, _⟩⟩ <;> simp

/-! ## Between tokens -/

theorem skipToToken_ledger (skips : lexer.skipToToken = .ok next) :
    next.ledger = lexer.ledger := by
  obtain ⟨_, -, isNext⟩ := exists_of_bind_eq_ok skips
  cases isNext
  rfl

theorem skipBlanks_ledger {tabs : Bool} {found : Lexer × Cursor.Blanks}
    (skips : lexer.skipBlanks tabs = .ok found) :
    found.1.ledger = lexer.ledger ∧ found.1.inFlow = lexer.inFlow := by
  obtain ⟨_, -, isFound⟩ := exists_of_bind_eq_ok skips
  cases isFound
  exact ⟨rfl, rfl⟩

theorem kind_of_mem_closeLevels {column : Int} {levels : List Level} {token : Token}
    (member : token ∈ (closeLevels mark column levels).2) : token.kind = .blockEnd := by
  induction levels with
  | nil => cases member
  | cons level outer inductionHypothesis =>
      rw [closeLevels] at member
      split at member
      · dsimp only at member
        split at member
        · rcases List.mem_append.mp member with before | isEnd
          · exact inductionHypothesis before
          · rw [List.mem_singleton.mp isEnd]
        · exact inductionHypothesis member
      · cases member

theorem closeTo_steps (column : Int) : Steps lexer.ledger (lexer.closeTo column).ledger := by
  rw [closeTo]
  split
  · exact .refl
  · refine Ledger.steps_append fun token member => ?_
    rw [kind_of_mem_closeLevels member]
    rfl

theorem forget_steps (forgets : lexer.forget = .ok next) :
    Steps lexer.ledger next.ledger ∧ next.ledger.IsClear := by
  unfold forget at forgets
  split at forgets
  · rename_i candidate outer candidates
    split at forgets
    · cases forgets
    · cases forgets
      have step : Change lexer.ledger _ := .forget
      simp only [ledger, candidates, List.map_cons, List.tail_cons] at step ⊢
      exact ⟨.single step, fun number isHead => (Option.some.inj isHead).symm⟩
  · rename_i notCandidate
    cases forgets
    refine ⟨.refl, fun number isHead => ?_⟩
    rcases candidates : lexer.candidates with _ | ⟨_ | candidate, outer⟩
    · simp [ledger, candidates] at isHead
    · simpa [ledger, candidates] using isHead.symm
    · exact absurd candidates (notCandidate candidate outer)

theorem expire_steps (expires : lexer.expire = .ok next) : Steps lexer.ledger next.ledger := by
  unfold expire at expires
  split at expires
  · rename_i candidate candidates
    split at expires
    · cases expires
      exact .refl
    split at expires
    · cases expires
    · cases expires
      have step : Change lexer.ledger _ := .forget
      simp only [ledger, candidates, List.map_cons, List.map_nil, List.tail_cons] at step ⊢
      exact .single step
  · cases expires
    exact .refl

theorem settle_steps (settles : lexer.settle = .ok next) : Steps lexer.ledger next.ledger := by
  obtain ⟨skipped, skips, goesOn⟩ := exists_of_bind_eq_ok settles
  obtain ⟨kept, expires, closes⟩ := exists_of_bind_eq_ok goesOn
  cases closes
  rw [← skipToToken_ledger skips]
  exact (expire_steps expires).trans (closeTo_steps _)

theorem suggest_steps (lexer : Lexer) : Steps lexer.ledger lexer.suggest.ledger := by
  rw [suggest]
  split
  · have step : Change lexer.ledger _ := .propose
    simp only [ledger, List.map_tail, List.map_cons, Option.map_some] at step ⊢
    exact .single step
  · exact .refl

theorem deepen_ledger (lexer : Lexer) : lexer.deepen.ledger = lexer.ledger := by
  unfold deepen
  split
  · split <;> rfl
  · rfl

/-! ## Bounds of documents -/

theorem closeAll_steps (closes : lexer.closeAll = .ok next) :
    Steps lexer.ledger next.ledger ∧ next.ledger.IsClear := by
  obtain ⟨last, forgets, isNext⟩ := exists_of_bind_eq_ok closes
  cases isNext
  obtain ⟨steps, clear⟩ := forget_steps forgets
  exact ⟨(closeTo_steps (-1)).trans steps, clear⟩

theorem atDirective_steps (reads : lexer.atDirective = .ok next) :
    Steps lexer.ledger next.ledger := by
  obtain ⟨last, closes, goesOn⟩ := exists_of_bind_eq_ok reads
  obtain ⟨_, -, isNext⟩ := exists_of_bind_eq_ok goesOn
  cases isNext
  exact (closeAll_steps closes).1.tail (Change.push rfl)

theorem atDocumentStart_steps (reads : lexer.atDocumentStart = .ok next) :
    Steps lexer.ledger next.ledger := by
  obtain ⟨last, closes, isNext⟩ := exists_of_bind_eq_ok reads
  cases isNext
  obtain ⟨steps, clear⟩ := closeAll_steps closes
  exact steps.tail (.bound clear rfl)

theorem atDocumentEnd_steps (reads : lexer.atDocumentEnd = .ok next) :
    Steps lexer.ledger next.ledger := by
  obtain ⟨last, closes, goesOn⟩ := exists_of_bind_eq_ok reads
  obtain ⟨⟨final, _⟩, skips, isNext⟩ := exists_of_bind_eq_ok goesOn
  dsimp only at isNext
  split at isNext
  · cases isNext
    obtain ⟨steps, clear⟩ := closeAll_steps closes
    rw [(skipBlanks_ledger skips).1]
    exact steps.tail (.bound clear rfl)
  · cases isNext

/-! ## Collections -/

theorem enterFlow_ledger_push (lexer : Lexer) (mark : Mark) (starts : kind.startsFlow = true) :
    Change lexer.ledger ((lexer.enterFlow kind).ledger.push ⟨mark, kind⟩) := by
  rw [TokenKind.startsFlow, Bool.or_eq_true, decide_eq_true_eq, decide_eq_true_eq] at starts
  rcases starts with rfl | rfl
  · exact .enterSequence mark
  · exact .enterMapping mark

theorem atFlowStart_steps (starts : kind.startsFlow = true)
    (reads : lexer.atFlowStart kind = .ok next) : Steps lexer.ledger next.ledger := by
  rw [atFlowStart_eq] at reads
  split at reads
  · cases reads
  · obtain ⟨⟨last, _⟩, skips, isNext⟩ := exists_of_bind_eq_ok reads
    cases isNext
    have step := enterFlow_ledger_push lexer.suggest.deepen lexer.cursor.mark starts
    rw [deepen_ledger] at step
    have sameLedger : last.ledger = (lexer.suggest.deepen.enterFlow kind).ledger :=
      (skipBlanks_ledger skips).1
    change Steps lexer.ledger (last.ledger.push ⟨lexer.cursor.mark, kind⟩)
    rw [sameLedger]
    exact (suggest_steps lexer).tail step

theorem closePair_steps (lexer : Lexer) (mark : Mark) :
    Steps lexer.ledger (lexer.closePair mark).ledger ∧
      (lexer.closePair mark).ledger.numbers = lexer.ledger.numbers ∧
      (lexer.closePair mark).pairOpen = false := by
  rw [closePair]
  split
  · exact ⟨.single (.closePair mark ‹_›), rfl, rfl⟩
  · exact ⟨.refl, rfl, Bool.eq_false_iff.mpr ‹_›⟩

theorem leaveFlow_ledger (lexer : Lexer) :
    lexer.leaveFlow.ledger =
      { lexer.ledger with numbers := Ledger.outside lexer.ledger.numbers } := by
  rcases lexer with ⟨cursor, tokens, count, levels, candidates⟩
  rcases candidates with _ | ⟨_, _ | ⟨_, _⟩⟩ <;> rfl

theorem exitFlow_sequence_ledger (lexer : Lexer) (mark : Mark) :
    (lexer.exitFlow mark .flowSequenceEnd).ledger = (lexer.closePair mark).leaveFlow.ledger := by
  rcases lexer with ⟨cursor, tokens, count, levels, candidates, keyAllowed, pairOpen⟩
  rcases candidates with _ | ⟨_, _ | ⟨_, _⟩⟩ <;> cases pairOpen <;> rfl

theorem exitFlow_push_steps (clear : lexer.ledger.IsClear) (ends : kind.endsFlow = true) :
    Steps lexer.ledger ((lexer.exitFlow mark kind).ledger.push ⟨mark, kind⟩) := by
  rw [TokenKind.endsFlow, Bool.or_eq_true, decide_eq_true_eq, decide_eq_true_eq] at ends
  rcases ends with rfl | rfl
  · obtain ⟨steps, sameNumbers, notOpen⟩ := closePair_steps lexer mark
    have stillClear : (lexer.closePair mark).ledger.IsClear := by
      rw [Ledger.IsClear, sameNumbers]
      exact clear
    have step : Change (lexer.closePair mark).ledger
        ((lexer.closePair mark).ledger.leave ⟨mark, .flowSequenceEnd⟩) :=
      .leave stillClear rfl fun _ => notOpen
    rw [exitFlow_sequence_ledger, leaveFlow_ledger]
    exact steps.tail step
  · have sameLedger :
        (lexer.exitFlow mark .flowMappingEnd).ledger = lexer.leaveFlow.ledger := rfl
    rw [sameLedger, leaveFlow_ledger]
    exact .single (.leave clear rfl nofun)

theorem atFlowEnd_steps (ends : kind.endsFlow = true) (reads : lexer.atFlowEnd kind = .ok next) :
    Steps lexer.ledger next.ledger := by
  rw [atFlowEnd_eq] at reads
  obtain ⟨last, forgets, goesOn⟩ := exists_of_bind_eq_ok reads
  obtain ⟨⟨final, _⟩, skips, isNext⟩ := exists_of_bind_eq_ok goesOn
  obtain ⟨steps, clear⟩ := forget_steps forgets
  have sameLedger : final.ledger = (last.exitFlow lexer.cursor.mark kind).ledger :=
    (skipBlanks_ledger skips).1
  have sameNext : next.ledger = final.ledger.push ⟨lexer.cursor.mark, kind⟩ := by
    cases isNext
    split <;> rfl
  rw [sameNext, sameLedger]
  exact steps.trans (exitFlow_push_steps clear ends)

theorem atFlowEntry_steps (reads : lexer.atFlowEntry = .ok next) :
    Steps lexer.ledger next.ledger := by
  obtain ⟨last, forgets, goesOn⟩ := exists_of_bind_eq_ok reads
  obtain ⟨⟨final, _⟩, skips, isNext⟩ := exists_of_bind_eq_ok goesOn
  cases isNext
  have steps := (closePair_steps { last with keyAllowed := true } lexer.cursor.mark).1
  have sameLedger : final.ledger = ({ last with keyAllowed := true }.closePair _).ledger :=
    (skipBlanks_ledger skips).1
  rw [← sameLedger] at steps
  exact ((forget_steps forgets).1.trans steps).tail (Change.push rfl)

theorem openBlock_steps {number : Nat} (column : Nat) (place : lexer.ledger.IsPlace number)
    (plain : kind.isPlain = true) :
    Steps lexer.ledger (lexer.openBlock column number mark kind).ledger := by
  rw [openBlock]
  split
  · exact .refl
  · exact iteInduction (motive := fun opened => Steps lexer.ledger (ledger opened))
      (fun _ => .single (.insert place plain)) fun _ => .refl

theorem openBlock_count_steps (lexer : Lexer) (column : Nat) (plain : kind.isPlain = true) :
    Steps lexer.ledger (lexer.openBlock column lexer.count mark kind).ledger :=
  openBlock_steps column (.inl rfl) plain

theorem atBlockEntry_steps (reads : lexer.atBlockEntry = .ok next) :
    Steps lexer.ledger next.ledger := by
  unfold atBlockEntry at reads
  dsimp only at reads
  split at reads
  · cases reads
  split at reads
  · cases reads
  obtain ⟨⟨first, blanks⟩, skips, goesOn⟩ := exists_of_bind_eq_ok reads
  dsimp only at goesOn
  split at goesOn
  · cases goesOn
  obtain ⟨⟨second, _⟩, skipsAgain, goesOn⟩ := exists_of_bind_eq_ok goesOn
  obtain ⟨last, forgets, isNext⟩ := exists_of_bind_eq_ok goesOn
  have opens :
      Steps lexer.ledger second.ledger := by
    rw [(skipBlanks_ledger skipsAgain).1, (skipBlanks_ledger skips).1]
    exact openBlock_count_steps (lexer.solid 1) lexer.cursor.mark.column rfl
  have deepens : Steps second.ledger last.ledger := by
    have steps := (forget_steps forgets).1
    split at steps
    · rwa [deepen_ledger] at steps
    · exact steps
  cases isNext
  exact (opens.trans deepens).tail (Change.push rfl)

theorem openPair_steps (lexer : Lexer) : Steps lexer.ledger lexer.openPair.ledger := by
  rw [openPair]
  split
  · exact .single .announce
  · exact openBlock_count_steps lexer _ rfl

theorem atKey_steps (reads : lexer.atKey = .ok next) : Steps lexer.ledger next.ledger := by
  rw [atKey_eq] at reads
  split at reads
  · cases reads
  obtain ⟨last, forgets, goesOn⟩ := exists_of_bind_eq_ok reads
  dsimp only at goesOn
  split at goesOn
  · cases goesOn
  split at goesOn
  · cases goesOn
  cases goesOn
  exact ((openPair_steps lexer).trans (forget_steps forgets).1).tail (Change.push rfl)

/-! ## Values -/

theorem skipColon_ledger {found : Lexer × Bool} (skips : lexer.skipColon = .ok found) :
    found.1.ledger = { lexer.ledger with pairOpen := lexer.inFlow && !lexer.pairsExplicit } := by
  unfold skipColon at skips
  dsimp only at skips
  split at skips
  · obtain ⟨_, skipsOn, isFound⟩ := exists_of_map_eq_ok skips
    cases isFound
    exact (skipBlanks_ledger skipsOn).1
  · cases skips
    rfl

theorem head?_numbers_of_candidate {candidate : Candidate} {outer : List (Option Candidate)}
    (candidates : lexer.candidates = some candidate :: outer) :
    lexer.ledger.numbers.head? = some (some candidate.number) := by
  simp [ledger, candidates]

theorem announcePair_inFlow (lexer : Lexer) (candidate : Candidate) :
    (lexer.announcePair candidate).inFlow = lexer.inFlow := by
  unfold announcePair
  dsimp only
  split <;> rfl

theorem forget_pastKey (lexer : Lexer) (candidate : Candidate) :
    Change ((lexer.announcePair candidate).openBlock candidate.place.column candidate.number mark
      .blockMappingStart).ledger (lexer.pastKey candidate mark).ledger := by
  rw [← deepen_ledger]
  have step : Change ((lexer.announcePair candidate).openBlock candidate.place.column
    candidate.number mark .blockMappingStart).deepen.ledger _ := .forget
  simp only [ledger, ← List.map_tail] at step
  exact step

/-- A colon in a flow collection where pairs have not been announced opens a pair. -/
theorem startValue_steps_of_pair {last : Lexer} (inFlow : lexer.inFlow = true)
    (notAnnounced : lexer.pairsExplicit = false)
    (sameLedger : last.ledger = { lexer.ledger with pairOpen := true })
    (starts : last.startValue mark = .ok next) : Steps lexer.ledger next.ledger := by
  have isOpen : last.pairOpen = true := congrArg Ledger.pairOpen sameLedger
  have sameNumbers : last.ledger.numbers = lexer.ledger.numbers := by
    rw [sameLedger]
  have long := inFlow_iff.mp inFlow
  have lastInFlow : last.inFlow = true := by
    rw [inFlow_iff, sameNumbers]
    exact long
  rw [startValue] at starts
  split at starts
  · rename_i candidate outer candidates
    rw [acceptKey_eq] at starts
    split at starts
    · cases starts
    cases starts
    have isHead := head?_numbers_of_candidate candidates
    rw [sameNumbers] at isHead
    have announced : Change lexer.ledger
        (lexer.ledger.insert candidate.number ⟨candidate.place.mark, .key⟩) :=
      .insert (.inr isHead) rfl
    have opened : Change (lexer.ledger.insert candidate.number ⟨candidate.place.mark, .key⟩) _ :=
      .openPair last.cursor.mark (.inr isHead) long notAnnounced
    have sameOpened :
        ((last.announcePair candidate).openBlock candidate.place.column candidate.number mark
            .blockMappingStart).ledger =
          { (lexer.ledger.insert candidate.number ⟨candidate.place.mark, .key⟩).insert
              candidate.number ⟨last.cursor.mark, .flowMappingStart⟩ with pairOpen := true } := by
      rw [openBlock, if_pos ((announcePair_inFlow last candidate).trans lastInFlow), announcePair]
      refine (congrArg ledger (if_pos isOpen)).trans ?_
      change (last.ledger.insert _ _).insert _ _ = _
      rw [sameLedger]
      rfl
    rw [← sameOpened] at opened
    exact .tail (.tail (.single announced) opened) (forget_pastKey last candidate)
  · have opened : Change lexer.ledger _ :=
      .openPair last.cursor.mark (.inl rfl) long notAnnounced
    have sameStart : last.startPair = last.push last.cursor.mark .flowMappingStart := if_pos isOpen
    have startsInFlow : (last.push last.cursor.mark .flowMappingStart).inFlow = true := lastInFlow
    rw [acceptValue_eq, sameStart, if_pos startsInFlow] at starts
    cases starts
    change Steps _ (last.ledger.push _)
    rw [Ledger.insert_count] at opened
    rw [sameLedger]
    exact .single opened

theorem startValue_steps_of_noPair (notOpen : lexer.pairOpen = false)
    (starts : lexer.startValue mark = .ok next) : Steps lexer.ledger next.ledger := by
  rw [startValue] at starts
  split at starts
  · rename_i candidate outer candidates
    rw [acceptKey_eq] at starts
    split at starts
    · cases starts
    cases starts
    have sameAnnounced :
        lexer.announcePair candidate =
          lexer.insert candidate.number candidate.place.mark .key := by
      rw [announcePair]
      exact if_neg (Bool.eq_false_iff.mp notOpen)
    have isHead := head?_numbers_of_candidate candidates
    have announced : Change lexer.ledger (lexer.announcePair candidate).ledger := by
      rw [sameAnnounced]
      exact .insert (.inr isHead) rfl
    have stillPlace : (lexer.announcePair candidate).ledger.IsPlace candidate.number := by
      rw [sameAnnounced]
      exact .inr isHead
    exact ((openBlock_steps candidate.place.column stillPlace rfl).head announced).tail
      (forget_pastKey lexer candidate)
  · rw [acceptValue_eq] at starts
    have sameStart : lexer.startPair = lexer := if_neg (Bool.eq_false_iff.mp notOpen)
    rw [sameStart] at starts
    split at starts
    · cases starts
      exact .refl
    split at starts
    · cases starts
    cases starts
    change Steps lexer.ledger (deepen _).ledger
    rw [deepen_ledger]
    exact openBlock_count_steps lexer mark.column rfl

theorem atValue_steps (reads : lexer.atValue = .ok next) : Steps lexer.ledger next.ledger := by
  rw [atValue_eq] at reads
  obtain ⟨⟨last, tabbed⟩, skips, goesOn⟩ := exists_of_bind_eq_ok reads
  have sameLedger := skipColon_ledger skips
  dsimp only at goesOn sameLedger
  split at goesOn
  · cases goesOn
  obtain ⟨final, starts, isNext⟩ := exists_of_bind_eq_ok goesOn
  cases isNext
  change Steps lexer.ledger (final.ledger.push ⟨lexer.cursor.mark, .value⟩)
  refine .tail ?_ (Change.push rfl)
  by_cases opens : (lexer.inFlow && !lexer.pairsExplicit) = true
  · rw [opens] at sameLedger
    rw [Bool.and_eq_true, Bool.not_eq_true'] at opens
    exact startValue_steps_of_pair opens.1 opens.2 sameLedger starts
  · rw [Bool.not_eq_true] at opens
    rw [opens] at sameLedger
    have closes : Change lexer.ledger last.ledger := by
      rw [sameLedger]
      exact .noPair
    have notOpen : last.pairOpen = false := congrArg Ledger.pairOpen sameLedger
    exact (startValue_steps_of_noPair notOpen starts).head closes

/-! ## Nodes and their properties -/

/-- A token of a node, which may be a candidate. -/
theorem node_steps (lexer : Lexer) {token : Token} (plain : token.kind.isPlain = true) :
    Steps lexer.ledger (lexer.suggest.ledger.push token) :=
  (suggest_steps lexer).tail (Change.push plain)

theorem atAlias_steps (reads : lexer.atAlias = .ok next) : Steps lexer.ledger next.ledger := by
  obtain ⟨_, -, isNext⟩ := exists_of_bind_eq_ok reads
  cases isNext
  exact node_steps lexer rfl

theorem atAnchor_steps (reads : lexer.atAnchor = .ok next) : Steps lexer.ledger next.ledger := by
  obtain ⟨_, -, isNext⟩ := exists_of_bind_eq_ok reads
  cases isNext
  exact node_steps lexer rfl

theorem atTag_steps (reads : lexer.atTag = .ok next) : Steps lexer.ledger next.ledger := by
  obtain ⟨_, -, isNext⟩ := exists_of_bind_eq_ok reads
  cases isNext
  exact node_steps lexer rfl

theorem atQuoted_steps {single : Bool} (reads : lexer.atQuoted single = .ok next) :
    Steps lexer.ledger next.ledger := by
  obtain ⟨⟨text, cursor⟩, -, goesOn⟩ := exists_of_bind_eq_ok reads
  obtain ⟨⟨last, _⟩, -, goesOn⟩ := exists_of_bind_eq_ok goesOn
  dsimp only at goesOn
  split at goesOn
  · obtain ⟨final, skips, isNext⟩ := exists_of_bind_eq_ok goesOn
    cases isNext
    have sameLedger : final.ledger = { lexer.beginNode with cursor := last }.ledger :=
      skipToToken_ledger skips
    change Steps lexer.ledger (final.ledger.push _)
    rw [sameLedger]
    exact node_steps lexer rfl
  · cases goesOn

theorem atBlockScalar_steps {folded : Bool} (reads : lexer.atBlockScalar folded = .ok next) :
    Steps lexer.ledger next.ledger := by
  rw [atBlockScalar_eq] at reads
  obtain ⟨_, -, isNext⟩ := exists_of_map_eq_ok reads
  cases isNext
  exact node_steps lexer rfl

theorem atPlain_steps (reads : lexer.atPlain = .ok next) : Steps lexer.ledger next.ledger := by
  unfold atPlain at reads
  dsimp only at reads
  split at reads
  · cases reads
  obtain ⟨_, -, isNext⟩ := exists_of_bind_eq_ok reads
  cases isNext
  exact node_steps lexer rfl

/-! ## Rounds -/

theorem readToken_steps {c : Char} {rest : List Char} (reads : lexer.readToken c rest = .ok next) :
    Steps lexer.ledger next.ledger := by
  unfold readToken at reads
  dsimp only at reads
  split at reads
  · exact atFlowStart_steps rfl reads
  · exact atFlowStart_steps rfl reads
  · exact atFlowEnd_steps rfl reads
  · exact atFlowEnd_steps rfl reads
  · exact atFlowEntry_steps reads
  · exact atAlias_steps reads
  · exact atAnchor_steps reads
  · exact atTag_steps reads
  · exact atQuoted_steps reads
  · exact atQuoted_steps reads
  · cases reads
  · cases reads
  · cases reads
  · split at reads
    · exact atBlockEntry_steps reads
    · exact atPlain_steps reads
  · split at reads
    · exact atKey_steps reads
    · exact atPlain_steps reads
  · split at reads
    · exact atValue_steps reads
    · exact atPlain_steps reads
  · split at reads
    · exact atPlain_steps reads
    · exact atBlockScalar_steps reads
  · split at reads
    · exact atPlain_steps reads
    · exact atBlockScalar_steps reads
  · exact atPlain_steps reads

theorem readNext_steps (someChar : lexer.cursor.rest ≠ []) (reads : lexer.readNext = .ok next) :
    Steps lexer.ledger next.ledger := by
  obtain ⟨c, rest, text⟩ := List.exists_cons_of_ne_nil someChar
  rw [readNext, text] at reads
  dsimp only at reads
  split at reads
  · exact atDirective_steps reads
  split at reads
  · exact atDocumentStart_steps reads
  split at reads
  · exact atDocumentEnd_steps reads
  split at reads
  · cases reads
  · exact readToken_steps reads

theorem Round.steps (round : Round lexer next) : Steps lexer.ledger next.ledger := by
  obtain ⟨read, advances, expires, notEnd, -⟩ := round
  rw [advance_eq] at advances
  obtain ⟨settled, settles, reads⟩ := exists_of_bind_eq_ok advances
  have someChar := ne_nil_of_readNext reads ((isAtEnd_expire expires).symm.trans notEnd)
  exact ((settle_steps settles).trans (readNext_steps someChar reads)).trans (expire_steps expires)

theorem rounds_steps (rounds : Relation.ReflTransGen Round lexer next) :
    Steps lexer.ledger next.ledger := by
  induction rounds with
  | refl => exact .refl
  | tail _ round inductionHypothesis => exact inductionHypothesis.trans round.steps

end Lexer
end Yaml
end FieldLine
