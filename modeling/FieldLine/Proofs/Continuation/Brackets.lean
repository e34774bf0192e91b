import FieldLine.Proofs.Continuation.Nesting
import FieldLine.Proofs.Yaml.Goals

/-!
# Brackets of what is read

The goals of a reader know the brackets of the flow collections that are open.  So tokens that are
read to the end of a document are those of collections that are nested.
-/

namespace FieldLine
namespace Yaml

open Lexer (Brackets)

/-! ## Brackets that are open -/

/-- The brackets around what a goal awaits, if it stands directly in a flow collection. -/
@[simp]
def Goal.brackets? : Goal → Option Brackets
  | .flowItem => some .square
  | .flowItemNext => some .square
  | .pairKey => some .square
  | .pairValue => some .square
  | .pairValueNode => some .square
  | .pairEnd => some .square
  | .flowKey => some .curly
  | .flowKeyNext => some .curly
  | .flowKeyNode => some .curly
  | .flowValue => some .curly
  | .flowValueNode _ => some .curly
  | .flowValueMissing => some .curly
  | _ => none

/-- The brackets that are open, innermost first. -/
@[simp]
def openBrackets : List Goal → List Brackets
  | [] => []
  | goal :: later =>
      match goal.brackets? with
      | some brackets => brackets :: openBrackets later
      | none => openBrackets later

/-- The brackets that are open after a token, if it does not end others than it may.  One that is
taken for a missing key ends none. -/
@[simp]
def bracketsAfter (taken : Bool) (around : List Brackets) : TokenKind → Option (List Brackets)
  | .flowSequenceStart => some (.square :: around)
  | .flowMappingStart => some (.curly :: around)
  | .flowSequenceEnd =>
      match taken, around with
      | true, _ => some around
      | false, .square :: outer => some outer
      | false, _ => none
  | .flowMappingEnd =>
      match around with
      | .curly :: outer => some outer
      | _ => none
  | _ => some around

theorem bracketsAfter_of_ne {kind : TokenKind} (notEnd : kind ≠ .flowSequenceEnd)
    (taken other : Bool) (around : List Brackets) :
    bracketsAfter taken around kind = bracketsAfter other around kind := by
  cases kind
  case flowSequenceEnd => exact absurd rfl notEnd
  all_goals rfl

/-- Whether the key of a pair in a sequence is next. -/
@[simp]
def awaitsPairKey : List Goal → Bool
  | .pairKey :: _ => true
  | _ => false

/-- Whether a key is next that has been announced. -/
@[simp]
def awaitsKey : List Goal → Bool
  | .blockKeyNode :: _ => true
  | .flowKeyNode :: _ => true
  | .pairKey :: _ => true
  | _ => false

/-! ## Stacks of goals -/

/-- Whether a goal stands in a collection that has a token of its own for its end. -/
def Goal.isInner : Goal → Bool
  | .document => false
  | .directives _ => false
  | .documentContent => false
  | .documentEnd => false
  | .node _ _ => false
  | .anchored _ _ _ => false
  | .tagged _ _ => false
  | .described _ _ => false
  | .indentlessItem => false
  | .indentlessItemNode => false
  | _ => true

@[simp]
def hasInner (goals : List Goal) : Bool :=
  goals.any Goal.isInner

/-- Whether a goal may stand below others, as one that comes after a node. -/
def Goal.rests : Goal → Bool
  | .documentEnd => true
  | .indentlessItem => true
  | .blockItem => true
  | .blockKey => true
  | .blockValue => true
  | .flowItemNext => true
  | .pairValue => true
  | .pairEnd => true
  | .flowKeyNext => true
  | .flowValue => true
  | .flowValueMissing => true
  | _ => false

/-- What has to stand below a goal: nothing below one of documents, and a collection below one of
a sequence without indentation. -/
def Goal.fits (later : List Goal) : Goal → Bool
  | .document => later.isEmpty
  | .directives _ => later.isEmpty
  | .documentContent => later.isEmpty
  | .documentEnd => later.isEmpty
  | .node _ indentless => !later.isEmpty && (!indentless || hasInner later)
  | .anchored _ indentless _ => !later.isEmpty && (!indentless || hasInner later)
  | .tagged _ indentless => !later.isEmpty && (!indentless || hasInner later)
  | .described _ indentless => !later.isEmpty && (!indentless || hasInner later)
  | .indentlessItem => hasInner later
  | .indentlessItemNode => hasInner later
  | _ => !later.isEmpty

@[simp]
def isSound : List Goal → Bool
  | [] => true
  | goal :: later => goal.fits later && later.all Goal.rests && isSound later

@[simp]
def isStart (kind : EventKind) : Bool :=
  kind = .sequenceStart || kind = .mappingStart

/-- Whether a collection has started. -/
@[simp]
def hasStart (events : List Event) : Bool :=
  events.any fun event => isStart event.kind

theorem awaitsPairKey_of_rests {later : List Goal} (rests : later.all Goal.rests = true) :
    awaitsPairKey later = false := by
  rcases later with _ | ⟨goal, others⟩
  · rfl
  · cases goal <;> first | rfl | cases rests

namespace Reader

variable {reader next : Reader} {token : Token} {goals others later : List Goal}
  {block indentless : Bool}

/-- What becomes of the goals when a token meets them. -/
structure Turns (goals : List Goal) (token : Token) (reader next : Reader) : Prop where
  brackets : next.goals ≠ [] →
    bracketsAfter (awaitsPairKey goals) (openBrackets goals) token.kind =
      some (openBrackets next.goals)
  pairKey : awaitsPairKey next.goals = true → token.kind = .key
  key : token.kind = .key → next.goals ≠ [] → awaitsKey next.goals = true
  sound : isSound next.goals = true
  inner : hasInner goals = true → hasInner next.goals = true ∨ next.goals.all Goal.rests = true
  starts : hasInner goals = false →
    hasInner next.goals = true ∨ hasStart next.events = hasStart reader.events

theorem Turns.of_emit {mark : Mark} {kind : EventKind} (notStart : isStart kind = false)
    (turns : Turns goals token (reader.emit mark kind) next) : Turns goals token reader next where
  brackets := turns.brackets
  pairKey := turns.pairKey
  key := turns.key
  sound := turns.sound
  inner := turns.inner
  starts noInner := by
    have starts := turns.starts noInner
    have same : hasStart (reader.emit mark kind).events = hasStart reader.events := by
      rw [hasStart, emit, List.any_cons, notStart, Bool.false_or]
      rfl
    rwa [same] at starts

/-- Goals in the same collections. -/
theorem Turns.of_like (turns : Turns goals token reader next)
    (brackets : openBrackets others = openBrackets goals) (inner : hasInner others = hasInner goals)
    (taken : token.kind = .flowSequenceEnd → awaitsPairKey others = awaitsPairKey goals) :
    Turns others token reader next where
  brackets someGoal := by
    rw [← turns.brackets someGoal, brackets]
    by_cases isEnd : token.kind = .flowSequenceEnd
    · rw [taken isEnd]
    · exact bracketsAfter_of_ne isEnd _ _ _
  pairKey := turns.pairKey
  key := turns.key
  sound := turns.sound
  inner := inner ▸ turns.inner
  starts := inner ▸ turns.starts

/-! ## Goals that are next -/

/-- A token after which a goal awaits more of them. -/
theorem Turns.of_goal {kind : TokenKind} {goal : Goal} (isKind : token.kind = kind)
    (isNext : next.goals = goal :: later)
    (brackets : bracketsAfter (awaitsPairKey goals) (openBrackets goals) kind =
      some (openBrackets (goal :: later)))
    (key : awaitsKey (goal :: later) = true ↔ kind = .key)
    (sound : isSound (goal :: later) = true)
    (inner : hasInner (goal :: later) = true ∨
      hasInner (goal :: later) = hasInner goals ∧ hasStart next.events = hasStart reader.events) :
    Turns goals token reader next where
  brackets _ := by rw [isNext, isKind, brackets]
  pairKey awaits := by
    rw [isNext] at awaits
    rw [isKind, ← key]
    cases goal <;> first | rfl | cases awaits
  key isKey _ := by rw [isNext, key, ← isKind, isKey]
  sound := isNext ▸ sound
  inner isInner := by
    rw [isNext]
    obtain nextInner | ⟨same, -⟩ := inner
    · exact .inl nextInner
    · exact .inl (same.trans isInner)
  starts _ := by
    rw [isNext]
    exact inner.imp_right And.right

/-- A stack of goals below one in a collection. -/
structure Stacked (later : List Goal) : Prop where
  sound : isSound later = true
  rests : later.all Goal.rests = true
  someGoal : later ≠ []

theorem fits_of_isInner {goal : Goal} (isInner : goal.isInner = true) :
    goal.fits later = !later.isEmpty := by
  cases goal <;> first | rfl | cases isInner

theorem Stacked.of_isSound {goal : Goal} (isInner : goal.isInner = true)
    (sound : isSound (goal :: later) = true) : Stacked later := by
  rw [isSound, fits_of_isInner isInner, Bool.and_eq_true, Bool.and_eq_true, Bool.not_eq_true',
    List.isEmpty_eq_false_iff] at sound
  exact ⟨sound.2, sound.1.2, sound.1.1⟩

theorem Stacked.of_hasInner (sound : isSound later = true) (rests : later.all Goal.rests = true)
    (inner : hasInner later = true) : Stacked later := by
  refine ⟨sound, rests, ?_⟩
  rintro rfl
  cases inner

theorem Stacked.isSound_cons {goal : Goal} (stacked : Stacked later)
    (fits : goal.fits later = true) : isSound (goal :: later) = true := by
  rw [isSound, fits, stacked.rests, stacked.sound]
  rfl

theorem Stacked.fits {goal : Goal} (stacked : Stacked later) (isInner : goal.isInner = true) :
    goal.fits later = true := by
  rw [fits_of_isInner isInner, Bool.not_eq_true', List.isEmpty_eq_false_iff]
  exact stacked.someGoal

/-- A token after which a goal in a collection awaits more of them. -/
theorem Turns.of_inner {kind : TokenKind} {goal : Goal} (stacked : Stacked later)
    (isKind : token.kind = kind) (isNext : next.goals = goal :: later)
    (isInner : goal.isInner = true)
    (brackets : bracketsAfter (awaitsPairKey goals) (openBrackets goals) kind =
      some (openBrackets (goal :: later)))
    (key : awaitsKey (goal :: later) = true ↔ kind = .key) : Turns goals token reader next :=
  .of_goal isKind isNext brackets key (stacked.isSound_cons (stacked.fits isInner))
    (.inl (List.any_eq_true.mpr ⟨goal, List.mem_cons_self, isInner⟩))

/-- A token that ends a node or a collection. -/
theorem Turns.of_rests {kind : TokenKind} (stacked : Stacked later) (isKind : token.kind = kind)
    (isNext : next.goals = later)
    (brackets : bracketsAfter (awaitsPairKey goals) (openBrackets goals) kind =
      some (openBrackets later))
    (notKey : kind ≠ .key)
    (starts : hasInner goals = true ∨ hasStart next.events = hasStart reader.events) :
    Turns goals token reader next where
  brackets _ := by rw [isNext, isKind, brackets]
  pairKey awaits := by
    rw [isNext, awaitsPairKey_of_rests stacked.rests] at awaits
    cases awaits
  key isKey := absurd (isKind.symm.trans isKey) notKey
  sound := isNext ▸ stacked.sound
  inner _ := .inr (isNext ▸ stacked.rests)
  starts noInner := .inr (starts.resolve_left (Bool.eq_false_iff.mp noInner))

/-- A token after which no more of them are awaited. -/
theorem Turns.of_nil (isNext : next.goals = [])
    (starts : hasStart next.events = hasStart reader.events) : Turns goals token reader next where
  brackets someGoal := absurd isNext someGoal
  pairKey awaits := by
    rw [isNext] at awaits
    cases awaits
  key _ someGoal := absurd isNext someGoal
  sound := isNext ▸ rfl
  inner _ := .inr (isNext ▸ rfl)
  starts _ := .inr starts

/-! ## Nodes -/

/-- What has to stand below a node that is awaited. -/
structure Below (indentless : Bool) (later : List Goal) : Prop where
  sound : isSound later = true
  rests : later.all Goal.rests = true
  someGoal : later ≠ []
  inner : (!indentless || hasInner later) = true

theorem Below.of_fits (sound : isSound later = true) (rests : later.all Goal.rests = true)
    (fits : (!later.isEmpty && (!indentless || hasInner later)) = true) :
    Below indentless later := by
  rw [Bool.and_eq_true, Bool.not_eq_true', List.isEmpty_eq_false_iff] at fits
  exact ⟨sound, rests, fits.1, fits.2⟩

theorem Below.stacked (below : Below indentless later) : Stacked later :=
  ⟨below.sound, below.rests, below.someGoal⟩

theorem Below.fits (below : Below indentless later) :
    (!later.isEmpty && (!indentless || hasInner later)) = true := by
  rw [below.inner, Bool.and_true, Bool.not_eq_true', List.isEmpty_eq_false_iff]
  exact below.someGoal

theorem Stacked.below {goal : Goal} (stacked : Stacked later) (isInner : goal.isInner = true)
    (rest : goal.rests = true) : Below indentless (goal :: later) where
  sound := stacked.isSound_cons (stacked.fits isInner)
  rests := by
    rw [List.all_cons, rest, stacked.rests]
    rfl
  someGoal := List.cons_ne_nil _ _
  inner := by
    rw [hasInner, List.any_cons, isInner, Bool.true_or, Bool.or_true]

/-- A sequence without indentation stands in a collection, and so does its next entry. -/
theorem Turns.of_indentless (stacked : Stacked later) (inner : hasInner later = true)
    (isEntry : token.kind = .blockEntry) (isNext : next.goals = .indentlessItemNode :: later)
    (brackets : openBrackets goals = openBrackets later) : Turns goals token reader next :=
  .of_goal isEntry isNext (congrArg some brackets) (by simp) (stacked.isSound_cons inner)
    (.inl inner)

theorem content?_turns (below : Below indentless later)
    (starts : reader.content? block indentless later token = some next) :
    Turns later token reader next := by
  have stacked := below.stacked
  unfold content? at starts
  split at starts
  case h_1 isScalar =>
    cases starts
    exact .of_rests stacked isScalar rfl rfl nofun (.inr rfl)
  case h_2 isStart =>
    cases starts
    exact .of_inner stacked isStart rfl rfl rfl (by simp)
  case h_3 isStart =>
    cases starts
    exact .of_inner stacked isStart rfl rfl rfl (by simp)
  case h_4 isStart =>
    split at starts
    · cases starts
      exact .of_inner stacked isStart rfl rfl rfl (by simp)
    · cases starts
  case h_5 isStart =>
    split at starts
    · cases starts
      exact .of_inner stacked isStart rfl rfl rfl (by simp)
    · cases starts
  case h_6 isEntry =>
    split at starts
    case isTrue isIndentless =>
      cases starts
      have inner := below.inner
      rw [isIndentless] at inner
      exact .of_indentless stacked inner isEntry rfl rfl
    case isFalse => cases starts
  case h_7 => cases starts

theorem node_turns (below : Below indentless later)
    (reads : reader.node block indentless later token = .ok next) :
    Turns later token reader next := by
  have stacked := below.stacked
  unfold node at reads
  split at reads
  case h_1 isAlias =>
    split at reads
    · cases reads
      exact .of_rests stacked isAlias rfl rfl nofun (.inr rfl)
    · cases reads
  case h_2 isAnchor =>
    cases reads
    exact .of_goal isAnchor rfl rfl (by simp) (stacked.isSound_cons below.fits) (.inr ⟨rfl, rfl⟩)
  case h_3 isTag =>
    obtain ⟨_, -, isNext⟩ := exists_of_bind_eq_ok reads
    cases isNext
    exact .of_goal isTag rfl rfl (by simp) (stacked.isSound_cons below.fits) (.inr ⟨rfl, rfl⟩)
  case h_4 =>
    split at reads
    · cases reads
      exact content?_turns below ‹_›
    · cases reads

/-! ## Collections -/

theorem blockItem_turns (stacked : Stacked later)
    (reads : reader.blockItem later token = .ok next) :
    Turns (.blockItem :: later) token reader next := by
  unfold blockItem at reads
  split at reads
  case h_1 isEntry =>
    cases reads
    exact .of_inner stacked isEntry rfl rfl rfl (by simp)
  case h_2 isEnd =>
    cases reads
    exact .of_rests stacked isEnd rfl rfl nofun (.inl rfl)
  case h_3 => cases reads

theorem blockKey_turns (stacked : Stacked later) (reads : reader.blockKey later token = .ok next) :
    Turns (.blockKey :: later) token reader next := by
  unfold blockKey at reads
  split at reads
  case h_1 isKey =>
    cases reads
    exact .of_inner stacked isKey rfl rfl rfl (by simp)
  case h_2 isValue =>
    cases reads
    exact .of_inner stacked isValue rfl rfl rfl (by simp)
  case h_3 isEnd =>
    cases reads
    exact .of_rests stacked isEnd rfl rfl nofun (.inl rfl)
  case h_4 => cases reads

theorem blockValue_turns (stacked : Stacked later)
    (reads : reader.blockValue later token = .ok next) :
    Turns (.blockValue :: later) token reader next := by
  unfold blockValue at reads
  split at reads
  case h_1 isValue =>
    cases reads
    exact .of_inner stacked isValue rfl rfl rfl (by simp)
  case h_2 =>
    exact ((blockKey_turns stacked reads).of_emit rfl).of_like rfl rfl fun _ => rfl

theorem flowKeyNext_turns (stacked : Stacked later)
    (reads : reader.flowKeyNext later token = .ok next) :
    Turns (.flowKeyNext :: later) token reader next := by
  unfold flowKeyNext at reads
  split at reads
  case h_1 isEntry =>
    cases reads
    exact .of_inner stacked isEntry rfl rfl rfl (by simp)
  case h_2 isEnd =>
    cases reads
    exact .of_rests stacked isEnd rfl rfl nofun (.inl rfl)
  case h_3 => cases reads

theorem flowKey_turns (stacked : Stacked later) (reads : reader.flowKey later token = .ok next) :
    Turns (.flowKey :: later) token reader next := by
  unfold flowKey at reads
  split at reads
  case h_1 isKey =>
    cases reads
    exact .of_inner stacked isKey rfl rfl rfl (by simp)
  case h_2 isValue =>
    cases reads
    exact .of_inner stacked isValue rfl rfl rfl (by simp)
  case h_3 isEnd =>
    cases reads
    exact .of_rests stacked isEnd rfl rfl nofun (.inl rfl)
  case h_4 => exact (node_turns (stacked.below rfl rfl) reads).of_like rfl rfl fun _ => rfl

theorem flowValue_turns (stacked : Stacked later)
    (reads : reader.flowValue later token = .ok next) :
    Turns (.flowValue :: later) token reader next := by
  unfold flowValue at reads
  split at reads
  case h_1 isValue =>
    cases reads
    exact .of_inner stacked isValue rfl rfl rfl (by simp)
  case h_2 =>
    exact ((flowKeyNext_turns stacked reads).of_emit rfl).of_like rfl rfl fun _ => rfl

theorem flowItem_turns (stacked : Stacked later) (reads : reader.flowItem later token = .ok next) :
    Turns (.flowItem :: later) token reader next := by
  unfold flowItem at reads
  split at reads
  case h_1 isEnd =>
    cases reads
    exact .of_rests stacked isEnd rfl rfl nofun (.inl rfl)
  case h_2 isKey =>
    cases reads
    exact .of_inner stacked isKey rfl rfl rfl (by simp)
  case h_3 => exact (node_turns (stacked.below rfl rfl) reads).of_like rfl rfl fun _ => rfl

theorem flowItemNext_turns (stacked : Stacked later)
    (reads : reader.flowItemNext later token = .ok next) :
    Turns (.flowItemNext :: later) token reader next := by
  unfold flowItemNext at reads
  split at reads
  case h_1 isEntry =>
    cases reads
    exact .of_inner stacked isEntry rfl rfl rfl (by simp)
  case h_2 isEnd =>
    cases reads
    exact .of_rests stacked isEnd rfl rfl nofun (.inl rfl)
  case h_3 => cases reads

theorem pairEnd_turns (stacked : Stacked later) (reads : reader.pairEnd later token = .ok next) :
    Turns (.pairEnd :: later) token reader next :=
  ((flowItemNext_turns stacked reads).of_emit rfl).of_like rfl rfl fun _ => rfl

/-! ## Documents -/

theorem endDocument_turns (reads : reader.endDocument [] token = .ok next) (goals : List Goal) :
    Turns goals token reader next := by
  unfold endDocument at reads
  split at reads
  · cases reads
  · cases reads
    exact .of_nil rfl rfl

theorem directive_turns {versionSeen : Bool} {mark : Mark} {kind : Directive}
    (isDirective : token.kind = .directive kind)
    (reads : reader.directive versionSeen [] mark kind = .ok next) (goal : Goal)
    (noInner : goal.isInner = false) (noBrackets : goal.brackets? = none) :
    Turns [goal] token reader next := by
  have brackets : openBrackets [goal] = [] := by rw [openBrackets, noBrackets]; rfl
  have inner : hasInner [goal] = false := by rw [hasInner, List.any_cons, noInner]; rfl
  unfold directive at reads
  split at reads
  · split at reads
    · cases reads
    · cases reads
      exact .of_goal isDirective rfl (by rw [brackets]; rfl) (by simp) rfl (.inr ⟨inner.symm, rfl⟩)
  · cases reads
    exact .of_goal isDirective rfl (by rw [brackets]; rfl) (by simp) rfl (.inr ⟨inner.symm, rfl⟩)

theorem below_documentEnd : Below false [.documentEnd] :=
  ⟨rfl, rfl, List.cons_ne_nil _ _, rfl⟩

theorem document_turns (reads : reader.document [] token = .ok next) :
    Turns [.document] token reader next := by
  unfold document at reads
  split at reads
  case h_1 isEnd =>
    cases reads
    exact .of_goal isEnd rfl rfl (by simp) rfl (.inr ⟨rfl, rfl⟩)
  case h_2 =>
    cases reads
    exact .of_nil rfl rfl
  case h_3 isDirective => exact directive_turns isDirective reads _ rfl rfl
  case h_4 isStart =>
    cases reads
    exact .of_goal isStart rfl rfl (by simp) rfl (.inr ⟨rfl, rfl⟩)
  case h_5 => exact ((node_turns below_documentEnd reads).of_emit rfl).of_like rfl rfl fun _ => rfl

theorem directives_turns {versionSeen : Bool}
    (reads : reader.directives versionSeen [] token = .ok next) :
    Turns [.directives versionSeen] token reader next := by
  unfold directives at reads
  split at reads
  case h_1 isDirective => exact directive_turns isDirective reads _ rfl rfl
  case h_2 isStart =>
    cases reads
    exact .of_goal isStart rfl rfl (by simp) rfl (.inr ⟨rfl, rfl⟩)
  case h_3 => cases reads

theorem documentContent_turns (reads : reader.documentContent [] token = .ok next) :
    Turns [.documentContent] token reader next := by
  unfold documentContent at reads
  split at reads
  case h_5 => exact (node_turns below_documentEnd reads).of_like rfl rfl fun _ => rfl
  all_goals exact (endDocument_turns reads _).of_emit rfl

/-! ## Tokens -/

/-- A token that meets the goals below one in no collection of its own. -/
theorem Turns.below {goal : Goal} (turns : Turns later token reader next)
    (rests : later.all Goal.rests = true) (noInner : goal.isInner = false)
    (noBrackets : goal.brackets? = none) : Turns (goal :: later) token reader next := by
  refine turns.of_like ?_ ?_ fun _ => ?_
  · rw [openBrackets, noBrackets]
  · rw [hasInner, List.any_cons, noInner]
    rfl
  · rw [awaitsPairKey_of_rests rests]
    cases goal <;> first | rfl | cases noInner

theorem meet_turns (sound : isSound goals = true) (reads : reader.meet token goals = .ok next) :
    Turns goals token reader next := by
  induction goals generalizing reader with
  | nil =>
      rw [meet] at reads
      cases reads
      exact .of_nil rfl rfl
  | cons goal later inductionHypothesis =>
      have stacked := fun isInner : goal.isInner = true => Stacked.of_isSound isInner sound
      rw [isSound, Bool.and_eq_true, Bool.and_eq_true] at sound
      obtain ⟨⟨fits, rests⟩, soundLater⟩ := sound
      cases goal with
      | document =>
          obtain rfl : later = [] := List.isEmpty_iff.mp fits
          exact document_turns reads
      | directives versionSeen =>
          obtain rfl : later = [] := List.isEmpty_iff.mp fits
          exact directives_turns reads
      | documentContent =>
          obtain rfl : later = [] := List.isEmpty_iff.mp fits
          exact documentContent_turns reads
      | documentEnd =>
          obtain rfl : later = [] := List.isEmpty_iff.mp fits
          exact endDocument_turns reads _
      | blockItem => exact blockItem_turns (stacked rfl) reads
      | blockKey => exact blockKey_turns (stacked rfl) reads
      | blockValue => exact blockValue_turns (stacked rfl) reads
      | flowItem => exact flowItem_turns (stacked rfl) reads
      | flowItemNext => exact flowItemNext_turns (stacked rfl) reads
      | pairEnd => exact pairEnd_turns (stacked rfl) reads
      | flowKey => exact flowKey_turns (stacked rfl) reads
      | flowKeyNext => exact flowKeyNext_turns (stacked rfl) reads
      | flowValue => exact flowValue_turns (stacked rfl) reads
      | flowValueMissing =>
          exact ((flowKeyNext_turns (stacked rfl) reads).of_emit rfl).of_like rfl rfl fun _ => rfl
      | node block indentless =>
          exact (node_turns (.of_fits soundLater rests fits) reads).below rests rfl rfl
      | anchored block indentless mark =>
          have below := Below.of_fits soundLater rests fits
          rw [meet] at reads
          split at reads
          · obtain ⟨_, -, isNext⟩ := exists_of_bind_eq_ok reads
            cases isNext
            exact .of_goal ‹_› rfl rfl (by simp) (below.stacked.isSound_cons fits) (.inr ⟨rfl, rfl⟩)
          · cases reads
            exact (content?_turns below ‹_›).below rests rfl rfl
          · exact ((inductionHypothesis soundLater reads).of_emit rfl).below rests rfl rfl
      | tagged block indentless =>
          have below := Below.of_fits soundLater rests fits
          rw [meet] at reads
          split at reads
          · cases reads
            exact .of_goal ‹_› rfl rfl (by simp) (below.stacked.isSound_cons fits) (.inr ⟨rfl, rfl⟩)
          · cases reads
            exact (content?_turns below ‹_›).below rests rfl rfl
          · exact ((inductionHypothesis soundLater reads).of_emit rfl).below rests rfl rfl
      | described block indentless =>
          rw [meet] at reads
          split at reads
          · cases reads
            exact (content?_turns (.of_fits soundLater rests fits) ‹_›).below rests rfl rfl
          · exact ((inductionHypothesis soundLater reads).of_emit rfl).below rests rfl rfl
      | blockItemNode =>
          rw [meet] at reads
          split at reads
          · exact ((blockItem_turns (stacked rfl) reads).of_emit rfl).of_like rfl rfl fun _ => rfl
          · exact ((blockItem_turns (stacked rfl) reads).of_emit rfl).of_like rfl rfl fun _ => rfl
          · exact (node_turns ((stacked rfl).below rfl rfl) reads).of_like rfl rfl fun _ => rfl
      | indentlessItem =>
          rw [meet] at reads
          split at reads
          · cases reads
            exact .of_indentless (.of_hasInner soundLater rests fits) fits ‹_› rfl rfl
          · exact ((inductionHypothesis soundLater reads).of_emit rfl).below rests rfl rfl
      | indentlessItemNode =>
          have stackedLater := Stacked.of_hasInner soundLater rests fits
          rw [meet] at reads
          split at reads
          · cases reads
            exact .of_indentless stackedLater fits ‹_› rfl rfl
          · split at reads
            · have turns := ((inductionHypothesis soundLater reads).of_emit rfl).of_emit rfl
              exact turns.below rests rfl rfl
            · have soundItem : isSound (.indentlessItem :: later) = true :=
                stackedLater.isSound_cons fits
              have turns := node_turns ⟨soundItem, rests, List.cons_ne_nil _ _, rfl⟩ reads
              exact turns.of_like rfl rfl fun _ => rfl
      | blockKeyNode =>
          rw [meet] at reads
          split at reads
          · exact ((blockValue_turns (stacked rfl) reads).of_emit rfl).of_like rfl rfl fun _ => rfl
          · exact (node_turns ((stacked rfl).below rfl rfl) reads).of_like rfl rfl fun _ => rfl
      | blockValueNode mark =>
          rw [meet] at reads
          split at reads
          · exact ((blockKey_turns (stacked rfl) reads).of_emit rfl).of_like rfl rfl fun _ => rfl
          · exact (node_turns ((stacked rfl).below rfl rfl) reads).of_like rfl rfl fun _ => rfl
      | pairKey =>
          rw [meet] at reads
          split at reads
          case h_4 notEnd =>
            exact (node_turns ((stacked rfl).below rfl rfl) reads).of_like rfl rfl
              fun isEnd => absurd isEnd notEnd
          -- A token that ends the pair is taken for its missing key.
          all_goals cases reads
          all_goals exact .of_inner (stacked rfl) ‹_› rfl rfl rfl (by simp)
      | pairValue =>
          rw [meet] at reads
          split at reads
          · cases reads
            exact .of_inner (stacked rfl) ‹_› rfl rfl rfl (by simp)
          · exact ((pairEnd_turns (stacked rfl) reads).of_emit rfl).of_like rfl rfl fun _ => rfl
      | pairValueNode =>
          rw [meet] at reads
          split at reads
          · exact ((pairEnd_turns (stacked rfl) reads).of_emit rfl).of_like rfl rfl fun _ => rfl
          · exact ((pairEnd_turns (stacked rfl) reads).of_emit rfl).of_like rfl rfl fun _ => rfl
          · exact (node_turns ((stacked rfl).below rfl rfl) reads).of_like rfl rfl fun _ => rfl
      | flowKeyNode =>
          rw [meet] at reads
          split at reads
          · exact ((flowValue_turns (stacked rfl) reads).of_emit rfl).of_like rfl rfl fun _ => rfl
          · exact ((flowValue_turns (stacked rfl) reads).of_emit rfl).of_like rfl rfl fun _ => rfl
          · exact ((flowValue_turns (stacked rfl) reads).of_emit rfl).of_like rfl rfl fun _ => rfl
          · exact (node_turns ((stacked rfl).below rfl rfl) reads).of_like rfl rfl fun _ => rfl
      | flowValueNode mark =>
          rw [meet] at reads
          split at reads
          · exact ((flowKeyNext_turns (stacked rfl) reads).of_emit rfl).of_like rfl rfl fun _ => rfl
          · exact ((flowKeyNext_turns (stacked rfl) reads).of_emit rfl).of_like rfl rfl fun _ => rfl
          · exact (node_turns ((stacked rfl).below rfl rfl) reads).of_like rfl rfl fun _ => rfl

end Reader
end Yaml
end FieldLine
