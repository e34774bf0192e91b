import FieldLine.Proofs.Continuation.Settled

/-!
# Nesting of flow collections

Reading counts the flow collections around the cursor, whatever their brackets are.  As long as
the tokens could be those of collections that are nested, it counts no more of them than the tokens
do.  So where the tokens are balanced, the cursor stands in no flow collection, and a line that
bounds documents is settled.

The tokens count as the grammar takes them.  It takes a bracket for the missing key where it stands
right after the announcement of a key, as in `[ ? ] ]`, so that another bracket has to end the
sequence.
-/

namespace FieldLine
namespace Yaml

namespace TokenKind

/-- How much deeper the tokens after this one are. -/
def nesting : TokenKind → Int
  | .flowSequenceStart => 1
  | .flowMappingStart => 1
  | .flowSequenceEnd => -1
  | .flowMappingEnd => -1
  | _ => 0

theorem nesting_of_isPlain {kind : TokenKind} (plain : kind.isPlain = true) : kind.nesting = 0 := by
  cases kind <;> first | rfl | cases plain

theorem isBound_eq_false_of_isPlain {kind : TokenKind} (plain : kind.isPlain = true) :
    kind.isBound = false := by
  cases kind <;> first | rfl | cases plain

theorem ne_flowMappingStart_of_isPlain {kind : TokenKind} (plain : kind.isPlain = true) :
    kind ≠ .flowMappingStart := by
  rintro rfl
  cases plain

theorem isBound_eq_false_of_endsFlow {kind : TokenKind} (ends : kind.endsFlow = true) :
    kind.isBound = false := by
  cases kind <;> first | rfl | cases ends

theorem ne_flowMappingStart_of_endsFlow {kind : TokenKind} (ends : kind.endsFlow = true) :
    kind ≠ .flowMappingStart := by
  rintro rfl
  cases ends

theorem ne_flowSequenceEnd_of_isPlain {kind : TokenKind} (plain : kind.isPlain = true) :
    kind ≠ .flowSequenceEnd := by
  rintro rfl
  cases plain

theorem ne_flowSequenceEnd_of_isBound {kind : TokenKind} (bounds : kind.isBound = true) :
    kind ≠ .flowSequenceEnd := by
  rintro rfl
  cases bounds

theorem nesting_of_isBound {kind : TokenKind} (bounds : kind.isBound = true) :
    kind.nesting = 0 := by
  cases kind <;> first | rfl | cases bounds

theorem nesting_of_endsFlow {kind : TokenKind} (ends : kind.endsFlow = true) :
    kind.nesting = -1 := by
  cases kind <;> first | rfl | cases ends

end TokenKind

/-! ## Depth -/

/-- How much deeper the tokens after this one are, which may come right after the announcement of a
key. -/
def Token.weight (afterKey : Bool) (token : Token) : Int :=
  if afterKey && token.kind = .flowSequenceEnd then 0 else token.kind.nesting

def depthAfter (afterKey : Bool) : List Token → Int
  | [] => 0
  | token :: later => token.weight afterKey + depthAfter (token.kind = .key) later

/-- How many more flow collections the tokens start than end. -/
def depth (tokens : List Token) : Int :=
  depthAfter false tokens

/-- Whether the last token announces a key. -/
def endsInKey (afterKey : Bool) (tokens : List Token) : Bool :=
  tokens.foldl (fun _ token => token.kind = .key) afterKey

variable {tokens others : List Token} {token : Token} {number bound start : Nat}
  {numbers : List (Option Nat)} {p : TokenKind → Bool}

theorem weight_of_ne (notEnd : token.kind ≠ .flowSequenceEnd) (afterKey : Bool) :
    token.weight afterKey = token.kind.nesting := by
  rw [Token.weight, decide_eq_false notEnd, Bool.and_false, if_neg Bool.false_ne_true]

theorem nesting_le_weight (afterKey : Bool) (token : Token) :
    token.kind.nesting ≤ token.weight afterKey := by
  rw [Token.weight]
  split
  · rename_i isEnd
    rw [Bool.and_eq_true, decide_eq_true_eq] at isEnd
    rw [isEnd.2]
    decide
  · exact Int.le_refl _

theorem depthAfter_append (afterKey : Bool) (tokens others : List Token) :
    depthAfter afterKey (tokens ++ others) =
      depthAfter afterKey tokens + depthAfter (endsInKey afterKey tokens) others := by
  induction tokens generalizing afterKey with
  | nil => exact (Int.zero_add _).symm
  | cons token later inductionHypothesis =>
      rw [List.cons_append, depthAfter, depthAfter, inductionHypothesis, Int.add_assoc]
      rfl

/-- Only a bracket counts differently after the announcement of a key. -/
theorem depthAfter_eq_depth (notEnd : ∀ token ∈ tokens.head?, token.kind ≠ .flowSequenceEnd)
    (afterKey : Bool) : depthAfter afterKey tokens = depth tokens := by
  cases tokens with
  | nil => rfl
  | cons token later =>
      rw [depth, depthAfter, depthAfter, weight_of_ne (notEnd token rfl),
        weight_of_ne (notEnd token rfl)]

theorem depth_concat_eq_weight (tokens : List Token) (token : Token) :
    depth (tokens ++ [token]) = depth tokens + token.weight (endsInKey false tokens) := by
  rw [depth, depthAfter_append, depthAfter, depthAfter, Int.add_zero]
  rfl

theorem depth_concat (notEnd : token.kind ≠ .flowSequenceEnd) (tokens : List Token) :
    depth (tokens ++ [token]) = depth tokens + token.kind.nesting := by
  rw [depth_concat_eq_weight, weight_of_ne notEnd]

theorem depth_concat_ge (tokens : List Token) (token : Token) :
    depth tokens + token.kind.nesting ≤ depth (tokens ++ [token]) := by
  rw [depth_concat_eq_weight]
  exact Int.add_le_add_left (nesting_le_weight _ token) _

/-- Between two parts of the tokens another one adds what it weighs. -/
theorem depth_append_cons (notEnd : token.kind ≠ .flowSequenceEnd)
    (notEndNext : ∀ next ∈ others.head?, next.kind ≠ .flowSequenceEnd) (tokens : List Token) :
    depth (tokens ++ token :: others) = depth (tokens ++ others) + token.kind.nesting := by
  rw [depth, depth, depthAfter_append, depthAfter_append, depthAfter, weight_of_ne notEnd,
    depthAfter_eq_depth notEndNext, depthAfter_eq_depth notEndNext]
  omega

/-- A token between others. -/
def insertAt (number : Nat) (token : Token) (tokens : List Token) : List Token :=
  tokens.take number ++ token :: tokens.drop number

theorem take_insertAt_of_le (le : number ≤ tokens.length) {count : Nat} (before : count ≤ number) :
    (insertAt number token tokens).take count = tokens.take count := by
  have shorter : count ≤ (tokens.take number).length := by
    rw [List.length_take]
    omega
  rw [insertAt, List.take_append_of_le_length shorter, List.take_take, Nat.min_eq_left before]

theorem getElem?_insertAt_of_lt {k : Nat} (before : k < number) (le : number ≤ tokens.length) :
    (insertAt number token tokens)[k]? = tokens[k]? := by
  rw [insertAt, List.getElem?_append_left (by rw [List.length_take]; omega),
    List.getElem?_take_of_lt before]

theorem getElem?_insertAt_add (token : Token) (le : number ≤ tokens.length) (k : Nat) :
    (insertAt number token tokens)[number + k]? = (token :: tokens.drop number)[k]? := by
  have length : (tokens.take number).length = number := by
    rw [List.length_take]
    omega
  rw [insertAt, List.getElem?_append_right (by omega), length, Nat.add_sub_cancel_left]

/-- The token before which another one may be put is not the end of a sequence. -/
def BeginsAt (number : Nat) (tokens : List Token) : Prop :=
  ∀ token : Token, tokens[number]? = some token → token.kind ≠ .flowSequenceEnd

theorem BeginsAt.head?_take_drop (begins : BeginsAt number tokens) (count : Nat) :
    ∀ token ∈ ((tokens.drop number).take count).head?, token.kind ≠ .flowSequenceEnd := by
  intro token isHead
  rw [List.head?_take, List.head?_drop] at isHead
  split at isHead
  · cases isHead
  · exact begins token isHead

theorem depth_insertAt (notEnd : token.kind ≠ .flowSequenceEnd) (begins : BeginsAt number tokens) :
    depth (insertAt number token tokens) = depth tokens + token.kind.nesting := by
  have next : ∀ next ∈ (tokens.drop number).head?, next.kind ≠ .flowSequenceEnd := by
    rw [List.head?_drop]
    exact begins
  rw [insertAt, depth_append_cons notEnd next, List.take_append_drop]

theorem depth_take_insertAt_succ (notEnd : token.kind ≠ .flowSequenceEnd)
    (begins : BeginsAt number tokens) (le : number ≤ tokens.length) (k : Nat) :
    depth ((insertAt number token tokens).take (number + (k + 1))) =
      depth (tokens.take (number + k)) + token.kind.nesting := by
  have length : (tokens.take number).length = number := by
    rw [List.length_take]
    omega
  have cut : number + (k + 1) - (tokens.take number).length = k + 1 := by omega
  rw [insertAt, List.take_append, List.take_of_length_le (by omega), cut, List.take_succ_cons,
    depth_append_cons notEnd (begins.head?_take_drop k), List.take_add]

theorem BeginsAt.concat (begins : BeginsAt number tokens)
    (last : number = tokens.length → token.kind ≠ .flowSequenceEnd) :
    BeginsAt number (tokens ++ [token]) := by
  intro other isToken
  rcases Nat.lt_trichotomy number tokens.length with before | rfl | beyond
  · rw [List.getElem?_append_left before] at isToken
    exact begins other isToken
  · rw [List.getElem?_concat_length] at isToken
    cases isToken
    exact last rfl
  · rw [List.getElem?_eq_none (by rw [List.length_append, List.length_singleton]; omega)] at isToken
    cases isToken

theorem BeginsAt.insertAt {place : Nat} (begins : BeginsAt number tokens) (before : number ≤ place)
    (le : place ≤ tokens.length) (notEnd : token.kind ≠ .flowSequenceEnd) :
    BeginsAt number (insertAt place token tokens) := by
  intro other isToken
  rcases Nat.lt_or_eq_of_le before with isBefore | rfl
  · rw [getElem?_insertAt_of_lt isBefore le] at isToken
    exact begins other isToken
  · have isHere := getElem?_insertAt_add token le 0
    rw [Nat.add_zero] at isHere
    rw [isHere] at isToken
    cases isToken
    exact notEnd

/-! ## Tokens within flow collections -/

/-- All tokens of some kinds from a place on stand within flow collections. -/
def Deep (p : TokenKind → Bool) (start : Nat) (tokens : List Token) : Prop :=
  ∀ (k : Nat) (token : Token), tokens[k]? = some token → p token.kind = true → start ≤ k →
    1 ≤ depth (tokens.take k)

theorem Deep.mono (deep : Deep p start tokens) {later : Nat} (le : start ≤ later) :
    Deep p later tokens :=
  fun k token isToken holds after => deep k token isToken holds (le.trans after)

theorem Deep.concat (deep : Deep p start tokens)
    (last : p token.kind = true → start ≤ tokens.length → 1 ≤ depth tokens) :
    Deep p start (tokens ++ [token]) := by
  intro k other isToken holds after
  rcases Nat.lt_trichotomy k tokens.length with before | rfl | beyond
  · rw [List.getElem?_append_left before] at isToken
    rw [List.take_append_of_le_length before.le]
    exact deep k other isToken holds after
  · rw [List.getElem?_concat_length] at isToken
    cases isToken
    rw [List.take_left]
    exact last holds after
  · rw [List.getElem?_eq_none (by rw [List.length_append, List.length_singleton]; omega)] at isToken
    cases isToken

theorem Deep.insertAt (deep : Deep p start tokens) (le : number ≤ tokens.length)
    (from_le : start ≤ number) (begins : BeginsAt number tokens)
    (notEnd : token.kind ≠ .flowSequenceEnd) (deeper : 0 ≤ token.kind.nesting)
    (here : p token.kind = true → 1 ≤ depth (tokens.take number)) :
    Deep p start (insertAt number token tokens) := by
  intro k other isToken holds after
  rcases Nat.lt_or_ge k number with before | notBefore
  · rw [getElem?_insertAt_of_lt before le] at isToken
    rw [take_insertAt_of_le le before.le]
    exact deep k other isToken holds after
  obtain ⟨count, rfl⟩ := Nat.exists_eq_add_of_le notBefore
  rw [getElem?_insertAt_add token le] at isToken
  cases count with
  | zero =>
      cases isToken
      rw [Nat.add_zero, take_insertAt_of_le le (Nat.le_refl number)]
      exact here holds
  | succ count =>
      rw [List.getElem?_cons_succ, List.getElem?_drop] at isToken
      have deepBefore := deep (number + count) other isToken holds (by omega)
      rw [depth_take_insertAt_succ notEnd begins le]
      omega

/-! ## States that count no more collections than the tokens do -/

namespace Ledger

variable {ledger next : Ledger}

/-- A candidate is a token that begins something, and the tokens of all but the innermost one have
been read. -/
structure Begun (ledger : Ledger) : Prop where
  begins : ∀ number, some number ∈ ledger.numbers → BeginsAt number ledger.list
  outer : ∀ number, some number ∈ ledger.numbers.tail → number < ledger.count

theorem beginsAt_length (tokens : List Token) : BeginsAt tokens.length tokens := by
  intro token isToken
  rw [List.getElem?_eq_none (Nat.le_refl _)] at isToken
  cases isToken

theorem Begun.isPlace (begun : ledger.Begun) (ordered : ledger.Ordered)
    (place : ledger.IsPlace number) : BeginsAt number ledger.list := by
  rcases place with rfl | isHead
  · rw [ordered.count]
    exact beginsAt_length _
  · exact begun.begins number (List.mem_of_mem_head? isHead)

theorem Begun.push (begun : ledger.Begun) (notEnd : token.kind ≠ .flowSequenceEnd) :
    (ledger.push token).Begun := by
  refine ⟨fun number member => ?_, fun number member =>
    Nat.lt_succ_of_lt (begun.outer number member)⟩
  rw [list_push]
  exact (begun.begins number member).concat fun _ => notEnd

theorem Begun.insert (begun : ledger.Begun) (ordered : ledger.Ordered)
    (place : ledger.IsPlace number) (notEnd : token.kind ≠ .flowSequenceEnd) :
    (ledger.insert number token).Begun := by
  obtain ⟨le, inOrder, -⟩ := ordered.isPlace place
  refine ⟨fun other member => ?_, fun other member => Nat.lt_succ_of_lt (begun.outer other member)⟩
  rw [list_insert ordered.count le]
  exact (begun.begins other member).insertAt (inOrder.le_of_mem member) (ordered.count ▸ le) notEnd

theorem Begun.enter (begun : ledger.Begun) (ordered : ledger.Ordered)
    (notEnd : token.kind ≠ .flowSequenceEnd) :
    Begun { ledger.push token with numbers := none :: ledger.numbers } := by
  refine ⟨fun number member => ?_, fun number member => ?_⟩
  · rcases List.mem_cons.mp member with isNone | later
    · cases isNone
    · exact (begun.push notEnd).begins number later
  · exact Nat.lt_succ_of_le (ordered.inOrder.le_of_mem member)

/-- Once nothing in the innermost collection is a candidate, those around are the ones outside. -/
theorem mem_tail_of_mem_outside (clear : ledger.IsClear)
    (member : some number ∈ outside ledger.numbers) : some number ∈ ledger.numbers.tail := by
  rw [IsClear] at clear
  rcases numbers : ledger.numbers with _ | ⟨head, _ | ⟨second, others⟩⟩
  · rw [numbers] at member
    cases member
  · rw [numbers] at clear member
    rw [clear head rfl] at member
    cases List.mem_singleton.mp member
  · rw [numbers] at member
    exact member

theorem Begun.leave (begun : ledger.Begun) (ordered : ledger.Ordered) (clear : ledger.IsClear) :
    (ledger.leave token).Begun := by
  refine ⟨fun number member => ?_, fun number member => ?_⟩
  · have later := mem_tail_of_mem_outside clear member
    rw [list_leave]
    refine (begun.begins number (List.mem_of_mem_tail later)).concat fun isLast => ?_
    have before := begun.outer number later
    rw [ordered.count] at before
    omega
  · have later := mem_tail_of_mem_outside clear (List.mem_of_mem_tail member)
    exact Nat.lt_succ_of_lt (begun.outer number later)

theorem Begun.step (begun : ledger.Begun) (ordered : ledger.Ordered) (step : Change ledger next) :
    next.Begun := by
  have inner (number : Nat) (member : some number ∈ none :: ledger.numbers.tail) :
      BeginsAt number ledger.list := by
    rcases List.mem_cons.mp member with isNone | later
    · cases isNone
    · exact begun.begins number (List.mem_of_mem_tail later)
  have notEnd (mark : Mark) : (Token.mk mark .flowMappingStart).kind ≠ .flowSequenceEnd := nofun
  have notEndToo (mark : Mark) : (Token.mk mark .flowMappingEnd).kind ≠ .flowSequenceEnd := nofun
  cases step with
  | insert place plain =>
      exact begun.insert ordered place (TokenKind.ne_flowSequenceEnd_of_isPlain plain)
  | propose =>
      refine ⟨fun number member => ?_, begun.outer⟩
      rcases List.mem_cons.mp member with isCount | later
      · rw [Option.some.inj isCount, ordered.count]
        exact beginsAt_length _
      · exact begun.begins number (List.mem_of_mem_tail later)
  | forget => exact ⟨inner, begun.outer⟩
  | bound clear bounds => exact begun.push (TokenKind.ne_flowSequenceEnd_of_isBound bounds)
  | announce => exact ⟨begun.begins, begun.outer⟩
  | noPair => exact ⟨begun.begins, begun.outer⟩
  | openPair mark place inFlow notAnnounced =>
      obtain ⟨begins, outer⟩ := begun.insert ordered place (notEnd mark)
      exact ⟨begins, outer⟩
  | closePair mark isOpen =>
      obtain ⟨begins, outer⟩ := begun.push (notEndToo mark)
      exact ⟨begins, outer⟩
  | enterSequence mark => exact begun.enter ordered nofun
  | enterMapping mark =>
      obtain ⟨begins, outer⟩ := begun.enter ordered (notEnd mark)
      exact ⟨begins, outer⟩
  | leave clear ends closed => exact begun.leave ordered clear

/-- Each candidate stands at least as deep as its place among the candidates says. -/
def Supported (tokens : List Token) : List (Option Nat) → Prop
  | [] => True
  | number :: outer =>
      (∀ count ∈ number, (outer.length : Int) ≤ depth (tokens.take count)) ∧
        Supported tokens outer

/-- How many flow collections are counted. -/
def flows (ledger : Ledger) : Nat :=
  ledger.numbers.length - 1

/-- The tokens have at least as many flow collections as are counted, with one for an open pair. -/
structure Good (ledger : Ledger) : Prop where
  deep : (ledger.flows : Int) + ledger.pairOpen.toNat ≤ depth ledger.list
  supported : Supported ledger.list ledger.numbers
  bounds : Deep TokenKind.isBound ledger.first ledger.list
  pairs : (ledger.pairsExplicit = true ∧ ledger.pairOpen = false) ∨
    Deep (· = .flowMappingStart) 0 ledger.list

/-- No collections that are nested start with these tokens: they have more ends than starts, or a
mapping ends where none has started. -/
def Bad (tokens : List Token) : Prop :=
  depth tokens < 0 ∨
    ∃ (before : List Token) (token : Token), tokens = before ++ [token] ∧
      token.kind = .flowMappingEnd ∧ depth tokens = 0 ∧ Deep (· = .flowMappingStart) 0 before

def Spoiled (ledger : Ledger) : Prop :=
  ∃ part : List Token, part <+: ledger.front ∧ Bad part

theorem Spoiled.step (spoiled : ledger.Spoiled) (ordered : ledger.Ordered)
    (step : Change ledger next) : next.Spoiled := by
  obtain ⟨part, isPart, bad⟩ := spoiled
  exact ⟨part, isPart.trans (ordered.settles step).front, bad⟩

theorem Supported.of_take (supported : Supported tokens numbers) (inOrder : InOrder bound numbers)
    (same : ∀ count ≤ bound, others.take count = tokens.take count) :
    Supported others numbers := by
  induction numbers generalizing bound with
  | nil => trivial
  | cons number outer inductionHypothesis =>
      refine ⟨fun count isCount => ?_, inductionHypothesis supported.2 inOrder.2
        fun count le => same count (le.trans inOrder.1)⟩
      cases isCount
      rw [same count inOrder.1]
      exact supported.1 count rfl

theorem Supported.tail (supported : Supported tokens numbers) : Supported tokens numbers.tail := by
  cases numbers with
  | nil => trivial
  | cons number outer => exact supported.2

theorem Good.flows_le (good : ledger.Good) : (ledger.flows : Int) ≤ depth ledger.list := by
  have deep := good.deep
  omega

theorem Good.pairs_of_open (good : ledger.Good) (isOpen : ledger.pairOpen = true) :
    Deep (· = .flowMappingStart) 0 ledger.list := by
  refine good.pairs.resolve_left ?_
  rintro ⟨-, notOpen⟩
  rw [isOpen] at notOpen
  cases notOpen

/-- Another candidate in the innermost collection, or none. -/
theorem Good.setHead (good : ledger.Good) {number : Option Nat}
    (stands : ∀ count ∈ number, (ledger.numbers.tail.length : Int) ≤ depth (ledger.list.take count))
    (first : ledger.first ≤ firstFrom ledger.count (number :: ledger.numbers.tail)) :
    Good { ledger with numbers := number :: ledger.numbers.tail } := by
  refine ⟨?_, ⟨stands, good.supported.tail⟩, good.bounds.mono first, good.pairs⟩
  have deep := good.deep
  simp only [flows, List.length_cons, List.length_tail]
  exact deep

theorem Good.insert (good : ledger.Good) (ordered : ledger.Ordered) (begun : ledger.Begun)
    (place : ledger.IsPlace number) (plain : token.kind.isPlain = true) :
    (ledger.insert number token).Good := by
  have begins := begun.isPlace ordered place
  have notEnd := TokenKind.ne_flowSequenceEnd_of_isPlain plain
  obtain ⟨le, inOrder, first⟩ := ordered.isPlace place
  have list : (ledger.insert number token).list = insertAt number token ledger.list :=
    list_insert ordered.count le token
  have noNesting := TokenKind.nesting_of_isPlain plain
  have settles := (ordered.settles_insert place token).first
  rw [ordered.count] at le
  constructor
  · rw [list, depth_insertAt notEnd begins, noNesting, Int.add_zero]
    exact good.deep
  · rw [list]
    exact good.supported.of_take inOrder fun count before => take_insertAt_of_le le before
  · rw [list]
    refine (good.bounds.insertAt le first begins notEnd (Int.le_of_eq noNesting.symm)
      fun isBound => ?_).mono settles
    rw [TokenKind.isBound_eq_false_of_isPlain plain] at isBound
    cases isBound
  · rw [list]
    refine good.pairs.imp id fun deep =>
      deep.insertAt le (Nat.zero_le _) begins notEnd (Int.le_of_eq noNesting.symm)
        fun isStart => ?_
    exact absurd (of_decide_eq_true isStart) (TokenKind.ne_flowMappingStart_of_isPlain plain)

/-- A place for a token in a flow collection stands within one. -/
theorem Good.deep_of_isPlace (good : ledger.Good) (ordered : ledger.Ordered)
    (place : ledger.IsPlace number) (inFlow : 1 < ledger.numbers.length) :
    1 ≤ depth (ledger.list.take number) := by
  have flowsLe := good.flows_le
  rcases place with rfl | isHead
  · rw [ordered.count, List.take_length]
    rw [flows] at flowsLe
    omega
  · obtain ⟨outer, numbers⟩ := List.head?_eq_some_iff.mp isHead
    have supported := good.supported
    rw [numbers] at supported inFlow
    rw [List.length_cons] at inFlow
    have deep := supported.1 number rfl
    omega

theorem Good.openPair (good : ledger.Good) (ordered : ledger.Ordered) (begun : ledger.Begun)
    (mark : Mark) (place : ledger.IsPlace number) (inFlow : 1 < ledger.numbers.length)
    (notAnnounced : ledger.pairsExplicit = false) :
    Good { ledger.insert number ⟨mark, .flowMappingStart⟩ with pairOpen := true } := by
  obtain ⟨le, inOrder, first⟩ := ordered.isPlace place
  have begins := begun.isPlace ordered place
  have notEnd : (Token.mk mark .flowMappingStart).kind ≠ .flowSequenceEnd := nofun
  have deeper : 0 ≤ (Token.mk mark .flowMappingStart).kind.nesting := Int.one_nonneg
  have list : (ledger.insert number ⟨mark, .flowMappingStart⟩).list =
      insertAt number ⟨mark, .flowMappingStart⟩ ledger.list :=
    list_insert ordered.count le _
  have settles := (ordered.settles_insert place ⟨mark, .flowMappingStart⟩).first
  have flowsLe := good.flows_le
  have deep := good.deep_of_isPlace ordered place inFlow
  rw [ordered.count] at le
  constructor
  · change (ledger.flows : Int) + 1 ≤ depth (ledger.insert number _).list
    rw [list, depth_insertAt notEnd begins]
    exact Int.add_le_add_right flowsLe 1
  · change Supported (ledger.insert number _).list ledger.numbers
    rw [list]
    exact good.supported.of_take inOrder fun count before => take_insertAt_of_le le before
  · change Deep _ _ (ledger.insert number _).list
    rw [list]
    have notBound : (Token.mk mark .flowMappingStart).kind.isBound = false := rfl
    refine (good.bounds.insertAt le first begins notEnd deeper fun isBound => ?_).mono settles
    rw [notBound] at isBound
    cases isBound
  · right
    change Deep _ _ (ledger.insert number _).list
    rw [list]
    rcases good.pairs with ⟨announced, -⟩ | pairs
    · rw [notAnnounced] at announced
      cases announced
    · exact pairs.insertAt le (Nat.zero_le _) begins notEnd deeper fun _ => deep

/-- With a token at the end, all but the depth stays as it is. -/
theorem Good.supported_concat (good : ledger.Good) (ordered : ledger.Ordered) (token : Token) :
    Supported (ledger.list ++ [token]) ledger.numbers := by
  refine good.supported.of_take ordered.inOrder fun count before => ?_
  rw [ordered.count] at before
  exact List.take_append_of_le_length before

theorem Good.bounds_concat (good : ledger.Good) (notBound : token.kind.isBound = false)
    {later : Nat} (first : ledger.first ≤ later) :
    Deep TokenKind.isBound later (ledger.list ++ [token]) := by
  refine (good.bounds.concat fun isBound => ?_).mono first
  rw [notBound] at isBound
  cases isBound

theorem first_of_clear (clear : ledger.IsClear) (notInFlow : ledger.numbers.length ≤ 1)
    (bound : Nat) : firstFrom bound ledger.numbers = bound := by
  rw [IsClear] at clear
  rcases numbers : ledger.numbers with _ | ⟨head, _ | ⟨second, others⟩⟩
  · rfl
  · rw [numbers] at clear
    rw [clear head rfl]
    rfl
  · rw [numbers] at notInFlow
    exact absurd notInFlow (by simp)

/-- Outside flow collections all tokens are settled if nothing is a candidate. -/
theorem front_of_clear (count : ledger.count = ledger.list.length) (clear : ledger.IsClear)
    (notInFlow : ledger.numbers.length ≤ 1) : ledger.front = ledger.list := by
  rw [front, first, first_of_clear clear notInFlow, count]
  exact List.take_length

theorem Good.pushBound (good : ledger.Good) (ordered : ledger.Ordered) (clear : ledger.IsClear)
    (isBound : token.kind.isBound = true) : (ledger.push token).Good := by
  have first : ledger.first ≤ (ledger.push token).first :=
    firstFrom_le_firstFrom (Nat.le_succ _)
  have flowsLe := good.flows_le
  have noNesting := TokenKind.nesting_of_isBound isBound
  constructor
  · rw [list_push, depth_concat (TokenKind.ne_flowSequenceEnd_of_isBound isBound), noNesting,
      Int.add_zero]
    exact good.deep
  · rw [list_push]
    exact good.supported_concat ordered token
  · rw [list_push]
    refine (good.bounds.mono first).concat fun _ notSettled => ?_
    -- In no flow collection the token is settled at once, as nothing is a candidate.
    by_cases inFlow : 1 < ledger.numbers.length
    · rw [flows] at flowsLe
      omega
    · have last : (ledger.push token).first = ledger.count + 1 :=
        first_of_clear clear (Nat.le_of_not_lt inFlow) _
      rw [last, ordered.count] at notSettled
      omega
  · rw [list_push]
    refine good.pairs.imp id fun deep => deep.concat fun isStart => ?_
    have isStart : token.kind = .flowMappingStart := of_decide_eq_true isStart
    rw [isStart] at isBound
    cases isBound

theorem Good.closePair (good : ledger.Good) (ordered : ledger.Ordered) (mark : Mark)
    (isOpen : ledger.pairOpen = true) :
    Good
      { ledger.push ⟨mark, .flowMappingEnd⟩ with pairOpen := false, pairsExplicit := false } := by
  have first : ledger.first ≤ firstFrom (ledger.count + 1) ledger.numbers :=
    firstFrom_le_firstFrom (Nat.le_succ _)
  have deep : (ledger.flows : Int) + 1 ≤ depth ledger.list := by
    have deep := good.deep
    rwa [isOpen] at deep
  have notEnd : (Token.mk mark .flowMappingEnd).kind ≠ .flowSequenceEnd := nofun
  constructor
  · change (ledger.flows : Int) + 0 ≤ depth (ledger.push _).list
    rw [list_push, depth_concat notEnd]
    change _ ≤ depth ledger.list + -1
    omega
  · change Supported (ledger.push _).list ledger.numbers
    rw [list_push]
    exact good.supported_concat ordered _
  · change Deep _ _ (ledger.push _).list
    rw [list_push]
    exact good.bounds_concat rfl first
  · right
    change Deep _ _ (ledger.push _).list
    rw [list_push]
    exact (good.pairs_of_open isOpen).concat nofun

/-- One collection more is counted, and one more is started. -/
theorem Good.deep_of_enter (good : ledger.Good) (starts : token.kind.nesting = 1) :
    (ledger.numbers.length : Int) + ledger.pairOpen.toNat ≤ depth (ledger.list ++ [token]) := by
  have deep := good.deep
  have deeper := depth_concat_ge ledger.list token
  rw [starts] at deeper
  rw [flows] at deep
  omega

theorem flows_leave (ledger : Ledger) (token : Token) :
    (ledger.leave token).flows = ledger.flows - 1 := by
  change (outside ledger.numbers).length - 1 = ledger.numbers.length - 1 - 1
  rcases ledger.numbers with _ | ⟨_, _ | ⟨_, _⟩⟩ <;> rfl

theorem Good.enter (good : ledger.Good) (ordered : ledger.Ordered)
    (starts : token.kind.nesting = 1) (notBound : token.kind.isBound = false) {explicit : Bool}
    (first : ledger.first ≤ firstFrom (ledger.count + 1) (none :: ledger.numbers))
    (pairs : (explicit = true ∧ ledger.pairOpen = false) ∨
      Deep (· = .flowMappingStart) 0 (ledger.list ++ [token])) :
    Good
      { ledger.push token with numbers := none :: ledger.numbers, pairsExplicit := explicit } := by
  have list := list_push ledger token
  refine ⟨?_, ⟨nofun, ?_⟩, ?_, ?_⟩
  · change (ledger.numbers.length : Int) + _ ≤ depth (ledger.push _).list
    rw [list]
    exact good.deep_of_enter starts
  · change Supported (ledger.push _).list _
    rw [list]
    exact good.supported_concat ordered _
  · change Deep _ _ (ledger.push _).list
    rw [list]
    exact good.bounds_concat notBound first
  · change _ ∨ Deep _ _ (ledger.push _).list
    rw [list]
    exact pairs

/-- A mapping that starts while a pair is open stands within the mapping of the pair. -/
theorem Good.pairs_concat_start (good : ledger.Good) (token : Token) :
    ledger.pairOpen = false ∨ Deep (· = .flowMappingStart) 0 (ledger.list ++ [token]) := by
  by_cases isOpen : ledger.pairOpen = true
  · refine .inr ((good.pairs_of_open isOpen).concat fun _ _ => ?_)
    have deep := good.deep
    rw [isOpen] at deep
    change _ + 1 ≤ _ at deep
    omega
  · exact .inl (Bool.eq_false_iff.mpr isOpen)

/-- The end of a flow collection leaves one if the tokens are deep enough. -/
theorem Good.leave_of_deep (good : ledger.Good) (ordered : ledger.Ordered)
    (ends : token.kind.endsFlow = true) (first : ledger.first ≤ (ledger.leave token).first)
    (deep : ((ledger.flows - 1 : Nat) : Int) + ledger.pairOpen.toNat ≤
      depth (ledger.list ++ [token])) : (ledger.leave token).Good := by
  have notStart := TokenKind.ne_flowMappingStart_of_endsFlow ends
  constructor
  · rw [flows_leave, list_leave]
    exact deep
  · rw [list_leave]
    have supported := good.supported_concat ordered token
    change Supported _ (outside ledger.numbers)
    rcases outside_eq_tail_or ledger.numbers with same | same
    · rw [same]
      exact supported.tail
    · rw [same]
      exact supported
  · rw [list_leave]
    exact good.bounds_concat (TokenKind.isBound_eq_false_of_endsFlow ends) first
  · rw [list_leave]
    exact good.pairs.imp id fun found =>
      found.concat fun isStart => absurd (of_decide_eq_true isStart) notStart

/-- Where the tokens are not that deep, none of what the token may end has started. -/
theorem Good.bad_of_shallow (good : ledger.Good) (ends : token.kind.endsFlow = true)
    (closed : token.kind = .flowSequenceEnd → ledger.pairOpen = false)
    (shallow : ¬ ((ledger.flows - 1 : Nat) : Int) + ledger.pairOpen.toNat ≤
      depth (ledger.list ++ [token])) :
    ledger.flows = 0 ∧ Bad (ledger.list ++ [token]) := by
  have deep := good.deep
  have deepLast := depth_concat_ge ledger.list token
  rw [TokenKind.nesting_of_endsFlow ends] at deepLast
  have noFlow : ledger.flows = 0 := by omega
  refine ⟨noFlow, ?_⟩
  by_cases isOpen : ledger.pairOpen = true
  · rw [isOpen, noFlow] at deep shallow
    change 0 + 1 ≤ _ at deep
    change ¬ 0 + 1 ≤ _ at shallow
    have isEnd : token.kind = .flowMappingEnd := by
      rw [TokenKind.endsFlow, Bool.or_eq_true, decide_eq_true_eq, decide_eq_true_eq] at ends
      refine ends.resolve_left fun isSequence => ?_
      rw [closed isSequence] at isOpen
      cases isOpen
    by_cases negative : depth (ledger.list ++ [token]) < 0
    · exact .inl negative
    · exact .inr ⟨_, _, rfl, isEnd, by omega, good.pairs_of_open isOpen⟩
  · rw [Bool.eq_false_iff.mpr isOpen, noFlow] at shallow
    change ¬ 0 + 0 ≤ _ at shallow
    left
    omega

theorem front_leave (ordered : ledger.Ordered) (clear : ledger.IsClear)
    (noFlow : ledger.flows = 0) (token : Token) :
    (ledger.leave token).front = ledger.list ++ [token] := by
  have short : ledger.numbers.length ≤ 1 := Nat.sub_eq_zero_iff_le.mp noFlow
  have same : (ledger.leave token).numbers = ledger.numbers := by
    change outside ledger.numbers = ledger.numbers
    rcases numbers : ledger.numbers with _ | ⟨_, _ | ⟨_, _⟩⟩
    · rfl
    · rfl
    · rw [numbers] at short
      exact absurd short (by simp)
  have count : (ledger.leave token).count = (ledger.leave token).list.length := by
    rw [list_leave, List.length_append, ← ordered.count]
    rfl
  rw [← list_leave]
  refine front_of_clear count ?_ ?_
  · rw [IsClear, same]
    exact clear
  · rw [same]
    exact short

/-- The end of a flow collection leaves one, or it ends what has not started. -/
theorem Good.leave (good : ledger.Good) (ordered : ledger.Ordered) (clear : ledger.IsClear)
    (ends : token.kind.endsFlow = true)
    (closed : token.kind = .flowSequenceEnd → ledger.pairOpen = false) :
    (ledger.leave token).Good ∨ (ledger.leave token).Spoiled := by
  have first := (ordered.settles (.leave clear ends closed)).first
  by_cases deep :
      ((ledger.flows - 1 : Nat) : Int) + ledger.pairOpen.toNat ≤ depth (ledger.list ++ [token])
  · exact .inl (good.leave_of_deep ordered ends first deep)
  · obtain ⟨noFlow, bad⟩ := good.bad_of_shallow ends closed deep
    exact .inr ⟨_, (front_leave ordered clear noFlow token).symm ▸ List.prefix_rfl, bad⟩

theorem Good.step (good : ledger.Good) (ordered : ledger.Ordered) (begun : ledger.Begun)
    (step : Change ledger next) :
    next.Good ∨ next.Spoiled := by
  have first := (ordered.settles step).first
  cases step with
  | insert place plain => exact .inl (good.insert ordered begun place plain)
  | propose =>
      refine .inl (good.setHead ?_ first)
      rintro _ ⟨⟩
      have flowsLe := good.flows_le
      rw [flows] at flowsLe
      rw [ordered.count, List.length_tail, List.take_length]
      exact flowsLe
  | forget => exact .inl (good.setHead nofun first)
  | bound clear isBound => exact .inl (good.pushBound ordered clear isBound)
  | announce =>
      exact .inl ⟨good.deep, good.supported, good.bounds, good.pairs.imp (⟨rfl, ·.2⟩) id⟩
  | noPair =>
      refine .inl ⟨?_, good.supported, good.bounds, good.pairs.imp (fun both => ⟨both.1, rfl⟩) id⟩
      exact (Int.add_zero _).trans_le good.flows_le
  | openPair mark place inFlow notAnnounced =>
      exact .inl (good.openPair ordered begun mark place inFlow notAnnounced)
  | closePair mark isOpen => exact .inl (good.closePair ordered mark isOpen)
  | enterSequence mark =>
      exact .inl (good.enter ordered rfl rfl first
        (good.pairs.imp id fun pairs => pairs.concat nofun))
  | enterMapping mark =>
      exact .inl (good.enter ordered rfl rfl first
        ((good.pairs_concat_start _).imp (And.intro rfl) id))
  | leave clear ends closed => exact good.leave ordered clear ends closed

/-- What a run of steps keeps. -/
theorem good_or_spoiled_of_steps (good : ledger.Good) (ordered : ledger.Ordered)
    (begun : ledger.Begun) (steps : Steps ledger next) :
    next.Begun ∧ (next.Good ∨ next.Spoiled) := by
  induction steps with
  | refl => exact ⟨begun, .inl good⟩
  | tail before step inductionHypothesis =>
      obtain ⟨begunBefore, holds⟩ := inductionHypothesis
      have orderedBefore := (ordered.steps before).1
      refine ⟨begunBefore.step orderedBefore step, ?_⟩
      rcases holds with goodBefore | spoiled
      · exact goodBefore.step orderedBefore begunBefore step
      · exact .inr (spoiled.step orderedBefore step)

/-! ## Tokens that are nested -/

/-- Nowhere do the tokens stop being those of collections that are nested. -/
def Readable (tokens : List Token) : Prop :=
  ∀ part : List Token, part <+: tokens → ¬ Bad part

/-- A line that bounds documents is settled if the tokens before it are balanced. -/
theorem lt_first_of_isBound (holds : ledger.Good ∨ ledger.Spoiled) {k : Nat}
    (isToken : ledger.list[k]? = some token) (isBound : token.kind.isBound = true)
    (readable : Readable (ledger.list.take k)) (balanced : depth (ledger.list.take k) = 0) :
    k < ledger.first := by
  by_contra notBefore
  have le : ledger.first ≤ k := Nat.le_of_not_lt notBefore
  rcases holds with good | ⟨part, isPart, bad⟩
  · have deep := good.bounds k token isToken isBound le
    omega
  · exact readable part (isPart.trans (List.take_prefix_take_left le)) bad


end Ledger

theorem Lexer.begun_start (text : List Char) : (Lexer.start text).ledger.Begun where
  begins := nofun
  outer := nofun

theorem Lexer.good_start (text : List Char) : (Lexer.start text).ledger.Good where
  deep := Int.le_refl 0
  supported := ⟨nofun, trivial⟩
  bounds := nofun
  pairs := .inr nofun

end Yaml
end FieldLine
