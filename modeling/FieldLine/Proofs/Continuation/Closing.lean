import FieldLine.Proofs.Continuation.Brackets

/-!
# The token that ends a document

A document ends with the token that fulfils all goals.  The tokens before it are those of flow
collections that are nested.  If a collection has started, then the document can only be ended by
the end of the text or by a line that bounds documents where nothing else is awaited.
-/

namespace FieldLine
namespace Yaml

open Lexer (Brackets)

namespace Reader

/-! ## Runs -/

/-- Tokens that are read one after another, each with some goal before it. -/
inductive Reads (reader : Reader) : List Token → Reader → Prop where
  | nil : Reads reader [] reader
  | concat {tokens : List Token} {middle next : Reader} {token : Token}
      (before : Reads reader tokens middle) (someGoal : middle.goals ≠ [])
      (meets : middle.meet token middle.goals = .ok next) : Reads reader (tokens ++ [token]) next

variable {tokens : List Token} {reader middle next last : Reader} {token : Token}

theorem Reads.cons (someGoal : reader.goals ≠ [])
    (meets : reader.meet token reader.goals = .ok next) (reads : Reads next tokens last) :
    Reads reader (token :: tokens) last := by
  induction reads with
  | nil => exact .concat .nil someGoal meets
  | concat before someGoalBefore meetsLast inductionHypothesis =>
      exact .concat inductionHypothesis someGoalBefore meetsLast

theorem Reads.go (reads : Reads reader tokens last) (rest : List Token) (fault : Option Fault) :
    run.go reader (tokens ++ rest) fault = run.go last rest fault := by
  induction reads generalizing rest with
  | nil => rfl
  | @concat tokens middle next token before someGoal meets inductionHypothesis =>
      rw [List.append_assoc, inductionHypothesis]
      obtain ⟨goal, later, goals⟩ := List.exists_cons_of_ne_nil someGoal
      rw [goals] at meets
      exact go_cons goals meets

/-- The token with which all goals are fulfilled. -/
def closing? (reader : Reader) : List Token → Option Token
  | [] => none
  | token :: later =>
      match reader.meet token reader.goals with
      | .error _ => none
      | .ok next => if next.goals = [] then some token else next.closing? later

/-- What is read up to the token with which all goals are fulfilled. -/
theorem exists_of_closing? (someGoal : reader.goals ≠ [])
    (closes : reader.closing? tokens = some token) :
    ∃ (before after : List Token) (middle next : Reader), tokens = before ++ token :: after ∧
      Reads reader before middle ∧ middle.goals ≠ [] ∧
        middle.meet token middle.goals = .ok next ∧ next.goals = [] := by
  induction tokens generalizing reader with
  | nil => cases closes
  | cons first later inductionHypothesis =>
      rw [closing?] at closes
      split at closes
      · cases closes
      · rename_i next meets
        split at closes
        · cases closes
          exact ⟨[], later, reader, next, rfl, .nil, someGoal, meets, ‹_›⟩
        · obtain ⟨before, after, middle, last, parts, reads, rest⟩ := inductionHypothesis ‹_› closes
          exact ⟨first :: before, after, middle, last, congrArg (first :: ·) parts,
            reads.cons someGoal meets, rest⟩

/-- Nothing after the token with which all goals are fulfilled makes a difference. -/
theorem Reads.go_of_closes (reads : Reads reader tokens middle) (someGoal : middle.goals ≠ [])
    (meets : middle.meet token middle.goals = .ok next) (closed : next.goals = [])
    (after : List Token) (fault : Option Fault) :
    run.go reader (tokens ++ token :: after) fault = .ok next.events.reverse := by
  obtain ⟨goal, later, goals⟩ := List.exists_cons_of_ne_nil someGoal
  rw [goals] at meets
  rw [reads.go, go_cons goals meets]
  cases after with
  | nil =>
      rw [run.go]
      intro goal later fault someGoal
      rw [closed] at someGoal
      cases someGoal
  | cons first others => rw [run.go, closed]

end Reader

/-! ## Tokens that are nested -/

/-- Tokens of flow collections that are nested, some of which are still open. -/
inductive Nested : List Token → List Brackets → Prop where
  | nil : Nested [] []
  | concat {tokens : List Token} {around after : List Brackets} {token : Token}
      (before : Nested tokens around)
      (turns : bracketsAfter (endsInKey false tokens) around token.kind = some after) :
      Nested (tokens ++ [token]) after

variable {tokens : List Token} {around after : List Brackets} {token : Token}

theorem endsInKey_concat (tokens : List Token) (token : Token) :
    endsInKey false (tokens ++ [token]) = decide (token.kind = .key) := by
  rw [endsInKey, List.foldl_append]
  rfl

/-- What a token can do to the brackets that are open. -/
theorem bracketsAfter_cases {taken : Bool} {kind : TokenKind}
    (turns : bracketsAfter taken around kind = some after) :
    (kind = .flowSequenceStart ∧ after = .square :: around) ∨
      (kind = .flowMappingStart ∧ after = .curly :: around) ∨
      (kind = .flowSequenceEnd ∧ taken = true ∧ after = around) ∨
      (kind = .flowSequenceEnd ∧ taken = false ∧ around = .square :: after) ∨
      (kind = .flowMappingEnd ∧ around = .curly :: after) ∨
      (kind ≠ .flowSequenceEnd ∧ kind.nesting = 0 ∧ after = around) := by
  cases kind
  case flowSequenceEnd =>
    rcases taken with _ | _
    · rcases around with _ | ⟨_ | _, outer⟩ <;> cases turns
      simp
    · cases turns
      simp
  case flowMappingEnd =>
    rcases around with _ | ⟨_ | _, outer⟩ <;> cases turns
    simp
  all_goals cases turns
  all_goals simp [TokenKind.nesting]

theorem length_bracketsAfter {taken : Bool}
    (turns : bracketsAfter taken around token.kind = some after) :
    (after.length : Int) = around.length + token.weight taken := by
  rcases bracketsAfter_cases turns with ⟨isKind, rfl⟩ | ⟨isKind, rfl⟩ | ⟨isKind, rfl, rfl⟩ |
    ⟨isKind, rfl, rfl⟩ | ⟨isKind, rfl⟩ | ⟨notEnd, noNesting, rfl⟩
  · rw [weight_of_ne (by rw [isKind]; decide), isKind]
    rfl
  · rw [weight_of_ne (by rw [isKind]; decide), isKind]
    rfl
  · simp [Token.weight, isKind]
  · have weight : token.weight false = -1 := by
      rw [Token.weight, isKind]
      rfl
    rw [weight, List.length_cons]
    omega
  · have nesting : TokenKind.flowMappingEnd.nesting = -1 := rfl
    rw [weight_of_ne (by rw [isKind]; decide), isKind, nesting, List.length_cons]
    omega
  · rw [weight_of_ne notEnd, noNesting, Int.add_zero]

theorem Nested.depth_eq (nested : Nested tokens around) : depth tokens = around.length := by
  induction nested with
  | nil => rfl
  | concat before turns inductionHypothesis =>
      rw [depth_concat_eq_weight, inductionHypothesis, length_bracketsAfter turns]

theorem Nested.of_prefix (nested : Nested tokens around) {part : List Token}
    (isPart : part <+: tokens) : ∃ others : List Brackets, Nested part others := by
  induction nested with
  | nil =>
      rw [List.prefix_nil.mp isPart]
      exact ⟨[], .nil⟩
  | concat before turns inductionHypothesis =>
      rcases List.prefix_concat_iff.mp isPart with rfl | isBefore
      · exact ⟨_, .concat before turns⟩
      · exact inductionHypothesis isBefore

theorem getLast?_cons_of_ne_nil {brackets : Brackets} (someBrackets : around ≠ []) :
    (brackets :: around).getLast? = around.getLast? := by
  rw [List.getLast?_cons, List.getLast?_eq_some_getLast someBrackets]
  rfl

/-- The outermost brackets were open before, or a token has opened them. -/
theorem bracketsAfter_getLast? {taken : Bool}
    (turns : bracketsAfter taken around token.kind = some after)
    (outermost : after.getLast? = some .curly) :
    around.getLast? = some .curly ∨ around = [] ∧ token.kind = .flowMappingStart := by
  have someAfter : after ≠ [] := by
    rintro rfl
    cases outermost
  rcases bracketsAfter_cases turns with ⟨isKind, rfl⟩ | ⟨isKind, rfl⟩ | ⟨-, -, rfl⟩ |
    ⟨-, -, rfl⟩ | ⟨-, rfl⟩ | ⟨-, -, rfl⟩
  · by_cases isEmpty : around = []
    · subst isEmpty
      cases outermost
    · rw [getLast?_cons_of_ne_nil isEmpty] at outermost
      exact .inl outermost
  · by_cases isEmpty : around = []
    · exact .inr ⟨isEmpty, isKind⟩
    · rw [getLast?_cons_of_ne_nil isEmpty] at outermost
      exact .inl outermost
  · exact .inl outermost
  · rw [getLast?_cons_of_ne_nil someAfter]
    exact .inl outermost
  · rw [getLast?_cons_of_ne_nil someAfter]
    exact .inl outermost
  · exact .inl outermost

/-- The outermost mapping has started where nothing else was open. -/
theorem Nested.exists_start (nested : Nested tokens around)
    (outermost : around.getLast? = some .curly) :
    ∃ (k : Nat) (token : Token), tokens[k]? = some token ∧ token.kind = .flowMappingStart ∧
      depth (tokens.take k) = 0 := by
  induction nested with
  | nil => cases outermost
  | @concat tokens around after token before turns inductionHypothesis =>
      rcases bracketsAfter_getLast? turns outermost with earlier | ⟨rfl, isStart⟩
      · obtain ⟨k, other, isToken, isStart, balanced⟩ := inductionHypothesis earlier
        have within : k < tokens.length := (List.getElem?_eq_some_iff.mp isToken).1
        refine ⟨k, other, ?_, isStart, ?_⟩
        · rw [List.getElem?_append_left within]
          exact isToken
        · rw [List.take_append_of_le_length within.le]
          exact balanced
      · refine ⟨tokens.length, token, List.getElem?_concat_length, isStart, ?_⟩
        rw [List.take_left]
        exact before.depth_eq

theorem Nested.not_bad (nested : Nested tokens around) : ¬ Ledger.Bad tokens := by
  rintro (negative | ⟨before, token, rfl, isEnd, balanced, deep⟩)
  · rw [nested.depth_eq] at negative
    omega
  · generalize tokens : before ++ [token] = all at nested
    cases nested with
    | nil => simp at tokens
    | @concat others inner _ last nestedBefore turns =>
        obtain ⟨rfl, sameLast⟩ := List.append_inj' tokens rfl
        cases sameLast
        rw [isEnd] at turns
        have empty : around = [] := by
          have length := (Nested.concat nestedBefore (isEnd ▸ turns)).depth_eq
          rw [balanced] at length
          exact List.length_eq_zero_iff.mp (by omega)
        subst empty
        obtain rfl : inner = [.curly] := by
          simpa [TokenKind.nesting] using bracketsAfter_cases turns
        obtain ⟨k, start, isToken, isStart, outside⟩ := nestedBefore.exists_start rfl
        have inside := deep k start isToken (decide_eq_true isStart) (Nat.zero_le k)
        omega

theorem Nested.readable (nested : Nested tokens around) : Ledger.Readable tokens := by
  intro part isPart
  obtain ⟨others, nestedPart⟩ := nested.of_prefix isPart
  exact nestedPart.not_bad

/-! ## What holds while a document is read -/

namespace Reader

variable {reader middle next : Reader} {goals : List Goal}

/-- A bracket right after the announcement of a key is taken for the key of a pair, or is a
fault. -/
theorem awaitsPairKey_of_meet (isEnd : token.kind = .flowSequenceEnd)
    (awaits : awaitsKey goals = true) (meets : reader.meet token goals = .ok next) :
    awaitsPairKey goals = true := by
  obtain ⟨mark, kind⟩ := token
  subst isEnd
  rcases goals with _ | ⟨goal, later⟩
  · cases awaits
  cases goal
  case pairKey => rfl
  case blockKeyNode => cases meets
  case flowKeyNode => cases meets
  all_goals cases awaits

/-- Where no collection is open, no collection has started, or the node has been read. -/
def Begins (reader : Reader) : Prop :=
  hasInner reader.goals = true ∨ hasStart reader.events = false ∨ reader.goals = [.documentEnd]

/-- What the goals know of the tokens. -/
structure Knows (tokens : List Token) (reader : Reader) : Prop where
  sound : isSound reader.goals = true
  nested : Nested tokens (openBrackets reader.goals)
  pairKey : awaitsPairKey reader.goals = true → endsInKey false tokens = true
  key : endsInKey false tokens = true → awaitsKey reader.goals = true
  begins : reader.Begins

theorem knows_start : Knows [] {} where
  sound := rfl
  nested := .nil
  pairKey := nofun
  key := nofun
  begins := .inr (.inl rfl)

/-- Below a node at the top there is nothing but the end of the document. -/
theorem eq_documentEnd_of_rests (someGoal : goals ≠ []) (sound : isSound goals = true)
    (rests : goals.all Goal.rests = true) (noInner : hasInner goals = false) :
    goals = [.documentEnd] := by
  obtain ⟨goal, later, rfl⟩ := List.exists_cons_of_ne_nil someGoal
  rw [hasInner, List.any_cons, Bool.or_eq_false_iff] at noInner
  rw [List.all_cons, Bool.and_eq_true] at rests
  rw [isSound, Bool.and_eq_true, Bool.and_eq_true] at sound
  have fits := sound.1.1
  cases goal
  case documentEnd => rw [List.isEmpty_iff.mp fits]
  case indentlessItem =>
    rw [Goal.fits, hasInner, noInner.2] at fits
    cases fits
  all_goals first
    | exact absurd rests.1 Bool.false_ne_true
    | exact absurd noInner.1.symm Bool.false_ne_true

theorem goals_of_meet_documentEnd (meets : reader.meet token [.documentEnd] = .ok next) :
    next.goals = [] := by
  rw [meet, endDocument] at meets
  split at meets
  · cases meets
  · cases meets
    rfl

theorem Knows.meet {tokens : List Token} (knows : Knows tokens middle)
    (meets : middle.meet token middle.goals = .ok next) (someGoal : next.goals ≠ []) :
    Knows (tokens ++ [token]) next := by
  have turns := meet_turns knows.sound meets
  refine ⟨turns.sound, ?_, ?_, ?_, ?_⟩
  · refine .concat knows.nested ((turns.brackets someGoal).symm ▸ ?_)
    by_cases isEnd : token.kind = .flowSequenceEnd
    · have same : endsInKey false tokens = awaitsPairKey middle.goals := by
        rw [Bool.eq_iff_iff]
        exact ⟨fun isKey => awaitsPairKey_of_meet isEnd (knows.key isKey) meets, knows.pairKey⟩
      rw [same]
    · exact bracketsAfter_of_ne isEnd _ _ _
  · rw [endsInKey_concat]
    exact fun awaits => decide_eq_true (turns.pairKey awaits)
  · rw [endsInKey_concat]
    exact fun isKey => turns.key (of_decide_eq_true isKey) someGoal
  · by_cases inner : hasInner middle.goals = true
    · rcases turns.inner inner with innerNext | rests
      · exact .inl innerNext
      · by_cases innerNext : hasInner next.goals = true
        · exact .inl innerNext
        · exact .inr (.inr (eq_documentEnd_of_rests someGoal turns.sound rests
            (Bool.eq_false_iff.mpr innerNext)))
    · rcases knows.begins.resolve_left inner with notStarted | isEnd
      · rcases turns.starts (Bool.eq_false_iff.mpr inner) with innerNext | same
        · exact .inl innerNext
        · exact .inr (.inl (same.trans notStarted))
      · rw [isEnd] at meets
        exact absurd (goals_of_meet_documentEnd meets) someGoal

theorem Reads.knows {tokens : List Token} (reads : Reads {} tokens middle)
    (someGoal : middle.goals ≠ []) : Knows tokens middle := by
  induction reads with
  | nil => exact knows_start
  | concat before someGoalBefore meets inductionHypothesis =>
      exact (inductionHypothesis someGoalBefore).meet meets someGoal

/-- What may come after a document ends no collection. -/
theorem hasInner_of_meet_bound (sound : isSound goals = true)
    (isEnd : token.kind = .streamEnd ∨ token.kind.isBound = true)
    (meets : reader.meet token goals = .ok next) : hasInner goals = false := by
  obtain ⟨mark, kind⟩ := token
  induction goals generalizing reader with
  | nil => rfl
  | cons goal later inductionHypothesis =>
      rw [isSound, Bool.and_eq_true, Bool.and_eq_true] at sound
      obtain ⟨⟨fits, -⟩, soundLater⟩ := sound
      have isKind : kind = .streamEnd ∨ kind = .documentStart ∨ kind = .documentEnd := by
        simpa [TokenKind.isBound] using isEnd
      cases goal
      case document => rw [List.isEmpty_iff.mp fits]; rfl
      case directives => rw [List.isEmpty_iff.mp fits]; rfl
      case documentContent => rw [List.isEmpty_iff.mp fits]; rfl
      case documentEnd => rw [List.isEmpty_iff.mp fits]; rfl
      all_goals rcases isKind with rfl | rfl | rfl
      all_goals first
        | exact inductionHypothesis soundLater meets
        | cases meets

end Reader

/-! ## Events without collections -/

end Yaml

namespace Assembly

/-- Nothing but a scalar has been read. -/
structure Bare (assembly : Assembly) : Prop where
  pending : assembly.pending = []
  root : ∀ node ∈ assembly.root, node.kind = .scalar

variable {assembly : Assembly}

theorem Bare.attach (bare : assembly.Bare) (line : Nat) (text : String) :
    (assembly.attach (.scalar line text)).Bare := by
  obtain ⟨pending, root⟩ := assembly
  obtain rfl : pending = [] := bare.pending
  refine ⟨rfl, ?_⟩
  cases root with
  | none =>
      intro node isRoot
      cases isRoot
      rfl
  | some root => exact bare.root

theorem Bare.close (bare : assembly.Bare) : assembly.close.Bare := by
  rw [Assembly.close, bare.pending]
  exact bare

theorem Bare.feed (bare : assembly.Bare) {event : Event}
    (notStart : Yaml.isStart event.kind = false) : (assembly.feed event).Bare := by
  rw [Assembly.feed]
  split
  case h_1 => exact bare.attach _ _
  case h_2 => exact bare.attach _ _
  case h_3 isStart =>
    rw [isStart] at notStart
    cases notStart
  case h_4 isStart =>
    rw [isStart] at notStart
    cases notStart
  case h_5 => exact bare.close
  case h_6 => exact bare.close
  all_goals exact bare

/-- Without the start of a collection there is at most a scalar. -/
theorem bare_of_hasStart_eq_false {events : List Event}
    (notStarted : Yaml.hasStart events = false) : (events.foldl feed {}).Bare := by
  have start : Bare {} := ⟨rfl, nofun⟩
  generalize ({} : Assembly) = assembly at start ⊢
  induction events generalizing assembly with
  | nil => exact start
  | cons event later inductionHypothesis =>
      rw [Yaml.hasStart, List.any_cons, Bool.or_eq_false_iff] at notStarted
      exact inductionHypothesis notStarted.2 _ (start.feed notStarted.1)

end Assembly
end FieldLine
