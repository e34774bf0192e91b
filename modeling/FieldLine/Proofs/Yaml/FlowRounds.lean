import FieldLine.Proofs.Yaml.BlockRounds
import FieldLine.Proofs.Yaml.FlowStates

/-!
# Rounds over flow collections

The rounds that read a token of a flow collection, with the white space after it, up to the next
token: a bracket, a comma, a bare word, a quoted text, and the colon after a quoted key.
-/

namespace FieldLine
namespace Yaml
namespace Lexer

variable {mark : Mark} {pad next rest : List Char} {tokens : List Token}
  {top : Option Candidate} {outer : List (Option Candidate)} {keyAllowed : Bool}
  {remnant : Remnant}

/-! ## Brackets -/

/-- Whether pairs have been announced after an opening bracket. -/
def Brackets.announces (brackets : Brackets) (pairsExplicit : Bool) : Bool :=
  match brackets with
  | .square => pairsExplicit
  | .curly => true

theorem Brackets.announces_of_explicit (brackets : Brackets) {pairsExplicit : Bool} :
    pairsExplicit = true → brackets.announces pairsExplicit = true := by
  rintro rfl
  cases brackets <;> rfl

theorem atFlowStart_flowing (brackets : Brackets) (room : outer.length < maxFlowDepth)
    (blank : ∀ c ∈ pad, isSpace c = true) (begins : BeginsToken next) :
    (flowing mark (brackets.left :: (pad ++ next)) tokens top outer keyAllowed remnant).atFlowStart
        brackets.startKind =
      .ok (flowing ((mark.right 1).past (pad.takeWhile isBlank)) (pad.dropWhile isBlank ++ next)
        (⟨mark, brackets.startKind⟩ :: tokens) none
        (suggested mark (brackets.left :: (pad ++ next)) tokens top keyAllowed remnant :: outer)
        true
        ⟨false, brackets.announces remnant.pairsExplicit, remnant.adjacentValue,
          remnant.sighted⟩) := by
  let start := flowing mark (brackets.left :: (pad ++ next)) tokens top outer keyAllowed remnant
  let waiting := suggested mark (brackets.left :: (pad ++ next)) tokens top keyAllowed remnant
  let entered :=
    flowing (mark.right 1) (pad ++ next) tokens none (waiting :: outer) true
      ⟨false, brackets.announces remnant.pairsExplicit, remnant.adjacentValue, remnant.sighted⟩
  have skipped :
      (entered.skipBlanks true >>= fun skipped => .ok (skipped.1.push mark brackets.startKind)) =
        .ok (flowing ((mark.right 1).past (pad.takeWhile isBlank))
          (pad.dropWhile isBlank ++ next) (⟨mark, brackets.startKind⟩ :: tokens) none
          (waiting :: outer) true
          ⟨false, brackets.announces remnant.pairsExplicit, remnant.adjacentValue,
            remnant.sighted⟩) := by
    rw [skipBlanks_flowing blank begins]
    rfl
  have notDeep : ¬maxFlowDepth < (waiting :: outer).length := by
    rw [List.length_cons]
    omega
  change start.atFlowStart brackets.startKind = _
  simp only [atFlowStart]
  have suggests :
      start.suggest.deepen =
        flowing mark (brackets.left :: (pad ++ next)) tokens waiting outer keyAllowed remnant := by
    rw [suggest_flowing, deepen_flowing]
  rw [suggests]
  change (if maxFlowDepth < (waiting :: outer).length then _ else _) = _
  rw [if_neg notDeep]
  cases brackets <;> exact skipped

theorem length_dropWhile_lt (c : Char) (pad next : List Char) :
    (pad.dropWhile isBlank ++ next).length < (c :: (pad ++ next)).length := by
  have shorter := List.Sublist.length_le (List.dropWhile_sublist isBlank (l := pad))
  rw [List.length_append, List.length_cons, List.length_append]
  omega

/-- An opening bracket and the white space after it. -/
theorem leads_opening (brackets : Brackets) (room : outer.length < maxFlowDepth)
    (dispensable : Dispensable top) (blank : ∀ c ∈ pad, isSpace c = true)
    (begins : BeginsToken next) :
    ∃ (waiting : Option Candidate) (after : Remnant), Dispensable waiting ∧
      after.pairsExplicit = brackets.announces remnant.pairsExplicit ∧
      (flowing mark (brackets.left :: (pad ++ next)) tokens top outer keyAllowed remnant).Leads
        (flowing ((mark.right 1).past pad) next (⟨mark, brackets.startKind⟩ :: tokens) none
          (waiting :: outer) true after) := by
  have isFlow (lexer : Lexer) (text : List Char) :
      lexer.readToken brackets.left text = lexer.atFlowStart brackets.startKind := by
    cases brackets <;> rfl
  obtain ⟨fresh, leads⟩ :=
    Leads.of_flowing (brackets.ordinary_left rfl (indent_flowing_le _))
      ((isFlow _ _).trans (atFlowStart_flowing brackets room blank begins))
      (by cases brackets <;> nofun) (length_dropWhile_lt brackets.left _ _)
      (isSpace_of_mem_dropWhile blank) begins (List.cons_ne_nil _ _)
  rw [past_blanks] at leads
  exact ⟨_, _, dispensable_suggested dispensable, rfl, leads⟩

theorem atFlowEnd_flowing (brackets : Brackets) {below : Option Candidate}
    (dispensable : Dispensable top) (blank : ∀ c ∈ pad, isSpace c = true)
    (begins : BeginsToken next) :
    ∃ after : Remnant, after.pairsExplicit = remnant.pairsExplicit ∧
      (flowing mark (brackets.right :: (pad ++ next)) tokens top (below :: outer) keyAllowed
          remnant).atFlowEnd brackets.endKind =
        .ok (flowing ((mark.right 1).past (pad.takeWhile isBlank)) (pad.dropWhile isBlank ++ next)
          (⟨mark, brackets.endKind⟩ :: tokens) below outer false after) := by
  let left :=
    flowing (mark.right 1) (pad ++ next) tokens below outer false { remnant with fresh := false }
  have skips : left.skipBlanks true = .ok _ := skipBlanks_flowing blank begins
  -- Only inside another collection does the end leave a mark for a colon after it.
  let adjacent : Option Nat :=
    if outer = [] then remnant.adjacentValue else some (pad.dropWhile isBlank ++ next).length
  refine ⟨⟨false, remnant.pairsExplicit, adjacent, remnant.sighted⟩, rfl, ?_⟩
  have ends :
      (left.skipBlanks true >>= fun skipped =>
          .ok ((if skipped.1.inFlow then
              { skipped.1 with adjacentValue := some skipped.1.cursor.left } else
              skipped.1).push mark brackets.endKind)) =
        .ok (flowing ((mark.right 1).past (pad.takeWhile isBlank))
          (pad.dropWhile isBlank ++ next) (⟨mark, brackets.endKind⟩ :: tokens) below outer false
          ⟨false, remnant.pairsExplicit, adjacent, remnant.sighted⟩) := by
    rw [skips]
    cases outer <;> rfl
  simp only [atFlowEnd, forget_flowing dispensable]
  cases brackets <;> exact ends

/-- A closing bracket and the white space after it. -/
theorem leads_closing (brackets : Brackets) {below : Option Candidate}
    (dispensable : Dispensable top) (dispensableBelow : Dispensable below)
    (blank : ∀ c ∈ pad, isSpace c = true) (begins : BeginsToken next) :
    ∃ (kept : Option Candidate) (keyAllowed' : Bool) (after : Remnant), Dispensable kept ∧
      after.pairsExplicit = remnant.pairsExplicit ∧
      (flowing mark (brackets.right :: (pad ++ next)) tokens top (below :: outer) keyAllowed
          remnant).Leads
        (flowing ((mark.right 1).past pad) next (⟨mark, brackets.endKind⟩ :: tokens) kept outer
          keyAllowed' after) := by
  have isFlow (lexer : Lexer) (text : List Char) :
      lexer.readToken brackets.right text = lexer.atFlowEnd brackets.endKind := by
    cases brackets <;> rfl
  let start :=
    flowing mark (brackets.right :: (pad ++ next)) tokens top (below :: outer) keyAllowed remnant
  obtain ⟨left, same, leaves⟩ :
      ∃ left : Remnant, left.pairsExplicit = remnant.pairsExplicit ∧
        start.atFlowEnd brackets.endKind = .ok _ :=
    atFlowEnd_flowing brackets dispensable blank begins
  obtain ⟨kept, fresh, keyAllowed', dispensableKept, leads⟩ :=
    Leads.exists_of_flowing (brackets.ordinary_right rfl (indent_flowing_le _))
      ((isFlow _ _).trans leaves) (by cases brackets <;> nofun)
      (length_dropWhile_lt brackets.right _ _) (isSpace_of_mem_dropWhile blank) begins
      dispensableBelow
  rw [past_blanks] at leads
  exact ⟨kept, keyAllowed', { left with fresh := fresh }, dispensableKept, same, leads⟩

/-! ## Commas -/

theorem atFlowEntry_flowing (dispensable : Dispensable top) (blank : ∀ c ∈ pad, isSpace c = true)
    (begins : BeginsToken next) :
    (flowing mark (',' :: (pad ++ next)) tokens top outer keyAllowed remnant).atFlowEntry =
      .ok (flowing ((mark.right 1).past (pad.takeWhile isBlank)) (pad.dropWhile isBlank ++ next)
        (⟨mark, .flowEntry⟩ :: tokens) none outer true { remnant with fresh := false }) := by
  let passed :=
    flowing (mark.right 1) (pad ++ next) tokens none outer true { remnant with fresh := false }
  have skips : passed.skipBlanks true = .ok _ := skipBlanks_flowing blank begins
  simp only [atFlowEntry, forget_flowing dispensable]
  change (passed.skipBlanks true >>= fun skipped => .ok (skipped.1.push mark .flowEntry)) = _
  rw [skips]
  rfl

/-- A comma and the white space after it. -/
theorem leads_comma (inside : outer ≠ []) (dispensable : Dispensable top)
    (blank : ∀ c ∈ pad, isSpace c = true) (begins : BeginsToken next) :
    ∃ after : Remnant, after.pairsExplicit = remnant.pairsExplicit ∧
      (flowing mark (',' :: (pad ++ next)) tokens top outer keyAllowed remnant).Leads
        (flowing ((mark.right 1).past pad) next (⟨mark, .flowEntry⟩ :: tokens) none outer true
          after) := by
  have isEntry (lexer : Lexer) (text : List Char) :
      lexer.readToken ',' text = lexer.atFlowEntry := rfl
  obtain ⟨fresh, leads⟩ :=
    Leads.of_flowing (ordinary_flowing (by decide) (by decide) (by decide))
      ((isEntry _ _).trans (atFlowEntry_flowing dispensable blank begins)) nofun
      (length_dropWhile_lt ',' _ _) (isSpace_of_mem_dropWhile blank) begins inside
  rw [past_blanks] at leads
  exact ⟨{ remnant with fresh := fresh }, rfl, leads⟩

/-! ## Bare words -/

theorem beginNode_flowing :
    (flowing mark rest tokens top outer keyAllowed remnant).beginNode =
      flowing mark rest tokens (suggested mark rest tokens top keyAllowed remnant) outer false
        remnant := by
  rw [beginNode, suggest_flowing]
  rfl

section

variable {word : List Char}

theorem atPlain_flowing (inside : outer ≠ []) (bareWord : IsBareWord word)
    (blank : ∀ c ∈ pad, isSpace c = true) (ends : EndsValue next) :
    ∃ (fresh : Bool) (sighted : Nat),
      (flowing mark (word ++ (pad ++ next)) tokens top outer keyAllowed remnant).atPlain =
        .ok (flowing (mark.past (word ++ pad)) next
          (⟨mark, .scalar (.ofList word) .plain⟩ :: tokens)
          (suggested mark (word ++ (pad ++ next)) tokens top keyAllowed remnant) outer fresh
          ⟨fresh, remnant.pairsExplicit, remnant.adjacentValue, sighted⟩) := by
  obtain ⟨fresh, sighted, reads⟩ := Plain.read_bare bareWord blank ends mark remnant.fresh
  refine ⟨fresh, sighted, ?_⟩
  let begun :=
    flowing mark (word ++ (pad ++ next)) tokens
      (suggested mark (word ++ (pad ++ next)) tokens top keyAllowed remnant) outer false remnant
  have notShallow : ¬(mark.column : Int) < 0 := by omega
  have isFlow : begun.inFlow = true := inFlow_flowing inside
  have indented : begun.dropInner.indent + 1 = 0 := rfl
  simp only [atPlain, beginNode_flowing]
  change
    (if (begun.inFlow && decide ((mark.column : Int) < begun.dropInner.indent + 1)) = true then _
      else (Plain.read begun.cursor (begun.dropInner.indent + 1) begun.inFlow >>= _)) = _
  rw [indented, isFlow, decide_eq_false notShallow, Bool.and_false, if_neg Bool.false_ne_true]
  erw [reads]
  rfl

theorem exists_ordinary_bareWord (bareWord : IsBareWord word) :
    ∃ (c : Char) (later : List Char),
      (flowing mark (word ++ rest) tokens top outer keyAllowed remnant).Ordinary c later ∧
        (flowing mark (word ++ rest) tokens top outer keyAllowed remnant).readToken c later =
          (flowing mark (word ++ rest) tokens top outer keyAllowed remnant).atPlain := by
  have notBound := (Plain.mayStart_of_isBareWord bareWord rest).1
  rw [atDocumentIndicator, Bool.or_eq_false_iff] at notBound
  cases bareWord with
  | plain alphanumeric bare =>
      exact ⟨_, _, ordinary_of_isAlphanum alphanumeric rfl (indent_flowing_le mark),
        readToken_of_isAlphanum alphanumeric _ _⟩
  | @negative c word alphanumeric bare =>
      refine ⟨'-', c :: (word ++ rest),
        ⟨rfl, by decide, notBound.1, notBound.2, indent_flowing_le mark⟩, ?_⟩
      have notGap : atGap (c :: (word ++ rest)) = false :=
        (beginsToken_of_isAlphanum alphanumeric (word ++ rest)).1
      simp [readToken, notGap]

/-- A bare word and the white space after it, up to the end of the value. -/
theorem leads_bareWord (inside : outer ≠ []) (dispensable : Dispensable top)
    (bareWord : IsBareWord word) (blank : ∀ c ∈ pad, isSpace c = true) (ends : EndsValue next) :
    ∃ (kept : Option Candidate) (keyAllowed' : Bool) (after : Remnant), Dispensable kept ∧
      after.pairsExplicit = remnant.pairsExplicit ∧
      (flowing mark (word ++ (pad ++ next)) tokens top outer keyAllowed remnant).Leads
        (flowing (mark.past (word ++ pad)) next (⟨mark, .scalar (.ofList word) .plain⟩ :: tokens)
          kept outer keyAllowed' after) := by
  let start := flowing mark (word ++ (pad ++ next)) tokens top outer keyAllowed remnant
  obtain ⟨c, later, ordinary, isPlain⟩ :
      ∃ (c : Char) (later : List Char), start.Ordinary c later ∧
        start.readToken c later = start.atPlain :=
    exists_ordinary_bareWord bareWord
  obtain ⟨fresh, sighted, reads⟩ :
      ∃ (fresh : Bool) (sighted : Nat), start.atPlain = .ok _ :=
    atPlain_flowing inside bareWord blank ends
  have shorter : ([] ++ next).length < start.cursor.left := by
    change next.length < (word ++ (pad ++ next)).length
    have someChar := List.length_pos_iff.mpr (Plain.ne_nil_of_isBareWord bareWord)
    rw [List.length_append, List.length_append]
    omega
  obtain ⟨fresh', leads⟩ :=
    Leads.of_flowing ordinary (isPlain.trans reads) (by nofun) shorter (List.forall_mem_nil _)
      ends.beginsToken inside
  exact ⟨_, fresh, ⟨fresh', remnant.pairsExplicit, remnant.adjacentValue, sighted⟩,
    dispensable_suggested dispensable, rfl, leads⟩

end

/-! ## Quoted texts -/

/-- What may follow a quoted text in a flow collection. -/
def FollowsQuoted (next : List Char) : Prop :=
  EndsValue next ∨ ∃ rest : List Char, next = ':' :: rest

theorem FollowsQuoted.beginsToken (follows : FollowsQuoted next) : BeginsToken next := by
  rcases follows with ends | ⟨rest, rfl⟩
  · exact ends.beginsToken
  · exact ⟨rfl, by decide⟩

section

variable {α : Type} {char : α → Char} {spell : α → List Char} {glyphs : List α}

theorem mayFollowQuoted_padding (blank : ∀ c ∈ pad, isSpace c = true)
    (follows : FollowsQuoted next) (line : Nat) (place : Place) :
    mayFollowQuoted true line ⟨place, pad.dropWhile isBlank ++ next⟩ = true := by
  rcases left : pad.dropWhile isBlank with _ | ⟨c, later⟩
  · rcases follows with ends | ⟨rest, rfl⟩
    · cases ends <;> rfl
    · rfl
  · rw [eq_break_of_dropWhile blank left]
    rfl

/-- A quoted text and the white space after it.  A colon that follows needs no gap after it. -/
theorem atQuoted_flowing (inside : outer ≠ [])
    (written : ∀ glyph ∈ glyphs, Quoted.IsWritten (char glyph) (spell glyph))
    (blank : ∀ c ∈ pad, isSpace c = true) (follows : FollowsQuoted next) :
    ∃ fresh : Bool,
      (flowing mark ('"' :: (glyphs.flatMap spell ++ '"' :: (pad ++ next))) tokens top outer
          keyAllowed remnant).atQuoted false =
        .ok (flowing ((mark.right ((glyphs.flatMap spell).length + 2)).past pad) next
          (⟨mark, .scalar (.ofList (glyphs.map char)) .doubleQuoted⟩ :: tokens)
          (suggested mark ('"' :: (glyphs.flatMap spell ++ '"' :: (pad ++ next))) tokens top
            keyAllowed remnant) outer false
          ⟨fresh, remnant.pairsExplicit, some next.length, remnant.sighted⟩) := by
  let text := '"' :: (glyphs.flatMap spell ++ '"' :: (pad ++ next))
  let stop := mark.right ((glyphs.flatMap spell).length + 2)
  let waiting := suggested mark text tokens top keyAllowed remnant
  let blanked :=
    flowing (stop.past (pad.takeWhile isBlank)) (pad.dropWhile isBlank ++ next) tokens waiting outer
      false { remnant with fresh := false }
  have begins := follows.beginsToken
  obtain ⟨fresh, keyAllowed', same, skips⟩ :
      ∃ fresh keyAllowed' : Bool, (outer ≠ [] → keyAllowed' = false) ∧
        blanked.skipToToken = .ok _ :=
    skipToToken_flowing (isSpace_of_mem_dropWhile blank) begins
  rw [same inside, past_blanks] at skips
  refine ⟨fresh, ?_⟩
  let begun := flowing mark text tokens waiting outer false remnant
  have isFlow : begun.inFlow = true := inFlow_flowing inside
  have shallow : begun.indent ≤ 0 := by
    change (-1 : Int) ≤ 0
    decide
  have reads : Quoted.read begun.cursor begun.indent false = .ok _ :=
    Quoted.read_quoted char spell written shallow mark remnant.fresh (pad ++ next)
  simp only [atQuoted, beginNode_flowing]
  change (Quoted.read begun.cursor begun.indent false >>= _) = _
  rw [reads]
  change
    (Cursor.skipBlanks ⟨⟨stop.line, stop.column, (pad ++ next).length, false⟩, pad ++ next⟩ true
      >>= _) = _
  rw [skipBlanks_padding blank begins]
  change
    (if mayFollowQuoted begun.inFlow mark.line ⟨_, pad.dropWhile isBlank ++ next⟩ = true then
      blanked.skipToToken >>= _ else _) = _
  rw [isFlow, mayFollowQuoted_padding blank follows, if_pos rfl, skips]
  rfl

/-- A quoted text and the white space after it, up to what follows. -/
theorem leads_quoted (inside : outer ≠ [])
    (written : ∀ glyph ∈ glyphs, Quoted.IsWritten (char glyph) (spell glyph))
    (blank : ∀ c ∈ pad, isSpace c = true) (follows : FollowsQuoted next) :
    ∃ after : Remnant, after.pairsExplicit = remnant.pairsExplicit ∧
      after.adjacentValue = some next.length ∧
      (flowing mark ('"' :: (glyphs.flatMap spell ++ '"' :: (pad ++ next))) tokens top outer
          keyAllowed remnant).Leads
        (flowing ((mark.right ((glyphs.flatMap spell).length + 2)).past pad) next
          (⟨mark, .scalar (.ofList (glyphs.map char)) .doubleQuoted⟩ :: tokens)
          (suggested mark ('"' :: (glyphs.flatMap spell ++ '"' :: (pad ++ next))) tokens top
            keyAllowed remnant) outer false after) := by
  let text := glyphs.flatMap spell ++ '"' :: (pad ++ next)
  let start := flowing mark ('"' :: text) tokens top outer keyAllowed remnant
  obtain ⟨fresh, reads⟩ : ∃ fresh : Bool, start.atQuoted false = .ok _ :=
    atQuoted_flowing inside written blank follows
  have isQuoted : start.readToken '"' text = start.atQuoted false := rfl
  have ordinary : start.Ordinary '"' text :=
    ordinary_flowing (by decide) (by decide) (by decide)
  have shorter : ([] ++ next).length < start.cursor.left := by
    change next.length < ('"' :: (glyphs.flatMap spell ++ '"' :: (pad ++ next))).length
    simp only [List.length_cons, List.length_append]
    omega
  obtain ⟨fresh', leads⟩ :=
    Leads.of_flowing ordinary (isQuoted.trans reads) (by nofun) shorter (List.forall_mem_nil _)
      follows.beginsToken inside
  exact ⟨⟨fresh', remnant.pairsExplicit, some next.length, remnant.sighted⟩, rfl, rfl, leads⟩

end

/-! ## Colons -/

/-- Whether white space before a text keeps a colon from starting a value: it consists of tabs, and
a name or number follows. -/
def Hinders (pad next : List Char) : Prop :=
  (pad ≠ [] ∧ ∀ c ∈ pad, c = '\t') ∧ nextIs (fun c => c = '-' || isNameChar c) next = true

theorem insert_flowing (later earlier : List Token) (place : Mark) (kind : TokenKind) :
    (flowing mark rest (later ++ earlier) top outer keyAllowed remnant).insert earlier.length place
        kind =
      flowing mark rest (later ++ ⟨place, kind⟩ :: earlier) top outer keyAllowed remnant :=
  congrArg (fun lexer : Lexer => { lexer with candidates := top :: outer })
    (insert_inBlock later earlier place kind)

theorem openBlock_flowing (inside : outer ≠ []) (column number : Nat) (place : Mark)
    (kind : TokenKind) :
    (flowing mark rest tokens top outer keyAllowed remnant).openBlock column number place kind =
      flowing mark rest tokens top outer keyAllowed remnant := by
  rw [openBlock, if_pos (inFlow_flowing inside)]

/-- Tabs do not stop a colon from starting a value, unless they hinder it. -/
theorem hindered_eq_false (blank : ∀ c ∈ pad, isSpace c = true) (begins : BeginsToken next)
    (isTab : nextIs (· = '\t') (pad ++ next) = true) (free : ¬Hinders pad next) :
    (!(pad.takeWhile isBlank).any (· = ' ') &&
      nextIs (fun c => c = '-' || isNameChar c) (pad.dropWhile isBlank ++ next)) = false := by
  rcases left : pad.dropWhile isBlank with _ | ⟨c, later⟩
  · rw [Bool.and_eq_false_iff, Bool.not_eq_false', or_iff_not_imp_left]
    intro noSpace
    have allBlank : pad.takeWhile isBlank = pad := by
      have whole := List.takeWhile_append_dropWhile (p := isBlank) (l := pad)
      rwa [left, List.append_nil] at whole
    have someChar : pad ≠ [] := by
      rintro rfl
      cases next with
      | nil => cases isTab
      | cons c rest => exact (ne_of_not_isSpace begins.1).2.1 (of_decide_eq_true isTab)
    have tabs : ∀ c ∈ pad, c = '\t' := by
      intro c member
      have isBlankHere : isBlank c = true := List.mem_takeWhile_imp (allBlank ▸ member)
      rw [allBlank, List.any_eq_true, not_exists] at noSpace
      have notSpace : c ≠ ' ' := fun isSpace => noSpace c ⟨member, decide_eq_true isSpace⟩
      simpa [isBlank, notSpace] using isBlankHere
    rw [List.nil_append, ← Bool.not_eq_true]
    exact fun named => free ⟨⟨someChar, tabs⟩, named⟩
  · rw [eq_break_of_dropWhile blank left]
    exact Bool.and_false _

section

variable {candidate : Candidate} {token : Token}

theorem acceptKey_flowing (inside : outer ≠ []) (number : candidate.number = tokens.length)
    (colon : Mark) :
    (flowing mark rest (token :: tokens) top outer keyAllowed remnant).acceptKey candidate colon =
      .ok (flowing mark rest (token :: ⟨candidate.place.mark, .key⟩ :: tokens) none outer false
        remnant) := by
  have announced :
      (flowing mark rest (token :: tokens) top outer keyAllowed remnant).insert tokens.length
          candidate.place.mark .key =
        flowing mark rest (token :: ⟨candidate.place.mark, .key⟩ :: tokens) top outer keyAllowed
          remnant :=
    insert_flowing [token] tokens candidate.place.mark .key
  rw [acceptKey_of_not_pairOpen rfl, number, announced, openBlock_flowing inside, deepen_flowing]
  rfl

theorem atValue_flowing (inside : outer ≠ []) (explicit : remnant.pairsExplicit = true)
    (number : candidate.number = tokens.length) (blank : ∀ c ∈ pad, isSpace c = true)
    (begins : BeginsToken next) (free : ¬Hinders pad next) :
    ∃ (stop : Mark) (left : List Char), (∀ c ∈ left, isSpace c = true) ∧
      left.length ≤ pad.length ∧ stop.past left = (mark.right 1).past pad ∧
      (flowing mark (':' :: (pad ++ next)) (token :: tokens) (some candidate) outer keyAllowed
          remnant).atValue =
        .ok (flowing stop (left ++ next)
          (⟨mark, .value⟩ :: token :: ⟨candidate.place.mark, .key⟩ :: tokens) none outer false
          { remnant with fresh := false }) := by
  let start :=
    flowing mark (':' :: (pad ++ next)) (token :: tokens) (some candidate) outer keyAllowed remnant
  let moved :=
    flowing (mark.right 1) (pad ++ next) (token :: tokens) (some candidate) outer keyAllowed
      { remnant with fresh := false }
  have shut : { start.solid 1 with pairOpen := start.inFlow && !start.pairsExplicit } = moved := by
    have isExplicit : start.pairsExplicit = true := explicit
    rw [isExplicit, Bool.not_true, Bool.and_false]
    rfl
  -- Only if a tab follows are blanks passed over here, and then they may hinder the value.
  by_cases isTab : nextIs (· = '\t') (pad ++ next) = true
  · refine ⟨(mark.right 1).past (pad.takeWhile isBlank), pad.dropWhile isBlank,
      isSpace_of_mem_dropWhile blank, (List.dropWhile_sublist _).length_le, past_blanks _ _, ?_⟩
    have skips : moved.skipBlanks true = .ok _ := skipBlanks_flowing blank begins
    have notHindered :
        (!(pad.takeWhile isBlank).any (· = ' ') &&
          nextIs (fun c => c = '-' || isNameChar c) (pad.dropWhile isBlank ++ next)) = false :=
      hindered_eq_false blank begins isTab free
    change start.atValue = _
    simp only [atValue, shut]
    have tabHere : nextIs (· = '\t') (start.solid 1).cursor.rest = true := isTab
    rw [if_pos tabHere, skips]
    change
      (if (!(pad.takeWhile isBlank).any (· = ' ') &&
          nextIs _ (pad.dropWhile isBlank ++ next)) = true then _ else (_ >>= _)) = _
    rw [notHindered, if_neg Bool.false_ne_true]
    change
      (Lexer.acceptKey (flowing _ (pad.dropWhile isBlank ++ next) (token :: tokens) (some candidate)
        outer keyAllowed { remnant with fresh := false }) candidate mark >>= fun lexer =>
          .ok (lexer.push mark .value)) = _
    rw [acceptKey_flowing inside number]
    rfl
  · refine ⟨mark.right 1, pad, blank, Nat.le_refl _, rfl, ?_⟩
    change start.atValue = _
    simp only [atValue, shut]
    have noTab : ¬nextIs (· = '\t') (start.solid 1).cursor.rest = true := isTab
    rw [if_neg noTab]
    change (moved.acceptKey candidate mark >>= fun lexer => .ok (lexer.push mark .value)) = _
    rw [acceptKey_flowing inside number]
    rfl

/-- A colon after a quoted key, and the white space after it. -/
theorem leads_colon_flowing (inside : outer ≠ []) (explicit : remnant.pairsExplicit = true)
    (adjacent : remnant.adjacentValue = some (':' :: (pad ++ next)).length)
    (number : candidate.number = tokens.length) (blank : ∀ c ∈ pad, isSpace c = true)
    (begins : BeginsToken next) (free : ¬Hinders pad next) :
    ∃ after : Remnant, after.pairsExplicit = true ∧
      (flowing mark (':' :: (pad ++ next)) (token :: tokens) (some candidate) outer keyAllowed
          remnant).Leads
        (flowing ((mark.right 1).past pad) next
          (⟨mark, .value⟩ :: token :: ⟨candidate.place.mark, .key⟩ :: tokens) none outer false
          after) := by
  let start :=
    flowing mark (':' :: (pad ++ next)) (token :: tokens) (some candidate) outer keyAllowed remnant
  obtain ⟨stop, left, blankLeft, shorter, same, reads⟩ :
      ∃ (stop : Mark) (left : List Char), (∀ c ∈ left, isSpace c = true) ∧
        left.length ≤ pad.length ∧ stop.past left = (mark.right 1).past pad ∧
        start.atValue = .ok _ :=
    atValue_flowing inside explicit number blank begins free
  have isValue : start.readToken ':' (pad ++ next) = start.atValue := by
    have isFlow : start.inFlow = true := inFlow_flowing inside
    have isAdjacent : start.adjacentValue = some start.cursor.left := adjacent
    simp [readToken, isFlow, isAdjacent]
  have ordinary : start.Ordinary ':' (pad ++ next) :=
    ordinary_flowing (by decide) (by decide) (by decide)
  have fewer : (left ++ next).length < start.cursor.left := by
    change (left ++ next).length < (':' :: (pad ++ next)).length
    rw [List.length_append, List.length_cons, List.length_append]
    omega
  obtain ⟨fresh, leads⟩ :=
    Leads.of_flowing ordinary (isValue.trans reads) (fun isEnd => TokenKind.noConfusion isEnd) fewer
      blankLeft begins inside
  rw [same] at leads
  exact ⟨{ remnant with fresh := fresh }, explicit, leads⟩

end

/-! ## The whole text -/

theorem atEnd_flowing (dispensable : Dispensable top) (stop : Mark) :
    ∃ last : Mark,
      (flowing stop [] tokens top [] keyAllowed remnant).atEnd =
        .ok (flowing last [] (⟨last, .streamEnd⟩ :: tokens) none [] false remnant) := by
  have noneRequired : ([top].any fun candidate => candidate.any (·.required)) = false := by
    rcases top with _ | candidate
    · rfl
    · simp [dispensable candidate rfl]
  have ends (last : Mark) :
      ((flowing last [] tokens none [] keyAllowed remnant).closeAll >>= fun lexer =>
          .ok (lexer.push last .streamEnd)) =
        .ok (flowing last [] (⟨last, .streamEnd⟩ :: tokens) none [] false remnant) :=
    rfl
  by_cases isFirst : stop.column = 0
  · refine ⟨stop, ?_⟩
    have cursor : (flowing stop [] tokens top [] keyAllowed remnant).cursor.column = 0 := isFirst
    rw [atEnd, if_pos cursor]
    change (if ([top].any fun candidate => candidate.any (·.required)) = true then _ else _) = _
    rw [noneRequired]
    exact ends stop
  · refine ⟨⟨stop.line + 1, 0⟩, ?_⟩
    have cursor : ¬(flowing stop [] tokens top [] keyAllowed remnant).cursor.column = 0 := isFirst
    rw [atEnd, if_neg cursor]
    change (if ([top].any fun candidate => candidate.any (·.required)) = true then _ else _) = _
    rw [noneRequired]
    exact ends ⟨stop.line + 1, 0⟩

/-- The round that reads the end of the text, outside all collections. -/
theorem ofLexer_of_settles_flowing {lexer : Lexer} {stop : Mark} (dispensable : Dispensable top)
    (settles : lexer.Settles (flowing stop [] tokens top [] keyAllowed remnant)) :
    ∃ last : Mark, Tokens.ofLexer lexer = ⟨(⟨last, .streamEnd⟩ :: tokens).reverse, none⟩ := by
  obtain ⟨skipped, kept, toToken, expired, settled, _⟩ := settles
  obtain ⟨last, ends⟩ :
      ∃ last : Mark, (flowing stop [] tokens top [] keyAllowed remnant).atEnd = .ok _ :=
    atEnd_flowing dispensable stop
  let final := flowing last [] (⟨last, .streamEnd⟩ :: tokens) none [] false remnant
  have advanced : lexer.advance = .ok final := by
    simp only [advance, toToken, expired, bind, Except.bind, ← settled]
    exact ends
  have stays : final.expire = .ok final := rfl
  have atEnd : final.isAtEnd = true := rfl
  refine ⟨last, ?_⟩
  rw [Tokens.ofLexer.eq_def lexer]
  simp only [advanced, stays, atEnd, Bool.not_true, Bool.false_and, Bool.false_eq_true, if_false]
  rfl

/-- Tokens are read from the start of a text without blocks to its end. -/
theorem ofText_of_leads_flowing (blank : ∀ c ∈ pad, isSpace c = true) (begins : BeginsToken next)
    (leads : ∀ (top : Option Candidate) (keyAllowed : Bool) (remnant : Remnant), Dispensable top →
      ∃ (stop : Mark) (kept : Option Candidate) (keyAllowed' : Bool) (after : Remnant),
        Dispensable kept ∧
          (flowing ((Mark.mk 1 0).past pad) next [] top [] keyAllowed remnant).Leads
            (flowing stop [] tokens kept [] keyAllowed' after)) :
    ∃ last : Mark,
      Tokens.ofText (pad ++ next) = ⟨(⟨last, .streamEnd⟩ :: tokens).reverse, none⟩ := by
  let first :=
    flowing ⟨1, 0⟩ (pad ++ next) [] none [] true ⟨true, false, none, (pad ++ next).length⟩
  obtain ⟨top, fresh, keyAllowed, dispensable, settles⟩ :
      ∃ (top : Option Candidate) (fresh keyAllowed : Bool), Dispensable top ∧
        first.Settles
          (flowing ((Mark.mk 1 0).past pad) next [] top [] keyAllowed
            ⟨fresh, false, none, (pad ++ next).length⟩) :=
    exists_settles_flowing dispensable_none blank begins
  obtain ⟨stop, kept, keyAllowed', after, dispensableKept, toEnd⟩ :=
    leads top keyAllowed ⟨fresh, false, none, (pad ++ next).length⟩ dispensable
  obtain ⟨last, rounds, settlesAtEnd⟩ := toEnd first settles
  have isFirst : Lexer.start (pad ++ next) = first := rfl
  rw [Tokens.ofText, isFirst, ofLexer_of_rounds rounds]
  exact ofLexer_of_settles_flowing dispensableKept settlesAtEnd

end Lexer
end Yaml
end FieldLine
