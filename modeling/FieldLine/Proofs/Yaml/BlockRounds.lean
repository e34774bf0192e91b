import FieldLine.Proofs.Yaml.BlockTokens

/-!
# Rounds over block collections

The rounds that read a key with its colon, a hyphen, or an empty flow collection, up to the token
after it, and the round that reads the end of the text.
-/

namespace FieldLine
namespace Yaml
namespace Lexer

variable {column parent : Nat} {outer around levels : List Level} {opening : Bool}
  {mark stop : Mark} {text rest next word : List Char} {tokens : List Token}
  {keyAllowed : Bool} {remnant : Remnant}

/-! ## From one token to the next -/

/-- How a token is separated from the text `next` of the one after it, which starts at a mark: by
one space, or by the end of the line and indentation.  Only a new line allows a key again. -/
inductive Separates (mark : Mark) (next : List Char) : List Char → Mark → Bool → Prop where
  | space : Separates mark next (' ' :: next) (mark.right 1) false
  | line {stop : Mark} : stop.line = mark.line + 1 →
      Separates mark next ('\n' :: (List.replicate stop.column ' ' ++ next)) stop true

theorem Separates.atGap {allowed : Bool} (separates : Separates mark next text stop allowed) :
    atGap text = true := by
  cases separates <;> rfl

theorem Separates.not_tab {allowed : Bool} (separates : Separates mark next text stop allowed) :
    nextIs (· = '\t') text = false := by
  cases separates <;> rfl

theorem settles_line (begins : BeginsToken next) (below : stop.line = mark.line + 1)
    {waiting : Option Candidate}
    (expired : ∀ after : Remnant,
      (inBlock stop next levels tokens waiting true after).expire =
        .ok (inBlock stop next levels tokens none true after)) :
    ∃ after : Remnant,
      (inBlock mark ('\n' :: (List.replicate stop.column ' ' ++ next)) levels tokens waiting
          keyAllowed remnant).Settles
        (closed stop next levels tokens true after) := by
  have length :
      ('\n' :: (List.replicate stop.column ' ' ++ next)).length =
        1 + (stop.column + next.length) := by
    simp
    omega
  refine ⟨{ remnant with fresh := true },
    inBlock stop next levels tokens waiting true { remnant with fresh := true },
    inBlock stop next levels tokens none true { remnant with fresh := true },
    ?_, expired _, ?_, ?_⟩
  · simp only [skipToToken, inBlock, inFlow, length, skipFrom_line begins, bind, Except.bind]
    rw [below]
    rfl
  · exact (closeTo_inBlock none).symm
  · change next.length ≤ ('\n' :: (List.replicate stop.column ' ' ++ next)).length
    rw [length]
    omega

theorem Separates.settles {allowed : Bool}
    (separates : Separates mark next text stop allowed) (begins : BeginsToken next)
    (levels : List Level) (tokens : List Token) (remnant : Remnant) :
    ∃ after : Remnant,
      (inBlock mark text levels tokens none false remnant).Settles
        (closed stop next levels tokens allowed after) := by
  cases separates with
  | line below => exact settles_line begins below fun _ => rfl
  | space =>
      refine ⟨remnant,
        inBlock (mark.right 1) next levels tokens none false remnant,
        inBlock (mark.right 1) next levels tokens none false remnant,
        ?_, rfl, ?_, Nat.le_succ _⟩
      · have length : (' ' :: next).length = 1 + next.length := by
          rw [List.length_cons, Nat.add_comm]
        simp only [skipToToken, inBlock, inFlow, length, skipFrom_space begins, bind,
          Except.bind]
        rfl
      · exact (closeTo_inBlock none).symm

/-! ## Keys -/

theorem leads_label (opens : Opens mark.column levels around opening) (someChar : word ≠ [])
    (alphanumeric : ∀ c ∈ word, c.isAlphanum = true) (short : word.length ≤ 1024)
    (gap : atGap text = true) (tokens : List Token) (remnant : Remnant) :
    ∃ (candidate : Candidate) (after : Remnant),
      candidate.place.mark = mark ∧ candidate.number = tokens.length ∧
        (inBlock mark (word ++ ':' :: text) levels tokens none true remnant).Leads
          (inBlock (mark.right word.length) (':' :: text)
            (levels.dropWhile fun level => !level.isBlock)
            (⟨mark, .scalar (.ofList word) .plain⟩ :: tokens) (some candidate) false after) := by
  let solid := levels.dropWhile fun level => !level.isBlock
  let start := inBlock mark (word ++ ':' :: text) solid tokens none false remnant
  obtain ⟨sighted, reading⟩ :
      ∃ sighted : Nat, Plain.read start.cursor (start.indent + 1) false = .ok _ := by
    change
      ∃ sighted : Nat,
        Plain.read ⟨⟨_, _, (word ++ ':' :: text).length, _⟩, word ++ ':' :: text⟩ _ false = _
    rw [List.length_append]
    exact
      Plain.read_before_colon someChar alphanumeric gap mark.line mark.column
        (':' :: text).length remnant.fresh
  have plain := atPlain_inBlock (mark.right word.length) tokens true rfl reading
  have near : (word ++ ':' :: text).length ≤ (':' :: text).length + 1024 := by
    rw [List.length_append]
    omega
  have noEnd :=
    opens.dropInner.closeLevels_eq (Nat.le_add_right _ word.length) (mark.right word.length)
  refine
    ⟨⟨⟨mark.line, mark.column, (word ++ ':' :: text).length, remnant.fresh⟩, tokens.length,
        levels.head? = some ⟨mark.column, true⟩⟩,
      ⟨false, remnant.pairsExplicit, remnant.adjacentValue, sighted⟩, rfl, rfl, ?_⟩
  cases word with
  | nil => exact absurd rfl someChar
  | cons c word =>
      have first := alphanumeric c List.mem_cons_self
      have shorter : (':' :: text).length < (c :: word ++ ':' :: text).length := by
        simp only [List.length_append, List.length_cons]
        omega
      exact
        .of_readToken
          (ordinary_of_isAlphanum first rfl opens.indent_le)
          ((readToken_of_isAlphanum first _ _).trans plain)
          (expire_of_line_eq rfl near) rfl shorter
          (settles_unchanged ⟨rfl, by decide⟩ noEnd (expire_of_line_eq rfl near))

theorem leads_colon {key : Mark} {candidate : Candidate} {allowed : Bool}
    (opens : Opens key.column levels around opening) (place : candidate.place.mark = key)
    (number : candidate.number = tokens.length) (after : key.column ≤ mark.column)
    (separates : Separates (mark.right 1) next text stop allowed) (begins : BeginsToken next)
    (deep : key.column < stop.column) (token : Token) :
    ∃ later : Remnant,
      (inBlock mark (':' :: text) levels (token :: tokens) (some candidate) keyAllowed
          remnant).Leads
        (inBlock stop next (⟨key.column + 1, false⟩ :: ⟨key.column, true⟩ :: around)
          (⟨mark, .value⟩ :: token :: ⟨key, .key⟩ ::
            (opened opening mark .blockMappingStart ++ tokens)) none allowed later) := by
  let start :=
    inBlock mark (':' :: text) levels (token :: tokens) (some candidate) keyAllowed remnant
  obtain ⟨later, settles⟩ :=
    separates.settles begins (⟨key.column + 1, false⟩ :: ⟨key.column, true⟩ :: around)
      (⟨mark, .value⟩ :: token :: ⟨key, .key⟩ ::
        (opened opening mark .blockMappingStart ++ tokens))
      { remnant with fresh := false }
  have inner : (Level.mk (key.column + 1) false).column ≤ stop.column := deep
  rw [closed_of_noEnd (closeLevels_of_le inner stop)] at settles
  have indented : start.indent ≤ (key.column : Int) := opens.indent_le
  have ordinary : start.Ordinary ':' text :=
    ordinary_of_ne rfl (by decide) (by decide) (by decide)
      (Int.le_trans indented (Int.ofNat_le.mpr after))
  have isValue : start.readToken ':' text = start.atValue := by
    simp [readToken, separates.atGap]
  have read :=
    isValue.trans
      (atValue_inBlock separates.not_tab (acceptKey_inBlock opens place number token mark))
  exact ⟨later, .of_readToken ordinary read rfl rfl (Nat.lt_succ_self _) settles⟩

/-- A key with its colon, up to its value. -/
theorem leads_key {allowed : Bool} (opens : Opens mark.column levels around opening)
    (someChar : word ≠ []) (alphanumeric : ∀ c ∈ word, c.isAlphanum = true)
    (short : word.length ≤ 1024)
    (separates : Separates (mark.right (word.length + 1)) next text stop allowed)
    (begins : BeginsToken next) (deep : mark.column < stop.column) (tokens : List Token)
    (remnant : Remnant) :
    ∃ after : Remnant,
      (inBlock mark (word ++ ':' :: text) levels tokens none true remnant).Leads
        (inBlock stop next (⟨mark.column + 1, false⟩ :: ⟨mark.column, true⟩ :: around)
          (⟨mark.right word.length, .value⟩ :: ⟨mark, .scalar (.ofList word) .plain⟩ ::
            ⟨mark, .key⟩ ::
              (opened opening (mark.right word.length) .blockMappingStart ++ tokens))
          none allowed after) := by
  obtain ⟨candidate, reached, place, number, toColon⟩ :=
    leads_label opens someChar alphanumeric short separates.atGap tokens remnant
  have afterColon : Separates ((mark.right word.length).right 1) next text stop allowed :=
    separates
  obtain ⟨after, toValue⟩ :=
    leads_colon opens.dropInner place number (Nat.le_add_right _ word.length) afterColon begins
      deep _
  exact ⟨after, toColon.trans toValue⟩

/-! ## Hyphens -/

section Blanks

variable {c : Char} {waiting : Option Candidate}

theorem skipBlanks_nothing {lexer : Lexer} (text : lexer.cursor.rest = c :: rest)
    (notBlank : isBlank c = false) (notComment : c ≠ '#') (tabs : Bool) :
    lexer.skipBlanks tabs = .ok (lexer, ⟨false, false⟩) := by
  obtain ⟨⟨place, characters⟩, tokens, count, levels, candidates⟩ := lexer
  subst text
  obtain ⟨notSpace, notTab⟩ := ne_of_not_isBlank notBlank
  simp [skipBlanks, Cursor.skipBlanks, Cursor.skipRun, nextIs, notSpace, notTab, notComment,
    bind, Except.bind, pure, Except.pure]

theorem skipBlanks_space (notBlank : isBlank c = false) (notComment : c ≠ '#') :
    (inBlock mark (' ' :: c :: rest) levels tokens waiting keyAllowed remnant).skipBlanks
        true =
      .ok (inBlock (mark.right 1) (c :: rest) levels tokens waiting keyAllowed remnant,
        ⟨true, false⟩) := by
  obtain ⟨notSpace, notTab⟩ := ne_of_not_isBlank notBlank
  simp [inBlock, skipBlanks, Cursor.skipBlanks, Cursor.skipRun, nextIs, notSpace, notTab,
    notComment, bind, Except.bind, pure, Except.pure, Mark.right]

theorem Beneath.deepen_inBlock (beneath : Beneath column parent outer levels) :
    ∃ deeper : List Level,
      Beneath column parent outer deeper ∧
        (inBlock mark rest levels tokens waiting keyAllowed remnant).deepen =
          inBlock mark rest deeper tokens waiting keyAllowed remnant := by
  cases beneath with
  | bare below =>
      exact
        ⟨⟨parent + 1, false⟩ :: ⟨parent, true⟩ :: outer, .inner (Nat.lt_succ_self _) below, rfl⟩
  | @inner between below notAfter =>
      exact ⟨⟨between, false⟩ :: ⟨parent, true⟩ :: outer, .inner below notAfter, rfl⟩

end Blanks

/-- A hyphen, a space and the first character of the element.  Before the bracket of a flow
collection there is an inner level. -/
theorem atBlockEntry_inBlock {c : Char} (opens : Opens mark.column levels around opening)
    (notBlank : isBlank c = false) (notComment : c ≠ '#') (rest : List Char)
    (tokens : List Token) (remnant : Remnant) :
    ∃ (deeper : List Level) (after : Remnant),
      Beneath (mark.column + 2) mark.column around deeper ∧
        (inBlock mark ('-' :: ' ' :: c :: rest) levels tokens none true remnant).atBlockEntry =
          .ok (inBlock (mark.right 2) (c :: rest) deeper
            (⟨mark.right 2, .blockEntry⟩ ::
              (opened opening mark .blockSequenceStart ++ tokens)) none true after) := by
  let start := inBlock mark ('-' :: ' ' :: c :: rest) levels tokens none true remnant
  let inner : List Level := ⟨mark.column, true⟩ :: around
  let later := opened opening mark .blockSequenceStart ++ tokens
  let after : Remnant := { remnant with fresh := false }
  have opensBlock :
      (start.solid 1).openBlock start.cursor.mark.column start.count start.cursor.mark
          .blockSequenceStart =
        inBlock (mark.right 1) (' ' :: c :: rest) inner later none true after := by
    have moved :
        start.solid 1 =
          inBlock (mark.right 1) (' ' :: c :: rest) levels ([] ++ tokens) none true after :=
      rfl
    rw [moved]
    exact openBlock_inBlock opens [] tokens mark .blockSequenceStart
  have bare : Beneath (mark.column + 2) mark.column around inner := .bare (by omega)
  -- Before a bracket the hyphen adds an inner level, before any other character it does not.
  obtain ⟨deeper, beneath, deepened⟩ :
      ∃ deeper : List Level, Beneath (mark.column + 2) mark.column around deeper ∧
        (if nextIs (fun c => c = '\n' || isFlow c) (c :: rest) then
            (inBlock (mark.right 2) (c :: rest) inner later none true after).deepen
          else inBlock (mark.right 2) (c :: rest) inner later none true after) =
          inBlock (mark.right 2) (c :: rest) deeper later none true after := by
    split
    · exact bare.deepen_inBlock
    · exact ⟨inner, bare, rfl⟩
  refine ⟨deeper, after, beneath, ?_⟩
  change start.atBlockEntry = _
  have keyAllowedHere : start.keyAllowed = true := rfl
  have block : start.inFlow = false := rfl
  have noMore :
      (inBlock ((mark.right 1).right 1) (c :: rest) inner later none true after).skipBlanks
          false = .ok (_, ⟨false, false⟩) :=
    skipBlanks_nothing rfl notBlank notComment false
  simp only [atBlockEntry, opensBlock, keyAllowedHere, block, skipBlanks_space notBlank notComment,
    noMore, bind, Except.bind, Bool.not_true, Bool.false_eq_true,
    Bool.false_and, if_false]
  erw [deepened]
  rfl

/-- A hyphen, up to its element on the same line. -/
theorem leads_hyphen (opens : Opens mark.column levels around opening)
    (begins : BeginsToken rest) (someChar : rest ≠ []) (tokens : List Token)
    (remnant : Remnant) :
    ∃ (deeper : List Level) (after : Remnant),
      Beneath (mark.column + 2) mark.column around deeper ∧
        (inBlock mark ('-' :: ' ' :: rest) levels tokens none true remnant).Leads
          (inBlock (mark.right 2) rest deeper
            (⟨mark.right 2, .blockEntry⟩ ::
              (opened opening mark .blockSequenceStart ++ tokens)) none true after) := by
  cases rest with
  | nil => exact absurd rfl someChar
  | cons c rest =>
      have notBlank : isBlank c = false := by
        have notSpace := begins.1
        rw [isSpace, Bool.or_eq_false_iff] at notSpace
        exact notSpace.1
      let start := inBlock mark ('-' :: ' ' :: c :: rest) levels tokens none true remnant
      obtain ⟨deeper, after, beneath, entry⟩ :=
        atBlockEntry_inBlock opens notBlank begins.2 rest tokens remnant
      have ordinary : start.Ordinary '-' (' ' :: c :: rest) :=
        ⟨rfl, by decide, rfl, rfl, opens.indent_le⟩
      have shorter : (c :: rest).length < ('-' :: ' ' :: c :: rest).length := by
        simp
      have noEnd : closeLevels (mark.right 2) (mark.right 2).column deeper = (deeper, []) :=
        (Opens.beneath beneath).closeLevels_eq (Nat.le_refl _) _
      exact
        ⟨deeper, after, beneath,
          .of_readToken ordinary entry rfl rfl shorter (settles_unchanged begins noEnd rfl)⟩

/-! ## Empty flow collections -/

inductive Brackets where
  | square
  | curly

namespace Brackets

def left : Brackets → Char
  | square => '['
  | curly => '\x7b'

def right : Brackets → Char
  | square => ']'
  | curly => '\x7d'

def startKind : Brackets → TokenKind
  | square => .flowSequenceStart
  | curly => .flowMappingStart

def endKind : Brackets → TokenKind
  | square => .flowSequenceEnd
  | curly => .flowMappingEnd

theorem left_ne_break (brackets : Brackets) : brackets.left ≠ '\n' := by
  cases brackets <;> decide

theorem right_ne_break (brackets : Brackets) : brackets.right ≠ '\n' := by
  cases brackets <;> decide

theorem beginsToken_left (brackets : Brackets) (rest : List Char) :
    BeginsToken (brackets.left :: rest) := by
  cases brackets <;> exact ⟨rfl, by decide⟩

theorem beginsToken_right (brackets : Brackets) (rest : List Char) :
    BeginsToken (brackets.right :: rest) := by
  cases brackets <;> exact ⟨rfl, by decide⟩

theorem ordinary_left (brackets : Brackets) {lexer : Lexer}
    (text : lexer.cursor.rest = brackets.left :: rest)
    (deep : lexer.indent ≤ (lexer.cursor.column : Int)) :
    lexer.Ordinary brackets.left rest := by
  cases brackets <;> exact ordinary_of_ne text (by decide) (by decide) (by decide) deep

theorem ordinary_right (brackets : Brackets) {lexer : Lexer}
    (text : lexer.cursor.rest = brackets.right :: rest)
    (deep : lexer.indent ≤ (lexer.cursor.column : Int)) :
    lexer.Ordinary brackets.right rest := by
  cases brackets <;> exact ordinary_of_ne text (by decide) (by decide) (by decide) deep

end Brackets

/-- The state inside a flow collection after which a candidate waits. -/
def inEmptyFlow (mark : Mark) (rest : List Char) (levels : List Level) (tokens : List Token)
    (waiting : Option Candidate) (remnant : Remnant) : Lexer :=
  { inBlock mark rest levels tokens none true remnant with candidates := [none, waiting] }

theorem settles_inEmptyFlow {waiting : Option Candidate} (begins : BeginsToken rest) :
    (inEmptyFlow mark rest levels tokens waiting remnant).Settles
      (inEmptyFlow mark rest levels tokens waiting remnant) := by
  refine ⟨inEmptyFlow mark rest levels tokens waiting remnant, _, ?_, rfl, rfl, Nat.le_refl _⟩
  simp only [skipToToken, inEmptyFlow, inBlock, inFlow, skipFrom_token begins, bind, Except.bind]
  rfl

/-- An opening bracket before its closing one leaves what may be a key waiting outside. -/
theorem atFlowStart_inBlock (brackets : Brackets)
    (beneath : Beneath mark.column parent outer levels) (rest : List Char) (tokens : List Token)
    (keyAllowed : Bool) (remnant : Remnant) :
    ∃ (deeper : List Level) (after : Remnant),
      Beneath mark.column parent outer deeper ∧
        (inBlock mark (brackets.left :: brackets.right :: rest) levels tokens none keyAllowed
            remnant).atFlowStart brackets.startKind =
          .ok (inEmptyFlow (mark.right 1) (brackets.right :: rest) deeper
            (⟨mark, brackets.startKind⟩ :: tokens)
            (candidateAt mark (brackets.left :: brackets.right :: rest) levels tokens keyAllowed
              remnant) after) := by
  let start :=
    inBlock mark (brackets.left :: brackets.right :: rest) levels tokens none keyAllowed remnant
  let waiting :=
    candidateAt mark (brackets.left :: brackets.right :: rest) levels tokens keyAllowed remnant
  obtain ⟨deeper, beneathDeeper, deepened⟩ :
      ∃ deeper : List Level, Beneath mark.column parent outer deeper ∧
        start.suggest.deepen =
          inBlock mark (brackets.left :: brackets.right :: rest) deeper tokens waiting keyAllowed
            remnant := by
    rw [suggest_inBlock]
    exact beneath.deepen_inBlock
  -- Only a brace changes how pairs are announced, and the remnant takes that up.
  let pairsExplicit : Bool :=
    match brackets with
    | .square => remnant.pairsExplicit
    | .curly => true
  let after : Remnant := ⟨false, pairsExplicit, remnant.adjacentValue, remnant.sighted⟩
  let entered := inEmptyFlow (mark.right 1) (brackets.right :: rest) deeper tokens waiting after
  have noMore : entered.skipBlanks true = .ok (entered, ⟨false, false⟩) :=
    skipBlanks_nothing rfl (by cases brackets <;> rfl) (by cases brackets <;> decide) true
  have moved :
      (entered.skipBlanks true >>= fun skipped =>
        .ok (skipped.1.push mark brackets.startKind)) =
        .ok (entered.push mark brackets.startKind) := by
    rw [noMore]
    rfl
  refine ⟨deeper, after, beneathDeeper, ?_⟩
  change start.atFlowStart brackets.startKind = _
  simp only [atFlowStart, deepened]
  change (if maxFlowDepth < 1 then _ else _) = _
  rw [if_neg (by decide)]
  cases brackets <;> exact moved

theorem leads_left (brackets : Brackets) (beneath : Beneath mark.column parent outer levels)
    (rest : List Char) (tokens : List Token) (keyAllowed : Bool) (remnant : Remnant) :
    ∃ (deeper : List Level) (after : Remnant),
      Beneath mark.column parent outer deeper ∧
        (inBlock mark (brackets.left :: brackets.right :: rest) levels tokens none keyAllowed
            remnant).Leads
          (inEmptyFlow (mark.right 1) (brackets.right :: rest) deeper
            (⟨mark, brackets.startKind⟩ :: tokens)
            (candidateAt mark (brackets.left :: brackets.right :: rest) levels tokens keyAllowed
              remnant) after) := by
  let start :=
    inBlock mark (brackets.left :: brackets.right :: rest) levels tokens none keyAllowed remnant
  obtain ⟨deeper, after, beneathDeeper, enters⟩ :=
    atFlowStart_inBlock brackets beneath rest tokens keyAllowed remnant
  have isFlow :
      start.readToken brackets.left (brackets.right :: rest) =
        start.atFlowStart brackets.startKind := by
    cases brackets <;> rfl
  have ordinary : start.Ordinary brackets.left (brackets.right :: rest) :=
    brackets.ordinary_left rfl (Opens.beneath beneath).indent_le
  have begins : BeginsToken (brackets.right :: rest) := by
    cases brackets <;> exact ⟨rfl, by decide⟩
  exact
    ⟨deeper, after, beneathDeeper,
      .of_readToken ordinary (isFlow.trans enters) rfl (by cases brackets <;> rfl)
        (Nat.lt_succ_self _) (settles_inEmptyFlow begins)⟩

theorem atFlowEnd_inEmptyFlow (brackets : Brackets) {waiting : Option Candidate} :
    ∃ after : Remnant,
      (inEmptyFlow mark (brackets.right :: '\n' :: rest) levels tokens waiting
          remnant).atFlowEnd brackets.endKind =
        .ok (inBlock (mark.right 1) ('\n' :: rest) levels
          (⟨mark, brackets.endKind⟩ :: tokens) waiting false after) := by
  let after : Remnant := { remnant with fresh := false }
  let left := inBlock (mark.right 1) ('\n' :: rest) levels tokens waiting false after
  have noMore : left.skipBlanks true = .ok (left, ⟨false, false⟩) :=
    skipBlanks_nothing rfl rfl (by decide) true
  have moved :
      (left.skipBlanks true >>= fun skipped => .ok (skipped.1.push mark brackets.endKind)) =
        .ok (left.push mark brackets.endKind) := by
    rw [noMore]
    rfl
  refine ⟨after, ?_⟩
  cases brackets <;> exact moved

/-- A closing bracket at the end of its line, up to the next line, where whatever waited before
the brackets is given up. -/
theorem leads_right (brackets : Brackets) {waiting : Option Candidate}
    (beneath : Beneath column parent outer levels) (notAfter : column ≤ mark.column)
    (begins : BeginsToken next) (below : stop.line = mark.line + 1)
    (shallow : stop.column ≤ parent)
    (kept : ∀ (later : List Token) (after : Remnant),
      (inBlock (mark.right 1) ('\n' :: (List.replicate stop.column ' ' ++ next)) levels later
          waiting false after).expire =
        .ok (inBlock (mark.right 1) ('\n' :: (List.replicate stop.column ' ' ++ next)) levels
          later waiting false after))
    (expired : ∀ (later : List Token) (after : Remnant),
      (inBlock stop next levels later waiting true after).expire =
        .ok (inBlock stop next levels later none true after)) :
    ∃ after : Remnant,
      (inEmptyFlow mark
          (brackets.right :: '\n' :: (List.replicate stop.column ' ' ++ next)) levels tokens
          waiting remnant).Leads
        (closed stop next (⟨parent, true⟩ :: outer) (⟨mark, brackets.endKind⟩ :: tokens) true
          after) := by
  let line := '\n' :: (List.replicate stop.column ' ' ++ next)
  let start := inEmptyFlow mark (brackets.right :: line) levels tokens waiting remnant
  have indented : start.indent ≤ (column : Int) := (Opens.beneath beneath).indent_le
  have ordinary : start.Ordinary brackets.right line :=
    brackets.ordinary_right rfl (Int.le_trans indented (Int.ofNat_le.mpr notAfter))
  obtain ⟨left, leaves⟩ :
      ∃ left : Remnant,
        start.atFlowEnd brackets.endKind =
          .ok (inBlock (mark.right 1) line levels (⟨mark, brackets.endKind⟩ :: tokens) waiting
            false left) :=
    atFlowEnd_inEmptyFlow brackets
  have isFlow :
      start.readToken brackets.right line = start.atFlowEnd brackets.endKind := by
    cases brackets <;> rfl
  obtain ⟨after, settles⟩ :=
    settles_line begins below (expired (⟨mark, brackets.endKind⟩ :: tokens))
  rw [closed, beneath.closeLevels_eq shallow] at settles
  exact
    ⟨after, .of_readToken ordinary (isFlow.trans leaves) (kept _ _) (by cases brackets <;> rfl)
      (Nat.lt_succ_self _) settles⟩

/-- An empty flow collection at the end of its line, up to the next line. -/
theorem leads_empty (brackets : Brackets) (beneath : Beneath mark.column parent outer levels)
    (begins : BeginsToken next) (below : stop.line = mark.line + 1)
    (shallow : stop.column ≤ parent) :
    ∃ after : Remnant,
      (inBlock mark
          (brackets.left :: brackets.right ::
            '\n' :: (List.replicate stop.column ' ' ++ next)) levels tokens none keyAllowed
          remnant).Leads
        (closed stop next (⟨parent, true⟩ :: outer)
          (⟨mark.right 1, brackets.endKind⟩ :: ⟨mark, brackets.startKind⟩ :: tokens) true
          after) := by
  obtain ⟨deeper, entered, beneathDeeper, toRight⟩ :=
    leads_left brackets beneath ('\n' :: (List.replicate stop.column ' ' ++ next)) tokens
      keyAllowed remnant
  let line := '\n' :: (List.replicate stop.column ' ' ++ next)
  let waiting :=
    candidateAt mark (brackets.left :: brackets.right :: line) levels tokens keyAllowed remnant
  have near : (brackets.left :: brackets.right :: line).length ≤ line.length + 1024 := by
    simp
  have same : mark.line = ((mark.right 1).right 1).line := rfl
  have later : mark.line < stop.line := by omega
  have kept : ∀ (others : List Token) (after : Remnant),
      (inBlock ((mark.right 1).right 1) line deeper others waiting false after).expire =
        .ok (inBlock ((mark.right 1).right 1) line deeper others waiting false after) :=
    fun others after => keep_candidateAt same near deeper others false after
  have expired : ∀ (others : List Token) (after : Remnant),
      (inBlock stop next deeper others waiting true after).expire =
        .ok (inBlock stop next deeper others none true after) :=
    fun others after => beneath.expire_candidateAt later deeper others true after
  have place : mark.column ≤ (mark.right 1).column := Nat.le_succ _
  obtain ⟨after, toNext⟩ :=
    leads_right brackets beneathDeeper place begins below shallow kept expired
  exact ⟨after, toRight.trans toNext⟩

/-! ## The whole text -/

/-- The round that reads the end of the text closes the outermost block. -/
theorem ofLexer_of_settles_end {lexer : Lexer} {line : Nat}
    (settles : lexer.Settles (inBlock ⟨line, 0⟩ [] [⟨0, true⟩] tokens none true remnant)) :
    Tokens.ofLexer lexer =
      ⟨(⟨⟨line, 0⟩, .streamEnd⟩ :: ⟨⟨line, 0⟩, .blockEnd⟩ :: tokens).reverse, none⟩ := by
  obtain ⟨skipped, kept, toToken, expired, settled, _⟩ := settles
  let final :=
    inBlock ⟨line, 0⟩ [] [] (⟨⟨line, 0⟩, .streamEnd⟩ :: ⟨⟨line, 0⟩, .blockEnd⟩ :: tokens) none
      false remnant
  have advanced : lexer.advance = .ok final := by
    simp only [advance, toToken, expired, bind, Except.bind, ← settled]
    rfl
  have stays : final.expire = .ok final := rfl
  have atEnd : final.isAtEnd = true := rfl
  rw [Tokens.ofLexer.eq_def lexer]
  simp only [advanced, stays, atEnd, Bool.not_true, Bool.false_and, Bool.false_eq_true,
    if_false]
  rfl

/-- Tokens are read from the start of a text to its end. -/
theorem ofText_of_leads {line : Nat} (begins : BeginsToken text)
    (leads : (inBlock ⟨1, 0⟩ text [] [] none true ⟨true, false, none, text.length⟩).Leads
      (inBlock ⟨line, 0⟩ [] [⟨0, true⟩] tokens none true remnant)) :
    Tokens.ofText text =
      ⟨(⟨⟨line, 0⟩, .streamEnd⟩ :: ⟨⟨line, 0⟩, .blockEnd⟩ :: tokens).reverse, none⟩ := by
  let first := inBlock ⟨1, 0⟩ text [] [] none true ⟨true, false, none, text.length⟩
  have isFirst : Lexer.start text = first := rfl
  have settles : first.Settles first := settles_unchanged begins rfl rfl
  obtain ⟨after, rounds, settlesAtEnd⟩ := leads first settles
  rw [Tokens.ofText, isFirst, ofLexer_of_rounds rounds]
  exact ofLexer_of_settles_end settlesAtEnd

end Lexer
end Yaml
end FieldLine
