import FieldLine.Proofs.Yaml.Rounds

/-!
# Tokens of a block

How the tokens of block collections are read: a word that fills the rest of its line, a key with
its colon, a hyphen, and an empty flow collection.  Each lemma leads from the state at such a
token to the state at the next one.
-/

namespace FieldLine
namespace Yaml

def Mark.right (mark : Mark) (count : Nat) : Mark :=
  ⟨mark.line, mark.column + count⟩

namespace Lexer

/-! ## Levels of indentation -/

/-- Levels at which a node may start on a column inside the block on the column `parent`: that
block is innermost, or there is an inner level between the two. -/
inductive Beneath (column parent : Nat) (outer : List Level) : List Level → Prop where
  | bare : parent < column → Beneath column parent outer (⟨parent, true⟩ :: outer)
  | inner {between : Nat} : parent < between → between ≤ column →
      Beneath column parent outer (⟨between, false⟩ :: ⟨parent, true⟩ :: outer)

/-- Levels at which a token on a column belongs to a block on that column, with the levels around
that block, and whether the token opens it. -/
inductive Opens (column : Nat) : List Level → List Level → Bool → Prop where
  | root : Opens column [] [] true
  | beneath {parent : Nat} {outer levels : List Level} : Beneath column parent outer levels →
      Opens column levels (⟨parent, true⟩ :: outer) true
  | again {around : List Level} : Opens column (⟨column, true⟩ :: around) around false

variable {column parent : Nat} {outer around levels : List Level} {opening : Bool}

theorem Beneath.parent_lt (beneath : Beneath column parent outer levels) : parent < column := by
  cases beneath with
  | bare deeper => exact deeper
  | inner deeper notAfter => omega

theorem Beneath.dropInner (beneath : Beneath column parent outer levels) :
    (levels.dropWhile fun level => !level.isBlock) = ⟨parent, true⟩ :: outer := by
  cases beneath <;> simp

theorem closeLevels_of_le {level : Level} {deep : Nat} (notDeeper : level.column ≤ deep)
    (mark : Mark) : closeLevels mark deep (level :: outer) = (level :: outer, []) := by
  rw [closeLevels, if_neg (by omega)]

theorem closeLevels_inner {between shallow : Nat} (deeper : shallow < between) (mark : Mark) :
    closeLevels mark shallow (⟨between, false⟩ :: outer) = closeLevels mark shallow outer := by
  have isDeeper : (shallow : Int) < (between : Int) := by omega
  rw [closeLevels, if_pos isDeeper]
  simp

theorem closeLevels_block {shallow : Nat} (deeper : shallow < column) (mark : Mark) :
    closeLevels mark shallow (⟨column, true⟩ :: outer) =
      ((closeLevels mark shallow outer).1,
        (closeLevels mark shallow outer).2 ++ [⟨mark, .blockEnd⟩]) := by
  have isDeeper : (shallow : Int) < (column : Int) := by omega
  rw [closeLevels, if_pos isDeeper]
  simp

/-- Closing down to a column that is not deeper than the block closes an inner level silently. -/
theorem Beneath.closeLevels_eq (beneath : Beneath column parent outer levels) {shallow : Nat}
    (isShallow : shallow ≤ parent) (mark : Mark) :
    closeLevels mark shallow levels = closeLevels mark shallow (⟨parent, true⟩ :: outer) := by
  cases beneath with
  | bare => rfl
  | inner deeper => exact closeLevels_inner (by omega) mark

theorem Opens.closeLevels_eq (opens : Opens column levels around opening) {deep : Nat}
    (isDeep : column ≤ deep) (mark : Mark) : closeLevels mark deep levels = (levels, []) := by
  cases opens with
  | root => rfl
  | again => exact closeLevels_of_le isDeep mark
  | beneath position =>
      cases position with
      | bare deeper => exact closeLevels_of_le (Nat.le_trans (Nat.le_of_lt deeper) isDeep) mark
      | inner _ notAfter => exact closeLevels_of_le (Nat.le_trans notAfter isDeep) mark

theorem Opens.dropInner (opens : Opens column levels around opening) :
    Opens column (levels.dropWhile fun level => !level.isBlock) around opening := by
  cases opens with
  | root => exact .root
  | again => exact .again
  | beneath position =>
      rw [position.dropInner]
      exact .beneath (.bare position.parent_lt)

theorem Opens.indent_le {lexer : Lexer} (opens : Opens column lexer.levels around opening) :
    lexer.indent ≤ (column : Int) := by
  obtain ⟨cursor, tokens, count, levels, candidates⟩ := lexer
  cases opens with
  | root =>
      have deeper : (-1 : Int) ≤ (column : Int) := by omega
      exact deeper
  | again => exact Int.le_refl _
  | beneath position =>
      cases position with
      | bare deeper => exact Int.ofNat_le.mpr (Nat.le_of_lt deeper)
      | inner _ notAfter => exact Int.ofNat_le.mpr notAfter

/-- Opening a block where a token belongs to it adds its token only if the block is new. -/
theorem openBlock_of_opens {lexer : Lexer} (block : lexer.inFlow = false)
    (opens : Opens column lexer.levels around opening) (number : Nat) (mark : Mark)
    (kind : TokenKind) :
    lexer.openBlock column number mark kind =
      { (if opening then lexer.insert number mark kind else lexer) with
        levels := ⟨column, true⟩ :: around } := by
  obtain ⟨cursor, tokens, count, levels, candidates⟩ := lexer
  cases opens with
  | root =>
      have deeper : (-1 : Int) < (column : Int) := by omega
      simp [openBlock, block, indent, insert, deeper]
  | again => simp [openBlock, block, indent]
  | beneath position =>
      have deeper := position.parent_lt
      cases position with
      | bare => simp [openBlock, block, indent, insert, deeper]
      | inner _ notAfter => simp [openBlock, block, indent, insert, notAfter, deeper]

/-! ## Candidates for keys -/

variable {mark stop : Mark} {rest next word : List Char} {tokens : List Token}
  {keyAllowed : Bool} {remnant : Remnant} {candidate : Candidate}

/-- The candidate that a node at a mark becomes, if a key may start there. -/
def candidateAt (mark : Mark) (rest : List Char) (levels : List Level) (tokens : List Token)
    (keyAllowed : Bool) (remnant : Remnant) : Option Candidate :=
  if keyAllowed then
    some
      ⟨⟨mark.line, mark.column, rest.length, remnant.fresh⟩, tokens.length,
        levels.head? = some ⟨mark.column, true⟩⟩
  else
    none

theorem suggest_inBlock :
    (inBlock mark rest levels tokens none keyAllowed remnant).suggest =
      inBlock mark rest levels tokens (candidateAt mark rest levels tokens keyAllowed remnant)
        keyAllowed remnant := by
  cases keyAllowed with
  | false => rfl
  | true =>
      simp only [suggest, inBlock, candidateAt, inFlow, if_true, Bool.not_false, Bool.true_and]
      congr

theorem Beneath.candidate_not_required (beneath : Beneath mark.column parent outer levels)
    (isCandidate : candidateAt mark rest levels tokens keyAllowed remnant = some candidate) :
    candidate.required = false := by
  have deeper := beneath.parent_lt
  unfold candidateAt at isCandidate
  split at isCandidate
  · cases isCandidate
    cases beneath with
    | bare =>
        simp
        omega
    | inner => simp
  · cases isCandidate

theorem expire_of_line_lt (earlier : candidate.place.line < mark.line)
    (notRequired : candidate.required = false) :
    (inBlock mark rest levels tokens (some candidate) keyAllowed remnant).expire =
      .ok (inBlock mark rest levels tokens none keyAllowed remnant) := by
  simp [expire, inBlock, isStale, earlier, notRequired]

theorem expire_of_line_eq (same : candidate.place.line = mark.line)
    (near : candidate.place.left ≤ rest.length + 1024) :
    (inBlock mark rest levels tokens (some candidate) keyAllowed remnant).expire =
      .ok (inBlock mark rest levels tokens (some candidate) keyAllowed remnant) := by
  have notLate : ¬ rest.length + 1024 < candidate.place.left := by omega
  simp [expire, inBlock, isStale, same, notLate]

theorem candidateAt_place (isCandidate :
    candidateAt mark rest levels tokens keyAllowed remnant = some candidate) :
    candidate.place = ⟨mark.line, mark.column, rest.length, remnant.fresh⟩ := by
  unfold candidateAt at isCandidate
  split at isCandidate
  · cases isCandidate
    rfl
  · cases isCandidate

/-- Whatever waits at a mark is given up on a later line. -/
theorem Beneath.expire_candidateAt (beneath : Beneath mark.column parent outer levels)
    (below : mark.line < stop.line) (others : List Level) (later : List Token) (allowed : Bool)
    (after : Remnant) :
    (inBlock stop next others later (candidateAt mark rest levels tokens keyAllowed remnant)
        allowed after).expire =
      .ok (inBlock stop next others later none allowed after) := by
  rcases isCandidate : candidateAt mark rest levels tokens keyAllowed remnant with
    _ | candidate
  · rfl
  · have earlier : candidate.place.line < stop.line := by
      rw [candidateAt_place isCandidate]
      exact below
    exact expire_of_line_lt earlier (beneath.candidate_not_required isCandidate)

/-- Whatever waits at a mark is kept for 1024 characters of its line. -/
theorem keep_candidateAt (same : mark.line = stop.line)
    (near : rest.length ≤ next.length + 1024) (others : List Level) (later : List Token)
    (allowed : Bool) (after : Remnant) :
    (inBlock stop next others later (candidateAt mark rest levels tokens keyAllowed remnant)
        allowed after).expire =
      .ok (inBlock stop next others later
        (candidateAt mark rest levels tokens keyAllowed remnant) allowed after) := by
  rcases isCandidate : candidateAt mark rest levels tokens keyAllowed remnant with
    _ | candidate
  · rfl
  · have place := candidateAt_place isCandidate
    have sameLine : candidate.place.line = stop.line := by
      rw [place]
      exact same
    have nearHere : candidate.place.left ≤ next.length + 1024 := by
      rw [place]
      exact near
    exact expire_of_line_eq sameLine nearHere

/-! ## Words -/

theorem readToken_of_isAlphanum {c : Char} (alphanumeric : c.isAlphanum = true) (lexer : Lexer)
    (rest : List Char) : lexer.readToken c rest = lexer.atPlain := by
  unfold readToken
  -- A character with a case of its own is neither a letter nor a digit.
  split
  all_goals first
    | rfl
    | exact absurd alphanumeric (by decide)

theorem ordinary_of_ne {lexer : Lexer} {c : Char} {rest : List Char}
    (text : lexer.cursor.rest = c :: rest) (notDirective : c ≠ '%') (notHyphen : c ≠ '-')
    (notPoint : c ≠ '.') (deep : lexer.indent ≤ (lexer.cursor.column : Int)) :
    lexer.Ordinary c rest :=
  ⟨text, notDirective, atTriple_of_ne notHyphen rest, atTriple_of_ne notPoint rest, deep⟩

theorem ordinary_of_isAlphanum {lexer : Lexer} {c : Char} {rest : List Char}
    (alphanumeric : c.isAlphanum = true) (text : lexer.cursor.rest = c :: rest)
    (deep : lexer.indent ≤ (lexer.cursor.column : Int)) : lexer.Ordinary c rest :=
  ordinary_of_ne text (ne_of_isAlphanum alphanumeric '%' rfl)
    (ne_of_isAlphanum alphanumeric '-' rfl) (ne_of_isAlphanum alphanumeric '.' rfl) deep

theorem atPlain_inBlock {text after : List Char} {fresh : Bool} {sighted : Nat}
    {solid : List Level} (reached : Mark) (tokens : List Token) (keyAllowed : Bool)
    (isSolid : (levels.dropWhile fun level => !level.isBlock) = solid)
    (reading :
      Plain.read ⟨⟨mark.line, mark.column, rest.length, remnant.fresh⟩, rest⟩
          ((inBlock mark rest solid tokens none false remnant).indent + 1) false =
        .ok ⟨text, ⟨⟨reached.line, reached.column, after.length, fresh⟩, after⟩, sighted⟩) :
    (inBlock mark rest levels tokens none keyAllowed remnant).atPlain =
      .ok (inBlock reached after solid (⟨mark, .scalar (.ofList text) .plain⟩ :: tokens)
        (candidateAt mark rest levels tokens keyAllowed remnant) fresh
        ⟨fresh, remnant.pairsExplicit, remnant.adjacentValue, sighted⟩) := by
  subst isSolid
  simp only [atPlain, beginNode, suggest_inBlock]
  change (Plain.read _ _ _ >>= _) = _
  erw [reading]
  rfl

/-- A word at the end of its line is a scalar.  A candidate that it leaves is given up on the
next line. -/
theorem leads_word (beneath : Beneath mark.column parent outer levels) (someChar : word ≠ [])
    (alphanumeric : ∀ c ∈ word, c.isAlphanum = true) (begins : BeginsToken next)
    (below : stop.line = mark.line + 1) (shallow : stop.column ≤ parent) :
    ∃ after : Remnant,
      (inBlock mark (word ++ '\n' :: (List.replicate stop.column ' ' ++ next)) levels tokens
          none keyAllowed remnant).Leads
        (closed stop next (⟨parent, true⟩ :: outer)
          (⟨mark, .scalar (.ofList word) .plain⟩ :: tokens) true after) := by
  have isShallow : (stop.column : Int) < (parent : Int) + 1 := by omega
  obtain ⟨sighted, reading⟩ :=
    Plain.read_before_line someChar alphanumeric begins isShallow mark.line mark.column
      next.length remnant.fresh
  have length :
      word.length + (1 + (stop.column + next.length)) =
        (word ++ '\n' :: (List.replicate stop.column ' ' ++ next)).length := by
    simp
    omega
  rw [length, ← below] at reading
  have plain := atPlain_inBlock stop tokens keyAllowed beneath.dropInner reading
  refine ⟨⟨true, remnant.pairsExplicit, remnant.adjacentValue, sighted⟩, ?_⟩
  cases word with
  | nil => exact absurd rfl someChar
  | cons c word =>
      have first := alphanumeric c List.mem_cons_self
      have shorter :
          next.length <
            (c :: word ++ '\n' :: (List.replicate stop.column ' ' ++ next)).length := by
        rw [← length, List.length_cons]
        omega
      exact
        .of_readToken
          (ordinary_of_isAlphanum first rfl (Opens.beneath beneath).indent_le)
          ((readToken_of_isAlphanum first _ _).trans plain)
          (beneath.expire_candidateAt (by omega) _ _ _ _) rfl shorter
          (settles_closed begins)

/-! ## Keys -/

/-- The token that opens a block, if it is opened. -/
def opened (opening : Bool) (mark : Mark) (kind : TokenKind) : List Token :=
  if opening then [⟨mark, kind⟩] else []

theorem opened_again (mark : Mark) (kind : TokenKind) : opened false mark kind = [] :=
  rfl

theorem insert_inBlock {waiting : Option Candidate} (later earlier : List Token) (place : Mark)
    (kind : TokenKind) :
    (inBlock mark rest levels (later ++ earlier) waiting keyAllowed remnant).insert
        earlier.length place kind =
      inBlock mark rest levels (later ++ ⟨place, kind⟩ :: earlier) waiting keyAllowed remnant := by
  have count : (later ++ earlier).length - earlier.length = later.length := by
    rw [List.length_append]
    omega
  have total : (later ++ earlier).length + 1 = (later ++ ⟨place, kind⟩ :: earlier).length := by
    simp only [List.length_append, List.length_cons]
    omega
  simp only [insert, inBlock, count, List.take_left, List.drop_left, total]

theorem openBlock_inBlock {waiting : Option Candidate}
    (opens : Opens column levels around opening) (later earlier : List Token) (place : Mark)
    (kind : TokenKind) :
    (inBlock mark rest levels (later ++ earlier) waiting keyAllowed remnant).openBlock column
        earlier.length place kind =
      inBlock mark rest (⟨column, true⟩ :: around)
        (later ++ (opened opening place kind ++ earlier)) waiting keyAllowed remnant := by
  rw [openBlock_of_opens rfl opens, insert_inBlock]
  cases opening <;> rfl

/-- Accepting a key goes on with no candidate. -/
def afterKey (lexer : Lexer) : Lexer :=
  { lexer with candidates := none :: lexer.candidates.tail, keyAllowed := false }

theorem acceptKey_of_not_pairOpen {lexer : Lexer} (shut : lexer.pairOpen = false)
    (candidate : Candidate) (colon : Mark) :
    lexer.acceptKey candidate colon =
      .ok ((lexer.insert candidate.number candidate.place.mark .key).openBlock
        candidate.place.mark.column candidate.number colon .blockMappingStart).deepen.afterKey := by
  have stillShut :
      (lexer.insert candidate.number candidate.place.mark .key).pairOpen = false := shut
  simp [acceptKey, stillShut, afterKey, pure, Except.pure]

/-- A candidate after which one token was read becomes a key, announced before that token. -/
theorem acceptKey_inBlock {key : Mark} {waiting : Option Candidate}
    (opens : Opens key.column levels around opening) (place : candidate.place.mark = key)
    (number : candidate.number = tokens.length) (token : Token) (colon : Mark) :
    (inBlock mark rest levels (token :: tokens) waiting keyAllowed remnant).acceptKey
        candidate colon =
      .ok (inBlock mark rest (⟨key.column + 1, false⟩ :: ⟨key.column, true⟩ :: around)
        (token :: ⟨key, .key⟩ :: (opened opening colon .blockMappingStart ++ tokens)) none false
        remnant) := by
  have announced :
      (inBlock mark rest levels (token :: tokens) waiting keyAllowed remnant).insert
          tokens.length key .key =
        inBlock mark rest levels ([token, ⟨key, .key⟩] ++ tokens) waiting keyAllowed remnant :=
    insert_inBlock [token] tokens key .key
  rw [acceptKey_of_not_pairOpen rfl, place, number, announced, openBlock_inBlock opens]
  rfl

theorem atValue_inBlock {accepted : Lexer} (notTab : nextIs (· = '\t') rest = false)
    (isKey :
      (inBlock (mark.right 1) rest levels tokens (some candidate) keyAllowed
        { remnant with fresh := false }).acceptKey candidate mark = .ok accepted) :
    (inBlock mark (':' :: rest) levels tokens (some candidate) keyAllowed remnant).atValue =
      .ok (accepted.push mark .value) := by
  have noTab :
      nextIs (· = '\t')
          ((inBlock mark (':' :: rest) levels tokens (some candidate) keyAllowed remnant).solid
            1).cursor.rest =
        false :=
    notTab
  simp only [atValue, noTab, Bool.false_eq_true, if_false]
  change
    ((inBlock (mark.right 1) rest levels tokens (some candidate) keyAllowed
        { remnant with fresh := false }).acceptKey candidate mark >>= fun lexer =>
      .ok (lexer.push mark .value)) = _
  rw [isKey]
  rfl

end Lexer
end Yaml
end FieldLine
