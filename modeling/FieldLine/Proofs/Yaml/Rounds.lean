import FieldLine.Proofs.Yaml.Words
import FieldLine.Yaml.Lexer.Tokens
import Mathlib.Logic.Relation

/-!
# Rounds of reading tokens

Tokens are read in rounds.  A round first settles: it moves to the next token, gives up a
candidate for which it is too late, and closes the blocks that are deeper than the token.  Then it
reads that token.  What follows is therefore said about settled states, and about which of them
lead to which.
-/

namespace FieldLine
namespace Yaml
namespace Lexer

/-! ## Rounds -/

/-- A round that reads a token and leaves more to read. -/
def Round (lexer next : Lexer) : Prop :=
  ∃ read : Lexer,
    lexer.advance = .ok read ∧ read.expire = .ok next ∧ next.isAtEnd = false ∧
      next.cursor.left < lexer.cursor.left

theorem ofLexer_of_round {lexer next : Lexer} (round : Round lexer next) :
    Tokens.ofLexer lexer = Tokens.ofLexer next := by
  obtain ⟨read, advanced, expired, notEnd, shorter⟩ := round
  rw [Tokens.ofLexer.eq_def lexer]
  simp [advanced, expired, notEnd, shorter]

theorem ofLexer_of_rounds {lexer next : Lexer} (rounds : Relation.ReflTransGen Round lexer next) :
    Tokens.ofLexer lexer = Tokens.ofLexer next := by
  induction rounds with
  | refl => rfl
  | tail _ round inductionHypothesis =>
      exact inductionHypothesis.trans (ofLexer_of_round round)

/-- What the first part of a round, before the token is read, comes to. -/
def Settles (lexer settled : Lexer) : Prop :=
  ∃ skipped kept : Lexer,
    lexer.skipToToken = .ok skipped ∧ skipped.expire = .ok kept ∧
      settled = kept.closeTo kept.cursor.column ∧ settled.cursor.left ≤ lexer.cursor.left

/-- From whatever settles as the first state, rounds lead to something that settles as the
second. -/
def Leads (settled next : Lexer) : Prop :=
  ∀ lexer : Lexer, lexer.Settles settled →
    ∃ after : Lexer, Relation.ReflTransGen Round lexer after ∧ after.Settles next

theorem Leads.trans {first second third : Lexer} (earlier : first.Leads second)
    (later : second.Leads third) : first.Leads third := by
  intro lexer settles
  obtain ⟨middle, toMiddle, middleSettles⟩ := earlier lexer settles
  obtain ⟨after, toAfter, afterSettles⟩ := later middle middleSettles
  exact ⟨after, toMiddle.trans toAfter, afterSettles⟩

/-- The text at a settled state is not a line that bounds documents, and its token is indented
enough. -/
structure Ordinary (settled : Lexer) (c : Char) (rest : List Char) : Prop where
  text : settled.cursor.rest = c :: rest
  notDirective : c ≠ '%'
  notStart : atTriple '-' (c :: rest) = false
  notEnd : atTriple '.' (c :: rest) = false
  deep : settled.indent ≤ (settled.cursor.column : Int)

theorem advance_of_ordinary {lexer settled : Lexer} {c : Char} {rest : List Char}
    (settles : lexer.Settles settled) (ordinary : settled.Ordinary c rest) :
    lexer.advance = settled.readToken c rest := by
  obtain ⟨skipped, kept, toToken, expired, rfl, _⟩ := settles
  obtain ⟨text, notDirective, notStart, notEnd, deep⟩ := ordinary
  have notShallow :
      ¬ ((kept.closeTo kept.cursor.column).cursor.column : Int) <
        (kept.closeTo kept.cursor.column).indent := by
    omega
  simp only [advance, toToken, expired, bind, Except.bind, text]
  simp [notDirective, notStart, notEnd, notShallow]

theorem Leads.of_readToken {settled read after next : Lexer} {c : Char} {rest : List Char}
    (ordinary : settled.Ordinary c rest) (token : settled.readToken c rest = .ok read)
    (expired : read.expire = .ok after) (notEnd : after.isAtEnd = false)
    (shorter : after.cursor.left < settled.cursor.left) (settles : after.Settles next) :
    settled.Leads next := by
  intro lexer lexerSettles
  have advanced := advance_of_ordinary lexerSettles ordinary
  obtain ⟨_, _, _, _, _, skipsNothing⟩ := lexerSettles
  have round : Round lexer after :=
    ⟨read, advanced.trans token, expired, notEnd, by omega⟩
  exact ⟨after, .single round, settles⟩

/-! ## Moving to the next token -/

section Skipping

variable {indented : Option Int} {inFlow keyAllowed fresh : Bool} {line column left : Nat}
  {rest : List Char}

theorem skipFrom_token (begins : BeginsToken rest) :
    skipFrom indented inFlow rest ⟨line, column, left, fresh⟩ false keyAllowed =
      .ok (⟨⟨line, column, left, fresh⟩, rest⟩, keyAllowed) := by
  cases rest with
  | nil => rfl
  | cons c rest =>
      obtain ⟨notSpace, notComment⟩ := begins
      obtain ⟨notBlank, notTab, notBreak⟩ := ne_of_not_isSpace notSpace
      rw [skipFrom]
      simp [notBlank, notTab, notBreak, notComment]

theorem skipFrom_spaces (count : Nat) :
    skipFrom indented inFlow (List.replicate count ' ' ++ rest)
        ⟨line, column, count + left, fresh⟩ false keyAllowed =
      skipFrom indented inFlow rest ⟨line, column + count, left, fresh⟩ false keyAllowed := by
  induction count generalizing column with
  | zero => simp
  | succ count inductionHypothesis =>
      have lefts : count + 1 + left - 1 = count + left := by omega
      have columns : column + (count + 1) = column + 1 + count := by omega
      rw [List.replicate_succ, List.cons_append, skipFrom]
      simp only [Place.blank, lefts, columns]
      simp [inductionHypothesis]

theorem skipFrom_space (begins : BeginsToken rest) :
    skipFrom indented inFlow (' ' :: rest) ⟨line, column, 1 + left, fresh⟩ false keyAllowed =
      .ok (⟨⟨line, column + 1, left, fresh⟩, rest⟩, keyAllowed) := by
  have moved :
      skipFrom indented inFlow (' ' :: rest) ⟨line, column, 1 + left, fresh⟩ false keyAllowed =
        skipFrom indented inFlow rest ⟨line, column + 1, left, fresh⟩ false keyAllowed :=
    skipFrom_spaces 1
  rw [moved, skipFrom_token begins]

theorem skipFrom_line (begins : BeginsToken rest) (count : Nat) :
    skipFrom indented false ('\n' :: (List.replicate count ' ' ++ rest))
        ⟨line, column, 1 + (count + left), fresh⟩ false keyAllowed =
      .ok (⟨⟨line + 1, count, left, true⟩, rest⟩, true) := by
  have lefts : 1 + (count + left) - 1 = count + left := by omega
  rw [skipFrom]
  simp only [Place.newline, lefts]
  simp [skipFrom_spaces, skipFrom_token begins]

end Skipping

/-! ## States between block tokens -/

/-- What of a state does not matter between block tokens. -/
structure Remnant where
  fresh : Bool
  pairsExplicit : Bool
  adjacentValue : Option Nat
  sighted : Nat

/-- A state in a block, at a mark, with what matters there. -/
def inBlock (mark : Mark) (rest : List Char) (levels : List Level) (tokens : List Token)
    (candidate : Option Candidate) (keyAllowed : Bool) (remnant : Remnant) : Lexer where
  cursor := ⟨⟨mark.line, mark.column, rest.length, remnant.fresh⟩, rest⟩
  tokens := tokens
  count := tokens.length
  levels := levels
  candidates := [candidate]
  keyAllowed := keyAllowed
  pairsExplicit := remnant.pairsExplicit
  adjacentValue := remnant.adjacentValue
  sighted := remnant.sighted

/-- The state in which the levels that are deeper than the mark have been closed. -/
def closed (mark : Mark) (rest : List Char) (levels : List Level) (tokens : List Token)
    (keyAllowed : Bool) (remnant : Remnant) : Lexer :=
  inBlock mark rest (closeLevels mark mark.column levels).1
    ((closeLevels mark mark.column levels).2 ++ tokens) none keyAllowed remnant

variable {mark : Mark} {rest : List Char} {levels : List Level} {tokens : List Token}
  {keyAllowed : Bool} {remnant : Remnant}

theorem closeTo_inBlock (candidate : Option Candidate) :
    (inBlock mark rest levels tokens candidate keyAllowed remnant).closeTo mark.column =
      inBlock mark rest (closeLevels mark mark.column levels).1
        ((closeLevels mark mark.column levels).2 ++ tokens) candidate keyAllowed remnant := by
  simp [inBlock, closeTo, inFlow, Place.mark, Nat.add_comm]

/-- A state at a token settles where it is, once a candidate for which it is too late has been
given up. -/
theorem settles_inBlock {waiting kept : Option Candidate} (begins : BeginsToken rest)
    (expired : (inBlock mark rest levels tokens waiting keyAllowed remnant).expire =
      .ok (inBlock mark rest levels tokens kept keyAllowed remnant)) :
    (inBlock mark rest levels tokens waiting keyAllowed remnant).Settles
      (inBlock mark rest (closeLevels mark mark.column levels).1
        ((closeLevels mark mark.column levels).2 ++ tokens) kept keyAllowed remnant) := by
  refine ⟨inBlock mark rest levels tokens waiting keyAllowed remnant, _, ?_, expired,
    (closeTo_inBlock kept).symm, Nat.le_refl _⟩
  simp only [skipToToken, inBlock, inFlow, skipFrom_token begins, bind, Except.bind]
  rfl

theorem settles_closed (begins : BeginsToken rest) :
    (inBlock mark rest levels tokens none keyAllowed remnant).Settles
      (closed mark rest levels tokens keyAllowed remnant) :=
  settles_inBlock begins rfl

theorem settles_unchanged {waiting : Option Candidate} (begins : BeginsToken rest)
    (noEnd : closeLevels mark mark.column levels = (levels, []))
    (kept : (inBlock mark rest levels tokens waiting keyAllowed remnant).expire =
      .ok (inBlock mark rest levels tokens waiting keyAllowed remnant)) :
    (inBlock mark rest levels tokens waiting keyAllowed remnant).Settles
      (inBlock mark rest levels tokens waiting keyAllowed remnant) := by
  have settles := settles_inBlock begins kept
  rw [noEnd] at settles
  exact settles

theorem closed_of_noEnd (noEnd : closeLevels mark mark.column levels = (levels, [])) :
    closed mark rest levels tokens keyAllowed remnant =
      inBlock mark rest levels tokens none keyAllowed remnant := by
  rw [closed, noEnd, List.nil_append]

end Lexer
end Yaml
end FieldLine
