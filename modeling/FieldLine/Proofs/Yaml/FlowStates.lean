import FieldLine.Proofs.Yaml.BlockTokens
import FieldLine.Proofs.Yaml.FlowScalars
import Mathlib.Data.List.TakeWhile

/-!
# States in flow collections

In a document without blocks there is no indentation to mind.  White space between tokens only
moves the cursor, and inside flow collections it does not change what may follow.
-/

namespace FieldLine
namespace Yaml
namespace Lexer

variable {mark : Mark} {pad next rest : List Char} {tokens : List Token}
  {top : Option Candidate} {outer : List (Option Candidate)} {keyAllowed : Bool}
  {remnant : Remnant}

/-! ## States -/

/-- A state in a document without blocks, at a mark.  The first candidate belongs to the innermost
flow collection, and the others to those around it and to the document. -/
def flowing (mark : Mark) (rest : List Char) (tokens : List Token) (top : Option Candidate)
    (outer : List (Option Candidate)) (keyAllowed : Bool) (remnant : Remnant) : Lexer :=
  { inBlock mark rest [] tokens none keyAllowed remnant with candidates := top :: outer }

/-- Whether a candidate, if there is one, can be given up. -/
def Dispensable (top : Option Candidate) : Prop :=
  ∀ candidate : Candidate, top = some candidate → candidate.required = false

theorem dispensable_none : Dispensable none :=
  nofun

theorem inFlow_flowing (inside : outer ≠ []) :
    (flowing mark rest tokens top outer keyAllowed remnant).inFlow = true := by
  cases outer with
  | nil => exact absurd rfl inside
  | cons => rfl

theorem closeTo_flowing (column : Int) :
    (flowing mark rest tokens top outer keyAllowed remnant).closeTo column =
      flowing mark rest tokens top outer keyAllowed remnant := by
  cases outer <;> rfl

theorem deepen_flowing :
    (flowing mark rest tokens top outer keyAllowed remnant).deepen =
      flowing mark rest tokens top outer keyAllowed remnant := by
  cases outer <;> rfl

theorem expire_flowing (inside : outer ≠ []) :
    (flowing mark rest tokens top outer keyAllowed remnant).expire =
      .ok (flowing mark rest tokens top outer keyAllowed remnant) := by
  cases outer with
  | nil => exact absurd rfl inside
  | cons => cases top <;> rfl

/-- Outside all flow collections a candidate may be given up. -/
theorem exists_expire_flowing (dispensable : Dispensable top) :
    ∃ kept : Option Candidate, Dispensable kept ∧
      (flowing mark rest tokens top outer keyAllowed remnant).expire =
        .ok (flowing mark rest tokens kept outer keyAllowed remnant) := by
  by_cases inside : outer = []
  · subst inside
    rcases top with _ | candidate
    · exact ⟨none, dispensable_none, rfl⟩
    · have notRequired := dispensable candidate rfl
      by_cases stale :
        (flowing mark rest tokens (some candidate) [] keyAllowed remnant).isStale candidate = true
      · refine ⟨none, dispensable_none, ?_⟩
        change (if _ then _ else _) = _
        rw [stale, notRequired]
        rfl
      · refine ⟨some candidate, dispensable, ?_⟩
        change (if _ then _ else _) = _
        rw [Bool.not_eq_true] at stale
        rw [stale]
        rfl
  · exact ⟨top, dispensable, expire_flowing inside⟩

theorem forget_flowing (dispensable : Dispensable top) :
    (flowing mark rest tokens top outer keyAllowed remnant).forget =
      .ok (flowing mark rest tokens none outer keyAllowed remnant) := by
  rcases top with _ | candidate
  · rfl
  · have notRequired := dispensable candidate rfl
    change (if candidate.required = true then _ else _) = _
    rw [notRequired]
    rfl

/-! ## White space -/

/-- White space is passed over.  In a flow collection it does not change whether a key may start. -/
theorem skipFrom_padding (inFlow : Bool) (blank : ∀ c ∈ pad, isSpace c = true)
    (begins : BeginsToken next) (mark : Mark) (fresh keyAllowed : Bool) :
    ∃ fresh' keyAllowed' : Bool, (inFlow = true → keyAllowed' = keyAllowed) ∧
      skipFrom none inFlow (pad ++ next) ⟨mark.line, mark.column, (pad ++ next).length, fresh⟩
          false keyAllowed =
        .ok (⟨⟨(mark.past pad).line, (mark.past pad).column, next.length, fresh'⟩, next⟩,
          keyAllowed') := by
  induction pad generalizing mark fresh keyAllowed with
  | nil => exact ⟨fresh, keyAllowed, fun _ => rfl, skipFrom_token begins⟩
  | cons c rest inductionHypothesis =>
      rw [List.forall_mem_cons] at blank
      have isSpaceHere := blank.1
      simp only [isSpace, isBlank, Bool.or_eq_true, decide_eq_true_eq] at isSpaceHere
      rw [List.cons_append]
      rcases isSpaceHere with (isBlankHere | isTab) | isBreak
      · subst isBlankHere
        exact inductionHypothesis blank.2 (mark.right 1) fresh keyAllowed
      · subst isTab
        obtain ⟨fresh', keyAllowed', same, skips⟩ :=
          inductionHypothesis blank.2 (mark.right 1) fresh keyAllowed
        refine ⟨fresh', keyAllowed', same, ?_⟩
        rw [skipFrom]
        simp only [Option.any_none, Bool.and_false, Bool.false_and]
        exact skips
      · subst isBreak
        obtain ⟨fresh', keyAllowed', same, skips⟩ :=
          inductionHypothesis blank.2 ⟨mark.line + 1, 0⟩ true (keyAllowed || !inFlow)
        refine ⟨fresh', keyAllowed', fun isFlow => ?_, skips⟩
        rw [same isFlow, isFlow, Bool.not_true, Bool.or_false]

theorem skipToToken_flowing (blank : ∀ c ∈ pad, isSpace c = true) (begins : BeginsToken next) :
    ∃ fresh keyAllowed' : Bool, (outer ≠ [] → keyAllowed' = keyAllowed) ∧
      (flowing mark (pad ++ next) tokens top outer keyAllowed remnant).skipToToken =
        .ok (flowing (mark.past pad) next tokens top outer keyAllowed'
          { remnant with fresh := fresh }) := by
  let start := flowing mark (pad ++ next) tokens top outer keyAllowed remnant
  obtain ⟨fresh, keyAllowed', same, skips⟩ :=
    skipFrom_padding start.inFlow blank begins mark remnant.fresh keyAllowed
  refine ⟨fresh, keyAllowed', fun inside => same (inFlow_flowing inside), ?_⟩
  have noLevels : start.levels = [] := rfl
  change start.skipToToken = _
  rw [skipToToken, if_pos noLevels]
  change
    (skipFrom none start.inFlow (pad ++ next)
      ⟨mark.line, mark.column, (pad ++ next).length, remnant.fresh⟩ false keyAllowed >>= _) = _
  rw [skips]
  rfl

theorem settles_flowing (inside : outer ≠ []) (blank : ∀ c ∈ pad, isSpace c = true)
    (begins : BeginsToken next) :
    ∃ fresh : Bool,
      (flowing mark (pad ++ next) tokens top outer keyAllowed remnant).Settles
        (flowing (mark.past pad) next tokens top outer keyAllowed
          { remnant with fresh := fresh }) := by
  obtain ⟨fresh, keyAllowed', same, skips⟩ := skipToToken_flowing blank begins
  rw [same inside] at skips
  refine ⟨fresh, _, _, skips, expire_flowing inside, (closeTo_flowing _).symm, ?_⟩
  change next.length ≤ (pad ++ next).length
  rw [List.length_append]
  omega

theorem exists_settles_flowing (dispensable : Dispensable top)
    (blank : ∀ c ∈ pad, isSpace c = true) (begins : BeginsToken next) :
    ∃ (kept : Option Candidate) (fresh keyAllowed' : Bool), Dispensable kept ∧
      (flowing mark (pad ++ next) tokens top outer keyAllowed remnant).Settles
        (flowing (mark.past pad) next tokens kept outer keyAllowed'
          { remnant with fresh := fresh }) := by
  obtain ⟨fresh, keyAllowed', -, skips⟩ := skipToToken_flowing blank begins
  obtain ⟨kept, dispensableKept, expired⟩ := exists_expire_flowing dispensable
  refine ⟨kept, fresh, keyAllowed', dispensableKept, _, _, skips, expired,
    (closeTo_flowing _).symm, ?_⟩
  change next.length ≤ (pad ++ next).length
  rw [List.length_append]
  omega

theorem takeWhile_padding (begins : BeginsToken next) (pad : List Char) :
    (pad ++ next).takeWhile isBlank = pad.takeWhile isBlank ∧
      (pad ++ next).dropWhile isBlank = pad.dropWhile isBlank ++ next := by
  induction pad with
  | nil =>
      cases next with
      | nil => exact ⟨rfl, rfl⟩
      | cons c rest =>
          have notBlank : isBlank c = false := (Bool.or_eq_false_iff.mp begins.1).1
          simp [notBlank]
  | cons c rest inductionHypothesis =>
      by_cases isBlankHere : isBlank c = true <;> simp [isBlankHere, inductionHypothesis]

theorem isSpace_of_mem_dropWhile (blank : ∀ c ∈ pad, isSpace c = true) :
    ∀ c ∈ pad.dropWhile isBlank, isSpace c = true :=
  fun c member => blank c (List.dropWhile_subset _ member)

/-- What blanks leave of white space starts with a line break. -/
theorem eq_break_of_dropWhile (blank : ∀ c ∈ pad, isSpace c = true) {c : Char} {later : List Char}
    (left : pad.dropWhile isBlank = c :: later) : c = '\n' := by
  have isSpaceHere := isSpace_of_mem_dropWhile blank c (left ▸ List.mem_cons_self)
  have notBlank : isBlank c = false := by
    have first := List.head?_dropWhile_not isBlank pad
    rw [left] at first
    simpa using first
  rw [isSpace, notBlank, Bool.false_or] at isSpaceHere
  exact of_decide_eq_true isSpaceHere

/-- Blanks are passed over, up to a line break or the next token. -/
theorem skipBlanks_padding (blank : ∀ c ∈ pad, isSpace c = true) (begins : BeginsToken next)
    (mark : Mark) (fresh : Bool) :
    Cursor.skipBlanks ⟨⟨mark.line, mark.column, (pad ++ next).length, fresh⟩, pad ++ next⟩ true =
      .ok (⟨⟨(mark.past (pad.takeWhile isBlank)).line, (mark.past (pad.takeWhile isBlank)).column,
          (pad.dropWhile isBlank ++ next).length, fresh⟩, pad.dropWhile isBlank ++ next⟩,
        ⟨(pad.takeWhile isBlank).any (· = ' '), (pad.takeWhile isBlank).any (· = '\t')⟩) := by
  obtain ⟨taken, dropped⟩ := takeWhile_padding begins pad
  have isGap : (fun c => (decide (c = ' ') || (true && decide (c = '\t')))) = isBlank := by
    funext c
    simp [isBlank]
  have noComment : nextIs (· = '#') (pad.dropWhile isBlank ++ next) = false := by
    rcases left : pad.dropWhile isBlank with _ | ⟨c, later⟩
    · cases next with
      | nil => rfl
      | cons c rest => exact decide_eq_false begins.2
    · rw [eq_break_of_dropWhile blank left]
      rfl
  have oneLine : ∀ c ∈ pad.takeWhile isBlank, c ≠ '\n' := by
    rintro c member rfl
    cases List.mem_takeWhile_imp member
  have left :
      (pad ++ next).length - (pad.takeWhile isBlank).length =
        (pad.dropWhile isBlank ++ next).length := by
    have whole := congrArg List.length (List.takeWhile_append_dropWhile (p := isBlank) (l := pad))
    rw [List.length_append] at whole
    rw [List.length_append, List.length_append]
    omega
  simp only [Cursor.skipBlanks, Cursor.skipRun, isGap, taken, dropped, noComment, left]
  rw [Mark.past_eq_right oneLine]
  rfl

theorem skipBlanks_flowing (blank : ∀ c ∈ pad, isSpace c = true) (begins : BeginsToken next) :
    (flowing mark (pad ++ next) tokens top outer keyAllowed remnant).skipBlanks true =
      .ok (flowing (mark.past (pad.takeWhile isBlank)) (pad.dropWhile isBlank ++ next) tokens top
          outer keyAllowed remnant,
        ⟨(pad.takeWhile isBlank).any (· = ' '), (pad.takeWhile isBlank).any (· = '\t')⟩) := by
  change
    (Cursor.skipBlanks ⟨⟨mark.line, mark.column, (pad ++ next).length, remnant.fresh⟩, pad ++ next⟩
      true >>= _) = _
  rw [skipBlanks_padding blank begins]
  rfl

theorem past_blanks (mark : Mark) (pad : List Char) :
    (mark.past (pad.takeWhile isBlank)).past (pad.dropWhile isBlank) = mark.past pad := by
  rw [← Mark.past_append, List.takeWhile_append_dropWhile]

/-! ## From one token to the next -/

theorem isAtEnd_flowing {token : Token} (notEnd : token.kind ≠ .streamEnd) :
    (flowing mark rest (token :: tokens) top outer keyAllowed remnant).isAtEnd = false := by
  obtain ⟨place, kind⟩ := token
  cases kind <;> first | rfl | exact absurd rfl notEnd

section

variable {settled : Lexer} {c : Char} {text : List Char} {token : Token}
  (ordinary : settled.Ordinary c text)
  (reads : settled.readToken c text =
    .ok (flowing mark (pad ++ next) (token :: tokens) top outer keyAllowed remnant))
  (notEnd : token.kind ≠ .streamEnd) (shorter : (pad ++ next).length < settled.cursor.left)
  (blank : ∀ c ∈ pad, isSpace c = true) (begins : BeginsToken next)
include ordinary reads notEnd shorter blank begins

/-- A token is read and then the white space after it, up to the next token. -/
theorem Leads.of_flowing (inside : outer ≠ []) :
    ∃ fresh : Bool,
      settled.Leads (flowing (mark.past pad) next (token :: tokens) top outer keyAllowed
        { remnant with fresh := fresh }) := by
  obtain ⟨fresh, settles⟩ := settles_flowing inside blank begins
  exact ⟨fresh, .of_readToken ordinary reads (expire_flowing inside) (isAtEnd_flowing notEnd)
    shorter settles⟩

theorem Leads.exists_of_flowing (dispensable : Dispensable top) :
    ∃ (kept : Option Candidate) (fresh keyAllowed' : Bool), Dispensable kept ∧
      settled.Leads (flowing (mark.past pad) next (token :: tokens) kept outer keyAllowed'
        { remnant with fresh := fresh }) := by
  obtain ⟨between, dispensableBetween, expired⟩ := exists_expire_flowing dispensable
  obtain ⟨kept, fresh, keyAllowed', dispensableKept, settles⟩ :=
    exists_settles_flowing dispensableBetween blank begins
  exact ⟨kept, fresh, keyAllowed', dispensableKept,
    .of_readToken ordinary reads expired (isAtEnd_flowing notEnd) shorter settles⟩

end

theorem indent_flowing_le (mark : Mark) :
    (flowing mark rest tokens top outer keyAllowed remnant).indent ≤ (mark.column : Int) := by
  change (-1 : Int) ≤ (mark.column : Int)
  omega

theorem ordinary_flowing {c : Char} (notDirective : c ≠ '%') (notHyphen : c ≠ '-')
    (notPoint : c ≠ '.') :
    (flowing mark (c :: rest) tokens top outer keyAllowed remnant).Ordinary c rest :=
  ordinary_of_ne rfl notDirective notHyphen notPoint (indent_flowing_le mark)

/-! ## Candidates -/

/-- The candidate of a flow collection once a node starts there. -/
def suggested (mark : Mark) (rest : List Char) (tokens : List Token) (top : Option Candidate)
    (keyAllowed : Bool) (remnant : Remnant) : Option Candidate :=
  if keyAllowed then
    some ⟨⟨mark.line, mark.column, rest.length, remnant.fresh⟩, tokens.length, false⟩
  else
    top

theorem suggest_flowing :
    (flowing mark rest tokens top outer keyAllowed remnant).suggest =
      flowing mark rest tokens (suggested mark rest tokens top keyAllowed remnant) outer keyAllowed
        remnant := by
  cases keyAllowed with
  | false => rfl
  | true => cases outer <;> rfl

theorem dispensable_suggested (dispensable : Dispensable top) :
    Dispensable (suggested mark rest tokens top keyAllowed remnant) := by
  cases keyAllowed with
  | false => exact dispensable
  | true =>
      rintro candidate ⟨⟩
      rfl

end Lexer
end Yaml
end FieldLine
