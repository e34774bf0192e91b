import FieldLine.Path
import FieldLine.Proofs.Results
import FieldLine.Proofs.Text.Cutting
import Mathlib.Data.List.Basic
import Mathlib.Data.List.Forall2

/-!
# How paths are spelled

A path is spelled by one segment for each of its steps, with dots between them: a name, or a name
with an index in brackets.  Reading gives back the steps that a text spells, and a text that spells
no steps is not read.
-/

namespace FieldLine
namespace Path

/-- A segment that spells a step.  The digits of an index may begin with zeros, and its value
fits in 64 bits. -/
inductive SpellsStep : List Char → Step → Prop where
  | key {name : List Char} :
      name ≠ [] → '.' ∉ name → '[' ∉ name → SpellsStep name (.key (.ofList name))
  | element {name digits : List Char} :
      name ≠ [] → '.' ∉ name → '[' ∉ name →
      digits ≠ [] → (∀ c ∈ digits, Decimal.isDigit c) → Decimal.value digits < wordBound →
      SpellsStep (name ++ '[' :: (digits ++ [']']))
        (.element (.ofList name) (Decimal.value digits))

inductive Spells : List Char → List Step → Prop where
  | last {segment : List Char} {step : Step} :
      SpellsStep segment step → Spells segment [step]
  | more {segment rest : List Char} {step : Step} {later : List Step} :
      SpellsStep segment step → Spells rest later →
      Spells (segment ++ '.' :: rest) (step :: later)

/-! ## Segments -/

theorem segments_of_not_mem {text : List Char} (noDot : '.' ∉ text) :
    segments text = [text] := by
  induction text with
  | nil => rfl
  | cons c rest inductionHypothesis =>
      rw [List.mem_cons, not_or] at noDot
      rw [segments, if_neg (Ne.symm noDot.1), inductionHypothesis noDot.2]

theorem segments_ne_nil (text : List Char) : segments text ≠ [] := by
  cases text with
  | nil => exact List.cons_ne_nil _ _
  | cons c rest =>
      rw [segments]
      split
      · exact List.cons_ne_nil _ _
      · split
        · exact List.cons_ne_nil _ _
        · exact List.cons_ne_nil _ _

theorem segments_append (first rest : List Char) :
    segments (first ++ '.' :: rest) = segments first ++ segments rest := by
  induction first with
  | nil => rfl
  | cons c later inductionHypothesis =>
      rw [List.cons_append, segments, segments, inductionHypothesis]
      by_cases dot : c = '.'
      · rw [if_pos dot, if_pos dot]
        rfl
      · rw [if_neg dot, if_neg dot]
        cases pieces : segments later with
        | nil => exact absurd pieces (segments_ne_nil later)
        | cons piece others => rfl

theorem SpellsStep.ne_nil {segment : List Char} {spelled : Step}
    (spells : SpellsStep segment spelled) : segment ≠ [] := by
  cases spells with
  | key named => exact named
  | element named => simp

theorem isDigit_ne {c other : Char} (digit : Decimal.isDigit c)
    (notDigit : Decimal.isDigit other = false) : c ≠ other := by
  rintro rfl
  rw [notDigit] at digit
  exact Bool.false_ne_true digit

theorem SpellsStep.not_mem_dot {segment : List Char} {spelled : Step}
    (spells : SpellsStep segment spelled) : '.' ∉ segment := by
  cases spells with
  | key _ noDot => exact noDot
  | element _ noDot _ _ digits =>
      have noDotInDigits : ∀ c ∈ _, c ≠ '.' :=
        fun c member => isDigit_ne (digits c member) rfl
      simp only [List.mem_append, List.mem_cons, not_or]
      exact
        ⟨noDot, by decide, fun member => noDotInDigits '.' member rfl, by decide, List.not_mem_nil⟩

/-! ## Reading what is spelled -/

/-- A segment has no name, or it is a name, or it is a name with a bracket behind it. -/
theorem segment_cases (segment : List Char) :
    (segment = [] ∨ segment.head? = some '[') ∨
      segment ≠ [] ∧ segment.head? ≠ some '[' ∧
        ('[' ∉ segment ∨
          ∃ name suffix : List Char,
            segment = name ++ '[' :: suffix ∧ name ≠ [] ∧ '[' ∉ name) := by
  by_cases unnamed : segment = [] ∨ segment.head? = some '['
  · exact .inl unnamed
  · obtain ⟨someChar, notOpened⟩ := not_or.mp unnamed
    refine .inr ⟨someChar, notOpened, ?_⟩
    by_cases bracket : '[' ∈ segment
    · obtain ⟨name, suffix, rfl, noBracket⟩ := List.eq_append_cons_of_mem bracket
      refine .inr ⟨name, suffix, rfl, ?_, noBracket⟩
      rintro rfl
      exact notOpened rfl
    · exact .inl bracket

theorem step_of_not_mem {segment : List Char} (someChar : segment ≠ []) (noBracket : '[' ∉ segment)
    (path : String) (position : Nat) :
    step path position segment = .ok (.key (.ofList segment)) := by
  obtain ⟨before, after⟩ := takeWhile_ne_of_not_mem noBracket
  rw [step, before, after]
  cases segment with
  | nil => exact absurd rfl someChar
  | cons c rest => rfl

theorem step_append {name : List Char} (named : name ≠ []) (noBracket : '[' ∉ name)
    (path : String) (position : Nat) (suffix : List Char) :
    step path position (name ++ '[' :: suffix) =
      (index (name ++ '[' :: suffix) suffix).map (.element (.ofList name)) := by
  obtain ⟨before, after⟩ := takeWhile_ne_append noBracket suffix
  rw [step, before, after]
  cases name with
  | nil => exact absurd rfl named
  | cons c rest => rfl

theorem step_of_unnamed {segment : List Char} (unnamed : segment = [] ∨ segment.head? = some '[')
    (path : String) (position : Nat) :
    step path position segment = .error (.emptySegment path position) := by
  rcases unnamed with rfl | opened
  · rfl
  · obtain ⟨suffix, rfl⟩ := List.head?_eq_some_iff.mp opened
    rfl

/-- A segment is read as the step that it spells, wherever it stands. -/
theorem step_of_spellsStep {segment : List Char} {spelled : Step}
    (spells : SpellsStep segment spelled) (path : String) (position : Nat) :
    step path position segment = .ok spelled := by
  cases spells with
  | key named _ noBracket => exact step_of_not_mem named noBracket path position
  | @element name digits named _ noBracket someDigit allDigits bounded =>
      have number : Decimal.word? digits = some (Decimal.value digits) := by
        rw [Decimal.word?, if_pos]
        exact ⟨someDigit, List.all_eq_true.mpr allDigits, bounded⟩
      have read :
          index (name ++ '[' :: (digits ++ [']'])) (digits ++ [']']) =
            .ok (Decimal.value digits) := by
        rw [index, List.getLast?_concat, if_pos rfl, List.dropLast_concat, number]
      rw [step_append named noBracket, read]
      rfl

theorem Spells.ne_nil {text : List Char} {spelled : List Step} (spells : Spells text spelled) :
    text ≠ [] := by
  cases spells with
  | last spellsStep => exact spellsStep.ne_nil
  | more => simp

theorem Spells.steps_ne_nil {text : List Char} {spelled : List Step}
    (spells : Spells text spelled) : spelled ≠ [] := by
  cases spells <;> exact List.cons_ne_nil _ _

theorem forall₂_of_spells {text : List Char} {spelled : List Step} (spells : Spells text spelled) :
    List.Forall₂ SpellsStep (segments text) spelled := by
  induction spells with
  | last spellsStep =>
      rw [segments_of_not_mem spellsStep.not_mem_dot]
      exact .cons spellsStep .nil
  | more spellsStep _ inductionHypothesis =>
      rw [segments_append, segments_of_not_mem spellsStep.not_mem_dot]
      exact .cons spellsStep inductionHypothesis

theorem steps_of_forall₂ {pieces : List (List Char)} {spelled : List Step}
    (spells : List.Forall₂ SpellsStep pieces spelled) (path : String) (position : Nat) :
    steps path position pieces = .ok spelled := by
  induction spells generalizing position with
  | nil => rfl
  | cons spellsStep _ inductionHypothesis =>
      rw [steps, step_of_spellsStep spellsStep, inductionHypothesis]
      rfl

theorem parse_of_ne {path : String} (notEmpty : path ≠ "") :
    parse path = steps path 0 (segments path.toList) := by
  have someChar : path.isEmpty = false := by simpa using notEmpty
  rw [parse, someChar]
  rfl

/-- A text that spells a path is read as its steps. -/
theorem parse_of_spells {path : String} {spelled : List Step}
    (spells : Spells path.toList spelled) : parse path = .ok spelled := by
  have notEmpty : path ≠ "" := by simpa using spells.ne_nil
  rw [parse_of_ne notEmpty]
  exact steps_of_forall₂ (forall₂_of_spells spells) path 0

/-! ## Spelling what is read -/

theorem digits_of_index {segment suffix : List Char} {value : Nat}
    (result : index segment suffix = .ok value) :
    ∃ digits : List Char,
      suffix = digits ++ [']'] ∧ digits ≠ [] ∧ (∀ c ∈ digits, Decimal.isDigit c) ∧
        Decimal.value digits < wordBound ∧ value = Decimal.value digits := by
  rw [index] at result
  by_cases closed : suffix.getLast? = some ']'
  · rw [if_pos closed] at result
    have whole : suffix.dropLast ++ [']'] = suffix := List.dropLast_append_getLast? _ closed
    refine ⟨suffix.dropLast, whole.symm, ?_⟩
    by_cases
      number :
        suffix.dropLast ≠ [] ∧ suffix.dropLast.all Decimal.isDigit ∧
          Decimal.value suffix.dropLast < wordBound
    · rw [Decimal.word?, if_pos number] at result
      cases result
      exact ⟨number.1, List.all_eq_true.mp number.2.1, number.2.2, rfl⟩
    · rw [Decimal.word?, if_neg number] at result
      cases result
  · rw [if_neg closed] at result
    cases result

/-- A segment spells the step that it is read as. -/
theorem spellsStep_of_step {path : String} {position : Nat} {segment : List Char} {read : Step}
    (noDot : '.' ∉ segment) (result : step path position segment = .ok read) :
    SpellsStep segment read := by
  rcases segment_cases segment with
    unnamed | ⟨someChar, -, noBracket | ⟨name, suffix, rfl, named, noBracket⟩⟩
  · rw [step_of_unnamed unnamed] at result
    cases result
  · rw [step_of_not_mem someChar noBracket] at result
    cases result
    exact .key someChar noDot noBracket
  · have nameNoDot : '.' ∉ name := fun member => noDot (List.mem_append_left _ member)
    rw [step_append named noBracket] at result
    obtain ⟨value, number, rfl⟩ := exists_of_map_eq_ok result
    obtain ⟨digits, rfl, someDigit, allDigits, bounded, rfl⟩ := digits_of_index number
    exact .element named nameNoDot noBracket someDigit allDigits bounded

theorem forall₂_of_steps {path : String} {position : Nat} {pieces : List (List Char)}
    {read : List Step} (noDots : ∀ piece ∈ pieces, '.' ∉ piece)
    (result : steps path position pieces = .ok read) :
    List.Forall₂ SpellsStep pieces read := by
  induction pieces generalizing position read with
  | nil =>
      cases result
      exact .nil
  | cons piece later inductionHypothesis =>
      obtain ⟨noDot, noDotsLater⟩ := List.forall_mem_cons.mp noDots
      rw [steps] at result
      obtain ⟨head, first, result⟩ := exists_of_bind_eq_ok result
      obtain ⟨tail, others, result⟩ := exists_of_bind_eq_ok result
      cases result
      exact .cons (spellsStep_of_step noDot first) (inductionHypothesis noDotsLater others)

/-! ## Segments between dots -/

theorem segments_eq_splitOn (text : List Char) : segments text = text.splitOn '.' := by
  induction text with
  | nil => rfl
  | cons c rest inductionHypothesis =>
      have split :
          (c :: rest).splitOn '.' =
            if c = '.' then [] :: rest.splitOn '.'
            else (rest.splitOn '.').modifyHead (List.cons c) := by
        simpa [List.splitOn_eq_splitOnP] using
          List.splitOnP_cons_eq_if_modifyHead (p := (· == '.')) c rest
      rw [segments, split, inductionHypothesis]
      rcases pieces : rest.splitOn '.' with _ | ⟨piece, later⟩
      · exact absurd pieces (List.splitOn_ne_nil '.' rest)
      · rfl

theorem not_mem_dot_of_mem_segments (text : List Char) :
    ∀ segment ∈ segments text, '.' ∉ segment := by
  induction text with
  | nil => simp [segments]
  | cons c rest inductionHypothesis =>
      rw [segments]
      by_cases dot : c = '.'
      · rw [if_pos dot]
        exact List.forall_mem_cons.mpr ⟨List.not_mem_nil, inductionHypothesis⟩
      · rw [if_neg dot]
        rcases pieces : segments rest with _ | ⟨piece, later⟩
        · simpa using Ne.symm dot
        · rw [pieces] at inductionHypothesis
          obtain ⟨noDot, noDotsLater⟩ := List.forall_mem_cons.mp inductionHypothesis
          refine List.forall_mem_cons.mpr ⟨?_, noDotsLater⟩
          rw [List.mem_cons, not_or]
          exact ⟨Ne.symm dot, noDot⟩

theorem parse_eq_ok_iff (path : String) (read : List Step) :
    parse path = .ok read ↔
      path ≠ "" ∧ List.Forall₂ SpellsStep (path.toList.splitOn '.') read := by
  rw [← segments_eq_splitOn]
  by_cases empty : path = ""
  · subst empty
    simp [parse]
  · rw [parse_of_ne empty]
    constructor
    · intro result
      exact ⟨empty, forall₂_of_steps (not_mem_dot_of_mem_segments path.toList) result⟩
    · rintro ⟨_, spells⟩
      exact steps_of_forall₂ spells path 0

theorem exists_forall₂_spellsStep {pieces : List (List Char)}
    (spelled : ∀ piece ∈ pieces, ∃ step : Step, SpellsStep piece step) :
    ∃ read : List Step, List.Forall₂ SpellsStep pieces read := by
  induction pieces with
  | nil => exact ⟨[], .nil⟩
  | cons piece later inductionHypothesis =>
      obtain ⟨first, others⟩ := List.forall_mem_cons.mp spelled
      obtain ⟨step, spellsStep⟩ := first
      obtain ⟨read, spells⟩ := inductionHypothesis others
      exact ⟨step :: read, .cons spellsStep spells⟩

theorem exists_step_of_forall₂ {pieces : List (List Char)} {read : List Step}
    (spells : List.Forall₂ SpellsStep pieces read) :
    ∀ piece ∈ pieces, ∃ step : Step, SpellsStep piece step := by
  induction spells with
  | nil => exact List.forall_mem_nil _
  | @cons piece step _ _ spellsStep _ inductionHypothesis =>
      exact List.forall_mem_cons.mpr ⟨⟨step, spellsStep⟩, inductionHypothesis⟩

/-- A text can be read as a path exactly if it is not empty and each of its segments between dots
spells a step.  The path is then read as these steps, one for each segment, in order. -/
theorem parse_iff_segments_spell (path : String) :
    ((∃ read : List Step, parse path = .ok read) ↔
        path ≠ "" ∧ ∀ segment ∈ path.toList.splitOn '.', ∃ step : Step, SpellsStep segment step) ∧
      ∀ read : List Step,
        parse path = .ok read ↔
          path ≠ "" ∧ List.Forall₂ SpellsStep (path.toList.splitOn '.') read := by
  refine ⟨?_, parse_eq_ok_iff path⟩
  constructor
  · rintro ⟨read, result⟩
    obtain ⟨notEmpty, spells⟩ := (parse_eq_ok_iff path read).mp result
    exact ⟨notEmpty, exists_step_of_forall₂ spells⟩
  · rintro ⟨notEmpty, spelled⟩
    obtain ⟨read, spells⟩ := exists_forall₂_spellsStep spelled
    exact ⟨read, (parse_eq_ok_iff path read).mpr ⟨notEmpty, spells⟩⟩

/-! ## Names of what is read -/

theorem SpellsStep.name_ne {segment : List Char} {spelled : Step}
    (spells : SpellsStep segment spelled) : spelled.name ≠ "" := by
  cases spells with
  | key named => simpa [Step.name] using named
  | element named => simpa [Step.name] using named

theorem forall_mem_of_forall₂ {holds : Step → Prop}
    (each : ∀ (segment : List Char) (step : Step), SpellsStep segment step → holds step)
    {pieces : List (List Char)} {read : List Step}
    (spells : List.Forall₂ SpellsStep pieces read) : ∀ step ∈ read, holds step := by
  induction spells with
  | nil => exact List.forall_mem_nil _
  | cons spellsStep _ inductionHypothesis =>
      exact List.forall_mem_cons.mpr ⟨each _ _ spellsStep, inductionHypothesis⟩

/-- No step of a path that is read is without a name. -/
theorem name_ne_of_parse {path : String} {read : List Step} (result : parse path = .ok read) :
    ∀ step ∈ read, step.name ≠ "" :=
  forall_mem_of_forall₂ (fun _ _ => SpellsStep.name_ne) ((parse_eq_ok_iff path read).mp result).2

end Path
end FieldLine
