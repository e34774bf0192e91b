import FieldLine.Proofs.Path.Spelling
import FieldLine.Proofs.Text.Digits

/-!
# Paths written and read

Steps are written as a path with dots between them, and reading the path gives back the steps.  A
path that can be read is written again without the zeros that its indices begin with, so these are
all that two paths with the same steps can differ in.
-/

namespace FieldLine

/-- A step that a segment can spell: its name has neither dots nor brackets that open an index, and
its index fits in 64 bits. -/
structure Step.IsWritable (step : Step) : Prop where
  named : step.name ≠ ""
  noDot : '.' ∉ step.name.toList
  noBracket : '[' ∉ step.name.toList
  fits : ∀ index ∈ step.index?, index < wordBound

instance (step : Step) : Decidable step.IsWritable :=
  decidable_of_iff
    (step.name ≠ "" ∧ '.' ∉ step.name.toList ∧ '[' ∉ step.name.toList ∧
      ∀ index ∈ step.index?, index < wordBound)
    ⟨fun ⟨named, noDot, noBracket, fits⟩ => ⟨named, noDot, noBracket, fits⟩,
      fun ⟨named, noDot, noBracket, fits⟩ => ⟨named, noDot, noBracket, fits⟩⟩

namespace Path

/-- Steps written as a path. -/
def render (steps : List Step) : String :=
  String.intercalate "." (steps.map Step.render)

/-- Drops each zero that stands behind an opening bracket, or behind other such zeros, and before
another digit.  `opened` says whether the next character stands there. -/
def trimFrom (opened : Bool) : List Char → List Char
  | [] => []
  | c :: rest =>
      if opened ∧ c = '0' ∧ rest.head?.any Decimal.isDigit then trimFrom true rest
      else c :: trimFrom (c = '[') rest

/-- A path without the zeros that its indices begin with. -/
def trimZeros (path : String) : String :=
  .ofList (trimFrom false path.toList)

/-! ## Steps as segments -/

theorem toList_render_element (name : String) (index : Nat) :
    (Step.element name index).render.toList =
      name.toList ++ '[' :: (Nat.toDigits 10 index ++ [']']) := by
  simp [Step.render, Nat.toList_repr]

theorem spellsStep_render {step : Step} (writable : step.IsWritable) :
    SpellsStep step.render.toList step := by
  cases step with
  | key name =>
      have spells : SpellsStep name.toList (.key (.ofList name.toList)) :=
        .key (by simpa [Step.name] using writable.named) writable.noDot writable.noBracket
      rw [String.ofList_toList] at spells
      exact spells
  | element name index =>
      have fits : Decimal.value (Nat.toDigits 10 index) < wordBound := by
        rw [Decimal.value_toDigits]
        exact writable.fits index rfl
      have spells :
          SpellsStep (name.toList ++ '[' :: (Nat.toDigits 10 index ++ [']']))
            (.element (.ofList name.toList) (Decimal.value (Nat.toDigits 10 index))) :=
        .element (by simpa [Step.name] using writable.named) writable.noDot writable.noBracket
          Nat.toDigits_ne_nil (fun c => Decimal.isDigit_of_mem_toDigits) fits
      rw [String.ofList_toList, Decimal.value_toDigits] at spells
      rw [toList_render_element]
      exact spells

theorem SpellsStep.isWritable {segment : List Char} {spelled : Step}
    (spells : SpellsStep segment spelled) : spelled.IsWritable := by
  have named := spells.name_ne
  cases spells with
  | key _ noDot noBracket =>
      refine ⟨named, ?_, ?_, ?_⟩
      · rwa [Step.name, String.toList_ofList]
      · rwa [Step.name, String.toList_ofList]
      · intro index isIndex
        cases isIndex
  | element _ noDot noBracket _ _ bounded =>
      refine ⟨named, ?_, ?_, ?_⟩
      · rwa [Step.name, String.toList_ofList]
      · rwa [Step.name, String.toList_ofList]
      · intro index isIndex
        cases isIndex
        exact bounded

theorem toList_render (steps : List Step) :
    (render steps).toList = ['.'].intercalate (steps.map fun step => step.render.toList) := by
  rw [render, String.toList_intercalate, List.map_map]
  rfl

theorem parse_render {steps : List Step} (someStep : steps ≠ [])
    (writable : ∀ step ∈ steps, step.IsWritable) : parse (render steps) = .ok steps := by
  have spells : List.Forall₂ SpellsStep (steps.map fun step => step.render.toList) steps := by
    rw [List.forall₂_map_left_iff, List.forall₂_same]
    exact fun step member => spellsStep_render (writable step member)
  have noDots : ∀ piece ∈ steps.map fun step => step.render.toList, '.' ∉ piece := by
    intro piece member
    obtain ⟨step, stepMember, rfl⟩ := List.mem_map.mp member
    exact (spellsStep_render (writable step stepMember)).not_mem_dot
  have split :
      (render steps).toList.splitOn '.' = steps.map fun step => step.render.toList := by
    rw [toList_render]
    exact List.splitOn_intercalate '.' noDots (by simpa using someStep)
  rw [← split] at spells
  refine (parse_eq_ok_iff _ steps).mpr ⟨?_, spells⟩
  intro empty
  rw [empty] at spells
  cases spells with
  | cons first _ => exact first.ne_nil rfl

/-! ## Zeros that are dropped -/

theorem trimFrom_append {name : List Char} (noBracket : '[' ∉ name) (rest : List Char) :
    trimFrom false (name ++ rest) = name ++ trimFrom false rest := by
  induction name with
  | nil => rfl
  | cons c later inductionHypothesis =>
      rw [List.mem_cons, not_or] at noBracket
      have notOpened : decide (c = '[') = false := decide_eq_false (Ne.symm noBracket.1)
      rw [List.cons_append, trimFrom, if_neg (by simp), notOpened,
        inductionHypothesis noBracket.2]
      rfl

theorem isDigit_ne_bracket {digits : List Char} (allDigits : ∀ c ∈ digits, Decimal.isDigit c) :
    '[' ∉ digits :=
  fun member => isDigit_ne (allDigits '[' member) rfl rfl

/-- Behind a bracket, digits become those that their value is written with. -/
theorem trimFrom_digits {digits : List Char} (someDigit : digits ≠ [])
    (allDigits : ∀ c ∈ digits, Decimal.isDigit c) (rest : List Char) :
    trimFrom true (digits ++ ']' :: rest) =
      Nat.toDigits 10 (Decimal.value digits) ++ ']' :: trimFrom false rest := by
  induction digits with
  | nil => exact absurd rfl someDigit
  | cons c later inductionHypothesis =>
      obtain ⟨digit, others⟩ := List.forall_mem_cons.mp allDigits
      have closing : trimFrom false (']' :: rest) = ']' :: trimFrom false rest :=
        trimFrom_append (by decide : '[' ∉ [']']) rest
      have notOpened : decide (c = '[') = false :=
        decide_eq_false (isDigit_ne digit rfl)
      have kept := trimFrom_append (isDigit_ne_bracket others) (']' :: rest)
      by_cases zero : c = '0'
      · subst zero
        rcases later with _ | ⟨next, more⟩
        · rw [List.singleton_append, trimFrom, if_neg (by simp [Decimal.isDigit]), notOpened,
            closing]
          rfl
        · have nextDigit : Decimal.isDigit next = true := others next List.mem_cons_self
          rw [List.cons_append, trimFrom, if_pos (by simp [nextDigit]),
            inductionHypothesis (List.cons_ne_nil next more) others, Decimal.value_zero_cons]
      · rw [List.cons_append, trimFrom, if_neg (by simp [zero]), notOpened, kept, closing,
          Decimal.toDigits_value zero allDigits]
        rfl

theorem SpellsStep.trimFrom {segment : List Char} {spelled : Step}
    (spells : SpellsStep segment spelled) (rest : List Char) :
    Path.trimFrom false (segment ++ rest) =
      spelled.render.toList ++ Path.trimFrom false rest := by
  cases spells with
  | key _ _ noBracket =>
      rw [trimFrom_append noBracket, Step.render, String.toList_ofList]
  | @element name digits _ _ noBracket someDigit allDigits _ =>
      have opening (later : List Char) :
          Path.trimFrom false ('[' :: later) = '[' :: Path.trimFrom true later := by
        rw [Path.trimFrom, if_neg (by simp)]
        rfl
      rw [toList_render_element, String.toList_ofList, List.append_assoc, List.append_assoc,
        trimFrom_append noBracket, List.cons_append, opening, List.append_assoc,
        List.singleton_append, trimFrom_digits someDigit allDigits, List.cons_append,
        List.append_assoc, List.singleton_append]

theorem trimFrom_intercalate {pieces : List (List Char)} {read : List Step}
    (spells : List.Forall₂ SpellsStep pieces read) :
    trimFrom false (['.'].intercalate pieces) =
      ['.'].intercalate (read.map fun step => step.render.toList) := by
  induction spells with
  | nil => rfl
  | @cons piece step pieces later first others inductionHypothesis =>
      cases others with
      | nil =>
          have single := first.trimFrom []
          rw [List.append_nil] at single
          simpa [trimFrom] using single
      | cons second more =>
          have dot (rest : List Char) : trimFrom false ('.' :: rest) = '.' :: trimFrom false rest :=
            trimFrom_append (by decide : '[' ∉ ['.']) rest
          rw [List.intercalate_cons_cons, List.append_assoc, first.trimFrom, List.singleton_append,
            dot, inductionHypothesis]
          simp only [List.map_cons, List.intercalate_cons_cons, List.append_assoc,
            List.singleton_append]

theorem render_of_parse {path : String} {read : List Step} (result : parse path = .ok read) :
    render read = trimZeros path := by
  have spells := ((parse_eq_ok_iff path read).mp result).2
  have trimmed := trimFrom_intercalate spells
  rw [List.intercalate_splitOn, ← toList_render] at trimmed
  rw [trimZeros, trimmed, String.ofList_toList]

example : render [.element "a" 7, .element "b0" 0] = trimZeros "a[007].b0[00]" := by decide

theorem ne_nil_and_isWritable_of_parse {path : String} {read : List Step}
    (result : parse path = .ok read) : read ≠ [] ∧ ∀ step ∈ read, step.IsWritable := by
  have spells := ((parse_eq_ok_iff path read).mp result).2
  refine ⟨?_, ?_⟩
  · rintro rfl
    exact List.splitOn_ne_nil '.' path.toList (List.forall₂_nil_right_iff.mp spells)
  · exact forall_mem_of_forall₂ (fun _ _ => SpellsStep.isWritable) spells

/-- Writing steps and reading the path are inverse to each other, up to the zeros that indices
begin with.  Steps whose names are not empty and have neither dots nor opening brackets are read as
they have been written, and only such steps are read.  What is read is written as the path without
the zeros that its indices begin with.  So two paths that can be read have the same steps exactly if
they are the same without these zeros. -/
theorem parse_render_and_render_parse :
    (∀ steps : List Step,
        steps ≠ [] → (∀ step ∈ steps, step.IsWritable) → parse (render steps) = .ok steps) ∧
      (∀ (path : String) (read : List Step),
        parse path = .ok read →
          read ≠ [] ∧ (∀ step ∈ read, step.IsWritable) ∧ render read = trimZeros path) ∧
      ∀ (path other : String) (read otherRead : List Step),
        parse path = .ok read → parse other = .ok otherRead →
          (read = otherRead ↔ trimZeros path = trimZeros other) := by
  refine ⟨fun _ => parse_render, ?_, ?_⟩
  · intro path read result
    obtain ⟨someStep, writable⟩ := ne_nil_and_isWritable_of_parse result
    exact ⟨someStep, writable, render_of_parse result⟩
  · intro path other read otherRead result otherResult
    rw [← render_of_parse result, ← render_of_parse otherResult]
    constructor
    · exact congrArg render
    · intro same
      obtain ⟨someStep, writable⟩ := ne_nil_and_isWritable_of_parse result
      obtain ⟨otherSomeStep, otherWritable⟩ := ne_nil_and_isWritable_of_parse otherResult
      have reread := parse_render someStep writable
      rw [same, parse_render otherSomeStep otherWritable] at reread
      exact (Except.ok.inj reread).symm

/-- A name may hold closing brackets and letters of any kind, and an index may be the last one that
fits. -/
theorem parse_render_and_render_parse_padded :
    let steps : List Step := [.key "a]b", .element "größe" 18446744073709551615, .element "c" 0]
    (∀ step ∈ steps, step.IsWritable) ∧
      parse "a]b.größe[18446744073709551615].c[0]" = .ok steps ∧
      parse "x[007].y" = .ok [.element "x" 7, .key "y"] ∧
      render [.element "x" 7, .key "y"] = trimZeros "x[007].y" ∧
      trimZeros "x[007].y" = trimZeros "x[7].y" := by
  intro steps
  have writable : ∀ step ∈ steps, step.IsWritable := by decide
  have padded : parse "x[007].y" = .ok [.element "x" 7, .key "y"] := by decide
  have short : parse "x[7].y" = .ok [.element "x" 7, .key "y"] := by decide
  obtain ⟨written, read, same⟩ := parse_render_and_render_parse
  exact
    ⟨writable, written steps (List.cons_ne_nil _ _) writable, padded,
      (read _ _ padded).2.2, (same _ _ _ _ padded short).mp rfl⟩

end Path
end FieldLine
