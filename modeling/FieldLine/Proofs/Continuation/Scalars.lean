import FieldLine.Proofs.Continuation.Cursors
import FieldLine.Yaml.Scalar.Block
import FieldLine.Yaml.Scalar.Plain
import FieldLine.Yaml.Scalar.Quoted

/-!
# Scalars in a text that goes on

A scalar of a text of whole lines is the same if a line `---` follows the text.  Only a block scalar
may reach the end of the text and be another one then: if it has no content, as the end of the input
counts as its end, and if it may have content at the start of a line, as then it goes on.
-/

namespace FieldLine
namespace Yaml

variable {c : Char} {text rest more : List Char} {place : Place}

/-! ## Plain scalars -/

namespace Plain

variable {setting : Setting}

theorem continues_append (someChar : rest ≠ []) (inFlow : Bool) (more : List Char) :
    continues inFlow c (rest ++ more) = continues inFlow c rest := by
  rw [continues, continues, atGap_append someChar, nextIs_append someChar]

/-- What is read of a plain scalar, in the text and in the longer one.  How much has been looked at
for it may differ. -/
def Found (more : List Char) (found image : Reading) : Prop :=
  found.cursor.OnLines ∧ image.text = found.text ∧ image.cursor = found.cursor.extend more

theorem readFrom_bound (bound : atTriple '-' more = true) {part : Part}
    (resting : part = .start ∨ part = .gap) (gap : Gap) (done : List Char) (sighted : Nat)
    (fresh : place.fresh = true) :
    readFrom setting more place part gap done sighted = .ok ⟨done, ⟨place, more⟩, sighted⟩ := by
  obtain ⟨later, rfl⟩ : ∃ later : List Char, more = '-' :: later := exists_of_atTriple bound
  have notTab : isTabIndent setting place '-' = false := by
    simp [isTabIndent]
  have indicates : atDocumentIndicator ('-' :: later) = true := by
    rw [atDocumentIndicator, bound, Bool.true_or]
  rcases resting with rfl | rfl
  · simp [readFrom, notTab, isBlank, fresh, indicates]
  · simp [readFrom, notTab, isBlank, fresh, indicates]

/-- A text of whole lines that is read in the same way, from any place, if more text follows it. -/
def IsCarried (setting : Setting) (text more : List Char) : Prop :=
  ∀ (place : Place) (part : Part) (gap : Gap) (done : List Char) (sighted sightedToo : Nat),
    Cursor.OnLines ⟨place, text⟩ → (text = [] → part = .start ∨ part = .gap) →
      Carries (Found more) (readFrom setting text place part gap done sighted)
        (readFrom setting (text ++ more) (place.extend more) part gap done sightedToo)

section Rest

variable {part : Part} {gap : Gap} {done : List Char} {ahead sighted sightedToo : Nat}
  (carried : IsCarried setting rest more) (inside : Cursor.Inside ⟨place, c :: rest⟩)

include carried inside

theorem IsCarried.blank (notBreak : c ≠ '\n') :
    Carries (Found more) (readFrom setting rest place.blank part gap done sighted)
      (readFrom setting (rest ++ more) (place.extend more).blank part gap done sightedToo) := by
  have next := inside.blank notBreak
  rw [Cursor.blank_extend inside.left]
  exact carried _ part gap done sighted sightedToo next.onLines
    fun isEmpty => absurd isEmpty next.someChar

theorem IsCarried.solid (notBreak : c ≠ '\n') :
    Carries (Found more) (readFrom setting rest place.solid part gap done sighted)
      (readFrom setting (rest ++ more) (place.extend more).solid part gap done sightedToo) := by
  have next := inside.solid notBreak
  rw [Cursor.solid_extend inside.left]
  exact carried _ part gap done sighted sightedToo next.onLines
    fun isEmpty => absurd isEmpty next.someChar

theorem IsCarried.newline (resting : part = .start ∨ part = .gap) :
    Carries (Found more) (readFrom setting rest place.newline part gap done sighted)
      (readFrom setting (rest ++ more) (place.extend more).newline part gap done sightedToo) := by
  rw [Cursor.newline_extend inside.left]
  exact carried _ part gap done sighted sightedToo inside.newline fun _ => resting

theorem readFrom_word_carried :
    Carries (Found more) (readFrom setting (c :: rest) place (.word ahead) gap done sighted)
      (readFrom setting (c :: (rest ++ more)) (place.extend more) (.word ahead) gap done
        sightedToo) := by
  simp only [readFrom]
  refine .ite (fun isBlank => carried.blank inside (ne_break_of_isBlank isBlank)) fun _ => ?_
  refine .ite (fun _ => carried.newline inside (.inr rfl)) fun notBreak => ?_
  rw [continues_append (inside.lines.ne_nil notBreak)]
  exact .ite (fun _ => carried.solid inside notBreak) fun _ => .ok ⟨inside.onLines, rfl, rfl⟩

theorem readFrom_comment_carried :
    Carries (Found more) (readFrom setting (c :: rest) place .comment gap done sighted)
      (readFrom setting (c :: (rest ++ more)) (place.extend more) .comment gap done
        sightedToo) := by
  simp only [readFrom]
  exact .ite (fun _ => carried.newline inside (.inr rfl)) fun notBreak =>
    carried.blank inside notBreak

theorem readFrom_break_carried (resting : part = .start ∨ part = .gap) (isBreak : c = '\n') :
    Carries (Found more) (readFrom setting (c :: rest) place part gap done sighted)
      (readFrom setting (c :: (rest ++ more)) (place.extend more) part gap done sightedToo) := by
  subst isBreak
  have notTab (place : Place) : isTabIndent setting place '\n' = false := by
    simp [isTabIndent]
  have notBlank : isBlank '\n' = false := rfl
  rcases resting with rfl | rfl
  all_goals simp only [readFrom, notTab, notBlank, Bool.false_and, Bool.false_eq_true, if_false,
    if_true]
  · exact .ite (fun _ => carried.newline inside (.inl rfl)) fun _ =>
      carried.newline inside (.inl rfl)
  · exact .ite (fun _ => carried.newline inside (.inr rfl)) fun _ =>
      carried.newline inside (.inr rfl)

theorem readFrom_line_carried (resting : part = .start ∨ part = .gap) (notBreak : c ≠ '\n') :
    Carries (Found more) (readFrom setting (c :: rest) place part gap done sighted)
      (readFrom setting (c :: (rest ++ more)) (place.extend more) part gap done sightedToo) := by
  have someChar := inside.lines.ne_nil notBreak
  obtain ⟨-, remains⟩ := IsLines.dropWhile (p := isBlank) inside.lines.2 someChar rfl
  have whole : atDocumentIndicator (c :: (rest ++ more)) = atDocumentIndicator (c :: rest) :=
    atDocumentIndicator_append inside.lines inside.someChar more
  have blank {part : Part} {gap : Gap} :
      Carries (Found more) (readFrom setting rest place.blank part gap done sighted)
        (readFrom setting (rest ++ more) (place.extend more).blank part gap done sightedToo) :=
    carried.blank inside notBreak
  have stops :
      Carries (Found more) (.ok ⟨done, ⟨place, c :: rest⟩, sighted⟩ : Except Fault Reading)
        (.ok ⟨done, ⟨place.extend more, c :: (rest ++ more)⟩, sightedToo⟩) :=
    .ok ⟨inside.onLines, rfl, rfl⟩
  rcases resting with rfl | rfl
  all_goals simp only [readFrom, dropWhile_append remains, atLineEnd_append remains,
    nextIs_append remains, nextIs_append someChar, whole, continues_append someChar,
    if_neg notBreak]
  all_goals refine .ite (fun _ => .ite (fun _ => blank) fun _ => .error _ _) fun _ => ?_
  all_goals refine .ite (fun _ => .ite (fun _ => blank) fun _ => blank) fun _ => ?_
  all_goals refine .ite (fun _ => stops) fun _ => .ite (fun _ => stops) fun _ => ?_
  all_goals refine .ite (fun _ => .error _ _) fun _ => ?_
  all_goals exact .ite (fun _ => carried.solid inside notBreak) fun _ => stops

end Rest

theorem readFrom_carried (bound : atTriple '-' more = true) : IsCarried setting text more := by
  induction text with
  | nil =>
      intro place part gap done sighted sightedToo onLines atLineStart
      have resting := atLineStart rfl
      have fresh : (place.extend more).fresh = true := (onLines.start rfl).2
      rw [List.nil_append, readFrom_bound bound resting gap done sightedToo fresh]
      rcases resting with rfl | rfl
      · exact .ok ⟨onLines, rfl, rfl⟩
      · exact .ok ⟨onLines, rfl, rfl⟩
  | cons c rest carried =>
      intro place part gap done sighted sightedToo onLines _
      have inside := onLines.inside (List.cons_ne_nil c rest)
      rw [List.cons_append]
      cases part with
      | word ahead => exact readFrom_word_carried carried inside
      | comment => exact readFrom_comment_carried carried inside
      | start | gap =>
          by_cases isBreak : c = '\n'
          · exact readFrom_break_carried carried inside (by simp) isBreak
          · exact readFrom_line_carried carried inside (by simp) isBreak

theorem read_carried {cursor : Cursor} (bound : atTriple '-' more = true)
    (inside : cursor.Inside) (indent : Int) (inFlow : Bool) :
    Carries (Found more) (read cursor indent inFlow) (read (cursor.extend more) indent inFlow) := by
  refine (readFrom_carried bound _ .start {} [] _ _ inside.onLines fun _ => .inl rfl).bind ?_
  rintro found image ⟨onLines, sameText, sameCursor⟩
  rw [sameText]
  exact .ite (fun _ => .error _ _) fun _ => .ok ⟨onLines, rfl, sameCursor⟩

end Plain

/-! ## Quoted scalars -/

namespace Quoted

variable {setting : Setting}

/-- A text of whole lines that is read in the same way, from any place, if more text follows it. -/
def IsCarried (setting : Setting) (text more : List Char) : Prop :=
  ∀ (place : Place) (part : Part) (done : List Char), Cursor.OnLines ⟨place, text⟩ →
    Carries (FoundInside more) (readFrom setting text place part done)
      (readFrom setting (text ++ more) (place.extend more) part done)

section Rest

variable {part : Part} {done : List Char}

theorem IsCarried.blank (carried : IsCarried setting rest more)
    (inside : Cursor.Inside ⟨place, c :: rest⟩) (notBreak : c ≠ '\n') :
    Carries (FoundInside more) (readFrom setting rest place.blank part done)
      (readFrom setting (rest ++ more) (place.extend more).blank part done) := by
  rw [Cursor.blank_extend inside.left]
  exact carried _ part done (inside.blank notBreak).onLines

theorem IsCarried.solid (carried : IsCarried setting rest more)
    (inside : Cursor.Inside ⟨place, c :: rest⟩) (notBreak : c ≠ '\n') :
    Carries (FoundInside more) (readFrom setting rest place.solid part done)
      (readFrom setting (rest ++ more) (place.extend more).solid part done) := by
  rw [Cursor.solid_extend inside.left]
  exact carried _ part done (inside.solid notBreak).onLines

theorem IsCarried.newline (carried : IsCarried setting rest more)
    (inside : Cursor.Inside ⟨place, c :: rest⟩) :
    Carries (FoundInside more) (readFrom setting rest place.newline part done)
      (readFrom setting (rest ++ more) (place.extend more).newline part done) := by
  rw [Cursor.newline_extend inside.left]
  exact carried _ part done inside.newline

theorem readFrom_code_carried (carried : IsCarried setting rest more)
    (inside : Cursor.Inside ⟨place, c :: rest⟩) (digits value : Nat) :
    Carries (FoundInside more) (readFrom setting (c :: rest) place (.code digits value) done)
      (readFrom setting (c :: (rest ++ more)) (place.extend more) (.code digits value) done) := by
  simp only [readFrom]
  rcases isDigit : Hex.value? c with _ | digit
  · exact .error _ _
  have notBreak := Tag.ne_break_of_value? isDigit
  refine .ite (fun _ => ?_) fun _ => carried.solid inside notBreak
  rcases Hex.char? (16 * value + digit) with _ | escaped
  · exact .error _ _
  · exact carried.solid inside notBreak

/-- A quote in a scalar in single quotes, at the end of it or before another quote. -/
def readQuote (setting : Setting) (place : Place) (done : List Char) :
    List Char → Except Fault (List Char × Cursor)
  | '\'' :: rest => readFrom setting rest place.solid .text ('\'' :: done)
  | rest => .ok (done.reverse, ⟨place, rest⟩)

theorem readQuote_carried (carried : IsCarried setting rest more)
    (inside : Cursor.Inside ⟨place, c :: rest⟩) :
    Carries (FoundInside more) (readQuote setting place done (c :: rest))
      (readQuote setting (place.extend more) done (c :: (rest ++ more))) := by
  by_cases doubled : c = '\''
  · subst doubled
    exact carried.solid inside (by decide)
  · have ends (place : Place) (rest : List Char) :
        readQuote setting place done (c :: rest) = .ok (done.reverse, ⟨place, c :: rest⟩) := by
      rw [readQuote]
      exact fun rest isQuote => doubled (List.cons.inj isQuote).1
    rw [ends, ends]
    exact .ok ⟨inside, rfl⟩

/-- What follows a backslash. -/
def readEscape (setting : Setting) (place : Place) (done : List Char) :
    List Char → Except Fault (List Char × Cursor)
  | [] => .error ⟨setting.start, .escapeUnknown⟩
  | '\n' :: rest => readFrom setting rest place.newline (.gap { lines := true }) done
  | c :: rest =>
      match escape? c with
      | none => .error ⟨setting.start, .escapeUnknown⟩
      | some (.char escaped) => readFrom setting rest place.solid .text (escaped :: done)
      | some (.code digits) => readFrom setting rest place.solid (.code digits 0) done

theorem readEscape_carried (carried : IsCarried setting rest more)
    (inside : Cursor.Inside ⟨place, c :: rest⟩) :
    Carries (FoundInside more) (readEscape setting place done (c :: rest))
      (readEscape setting (place.extend more) done (c :: (rest ++ more))) := by
  by_cases isBreak : c = '\n'
  · subst isBreak
    exact carried.newline inside
  · simp only [readEscape]
    rcases escape? c with _ | ⟨escaped⟩ | ⟨digits⟩
    · exact .error _ _
    · exact carried.solid inside isBreak
    · exact carried.solid inside isBreak

theorem readFrom_break_carried (carried : IsCarried setting rest more)
    (inside : Cursor.Inside ⟨place, '\n' :: rest⟩)
    (notCode : ∀ digits value : Nat, part ≠ .code digits value) :
    Carries (FoundInside more) (readFrom setting ('\n' :: rest) place part done)
      (readFrom setting ('\n' :: (rest ++ more)) (place.extend more) part done) := by
  have notBlank : isBlank '\n' = false := rfl
  cases part with
  | code digits value => exact absurd rfl (notCode digits value)
  | text | gap gap =>
      simp only [readFrom, notBlank, Bool.false_eq_true, if_false, if_true]
      exact .ite (fun _ => carried.newline inside) fun _ => carried.newline inside

theorem readFrom_line_carried (carried : IsCarried setting rest more)
    (carriedLater : IsCarried setting rest.tail more) (inside : Cursor.Inside ⟨place, c :: rest⟩)
    (notBreak : c ≠ '\n') (notCode : ∀ digits value : Nat, part ≠ .code digits value) :
    Carries (FoundInside more) (readFrom setting (c :: rest) place part done)
      (readFrom setting (c :: (rest ++ more)) (place.extend more) part done) := by
  have whole : atDocumentIndicator (c :: (rest ++ more)) = atDocumentIndicator (c :: rest) :=
    atDocumentIndicator_append inside.lines inside.someChar more
  have next := inside.solid notBreak
  have sameNext : (place.extend more).solid = place.solid.extend more :=
    Cursor.solid_extend inside.left more
  have blank {part : Part} {done : List Char} :
      Carries (FoundInside more) (readFrom setting rest place.blank part done)
        (readFrom setting (rest ++ more) (place.extend more).blank part done) :=
    carried.blank inside notBreak
  have solid {part : Part} {done : List Char} :
      Carries (FoundInside more) (readFrom setting rest place.solid part done)
        (readFrom setting (rest ++ more) (place.extend more).solid part done) :=
    carried.solid inside notBreak
  have closes {done : List Char} :
      Carries (FoundInside more)
        (.ok (done, ⟨place.solid, rest⟩) : Except Fault (List Char × Cursor))
        (.ok (done, ⟨(place.extend more).solid, rest ++ more⟩)) := by
    rw [sameNext]
    exact .ok ⟨next, rfl⟩
  have quote {done : List Char} :
      Carries (FoundInside more) (readQuote setting place.solid done rest)
        (readQuote setting (place.extend more).solid done (rest ++ more)) := by
    obtain ⟨d, others, rfl⟩ := List.exists_cons_of_ne_nil next.someChar
    rw [sameNext]
    exact readQuote_carried carriedLater next
  have escape {done : List Char} :
      Carries (FoundInside more) (readEscape setting place.solid done rest)
        (readEscape setting (place.extend more).solid done (rest ++ more)) := by
    obtain ⟨d, others, rfl⟩ := List.exists_cons_of_ne_nil next.someChar
    rw [sameNext]
    exact readEscape_carried carriedLater next
  cases part with
  | code digits value => exact absurd rfl (notCode digits value)
  | text | gap gap =>
      simp only [readFrom, whole, if_neg notBreak]
      refine .ite (fun _ => ?_) fun _ => ?_
      · exact .ite (fun _ => blank) fun _ => .ite (fun _ => .error _ _) fun _ => blank
      refine .ite (fun _ => .error _ _) fun _ => .ite (fun _ => .error _ _) fun _ => ?_
      refine .ite (fun _ => .ite (fun _ => quote) fun _ => solid) fun _ => ?_
      exact .ite (fun _ => closes) fun _ => .ite (fun _ => escape) fun _ => solid

end Rest

theorem readFrom_carried : IsCarried setting text more := by
  -- A quote or a backslash takes the next character with it.
  induction length : text.length using Nat.strongRecOn generalizing text with
  | ind size inductionHypothesis =>
  intro place part done onLines
  rcases text with _ | ⟨c, rest⟩
  · cases part <;> exact .error _ _
  have inside := onLines.inside (List.cons_ne_nil c rest)
  rw [List.length_cons] at length
  have carried : IsCarried setting rest more := inductionHypothesis _ (by omega) rfl
  have carriedLater : IsCarried setting rest.tail more := by
    refine inductionHypothesis rest.tail.length ?_ rfl
    rw [List.length_tail]
    omega
  rw [List.cons_append]
  cases part with
  | code digits value => exact readFrom_code_carried carried inside digits value
  | text | gap gap =>
      by_cases isBreak : c = '\n'
      · subst isBreak
        exact readFrom_break_carried carried inside nofun
      · exact readFrom_line_carried carried carriedLater inside isBreak nofun

theorem read_carried {cursor : Cursor} (inside : cursor.Inside)
    (sign : cursor.rest.head? ≠ some '\n') (indent : Int) (single : Bool) :
    Carries (FoundInside more) (read cursor indent single)
      (read (cursor.extend more) indent single) := by
  obtain ⟨place, _ | ⟨c, rest⟩⟩ := cursor
  · exact absurd rfl inside.someChar
  have notBreak : c ≠ '\n' := fun isBreak => sign (congrArg some isBreak)
  have opened := inside.solid notBreak
  simp only [read, Cursor.extend, List.cons_append, List.tail_cons,
    Cursor.solid_extend inside.left]
  exact readFrom_carried _ .text [] opened.onLines

end Quoted

/-! ## Block scalars -/

namespace Block

theorem header_append (lines : IsLines text) (someChar : text ≠ []) (more : List Char) :
    header (text ++ more) = header text := by
  rcases text with _ | ⟨c, _ | ⟨d, rest⟩⟩
  · exact absurd rfl someChar
  · obtain rfl := lines.1 rfl
    cases more <;> rfl
  · rfl

theorem ne_break_of_chomping? {chomping : Chomping} (indicates : chomping? c = some chomping) :
    c ≠ '\n' := by
  rintro rfl
  cases indicates

theorem ne_break_of_increment? {increment : Nat} (indicates : increment? c = .ok (some increment)) :
    c ≠ '\n' := by
  rintro rfl
  cases indicates

/-- The indicators of a header are no line breaks. -/
theorem ne_break_of_header {head : Header} (reads : header text = .ok head) :
    ∀ d ∈ text.take head.length, d ≠ '\n' := by
  rcases text with _ | ⟨c, _ | ⟨d, rest⟩⟩
  · simp
  · rw [header] at reads
    rcases chomps : chomping? c with _ | chomping
    · rcases increases : increment? c with cause | _ | increment
      · simp [chomps, increases, Except.map] at reads
      · simp only [chomps, increases, Except.map, Except.ok.injEq] at reads
        simp [← reads]
      · simp only [chomps, increases, Except.map, Except.ok.injEq] at reads
        simp [← reads, ne_break_of_increment? increases]
    · simp only [chomps, Except.ok.injEq] at reads
      simp [← reads, ne_break_of_chomping? chomps]
  · rw [header] at reads
    rcases chomps : chomping? c with _ | chomping
    · rcases increases : increment? c with cause | _ | increment
      · simp [chomps, increases, Except.map] at reads
      · simp only [chomps, increases, Except.map, Except.ok.injEq] at reads
        simp [← reads]
      · rcases chompsToo : chomping? d with _ | chomping
        · simp only [chomps, increases, chompsToo, Except.map, Except.ok.injEq] at reads
          simp [← reads, ne_break_of_increment? increases]
        · simp only [chomps, increases, chompsToo, Except.map, Except.ok.injEq] at reads
          simp [← reads, ne_break_of_increment? increases, ne_break_of_chomping? chompsToo]
    · rcases increases : increment? d with cause | _ | increment
      · simp [chomps, increases, Except.map] at reads
      · simp only [chomps, increases, Except.map, Except.ok.injEq] at reads
        simp [← reads, ne_break_of_chomping? chomps]
      · simp only [chomps, increases, Except.map, Except.ok.injEq] at reads
        simp [← reads, ne_break_of_chomping? chomps, ne_break_of_increment? increases]

theorem header_carried (lines : IsLines text) (someChar : text ≠ []) (more : List Char) :
    Carries (fun head image => image = head ∧ ∀ d ∈ text.take head.length, d ≠ '\n')
      (header text) (header (text ++ more)) := by
  rw [header_append lines someChar]
  intro head reads
  exact ⟨head, reads, rfl, ne_break_of_header reads⟩

variable {indent : Nat}

/-- Where content begins, in the text and in the longer one, if it does so before the text ends. -/
def FoundStart {α : Type} (more : List Char) (found image : Cursor × α) : Prop :=
  found.1.rest ≠ [] → found.1.Inside ∧ image = (found.1.extend more, found.2)

theorem skipIndent_carried (lines : Nat) (onLines : Cursor.OnLines ⟨place, text⟩)
    (more : List Char) :
    FoundStart more (skipIndent indent text place lines)
      (skipIndent indent (text ++ more) (place.extend more) lines) := by
  induction text generalizing place lines with
  | nil => exact fun stops => absurd rfl stops
  | cons c rest inductionHypothesis =>
      have inside := onLines.inside (List.cons_ne_nil c rest)
      have sameColumn : (place.extend more).column = place.column := rfl
      simp only [List.cons_append, skipIndent, sameColumn]
      refine related_ite (fun indents => ?_) fun _ =>
        related_ite (fun _ => ?_) fun _ _ => ⟨inside, rfl⟩
      · have notBreak : c ≠ '\n' := by
          rintro rfl
          cases indents
        rw [Cursor.blank_extend inside.left]
        exact inductionHypothesis lines (inside.blank notBreak).onLines
      · rw [Cursor.newline_extend inside.left]
        exact inductionHypothesis (lines + 1) inside.newline

theorem measureIndent_carried (lines deepest : Nat) (onLines : Cursor.OnLines ⟨place, text⟩)
    (more : List Char) :
    FoundStart more (measureIndent text place lines deepest)
      (measureIndent (text ++ more) (place.extend more) lines deepest) := by
  induction text generalizing place lines deepest with
  | nil => exact fun stops => absurd rfl stops
  | cons c rest inductionHypothesis =>
      have inside := onLines.inside (List.cons_ne_nil c rest)
      simp only [List.cons_append, measureIndent]
      refine related_ite (fun isSpace => ?_) fun _ =>
        related_ite (fun _ => ?_) fun _ _ => ⟨inside, rfl⟩
      · have notBreak : c ≠ '\n' := by
          rintro rfl
          cases isSpace
        rw [Cursor.blank_extend inside.left]
        exact inductionHypothesis lines deepest (inside.blank notBreak).onLines
      · rw [Cursor.newline_extend inside.left]
        exact inductionHypothesis (lines + 1) (max deepest place.column) inside.newline

/-- Inside a line, columns may differ between the text and the longer one, as they depend on how far
has been looked ahead.  The next line break makes them the same again. -/
structure SamePlace (more : List Char) (line : Option Nat) (place image : Place) : Prop where
  sameLine : image.line = place.line
  sameLeft : image.left = place.left + more.length
  atStart : line = none → image = place.extend more

theorem advance_line (place : Place) (ahead : Nat) (c : Char) :
    (advance place ahead c).line = place.line := by
  rw [advance]
  split <;> rfl

theorem advance_left (place : Place) (ahead : Nat) (c : Char) :
    (advance place ahead c).left = place.left - 1 := by
  rw [advance]
  split <;> rfl

theorem SamePlace.advance {line : Option Nat} {image : Place}
    (same : SamePlace more line place image) (left : place.left = (c :: rest).length)
    (ahead aheadToo next : Nat) :
    SamePlace more (some next) (advance place ahead c) (advance image aheadToo c) := by
  refine ⟨?_, ?_, nofun⟩
  · rw [advance_line, advance_line, same.sameLine]
  · rw [advance_left, advance_left, same.sameLeft, left, List.length_cons]
    omega

theorem SamePlace.newline {line : Option Nat} {image : Place}
    (same : SamePlace more line place image) (left : place.left = (c :: rest).length) :
    SamePlace more none place.newline image.newline := by
  have lefts : image.left - 1 = place.left - 1 + more.length := by
    rw [same.sameLeft, left, List.length_cons]
    omega
  refine ⟨?_, lefts, fun _ => ?_⟩
  · simp [Place.newline, same.sameLine]
  · simp [Place.newline, Place.extend, same.sameLine, lefts]

theorem readLines_bound (bound : atTriple '-' more = true) {folded : Bool} (deep : 0 < indent)
    (atStart : place.column = 0) (ahead : Nat) (content : Content) :
    readLines indent folded more place none ahead content = (content, ⟨place, more⟩) := by
  obtain ⟨later, rfl⟩ := exists_of_atTriple bound
  have shallow : ¬ 0 = indent := by omega
  simp [readLines, atStart, shallow]

/-- What is read of lines, in the text and in the longer one.  Where the text ends, lines without
indentation do not. -/
def FoundLines (indent : Nat) (more : List Char) (found image : Content × Cursor) : Prop :=
  (found.2.rest = [] → 0 < indent) → found.2.OnLines ∧ image = (found.1, found.2.extend more)

/-- A text whose lines are read in the same way, from any place, if more text follows it. -/
def IsCarried (indent : Nat) (folded : Bool) (text more : List Char) : Prop :=
  ∀ (place image : Place) (line lineToo : Option Nat) (ahead aheadToo : Nat) (content : Content),
    (line = none ↔ lineToo = none) → SamePlace more line place image →
    Cursor.OnLines ⟨place, text⟩ → (text = [] → line = none) →
      FoundLines indent more (readLines indent folded text place line ahead content)
        (readLines indent folded (text ++ more) image lineToo aheadToo content)

section Rest

variable {folded : Bool} {image : Place} {content : Content} {ahead aheadToo : Nat}
  (carried : IsCarried indent folded rest more) (inside : Cursor.Inside ⟨place, c :: rest⟩)

include carried inside

theorem IsCarried.newline {line : Option Nat} (same : SamePlace more line place image) :
    FoundLines indent more (readLines indent folded rest place.newline none ahead content)
      (readLines indent folded (rest ++ more) image.newline none aheadToo content) :=
  carried _ _ none none ahead aheadToo content Iff.rfl (same.newline inside.left) inside.newline
    fun _ => rfl

theorem IsCarried.advance {line : Option Nat} (same : SamePlace more line place image)
    (notBreak : c ≠ '\n') (sighted sightedToo next nextToo : Nat) :
    FoundLines indent more
      (readLines indent folded rest (advance place sighted c) (some next) ahead content)
      (readLines indent folded (rest ++ more) (advance image sightedToo c) (some nextToo) aheadToo
        content) := by
  have onward : Cursor.Inside ⟨Block.advance place sighted c, rest⟩ :=
    ⟨(advance_left place sighted c).trans (inside.blank notBreak).left, inside.lines.2,
      inside.lines.ne_nil notBreak⟩
  exact carried _ _ _ _ _ _ _ (by simp) (same.advance inside.left sighted sightedToo next)
    onward.onLines fun isEmpty => absurd isEmpty onward.someChar

theorem readLines_within_carried {line lineToo : Nat}
    (same : SamePlace more (some line) place image) :
    FoundLines indent more (readLines indent folded (c :: rest) place (some line) ahead content)
      (readLines indent folded (c :: (rest ++ more)) image (some lineToo) aheadToo content) := by
  simp only [readLines]
  exact related_ite (fun _ => carried.newline inside same) fun notBreak =>
    carried.advance inside same notBreak _ _ _ _

theorem readLines_between_carried :
    FoundLines indent more (readLines indent folded (c :: rest) place none ahead content)
      (readLines indent folded (c :: (rest ++ more)) (place.extend more) none aheadToo
        content) := by
  have same : SamePlace more none place (place.extend more) := ⟨rfl, rfl, fun _ => rfl⟩
  have whole : atTriple '.' (c :: (rest ++ more)) = atTriple '.' (c :: rest) :=
    atTriple_append inside.lines inside.someChar (by decide) more
  have sameColumn : (place.extend more).column = place.column := rfl
  simp only [readLines, whole, sameColumn]
  refine related_ite (fun indents => ?_) fun _ => ?_
  rotate_left
  · exact related_ite (fun _ => carried.newline inside same) fun notBreak =>
      related_ite (fun _ => carried.advance inside same notBreak _ _ _ _) fun _ _ =>
        ⟨inside.onLines, rfl⟩
  have notBreak : c ≠ '\n' := by
    rintro rfl
    cases indents
  rw [Cursor.blank_extend inside.left]
  exact carried _ _ none none ahead aheadToo content Iff.rfl ⟨rfl, rfl, fun _ => rfl⟩
    (inside.blank notBreak).onLines fun _ => rfl

end Rest

theorem readLines_carried (bound : atTriple '-' more = true) (folded : Bool) :
    IsCarried indent folded text more := by
  induction text with
  | nil =>
      intro place image line lineToo ahead aheadToo content sameLine same onLines between stops
      obtain rfl := between rfl
      obtain rfl := sameLine.mp rfl
      obtain rfl := same.atStart rfl
      have atStart : (place.extend more).column = 0 := (onLines.start rfl).1
      rw [List.nil_append, readLines_bound bound (stops rfl) atStart]
      exact ⟨onLines, rfl⟩
  | cons c rest carried =>
      intro place image line lineToo ahead aheadToo content sameLine same onLines _
      have inside := onLines.inside (List.cons_ne_nil c rest)
      rcases line with _ | line
      · obtain rfl := sameLine.mp rfl
        obtain rfl := same.atStart rfl
        exact readLines_between_carried carried inside
      · rcases lineToo with _ | lineToo
        · exact absurd (sameLine.mpr rfl) nofun
        · exact readLines_within_carried carried inside same

theorem finish_extend {next : Cursor} (onLines : next.OnLines) (someMore : more ≠ [])
    (content : Content) (chomping : Chomping) :
    content.finish chomping indent (next.extend more) = content.finish chomping indent next := by
  have notAtEnd : ¬ (next.rest = [] ∧ max indent 1 ≤ next.column) := by
    rintro ⟨isEmpty, within⟩
    have atStart := (onLines.start isEmpty).1
    omega
  have notAtEndToo :
      ¬ ((next.extend more).rest = [] ∧ max indent 1 ≤ (next.extend more).column) := by
    rintro ⟨isEmpty, -⟩
    exact someMore (List.append_eq_nil_iff.mp isEmpty).2
  simp only [Content.finish, if_neg notAtEnd, if_neg notAtEndToo]

/-- Where the content of a block scalar begins, the number of empty lines before it, and how far it
is indented. -/
def opening (increment : Nat) (outer : Int) (body : Cursor) : Cursor × Nat × Nat :=
  if increment = 0 then
    let (first, emptyLines, deepest) := measureIndent body.rest body.toPlace 0 0
    (first, emptyLines, max deepest (outer + 1).toNat)
  else
    let indent := outer.toNat + increment
    let (first, emptyLines) := skipIndent indent body.rest body.toPlace 0
    (first, emptyLines, indent)

/-- The content of a block scalar whose header has been read. -/
def readContent (cursor : Cursor) (head : Header) (outer : Int) (folded : Bool) (sighted : Nat) :
    Cursor × Nat × Nat → Except Fault Reading
  | (first, emptyLines, indent) =>
      if first.rest = [] then
        .ok ⟨cursor.mark, emptyText head.chomping (first.line = cursor.line) emptyLines, first⟩
      else if first.column < indent && outer < (first.column : Int) then
        first.fault .blockLineShallow
      else
        let ahead :=
          if head.increment = 0 then max 1 (first.left - sighted) else sightedAfter indent
        let (content, next) := readLines indent folded first.rest first.toPlace none ahead
          { emptyLines := emptyLines }
        .ok ⟨first.mark, content.finish head.chomping indent next, next⟩

theorem read_eq (cursor : Cursor) (outer : Int) (folded : Bool) (sighted : Nat) :
    read cursor outer folded sighted = (do
      let head ← (header cursor.rest.tail).mapError fun cause => ⟨cursor.mark, cause⟩
      let (afterHeader, _) ← (cursor.solid (head.length + 1)).skipBlanks true
      if !atLineEnd afterHeader.rest then
        cursor.fault .blockHeaderTrailing
      else if nextIs (· = '\t') afterHeader.skipBreak.rest then
        cursor.fault .blockStartsWithTab
      else
        readContent cursor head outer folded sighted
          (opening head.increment outer afterHeader.skipBreak)) :=
  rfl

variable {increment : Nat} {outer : Int} {body : Cursor}

theorem opening_carried (onLines : body.OnLines) (more : List Char) :
    FoundStart more (opening increment outer body)
      (opening increment outer (body.extend more)) := by
  intro stops
  unfold opening at stops ⊢
  by_cases isMeasured : increment = 0
  · simp only [if_pos isMeasured] at stops ⊢
    obtain ⟨stays, same⟩ := measureIndent_carried 0 0 onLines more stops
    exact ⟨stays, by rw [Cursor.extend_rest, Cursor.extend, same]⟩
  · simp only [if_neg isMeasured] at stops ⊢
    obtain ⟨stays, same⟩ := skipIndent_carried 0 onLines more stops
    exact ⟨stays, by rw [Cursor.extend_rest, Cursor.extend, same]⟩

/-- In a block the content of a scalar is indented. -/
theorem opening_indent_pos (inBlock : 0 ≤ outer) : 0 < (opening increment outer body).2.2 := by
  unfold opening
  split
  · have deep : 0 < (outer + 1).toNat := by omega
    exact Nat.lt_of_lt_of_le deep (Nat.le_max_right _ _)
  · change 0 < outer.toNat + increment
    omega

theorem eq_break_of_mem_emptyText {chomping : Chomping} {sameLine : Bool} {emptyLines : Nat}
    {d : Char} (member : d ∈ emptyText chomping sameLine emptyLines) : d = '\n' := by
  unfold emptyText at member
  split at member
  · cases member
  · cases chomping with
    | strip => cases member
    | clip => exact List.mem_singleton.mp member
    | keep => exact List.eq_of_mem_replicate member

/-- What is read in the text is read in the longer one too, if it has content where it reaches the
end of the text and stands in a block then. -/
def ReadsOn (more : List Char) (inBlock : Prop) (result image : Except Fault Reading) : Prop :=
  ∀ reading, result = .ok reading →
    (reading.cursor.rest = [] → (∃ d ∈ reading.text, d ≠ '\n') ∧ inBlock) →
      reading.cursor.OnLines ∧ image = .ok { reading with cursor := reading.cursor.extend more }

theorem ReadsOn.error {inBlock : Prop} (fault : Fault) (image : Except Fault Reading) :
    ReadsOn more inBlock (.error fault) image := by
  intro reading reads
  cases reads

theorem ReadsOn.of_bind {α β : Type} {inBlock : Prop} {related : α → β → Prop}
    {result : Except Fault α} {other : Except Fault β} {goOn : α → Except Fault Reading}
    {otherGoOn : β → Except Fault Reading} (first : Carries related result other)
    (later : ∀ value image, related value image →
      ReadsOn more inBlock (goOn value) (otherGoOn image)) :
    ReadsOn more inBlock (result >>= goOn) (other >>= otherGoOn) := by
  intro reading reads ends
  obtain ⟨value, isValue, goesOn⟩ := exists_of_bind_eq_ok reads
  obtain ⟨image, isImage, holds⟩ := first value isValue
  rw [isImage]
  exact later value image holds reading goesOn ends

theorem readContent_carried (bound : atTriple '-' more = true) {cursor : Cursor} {head : Header}
    {folded : Bool} {sighted : Nat} (sightedToo : Nat) (onLines : body.OnLines) :
    ReadsOn more (0 ≤ outer)
      (readContent cursor head outer folded sighted (opening increment outer body))
      (readContent (cursor.extend more) head outer folded sightedToo
        (opening increment outer (body.extend more))) := by
  intro reading reads ends
  have starts : FoundStart more (opening increment outer body)
      (opening increment outer (body.extend more)) := opening_carried onLines more
  have indented (inBlock : 0 ≤ outer) : 0 < (opening increment outer body).2.2 :=
    opening_indent_pos inBlock
  rcases opened : opening increment outer body with ⟨first, emptyLines, indent⟩
  rw [opened] at reads starts indented
  by_cases noContent : first.rest = []
  · rw [readContent, if_pos noContent] at reads
    cases reads
    obtain ⟨⟨d, member, notBreak⟩, -⟩ := ends noContent
    exact absurd (eq_break_of_mem_emptyText member) notBreak
  obtain ⟨inside, sameOpening⟩ := starts noContent
  have someContent : ¬ (first.extend more).rest = [] :=
    fun isEmpty => noContent (List.append_eq_nil_iff.mp isEmpty).1
  rw [readContent, if_neg noContent] at reads
  rw [sameOpening, readContent, if_neg someContent]
  split at reads
  · cases reads
  rename_i deep
  have deepToo :
      ¬ (decide ((first.extend more).column < indent) &&
        decide (outer < ((first.extend more).column : Int))) = true := deep
  rw [if_neg deepToo]
  simp only [Except.ok.injEq] at reads
  subst reads
  have sameStart : SamePlace more none first.toPlace (first.extend more).toPlace :=
    ⟨rfl, rfl, fun _ => rfl⟩
  obtain ⟨stays, same⟩ :=
    readLines_carried bound folded first.toPlace _ none none _
      (if head.increment = 0 then max 1 ((first.extend more).left - sightedToo)
        else sightedAfter indent)
      { emptyLines := emptyLines } Iff.rfl sameStart inside.onLines (fun _ => rfl)
      fun atEnd => indented (ends atEnd).2
  refine ⟨stays, ?_⟩
  rw [Cursor.extend_rest]
  simp only [same, Cursor.extend_mark, finish_extend stays (ne_nil_of_atTriple bound)]

theorem read_carried {cursor : Cursor} (bound : atTriple '-' more = true) (inside : cursor.Inside)
    (sign : cursor.rest.head? ≠ some '\n') (outer : Int) (folded : Bool)
    (sighted sightedToo : Nat) :
    ReadsOn more (0 ≤ outer) (read cursor outer folded sighted)
      (read (cursor.extend more) outer folded sightedToo) := by
  obtain ⟨place, _ | ⟨c, rest⟩⟩ := cursor
  · exact absurd rfl inside.someChar
  have notBreak : c ≠ '\n' := fun isBreak => sign (congrArg some isBreak)
  rw [read_eq, read_eq]
  refine .of_bind (header_carried inside.lines.2 (inside.lines.ne_nil notBreak) more).mapError ?_
  rintro _ head ⟨rfl, noBreak⟩
  have passed : ∀ d ∈ (c :: rest).take (head.length + 1), d ≠ '\n' := by
    rw [List.take_succ_cons]
    exact List.forall_mem_cons.mpr ⟨notBreak, noBreak⟩
  obtain ⟨stays, same, -⟩ := Cursor.solid_carried more inside _ passed
  rw [same]
  refine .of_bind (Cursor.skipBlanks_carried more stays true) ?_
  rintro ⟨afterHeader, _⟩ _ ⟨staysAfter, rfl⟩
  simp only [Cursor.extend_rest, atLineEnd_append staysAfter.someChar]
  refine related_ite (fun _ => .error _ _) fun atEnd => ?_
  rw [Bool.not_eq_true', Bool.not_eq_false] at atEnd
  obtain ⟨body, sameBody⟩ := Cursor.skipBreak_carried more staysAfter atEnd
  rw [sameBody, Cursor.extend_rest, nextIs_append_of_atTriple bound (by decide)]
  exact related_ite (fun _ => .error _ _) fun _ => readContent_carried bound sightedToo body

end Block
end Yaml
end FieldLine
