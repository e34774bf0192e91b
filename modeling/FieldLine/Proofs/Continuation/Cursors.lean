import FieldLine.Proofs.Results
import FieldLine.Yaml.Directive
import Mathlib.Data.List.TakeWhile

/-!
# Texts that go on

A text of whole lines is read in the same way if more text follows it: a line break ends whatever
is looked at ahead.  What is read from a cursor in the text is therefore also read from the cursor
of the longer text, which has the same place apart from the number of characters left.
-/

namespace FieldLine

namespace Yaml

/-! ## Whole lines -/

/-- Whether a text consists of whole lines: if it is not empty, a line break is its end. -/
def IsLines : List Char → Prop
  | [] => True
  | c :: rest => (rest = [] → c = '\n') ∧ IsLines rest

variable {c d : Char} {rest text more : List Char} {p : Char → Bool}

theorem isLines_append_break (text : List Char) : IsLines (text ++ ['\n']) := by
  induction text with
  | nil => exact ⟨fun _ => rfl, trivial⟩
  | cons c rest inductionHypothesis =>
      exact ⟨fun isEmpty => absurd isEmpty (by simp), inductionHypothesis⟩

theorem IsLines.ne_nil (lines : IsLines (c :: rest)) (notBreak : c ≠ '\n') : rest ≠ [] :=
  fun isEmpty => notBreak (lines.1 isEmpty)

/-- A class without the line break ends before the text does. -/
theorem IsLines.dropWhile (lines : IsLines text) (someChar : text ≠ [])
    (noBreak : p '\n' = false) : IsLines (text.dropWhile p) ∧ text.dropWhile p ≠ [] := by
  induction text with
  | nil => exact absurd rfl someChar
  | cons c rest inductionHypothesis =>
      by_cases inClass : p c = true
      · rw [List.dropWhile_cons_of_pos inClass]
        refine inductionHypothesis lines.2 (lines.ne_nil ?_)
        rintro rfl
        rw [noBreak] at inClass
        cases inClass
      · rw [List.dropWhile_cons_of_neg inClass]
        exact ⟨lines, List.cons_ne_nil c rest⟩

theorem IsLines.takeWhile_append (lines : IsLines text) (someChar : text ≠ [])
    (noBreak : p '\n' = false) (more : List Char) :
    (text ++ more).takeWhile p = text.takeWhile p := by
  induction text with
  | nil => exact absurd rfl someChar
  | cons c rest inductionHypothesis =>
      by_cases inClass : p c = true
      · have notBreak : c ≠ '\n' := by
          rintro rfl
          rw [noBreak] at inClass
          cases inClass
        rw [List.cons_append, List.takeWhile_cons_of_pos inClass,
          List.takeWhile_cons_of_pos inClass,
          inductionHypothesis lines.2 (lines.ne_nil notBreak)]
      · rw [List.cons_append, List.takeWhile_cons_of_neg inClass,
          List.takeWhile_cons_of_neg inClass]

theorem dropWhile_append (remains : text.dropWhile p ≠ []) (more : List Char) :
    (text ++ more).dropWhile p = text.dropWhile p ++ more := by
  rw [List.dropWhile_append, if_neg (by simpa using remains)]

/-! ## Looking ahead -/

theorem nextIs_append (someChar : text ≠ []) (more : List Char) :
    nextIs p (text ++ more) = nextIs p text := by
  cases text with
  | nil => exact absurd rfl someChar
  | cons c rest => rfl

theorem atGap_append (someChar : text ≠ []) (more : List Char) :
    atGap (text ++ more) = atGap text := by
  cases text with
  | nil => exact absurd rfl someChar
  | cons c rest => rfl

theorem atLineEnd_append (someChar : text ≠ []) (more : List Char) :
    atLineEnd (text ++ more) = atLineEnd text := by
  cases text with
  | nil => exact absurd rfl someChar
  | cons c rest => rfl

/-- Three marks and a gap fit into a line, so what follows the line makes no difference. -/
theorem atTriple_append (lines : IsLines text) (someChar : text ≠ []) (notBreak : c ≠ '\n')
    (more : List Char) : atTriple c (text ++ more) = atTriple c text := by
  rcases text with _ | ⟨c₁, _ | ⟨c₂, _ | ⟨c₃, rest⟩⟩⟩
  · exact absurd rfl someChar
  · obtain rfl := lines.1 rfl
    rcases more with _ | ⟨d₁, _ | ⟨d₂, later⟩⟩ <;> simp [atTriple, notBreak.symm]
  · obtain rfl := lines.2.1 rfl
    rcases more with _ | ⟨d₁, later⟩ <;> simp [atTriple, notBreak.symm]
  · by_cases isLast : rest = []
    · obtain rfl := lines.2.2.1 isLast
      simp [atTriple, notBreak.symm]
    · simp only [List.cons_append, atTriple, atGap_append isLast]

theorem atDocumentIndicator_append (lines : IsLines text) (someChar : text ≠ [])
    (more : List Char) : atDocumentIndicator (text ++ more) = atDocumentIndicator text := by
  rw [atDocumentIndicator, atDocumentIndicator, atTriple_append lines someChar (by decide),
    atTriple_append lines someChar (by decide)]

theorem exists_of_atTriple (bound : atTriple c text = true) :
    ∃ later : List Char, text = c :: later := by
  rcases text with _ | ⟨c₁, _ | ⟨c₂, _ | ⟨c₃, rest⟩⟩⟩
  · cases bound
  · cases bound
  · cases bound
  · simp only [atTriple, Bool.and_eq_true, decide_eq_true_eq] at bound
    exact ⟨_, by rw [bound.1.1.1]⟩

theorem ne_nil_of_atTriple (bound : atTriple c text = true) : text ≠ [] := by
  obtain ⟨later, rfl⟩ := exists_of_atTriple bound
  exact List.cons_ne_nil c later

/-- Even at the end of the text, what follows makes no difference to who looks for another mark. -/
theorem nextIs_append_of_atTriple (bound : atTriple c more = true) (noMark : p c = false)
    (text : List Char) : nextIs p (text ++ more) = nextIs p text := by
  cases text with
  | nil =>
      obtain ⟨later, rfl⟩ := exists_of_atTriple bound
      exact noMark
  | cons d rest => rfl

theorem ne_break_of_isBlank (isBlankChar : isBlank c = true) : c ≠ '\n' := by
  rintro rfl
  cases isBlankChar

theorem head?_ne_break (isNext : nextIs p text = true) (noBreak : p '\n' = false) :
    text.head? ≠ some '\n' := by
  cases text with
  | nil => nofun
  | cons c rest =>
      intro isBreak
      cases isBreak
      rw [nextIs, noBreak] at isNext
      cases isNext

/-! ## Cursors -/

def Place.extend (more : List Char) (place : Place) : Place :=
  { place with left := place.left + more.length }

namespace Cursor

/-- The cursor at the same place of the text that goes on with more. -/
def extend (more : List Char) (cursor : Cursor) : Cursor :=
  ⟨cursor.toPlace.extend more, cursor.rest ++ more⟩

/-- A cursor in a text of whole lines, before its end. -/
structure Inside (cursor : Cursor) : Prop where
  left : cursor.left = cursor.rest.length
  lines : IsLines cursor.rest
  someChar : cursor.rest ≠ []

/-- A cursor in a text of whole lines or at its end, where a line would start. -/
structure OnLines (cursor : Cursor) : Prop where
  left : cursor.left = cursor.rest.length
  lines : IsLines cursor.rest
  start : cursor.rest = [] → cursor.column = 0 ∧ cursor.fresh = true

variable {cursor : Cursor} {place : Place}

theorem Inside.onLines (inside : cursor.Inside) : cursor.OnLines :=
  ⟨inside.left, inside.lines, fun isEmpty => absurd isEmpty inside.someChar⟩

theorem OnLines.inside (onLines : cursor.OnLines) (someChar : cursor.rest ≠ []) : cursor.Inside :=
  ⟨onLines.left, onLines.lines, someChar⟩

@[simp]
theorem extend_rest (cursor : Cursor) : (cursor.extend more).rest = cursor.rest ++ more :=
  rfl

@[simp]
theorem extend_mark (cursor : Cursor) : (cursor.extend more).mark = cursor.mark :=
  rfl

@[simp]
theorem extend_column (cursor : Cursor) : (cursor.extend more).column = cursor.column :=
  rfl

@[simp]
theorem extend_left (cursor : Cursor) :
    (cursor.extend more).left = cursor.left + more.length :=
  rfl

/-! ## Characters -/

theorem blank_extend (left : place.left = (c :: rest).length) (more : List Char) :
    (place.extend more).blank = place.blank.extend more := by
  simp only [Place.extend, Place.blank, left, List.length_cons, Place.mk.injEq, true_and, and_true]
  omega

theorem solid_extend (left : place.left = (c :: rest).length) (more : List Char) :
    (place.extend more).solid = place.solid.extend more := by
  simp only [Place.extend, Place.solid, left, List.length_cons, Place.mk.injEq, true_and, and_true]
  omega

theorem newline_extend (left : place.left = (c :: rest).length) (more : List Char) :
    (place.extend more).newline = place.newline.extend more := by
  simp only [Place.extend, Place.newline, left, List.length_cons, Place.mk.injEq, true_and,
    and_true]
  omega

/-- Over a character that is no line break, a cursor stays inside the text. -/
theorem Inside.blank (inside : Inside ⟨place, c :: rest⟩) (notBreak : c ≠ '\n') :
    Inside ⟨place.blank, rest⟩ := by
  refine ⟨?_, inside.lines.2, inside.lines.ne_nil notBreak⟩
  have left : place.left = rest.length + 1 := inside.left
  simp [Place.blank, left]

theorem Inside.solid (inside : Inside ⟨place, c :: rest⟩) (notBreak : c ≠ '\n') :
    Inside ⟨place.solid, rest⟩ := by
  refine ⟨?_, inside.lines.2, inside.lines.ne_nil notBreak⟩
  have left : place.left = rest.length + 1 := inside.left
  simp [Place.solid, left]

theorem Inside.newline (inside : Inside ⟨place, c :: rest⟩) : OnLines ⟨place.newline, rest⟩ := by
  refine ⟨?_, inside.lines.2, fun _ => ⟨rfl, rfl⟩⟩
  have left : place.left = rest.length + 1 := inside.left
  simp [Place.newline, left]

/-- Characters that are passed by one by one, none of them a line break. -/
theorem solid_carried (more : List Char) (inside : cursor.Inside) (count : Nat)
    (noBreak : ∀ d ∈ cursor.rest.take count, d ≠ '\n') :
    (cursor.solid count).Inside ∧
      (cursor.extend more).solid count = (cursor.solid count).extend more ∧
      (cursor.solid count).rest = cursor.rest.drop count := by
  induction count with
  | zero => exact ⟨inside, rfl, rfl⟩
  | succ count inductionHypothesis =>
      have noBreakBefore : ∀ d ∈ cursor.rest.take count, d ≠ '\n' := fun d member =>
        noBreak d (List.take_subset_take_left cursor.rest (Nat.le_succ count) member)
      obtain ⟨before, same, drops⟩ := inductionHypothesis noBreakBefore
      simp only [Cursor.solid, same]
      rcases reached : cursor.solid count with ⟨place, _ | ⟨d, rest⟩⟩
      · rw [reached] at before
        exact absurd rfl before.someChar
      · rw [reached] at before drops
        have notBreak : d ≠ '\n' := by
          apply noBreak
          have next : cursor.rest[count]? = some d := by
            rw [← List.head?_drop, ← drops]
            rfl
          obtain ⟨within, isNext⟩ := List.getElem?_eq_some_iff.mp next
          rw [List.mem_take_iff_getElem]
          exact ⟨count, by omega, isNext⟩
        refine ⟨before.solid notBreak, ?_, ?_⟩
        · simp only [extend, List.cons_append, List.tail_cons]
          rw [solid_extend before.left]
        · rw [List.tail_cons, ← List.tail_drop, ← drops, List.tail_cons]

theorem solid_one_carried (more : List Char) (inside : cursor.Inside)
    (notBreak : cursor.rest.head? ≠ some '\n') :
    (cursor.solid 1).Inside ∧
      (cursor.extend more).solid 1 = (cursor.solid 1).extend more ∧
      (cursor.solid 1).rest = cursor.rest.tail := by
  have noBreak : ∀ d ∈ cursor.rest.take 1, d ≠ '\n' := by
    intro d member
    rcases text : cursor.rest with _ | ⟨c, later⟩
    · rw [text] at member
      cases member
    · rw [text, List.take_succ_cons, List.take_zero, List.mem_singleton] at member
      rintro rfl
      rw [text, ← member] at notBreak
      exact notBreak rfl
  obtain ⟨stays, same, drops⟩ := solid_carried more inside 1 noBreak
  exact ⟨stays, same, drops.trans List.drop_one⟩

/-! ## Runs of characters -/

theorem skipRun_carried (more : List Char) (inside : cursor.Inside) (noBreak : p '\n' = false) :
    (cursor.skipRun p).Inside ∧
      (cursor.extend more).skipRun p = (cursor.skipRun p).extend more := by
  obtain ⟨lines, someChar⟩ := inside.lines.dropWhile inside.someChar noBreak
  have lengths : (cursor.rest.takeWhile p).length + (cursor.rest.dropWhile p).length =
      cursor.rest.length := by
    rw [← List.length_append, List.takeWhile_append_dropWhile]
  have left := inside.left
  refine ⟨⟨?_, lines, someChar⟩, ?_⟩
  · change cursor.left - (cursor.rest.takeWhile p).length = (cursor.rest.dropWhile p).length
    omega
  · simp only [skipRun, extend, Place.extend, inside.lines.takeWhile_append inside.someChar noBreak,
      dropWhile_append someChar]
    congr 2
    omega

/-! ## Lines -/

theorem skipLine_carried (more : List Char) (inside : cursor.Inside) :
    cursor.skipLine.Inside ∧
      (cursor.extend more).skipLine = cursor.skipLine.extend more :=
  skipRun_carried more inside (by decide)

theorem skipBreak_carried (more : List Char) (inside : cursor.Inside)
    (atEnd : atLineEnd cursor.rest = true) :
    cursor.skipBreak.OnLines ∧ (cursor.extend more).skipBreak = cursor.skipBreak.extend more := by
  obtain ⟨place, _ | ⟨c, rest⟩⟩ := cursor
  · exact absurd rfl inside.someChar
  · obtain rfl : c = '\n' := by simpa [atLineEnd] using atEnd
    refine ⟨inside.newline, ?_⟩
    simp only [extend, skipBreak, List.cons_append]
    rw [newline_extend inside.left]

theorem skipBlanks_carried (more : List Char) (inside : cursor.Inside) (tabs : Bool) :
    Carries (fun found image => found.1.Inside ∧ image = (found.1.extend more, found.2))
      (cursor.skipBlanks tabs) ((cursor.extend more).skipBlanks tabs) := by
  obtain ⟨isGap, isClass⟩ : ∃ isGap : Char → Bool, isGap = fun c => c = ' ' || (tabs && c = '\t') :=
    ⟨_, rfl⟩
  have noBreak : isGap '\n' = false := by
    cases tabs <;> rw [isClass] <;> rfl
  obtain ⟨stays, same⟩ := skipRun_carried more inside noBreak
  obtain ⟨staysOnLine, sameLine⟩ := skipLine_carried more stays
  simp only [skipBlanks, ← isClass, same, extend_rest, nextIs_append stays.someChar,
    inside.lines.takeWhile_append inside.someChar noBreak]
  refine .ite (fun _ => .ite (fun _ => .error _ _) fun _ => .ok ⟨staysOnLine, ?_⟩) fun _ =>
    .ok ⟨stays, rfl⟩
  rw [sameLine]

end Cursor

/-! ## Properties of nodes -/

/-- Something that is found and the cursor after it, in the text and in the longer one. -/
def FoundInside {α : Type} (more : List Char) (found image : α × Cursor) : Prop :=
  found.2.Inside ∧ image = (found.1, found.2.extend more)

variable {cursor : Cursor}

theorem takeWhile_ne_break (noBreak : p '\n' = false) : ∀ d ∈ text.takeWhile p, d ≠ '\n' := by
  rintro d member rfl
  have inClass := List.mem_takeWhile_imp member
  rw [noBreak] at inClass
  cases inClass

theorem take_takeWhile_length (text : List Char) (p : Char → Bool) :
    text.take (text.takeWhile p).length = text.takeWhile p :=
  (List.prefix_iff_eq_take.mp (List.takeWhile_prefix p)).symm

/-- The name of an anchor or alias after its sign. -/
theorem readAnchor_carried (inside : cursor.Inside) (sign : cursor.rest.head? ≠ some '\n') :
    Carries (FoundInside more) (readAnchor cursor) (readAnchor (cursor.extend more)) := by
  obtain ⟨place, _ | ⟨c, rest⟩⟩ := cursor
  · exact absurd rfl inside.someChar
  have notBreak : c ≠ '\n' := fun isBreak => sign (congrArg some isBreak)
  have someChar := inside.lines.ne_nil notBreak
  have noBreak : isAnchorChar '\n' = false := by decide
  have sameName : (rest ++ more).takeWhile isAnchorChar = rest.takeWhile isAnchorChar :=
    IsLines.takeWhile_append inside.lines.2 someChar noBreak more
  have passed : ∀ d ∈ (c :: rest).take ((rest.takeWhile isAnchorChar).length + 1), d ≠ '\n' := by
    rw [List.take_succ_cons, take_takeWhile_length]
    exact List.forall_mem_cons.mpr ⟨notBreak, takeWhile_ne_break noBreak⟩
  obtain ⟨stays, same, -⟩ := Cursor.solid_carried more inside _ passed
  simp only [readAnchor, Cursor.extend_rest, List.cons_append, List.tail_cons, sameName, same]
  exact .ite (fun _ => .error _ _) fun _ => .ok ⟨stays, rfl⟩

namespace Tag

theorem ne_break_of_value? {value : Nat} (isDigit : Hex.value? c = some value) : c ≠ '\n' := by
  rintro rfl
  cases isDigit

/-- The length of an address that has been counted up to a text, in the text and in the longer one.
No line break is counted. -/
def Measures (count : Nat) (text : List Char) (length image : Nat) : Prop :=
  image = length ∧ count ≤ length ∧ ∀ d ∈ text.take (length - count), d ≠ '\n'

theorem Measures.stop (count : Nat) (text : List Char) : Measures count text count count :=
  ⟨rfl, Nat.le_refl count, by simp⟩

theorem Measures.cons {count length image : Nat} (measures : Measures (count + 1) text length image)
    (notBreak : c ≠ '\n') : Measures count (c :: text) length image := by
  obtain ⟨same, longer, passed⟩ := measures
  refine ⟨same, by omega, ?_⟩
  obtain ⟨others, rfl⟩ := Nat.exists_eq_add_of_le longer
  have counts : count + 1 + others - count = others + 1 := by omega
  rw [Nat.add_sub_cancel_left] at passed
  rw [counts, List.take_succ_cons]
  exact List.forall_mem_cons.mpr ⟨notBreak, passed⟩

/-- An escape of an address takes three characters. -/
theorem Measures.escape {a b : Char} {count length image : Nat}
    (measures : Measures (count + 3) text length image) (notBreak : a ≠ '\n' ∧ b ≠ '\n') :
    Measures count ('%' :: a :: b :: text) length image :=
  ((measures.cons notBreak.2).cons notBreak.1).cons (by decide)

/-- An address ends before its line does. -/
theorem measureFrom_carried (noBreak : p '\n' = false) (octets : Option Octets) (count : Nat)
    (lines : IsLines text) (someChar : text ≠ []) (more : List Char) :
    Carries (Measures count text) (measureFrom p text octets count)
      (measureFrom p (text ++ more) octets count) := by
  fun_induction measureFrom p text octets count with
  | case1 a b rest count high low isLow isHigh octet _ onward fresh =>
      have notBreak := And.intro (ne_break_of_value? isHigh) (ne_break_of_value? isLow)
      have remains := lines.2.2.ne_nil notBreak.2
      simp only [List.cons_append, measureFrom, isHigh, isLow]
      refine (Carries.of_eq rfl).bind ?_
      rintro _ image rfl
      exact .ite
        (fun _ => (onward _ lines.2.2.2 remains).mono fun _ _ shorter => shorter.escape notBreak)
        fun _ => .ite
          (fun _ => (fresh lines.2.2.2 remains).mono fun _ _ shorter => shorter.escape notBreak)
          fun _ => .error _ _
  | case2 a b rest count high low isLow isHigh octet _ octets onward fresh =>
      have notBreak := And.intro (ne_break_of_value? isHigh) (ne_break_of_value? isLow)
      have remains := lines.2.2.ne_nil notBreak.2
      simp only [List.cons_append, measureFrom, isHigh, isLow]
      refine (Carries.of_eq rfl).bind ?_
      rintro _ image rfl
      exact .ite
        (fun _ => (onward _ lines.2.2.2 remains).mono fun _ _ shorter => shorter.escape notBreak)
        fun _ => .ite
          (fun _ => (fresh lines.2.2.2 remains).mono fun _ _ shorter => shorter.escape notBreak)
          fun _ => .error _ _
  | case3 => exact .error _ _
  | case4 => exact .error _ _
  | case5 c rest count _ notPercent inClass shorter =>
      have notBreak : c ≠ '\n' := by
        rintro rfl
        rw [noBreak] at inClass
        cases inClass
      have same :
          measureFrom p (c :: rest ++ more) none count =
            measureFrom p (rest ++ more) none (count + 1) := by
        rw [List.cons_append, measureFrom, if_neg notPercent, if_pos inClass]
        exact fun a b later isPercent => absurd isPercent notPercent
      rw [same]
      exact (shorter lines.2 (lines.ne_nil notBreak)).mono fun _ _ shorter => shorter.cons notBreak
  | case6 c rest count _ notPercent notInClass =>
      have same : measureFrom p (c :: rest ++ more) none count = .ok count := by
        rw [List.cons_append, measureFrom, if_neg notPercent, if_neg notInClass]
        exact fun a b later isPercent => absurd isPercent notPercent
      rw [same]
      exact .ok (.stop count _)
  | case7 => exact absurd rfl someChar
  | case8 => exact .error _ _

/-- An address at a cursor, and the cursor after it. -/
theorem measure_carried (noBreak : p '\n' = false) (inside : cursor.Inside) :
    Carries (fun length image => image = length ∧ (cursor.solid length).Inside ∧
        (cursor.extend more).solid length = (cursor.solid length).extend more)
      (measure p cursor.rest) (measure p (cursor.extend more).rest) := by
  refine (measureFrom_carried noBreak none 0 inside.lines inside.someChar more).mono ?_
  rintro _ length ⟨rfl, -, passed⟩
  obtain ⟨stays, same, -⟩ := Cursor.solid_carried more inside length passed
  exact ⟨rfl, stays, same⟩

theorem isUriChar_break : isUriChar '\n' = false := by
  simp [isUriChar, isNameChar]

theorem isTagChar_break : isTagChar '\n' = false := by
  rw [isTagChar, isUriChar_break, Bool.false_and, Bool.false_and]

theorem read_carried (inside : cursor.Inside) (sign : cursor.rest.head? ≠ some '\n')
    (inFlow : Bool) :
    Carries (FoundInside more) (read cursor inFlow) (read (cursor.extend more) inFlow) := by
  obtain ⟨opened, sameOpened, -⟩ := Cursor.solid_one_carried more inside sign
  obtain ⟨named, sameNamed⟩ := Cursor.skipRun_carried more (p := isNameChar) opened rfl
  have ends {handle : Option String} {next : Cursor} (stays : next.Inside) :
      Carries (FoundInside more)
        (if (atGap next.rest || inFlow && nextIs isFlow next.rest) = true then
            pure (handle, next)
          else cursor.fault .tagTrailing)
        (if (atGap (next.rest ++ more) || inFlow && nextIs isFlow (next.rest ++ more)) = true then
            pure (handle, next.extend more)
          else cursor.fault .tagTrailing) := by
    rw [atGap_append stays.someChar, nextIs_append stays.someChar]
    exact .ite (fun _ => .ok ⟨stays, rfl⟩) fun _ => .error _ _
  have sameName :
      ((cursor.solid 1).rest ++ more).takeWhile isNameChar =
        (cursor.solid 1).rest.takeWhile isNameChar :=
    opened.lines.takeWhile_append opened.someChar rfl more
  simp only [read, sameOpened, sameNamed, sameName, Cursor.extend_rest,
    nextIs_append opened.someChar, nextIs_append named.someChar, pure_bind]
  refine .ite ?_ fun _ => .ite ?_ ?_
  · intro isAngle
    have notBreak : (cursor.solid 1).rest.head? ≠ some '\n' := head?_ne_break isAngle (by decide)
    obtain ⟨address, sameAddress, -⟩ := Cursor.solid_one_carried more opened notBreak
    rw [sameAddress]
    refine (measure_carried isUriChar_break address).mapError.bind ?_
    rintro _ length ⟨rfl, closed, sameClosed⟩
    simp only [sameClosed, Cursor.extend_rest, nextIs_append closed.someChar]
    refine .ite (fun isEnd => ?_) fun _ => .error _ _
    obtain ⟨after, sameAfter, -⟩ :=
      Cursor.solid_one_carried more closed (head?_ne_break isEnd (by decide))
    rw [sameAfter]
    exact ends after
  · intro isMark
    obtain ⟨suffix, sameSuffix, -⟩ :=
      Cursor.solid_one_carried more named (head?_ne_break isMark (by decide))
    rw [sameSuffix]
    refine (measure_carried isTagChar_break suffix).mapError.bind ?_
    rintro _ length ⟨rfl, after, sameAfter⟩
    rw [sameAfter]
    exact .ite (fun _ => .error _ _) fun _ => ends after
  · intro _
    refine (measure_carried isTagChar_break named).mapError.bind ?_
    rintro _ length ⟨rfl, after, sameAfter⟩
    rw [sameAfter]
    exact ends after

end Tag

/-! ## Directives -/

namespace Directive

theorem skipNumber_carried (inside : cursor.Inside) :
    Carries (fun found image => found.Inside ∧ image = found.extend more) (skipNumber cursor)
      (skipNumber (cursor.extend more)) := by
  obtain ⟨stays, same⟩ := Cursor.skipRun_carried more (p := Decimal.isDigit) inside rfl
  have sameDigits :
      (cursor.rest ++ more).takeWhile Decimal.isDigit = cursor.rest.takeWhile Decimal.isDigit :=
    inside.lines.takeWhile_append inside.someChar rfl more
  simp only [skipNumber, Cursor.extend_rest, sameDigits, same]
  exact .ite (fun _ => .error _ _) fun _ => .ite (fun _ => .error _ _) fun _ => .ok ⟨stays, rfl⟩

theorem skipVersion_carried (inside : cursor.Inside) :
    Carries (fun found image => found.Inside ∧ image = found.extend more) (skipVersion cursor)
      (skipVersion (cursor.extend more)) := by
  obtain ⟨shown, sameShown⟩ := Cursor.skipRun_carried more (p := isBlank) inside rfl
  simp only [skipVersion, sameShown]
  refine (skipNumber_carried shown).bind ?_
  rintro major _ ⟨stays, rfl⟩
  rw [Cursor.extend_rest, nextIs_append stays.someChar]
  refine .ite (fun isPoint => ?_) fun _ => .error _ _
  obtain ⟨passed, samePassed, -⟩ :=
    Cursor.solid_one_carried more stays (head?_ne_break isPoint rfl)
  rw [samePassed]
  exact skipNumber_carried passed

theorem readHandle_carried (inside : cursor.Inside) :
    Carries (FoundInside more) (readHandle cursor) (readHandle (cursor.extend more)) := by
  rw [readHandle, readHandle, Cursor.extend_rest, nextIs_append inside.someChar]
  refine .ite (fun isMark => ?_) fun _ => .error _ _
  obtain ⟨opened, sameOpened, -⟩ :=
    Cursor.solid_one_carried more inside (head?_ne_break isMark rfl)
  obtain ⟨named, sameNamed⟩ := Cursor.skipRun_carried more (p := isNameChar) opened rfl
  have sameName :
      ((cursor.solid 1).rest ++ more).takeWhile isNameChar =
        (cursor.solid 1).rest.takeWhile isNameChar :=
    opened.lines.takeWhile_append opened.someChar rfl more
  simp only [sameOpened, sameNamed, sameName, Cursor.extend_rest, nextIs_append named.someChar]
  refine .ite (fun isSecond => ?_) fun _ =>
    .ite (fun _ => .ok ⟨named, rfl⟩) fun _ => .error _ _
  obtain ⟨passed, samePassed, -⟩ :=
    Cursor.solid_one_carried more named (head?_ne_break isSecond rfl)
  rw [samePassed]
  exact .ok ⟨passed, rfl⟩

theorem readTag_carried (inside : cursor.Inside) :
    Carries (FoundInside more) (readTag cursor) (readTag (cursor.extend more)) := by
  obtain ⟨shown, sameShown⟩ := Cursor.skipRun_carried more (p := isBlank) inside rfl
  simp only [readTag, sameShown]
  refine (readHandle_carried shown).bind ?_
  rintro ⟨handle, named⟩ _ ⟨stays, rfl⟩
  obtain ⟨text, sameText⟩ := Cursor.skipRun_carried more (p := isBlank) stays rfl
  simp only [sameText, Cursor.extend_rest, nextIs_append text.someChar]
  refine .ite (fun _ => ?_) fun _ => .error _ _
  refine (Tag.measure_carried Tag.isUriChar_break text).bind ?_
  rintro _ length ⟨rfl, after, sameAfter⟩
  simp only [sameAfter, Cursor.extend_rest, atGap_append after.someChar]
  exact .ite (fun _ => .ok ⟨after, rfl⟩) fun _ => .error _ _

/-- What may follow a directive on its line, up to the start of the next line. -/
theorem finish_carried (start : Cursor) (directive : Directive) {next : Cursor}
    (stays : next.Inside) :
    Carries (fun found image => found.2.OnLines ∧ image = (found.1, found.2.extend more))
      (do
        let (next, _) ← next.skipBlanks true
        if atLineEnd next.rest then return (directive, next.skipBreak)
        else start.fault .directiveTrailing)
      (do
        let (next, _) ← (next.extend more).skipBlanks true
        if atLineEnd next.rest then return (directive, next.skipBreak)
        else start.fault .directiveTrailing) := by
  refine (Cursor.skipBlanks_carried more stays true).bind ?_
  rintro ⟨last, _⟩ _ ⟨staysLast, rfl⟩
  simp only [Cursor.extend_rest, atLineEnd_append staysLast.someChar]
  refine .ite (fun atEnd => ?_) fun _ => .error _ _
  obtain ⟨onLines, same⟩ := Cursor.skipBreak_carried more staysLast atEnd
  rw [same]
  exact .ok ⟨onLines, rfl⟩

/-- A directive, and the cursor at the start of the next line. -/
theorem read_carried (inside : cursor.Inside) (sign : cursor.rest.head? ≠ some '\n') :
    Carries (fun found image => found.2.OnLines ∧ image = (found.1, found.2.extend more))
      (read cursor) (read (cursor.extend more)) := by
  obtain ⟨opened, sameOpened, -⟩ := Cursor.solid_one_carried more inside sign
  obtain ⟨named, sameNamed⟩ := Cursor.skipRun_carried more (p := isNameChar) opened rfl
  have sameName :
      ((cursor.solid 1).rest ++ more).takeWhile isNameChar =
        (cursor.solid 1).rest.takeWhile isNameChar :=
    opened.lines.takeWhile_append opened.someChar rfl more
  obtain ⟨lineEnd, sameLineEnd⟩ := Cursor.skipLine_carried more named
  simp only [read, sameOpened, sameNamed, sameName, Cursor.extend_rest, atGap_append named.someChar]
  refine .ite (fun _ => .error _ _) fun _ => .ite (fun _ => .error _ _) fun _ => ?_
  refine .ite (fun _ => ?_) fun _ => .ite (fun _ => ?_) fun _ => ?_
  · refine Carries.bind (?_ : Carries (FoundInside more) _ _) ?_
    · refine (skipVersion_carried named).mapError.map ?_
      rintro next _ ⟨stays, rfl⟩
      exact ⟨stays, rfl⟩
    · rintro ⟨directive, next⟩ _ ⟨stays, rfl⟩
      exact finish_carried cursor directive stays
  · refine Carries.bind (?_ : Carries (FoundInside more) _ _) ?_
    · refine (readTag_carried named).mapError.map ?_
      rintro ⟨handle, next⟩ _ ⟨stays, rfl⟩
      exact ⟨stays, rfl⟩
    · rintro ⟨directive, next⟩ _ ⟨stays, rfl⟩
      exact finish_carried cursor directive stays
  · rw [sameLineEnd]
    exact finish_carried cursor _ lineEnd

end Directive
end Yaml
end FieldLine
