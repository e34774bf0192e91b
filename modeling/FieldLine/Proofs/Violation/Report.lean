import FieldLine.Proofs.Text.Cutting
import FieldLine.Proofs.Text.Digits
import FieldLine.Violation.Record

/-!
# Reading reports

A report has one line for each record, and what a line shows can be read off it: the file up to the
last colon of the first word, the line after that colon, then the rule, the severity, the category
and, in parentheses, the error.  So records that are reported alike agree in all of these, as long
as no field holds the character that ends it.
-/

namespace FieldLine
namespace ResolvedViolation

/-- What a line of a report shows of a record. -/
structure Entry where
  file : String
  line : Option Nat
  rule : String
  severity : String
  category : String
  error : Option String
deriving DecidableEq

def entry (resolved : ResolvedViolation) : Entry where
  file := resolved.violation.file
  line := resolved.line
  rule := resolved.violation.rule
  severity := resolved.violation.severity
  category := resolved.violation.category
  error := resolved.error

/-- A record whose fields do not hold the characters that end them in a report.  Its severity and
its category are shown. -/
structure IsPlain (resolved : ResolvedViolation) : Prop where
  file : ' ' ∉ resolved.violation.file.toList ∧ '\n' ∉ resolved.violation.file.toList
  rule : ' ' ∉ resolved.violation.rule.toList ∧ '\n' ∉ resolved.violation.rule.toList
  severity : ' ' ∉ resolved.violation.severity.toList ∧ '\n' ∉ resolved.violation.severity.toList
  category : '(' ∉ resolved.violation.category.toList ∧ '\n' ∉ resolved.violation.category.toList
  someSeverity : resolved.violation.severity ≠ ""
  someCategory : resolved.violation.category ≠ ""
  error : ∀ error ∈ resolved.error, '\n' ∉ error.toList

/-! ## Reading a line -/

/-- A line number, or a question mark in its place. -/
def lineOf (digits : List Char) : Option Nat :=
  if digits = ['?'] then none else some (Decimal.value digits)

/-- A category with an error in parentheses after it, if there is one. -/
def remarkOf (text : List Char) : String × Option String :=
  let (category, error) := cut '(' text
  if '(' ∈ text then (.ofList category.dropLast, some (.ofList error.dropLast))
  else (.ofList category, none)

/-- What a line of a report shows. -/
def Entry.ofLine (text : List Char) : Entry :=
  let (place, text) := cut ' ' text
  let (line, file) := cut ':' place.reverse
  let (rule, text) := cut ' ' text
  let (severity, text) := cut ' ' text
  let (category, error) := remarkOf text
  ⟨.ofList file.reverse, lineOf line.reverse, .ofList rule, .ofList severity, category, error⟩

/-! ## Written lines -/

/-- How a line number is written. -/
def lineChars (line : Option Nat) : List Char :=
  (line.map (Nat.toDigits 10)).getD ['?']

theorem isDigit_or_mark_of_mem_lineChars {line : Option Nat} {c : Char}
    (member : c ∈ lineChars line) : Decimal.isDigit c = true ∨ c = '?' := by
  cases line with
  | none => exact .inr (List.mem_singleton.mp member)
  | some n => exact .inl (Decimal.isDigit_of_mem_toDigits member)

theorem not_mem_lineChars {c : Char} (noDigit : Decimal.isDigit c = false) (notMark : c ≠ '?')
    (line : Option Nat) : c ∉ lineChars line := by
  intro member
  rcases isDigit_or_mark_of_mem_lineChars member with digit | isMark
  · rw [digit] at noDigit
    cases noDigit
  · exact notMark isMark

theorem lineOf_lineChars (line : Option Nat) : lineOf (lineChars line) = line := by
  cases line with
  | none => rfl
  | some n =>
      have notMark : Nat.toDigits 10 n ≠ ['?'] := by
        intro isMark
        have digit : Decimal.isDigit '?' = true :=
          Decimal.isDigit_of_mem_toDigits (isMark ▸ List.mem_singleton_self '?')
        exact absurd digit (by decide)
      change lineOf (Nat.toDigits 10 n) = some n
      rw [lineOf, if_neg notMark, Decimal.value_toDigits]

/-- How an error is written after a category. -/
def reasonChars (error : Option String) : List Char :=
  match error with
  | none => []
  | some error => ' ' :: '(' :: (error.toList ++ [')'])

theorem remarkOf_reasonChars {category : String} (noParenthesis : '(' ∉ category.toList)
    (error : Option String) :
    remarkOf (category.toList ++ reasonChars error) = (category, error) := by
  cases error with
  | none =>
      rw [reasonChars, List.append_nil, remarkOf, cut_of_not_mem noParenthesis]
      simp only [if_neg noParenthesis, String.ofList_toList]
  | some error =>
      have noParenthesisBefore : '(' ∉ category.toList ++ [' '] := by
        rw [List.mem_append, List.mem_singleton]
        rintro (member | ⟨⟨⟩⟩)
        exact noParenthesis member
      have shape : category.toList ++ reasonChars (some error) =
          (category.toList ++ [' ']) ++ '(' :: (error.toList ++ [')']) := by
        simp [reasonChars]
      have parenthesis : '(' ∈ (category.toList ++ [' ']) ++ '(' :: (error.toList ++ [')']) :=
        List.mem_append_right _ List.mem_cons_self
      rw [shape, remarkOf, cut_append noParenthesisBefore]
      simp only [if_pos parenthesis, List.dropLast_concat, String.ofList_toList]

section

variable {resolved : ResolvedViolation} (plain : resolved.IsPlain)
include plain

theorem renderLine_eq :
    resolved.renderLine.toList =
      resolved.violation.file.toList ++ ':' :: lineChars resolved.line ++
        ' ' :: (resolved.violation.rule.toList ++ ' ' :: (resolved.violation.severity.toList ++
          ' ' :: (resolved.violation.category.toList ++ reasonChars resolved.error))) := by
  have known : [resolved.violation.severity, resolved.violation.category].filter (· ≠ "") =
      [resolved.violation.severity, resolved.violation.category] := by
    simp [plain.someSeverity, plain.someCategory]
  have line : ((resolved.line.map toString).getD "?").toList = lineChars resolved.line := by
    cases resolved.line with
    | none => rfl
    | some n =>
        change (toString n).toList = Nat.toDigits 10 n
        rw [Nat.toString_eq_ofList_toDigits, String.toList_ofList]
  rw [renderLine, known, ← line]
  cases resolved.error with
  | none => simp [String.intercalate_cons_cons, reasonChars]
  | some error => simp [String.intercalate_cons_cons, reasonChars]

theorem lineBreak_not_mem_renderLine : '\n' ∉ resolved.renderLine.toList := by
  have noReason : '\n' ∉ reasonChars resolved.error := by
    cases found : resolved.error with
    | none => exact List.not_mem_nil
    | some error =>
        have noBreak := plain.error error found
        simp [reasonChars, noBreak]
  have noLine := not_mem_lineChars (c := '\n') rfl (by decide) resolved.line
  rw [renderLine_eq plain]
  simp [plain.file.2, plain.rule.2, plain.severity.2, plain.category.2, noReason, noLine]

/-- A line of a report is read as what it shows. -/
theorem ofLine_renderLine : Entry.ofLine resolved.renderLine.toList = resolved.entry := by
  have noSpace : ' ' ∉ resolved.violation.file.toList ++ ':' :: lineChars resolved.line := by
    have noLine := not_mem_lineChars (c := ' ') rfl (by decide) resolved.line
    simp [plain.file.1, noLine]
  have noColon : ':' ∉ (lineChars resolved.line).reverse := by
    rw [List.mem_reverse]
    exact not_mem_lineChars rfl (by decide) resolved.line
  have place : (resolved.violation.file.toList ++ ':' :: lineChars resolved.line).reverse =
      (lineChars resolved.line).reverse ++ ':' :: resolved.violation.file.toList.reverse := by
    simp
  rw [renderLine_eq plain, Entry.ofLine]
  simp only [cut_append noSpace, place, cut_append noColon, cut_append plain.rule.1,
    cut_append plain.severity.1, remarkOf_reasonChars plain.category.1, List.reverse_reverse,
    lineOf_lineChars, String.ofList_toList]
  rfl

end

/-! ## Reading a report -/

/-- What a report shows, line by line. -/
def Entry.ofReport (text : String) : List Entry :=
  (text.toList.splitOn '\n').dropLast.map Entry.ofLine

section

variable {resolved : List ResolvedViolation} (plain : ∀ item ∈ resolved, item.IsPlain)
include plain

theorem lines_renderText :
    (renderText resolved).toList.splitOn '\n' =
      (resolved.map fun item => item.renderLine.toList) ++ [[]] := by
  have lines : (renderText resolved).toList =
      (resolved.map fun item => item.renderLine.toList).flatMap fun line => line ++ ['\n'] := by
    simp only [renderText, String.toList_join, List.flatMap_def, List.map_map, Function.comp_def,
      String.toList_append]
    rfl
  rw [lines]
  apply splitOn_flatMap
  intro line member
  obtain ⟨item, itemMember, rfl⟩ := List.mem_map.mp member
  exact lineBreak_not_mem_renderLine (plain item itemMember)

/-- A report is read as what it shows of each record. -/
theorem ofReport_renderText : Entry.ofReport (renderText resolved) = resolved.map entry := by
  rw [Entry.ofReport, lines_renderText plain, List.dropLast_concat, List.map_map]
  apply List.map_congr_left
  intro item member
  rw [Function.comp_apply]
  exact ofLine_renderLine (plain item member)

end

/-- Records with the same report agree in all that is reported, place by place, and a report is made
of the lines of its records in their order. -/
theorem renderText_unambiguous {resolved others : List ResolvedViolation}
    (plain : ∀ item ∈ resolved, item.IsPlain) (othersPlain : ∀ item ∈ others, item.IsPlain) :
    (renderText resolved = renderText others →
      resolved.length = others.length ∧
        ∀ (place : Nat) (item other : ResolvedViolation),
          resolved[place]? = some item → others[place]? = some other →
            item.violation.file = other.violation.file ∧ item.line = other.line ∧
              item.violation.rule = other.violation.rule ∧
              item.violation.severity = other.violation.severity ∧
              item.violation.category = other.violation.category ∧ item.error = other.error) ∧
    (renderText resolved).toList.splitOn '\n' =
      (resolved.map fun item => item.renderLine.toList) ++ [[]] := by
  refine ⟨?_, lines_renderText plain⟩
  intro sameText
  have sameEntries : resolved.map entry = others.map entry := by
    rw [← ofReport_renderText plain, sameText, ofReport_renderText othersPlain]
  constructor
  · have sameLength := congrArg List.length sameEntries
    rwa [List.length_map, List.length_map] at sameLength
  · intro place item other isItem isOther
    have samePlace : (resolved.map entry)[place]? = (others.map entry)[place]? := by
      rw [sameEntries]
    rw [List.getElem?_map, List.getElem?_map, isItem, isOther] at samePlace
    have sameEntry : item.entry = other.entry := Option.some.inj samePlace
    exact ⟨congrArg Entry.file sameEntry, congrArg Entry.line sameEntry,
      congrArg Entry.rule sameEntry, congrArg Entry.severity sameEntry,
      congrArg Entry.category sameEntry, congrArg Entry.error sameEntry⟩

/-! A file with a colon and no line, and an error that looks like the end of another line.  The
records differ in their paths, which are not reported. -/

def withColons (path : String) : List ResolvedViolation :=
  [{ violation := { rule := "", file := "c:7", path := path, severity := "LOW", category := "a b" }
     line := none
     error := none },
   { violation := { rule := "R1", file := "d.yaml", path := path, severity := "?", category := ")" }
     line := some 10
     error := some "e:1 R2 LOW x (y)" }]

theorem renderText_unambiguous_colons :
    (∀ item ∈ withColons "p", item.IsPlain) ∧ (∀ item ∈ withColons "q", item.IsPlain) ∧
      renderText (withColons "p") = renderText (withColons "q") ∧
      renderText (withColons "p") =
        "c:7:?  LOW a b\nd.yaml:10 R1 ? ) (e:1 R2 LOW x (y))\n" ∧
      (renderText (withColons "p")).toList.splitOn '\n' =
        ["c:7:?  LOW a b".toList, "d.yaml:10 R1 ? ) (e:1 R2 LOW x (y))".toList, []] ∧
      (withColons "p").length = (withColons "q").length := by
  have plain (path : String) : ∀ item ∈ withColons path, item.IsPlain := by
    refine List.forall_mem_cons.mpr ⟨?_, List.forall_mem_singleton.mpr ?_⟩
    · exact ⟨by simp, by simp, by simp, by simp, by simp, by simp, by simp⟩
    · exact ⟨by simp, by simp, by simp, by simp, by simp, by simp, by simp⟩
  obtain ⟨agree, lines⟩ := renderText_unambiguous (plain "p") (plain "q")
  exact ⟨plain "p", plain "q", rfl, by decide, lines, (agree rfl).1⟩

end ResolvedViolation
end FieldLine
