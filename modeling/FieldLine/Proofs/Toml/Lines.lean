import FieldLine.Proofs.Toml.Mentions
import FieldLine.Proofs.Toml.Statements

/-!
# Documents line by line

A line with a statement is read as this statement, whatever follows.  So a document that consists of
lines has their statements, in their order, and it is no document if one line is malformed.
-/

namespace FieldLine
namespace Toml

/-! ## Lines -/

/-- Characters that are read as a statement with the rest of its line. -/
structure Line where
  written : List Char
  statement : Statement
  isRead : ∀ rest, Statement.read? (skipBlanks (written ++ rest)) = some (statement, rest)

/-- Some lines and what follows them. -/
def document (lines : List Line) (rest : List Char) : List Char :=
  lines.flatMap Line.written ++ rest

theorem Line.exists_cons (line : Line) (rest : List Char) :
    ∃ c later, skipBlanks (line.written ++ rest) = c :: later := by
  rcases blanks : skipBlanks (line.written ++ rest) with _ | ⟨c, later⟩
  · have isRead := line.isRead rest
    rw [blanks] at isRead
    cases isRead
  · exact ⟨c, later, rfl⟩

theorem Line.written_ne_nil (line : Line) : line.written ≠ [] := by
  intro isNil
  obtain ⟨c, later, blanks⟩ := line.exists_cons []
  rw [isNil] at blanks
  cases blanks

theorem length_le_document (lines : List Line) (rest : List Char) :
    lines.length ≤ (document lines rest).length := by
  induction lines with
  | nil => exact Nat.zero_le _
  | cons line later inductionHypothesis =>
      have positive := List.length_pos_iff.mpr line.written_ne_nil
      rw [document, List.length_append] at inductionHypothesis
      rw [document, List.flatMap_cons, List.length_append, List.length_append, List.length_cons]
      omega

/-- After lines their statements have been read. -/
theorem statementsFrom_lines (lines : List Line) (fuel : Nat) (rest : List Char) :
    statementsFrom (lines.length + fuel) (document lines rest) =
      (statementsFrom fuel rest).map (lines.map Line.statement ++ ·) := by
  induction lines with
  | nil =>
      rw [List.length_nil, Nat.zero_add]
      exact Option.map_id'.symm
  | cons line later inductionHypothesis =>
      have shape : document (line :: later) rest = line.written ++ document later rest := by
        rw [document, document, List.flatMap_cons, List.append_assoc]
      obtain ⟨c, others, blanks⟩ := line.exists_cons (document later rest)
      have isRead := line.isRead (document later rest)
      rw [blanks] at isRead
      rw [List.length_cons, Nat.add_right_comm, statementsFrom, shape, blanks]
      dsimp only
      rw [isRead]
      simp only [bind, Option.bind_some, inductionHypothesis]
      rcases statementsFrom fuel rest with _ | statements <;> rfl

/-! ## Marks -/

/-- A byte order mark is part of no statement. -/
theorem read?_mark (later : List Char) : Statement.read? ('\ufeff' :: later) = none := by
  have noPart : readKeyPart (skipBlanks ('\ufeff' :: later)) = none := by
    rw [skipBlanks_eq (by decide), readKeyPart, List.takeWhile_cons_of_neg (by decide)]
    · rfl
    · exact fun _ same => absurd (List.cons.inj same).1 (by decide)
    · exact fun _ same => absurd (List.cons.inj same).1 (by decide)
  have noKey : readKey ('\ufeff' :: later) = none := by
    rw [readKey, show limit - 1 = 78 + 1 from rfl, readKeyFrom, noPart]
    rfl
  rw [Statement.read?, if_neg (by decide), noKey]
  · rfl
  · exact fun _ same _ => absurd same (by decide)
  · exact fun same => absurd same (by decide)

theorem skipMark_of_ne {c : Char} (noMark : c ≠ '\ufeff') (later : List Char) :
    skipMark (c :: later) = c :: later := by
  rw [skipMark]
  exact fun _ same => noMark (List.cons.inj same).1

theorem skipMark_document (lines : List Line) {rest : List Char} (noMark : skipMark rest = rest) :
    skipMark (document lines rest) = document lines rest := by
  cases lines with
  | nil => exact noMark
  | cons line later =>
      obtain ⟨c, others, begins⟩ := List.exists_cons_of_ne_nil line.written_ne_nil
      have shape : document (line :: later) rest = c :: (others ++ document later rest) := by
        rw [document, document, List.flatMap_cons, begins, List.append_assoc, List.cons_append]
      rw [shape]
      apply skipMark_of_ne
      rintro rfl
      have isRead := line.isRead []
      rw [begins, List.append_nil, skipBlanks, List.dropWhile_cons_of_neg (by decide),
        read?_mark] at isRead
      cases isRead

/-! ## Documents -/

theorem statements?_document (lines : List Line) :
    statements? (.ofList (document lines [])) = some (lines.map Line.statement) := by
  obtain ⟨fuel, isFuel⟩ : ∃ fuel, (document lines []).length + 1 = lines.length + fuel :=
    ⟨_, (Nat.add_sub_of_le (Nat.le_succ_of_le (length_le_document lines []))).symm⟩
  rw [statements?, String.length_ofList, String.toList_ofList, skipMark_document lines rfl, isFuel,
    statementsFrom_lines]
  cases fuel with
  | zero => simp [statementsFrom]
  | succ fuel => simp [statementsFrom, skipBlanks]

/-- The characters are read as the value, up to the end of their line. -/
def Denotes (written : List Char) (value : Value) : Prop :=
  ∀ rest, readValue maxDepth (skipBlanks (written ++ '\n' :: rest)) = some (value, '\n' :: rest)

/-- An integer begins with no blank. -/
theorem skipBlanks_integer (integer : Integer) (rest : List Char) :
    skipBlanks (integer.chars ++ rest) = integer.chars ++ rest := by
  obtain ⟨c, later, begins, signOrDigit⟩ := integer.exists_cons
  rw [begins]
  apply skipBlanks_eq
  rcases signOrDigit with rfl | rfl | digit
  · rfl
  · rfl
  · rw [isBlank, decide_eq_false (ne_of_isDigit digit rfl),
      decide_eq_false (ne_of_isDigit digit rfl), Bool.or_false]

theorem denotes_integer {integer : Integer} (fits : integer.Fits) :
    Denotes integer.chars (.number (.integer integer.value)) := by
  intro rest
  rw [skipBlanks_integer, readValue_integer, Integer.integer?_of_fits fits]
  rfl

theorem denotes_number {n : Nat} (small : n ≤ 9223372036854775807) :
    Denotes (Nat.toDigits 10 n) (.number (.integer n)) := by
  obtain ⟨integer, chars, isNumber⟩ := exists_integer n
  have fits : integer.Fits := by
    rw [Integer.Fits, isNumber]
    omega
  rw [← chars, ← isNumber]
  exact denotes_integer fits

theorem denotes_of_readValue {written : List Char} {value : Value} {c : Char} {later : List Char}
    (begins : written = c :: later) (notBlank : isBlank c = false)
    (reads : ∀ rest, readValue maxDepth (written ++ '\n' :: rest) = some (value, '\n' :: rest)) :
    Denotes written value := by
  intro rest
  have noBlanks : skipBlanks (written ++ '\n' :: rest) = written ++ '\n' :: rest := by
    rw [begins]
    exact skipBlanks_eq notBlank _
  rw [noBlanks, reads]

theorem denotes_switch (value : Bool) :
    Denotes (if value then "true" else "false").toList (.boolean value) := by
  have reads (rest : List Char) := readValue_switch value maxDepth ('\n' :: rest)
  cases value with
  | true => exact denotes_of_readValue (c := 't') rfl rfl reads
  | false => exact denotes_of_readValue (c := 'f') rfl rfl reads

theorem denotes_text (text : String) : Denotes (Text.render text).toList (.text text) := by
  obtain ⟨quote, later, begins, isQuote⟩ := renderChars_eq_cons text.toList
  have isRendered : (Text.render text).toList = quote :: later := by
    rw [Text.render, String.toList_ofList, begins]
  apply denotes_of_readValue isRendered
  · rcases isQuote with rfl | rfl <;> rfl
  · exact readValue_text text maxDepth

/-- A key that needs no quotes. -/
def IsBare (key : String) : Prop :=
  key.toList ≠ [] ∧ ∀ c ∈ key.toList, isKeyChar c = true

def keyLine (key : String) (written : List Char) : List Char :=
  key.toList ++ ' ' :: '=' :: ' ' :: (written ++ ['\n'])

theorem read?_keyLine {key : String} (isBare : IsBare key) (written rest : List Char) :
    Statement.read? (skipBlanks (keyLine key written ++ rest)) =
      (readValue maxDepth (skipBlanks (written ++ '\n' :: rest))).bind fun (value, text) =>
        (skipLineEnd text).map (.entry [] key value, ·) := by
  obtain ⟨someChar, keyChars⟩ := isBare
  have shape : keyLine key written ++ rest =
      key.toList ++ ' ' :: '=' :: ' ' :: (written ++ '\n' :: rest) := by
    simp [keyLine]
  have readsKey := readKey_name someChar keyChars (' ' :: (written ++ '\n' :: rest))
  rw [shape, skipBlanks_name someChar keyChars]
  rw [String.ofList_toList] at readsKey
  obtain ⟨c, later, begins⟩ := List.exists_cons_of_ne_nil someChar
  have keyChar : isKeyChar c = true := keyChars c (begins ▸ List.mem_cons_self)
  have inLine : ¬(c = '#' ∨ c = '\n' ∨ c = '\r') := by
    rintro (rfl | rfl | rfl) <;> exact absurd keyChar (by decide)
  rw [begins, List.cons_append] at readsKey ⊢
  rw [Statement.read?, if_neg inLine, readsKey]
  · have blank : skipBlanks (' ' :: (written ++ '\n' :: rest)) =
        skipBlanks (written ++ '\n' :: rest) := List.dropWhile_cons_of_pos (by decide)
    simp only [bind, Option.bind, strip?, if_true, blank]
    rcases readValue maxDepth (skipBlanks (written ++ '\n' :: rest)) with _ | ⟨value, text⟩
    · rfl
    · dsimp only
      rcases skipLineEnd text with _ | others <;> rfl
  · exact fun _ same _ => ne_of_isKeyChar keyChar rfl same
  · exact fun same => ne_of_isKeyChar keyChar rfl same

/-- The line that gives a value to a key. -/
def Line.assign {key : String} {written : List Char} {value : Value} (isBare : IsBare key)
    (denotes : Denotes written value) : Line where
  written := keyLine key written
  statement := .entry [] key value
  isRead rest := by
    rw [read?_keyLine isBare, denotes rest]
    rfl

/-- The statement that gives a value to a key of the outermost table. -/
def Statement.assign (pair : String × Value) : Statement :=
  .entry [] pair.1 pair.2

/-- A table with one more value, after the others. -/
def Table.withValue (table : Table) (key : String) (value : Value) : Table :=
  { table with entries := table.entries ++ [(key, .value value)] }

/-- A document of which some lines at its start have been read, none of them a header. -/
def Draft.ofTable (table : Table) : Draft :=
  { root := table, current := [] }

theorem add_ofTable {table : Table} {key : String} (isNew : table.item? key = none)
    (value : Value) :
    (Draft.ofTable table).add [] key value = some (Draft.ofTable (table.withValue key value)) := by
  simp [Draft.add, Draft.ofTable, Table.change, Table.addDotted, Table.add, isNew,
    Table.withValue]

section

variable {pairs : List (String × Value)}

/-- Nothing is wrong with keys that are all different. -/
theorem foldlM_assign (distinct : (pairs.map Prod.fst).Nodup) (table : Table)
    (areNew : ∀ key ∈ pairs.map Prod.fst, table.item? key = none) :
    ∃ last, (pairs.map Statement.assign).foldlM Draft.step (.ofTable table) = some last := by
  induction pairs generalizing table with
  | nil => exact ⟨_, rfl⟩
  | cons pair later inductionHypothesis =>
      obtain ⟨key, value⟩ := pair
      rw [List.map_cons] at distinct areNew
      obtain ⟨notAgain, distinctLater⟩ := List.nodup_cons.mp distinct
      obtain ⟨isNew, areNewLater⟩ := List.forall_mem_cons.mp areNew
      have areStillNew : ∀ other ∈ later.map Prod.fst,
          (table.withValue key value).item? other = none := by
        intro other member
        have different : other ≠ key := fun same => notAgain (same ▸ member)
        rw [Table.item?, Table.withValue, List.lookup_append, List.lookup_cons,
          beq_false_of_ne different]
        exact Option.or_eq_none_iff.mpr ⟨areNewLater other member, rfl⟩
      obtain ⟨last, runs⟩ := inductionHypothesis distinctLater _ areStillNew
      refine ⟨last, ?_⟩
      rw [List.map_cons, List.foldlM_cons]
      change (Draft.add [] key value (.ofTable table)).bind _ = _
      rw [add_ofTable isNew]
      exact runs

theorem mentionsFrom_assign (pairs : List (String × Value)) :
    mentionsFrom [] (pairs.map Statement.assign) =
      pairs.map fun pair => ⟨[pair.1], some pair.2⟩ := by
  induction pairs with
  | nil => rfl
  | cons pair later inductionHypothesis =>
      rw [List.map_cons, List.map_cons, mentionsFrom, ← inductionHypothesis]
      rfl

theorem mentionsOf_assign_eq_nil {key : String} (absent : key ∉ pairs.map Prod.fst) :
    mentionsOf key (pairs.map Statement.assign) = [] := by
  rw [mentionsOf, mentionsFrom_assign, List.filter_eq_nil_iff]
  intro mention member
  obtain ⟨pair, pairMember, rfl⟩ := List.mem_map.mp member
  have different : pair.1 ≠ key := fun same => absent (same ▸ List.mem_map_of_mem pairMember)
  simp [different]

theorem mentionsOf_assign_of_mem (distinct : (pairs.map Prod.fst).Nodup) {key : String}
    {value : Value} (member : (key, value) ∈ pairs) :
    mentionsOf key (pairs.map Statement.assign) = [⟨[key], some value⟩] := by
  obtain ⟨before, after, rfl⟩ := List.append_of_mem member
  rw [List.map_append, List.map_cons] at distinct
  obtain ⟨-, distinctLater, apart⟩ := List.nodup_append.mp distinct
  have absentBefore : key ∉ before.map Prod.fst := fun memberBefore =>
    apart key memberBefore key List.mem_cons_self rfl
  have dropped (others : List (String × Value)) (absent : key ∉ others.map Prod.fst) :
      (others.map fun pair => (⟨[pair.1], some pair.2⟩ : Mention)).filter
        (fun mention => mention.path.head? = some key) = [] := by
    rw [← mentionsFrom_assign]
    exact mentionsOf_assign_eq_nil absent
  rw [mentionsOf, mentionsFrom_assign, List.map_append, List.filter_append,
    dropped before absentBefore, List.map_cons, List.filter_cons,
    dropped after (List.nodup_cons.mp distinctLater).1]
  simp

end

end Toml
end FieldLine
