import FieldLine.Proofs.Outline.Decoding
import FieldLine.Proofs.Path.Spelling
import FieldLine.Proofs.Walk.Steps
import FieldLine.Resolve

/-!
# Resolving paths in printed documents

A walk through the tree of a printed document and the notes of the printer are followed side by
side.  Each step leads to one child, and the notes that begin with its selector are those of the
child, on the line where the walk finds it.
-/

namespace FieldLine

/-! ## Notes of the printer -/

namespace Piece

theorem written_append (line : Nat) (first second : List Piece) :
    written line (first ++ second) =
      written line first ++ written (line + (text first).count '\n') second := by
  induction first generalizing line with
  | nil => rfl
  | cons piece later inductionHypothesis =>
      rw [List.cons_append, written, written, inductionHypothesis, text_cons, List.count_append,
        Nat.add_assoc, List.append_assoc]

theorem written_map_within (line : Nat) (selector : Selector) (pieces : List Piece) :
    written line (pieces.map (within selector)) =
      (written line pieces).map fun note => (selector :: note.1, note.2) := by
  induction pieces generalizing line with
  | nil => rfl
  | cons piece later inductionHypothesis =>
      obtain ⟨place?, chars⟩ := piece
      rw [List.map_cons, written, written, inductionHypothesis, List.map_append]
      cases place? <;> rfl

end Piece

namespace Outline

open Piece

variable {column line number : Nat}

theorem written_separator {α : Type} (later : List α) :
    written line (separator column later) = [] := by
  unfold separator
  split <;> rfl

theorem count_separator {α : Type} (next : α) (later : List α) :
    (Piece.text (separator column (next :: later))).count '\n' = 1 := by
  simp [separator, Piece.text, lineBreak, List.count_replicate]

/-- The notes on elements: first the dash, then the notes on the element, and then the others. -/
theorem written_itemPieces_cons (item : Outline) (later : List Outline) :
    written line (itemPieces column number (item :: later)) =
      ([.index number], line) ::
        ((written line (item.pieces (column + 2))).map
            (fun note => (.index number :: note.1, note.2)) ++
          written (line + item.rows) (itemPieces column (number + 1) later)) := by
  have rows : (Piece.text (item.pieces (column + 2))).count '\n' + 1 = item.rows :=
    count_text item (column + 2)
  have dash : ['-', ' '].count '\n' = 0 := rfl
  -- The line break before the next element completes the rows of this one.
  have others :
      written (line + (Piece.text (item.pieces (column + 2))).count '\n' +
          (Piece.text (separator column later)).count '\n')
          (itemPieces column (number + 1) later) =
        written (line + item.rows) (itemPieces column (number + 1) later) := by
    cases later with
    | nil => rfl
    | cons next rest => rw [count_separator, Nat.add_assoc, rows]
  rw [itemPieces, written, dash, List.append_assoc, written_append, written_append,
    written_map_within, written_separator, text_map_within, Nat.add_zero, others]
  rfl

/-- The notes on members: first the key, then the notes on the value, and then the others. -/
theorem written_entryPieces_cons (label : Label) (value : Outline)
    (later : List (Label × Outline)) :
    written line (entryPieces column ((label, value) :: later)) =
      ([.key label.text], line) ::
        ((written (line + value.drop) (value.pieces (column + 2))).map
            (fun note => (.key label.text :: note.1, note.2)) ++
          written (line + (value.drop + value.rows)) (entryPieces column later)) := by
  have rows : (Piece.text (value.pieces (column + 2))).count '\n' + 1 = value.rows :=
    count_text value (column + 2)
  have colon : (label.chars ++ [':']).count '\n' = 0 := by
    simp [count_word]
  have gapPlace : (value.gap column).place? = none := by
    unfold gap
    split <;> rfl
  have others :
      written (line + value.drop + (Piece.text (value.pieces (column + 2))).count '\n' +
          (Piece.text (separator column later)).count '\n') (entryPieces column later) =
        written (line + (value.drop + value.rows)) (entryPieces column later) := by
    cases later with
    | nil => rfl
    | cons next rest => rw [count_separator, Nat.add_assoc, rows, Nat.add_assoc]
  rw [entryPieces, written, written, gapPlace, colon, count_gap, List.append_assoc,
    written_append, written_append, written_map_within, written_separator, text_map_within,
    Nat.add_zero, others]
  rfl

/-! ## Notes on one child -/

theorem mem_map_prepend {selector other : Selector} {rest : Place} {found : Nat}
    {notes : List (Place × Nat)} :
    (selector :: rest, found) ∈ notes.map (fun note => (other :: note.1, note.2)) ↔
      selector = other ∧ (rest, found) ∈ notes := by
  rw [List.mem_map]
  constructor
  · rintro ⟨⟨inner, line⟩, member, same⟩
    cases same
    exact ⟨rfl, member⟩
  · rintro ⟨rfl, member⟩
    exact ⟨(rest, found), member, rfl⟩

theorem le_of_mem_written {items : List Outline} {other found : Nat} {rest : Place}
    (member : (.index other :: rest, found) ∈ written line (itemPieces column number items)) :
    number ≤ other := by
  induction items generalizing line number with
  | nil => cases member
  | cons item later inductionHypothesis =>
      rw [written_itemPieces_cons, List.mem_cons, List.mem_append, mem_map_prepend] at member
      rcases member with dash | ⟨same, _⟩ | others
      · cases dash
        exact Nat.le_refl _
      · cases same
        exact Nat.le_refl _
      · exact Nat.le_of_succ_le (inductionHypothesis others)

theorem mem_of_mem_written {entries : List (Label × Outline)} {name : String} {found : Nat}
    {rest : Place}
    (member : (.key name :: rest, found) ∈ written line (entryPieces column entries)) :
    name ∈ entries.map fun entry => entry.1.text := by
  induction entries generalizing line with
  | nil => cases member
  | cons entry later inductionHypothesis =>
      obtain ⟨label, value⟩ := entry
      rw [written_entryPieces_cons, List.mem_cons, List.mem_append, mem_map_prepend] at member
      rw [List.map_cons, List.mem_cons]
      rcases member with key | ⟨same, _⟩ | others
      · cases key
        exact .inl rfl
      · cases same
        exact .inl rfl
      · exact .inr (inductionHypothesis others)

/-- An element stands in the tree on the line of its dash, and what is noted below its number is
the dash and what is noted in the element. -/
theorem item_written {items : List Outline} {index : Nat} {item : Outline}
    (present : items[index]? = some item) (line column number : Nat) :
    ∃ itemLine : Nat,
      (itemTrees line items)[index]? = some (item.tree itemLine) ∧
        ∀ (rest : Place) (found : Nat),
          (.index (number + index) :: rest, found) ∈
              written line (itemPieces column number items) ↔
            rest = [] ∧ found = itemLine ∨
              (rest, found) ∈ written itemLine (item.pieces (column + 2)) := by
  induction items generalizing line number index with
  | nil => cases present
  | cons first later inductionHypothesis =>
      cases index with
      | zero =>
          cases present
          refine ⟨line, rfl, ?_⟩
          intro rest found
          have noOther :
              (.index number :: rest, found) ∉
                written (line + item.rows) (itemPieces column (number + 1) later) :=
            fun member => Nat.not_succ_le_self number (le_of_mem_written member)
          rw [written_itemPieces_cons, List.mem_cons, List.mem_append, mem_map_prepend]
          simp [noOther]
      | succ index =>
          obtain ⟨itemLine, inTree, inNotes⟩ :=
            inductionHypothesis present (line + first.rows) (number + 1)
          have place : number + (index + 1) = number + 1 + index := by omega
          have different : number + 1 + index ≠ number := by omega
          refine ⟨itemLine, inTree, ?_⟩
          intro rest found
          rw [written_itemPieces_cons, List.mem_cons, List.mem_append, mem_map_prepend, place,
            inNotes]
          simp [different]

/-- A member stands in the tree on the line of its key, and what is noted below its name is the
key and what is noted in the value. -/
theorem entry_written {entries : List (Label × Outline)} {label : Label} {value : Outline}
    (distinct : (entries.map fun entry => entry.1.text).Nodup)
    (present : (label, value) ∈ entries) (line column : Nat) :
    ∃ keyLine : Nat,
      (entryTrees line entries).find? (fun entry => entry.1.text? == some label.text) =
          some (.scalar keyLine label.text, value.tree (keyLine + value.drop)) ∧
        ∀ (rest : Place) (found : Nat),
          (.key label.text :: rest, found) ∈ written line (entryPieces column entries) ↔
            rest = [] ∧ found = keyLine ∨
              (rest, found) ∈ written (keyLine + value.drop) (value.pieces (column + 2)) := by
  induction entries generalizing line with
  | nil => cases present
  | cons first later inductionHypothesis =>
      rw [List.map_cons, List.nodup_cons] at distinct
      rcases List.mem_cons.mp present with rfl | laterPresent
      · refine ⟨line, by simp [entryTrees, Node.text?], ?_⟩
        intro rest found
        -- Keys are distinct, so no later note begins with this one.
        have noOther :
            (.key label.text :: rest, found) ∉
              written (line + (value.drop + value.rows)) (entryPieces column later) :=
          fun member => distinct.1 (mem_of_mem_written member)
        rw [written_entryPieces_cons, List.mem_cons, List.mem_append, mem_map_prepend]
        simp [noOther]
      · obtain ⟨firstLabel, firstValue⟩ := first
        have different : label.text ≠ firstLabel.text := by
          intro same
          exact distinct.1 (same ▸ List.mem_map_of_mem laterPresent)
        obtain ⟨keyLine, inTree, inNotes⟩ :=
          inductionHypothesis distinct.2 laterPresent
            (line + (firstValue.drop + firstValue.rows))
        refine ⟨keyLine, ?_, ?_⟩
        · rw [entryTrees, List.find?_cons_of_neg, inTree]
          simpa [Node.text?] using different.symm
        · intro rest found
          rw [written_entryPieces_cons, List.mem_cons, List.mem_append, mem_map_prepend, inNotes]
          simp [different]

theorem nil_not_mem_items (items : List Outline) (found : Nat) :
    ([], found) ∉ written line (itemPieces column number items) := by
  induction items generalizing line number with
  | nil => exact List.not_mem_nil
  | cons item later inductionHypothesis =>
      rw [written_itemPieces_cons]
      simp [inductionHypothesis]

theorem nil_not_mem_entries (entries : List (Label × Outline)) (found : Nat) :
    ([], found) ∉ written line (entryPieces column entries) := by
  induction entries generalizing line with
  | nil => exact List.not_mem_nil
  | cons entry later inductionHypothesis =>
      obtain ⟨label, value⟩ := entry
      rw [written_entryPieces_cons]
      simp [inductionHypothesis]

theorem nil_not_mem_written (node : Outline) (found : Nat) :
    ([], found) ∉ written line (node.pieces column) := by
  cases node with
  | scalar word => exact List.not_mem_nil
  | sequence items =>
      rw [pieces]
      split
      · exact List.not_mem_nil
      · exact nil_not_mem_items items found
  | mapping entries =>
      rw [pieces]
      split
      · exact List.not_mem_nil
      · exact nil_not_mem_entries entries found

/-! ## Walks -/

theorem key_step {node : Outline} {name : String} {rest : Place} (distinct : node.Distinct)
    (has : node.Has (.key name :: rest)) (line column : Nat) :
    ∃ (value : Outline) (keyLine valueLine : Nat),
      value.Distinct ∧ value.Has rest ∧
        (node.tree line).pair? name = some (.scalar keyLine name, value.tree valueLine) ∧
        ∀ (place : Place) (found : Nat),
          (.key name :: place, found) ∈ written line (node.pieces column) ↔
            place = [] ∧ found = keyLine ∨
              (place, found) ∈ written valueLine (value.pieces (column + 2)) := by
  cases has with
  | @member entries label value _ present has =>
      cases distinct with
      | mapping names values =>
          obtain ⟨keyLine, inTree, inNotes⟩ := entry_written names present line column
          have someEntry : entries.isEmpty = false := by
            simpa using List.ne_nil_of_mem present
          refine ⟨value, keyLine, keyLine + value.drop, values _ present, has, inTree, ?_⟩
          rw [pieces, someEntry, if_neg Bool.false_ne_true]
          exact inNotes

theorem index_step {node : Outline} {index : Nat} {rest : Place} (distinct : node.Distinct)
    (has : node.Has (.index index :: rest)) (line column : Nat) :
    ∃ (item : Outline) (itemLine : Nat),
      item.Distinct ∧ item.Has rest ∧
        (node.tree line).item? index = some (item.tree itemLine) ∧
        ∀ (place : Place) (found : Nat),
          (.index index :: place, found) ∈ written line (node.pieces column) ↔
            place = [] ∧ found = itemLine ∨
              (place, found) ∈ written itemLine (item.pieces (column + 2)) := by
  cases has with
  | @element items _ item _ present has =>
      cases distinct with
      | sequence distinctItems =>
          obtain ⟨itemLine, inTree, inNotes⟩ := item_written present line column 0
          have member : item ∈ items := List.mem_of_getElem? present
          have someItem : items.isEmpty = false := by
            simpa using List.ne_nil_of_mem member
          refine ⟨item, itemLine, distinctItems item member, has, inTree, ?_⟩
          rw [pieces, someItem, if_neg Bool.false_ne_true]
          intro place found
          rw [← inNotes, Nat.zero_add]

/-- A step in the tree enters the node that it selects, and the notes below that step are its own
and the notes on that node. -/
theorem enters_tree {node : Outline} {step : Step} {rest : Place} (distinct : node.Distinct)
    (has : node.Has (step.selectors ++ rest)) (line column : Nat) :
    ∃ (child : Outline) (last childLine childColumn : Nat),
      child.Distinct ∧ child.Has rest ∧
        Walk.Enters (node.tree line) step last (child.tree childLine) ∧
        ∀ (place : Place) (found : Nat),
          (step.selectors ++ place, found) ∈ written line (node.pieces column) ↔
            place = [] ∧ found = last ∨
              (place, found) ∈ written childLine (child.pieces childColumn) := by
  cases step with
  | key name =>
      obtain ⟨value, keyLine, valueLine, distinctValue, hasValue, pair, inNotes⟩ :=
        key_step distinct has line column
      exact
        ⟨value, keyLine, valueLine, column + 2, distinctValue, hasValue, .key pair, inNotes⟩
  | element name index =>
      obtain ⟨value, keyLine, valueLine, distinctValue, hasValue, pair, inNotes⟩ :=
        key_step distinct has line column
      obtain ⟨item, itemLine, distinctItem, hasItem, present, inItemNotes⟩ :=
        index_step distinctValue hasValue valueLine (column + 2)
      have enters :
          Walk.Enters (node.tree line) (.element name index) itemLine (item.tree itemLine) := by
        have itself := Walk.Enters.element pair present
        rw [tree_line] at itself
        exact itself
      refine
        ⟨item, itemLine, itemLine, column + 2 + 2, distinctItem, hasItem, enters, ?_⟩
      intro place found
      -- The note of the key itself has no index, so only the notes on the value remain.
      rw [Step.selectors, List.cons_append, List.singleton_append, inNotes, inItemNotes]
      simp

theorem selectors_ne_nil {steps : List Step} (someStep : steps ≠ []) :
    steps.flatMap Step.selectors ≠ [] := by
  cases steps with
  | nil => exact absurd rfl someStep
  | cons step later => cases step <;> simp [Step.selectors]

/-- A walk along the steps to a place in a node ends on the one line that is noted for it. -/
theorem descend_tree {steps : List Step} (someStep : steps ≠ []) {node : Outline}
    (distinct : node.Distinct) (has : node.Has (steps.flatMap Step.selectors))
    (line column start : Nat) :
    ∃ found : Nat,
      (∀ other : Nat,
        (steps.flatMap Step.selectors, other) ∈ written line (node.pieces column) ↔
          other = found) ∧
        Walk.descend (node.tree line) start steps = (⟨found, .resolved⟩, []) := by
  induction steps generalizing node line column start with
  | nil => exact absurd rfl someStep
  | cons step later inductionHypothesis =>
      rw [List.flatMap_cons] at has ⊢
      obtain ⟨child, last, childLine, childColumn, distinctChild, hasRest, enters, inNotes⟩ :=
        enters_tree distinct has line column
      by_cases ends : later = []
      · subst ends
        refine ⟨last, ?_, Walk.descend_last enters⟩
        intro other
        rw [inNotes]
        simp [nil_not_mem_written]
      · obtain ⟨found, notes, walk⟩ :=
          inductionHypothesis ends distinctChild hasRest childLine childColumn
            (child.tree childLine).line
        refine ⟨found, ?_, (Walk.descend_onward enters ends).trans walk⟩
        intro other
        rw [inNotes, notes]
        simp [selectors_ne_nil ends]

end Outline

namespace BlockDocument

/-- Printing and resolving agree.  In the text of a document, a path to a member or an element
resolves to the line on which the printer wrote its key or its dash, and there is exactly one such
line. -/
theorem resolve_written (document : BlockDocument) {path : String} {steps : List Step}
    (spells : Path.Spells path.toList steps)
    (has : document.root.Has (steps.flatMap Step.selectors)) (start : Nat) :
    ∃ line : Nat,
      (∀ other : Nat,
        (steps.flatMap Step.selectors, other) ∈ Piece.written 1 document.pieces ↔
          other = line) ∧
        resolve document.bytes path start = .ok (⟨line, .resolved⟩, []) := by
  obtain ⟨line, notes, walk⟩ :=
    Outline.descend_tree spells.steps_ne_nil document.distinct has 1 0 start
  refine ⟨line, ?_, ?_⟩
  · intro other
    rw [← notes, pieces, Piece.written_append]
    simp [Piece.written, Piece.lineBreak]
    rfl
  · rw [resolve, Query.ofPath, Path.parse_of_spells spells]
    simp only [Except.map, Query.walk, ofBytes_bytes]
    rw [← walk]
    rfl

/-- A sequence of a word and a mapping, under one key. -/
def nested : BlockDocument where
  entries :=
    [(⟨.letter 'a' rfl, by decide⟩,
      .sequence
        [.scalar (.letter 'x' rfl),
          .mapping [(⟨.letter 'b' rfl, by decide⟩, .scalar (.letter 'y' rfl))]])]
  someEntry := List.cons_ne_nil _ _
  distinct := by
    refine .mapping (by simp) (List.forall_mem_singleton.mpr (.sequence ?_))
    refine List.forall_mem_cons.mpr ⟨.scalar _, List.forall_mem_singleton.mpr ?_⟩
    exact .mapping (by simp) (List.forall_mem_singleton.mpr (.scalar _))

theorem resolve_written_nested :
    (∀ other : Nat,
      ([.key "a", .index 1, .key "b"], other) ∈ Piece.written 1 nested.pieces ↔ other = 3) ∧
      resolve nested.bytes "a[1].b" 7 = .ok (⟨3, .resolved⟩, []) := by
  have element : Path.SpellsStep (['a'] ++ '[' :: (['1'] ++ [']'])) (.element "a" 1) :=
    .element (by decide) (by decide) (by decide) (by decide)
      (List.forall_mem_singleton.mpr rfl) (by decide)
  have key : Path.SpellsStep ['b'] (.key "b") :=
    .key (by decide) (by decide) (by decide)
  have spells : Path.Spells "a[1].b".toList [.element "a" 1, .key "b"] :=
    .more element (.last key)
  have has : nested.root.Has [.key "a", .index 1, .key "b"] := by
    refine .member (List.mem_singleton_self _) (.element rfl ?_)
    exact .member (List.mem_singleton_self _) (.here _)
  obtain ⟨line, notes, resolved⟩ := resolve_written nested spells has 7
  have third : 3 = line := (notes 3).mp (by decide)
  subst third
  exact ⟨notes, resolved⟩

end BlockDocument
end FieldLine
