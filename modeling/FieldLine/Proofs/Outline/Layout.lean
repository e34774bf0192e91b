import FieldLine.Proofs.Outline.Printing

/-!
# Texts and rows of printed outlines

The text of a node comes in the order in which it is read: a dash and its element, a key and its
value, and then the rest of the siblings on the next line.  The number of rows that a node takes
does not depend on the column.
-/

namespace FieldLine

namespace Piece

theorem text_append (first second : List Piece) :
    text (first ++ second) = text first ++ text second :=
  List.flatMap_append

theorem text_cons (piece : Piece) (later : List Piece) :
    text (piece :: later) = piece.chars ++ text later :=
  List.flatMap_cons

theorem text_map_within (selector : Selector) (pieces : List Piece) :
    text (pieces.map (within selector)) = text pieces := by
  induction pieces with
  | nil => rfl
  | cons piece later inductionHypothesis =>
      rw [List.map_cons, text_cons, text_cons, inductionHypothesis]
      rfl

end Piece

namespace Outline

variable {column : Nat}

/-! ## Texts -/

def text (column : Nat) (node : Outline) : List Char :=
  Piece.text (node.pieces column)

def itemText (column : Nat) (items : List Outline) : List Char :=
  Piece.text (itemPieces column 0 items)

def entryText (column : Nat) (entries : List (Label × Outline)) : List Char :=
  Piece.text (entryPieces column entries)

theorem text_scalar (word : Word) : (scalar word).text column = word.chars := by
  simp [text, pieces, Piece.text]

theorem text_sequence {items : List Outline} (someItem : items ≠ []) :
    (sequence items).text column = itemText column items := by
  rw [text, pieces, if_neg (by simpa using someItem), itemText]

theorem text_mapping {entries : List (Label × Outline)} (someEntry : entries ≠ []) :
    (mapping entries).text column = entryText column entries := by
  rw [text, pieces, if_neg (by simpa using someEntry), entryText]

/-- The text of elements does not depend on their numbers. -/
theorem text_itemPieces (number : Nat) (items : List Outline) :
    Piece.text (itemPieces column number items) = itemText column items := by
  rw [itemText]
  -- Neither number is fixed in the induction, since both of them grow.
  generalize 0 = other
  induction items generalizing number other with
  | nil => rw [itemPieces, itemPieces]
  | cons item later inductionHypothesis =>
      rw [itemPieces, itemPieces]
      simp only [Piece.text_cons, Piece.text_append, Piece.text_map_within]
      rw [inductionHypothesis (number + 1) (other + 1)]

theorem itemText_singleton (item : Outline) :
    itemText column [item] = '-' :: ' ' :: item.text (column + 2) := by
  rw [itemText, itemPieces]
  simp only [Piece.text_cons, Piece.text_append, Piece.text_map_within]
  simp [separator, itemPieces, Piece.text, text]

theorem itemText_cons_cons (item next : Outline) (later : List Outline) :
    itemText column (item :: next :: later) =
      '-' :: ' ' :: (item.text (column + 2) ++
        '\n' :: (List.replicate column ' ' ++ itemText column (next :: later))) := by
  rw [itemText, itemPieces]
  simp only [Piece.text_cons, Piece.text_append, Piece.text_map_within, text_itemPieces]
  simp [separator, Piece.text, Piece.lineBreak, text]

theorem entryText_singleton (label : Label) (value : Outline) :
    entryText column [(label, value)] =
      label.chars ++ ':' :: ((value.gap column).chars ++ value.text (column + 2)) := by
  rw [entryText, entryPieces]
  simp only [Piece.text_cons, Piece.text_append, Piece.text_map_within]
  simp [separator, entryPieces, Piece.text, text]

theorem entryText_cons_cons (label : Label) (value : Outline) (next : Label × Outline)
    (later : List (Label × Outline)) :
    entryText column ((label, value) :: next :: later) =
      label.chars ++ ':' :: ((value.gap column).chars ++ (value.text (column + 2) ++
        '\n' :: (List.replicate column ' ' ++ entryText column (next :: later)))) := by
  rw [entryText, entryPieces]
  simp only [Piece.text_cons, Piece.text_append, Piece.text_map_within]
  simp [separator, Piece.text, Piece.lineBreak, text, entryText]

/-- A value that stands on the line of its key reads the same on every column. -/
theorem text_eq_of_isInline {node : Outline} (isInline : node.isInline = true)
    (column other : Nat) : node.text column = node.text other := by
  cases node with
  | scalar word => rw [text_scalar, text_scalar]
  | sequence items =>
      have noItem : items.isEmpty = true := isInline
      simp [text, pieces, noItem]
  | mapping entries =>
      have noEntry : entries.isEmpty = true := isInline
      simp [text, pieces, noEntry]

/-! ## Rows -/

/-- The number of lines from a key down to its value. -/
def drop (value : Outline) : Nat :=
  if value.isInline then 0 else 1

mutual

/-- The number of lines on which a node is printed. -/
def rows : Outline → Nat
  | scalar _ => 1
  | sequence items => if items.isEmpty then 1 else itemRows items
  | mapping entries => if entries.isEmpty then 1 else entryRows entries

def itemRows : List Outline → Nat
  | [] => 0
  | item :: later => item.rows + itemRows later

def entryRows : List (Label × Outline) → Nat
  | [] => 0
  | (_, value) :: later => value.drop + value.rows + entryRows later

end

theorem rows_sequence {items : List Outline} (someItem : items ≠ []) :
    (sequence items).rows = itemRows items := by
  rw [rows, if_neg (by simpa using someItem)]

theorem rows_mapping {entries : List (Label × Outline)} (someEntry : entries ≠ []) :
    (mapping entries).rows = entryRows entries := by
  rw [rows, if_neg (by simpa using someEntry)]

theorem count_word (word : Word) : word.chars.count '\n' = 0 := by
  rw [List.count_eq_zero]
  intro member
  exact absurd (word.alphanumeric '\n' member) (by decide)

theorem count_gap (value : Outline) : (value.gap column).chars.count '\n' = value.drop := by
  unfold gap drop
  split
  · rfl
  · simp [Piece.lineBreak, List.count_replicate]

theorem count_itemText {items : List Outline} (someItem : items ≠ [])
    (each : ∀ item ∈ items, ∀ column : Nat, (item.text column).count '\n' + 1 = item.rows)
    (column : Nat) : (itemText column items).count '\n' + 1 = itemRows items := by
  induction items with
  | nil => exact absurd rfl someItem
  | cons item later inductionHypothesis =>
      rw [List.forall_mem_cons] at each
      have first := each.1 (column + 2)
      cases later with
      | nil =>
          rw [itemText_singleton]
          simp [itemRows]
          omega
      | cons next others =>
          have rest := inductionHypothesis (List.cons_ne_nil next others) each.2
          rw [itemText_cons_cons, itemRows]
          simp [List.count_replicate]
          omega

theorem count_entryText {entries : List (Label × Outline)} (someEntry : entries ≠ [])
    (each : ∀ entry ∈ entries, ∀ column : Nat,
      (entry.2.text column).count '\n' + 1 = entry.2.rows)
    (column : Nat) : (entryText column entries).count '\n' + 1 = entryRows entries := by
  induction entries with
  | nil => exact absurd rfl someEntry
  | cons entry later inductionHypothesis =>
      obtain ⟨label, value⟩ := entry
      rw [List.forall_mem_cons] at each
      have first : (value.text (column + 2)).count '\n' + 1 = value.rows := each.1 (column + 2)
      cases later with
      | nil =>
          rw [entryText_singleton]
          simp [entryRows, count_word, count_gap]
          omega
      | cons next others =>
          have rest := inductionHypothesis (List.cons_ne_nil next others) each.2
          rw [entryText_cons_cons, entryRows]
          simp [List.count_replicate, count_word, count_gap]
          omega

/-- A node takes one row more than its text has line breaks. -/
theorem count_text (node : Outline) (column : Nat) :
    (node.text column).count '\n' + 1 = node.rows := by
  induction node generalizing column with
  | scalar word => rw [text_scalar, count_word, rows]
  | sequence items inductionHypothesis =>
      by_cases noItem : items = []
      · subst noItem
        simp [text, pieces, rows, Piece.text]
      · rw [text_sequence noItem, rows_sequence noItem]
        exact count_itemText noItem inductionHypothesis column
  | mapping entries inductionHypothesis =>
      by_cases noEntry : entries = []
      · subst noEntry
        simp [text, pieces, rows, Piece.text]
      · rw [text_mapping noEntry, rows_mapping noEntry]
        exact count_entryText noEntry inductionHypothesis column

end Outline
end FieldLine
