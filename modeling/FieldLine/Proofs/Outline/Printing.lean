import FieldLine.Path
import FieldLine.Text.Utf8

/-!
# Outlines and how they are printed

An outline is what a document of words says, without its layout: mappings, sequences and words.
It is printed in block style with an indentation of two columns.  The printer works in pieces and
notes on each piece whether it is the key of a member or the dash of an element, and of which
one.  So the text of a document and the lines of its members come from the same list.
-/

namespace FieldLine

structure Word where
  chars : List Char
  someChar : chars ≠ []
  alphanumeric : ∀ c ∈ chars, c.isAlphanum = true

/-- A word that is short enough for a key. -/
structure Label extends Word where
  short : chars.length ≤ 1000

def Word.text (word : Word) : String :=
  .ofList word.chars

def Word.letter (c : Char) (alphanumeric : c.isAlphanum = true) : Word :=
  ⟨[c], List.cons_ne_nil c [], List.forall_mem_singleton.mpr alphanumeric⟩

inductive Outline where
  | scalar (word : Word)
  | sequence (items : List Outline)
  | mapping (entries : List (Label × Outline))

namespace Outline

/-- What passes from elements to their sequence and from values to their mapping holds of all
outlines. -/
@[elab_as_elim, induction_eliminator]
theorem induction {motive : Outline → Prop} (scalar : ∀ word : Word, motive (.scalar word))
    (sequence : ∀ items : List Outline, (∀ item ∈ items, motive item) → motive (.sequence items))
    (mapping : ∀ entries : List (Label × Outline), (∀ entry ∈ entries, motive entry.2) →
      motive (.mapping entries))
    (node : Outline) : motive node := by
  refine
    @Outline.rec motive (fun items => ∀ item ∈ items, motive item)
      (fun entries => ∀ entry ∈ entries, motive entry.2) (fun entry => motive entry.2)
      scalar sequence mapping ?_ ?_ ?_ ?_ ?_ node
  · exact fun _ member => absurd member List.not_mem_nil
  · exact fun _ _ first later => List.forall_mem_cons.mpr ⟨first, later⟩
  · exact fun _ member => absurd member List.not_mem_nil
  · exact fun _ _ first later => List.forall_mem_cons.mpr ⟨first, later⟩
  · exact fun _ _ value => value

end Outline

/-! ## Places -/

/-- How a child is selected in its parent. -/
inductive Selector where
  | key (name : String)
  | index (number : Nat)
deriving DecidableEq, Repr

abbrev Place := List Selector

def Step.selectors : Step → Place
  | key name => [.key name]
  | element name number => [.key name, .index number]

namespace Outline

/-- There is a node at a place. -/
inductive Has : Outline → Place → Prop where
  | here (node : Outline) : Has node []
  | member {entries : List (Label × Outline)} {label : Label} {value : Outline} {rest : Place} :
      (label, value) ∈ entries → Has value rest →
      Has (mapping entries) (.key label.text :: rest)
  | element {items : List Outline} {number : Nat} {item : Outline} {rest : Place} :
      items[number]? = some item → Has item rest →
      Has (sequence items) (.index number :: rest)

/-- The keys of each mapping are distinct. -/
inductive Distinct : Outline → Prop where
  | scalar (word : Word) : Distinct (scalar word)
  | sequence {items : List Outline} :
      (∀ item ∈ items, Distinct item) → Distinct (sequence items)
  | mapping {entries : List (Label × Outline)} :
      (entries.map fun entry => entry.1.text).Nodup →
      (∀ entry ∈ entries, Distinct entry.2) → Distinct (mapping entries)

end Outline

/-! ## Pieces of text -/

/-- A piece of printed text.  If it is a key or a dash, it belongs to a place. -/
structure Piece where
  place? : Option Place
  chars : List Char

namespace Piece

/-- A piece of a child as a piece of its parent. -/
def within (selector : Selector) (piece : Piece) : Piece :=
  { piece with place? := piece.place?.map (selector :: ·) }

def lineBreak (column : Nat) : Piece :=
  ⟨none, '\n' :: List.replicate column ' '⟩

def text (pieces : List Piece) : List Char :=
  pieces.flatMap chars

/-- The places of the keys and dashes in a text that starts on a line, each with the line on
which it is written. -/
def written (line : Nat) : List Piece → List (Place × Nat)
  | [] => []
  | piece :: later =>
      (piece.place?.map fun place => (place, line)).toList ++
        written (line + piece.chars.count '\n') later

end Piece

namespace Outline

/-- Whether a value stands on the line of its key: words and empty collections do. -/
def isInline : Outline → Bool
  | scalar _ => true
  | sequence items => items.isEmpty
  | mapping entries => entries.isEmpty

/-- What separates a key and its colon from the value. -/
def gap (column : Nat) (value : Outline) : Piece :=
  if value.isInline then ⟨none, [' ']⟩ else .lineBreak (column + 2)

/-- What separates a child from those after it, if there are any. -/
def separator {α : Type} (column : Nat) (later : List α) : List Piece :=
  if later.isEmpty then [] else [.lineBreak column]

mutual

/-- A node, printed from a column on. -/
def pieces (column : Nat) : Outline → List Piece
  | scalar word => [⟨none, word.chars⟩]
  | sequence items =>
      if items.isEmpty then [⟨none, ['[', ']']⟩] else itemPieces column 0 items
  | mapping entries =>
      if entries.isEmpty then [⟨none, ['\x7b', '\x7d']⟩] else entryPieces column entries

/-- The elements of a sequence from a number on, each after a dash. -/
def itemPieces (column number : Nat) : List Outline → List Piece
  | [] => []
  | item :: later =>
      ⟨some [.index number], ['-', ' ']⟩ ::
        ((item.pieces (column + 2)).map (.within (.index number)) ++ separator column later ++
          itemPieces column (number + 1) later)

/-- The members of a mapping, each a key with a colon and a value. -/
def entryPieces (column : Nat) : List (Label × Outline) → List Piece
  | [] => []
  | (label, value) :: later =>
      ⟨some [.key label.text], label.chars ++ [':']⟩ :: value.gap column ::
        ((value.pieces (column + 2)).map (.within (.key label.text)) ++
          separator column later ++ entryPieces column later)

end

end Outline

/-- A document: a mapping that is not empty, with distinct keys throughout. -/
structure BlockDocument where
  entries : List (Label × Outline)
  someEntry : entries ≠ []
  distinct : (Outline.mapping entries).Distinct

namespace BlockDocument

def root (document : BlockDocument) : Outline :=
  .mapping document.entries

/-- The printed document.  It ends with the end of a line. -/
def pieces (document : BlockDocument) : List Piece :=
  document.root.pieces 0 ++ [.lineBreak 0]

def bytes (document : BlockDocument) : List UInt8 :=
  Utf8.encode <| .ofList <| Piece.text document.pieces

end BlockDocument
end FieldLine
