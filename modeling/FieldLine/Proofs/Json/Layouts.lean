import FieldLine.Json.Value
import FieldLine.Proofs.Json.Grammar
import Mathlib.Data.List.Forall2

/-!
# Layouts of written values

A value is written on one line, or with one element or member a line.  Both forms have the same
elements and members and differ in the white space around them, so both are values of the grammar.
-/

namespace FieldLine

/-! ## White space -/

namespace JsonSyntax.Padding

def spaces (count : Nat) : Padding :=
  ⟨List.replicate count ' ', fun _ member => .inl (List.eq_of_mem_replicate member)⟩

def lineBreak (depth : Nat) : Padding where
  chars := '\n' :: List.replicate (2 * depth) ' '
  blank := by
    refine List.forall_mem_cons.mpr ⟨.inr (.inr (.inl rfl)), ?_⟩
    exact fun _ member => .inl (List.eq_of_mem_replicate member)

theorem encode_chars (padding : Padding) : Utf8.encode (.ofList padding.chars) = padding.bytes := by
  rw [Utf8.encode_ofList]
  apply Json.Text.flatMap_encodeChar_ascii
  intro c member
  rcases padding.blank c member with rfl | rfl | rfl | rfl <;> decide

end JsonSyntax.Padding

namespace Json

open JsonSyntax (Padded Padding)
open Yaml.Lexer (Brackets)

/-- Any blanks are white space of the grammar. -/
theorem exists_padding {blank : List UInt8} (isBlank : IsBlank blank) :
    ∃ padding : Padding, padding.bytes = blank := by
  induction blank with
  | nil => exact ⟨.spaces 0, rfl⟩
  | cons space later inductionHypothesis =>
      obtain ⟨isSpace, isBlankLater⟩ := List.forall_mem_cons.mp isBlank
      obtain ⟨⟨chars, blankChars⟩, rfl⟩ := inductionHypothesis isBlankLater
      have isChar : ∃ c, byte c = space ∧ (c = ' ' ∨ c = '\t' ∨ c = '\n' ∨ c = '\r') := by
        simp only [Json.isSpace, Bool.or_eq_true, decide_eq_true_eq] at isSpace
        rcases isSpace with ((rfl | rfl) | rfl) | rfl
        all_goals exact ⟨_, rfl, by decide⟩
      obtain ⟨c, rfl, blankChar⟩ := isChar
      exact ⟨⟨c :: chars, List.forall_mem_cons.mpr ⟨blankChar, blankChars⟩⟩, rfl⟩

/-! ## Layouts -/

/-- The white space in a written collection: before each element or member, after the colon of each
member, and before the closing bracket. -/
structure Layout where
  gap : Padding
  afterColon : Padding
  closing : Padding

namespace Layout

/-- Everything on one line, without any white space. -/
def compact : Layout :=
  ⟨.spaces 0, .spaces 0, .spaces 0⟩

/-- One element or member a line, two spaces for each level. -/
def pretty (depth : Nat) : Layout :=
  ⟨.lineBreak (depth + 1), .spaces 1, .lineBreak depth⟩

def behind (layout : Layout) : (last : Bool) → Padding
  | true => layout.closing
  | false => .spaces 0

/-- Written elements in their places. -/
def items (layout : Layout) : List (List UInt8) → List (Padded (List UInt8))
  | [] => []
  | item :: later => ⟨layout.gap, item, layout.behind later.isEmpty⟩ :: layout.items later

/-- Written names and values in the places of members. -/
def entries (layout : Layout) : List (String × String) → List Entry
  | [] => []
  | (name, value) :: later =>
      ⟨⟨layout.gap, Utf8.encode (Text.quote name), .spaces 0⟩,
        ⟨layout.afterColon, Utf8.encode value, layout.behind later.isEmpty⟩⟩ ::
          layout.entries later

/-- A member from its name to the end of its value. -/
def member (layout : Layout) (pair : String × String) : String :=
  Text.quote pair.1 ++ (":" ++ .ofList layout.afterColon.chars) ++ pair.2

variable (layout : Layout)

theorem map_inner_items (written : List (List UInt8)) :
    (layout.items written).map Padded.inner = written := by
  induction written with
  | nil => rfl
  | cons item later inductionHypothesis =>
      rw [items, List.map_cons, inductionHypothesis]

theorem forall₂_entries (pairs : List (String × String)) :
    List.Forall₂
      (fun entry pair => Spells pair.1 entry.name.inner ∧ entry.value.inner = Utf8.encode pair.2)
      (layout.entries pairs) pairs := by
  induction pairs with
  | nil => exact .nil
  | cons pair later inductionHypothesis =>
      obtain ⟨name, value⟩ := pair
      simp only [entries, List.forall₂_cons, and_true]
      exact ⟨spells_quote name, inductionHypothesis⟩

theorem item_member (name value : List UInt8) (behind : Padding) :
    Entry.item ⟨⟨layout.gap, name, .spaces 0⟩, ⟨layout.afterColon, value, behind⟩⟩ =
      ⟨layout.gap, name ++ byte ':' :: (layout.afterColon.bytes ++ value), behind⟩ := rfl

theorem map_item_entries (pairs : List (String × String)) :
    (layout.entries pairs).map Entry.item =
      layout.items ((pairs.map layout.member).map Utf8.encode) := by
  induction pairs with
  | nil => rfl
  | cons pair later inductionHypothesis =>
      obtain ⟨name, value⟩ := pair
      have isMember : Utf8.encode (layout.member (name, value)) =
          Utf8.encode (Text.quote name) ++
            byte ':' :: (layout.afterColon.bytes ++ Utf8.encode value) := by
        rw [member, Utf8.encode_append, Utf8.encode_append, Utf8.encode_append,
          layout.afterColon.encode_chars, List.append_assoc, List.append_assoc]
        rfl
      have sameEnd : ((later.map layout.member).map Utf8.encode).isEmpty = later.isEmpty := by
        rw [List.isEmpty_map, List.isEmpty_map]
      rw [entries, List.map_cons, List.map_cons, List.map_cons, items, inductionHypothesis,
        isMember, sameEnd, item_member]

/-- Lines with commas between them are read as elements, whatever follows each comma. -/
theorem listed_items (brackets : Brackets) (line : String) (later : List String) (first : Bool) :
    listed brackets first (.spaces 0) (layout.items ((line :: later).map Utf8.encode)) =
      Cursor.lead layout.gap.bytes first ++
        (Utf8.encode (String.intercalate ("," ++ .ofList layout.gap.chars) (line :: later)) ++
          (layout.closing.bytes ++ [byte brackets.right])) := by
  induction later generalizing line first with
  | nil =>
      rw [String.intercalate_singleton]
      rfl
  | cons other later inductionHypothesis =>
      rw [String.intercalate_cons_cons, Utf8.encode_append, Utf8.encode_append, Utf8.encode_append,
        layout.gap.encode_chars, List.append_assoc, List.append_assoc]
      change Cursor.lead layout.gap.bytes first ++ (Utf8.encode line ++ listed brackets false
        (.spaces 0) (layout.items ((other :: later).map Utf8.encode))) = _
      rw [inductionHypothesis other false]
      rfl

end Layout

/-! ## Collections -/

namespace Value

theorem compactList_eq (elements : List Value) : compactList elements = elements.map compact := by
  induction elements with
  | nil => rfl
  | cons element later inductionHypothesis =>
      rw [compactList, inductionHypothesis, List.map_cons]

theorem prettyList_eq (depth : Nat) (elements : List Value) :
    prettyList depth elements = elements.map (prettyAt depth) := by
  induction elements with
  | nil => rfl
  | cons element later inductionHypothesis =>
      rw [prettyList, inductionHypothesis, List.map_cons]

theorem compactMembers_eq (members : List (String × Value)) :
    compactMembers members =
      (members.map fun member => (member.1, member.2.compact)).map Layout.compact.member := by
  induction members with
  | nil => rfl
  | cons member later inductionHypothesis =>
      obtain ⟨name, value⟩ := member
      rw [compactMembers, inductionHypothesis]
      rfl

theorem prettyMembers_eq (depth level : Nat) (members : List (String × Value)) :
    prettyMembers depth members =
      (members.map fun member => (member.1, member.2.prettyAt depth)).map
        (Layout.pretty level).member := by
  induction members with
  | nil => rfl
  | cons member later inductionHypothesis =>
      obtain ⟨name, value⟩ := member
      rw [prettyMembers, inductionHypothesis]
      rfl

theorem encode_newline (depth : Nat) :
    Utf8.encode (newline depth) = (Padding.lineBreak depth).bytes :=
  Padding.encode_chars (.lineBreak depth)

section

variable (brackets : Brackets) (lines : List String) {opening closing : String}
  (opens : Utf8.encode opening = [byte brackets.left])
  (closes : Utf8.encode closing = [byte brackets.right])
include opens closes

theorem encode_line :
    Utf8.encode (opening ++ String.intercalate "," lines ++ closing) =
      enclosed brackets (.spaces 0) (Layout.compact.items (lines.map Utf8.encode)) := by
  rw [Utf8.encode_append, Utf8.encode_append, opens, closes, enclosed]
  cases lines with
  | nil => rfl
  | cons line later =>
      rw [Layout.compact.listed_items]
      rfl

theorem encode_block (depth : Nat) :
    Utf8.encode (block depth opening closing lines) =
      enclosed brackets (.spaces 0) ((Layout.pretty depth).items (lines.map Utf8.encode)) := by
  rw [block, enclosed]
  cases lines with
  | nil =>
      rw [if_pos rfl, Utf8.encode_append, opens, closes]
      rfl
  | cons line later =>
      rw [if_neg (List.cons_ne_nil _ _), (Layout.pretty depth).listed_items]
      simp only [Utf8.encode_append, opens, closes, encode_newline, List.append_assoc]
      rfl

end

theorem encode_compact_list (elements : List Value) :
    Utf8.encode (list elements).compact =
      listBytes (.spaces 0)
        (Layout.compact.items (elements.map fun element => Utf8.encode element.compact)) := by
  rw [compact, compactList_eq, encode_line .square _ rfl rfl, List.map_map]
  rfl

theorem encode_compact_object (members : List (String × Value)) :
    Utf8.encode (object members).compact =
      objectBytes (.spaces 0)
        (Layout.compact.entries (members.map fun member => (member.1, member.2.compact))) := by
  rw [compact, compactMembers_eq, encode_line .curly _ rfl rfl, objectBytes,
    Layout.map_item_entries]

theorem encode_prettyAt_list (depth : Nat) (elements : List Value) :
    Utf8.encode ((list elements).prettyAt depth) =
      listBytes (.spaces 0) ((Layout.pretty depth).items
        (elements.map fun element => Utf8.encode (element.prettyAt (depth + 1)))) := by
  rw [prettyAt, prettyList_eq, encode_block .square _ rfl rfl, List.map_map]
  rfl

theorem encode_prettyAt_object (depth : Nat) (members : List (String × Value)) :
    Utf8.encode ((object members).prettyAt depth) =
      objectBytes (.spaces 0) ((Layout.pretty depth).entries
        (members.map fun member => (member.1, member.2.prettyAt (depth + 1)))) := by
  rw [prettyAt, prettyMembers_eq (depth + 1) depth, encode_block .curly _ rfl rfl, objectBytes,
    Layout.map_item_entries]

end Value
end Json
end FieldLine
