import FieldLine.Proofs.Document.LineEndings
import FieldLine.Proofs.Outline.Parsing
import Mathlib.Data.List.TakeWhile

/-!
# Bytes of printed outlines

A printed document consists of ASCII characters that stand for themselves in UTF-8, without a
null or a carriage return.  So decoding gives back the printed text, and from there the document.
-/

namespace FieldLine

/-! ## Plain characters -/

/-- An ASCII character that is neither a null nor a carriage return. -/
def IsPlainChar (c : Char) : Prop :=
  c.toNat < 128 ∧ c ≠ '\x00' ∧ c ≠ '\r'

instance : DecidablePred IsPlainChar :=
  fun _ => inferInstanceAs (Decidable (_ ∧ _))

theorem isPlainChar_of_isAlphanum {c : Char} (alphanumeric : c.isAlphanum = true) :
    IsPlainChar c := by
  refine ⟨?_, Yaml.ne_of_isAlphanum alphanumeric '\x00' rfl,
    Yaml.ne_of_isAlphanum alphanumeric '\r' rfl⟩
  change
    ((decide (c.val ≥ 65 ∧ c.val ≤ 90) || (decide (c.val ≥ 97) && decide (c.val ≤ 122))) ||
      (decide (c.val ≥ 48) && decide (c.val ≤ 57))) = true at alphanumeric
  simp only [Bool.or_eq_true, Bool.and_eq_true, decide_eq_true_eq, ge_iff_le,
    UInt32.le_iff_toNat_le] at alphanumeric
  change c.val.toNat < 128
  have upper : (90 : UInt32).toNat = 90 := rfl
  have lower : (122 : UInt32).toNat = 122 := rfl
  have digit : (57 : UInt32).toNat = 57 := rfl
  omega

namespace Document

/-- Plain text is read as it is. -/
theorem body_eq_self {text : List Char} (plain : ∀ c ∈ text, IsPlainChar c) :
    body text = text := by
  have noNull : text.takeWhile (· ≠ '\x00') = text := by
    rw [List.takeWhile_eq_self_iff]
    exact fun c member => decide_eq_true (plain c member).2.1
  rw [body, noNull, unifyBreaks_eq_self fun c member => (plain c member).2.2]

end Document

/-! ## Printed text -/

def Piece.IsPlain (piece : Piece) : Prop :=
  ∀ c ∈ piece.chars, IsPlainChar c

namespace Piece

theorem IsPlain.lineBreak (column : Nat) : (lineBreak column).IsPlain := by
  intro c member
  rcases List.mem_cons.mp member with rfl | blank
  · decide
  · obtain ⟨_, rfl⟩ := List.mem_replicate.mp blank
    decide

theorem IsPlain.map_within {pieces : List Piece} (plain : ∀ piece ∈ pieces, piece.IsPlain)
    (selector : Selector) : ∀ piece ∈ pieces.map (within selector), piece.IsPlain := by
  intro piece member
  obtain ⟨inner, innerMember, rfl⟩ := List.mem_map.mp member
  exact plain inner innerMember

theorem isPlainChar_text {pieces : List Piece} (plain : ∀ piece ∈ pieces, piece.IsPlain) :
    ∀ c ∈ text pieces, IsPlainChar c := by
  intro c member
  obtain ⟨piece, pieceMember, charMember⟩ := List.mem_flatMap.mp member
  exact plain piece pieceMember c charMember

end Piece

namespace Outline

variable {column : Nat}

theorem isPlain_gap (value : Outline) : (value.gap column).IsPlain := by
  unfold gap
  split
  · exact List.forall_mem_singleton.mpr (by decide)
  · exact .lineBreak _

theorem isPlain_separator {α : Type} (later : List α) :
    ∀ piece ∈ separator column later, piece.IsPlain := by
  unfold separator
  split
  · simp
  · simpa using Piece.IsPlain.lineBreak column

theorem isPlain_itemPieces {items : List Outline}
    (each : ∀ item ∈ items, ∀ column : Nat, ∀ piece ∈ item.pieces column, piece.IsPlain)
    (column number : Nat) : ∀ piece ∈ itemPieces column number items, piece.IsPlain := by
  induction items generalizing number with
  | nil => simp [itemPieces]
  | cons item later inductionHypothesis =>
      rw [List.forall_mem_cons] at each
      have dash : ∀ c ∈ ['-', ' '], IsPlainChar c := by
        rw [List.forall_mem_cons, List.forall_mem_singleton]
        decide
      rw [itemPieces, List.forall_mem_cons, List.forall_mem_append, List.forall_mem_append]
      exact
        ⟨dash, ⟨.map_within (each.1 _) _, isPlain_separator later⟩,
          inductionHypothesis each.2 (number + 1)⟩

theorem isPlain_entryPieces {entries : List (Label × Outline)}
    (each : ∀ entry ∈ entries, ∀ column : Nat, ∀ piece ∈ entry.2.pieces column, piece.IsPlain)
    (column : Nat) : ∀ piece ∈ entryPieces column entries, piece.IsPlain := by
  induction entries with
  | nil => simp [entryPieces]
  | cons entry later inductionHypothesis =>
      obtain ⟨label, value⟩ := entry
      rw [List.forall_mem_cons] at each
      have key : ∀ c ∈ label.chars ++ [':'], IsPlainChar c := by
        rw [List.forall_mem_append, List.forall_mem_singleton]
        exact
          ⟨fun c member => isPlainChar_of_isAlphanum (label.alphanumeric c member), by decide⟩
      rw [entryPieces, List.forall_mem_cons, List.forall_mem_cons, List.forall_mem_append,
        List.forall_mem_append]
      exact
        ⟨key, isPlain_gap value, ⟨.map_within (each.1 _) _, isPlain_separator later⟩,
          inductionHypothesis each.2⟩

theorem isPlain_pieces (node : Outline) (column : Nat) :
    ∀ piece ∈ node.pieces column, piece.IsPlain := by
  induction node generalizing column with
  | scalar word =>
      rw [pieces, List.forall_mem_singleton]
      exact fun c member => isPlainChar_of_isAlphanum (word.alphanumeric c member)
  | sequence items inductionHypothesis =>
      rw [pieces]
      split
      · have brackets : ∀ c ∈ ['[', ']'], IsPlainChar c := by
          rw [List.forall_mem_cons, List.forall_mem_singleton]
          decide
        exact List.forall_mem_singleton.mpr brackets
      · exact isPlain_itemPieces inductionHypothesis column 0
  | mapping entries inductionHypothesis =>
      rw [pieces]
      split
      · have brackets : ∀ c ∈ ['\x7b', '\x7d'], IsPlainChar c := by
          rw [List.forall_mem_cons, List.forall_mem_singleton]
          decide
        exact List.forall_mem_singleton.mpr brackets
      · exact isPlain_entryPieces inductionHypothesis column

end Outline

namespace BlockDocument

theorem text_pieces (document : BlockDocument) :
    Piece.text document.pieces = document.root.text 0 ++ ['\n'] := by
  rw [pieces, Piece.text_append]
  rfl

/-- The bytes of a printed document are read as its tree. -/
theorem ofBytes_bytes (document : BlockDocument) :
    Document.ofBytes document.bytes = .ok (.document 1 (some (document.root.tree 1))) := by
  have plain : ∀ c ∈ Piece.text document.pieces, IsPlainChar c := by
    apply Piece.isPlainChar_text
    rw [pieces, List.forall_mem_append, List.forall_mem_singleton]
    exact ⟨Outline.isPlain_pieces _ 0, .lineBreak 0⟩
  have decoded : Utf8.decode document.bytes = .ok (Piece.text document.pieces) :=
    (Utf8.decode_encode _).trans (congrArg Except.ok String.toList_ofList)
  have someByte : document.bytes ≠ [] := by
    intro noByte
    rw [noByte, text_pieces] at decoded
    have noChar : [] = document.root.text 0 ++ ['\n'] := Except.ok.inj decoded
    simp at noChar
  rw [Document.ofBytes, if_neg someByte, decoded]
  simp only
  rw [Document.ofText, Document.body_eq_self plain, text_pieces, root,
    Outline.events_mapping document.someEntry]
  simp only
  rw [Outline.ofEvents_source]

end BlockDocument
end FieldLine
