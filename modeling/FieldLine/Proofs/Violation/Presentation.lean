import FieldLine.Proofs.Json.Layouts
import FieldLine.Proofs.Violation.Records

/-!
# Presentations of violation records

What is read from an array depends on what its elements state, not on how they are presented: as
objects or as arrays, with their members in any order, with members that no record has, and with any
white space.  An array with an element that does not state a record is not read at all.
-/

namespace FieldLine
namespace Violation

open Json (IsString IsValue Spells listBytes objectBytes)
open JsonSyntax (Padded Padding)

/-! ## Elements that are no records -/

/-- An object without a field that has no default, an object with two members for one field, or a
list that is too short. -/
inductive IsBroken : List UInt8 → Prop where
  | missing (inside : Padding) {entries : List Json.Entry} {field : Field}
      (areNames : ∀ entry ∈ entries, IsString entry.name.inner)
      (areValues : ∀ entry ∈ entries, IsValue entry.value.inner)
      (noDefault : field.default? = none) (absent : ∀ entry ∈ entries, ¬field.Names entry) :
      IsBroken (objectBytes inside entries)
  | repeated (inside : Padding) {entries : List Json.Entry} {field : Field}
      {first second : Json.Entry}
      (areNames : ∀ entry ∈ entries, IsString entry.name.inner)
      (areValues : ∀ entry ∈ entries, IsValue entry.value.inner)
      (both : [first, second].Sublist entries) (names : field.Names first)
      (namesToo : field.Names second) : IsBroken (objectBytes inside entries)
  | short (inside : Padding) {items : List (Padded (List UInt8))}
      (areValues : ∀ item ∈ items, IsValue item.inner) (few : items.length < 3) :
      IsBroken (listBytes inside items)

theorem not_isRecord_of_isBroken {element : List UInt8} (isBroken : IsBroken element)
    (violation : Violation) : ¬IsRecord violation element := by
  intro isRecord
  -- The same bytes could be split into members in another way, so the reader decides.
  obtain ⟨next, reads⟩ := @readRecord_of_isRecord violation element [] _ isRecord (Nat.le_refl _) {}
  cases isBroken with
  | missing inside areNames areValues noDefault absent =>
      have describes := (describes_of_readRecord areNames areValues (Nat.le_refl _) reads).1
      have hasDefault := describes.optional _ absent
      rw [noDefault] at hasDefault
      cases hasDefault
  | repeated inside areNames areValues both names namesToo =>
      have describes := (describes_of_readRecord areNames areValues (Nat.le_refl _) reads).1
      have apart := List.pairwise_pair.mp (describes.noneTwice.sublist both)
      exact apart _ names namesToo
  | short inside areValues few =>
      obtain ⟨present, missing, all, states, optional⟩ :=
        (lists_of_readRecord areValues reads).1
      rw [← states.length_eq] at few
      rcases present with _ | ⟨first, _ | ⟨second, _ | ⟨third, later⟩⟩⟩
      · cases all
        cases optional .rule (by decide)
      · cases all
        cases optional .file (by decide)
      · cases all
        cases optional .path (by decide)
      · simp only [List.length_cons] at few
        omega

/-- What is read from an array of any values, with any white space, is what its elements state.  An
object states the same with its members in another order and with more or fewer members that no
record has.  If one element lacks a required member or has a member twice, nothing is read. -/
theorem readAll_presentation (before inside after : Padding)
    (elements : List (Padded (List UInt8)))
    (areValues : ∀ element ∈ elements, IsValue element.inner) :
    let bytes := before.bytes ++ (listBytes inside elements ++ after.bytes)
    (∀ violations : List Violation, readAll bytes = .ok violations ↔
      List.Forall₂ (fun violation element => IsRecord violation element.inner) violations
        elements) ∧
    (∀ element ∈ elements, IsBroken element.inner → ∃ fault, readAll bytes = .error fault) ∧
    (∀ (violation : Violation) (entries others : List Json.Entry), entries.Perm others →
      (Describes violation entries ↔ Describes violation others)) ∧
    ∀ (violation : Violation) (entries : List Json.Entry) (entry : Json.Entry) (name : String),
      Spells name entry.name.inner → Field.ofName? name = none → IsValue entry.value.inner →
      (Describes violation (entry :: entries) ↔ Describes violation entries) := by
  intro bytes
  refine ⟨readAll_eq_ok_iff areValues before inside after, ?_, ?_, ?_⟩
  · intro element member isBroken
    rcases reads : readAll bytes with fault | violations
    · exact ⟨fault, rfl⟩
    · have records := (readAll_eq_ok_iff areValues before inside after violations).mp reads
      obtain ⟨violation, -, isRecord⟩ := exists_mem_of_forall₂ records member
      exact absurd isRecord (not_isRecord_of_isBroken isBroken violation)
  · intro violation entries others perm
    exact ⟨describes_perm perm, describes_perm perm.symm⟩
  · intro violation entries entry name spells foreign isValue
    exact describes_cons_foreign spells foreign isValue

/-! ## An array of both kinds -/

def quotedText (text : String) : Padded (List UInt8) :=
  ⟨.spaces 1, Utf8.encode (Json.Text.quote text), .spaces 0⟩

/-- Members that are in no order of a record, with one among them that no record has. -/
def shuffled : List Json.Entry :=
  [⟨quotedText "path", quotedText "a.b"⟩,
    ⟨quotedText "\n", ⟨.spaces 1, listBytes (.spaces 1) [], .spaces 0⟩⟩,
    ⟨quotedText "file", quotedText "\u20ac"⟩, ⟨quotedText "rule_id", quotedText "R1"⟩]

/-- The values of a record up to its line. -/
def upToLine : List (Padded (List UInt8)) :=
  [quotedText "R2", quotedText "f", quotedText "", ⟨.spaces 0, Json.Number.written 7, .spaces 1⟩]

theorem spells_quotedText (text : String) : Spells text (quotedText text).inner := by
  have inner : (quotedText text).inner = Utf8.encode (Json.Text.quote text) := by
    rw [quotedText]
  rw [inner]
  exact Json.spells_quote text

theorem describes_shuffled :
    Describes { rule := "R1", file := "\u20ac", path := "a.b" } shuffled := by
  have distinct : [Field.path, .file, .rule].Nodup := by decide
  refine describes_perm (.swap _ _ _) ((describes_cons_foreign (spells_quotedText "\n") rfl
    (.list _ (List.forall_mem_nil _))).mpr ?_)
  refine describes_of_forall₂ distinct ?_ ?_
  · exact .cons ⟨spells_quotedText "path", spells_quotedText "a.b"⟩
      (.cons ⟨spells_quotedText "file", spells_quotedText "\u20ac"⟩
        (.cons ⟨spells_quotedText "rule_id", spells_quotedText "R1"⟩ .nil))
  · intro field absent
    cases field with
    | line => rfl
    | severity => rfl
    | category => rfl
    | _ => exact absurd absent (by decide)

theorem lists_upToLine :
    Lists { rule := "R2", file := "f", path := "", line := some 7 } upToLine := by
  refine ⟨[.rule, .file, .path, .line], [.severity, .category], rfl, ?_, ?_⟩
  · exact .cons (spells_quotedText "R2") (.cons (spells_quotedText "f")
      (.cons (spells_quotedText "") (.cons ⟨by decide, rfl⟩ .nil)))
  · exact List.forall_mem_cons.mpr ⟨rfl, List.forall_mem_singleton.mpr rfl⟩

theorem readAll_presentation_mixed :
    let elements : List (Padded (List UInt8)) :=
      [⟨.spaces 1, objectBytes (.spaces 0) shuffled, .spaces 0⟩,
        ⟨.spaces 0, listBytes (.spaces 1) upToLine, .spaces 1⟩]
    let before : Padding := .spaces 0
    let after : Padding := .spaces 1
    (∀ element ∈ elements, IsValue element.inner) ∧
      readAll (before.bytes ++ (listBytes (.spaces 0) elements ++ after.bytes)) =
        .ok [{ rule := "R1", file := "\u20ac", path := "a.b" },
          { rule := "R2", file := "f", path := "", line := some 7 }] := by
  intro elements before after
  have isShuffled := IsRecord.object (.spaces 0) describes_shuffled
  have isUpToLine := IsRecord.list (.spaces 1) lists_upToLine
  have areValues : ∀ element ∈ elements, IsValue element.inner :=
    List.forall_mem_cons.mpr
      ⟨isShuffled.isValue, List.forall_mem_singleton.mpr isUpToLine.isValue⟩
  refine ⟨areValues, ?_⟩
  refine ((readAll_presentation before (.spaces 0) after elements areValues).1 _).mpr ?_
  exact .cons isShuffled (.cons isUpToLine .nil)

end Violation
end FieldLine
