import FieldLine.Proofs.Json.Layouts
import FieldLine.Proofs.Violation.Records

/-!
# Reading back violation records

The members of a written record state the record, on one line or over several, and so they do with
the line that was found among them.  So records survive being written.
-/

namespace FieldLine
namespace Violation

open Json (IsBlank IsValue Layout listBytes spells_quote)

/-- A record whose line fits in 64 bits, as every record does that is read. -/
def FitsWord (violation : Violation) : Prop :=
  ∀ line ∈ violation.line, line < wordBound

/-! ## Members -/

/-- The fields that are written.  A missing line is left out. -/
def fields (violation : Violation) : List Field :=
  Field.all.filter fun field => field ≠ .line ∨ violation.line.isSome

def value (violation : Violation) : Field → Json.Value
  | .rule => .string violation.rule
  | .file => .string violation.file
  | .path => .string violation.path
  | .line => (violation.line.map .natural).getD .null
  | .severity => .string violation.severity
  | .category => .string violation.category

theorem members_eq (violation : Violation) :
    violation.members = violation.fields.map fun field => (field.name, violation.value field) := by
  obtain ⟨rule, file, path, line, severity, category⟩ := violation
  cases line <;> rfl

theorem prettyAt_value (violation : Violation) (depth : Nat) (field : Field) :
    (violation.value field).prettyAt depth = (violation.value field).compact := by
  obtain ⟨rule, file, path, line, severity, category⟩ := violation
  cases field with
  | line => cases line <;> rfl
  | _ => rfl

theorem encode_null : Utf8.encode "null" = ['n', 'u', 'l', 'l'].map Json.byte := by
  decide

theorem isWritten_value {violation : Violation} (fits : violation.FitsWord) (field : Field) :
    (violation.datum field).IsWritten (Utf8.encode (violation.value field).compact) := by
  obtain ⟨rule, file, path, line, severity, category⟩ := violation
  cases field with
  | line =>
      cases line with
      | none => exact encode_null
      | some line => exact ⟨fits line rfl, Json.Number.encode_toString line⟩
  | _ => exact spells_quote _

theorem nodup_fields (violation : Violation) : violation.fields.Nodup :=
  nodup_all.filter _

/-- What is left out has its default. -/
theorem default?_of_not_mem_fields {violation : Violation} {field : Field}
    (absent : field ∉ violation.fields) : field.default? = some (violation.datum field) := by
  obtain ⟨rule, file, path, line, severity, category⟩ := violation
  simp only [fields, List.mem_filter, mem_all, true_and, decide_eq_true_eq, not_or,
    not_not] at absent
  obtain ⟨rfl, noLine⟩ := absent
  cases line with
  | none => rfl
  | some line => exact absurd rfl noLine

/-- The members of a record and some that no record has, in any layout. -/
theorem describes_members {violation : Violation} (fits : violation.FitsWord)
    {others : List (String × Json.Value)}
    (unknown : ∀ other ∈ others, Field.ofName? other.1 = none)
    (areValues : ∀ other ∈ others, IsValue (Utf8.encode other.2.compact)) (layout : Layout) :
    Describes violation (layout.entries
      ((violation.members ++ others).map fun member => (member.1, member.2.compact))) := by
  have written := layout.forall₂_entries
    ((violation.members ++ others).map fun member => (member.1, member.2.compact))
  rw [List.map_append] at written ⊢
  generalize layout.entries _ = entries at written ⊢
  obtain ⟨own, foreign, rfl, ownWritten, foreignWritten⟩ := exists_append_of_forall₂ written
  refine describes_append_foreign ?_ ?_
  · intro entry member
    obtain ⟨pair, pairMember, spells, isWritten⟩ := exists_mem_of_forall₂ foreignWritten.flip member
    obtain ⟨other, otherMember, rfl⟩ := List.mem_map.mp pairMember
    exact ⟨other.1, spells, unknown other otherMember, isWritten ▸ areValues other otherMember⟩
  · rw [members_eq, List.map_map, List.forall₂_map_right_iff] at ownWritten
    refine describes_of_forall₂ violation.nodup_fields (ownWritten.imp ?_)
      fun field => default?_of_not_mem_fields
    rintro entry field ⟨spells, isWritten⟩
    exact ⟨spells, isWritten ▸ isWritten_value fits field⟩

theorem isRecord_toJson {violation : Violation} (fits : violation.FitsWord) :
    IsRecord violation (Utf8.encode violation.toJson.compact) := by
  rw [toJson, Json.Value.encode_compact_object, ← List.append_nil violation.members]
  exact .object _ (describes_members fits (List.forall_mem_nil _) (List.forall_mem_nil _) _)

/-! ## Lists of records -/

/-- Written records are read, whatever blanks follow them. -/
theorem readAll_items {violations : List Violation} {written : List (List UInt8)}
    (records : List.Forall₂ IsRecord violations written) (layout : Layout) {trailing : List UInt8}
    (isBlank : IsBlank trailing) :
    readAll (listBytes (.spaces 0) (layout.items written) ++ trailing) = .ok violations := by
  obtain ⟨after, rfl⟩ := Json.exists_padding isBlank
  have each : List.Forall₂ (fun violation element => IsRecord violation element.inner) violations
      (layout.items written) := by
    rw [← List.forall₂_map_right_iff, layout.map_inner_items]
    exact records
  have areValues : ∀ element ∈ layout.items written, IsValue element.inner := by
    intro element member
    obtain ⟨violation, -, isRecord⟩ := exists_mem_of_forall₂ each member
    exact isRecord.isValue
  exact (readAll_eq_ok_iff areValues (.spaces 0) (.spaces 0) after violations).mpr each

theorem readAll_renderAll {violations : List Violation}
    (fit : ∀ violation ∈ violations, violation.FitsWord) :
    readAll (Utf8.encode (renderAll violations)) = .ok violations := by
  rw [renderAll, Json.Value.encode_compact_list, List.map_map, ← List.append_nil (listBytes _ _)]
  refine readAll_items ?_ .compact Json.isBlank_nil
  rw [List.forall₂_map_right_iff, List.forall₂_same]
  intro violation member
  rw [Function.comp_apply]
  exact isRecord_toJson (fit violation member)

end Violation

namespace ResolvedViolation

open Violation
open Json (IsBlank IsValue spells_quote)

/-- What is written of a resolved record beyond the record itself. -/
def addedMembers (resolved : ResolvedViolation) : List (String × Json.Value) :=
  [("resolved_line", (resolved.line.map .natural).getD .null)] ++
    (resolved.error.map fun error => ("error", .string error)).toList

theorem toJson_eq (resolved : ResolvedViolation) :
    resolved.toJson = .object (resolved.violation.members ++ resolved.addedMembers) := by
  rw [toJson, addedMembers, List.append_assoc]

theorem unknown_addedMembers (resolved : ResolvedViolation) :
    ∀ member ∈ resolved.addedMembers, Field.ofName? member.1 = none := by
  obtain ⟨violation, line, error⟩ := resolved
  cases error with
  | none => simp [addedMembers, Field.ofName?, Field.all, Field.name]
  | some error => simp [addedMembers, Field.ofName?, Field.all, Field.name]

theorem isValue_addedMembers (resolved : ResolvedViolation) :
    ∀ member ∈ resolved.addedMembers, IsValue (Utf8.encode member.2.compact) := by
  obtain ⟨violation, line, error⟩ := resolved
  refine List.forall_mem_append.mpr ⟨List.forall_mem_singleton.mpr ?_, ?_⟩
  · cases line with
    | none =>
        change IsValue (Utf8.encode "null")
        exact encode_null ▸ IsValue.literal .null
    | some line => exact Json.Number.encode_toString line ▸ Json.isValue_written line
  · cases error with
    | none => exact List.forall_mem_nil _
    | some error =>
        exact List.forall_mem_singleton.mpr (.string (spells_quote error).isString)

/-- No member takes more than one line. -/
theorem prettyAt_of_mem_members (resolved : ResolvedViolation) (depth : Nat) :
    ∀ member ∈ resolved.violation.members ++ resolved.addedMembers,
      member.2.prettyAt depth = member.2.compact := by
  obtain ⟨violation, line, error⟩ := resolved
  rw [members_eq, List.forall_mem_append, List.forall_mem_map]
  refine ⟨fun field _ => prettyAt_value violation depth field, ?_⟩
  cases line <;> cases error <;> simp [addedMembers, Json.Value.prettyAt, Json.Value.compact]

theorem isRecord_toJson {resolved : ResolvedViolation} (fits : resolved.violation.FitsWord)
    (depth : Nat) :
    IsRecord resolved.violation (Utf8.encode (resolved.toJson.prettyAt depth)) := by
  have onOneLine : ∀ member ∈ resolved.violation.members ++ resolved.addedMembers,
      (member.1, member.2.prettyAt (depth + 1)) = (member.1, member.2.compact) :=
    fun member isMember =>
      congrArg (member.1, ·) (resolved.prettyAt_of_mem_members (depth + 1) member isMember)
  rw [toJson_eq, Json.Value.encode_prettyAt_object, List.map_congr_left onOneLine]
  exact .object _ (describes_members fits resolved.unknown_addedMembers
    resolved.isValue_addedMembers _)

/-- Resolved records are read as the records that were resolved, whatever blanks follow them. -/
theorem readAll_renderJson {resolved : List ResolvedViolation}
    (fit : ∀ each ∈ resolved, each.violation.FitsWord) {trailing : List UInt8}
    (isBlank : IsBlank trailing) :
    readAll (Utf8.encode (renderJson resolved) ++ trailing) = .ok (resolved.map violation) := by
  rw [renderJson, Json.Value.pretty, Json.Value.encode_prettyAt_list, List.map_map]
  refine readAll_items ?_ (.pretty 0) isBlank
  rw [List.forall₂_map_left_iff, List.forall₂_map_right_iff, List.forall₂_same]
  intro each member
  rw [Function.comp_apply]
  exact isRecord_toJson (fit each member) 1

end ResolvedViolation
end FieldLine
